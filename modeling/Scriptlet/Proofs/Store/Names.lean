import Mathlib.Data.Set.Insert
import Scriptlet.Proofs.Store.Chain

/-!
# Proofs/Store/Names — what names stand for, and a name more

What a name stands for depends on the outer scopes and on what each scope binds that name to, and on
nothing else (`get?_congr`).  So a new name in a scope leaves all other names as they were, from
where it is seen and from everywhere else.  -/

namespace Scriptlet.Store

variable {s t : Store} {i : ScopeId} {x y : String} {v : Value}

/-- The names that have a value, seen from a scope. -/
def seen (s : Store) (i : ScopeId) : Set String := {x | (s.get? i x).isSome}

/-- What a name stands for, seen from a scope; null for a name that has no value. -/
def meaning (s : Store) (i : ScopeId) (x : String) : Value := (s.get? i x).getD .null

/-- Names without a value are those that are looked up in vain. -/
theorem notMem_seen : x ∉ s.seen i ↔ s.get? i x = none := Option.not_isSome_iff_eq_none

/-- A name with a value stands for it. -/
theorem get?_of_mem_seen (h : x ∈ s.seen i) : s.get? i x = some (s.meaning i x) := by
  obtain ⟨v, hv⟩ := Option.isSome_iff_exists.mp h
  rw [meaning, hv, Option.getD_some]

/-! ## What a lookup depends on

A lookup goes through outer scopes, and asks each scope for one name.  Two stores that agree on
these answers agree on what the name stands for. -/

/-- The stores **agree on a name**: their scopes have the same outer scopes, and bind it alike. -/
def AgreesOn (s t : Store) (x : String) : Prop :=
  ∀ k : ScopeId, s.scopes[k]?.map (fun c => (c.get? x, c.outer)) =
    t.scopes[k]?.map (fun c => (c.get? x, c.outer))

/-- Stores with the same scopes agree on every name. -/
theorem AgreesOn.of_scopes_eq (h : t.scopes = s.scopes) (x : String) : s.AgreesOn t x :=
  fun k => by rw [h]

/-- Where stores agree on a name, each scope binds it to the same. -/
theorem AgreesOn.own?_eq (h : s.AgreesOn t x) (k : ScopeId) : s.own? k x = t.own? k x := by
  have hfst := congrArg (Option.bind · Prod.fst) (h k)
  simp only [Option.bind_map] at hfst
  exact hfst

/-- The search for the name goes the same way. -/
theorem AgreesOn.resolveWithin_eq (h : s.AgreesOn t x) (n : Nat) (i : ScopeId) :
    s.resolveWithin x n i = t.resolveWithin x n i := by
  induction n generalizing i with
  | zero => rfl
  | succ n ih =>
    have hi := h i
    unfold resolveWithin
    rcases hs : s.scopes[i]? with _ | c <;> rcases ht : t.scopes[i]? with _ | d
    · rfl
    · rw [hs, ht] at hi
      cases hi
    · rw [hs, ht] at hi
      cases hi
    · rw [hs, ht] at hi
      obtain ⟨hget, houter⟩ := Prod.mk.inj (Option.some.inj hi)
      simp only [Scope.binds, hget, houter, funext ih]
      rfl

/-- **A lookup depends on the scopes' bindings of the name**, and on their outer scopes. -/
theorem AgreesOn.get?_eq (h : s.AgreesOn t x) (i : ScopeId) : s.get? i x = t.get? i x := by
  rw [get?_eq_bind, get?_eq_bind, resolve, resolve, h.resolveWithin_eq]
  simp only [h.own?_eq]

/-! ## A new name

Binding one name leaves the answers about other names alone. -/

/-- A new binding changes no answer about another name. -/
theorem agreesOn_bind (s : Store) (i : ScopeId) (hne : x ≠ y) (v : Value) :
    s.AgreesOn (s.bind i y v) x := by
  intro k
  have hchanged := s.changed_bind i y v
  by_cases hk : i = k
  · subst hk
    rw [hchanged.scopes, if_pos rfl, Option.map_map]
    refine congrArg (Option.map · _) (funext fun c => ?_)
    rw [Function.comp, c.get?_add, if_neg hne, c.outer_add]
  · rw [hchanged.elsewhere hk]

/-- **A name that is bound in a scope is seen from it**, and all other names are as they were. -/
theorem get?_bind (hi : i < s.nextScope) (x y : String) (v : Value) :
    (s.bind i y v).get? i x = if x = y then some v else s.get? i x := by
  by_cases hx : x = y
  · rw [if_pos hx, hx]
    exact get?_of_own? ((written_bind hi y v i y).trans (if_pos ⟨rfl, rfl⟩))
  · rw [if_neg hx]
    exact ((agreesOn_bind s i hx v).get?_eq i).symm

end Scriptlet.Store
