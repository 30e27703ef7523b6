import Scriptlet.Proofs.Store.Matching

/-!
# Proofs/Store/Chain — a name is looked up along a chain that ends

Outer scopes are older than the scopes inside them, so the outer scopes of a scope are a finite
list, its **chain**.  Looking a name up is a search of the chain, and its bound on the number of
steps is never met.

Each change that a program makes writes one name of one scope.  What it does to a lookup anywhere is
read off the chain: the write is seen where the search meets the written scope before any other
scope that binds the name.
-/

namespace Scriptlet

/-! ## One scope

Both operations on a scope are told by what they do to each name of it. -/

namespace Scope

/-- A name that is added stands for its value, in front of what was there. -/
theorem get?_add (c : Scope) (x y : String) (v : Value) :
    (c.add x v).get? y = if y = x then some v else c.get? y := by
  unfold get? add
  rw [List.lookup_cons]
  by_cases hy : y = x
  · rw [if_pos hy, hy, beq_self_eq_true]
  · rw [if_neg hy, beq_false_of_ne hy]

/-- A name that is set stands for the new value, if it is bound at all. -/
theorem get?_set (c : Scope) (x y : String) (v : Value) :
    (c.set x v).get? y = if y = x ∧ c.binds x then some v else c.get? y := by
  unfold binds get? set
  induction c.bindings with
  | nil => simp
  | cons b bs ih =>
    obtain ⟨z, u⟩ := b
    rw [List.map_cons, List.lookup_cons, List.lookup_cons, List.lookup_cons]
    by_cases hz : x = z
    · obtain rfl := hz
      by_cases hy : y = x
      · simp [hy]
      · simpa [hy, beq_false_of_ne hy] using ih
    · rw [beq_false_of_ne hz]
      by_cases hy : y = z
      · simp [hy, Ne.symm hz]
      · simpa [Ne.symm hz, beq_false_of_ne hy] using ih

/-- Setting a name binds no name that was not bound before. -/
theorem binds_set (c : Scope) (x y : String) (v : Value) : (c.set x v).binds y = c.binds y := by
  rw [binds, get?_set]
  by_cases h : y = x ∧ c.binds x
  · obtain ⟨rfl, hbinds⟩ := h
    rw [if_pos ⟨rfl, hbinds⟩, hbinds, Option.isSome_some]
  · rw [if_neg h, binds]

end Scope

namespace Store

/-! ## What a scope itself binds

The bindings of one scope are asked for at its place in the store, without a look at outer scopes.
-/

/-- The value that the scope at a place itself binds the name to. -/
def own? (s : Store) (k : ScopeId) (x : String) : Option Value :=
  s.scopes[k]?.bind (·.get? x)

/-- A scope owns a name that it binds to something. -/
theorem owns_eq_isSome (s : Store) (k : ScopeId) (x : String) :
    s.owns k x = (s.own? k x).isSome := by
  unfold owns own?
  rcases s.scopes[k]? with _ | c
  · rfl
  · rfl

/-- A lookup finds the scope of the name first, and then its value there. -/
theorem get?_eq_bind (s : Store) (i : ScopeId) (x : String) :
    s.get? i x = (s.resolve i x).bind (s.own? · x) :=
  rfl

/-- What a scope itself binds is seen from it, whatever is further out. -/
theorem get?_of_own? {s : Store} {i : ScopeId} {x : String} {v : Value}
    (h : s.own? i x = some v) : s.get? i x = some v := by
  obtain ⟨c, hc, hv⟩ := Option.bind_eq_some_iff.mp h
  have hbinds : c.binds x := Option.isSome_iff_exists.mpr ⟨v, hv⟩
  have hresolve : s.resolve i x = some i := by
    rw [resolve, resolveWithin, hc]
    exact if_pos hbinds
  rw [get?_eq_bind, hresolve, Option.bind_some, h]

/-- Store `t` is store `s` with `x` written in the scope at `home`, in so far as names are read. -/
def Written (s t : Store) (home : ScopeId) (x : String) (v : Value) : Prop :=
  ∀ k y, t.own? k y = if k = home ∧ y = x then some v else s.own? k y

/-! Both changes that a program can make are writes: a new binding, and a new value for a name that
is bound. -/

theorem written_bind {s : Store} {home : ScopeId} (hhome : home < s.nextScope) (x : String)
    (v : Value) : s.Written (s.bind home x v) home x v := by
  intro k y
  obtain ⟨c, hc⟩ : ∃ c, s.scopes[home]? = some c := ⟨_, Array.getElem?_eq_getElem hhome⟩
  unfold own?
  by_cases hk : home = k
  · subst hk
    rw [(s.changed_bind home x v).at_home hc, hc, Option.bind_some, Option.bind_some,
      Scope.get?_add]
    simp only [true_and]
  · rw [(s.changed_bind home x v).elsewhere hk, if_neg fun h => hk h.1.symm]

theorem written_set {s : Store} {home : ScopeId} {x : String} (howns : s.owns home x)
    (v : Value) : s.Written (s.set home x v) home x v := by
  intro k y
  unfold owns at howns
  unfold own?
  rcases hc : s.scopes[home]? with _ | c
  · simp only [hc, Bool.false_eq_true] at howns
  · simp only [hc] at howns
    by_cases hk : home = k
    · subst hk
      rw [(s.changed_set home x v).at_home hc, hc, Option.bind_some, Option.bind_some,
        Scope.get?_set]
      simp only [howns, true_and, and_true]
    · rw [(s.changed_set home x v).elsewhere hk, if_neg fun h => hk h.1.symm]

/-- A new value for a name moves no name to another scope, so each name is found where it was. -/
theorem resolveWithin_set (s : Store) (home : ScopeId) (x y : String) (v : Value) (n : Nat)
    (i : ScopeId) : (s.set home x v).resolveWithin y n i = s.resolveWithin y n i := by
  induction n generalizing i with
  | zero => rfl
  | succ n ih =>
    simp only [resolveWithin, (s.changed_set home x v).scopes]
    by_cases hi : home = i
    · rw [if_pos hi]
      rcases s.scopes[i]? with _ | c
      · rfl
      · simp only [Option.map_some, c.binds_set, c.outer_set, funext ih]
    · rw [if_neg hi]
      simp only [funext ih]

/-- **A name that is assigned stands for its new value**, seen from where it was assigned. -/
theorem get?_set {s : Store} {i home : ScopeId} {x : String} (h : s.resolve i x = some home)
    (v : Value) : (s.set home x v).get? i x = some v := by
  have hresolve : (s.set home x v).resolve i x = some home :=
    (s.resolveWithin_set home x x v (i + 1) i).trans h
  rw [get?_eq_bind, hresolve, Option.bind_some, written_set (owns_of_resolveWithin h) v home x,
    if_pos ⟨rfl, rfl⟩]

/-! ### Searching a list of scopes

On a list, a search and what a write does to it are settled by one induction, with no store behind
it. -/

/-- The first scope of a list that binds a name gives the first value. -/
theorem find?_owns_bind (s : Store) (l : List ScopeId) (x : String) :
    (l.find? (s.owns · x)).bind (s.own? · x) = l.findSome? (s.own? · x) := by
  induction l with
  | nil => rfl
  | cons k l ih =>
    rw [List.find?_cons, List.findSome?_cons, owns_eq_isSome]
    rcases hk : s.own? k x with _ | v
    · simpa only [Option.isSome_none] using ih
    · simpa only [Option.isSome_some, Option.bind_some] using hk

/-- **A write, seen by a search**: it is found where the scope that was written is the first to bind
the name. -/
theorem findSome?_written {s t : Store} {home : ScopeId} {x : String} {v : Value}
    (hst : s.Written t home x v) (l : List ScopeId) (y : String) :
    l.findSome? (t.own? · y) =
      if y = x ∧ l.find? (fun k => s.owns k x || k == home) = some home then some v
      else l.findSome? (s.own? · y) := by
  -- Along the scopes that are searched: the first of them is the written one, binds the name
  -- itself, or is passed over before and after.
  induction l with
  | nil => simp
  | cons k l ih =>
    rw [List.findSome?_cons, List.findSome?_cons, List.find?_cons, hst k y, ih, owns_eq_isSome]
    by_cases hy : y = x
    · subst hy
      by_cases hk : k = home
      · -- the search stops at the written scope
        simp [hk]
      · -- the search stops here if this scope binds the name, and else goes on
        rcases s.own? k y with _ | u <;> simp [hk, beq_false_of_ne hk]
    · simp [hy]

/-! ## Chains

A chain ends because outer scopes are older.  No operation on a store changes a chain, so chains
need not be followed through a history. -/

/-- The scopes from a place outwards, up to one that has no outer scope. -/
inductive Chain (s : Store) : ScopeId → List ScopeId → Prop
  | root {i : ScopeId} {c : Scope} :
      s.scopes[i]? = some c → c.outer = none → Chain s i [i]
  | inside {i : ScopeId} {c : Scope} {o : ScopeId} {l : List ScopeId} :
      s.scopes[i]? = some c → c.outer = some o → Chain s o l → Chain s i (i :: l)

/-- **Every chain ends**: each outer scope has a smaller place. -/
theorem Ordered.exists_chain {s : Store} (hs : s.Ordered) (i : ScopeId) (hi : i < s.nextScope) :
    ∃ l, s.Chain i l := by
  induction i using Nat.strongRecOn with
  | _ i ih =>
    have hc : s.scopes[i]? = some s.scopes[i] := Array.getElem?_eq_getElem hi
    rcases ho : s.scopes[i].outer with _ | o
    · exact ⟨[i], .root hc ho⟩
    · have hlt : o < i := hs i _ o hc ho
      obtain ⟨l, hl⟩ := ih o hlt (Nat.lt_trans hlt hi)
      exact ⟨i :: l, .inside hc ho hl⟩

namespace Chain

variable {s t : Store} {i home : ScopeId} {l : List ScopeId} {x : String} {v : Value}

/-- Outer scopes never change, and so no chain does. -/
theorem change {f : Scope → Scope} (h : s.Chain i l) (hst : s.Changed t home f) : t.Chain i l := by
  have hscope : ∀ {k : ScopeId} {c : Scope}, s.scopes[k]? = some c →
      ∃ c' : Scope, t.scopes[k]? = some c' ∧ c'.outer = c.outer := by
    intro k c hc
    by_cases hk : home = k
    · subst hk
      exact ⟨f c, hst.at_home hc, hst.outer c⟩
    · exact ⟨c, (hst.elsewhere hk).trans hc, rfl⟩
  induction h with
  | root hc ho =>
    obtain ⟨c', hc', ho'⟩ := hscope hc
    exact .root hc' (ho'.trans ho)
  | inside hc ho _ ih =>
    obtain ⟨c', hc', ho'⟩ := hscope hc
    exact .inside hc' (ho'.trans ho) ih

/-! ### A lookup is a search of the chain

The lookup follows outer scopes with a bound on its steps.  The bound is the number of scopes, and a
chain has fewer members, so what is found is the first member that binds the name. -/

/-- With as many steps as the place of the scope says, the search comes to the end of the chain. -/
theorem resolveWithin (h : s.Chain i l) (hs : s.Ordered) (x : String) {n : Nat} (hn : i < n) :
    s.resolveWithin x n i = l.find? (s.owns · x) := by
  induction h generalizing n with
  | root hc ho =>
    obtain ⟨n, rfl⟩ := Nat.exists_eq_add_one_of_ne_zero (Nat.ne_zero_of_lt hn)
    simp only [Store.resolveWithin, hc, ho, Option.bind_none, List.find?_cons, List.find?_nil, owns]
    cases Scope.binds _ x <;> rfl
  | @inside i c o l hc ho _ ih =>
    obtain ⟨n, rfl⟩ := Nat.exists_eq_add_one_of_ne_zero (Nat.ne_zero_of_lt hn)
    have howns : s.owns i x = c.binds x := by simp only [owns, hc]
    have hout : o < n := Nat.lt_of_lt_of_le (hs i c o hc ho) (Nat.le_of_lt_succ hn)
    simp only [Store.resolveWithin, hc, ho, Option.bind_some, List.find?_cons, howns, ih hout]
    cases c.binds x <;> rfl

/-- **The scope of a name is the first in the chain that owns it.** -/
theorem resolve_eq (h : s.Chain i l) (hs : s.Ordered) (x : String) :
    s.resolve i x = l.find? (s.owns · x) :=
  h.resolveWithin hs x (Nat.lt_succ_self i)

theorem owns_of_resolve (h : s.Chain i l) (hs : s.Ordered) (hx : s.resolve i x = some home) :
    s.owns home x := by
  rw [h.resolve_eq hs] at hx
  exact List.find?_some (p := fun k => s.owns k x) hx

/-- **A lookup is a search of the chain.** -/
theorem get?_eq (h : s.Chain i l) (hs : s.Ordered) (x : String) :
    s.get? i x = l.findSome? (s.own? · x) := by
  rw [get?_eq_bind, h.resolve_eq hs x]
  exact find?_owns_bind s l x

/-! ### A write, seen from anywhere

Which lookups see a write is a matter of their chains: those on which the written scope comes before
any other that binds the name. -/

/-- **A write is seen from where the search meets the written scope first**: before any other scope
that binds the name. -/
theorem get?_written (h : s.Chain i l) (h' : t.Chain i l) (hs : s.Ordered) (ht : t.Ordered)
    (hst : s.Written t home x v) (y : String) :
    t.get? i y = if y = x ∧ l.find? (fun k => s.owns k x || k == home) = some home then some v
      else s.get? i y := by
  rw [h.get?_eq hs, h'.get?_eq ht]
  exact findSome?_written hst l y

/-- A write to a scope that binds the name is seen from where the name stands for that scope. -/
theorem get?_overwritten (h : s.Chain i l) (h' : t.Chain i l) (hs : s.Ordered) (ht : t.Ordered)
    (hst : s.Written t home x v) (howns : s.owns home x) (y : String) :
    t.get? i y = if y = x ∧ s.resolve i x = some home then some v else s.get? i y := by
  have hfirst : (fun k => s.owns k x || k == home) = (s.owns · x) := by
    funext k
    by_cases hk : k = home
    · rw [hk, howns, Bool.true_or]
    · rw [beq_false_of_ne hk, Bool.or_false]
  rw [h.get?_written h' hs ht hst y, hfirst, h.resolve_eq hs x]

end Chain

end Store

end Scriptlet
