import Scriptlet.Store.Basic

/-!
# Proofs/Store/Scopes — the scopes of a store, one change at a time

Each operation on a store is told by what it does to the scope at each place.  No operation takes a
scope away, changes an outer scope or forgets a name.
-/

namespace Scriptlet

/-! ## One scope

The names of a scope, and what stands behind each. -/

namespace Scope

/-- The names that a scope binds, the newest first. -/
def names (s : Scope) : List String := s.bindings.map Prod.fst

@[simp] theorem names_add (s : Scope) (x : String) (v : Value) : (s.add x v).names = x :: s.names :=
  rfl

@[simp] theorem outer_add (s : Scope) (x : String) (v : Value) : (s.add x v).outer = s.outer := rfl

@[simp] theorem names_set (s : Scope) (x : String) (v : Value) : (s.set x v).names = s.names := by
  unfold names set
  rw [List.map_map]
  refine List.map_congr_left fun b _ => ?_
  dsimp only [Function.comp]
  by_cases h : b.1 = x
  · rw [if_pos h]
    exact h.symm
  · rw [if_neg h]

@[simp] theorem outer_set (s : Scope) (x : String) (v : Value) : (s.set x v).outer = s.outer := rfl

/-- What a name stands for is bound. -/
theorem mem_bindings_of_get? {s : Scope} {x : String} {v : Value} (h : s.get? x = some v) :
    (x, v) ∈ s.bindings := by
  obtain ⟨l₁, l₂, hl, -⟩ := List.lookup_eq_some_iff.mp h
  rw [hl]
  exact List.mem_append_right _ List.mem_cons_self

/-- A binding after an assignment was there before, or holds the value assigned. -/
theorem mem_bindings_set {s : Scope} {x : String} {v : Value} {b : String × Value}
    (h : b ∈ (s.set x v).bindings) : b ∈ s.bindings ∨ b.2 = v := by
  obtain ⟨b', hb', rfl⟩ := List.mem_map.mp h
  split
  · exact .inr rfl
  · exact .inl hb'

/-- A binding was there before, or is the new one. -/
theorem mem_bindings_add {s : Scope} {x : String} {v : Value} {b : String × Value}
    (h : b ∈ (s.add x v).bindings) : b ∈ s.bindings ∨ b.2 = v := by
  rcases List.mem_cons.mp h with rfl | h
  · exact .inr rfl
  · exact .inl h

end Scope

namespace Store

/-! ## Places -/

/-! A place names a scope if it is below `nextScope`. -/

/-- A place with a scope is one that has been given out. -/
theorem lt_nextScope {s : Store} {i : ScopeId} {c : Scope} (h : s.scopes[i]? = some c) :
    i < s.nextScope :=
  (Array.getElem?_eq_some_iff.mp h).1

/-! ### A new scope

It takes the place that is next, binds nothing, and leaves all others alone. -/

@[simp] theorem nextScope_addScope (s : Store) (outer : Option ScopeId) :
    (s.addScope outer).nextScope = s.nextScope + 1 :=
  Array.size_push _

/-- The new scope is empty, at the place that was next; all others are as they were. -/
theorem scopes_addScope (s : Store) (outer : Option ScopeId) (i : ScopeId) :
    (s.addScope outer).scopes[i]? = if i = s.nextScope then some ⟨outer, []⟩ else s.scopes[i]? :=
  Array.getElem?_push

theorem addScope_new (s : Store) (outer : Option ScopeId) :
    (s.addScope outer).scopes[s.nextScope]? = some ⟨outer, []⟩ := by
  rw [scopes_addScope, if_pos rfl]

theorem addScope_old {s : Store} {i : ScopeId} (outer : Option ScopeId) (h : i < s.nextScope) :
    (s.addScope outer).scopes[i]? = s.scopes[i]? := by
  rw [scopes_addScope, if_neg (Nat.ne_of_lt h)]

/-- Each scope is an old one or the new one. -/
theorem addScope_cases {s : Store} {outer : Option ScopeId} {i : ScopeId} {c : Scope}
    (hc : (s.addScope outer).scopes[i]? = some c) :
    s.scopes[i]? = some c ∨ i = s.nextScope ∧ c = ⟨outer, []⟩ := by
  rw [scopes_addScope] at hc
  by_cases hi : i = s.nextScope
  · rw [if_pos hi] at hc
    exact .inr ⟨hi, (Option.some.inj hc).symm⟩
  · rw [if_neg hi] at hc
    exact .inl hc

/-! ### A change to one scope

Most of what is shown of a binding and of a new value needs no more than this: one scope was
changed, and its outer scope was kept. -/

/-- From `s` to `t`, the bindings of the scope at `home` are changed by `f`, and nothing else. -/
structure Changed (s t : Store) (home : ScopeId) (f : Scope → Scope) : Prop where
  scopes : ∀ i : ScopeId, t.scopes[i]? = if home = i then s.scopes[i]?.map f else s.scopes[i]?
  nextScope : t.nextScope = s.nextScope
  nextId : t.nextId = s.nextId
  outer : ∀ c, (f c).outer = c.outer

theorem changed_bind (s : Store) (home : ScopeId) (x : String) (v : Value) :
    s.Changed (s.bind home x v) home (·.add x v) :=
  ⟨fun _ => Array.getElem?_modify, Array.size_modify, rfl, fun c => c.outer_add x v⟩

theorem changed_set (s : Store) (home : ScopeId) (x : String) (v : Value) :
    s.Changed (s.set home x v) home (·.set x v) :=
  ⟨fun _ => Array.getElem?_modify, Array.size_modify, rfl, fun c => c.outer_set x v⟩

namespace Changed

variable {s t : Store} {home : ScopeId} {f : Scope → Scope}

theorem at_home (h : s.Changed t home f) {c : Scope} (hc : s.scopes[home]? = some c) :
    t.scopes[home]? = some (f c) := by
  rw [h.scopes, if_pos rfl, hc, Option.map_some]

theorem elsewhere (h : s.Changed t home f) {i : ScopeId} (hne : home ≠ i) :
    t.scopes[i]? = s.scopes[i]? := by
  rw [h.scopes, if_neg hne]

/-- Each scope is as it was, or changed. -/
theorem scope_cases (h : s.Changed t home f) {i : ScopeId} {c : Scope}
    (hc : t.scopes[i]? = some c) : ∃ c₀, s.scopes[i]? = some c₀ ∧ (c = c₀ ∨ c = f c₀) := by
  by_cases hi : home = i
  · rw [h.scopes, if_pos hi] at hc
    obtain ⟨c₀, hc₀, rfl⟩ := Option.map_eq_some_iff.mp hc
    exact ⟨c₀, hc₀, .inr rfl⟩
  · rw [h.elsewhere hi] at hc
    exact ⟨c, hc, .inl rfl⟩

end Changed

/-! ## Looking up

Looking a name up goes from a scope to its outer scope until one binds the name, so it finds a scope
of the store that binds it. -/

/-- **Looking up stays among scopes that are closed under outer scopes.** -/
theorem resolveWithin_mem {s : Store} {A : ScopeId → Prop}
    (hA : ∀ {i c o}, A i → s.scopes[i]? = some c → c.outer = some o → A o) {x : String} {n : Nat}
    {i home : ScopeId} (hi : A i) (h : s.resolveWithin x n i = some home) : A home := by
  induction n generalizing i with
  | zero => cases h
  | succ n ih =>
    unfold resolveWithin at h
    rcases hc : s.scopes[i]? with _ | c
    · rw [hc] at h
      cases h
    · rw [hc] at h
      dsimp only at h
      by_cases hbinds : c.binds x
      · rw [if_pos hbinds] at h
        cases h
        exact hi
      · rw [if_neg hbinds] at h
        obtain ⟨o, ho, h⟩ := Option.bind_eq_some_iff.mp h
        exact ih (hA hi hc ho) h

/-- The scope in which a name is found binds it. -/
theorem owns_of_resolveWithin {s : Store} {x : String} {n : Nat} {i home : ScopeId}
    (h : s.resolveWithin x n i = some home) : s.owns home x := by
  induction n generalizing i with
  | zero => cases h
  | succ n ih =>
    unfold resolveWithin at h
    rcases hc : s.scopes[i]? with _ | c
    · rw [hc] at h
      cases h
    · rw [hc] at h
      dsimp only at h
      by_cases hbinds : c.binds x
      · rw [if_pos hbinds] at h
        cases h
        rw [owns, hc]
        exact hbinds
      · rw [if_neg hbinds] at h
        obtain ⟨o, -, h⟩ := Option.bind_eq_some_iff.mp h
        exact ih h

/-- What a name stands for is bound to it in the scope where it is found. -/
theorem get?_eq_some {s : Store} {i : ScopeId} {x : String} {v : Value} (h : s.get? i x = some v) :
    ∃ home c, s.resolve i x = some home ∧ s.scopes[home]? = some c ∧ c.get? x = some v := by
  obtain ⟨home, hhome, h⟩ := Option.bind_eq_some_iff.mp h
  obtain ⟨c, hc, h⟩ := Option.bind_eq_some_iff.mp h
  exact ⟨home, c, hhome, hc, h⟩

/-! ## What a store binds

A property of all values that a store binds is kept by every operation, if the values that are put
in have it. -/

/-- All values that the store binds have the property. -/
def BindsOnly (P : Value → Prop) (s : Store) : Prop :=
  ∀ (i : ScopeId) (c : Scope), s.scopes[i]? = some c → ∀ b ∈ c.bindings, P b.2

namespace BindsOnly

variable {P : Value → Prop} {s t : Store}

theorem empty : empty.BindsOnly P := by
  intro i c hc
  cases hc

/-- What a name stands for has the property. -/
theorem get? (hs : s.BindsOnly P) {i : ScopeId} {x : String} {v : Value}
    (h : s.get? i x = some v) : P v := by
  obtain ⟨home, c, -, hc, hv⟩ := get?_eq_some h
  exact hs home c hc _ (Scope.mem_bindings_of_get? hv)

/-- A new scope binds nothing. -/
theorem addScope (hs : s.BindsOnly P) (outer : Option ScopeId) :
    (s.addScope outer).BindsOnly P := by
  intro i c hc b hb
  rcases addScope_cases hc with hc | ⟨-, rfl⟩
  · exact hs i c hc b hb
  · cases hb

/-- One scope may come to bind a value with the property. -/
theorem change (hs : s.BindsOnly P) {home : ScopeId} {f : Scope → Scope} (h : s.Changed t home f)
    {v : Value} (hv : P v) (hbindings : ∀ c b, b ∈ (f c).bindings → b ∈ c.bindings ∨ b.2 = v) :
    t.BindsOnly P := by
  intro i c hc b hb
  obtain ⟨c₀, hc₀, rfl | rfl⟩ := h.scope_cases hc
  · exact hs i c hc₀ b hb
  · rcases hbindings c₀ b hb with hb | rfl
    · exact hs i c₀ hc₀ b hb
    · exact hv

end BindsOnly

end Store

end Scriptlet
