import Scriptlet.Proofs.Store.Scopes
import Scriptlet.Proofs.Value.Entries

/-!
# Proofs/Store/Reach — what a scope can reach

A value holds itself and, if it is an array or a hash, what its elements hold, or the key objects
and the values of its entries; among that may be functions, and each of these captures a scope.  A
scope reaches its outer scope and the scopes captured by what it binds, and what they reach in turn.
-/

namespace Scriptlet

/-! ## Inside a value

A function holds nothing but captures a scope, and the others hold values but capture no scope
themselves.  So what a value captures is settled by its parts. -/

/-- The value `u` is the value itself or somewhere inside it. -/
inductive Value.Holds (u : Value) : Value → Prop
  | self : Holds u u
  | element {i : Identity} {es : List Value} {v : Value} :
    v ∈ es → Holds u v → Holds u (.array i es)
  | key {i : Identity} {ps : List HashEntry} {p : HashEntry} :
    p ∈ ps → Holds u p.2.key → Holds u (.hash i ps)
  | entry {i : Identity} {ps : List HashEntry} {p : HashEntry} :
    p ∈ ps → Holds u p.2.value → Holds u (.hash i ps)

/-- The value holds a function that was made in the scope. -/
def Value.Captures (v : Value) (scope : ScopeId) : Prop :=
  ∃ i params body, Value.Holds (.function i params body scope) v

namespace Value

variable {scope : ScopeId}

/-- A function captures one scope. -/
theorem captures_function {i : Identity} {params : List Param} {body : Block} {s : ScopeId} :
    Captures (.function i params body s) scope ↔ scope = s := by
  constructor
  · rintro ⟨i', params', body', h⟩
    cases h
    rfl
  · rintro rfl
    exact ⟨i, params, body, .self⟩

/-- An array captures what its elements capture. -/
theorem captures_array {i : Identity} {es : List Value} :
    Captures (.array i es) scope ↔ ∃ v ∈ es, v.Captures scope := by
  constructor
  · rintro ⟨i', params, body, h⟩
    cases h with
    | element hv h => exact ⟨_, hv, i', params, body, h⟩
  · rintro ⟨v, hv, i', params, body, h⟩
    exact ⟨i', params, body, .element hv h⟩

/-- A hash captures what its key objects and its values do; keys that come from programs capture
nothing. -/
theorem captures_hash {i : Identity} {ps : List HashEntry} :
    Captures (.hash i ps) scope ↔ ∃ p ∈ ps, p.2.key.Captures scope ∨ p.2.value.Captures scope := by
  constructor
  · rintro ⟨i', params, body, h⟩
    cases h with
    | key hp h => exact ⟨_, hp, .inl ⟨i', params, body, h⟩⟩
    | entry hp h => exact ⟨_, hp, .inr ⟨i', params, body, h⟩⟩
  · rintro ⟨p, hp, ⟨i', params, body, h⟩ | ⟨i', params, body, h⟩⟩
    · exact ⟨i', params, body, .key hp h⟩
    · exact ⟨i', params, body, .entry hp h⟩

end Value

/-- The value holds functions made in `A` only. -/
def Value.Within (A : ScopeId → Prop) (v : Value) : Prop := ∀ k, v.Captures k → A k

namespace Value

variable {A : ScopeId → Prop}

/-! A value is within `A` if all that it captures is: the elements of an array, the key objects and
values of a hash, the scope of a function. -/

theorem within_array {i : Identity} {es : List Value} :
    Within A (.array i es) ↔ ∀ v ∈ es, v.Within A :=
  ⟨fun h v hv k hk => h k (captures_array.mpr ⟨v, hv, hk⟩), fun h k hk =>
    let ⟨v, hv, hk⟩ := captures_array.mp hk
    h v hv k hk⟩

theorem within_hash {i : Identity} {ps : List HashEntry} :
    Within A (.hash i ps) ↔ ∀ p ∈ ps, p.2.All (Within A) := by
  constructor
  · exact fun h p hp => ⟨fun k hk => h k (captures_hash.mpr ⟨p, hp, .inl hk⟩),
      fun k hk => h k (captures_hash.mpr ⟨p, hp, .inr hk⟩)⟩
  · intro h k hk
    obtain ⟨p, hp, hk | hk⟩ := captures_hash.mp hk
    · exact (h p hp).key k hk
    · exact (h p hp).value k hk

theorem within_function {i : Identity} {params : List Param} {body : Block} {s : ScopeId} :
    Within A (.function i params body s) ↔ A s :=
  ⟨fun h => h s (captures_function.mpr rfl), fun h _ hk => captures_function.mp hk ▸ h⟩

end Value

/-! ## Through the store

A set of scopes is closed if nothing leads out of it.  What is in reach of one scope is the least
closed set with that scope in it, so all that is shown of closed sets is shown of it. -/

/-- The scope at `i` **reaches** a scope. -/
inductive Store.Reaches (s : Store) (i : ScopeId) : ScopeId → Prop
  | self : Reaches s i i
  | outer {j o : ScopeId} {c : Scope} :
    Reaches s i j → s.scopes[j]? = some c → c.outer = some o → Reaches s i o
  | captured {j k : ScopeId} {c : Scope} {b : String × Value} :
    Reaches s i j → s.scopes[j]? = some c → b ∈ c.bindings → b.2.Captures k → Reaches s i k

/-- The scopes in `A` refer to scopes in `A` only. -/
structure Store.Closed (s : Store) (A : ScopeId → Prop) : Prop where
  outer : ∀ {i : ScopeId} {c : Scope} {o : ScopeId}, A i → s.scopes[i]? = some c →
    c.outer = some o → A o
  bindings : ∀ {i : ScopeId} {c : Scope} {b : String × Value}, A i → s.scopes[i]? = some c →
    b ∈ c.bindings → b.2.Within A

namespace Store

variable {s : Store} {A : ScopeId → Prop} {i : ScopeId}

theorem closed_reaches (s : Store) (i : ScopeId) : s.Closed (s.Reaches i) :=
  ⟨.outer, fun hj hc hb _ hk => .captured hj hc hb hk⟩

namespace Closed

/-- What a scope reaches is the least closed set around it. -/
theorem of_reaches (hA : s.Closed A) (hi : A i) {j : ScopeId} (h : s.Reaches i j) : A j := by
  induction h with
  | self => exact hi
  | outer _ hc ho ih => exact hA.outer ih hc ho
  | captured _ hc hb hk ih => exact hA.bindings ih hc hb _ hk

theorem congr (hA : s.Closed A) {t : Store}
    (h : ∀ i, A i → t.scopes[i]? = s.scopes[i]?) : t.Closed A :=
  ⟨fun hi hc => hA.outer hi (h _ hi ▸ hc), fun hi hc => hA.bindings hi (h _ hi ▸ hc)⟩

/-- A name is found within the set, starting there. -/
theorem resolve (hA : s.Closed A) (hi : A i) {x : String} {home : ScopeId}
    (h : s.resolve i x = some home) : A home :=
  resolveWithin_mem hA.outer hi h

theorem get? (hA : s.Closed A) (hi : A i) {x : String} {v : Value} (h : s.get? i x = some v) :
    v.Within A := by
  obtain ⟨home, c, hhome, hc, hv⟩ := get?_eq_some h
  exact hA.bindings (hA.resolve hi hhome) hc (Scope.mem_bindings_of_get? hv)

/-- A new scope inside one of the set belongs to the set. -/
theorem addScope (hA : s.Closed A) (hi : A i) : (s.addScope (some i)).Closed A := by
  constructor
  · intro k c o hk hc ho
    rcases addScope_cases hc with hc | ⟨-, rfl⟩
    · exact hA.outer hk hc ho
    · cases ho
      exact hi
  · intro k c b hk hc hb
    rcases addScope_cases hc with hc | ⟨-, rfl⟩
    · exact hA.bindings hk hc hb
    · cases hb

/-- One scope may come to bind a value that belongs to `A`. -/
theorem change (hA : s.Closed A) {t : Store} {home : ScopeId} {f : Scope → Scope}
    (h : s.Changed t home f) {v : Value} (hv : v.Within A)
    (hbindings : ∀ c b, b ∈ (f c).bindings → b ∈ c.bindings ∨ b.2 = v) : t.Closed A := by
  constructor
  · intro k c o hk hc ho
    obtain ⟨c₀, hc₀, rfl | rfl⟩ := h.scope_cases hc
    · exact hA.outer hk hc₀ ho
    · exact hA.outer hk hc₀ (h.outer c₀ ▸ ho)
  · intro k c b hk hc hb
    obtain ⟨c₀, hc₀, rfl | rfl⟩ := h.scope_cases hc
    · exact hA.bindings hk hc₀ hb
    · rcases hbindings c₀ b hb with hb | rfl
      · exact hA.bindings hk hc₀ hb
      · exact hv

theorem bind (hA : s.Closed A) {v : Value} (hv : v.Within A) (home : ScopeId) (x : String) :
    (s.bind home x v).Closed A :=
  hA.change (s.changed_bind home x v) hv fun _ _ => Scope.mem_bindings_add

theorem set (hA : s.Closed A) {v : Value} (hv : v.Within A) (home : ScopeId) (x : String) :
    (s.set home x v).Closed A :=
  hA.change (s.changed_set home x v) hv fun _ _ => Scope.mem_bindings_set

end Closed

end Store

end Scriptlet
