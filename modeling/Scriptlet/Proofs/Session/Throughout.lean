import Scriptlet.Proofs.Session.History
import Scriptlet.Proofs.Store.Reach

/-!
# Proofs/Session/Throughout — what is true of every value

Evaluation makes well-keyed hashes only, and functions of which no parameter but the last is
variadic.  So let a property be true of plain values, of errors, of arrays, and of hashes and
functions like these.  Then it is true of every value there is, and of every value inside: of what
any scope binds in any store that a host can come to, of what evaluation gives on its way, and of
what it gives to the host in the end.
-/

namespace Scriptlet

open Eval

/-- The property is true of the value and of all that is inside it. -/
def Value.Throughout (P : Value → Prop) (v : Value) : Prop := ∀ u, Value.Holds u v → P u

/-- The property is true of values because of how they are made. -/
structure Inborn (P : Value → Prop) : Prop where
  plain : ∀ v : Value, v.isPlain → P v
  error : ∀ message, P (.error message)
  array : ∀ i es, P (.array i es)
  hash : ∀ i (ps : List HashEntry), WellKeyed ps → P (.hash i ps)
  function : ∀ i params body s, variadicLast params → P (.function i params body s)

namespace Value

variable {P : Value → Prop}

theorem Throughout.self {v : Value} (h : v.Throughout P) : P v := h v .self

/-- Plain values hold nothing but themselves. -/
theorem throughout_of_isPlain {v : Value} (hv : v.isPlain) (h : P v) : v.Throughout P := by
  intro u hu
  cases hu with
  | self => exact h
  | element | key | entry => cases hv

/-- An array has it throughout if it has it, and its elements have it throughout. -/
theorem throughout_array {i : Identity} {es : List Value} :
    Throughout P (.array i es) ↔ P (.array i es) ∧ ∀ e ∈ es, e.Throughout P := by
  refine ⟨fun h => ⟨h.self, fun e he u hu => h u (.element he hu)⟩, fun h u hu => ?_⟩
  cases hu with
  | self => exact h.1
  | element he hu => exact h.2 _ he u hu

/-- A hash has it throughout if it has it, and its key objects and values have it throughout. -/
theorem throughout_hash {i : Identity} {ps : List HashEntry} :
    Throughout P (.hash i ps) ↔ P (.hash i ps) ∧ ∀ p ∈ ps, p.2.All (Throughout P) := by
  constructor
  · exact fun h =>
      ⟨h.self, fun p hp => ⟨fun u hu => h u (.key hp hu), fun u hu => h u (.entry hp hu)⟩⟩
  · intro h u hu
    cases hu with
    | self => exact h.1
    | key hp hu => exact (h.2 _ hp).key u hu
    | entry hp hu => exact (h.2 _ hp).value u hu

/-- What a function captures is not inside it. -/
theorem throughout_function {i : Identity} {params : List Param} {body : Block} {s : ScopeId} :
    Throughout P (.function i params body s) ↔ P (.function i params body s) := by
  refine ⟨Throughout.self, fun h u hu => ?_⟩
  cases hu
  exact h

/-- An error value holds nothing but itself. -/
theorem throughout_error {message : String} :
    Throughout P (.error message) ↔ P (.error message) := by
  refine ⟨Throughout.self, fun h u hu => ?_⟩
  cases hu
  exact h

end Value

/-- All values have the property throughout. -/
def Inborn.discipline {P : Value → Prop} (h : Inborn P) : Discipline :=
  .ofValues (Value.Throughout P) (fun v hv => Value.throughout_of_isPlain hv (h.plain v hv))
    (fun i es => Value.throughout_array.trans (and_iff_right (h.array i es)))
    (fun i ps hkeyed hps => Value.throughout_hash.mpr ⟨h.hash i ps hkeyed, hps⟩)
    (fun _ _ hv => (Value.throughout_hash.mp hv).2)
    fun i params body s hlast => Value.throughout_function.mpr (h.function i params body s hlast)

theorem Inborn.everywhere {P : Value → Prop} (h : Inborn P) : h.discipline.Everywhere :=
  ⟨fun _ => trivial, fun _ _ => trivial⟩

/-- **Every value there is has the property throughout**: each that a scope of the store binds and,
whatever program is evaluated next, each that is bound or given in the course of that, and the one
it ends with. -/
structure Store.Assures (P : Value → Prop) (s : Store) : Prop where
  bound : s.BindsOnly (Value.Throughout P)
  entered : ∀ {limits i p t m},
    Relation.ReflTransGen (Enters limits) (.row i p none, ⟨s, 0⟩) (t, m) →
    m.store.BindsOnly (Value.Throughout P) ∧
      ∀ r m', t.Gives limits m r m' → t.Yields (Value.Throughout P) r
  result : ∀ {limits fuel i p v m}, Program.eval limits fuel i p ⟨s, 0⟩ = some (v, m) →
    v.Throughout P

/-- **What is inborn is true of all values**, if it is of those that the host gives away. -/
theorem Store.Reached.assures {P : Value → Prop} (h : Inborn P) {s : Store}
    (hs : s.Reached (Value.Throughout P)) : s.Assures P := by
  have hbound : s.BindsOnly (Value.Throughout P) :=
    hs.keeps h.everywhere (fun _ hv => hv) BindsOnly.empty fun _ hs => hs.addScope none
  refine ⟨hbound, fun {limits i p t m} henters => ?_, fun {limits fuel i p v m} heval => ?_⟩
  · obtain ⟨hm, ht⟩ := entered_keeps h.everywhere henters ⟨hbound, nofun⟩
    exact ⟨hm, fun r m' hgives => (hgives.keeps h.everywhere ht hm).2⟩
  · have hkeeps : (Program.run limits fuel i p ⟨s, 0⟩).Keeps h.discipline fun r =>
        ∀ v ∈ r, v.Throughout P :=
      Task.keeps (t := .row i p none) h.everywhere fuel nofun hbound
    unfold Program.eval at heval
    generalize Program.run limits fuel i p ⟨s, 0⟩ = o at hkeeps heval
    cases hkeeps with
    | @done r _ _ hr =>
      cases r with
      | none =>
        cases heval
        exact Value.throughout_of_isPlain rfl (h.plain _ rfl)
      | some v =>
        cases heval
        exact hr v rfl
    | returned _ hv =>
      cases heval
      exact hv
    | failed =>
      cases heval
      exact Value.throughout_error.mpr (h.error _)
    | outOfFuel => cases heval

end Scriptlet
