import Scriptlet.Proofs.Eval.Course
import Scriptlet.Session

/-!
# Proofs/Session/History — what a host can come to

A host makes scopes, binds names in them and changes their values, and evaluates one program after
another, each in a scope and under limits of its choice; it goes on after programs that fail.  The
values it gives away may be asked to have some property `P`; then `Store.Reached P` are the stores
that can come of it, whatever the programs.

What evaluation keeps, and the host's values have, all these stores have (`Reached.keeps`).
-/

namespace Scriptlet

/-! ## Sources

A source is evaluated only if it is read without errors; otherwise the store is not touched. -/

section

variable {limits : Limits} {fuel : Nat} {i : ScopeId} {source : String} {s t : Store}

/-- A source without errors is evaluated as the program that is read. -/
theorem evalSource_ok_iff {v : Value} : evalSource limits fuel i source s = some (.ok v, t) ↔
    (parse source).errors = [] ∧ ∃ m,
      Program.eval limits fuel i (parse source).program ⟨s, 0⟩ = some (v, m) ∧ t = m.store := by
  by_cases herrors : (parse source).errors = []
  · rw [evalSource_of_read herrors]
    constructor
    · intro h
      obtain ⟨⟨v, m⟩, heval, heq⟩ := Option.map_eq_some_iff.mp h
      cases heq
      exact ⟨herrors, m, heval, rfl⟩
    · rintro ⟨-, m, heval, rfl⟩
      rw [heval]
      rfl
  · rw [evalSource_of_errors herrors]
    exact ⟨nofun, fun h => absurd h.1 herrors⟩

/-- A source with errors leaves the store as it was. -/
theorem store_of_evalSource_error {errors : List ParseError}
    (h : evalSource limits fuel i source s = some (.error errors, t)) : t = s := by
  by_cases herrors : (parse source).errors = []
  · rw [evalSource_of_read herrors] at h
    obtain ⟨_, -, heq⟩ := Option.map_eq_some_iff.mp h
    cases heq
  · rw [evalSource_of_errors herrors] at h
    cases h
    rfl

end

/-! ## Histories

The steps are those of a host: a new scope, a binding, an assignment and the evaluation of a
program.  A program that fails is a step like any other, with what it did before it failed. -/

/-- The stores that a host can come to, giving away values with the property `P` only. -/
inductive Store.Reached (P : Value → Prop) : Store → Prop
  | empty : Reached P .empty
  | addScope {s : Store} (outer : Option ScopeId) : Reached P s → Reached P (s.addScope outer)
  /-- An array, a hash or a function that the host makes has an identity of its own. -/
  | spendId {s : Store} : Reached P s → Reached P s.spendId
  | define {s t : Store} {i : ScopeId} {x : String} {v : Value} :
    Reached P s → P v → s.define i x v = .ok t → Reached P t
  | assign {s t : Store} {i : ScopeId} {x : String} {v : Value} :
    Reached P s → P v → s.assign i x v = .ok t → Reached P t
  | eval {s : Store} {limits : Limits} {fuel : Nat} {i : ScopeId} {p : Program} {v : Value}
      {m : Machine} :
    Reached P s → Program.eval limits fuel i p ⟨s, 0⟩ = some (v, m) → Reached P m.store

namespace Store

variable {P : Value → Prop} {s t : Store} {i : ScopeId} {x : String} {v : Value}

/-! ## The host's own changes

A host changes the store by the same operations as programs, so what these keep is kept. -/

/-- A name is bound if the scope does not own it. -/
theorem define_eq_ok (h : s.define i x v = .ok t) : s.owns i x = false ∧ t = s.bind i x v := by
  unfold define at h
  split at h
  · cases h
  · rename_i howns
    exact ⟨Bool.not_eq_true _ ▸ howns, (Except.ok.inj h).symm⟩

/-- A name is changed in the scope where it is found. -/
theorem assign_eq_ok (h : s.assign i x v = .ok t) :
    ∃ home, s.resolve i x = some home ∧ t = s.set home x v := by
  unfold assign at h
  split at h
  · cases h
  · rename_i home hhome
    exact ⟨home, hhome, (Except.ok.inj h).symm⟩

namespace Reached

/-- **All that a host can come to keeps the discipline**, if the values it gives away do. -/
theorem keeps {D : Discipline} (hD : D.Everywhere) (hP : ∀ v, P v → D.value v)
    (hempty : D.store .empty) (hroot : ∀ s, D.store s → D.store (s.addScope none))
    (h : s.Reached P) : D.store s := by
  -- Along the history.  Evaluation keeps the discipline, and the other steps put in nothing but
  -- what the host gives away.
  induction h with
  | empty => exact hempty
  | addScope outer _ ih =>
    cases outer with
    | none => exact hroot _ ih
    | some i => exact (D.addScope ih (hD.scope i)).1
  | spendId _ ih => exact D.spendId ih
  | define _ hv hdefine ih =>
    obtain ⟨howns, rfl⟩ := define_eq_ok hdefine
    exact D.bind ih (hD.own _ _) (hP _ hv) howns
  | assign _ hv hassign ih =>
    obtain ⟨home, hhome, rfl⟩ := assign_eq_ok hassign
    exact D.assign ih (hD.scope _) (hP _ hv) hhome
  | eval _ heval ih =>
    exact (D.of_program (hD.scope _) (fun _ _ x _ => hD.own _ x) ih
      (Program.machine?_of_eval heval)).1

/-- Reading and evaluating a source leads to no other stores. -/
theorem evalSource {limits : Limits} {fuel : Nat} {source : String}
    {result : Except (List ParseError) Value} (h : s.Reached P)
    (heval : evalSource limits fuel i source s = some (result, t)) : t.Reached P := by
  cases result with
  | error errors => exact store_of_evalSource_error heval ▸ h
  | ok v =>
    obtain ⟨-, m, hprogram, rfl⟩ := evalSource_ok_iff.mp heval
    exact h.eval hprogram

/-- So does running a source, whose errors are told apart. -/
theorem run {limits : Limits} {fuel : Nat} {source : String} {result : Except Failure Value}
    (h : s.Reached P) (hrun : run limits fuel i source s = some (result, t)) : t.Reached P := by
  obtain ⟨⟨result', t'⟩, heval, heq⟩ := Option.map_eq_some_iff.mp hrun
  have ht : t' = t := by
    split at heq <;> simp_all
  exact ht ▸ h.evalSource heval

end Reached

end Store

/-! ## Sessions

A session is a store with one scope for its programs, so its own history is one of that store. -/

/-- A result that was changed was a result before. -/
theorem exists_of_map_eq_ok {ε α β : Type} {r : Except ε α} {f : α → β} {b : β}
    (h : r.map f = .ok b) : ∃ a, r = .ok a ∧ f a = b := by
  cases r with
  | error e => cases h
  | ok a => exact ⟨a, rfl, Except.ok.inj h⟩

namespace Session

variable {P : Value → Prop} {s t : Session} {x : String} {v : Value} {limits : Limits} {fuel : Nat}
  {source : String}

/-- A new session has one scope, with nothing in it. -/
theorem new_reached (limits : Limits) : (new limits).store.Reached P := .addScope none .empty

/-- A name is bound in the session. -/
theorem define_reached (h : s.store.Reached P) (hv : P v) (hdefine : s.define x v = .ok t) :
    t.store.Reached P := by
  obtain ⟨store, hstore, rfl⟩ := exists_of_map_eq_ok hdefine
  exact h.define hv hstore

/-- A source is run in the session. -/
theorem run_reached {result : Except Failure Value} (h : s.store.Reached P)
    (hrun : s.run limits fuel source = some (result, t)) : t.store.Reached P := by
  obtain ⟨⟨result', store⟩, hsource, heq⟩ := Option.map_eq_some_iff.mp hrun
  cases heq
  exact h.run hsource

end Session

end Scriptlet
