import Scriptlet.Proofs.Session.History
import Scriptlet.Proofs.Store.Reach

/-!
# Proofs/Session/Errors — errors are results, never operands

An error value stands for a failed evaluation and is given to the host.  No program gets hold of
one: evaluation makes none, so if the host binds none, no scope ever binds one, and nothing that is
evaluated on the way is one.  Hence an error value as the result of a program means that it failed,
and a host that takes error values for failures makes no mistake.
-/

namespace Scriptlet

open Eval

/-! ## Values without errors

An array or a hash that the host made might have an error value somewhere inside, so the property is
one of the value and of all that it holds. -/

/-- No error value is in the value. -/
def Value.ErrorFree (v : Value) : Prop := ∀ message, ¬ Value.Holds (.error message) v

namespace Value

/-- In particular, the value is not itself an error. -/
theorem ErrorFree.ne_error {v : Value} (h : v.ErrorFree) (message : String) :
    v ≠ .error message := fun heq => h message (heq ▸ .self)

theorem errorFree_of_isPlain {v : Value} (hv : v.isPlain) : v.ErrorFree := by
  intro message h
  cases h <;> cases hv

/-! An array or a hash is free of errors if its parts are, which for a hash are the key objects and
the values of its entries. -/

theorem errorFree_array {i : Identity} {es : List Value} :
    ErrorFree (.array i es) ↔ ∀ v ∈ es, v.ErrorFree := by
  constructor
  · exact fun h v hv message hm => h message (.element hv hm)
  · intro h message hm
    cases hm with
    | element hv hm => exact h _ hv message hm

theorem errorFree_hash {i : Identity} {ps : List HashEntry} :
    ErrorFree (.hash i ps) ↔ ∀ p ∈ ps, p.2.All ErrorFree := by
  constructor
  · exact fun h p hp =>
      ⟨fun message hm => h message (.key hp hm), fun message hm => h message (.entry hp hm)⟩
  · intro h message hm
    cases hm with
    | key hp hm => exact (h _ hp).key message hm
    | entry hp hm => exact (h _ hp).value message hm

/-- What a function captures is not in it: the scope is in the store. -/
theorem errorFree_function (i : Identity) (params : List Param) (body : Block) (s : ScopeId) :
    ErrorFree (.function i params body s) := by
  intro message h
  cases h

end Value

/-- No error value is bound or made. -/
def errorFree : Discipline :=
  .ofValues Value.ErrorFree (fun _ => Value.errorFree_of_isPlain) (fun _ _ => Value.errorFree_array)
    (fun _ _ _ => Value.errorFree_hash.mpr) (fun _ _ => Value.errorFree_hash.mp)
    fun _ _ _ _ _ => Value.errorFree_function _ _ _ _

theorem errorFree_everywhere : errorFree.Everywhere := ⟨fun _ => trivial, fun _ _ => trivial⟩

/-! ## Programs

A program can fail, and it can give a value; the two look alike to a host only if the value is an
error value. -/

section

variable {s t : Store} {limits : Limits} {fuel : Nat} {i : ScopeId} {p : Program} {m : Machine}
  {message : String}

/-- No store that a host comes to without giving away errors binds one. -/
theorem Store.Reached.bindsOnly (hs : s.Reached Value.ErrorFree) : s.BindsOnly Value.ErrorFree :=
  hs.keeps errorFree_everywhere (fun _ h => h) Store.BindsOnly.empty fun _ h => h.addScope none

/-- A program that begins without errors in its scopes makes none. -/
theorem Program.run_errorFree (hs : s.BindsOnly Value.ErrorFree) :
    (Program.run limits fuel i p ⟨s, 0⟩).Keeps errorFree fun r => ∀ v ∈ r, v.ErrorFree :=
  Task.keeps (t := .row i p none) errorFree_everywhere fuel nofun hs

/-- **The result is an error just if the evaluation failed**, and says why. -/
theorem Program.eval_error_iff (hs : s.BindsOnly Value.ErrorFree) :
    Program.eval limits fuel i p ⟨s, 0⟩ = some (.error message, m) ↔
      ∃ e, Program.run limits fuel i p ⟨s, 0⟩ = .unwound (.failed e) m ∧ message = e.message := by
  have hkeeps : (Program.run limits fuel i p ⟨s, 0⟩).Keeps errorFree fun r =>
    ∀ v ∈ r, v.ErrorFree := run_errorFree hs
  unfold Program.eval
  generalize Program.run limits fuel i p ⟨s, 0⟩ = o at hkeeps ⊢
  constructor
  · intro h
    cases hkeeps with
    | @done r m' _ hr =>
      cases r with
      | none => cases h
      | some v =>
        cases h
        exact absurd rfl ((hr _ rfl).ne_error message)
    | returned _ hv =>
      cases h
      exact absurd rfl (Value.ErrorFree.ne_error hv message)
    | failed =>
      cases h
      exact ⟨_, rfl, rfl⟩
    | outOfFuel => cases h
  · rintro ⟨e, rfl, rfl⟩
    rfl

/-- **A run fails at runtime just if the program was read without errors and its evaluation
failed.** -/
theorem run_runtime_iff {source : String} (hs : s.BindsOnly Value.ErrorFree) :
    run limits fuel i source s = some (.error (.runtime message), t) ↔
      (parse source).errors = [] ∧ ∃ e m,
        Program.run limits fuel i (parse source).program ⟨s, 0⟩ = .unwound (.failed e) m ∧
          message = e.message ∧ t = m.store := by
  have hrun : run limits fuel i source s = some (.error (.runtime message), t) ↔
      evalSource limits fuel i source s = some (.ok (.error message), t) := by
    unfold run
    rcases evalSource limits fuel i source s with _ | ⟨errors | v, t'⟩
    · exact ⟨nofun, nofun⟩
    · simp
    · cases v <;> simp
  rw [hrun, evalSource_ok_iff]
  simp only [Program.eval_error_iff hs]
  constructor
  · rintro ⟨herrors, m, ⟨e, hfailed, hmessage⟩, ht⟩
    exact ⟨herrors, e, m, hfailed, hmessage, ht⟩
  · rintro ⟨herrors, e, m, hfailed, hmessage, ht⟩
    exact ⟨herrors, m, ⟨e, hfailed, hmessage⟩, ht⟩

end

/-! ## Histories

What holds after any history of requests and programs, and at any moment of the evaluation that is
going on. -/

/-- **Errors are final results and never operands.**  Let a host evaluate any programs, failed ones
included, and give away no error value of its own.  Then no scope that a scope can reach binds a
value with an error in it; no task entered in the course of a further evaluation starts on a store
that binds one, or gives one; a program gives an error value just if it raised an error, with the
text of that error; and a run fails at runtime just for that reason. -/
theorem Store.errors_final {s : Store} (hs : s.Reached Value.ErrorFree) :
    (∀ (i j : ScopeId) (c : Scope) (b : String × Value), s.Reaches i j → s.scopes[j]? = some c →
      b ∈ c.bindings → b.2.ErrorFree) ∧
    ∀ (limits : Limits) (i : ScopeId),
      (∀ (p : Program) (t : Task) (m : Machine),
        Relation.ReflTransGen (Enters limits) (.row i p none, ⟨s, 0⟩) (t, m) →
          m.store.BindsOnly Value.ErrorFree ∧
            ∀ r m', t.Gives limits m r m' → t.Yields Value.ErrorFree r) ∧
      (∀ (p : Program) (fuel : Nat) (message : String) (m : Machine),
        Program.eval limits fuel i p ⟨s, 0⟩ = some (.error message, m) ↔
          ∃ e, Program.run limits fuel i p ⟨s, 0⟩ = .unwound (.failed e) m ∧
            message = e.message) ∧
      ∀ (source : String) (fuel : Nat) (message : String) (t : Store),
        run limits fuel i source s = some (.error (.runtime message), t) ↔
          (parse source).errors = [] ∧ ∃ e m,
            Program.run limits fuel i (parse source).program ⟨s, 0⟩ = .unwound (.failed e) m ∧
              message = e.message ∧ t = m.store := by
  have hbinds := hs.bindsOnly
  refine ⟨fun _ j c b _ hc hb => hbinds j c hc b hb, fun limits i => ⟨?_, ?_, ?_⟩⟩
  · intro p t m h
    obtain ⟨hm, ht⟩ := entered_keeps errorFree_everywhere h ⟨hbinds, nofun⟩
    exact ⟨hm, fun r m' hgives => (hgives.keeps errorFree_everywhere ht hm).2⟩
  · exact fun p fuel message m => Program.eval_error_iff hbinds
  · exact fun source fuel message t => run_runtime_iff hbinds

/-- Why a run failed, if it did. -/
def failure? {σ : Type} (r : Except Failure Value × σ) : Option Failure :=
  match r.1 with
  | .error failure => some failure
  | .ok _ => none

/-- Only a run that failed has a failure. -/
theorem eq_of_failure? {σ : Type} {r : Except Failure Value × σ} {failure : Failure}
    (h : failure? r = some failure) : r = (.error failure, r.2) := by
  rcases r with ⟨e | v, t⟩
  · cases h
    rfl
  · cases h

/-- The host binds zero to a name, and a source that divides by it fails.  What that source bound
before is still there and holds no errors, and the next source fails in its turn. -/
theorem Store.errors_final_after_division :
    let first := "let a = [fn(x) \x7b x / n \x7d]; a[0](1)"
    let second := "a[0](2)"
    let failure := Failure.runtime "division by zero"
    ∃ s t : Session, (Session.new {}).define "n" (.integer 0) = .ok s ∧
      s.run {} 60 first = some (.error failure, t) ∧ t.store.Reached Value.ErrorFree ∧
      (∀ (j : ScopeId) (c : Scope) (b : String × Value), t.store.Reaches t.globals j →
        t.store.scopes[j]? = some c → b ∈ c.bindings → b.2.ErrorFree) ∧
      (∃ u, run {} 60 t.globals second t.store = some (.error failure, u)) ∧
      ∃ e m, Program.run {} 60 t.globals (parse second).program ⟨t.store, 0⟩ =
        .unwound (.failed e) m ∧ "division by zero" = e.message := by
  intro first second failure
  obtain ⟨s, hs⟩ : ∃ s, (Session.new {}).define "n" (.integer 0) = .ok s := ⟨_, rfl⟩
  have hboth : ((s.run {} 60 first).bind fun r =>
      (run {} 60 r.2.globals second r.2.store).map fun r' => (failure? r, failure? r')) =
        some (some failure, some failure) := by
    cases hs
    decide +kernel
  obtain ⟨⟨_, t⟩, ht, hboth⟩ := Option.bind_eq_some_iff.mp hboth
  obtain ⟨⟨_, u⟩, hu, heq⟩ := Option.map_eq_some_iff.mp hboth
  obtain ⟨hfirst, hsecond⟩ := Prod.mk.inj heq
  rw [eq_of_failure? hfirst] at ht
  rw [eq_of_failure? hsecond] at hu
  have hreached : t.store.Reached Value.ErrorFree :=
    Session.run_reached (Session.define_reached (Session.new_reached {})
      (Value.errorFree_of_isPlain rfl) hs) ht
  obtain ⟨hbound, hcourse⟩ := errors_final hreached
  obtain ⟨-, e, m, hfailed, hmessage, -⟩ := ((hcourse {} t.globals).2.2 second 60 _ u).mp hu
  exact ⟨s, t, hs, ht, hreached, hbound t.globals, ⟨u, hu⟩, e, m, hfailed, hmessage⟩

end Scriptlet
