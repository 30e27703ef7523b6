import Scriptlet.Proofs.Eval.Course
import Scriptlet.Proofs.Value.Identity

/-!
# Proofs/Eval/Register — each identity is given out once

Let a register go along with a run: whatever evaluation makes is entered under the identity it is
given.  The world of a coupling may grow with the run, and here it is the register (`registering`).
So if all that a store binds is registered, what a task gives is registered as well, in a register
that extends the first one, and so is all that the store binds then (`Task.Gives.registered`).
-/

namespace Scriptlet

open Eval

variable {R R' : Register} {s t : Store} {limits : Limits} {m m' : Machine}

/-- All that the store binds is registered, and all identities it gave out are in the register. -/
structure Store.Registered (R : Register) (s : Store) : Prop where
  next : R.next = s.nextId
  binds : s.BindsOnly (Value.Registered R)

namespace Store.Registered

/-! A register keeps for each identity the value that was made with it, so whatever has the identity
can be compared with what was made.  Scopes add and change bindings, but only of values that are
registered already. -/

theorem empty : Store.empty.Registered .empty := ⟨rfl, .empty⟩

theorem addScope (h : s.Registered R) (outer : Option ScopeId) :
    (s.addScope outer).Registered R :=
  ⟨h.next, h.binds.addScope outer⟩

/-- A new value is entered, and its identity is spent. -/
theorem enter (h : s.Registered R) (v : Value) : s.spendId.Registered (R.enter v) :=
  ⟨congrArg (· + 1) h.next, fun i c hc b hb => (h.binds i c hc b hb).extends (R.enter_extends v)⟩

theorem bind (h : s.Registered R) {v : Value} (hv : v.Registered R) (i : ScopeId) (x : String) :
    (s.bind i x v).Registered R :=
  ⟨h.next, h.binds.change (changed_bind _ _ _ _) hv fun _ _ => Scope.mem_bindings_add⟩

theorem set (h : s.Registered R) {v : Value} (hv : v.Registered R) (i : ScopeId) (x : String) :
    (s.set i x v).Registered R :=
  ⟨h.next, h.binds.change (changed_set _ _ _ _) hv fun _ _ => Scope.mem_bindings_set⟩

end Store.Registered

/-- A run beside itself, and the register of what it made so far. -/
def registering : Coupling where
  World := Register
  le R R' := R'.Extends R
  value R v v' := v = v' ∧ v.Registered R
  scope _ i j := i = j
  own _ i j _ := i = j
  store R s t := s = t ∧ s.Registered R
  le_refl _ _ _ h := h
  le_trans h h' i v hv := h' i v (h i v hv)
  value_mono hle h := ⟨h.1, h.2.extends hle⟩
  scope_mono _ h := h
  own_mono _ h := h
  shaped := by
    rintro R v _ ⟨rfl, hv⟩
    have hpart : ∀ u : Value, u.PartOf v → u = u ∧ u.Registered R :=
      fun u hu => ⟨rfl, hv.held hu.holds⟩
    cases v with
    | array i es => exact .array i i (List.forall₂_same.mpr fun e he => hpart e he)
    | hash i ps =>
      exact .hash i i (List.forall₂_same.mpr fun p hp =>
        ⟨rfl, hpart p.2.key ⟨p, hp, .inl rfl⟩, hpart p.2.value ⟨p, hp, .inr rfl⟩⟩)
    | function i params body s => exact .function i i params body rfl
    | error message => exact .error message
    | _ => exact .plain rfl
  same := by
    rintro _ _ _ _ _ ⟨rfl, _⟩ ⟨rfl, _⟩
    rfl
  plain h := ⟨rfl, Value.registered_of_bare (Value.identity?_of_isPlain h)⟩
  lookup := by
    rintro _ s _ i _ ⟨rfl, hs⟩ rfl x
    cases hv : s.get? i x with
    | none => exact .none
    | some v => exact .some ⟨rfl, hs.binds.get? hv⟩
  make := by
    rintro R s _ v v' ⟨rfl, hs⟩ hmade
    obtain ⟨rfl, hid, hparts⟩ : v = v' ∧ v.identity? = some R.next ∧
        ∀ u : Value, u.PartOf v → u.Registered R := by
      rw [hs.next]
      cases hmade with
      | array h =>
        obtain ⟨rfl, hes⟩ := (Discipline.forall₂_diagonal fun _ _ => Iff.rfl).mp h
        exact ⟨rfl, rfl, hes⟩
      | hash _ h =>
        obtain ⟨rfl, hps⟩ := (Discipline.forall₂_diagonal Discipline.entryRel_diagonal).mp h
        refine ⟨rfl, rfl, ?_⟩
        rintro u ⟨p, hp, rfl | rfl⟩
        · exact (hps p hp).key
        · exact (hps p hp).value
      | function body _ h =>
        obtain rfl := h
        exact ⟨rfl, rfl, fun _ hu => hu.elim⟩
    exact ⟨R.enter v, R.enter_extends v, ⟨rfl, hs.enter v⟩, rfl, Value.registered_enter hid hparts⟩
  addScope := by
    rintro R s _ i _ ⟨rfl, hs⟩ rfl
    exact ⟨R, fun _ _ h => h, ⟨rfl, hs.addScope _⟩, rfl, fun _ => rfl⟩
  owns := by
    rintro _ _ _ _ _ _ ⟨rfl, _⟩ rfl
    rfl
  bind := by
    rintro _ _ _ _ _ _ _ _ ⟨rfl, hs⟩ rfl ⟨rfl, hv⟩ _
    exact ⟨rfl, hs.bind hv _ _⟩
  assign := by
    rintro _ s _ i _ x _ _ ⟨rfl, hs⟩ rfl ⟨rfl, hv⟩
    cases hhome : s.resolve i x with
    | none => exact .none
    | some home => exact .some ⟨rfl, hs.set hv _ _⟩

/-- **What a task gives is registered**, and what the store that it leaves binds. -/
theorem Task.Gives.registered {t : Task} {r : t.Result} (h : t.Gives limits m r m')
    (hm : m.store.Registered R) (ht : ∀ v ∈ t.taken, v.Registered R) :
    ∃ R', R'.Extends R ∧ m'.store.Registered R' ∧ ∀ v ∈ t.given r, v.Registered R' := by
  obtain ⟨-, n, hn⟩ := h
  have hend := Task.coupled (K := registering) (fun _ _ => rfl) (fun _ _ _ => rfl) limits n
    (fun v hv => ⟨rfl, ht v hv⟩) m.store m.store m.depth ⟨rfl, hm⟩
  rw [show t.eval limits n ⟨m.store, m.depth⟩ = .done r m' from hn n (Nat.le_refl n)] at hend
  cases hend with
  | done hle hst hr => exact ⟨_, hle, hst.2, fun v hv => (Task.Related.given hr v hv).2⟩

/-- **So is the result of a program**, however it ends. -/
theorem Program.eval_registered {fuel : Nat} {i : ScopeId} {p : Program} {v : Value}
    (h : Program.eval limits fuel i p m = some (v, m')) (hm : m.store.Registered R) :
    ∃ R', R'.Extends R ∧ m'.store.Registered R' ∧ v.Registered R' := by
  have hend := Task.coupled (K := registering) (t := .row i p none) (fun _ _ => rfl)
    (fun _ _ _ => rfl) limits fuel nofun m.store m.store m.depth ⟨rfl, hm⟩
  unfold Program.eval at h
  change registering.EndAlike _ _ _ (Program.run limits fuel i p m)
    (Program.run limits fuel i p m) at hend
  generalize Program.run limits fuel i p m = o at h hend
  cases hend with
  | @done _ r _ _ _ hle hst hr =>
    cases h
    refine ⟨_, hle, hst.2, ?_⟩
    cases r with
    | none => exact Value.registered_of_bare rfl
    | some v => exact (Task.Related.given hr v List.mem_cons_self).2
  | returned hle hst hv =>
    cases h
    exact ⟨_, hle, hst.2, hv.2⟩
  | failed hle hst =>
    cases h
    exact ⟨_, hle, hst.2, Value.registered_of_bare rfl⟩
  | outOfFuel => cases h

end Scriptlet
