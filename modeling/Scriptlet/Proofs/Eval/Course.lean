import Mathlib.Logic.Relation
import Scriptlet.Proofs.Eval.Tasks
import Scriptlet.Proofs.Eval.Discipline
import Scriptlet.Proofs.Store.Scopes

/-!
# Proofs/Eval/Course — what holds in the course of an evaluation

A discipline holds at the end of every run.  One that restricts no scope (`Everywhere`) holds on the
way as well: every task that is entered starts on a store that keeps it, with values that have its
property (`entered_keeps`), and gives such values only (`Task.Gives.keeps`).  One step is a case for
each way to enter a task; that the tasks ended before it kept the discipline is known already.

A property of values that nothing evaluation makes can lack is such a discipline, and what the store
binds has the property throughout (`ofValues`).
-/

namespace Scriptlet

open Eval

/-! ## A property of all values

A discipline that is about values only has to be shown for the few ways in which values are made:
plain values, arrays, well-keyed hashes, and functions that were checked. -/

namespace Discipline

/-- The discipline that all values have a property, those that the store binds among them. -/
def ofValues (value : Value → Prop) (plain : ∀ v, v.isPlain → value v)
    (array : ∀ i es, value (.array i es) ↔ ∀ e ∈ es, value e)
    (hash : ∀ i ps, WellKeyed ps → (∀ p ∈ ps, p.2.All value) → value (.hash i ps))
    (entries : ∀ i ps, value (.hash i ps) → ∀ p ∈ ps, p.2.All value)
    (function : ∀ i params body s, variadicLast params → value (.function i params body s)) :
    Discipline where
  value := value
  scope _ := True
  own _ _ := True
  store := Store.BindsOnly value
  plain hv := plain _ hv
  array := array _ _
  hash := hash _ _
  entries := entries _ _
  function hlast _ := function _ _ _ _ hlast
  captured _ := trivial
  lookup hs _ h := hs.get? h
  spendId hs := hs
  addScope hs _ := ⟨hs.addScope _, trivial, fun _ => trivial⟩
  bind hs _ hv _ := hs.change (Store.changed_bind _ _ _ _) hv fun _ _ => Scope.mem_bindings_add
  assign hs _ hv _ := hs.change (Store.changed_set _ _ _ _) hv fun _ _ => Scope.mem_bindings_set

/-- Evaluation may go on in every scope, and bind every name there. -/
structure Everywhere (D : Discipline) : Prop where
  scope : ∀ i, D.scope i
  own : ∀ i x, D.own i x

end Discipline

/-! ## At the end

Where the evaluation ends with a value, an error or a return, the discipline is kept. -/

/-- The outcome **keeps** the discipline: the store that is left does, and so does the value, which
for a computation that is done means `φ`. -/
inductive Outcome.Keeps {α : Type} (D : Discipline) (φ : α → Prop) : Outcome α → Prop
  | done {a : α} {m : Machine} : D.store m.store → φ a → Keeps D φ (.done a m)
  | returned {v : Value} {m : Machine} :
    D.store m.store → D.value v → Keeps D φ (.unwound (.returned v) m)
  | failed {e : RuntimeError} {m : Machine} : D.store m.store → Keeps D φ (.unwound (.failed e) m)
  | outOfFuel : Keeps D φ .outOfFuel

namespace Discipline

variable {D : Discipline} {α : Type} {φ : α → Prop}

/-- A run that is in lock step with itself keeps the discipline. -/
theorem keeps_of_lockstep {ψ : Unit → α → α → Prop} {x : Eval α}
    (h : D.coupling.Lockstep ψ () x x) (hψ : ∀ a b, ψ () a b → φ a) {m : Machine}
    (hm : D.store m.store) : (x m).Keeps D φ := by
  have hx := h m.store m.store m.depth ⟨rfl, hm⟩
  rw [show (⟨m.store, m.depth⟩ : Machine) = m from rfl] at hx
  generalize x m = o at hx ⊢
  cases hx with
  | done _ hst hab => exact .done hst.2 (hψ _ _ hab)
  | returned _ hst hv => exact .returned hst.2 hv.2
  | failed _ hst => exact .failed hst.2
  | outOfFuel => exact .outOfFuel

/-- Two results correspond if they are one, with the property. -/
theorem result_iff {r r' : Option Value} :
    D.coupling.result () r r' ↔ r = r' ∧ ∀ v ∈ r, D.value v := by
  constructor
  · rintro (⟨rfl, hv⟩ | _)
    · exact ⟨rfl, fun _ h => Option.some.inj h ▸ hv⟩
    · exact ⟨rfl, nofun⟩
  · rintro ⟨rfl, hv⟩
    cases r with
    | none => exact .none
    | some v => exact .some ⟨rfl, hv v rfl⟩

theorem entries_iff {ps qs : List HashEntry} :
    D.coupling.pairs () ps qs ↔ ps = qs ∧ ∀ p ∈ ps, p.2.All D.value :=
  forall₂_diagonal entryRel_diagonal

end Discipline

/-- What a computation settles on, it gives with some fuel. -/
theorem Eval.Settles.keeps {D : Discipline} {α : Type} {φ : α → Prop} {x : Nat → Eval α}
    {m m' : Machine} {a : α} (h : Settles x m (.done a m')) (hx : ∀ n, (x n m).Keeps D φ) :
    D.store m'.store ∧ φ a := by
  obtain ⟨-, n, h⟩ := h
  have hn := hx n
  rw [h n (Nat.le_refl n)] at hn
  cases hn with
  | done hm ha => exact ⟨hm, ha⟩

/-! ## Tasks

A task may be given values on its way, such as the arguments of a call.  They have to keep the
discipline as well. -/

namespace Task

/-- The values that a task is given: what the row gave so far, and the entries of the hash so far.
-/
def taken : Task → List Value
  | row _ _ last => last.toList
  | entries _ _ done => done.flatMap fun p => p.2.both
  | _ => []

/-- The values that a task gives. -/
def given : (t : Task) → t.Result → List Value
  | expr .. | statement .. | row .. | choice .. => fun r : Option Value => r.toList
  | rounds .. => fun _ => []
  | values .. => fun vs : List Value => vs
  | entries .. => fun ps : List HashEntry => ps.flatMap fun p => p.2.both

/-- The values that a task is given have the property: what the row gave so far, and the entries of
the hash so far. -/
def Takes (P : Value → Prop) : Task → Prop
  | row _ _ last => ∀ v ∈ last, P v
  | entries _ _ done => ∀ p ∈ done, p.2.All P
  | _ => True

/-- The values that a task gives have the property. -/
def Yields (P : Value → Prop) : (t : Task) → t.Result → Prop
  | expr .. | statement .. | row .. | choice .. => fun r : Option Value => ∀ v ∈ r, P v
  | rounds .. => fun _ => True
  | values .. => fun vs : List Value => ∀ v ∈ vs, P v
  | entries .. => fun ps : List HashEntry => ∀ p ∈ ps, p.2.All P

/-- To say it of all key objects and values in a list of entries. -/
theorem forall_mem_flatMap_both {P : Value → Prop} {ps : List HashEntry} :
    (∀ v ∈ ps.flatMap fun p => p.2.both, P v) ↔ ∀ p ∈ ps, p.2.All P := by
  simp only [List.mem_flatMap, ← HashPair.forall_mem_both]
  exact ⟨fun h p hp v hv => h v ⟨p, hp, hv⟩, fun h v ⟨p, hp, hv⟩ => h p hp v hv⟩

/-- The two ways to say that a task is given such values. -/
theorem takes_iff {P : Value → Prop} {t : Task} : t.Takes P ↔ ∀ v ∈ t.taken, P v := by
  cases t with
  | row _ _ last => simp [Takes, taken]
  | entries _ _ done => exact forall_mem_flatMap_both.symm
  | _ => exact ⟨fun _ => nofun, fun _ => trivial⟩

/-- A property of all values is one of those that a task is given. -/
theorem takes_of_forall {P : Value → Prop} (h : ∀ v, P v) (t : Task) : t.Takes P :=
  takes_iff.mpr fun v _ => h v

/-- What a task gives in two runs corresponds. -/
def Related (K : Coupling) (w : K.World) : (t : Task) → t.Result → t.Result → Prop
  | expr .. | statement .. | row .. | choice .. => K.result w
  | rounds .. => fun _ _ => True
  | values .. => List.Forall₂ (K.value w)
  | entries .. => K.pairs w

/-- What is related to itself has the property. -/
theorem Related.given {K : Coupling} {w : K.World} {t : Task} {r : t.Result}
    (h : t.Related K w r r) : ∀ v ∈ t.given r, K.value w v v := by
  cases t with
  | rounds => exact nofun
  | values => exact List.forall₂_same.mp h
  | entries =>
    refine forall_mem_flatMap_both.mpr fun p hp => ?_
    have hpair := (List.forall₂_same.mp h p hp).2
    exact ⟨hpair.key, hpair.value⟩
  | expr | statement | row | choice =>
    rintro v hv
    obtain rfl : r = some v := Option.mem_toList.mp hv
    cases h with
    | some hv => exact hv

variable {D : Discipline} {limits : Limits} {m m' : Machine}

/-- **A task stays in lock step with itself**, under a coupling that restricts no scope. -/
theorem coupled {K : Coupling} {w : K.World} (hscope : ∀ w i, K.scope w i i)
    (hown : ∀ w i x, K.own w i i x) (limits : Limits) (n : Nat) {t : Task}
    (ht : ∀ v ∈ t.taken, K.value w v v) :
    K.Lockstep (t.Related K) w (t.eval limits n) (t.eval limits n) := by
  have hall := K.inStep limits n
  cases t with
  | expr i e => exact (hall w i i (hscope w i)).1 e
  | statement i s => exact (hall w i i (hscope w i)).2 s fun x _ => hown w i x
  | row i b last =>
    refine hall.row (hscope w i) (fun _ _ x _ => hown w i x) ?_
    cases last with
    | none => exact .none
    | some v => exact .some (ht v List.mem_cons_self)
  | choice i cs alternative =>
    exact .choose (fun w' _ c => hall.operand (hscope w' i) c)
      (fun w' _ b => hall.block (hscope w' i) b) cs alternative
  | rounds i condition step body finished =>
    exact hall.rounds (hscope w i) condition step body n finished
  | values i es => exact .values (fun w' _ e => hall.operand (hscope w' i) e) es
  | entries i ps done =>
    refine .entries (fun w' _ e => hall.operand (hscope w' i) e) ps ?_
    have hdone := forall_mem_flatMap_both.mp ht
    exact List.forall₂_same.mpr fun p hp => ⟨rfl, (hdone p hp).key, (hdone p hp).value⟩

/-- Under a discipline, what corresponds is the same and has the property. -/
theorem related_iff {t : Task} {r r' : t.Result} :
    t.Related D.coupling () r r' → r = r' ∧ t.Yields D.value r := by
  cases t with
  | rounds => exact fun _ => ⟨rfl, trivial⟩
  | values => exact (Discipline.forall₂_diagonal fun _ _ => Iff.rfl).mp
  | entries => exact Discipline.entries_iff.mp
  | _ => exact Discipline.result_iff.mp

/-- Under a discipline, both runs give the same, and values with the property. -/
theorem lockstep (hD : D.Everywhere) (limits : Limits) (n : Nat) {t : Task}
    (ht : t.Takes D.value) :
    D.coupling.Lockstep (fun _ r r' => r = r' ∧ t.Yields D.value r) () (t.eval limits n)
      (t.eval limits n) :=
  (coupled (K := D.coupling) (fun _ i => ⟨rfl, hD.scope i⟩) (fun _ i x => ⟨rfl, hD.own i x⟩) limits
    n fun v hv => ⟨rfl, takes_iff.mp ht v hv⟩).imp fun _ _ _ => related_iff

/-- **A task keeps the discipline.** -/
theorem keeps (hD : D.Everywhere) (n : Nat) {t : Task} (ht : t.Takes D.value)
    (hm : D.store m.store) : (t.eval limits n m).Keeps D (t.Yields D.value) :=
  Discipline.keeps_of_lockstep (lockstep hD limits n ht) (fun _ _ h => h.2) hm

/-- **What a task gives, it gives with the property**, and on a store that keeps the discipline. -/
theorem Gives.keeps (hD : D.Everywhere) {t : Task} {r : t.Result} (h : t.Gives limits m r m')
    (ht : t.Takes D.value) (hm : D.store m.store) : D.store m'.store ∧ t.Yields D.value r :=
  Settles.keeps h fun n => Task.keeps hD n ht hm

end Task

/-! ## On the way

Evaluation may go on for ever.  What is entered in the course of it is entered on a machine that
keeps the discipline all the same, as all that came before it has ended. -/

/-- Where evaluation stands keeps the discipline. -/
def Discipline.At (D : Discipline) (p : Task × Machine) : Prop :=
  D.store p.2.store ∧ p.1.Takes D.value

section

variable {D : Discipline} {limits : Limits} {m m' : Machine} {scope : ScopeId}

/-- The condition of a loop keeps the discipline. -/
theorem goesOn_keeps (hD : D.Everywhere) {condition : Option Expr} {holds : Bool}
    (h : Settles (fun n => goesOn limits n scope condition) m (.done holds m'))
    (hm : D.store m.store) : D.store m'.store :=
  (h.keeps (φ := fun _ => True) fun n => Discipline.keeps_of_lockstep
    ((D.coupling.inStep limits n).goesOn ⟨rfl, hD.scope scope⟩ condition)
    (fun _ _ _ => trivial) hm).1

theorem advance_keeps (hD : D.Everywhere) {step : Option Expr} {r : Option Value}
    (h : Settles (fun n => advance limits n scope step) m (.done r m'))
    (hm : D.store m.store) : D.store m'.store :=
  (h.keeps (φ := fun _ => True) fun n => Discipline.keeps_of_lockstep
    ((D.coupling.inStep limits n).advance ⟨rfl, hD.scope scope⟩ step)
    (fun _ _ _ => trivial) hm).1

/-- So does making the scope of a call, if the arguments have the property. -/
theorem callScope_keeps (hD : D.Everywhere) {params : List Param} {captured inner : ScopeId}
    {vs : List Value} (hvs : ∀ v ∈ vs, D.value v) (hm : D.store m.store)
    (h : callScope params captured vs m = .done inner m') : D.store m'.store := by
  have hargs := (Discipline.forall₂_diagonal (R := D.coupling.value ())
    fun _ _ => Iff.rfl).mpr ⟨rfl, hvs⟩
  exact (Discipline.of_lockstep (Coupling.Lockstep.callScope (K := D.coupling)
    ⟨rfl, hD.scope captured⟩ params hargs) hm (by rw [h]; rfl)).1

/-- An empty result counts as null, which has the property. -/
theorem operand_value {r : Option Value} (hr : ∀ v ∈ r, D.value v) : D.value (r.getD .null) := by
  cases r with
  | none => exact D.plain rfl
  | some v => exact hr v rfl

/-- **One step keeps the discipline.** -/
theorem Enters.keeps (hD : D.Everywhere) {p q : Task × Machine} (h : Enters limits p q)
    (hp : D.At p) : D.At q := by
  obtain ⟨hm, ht⟩ := hp
  -- The cases are the ways to enter a task.  What was evaluated before kept the discipline, by
  -- `Gives.keeps`; a new scope keeps it as well.
  have henclosed : ∀ {m : Machine} (scope : ScopeId), D.store m.store →
      D.store (m.enclosed scope).store := fun scope hm => (D.addScope hm (hD.scope scope)).1
  cases h with
  | body hf hargs hlt hscope =>
    obtain ⟨hm₁, -⟩ := hf.keeps hD trivial hm
    obtain ⟨hm₂, hvs⟩ := hargs.keeps hD trivial hm₁
    have hm₃ := callScope_keeps hD hvs hm₂ hscope
    exact ⟨hm₃, nofun⟩
  | entryValue hk _ => exact ⟨(hk.keeps hD trivial hm).1, trivial⟩
  | otherEntries hk _ hv =>
    obtain ⟨hm₁, hkey⟩ := hk.keeps hD trivial hm
    obtain ⟨hm₂, hvalue⟩ := hv.keeps hD trivial hm₁
    exact ⟨hm₂, forall_insertPair (P := fun _ p => p.All D.value) ht
      ⟨operand_value hkey, operand_value hvalue⟩⟩
  | pairs => exact ⟨hm, nofun⟩
  | taken hv _ => exact ⟨henclosed _ (hv.keeps hD trivial hm).1, nofun⟩
  | alternative | block => exact ⟨henclosed _ hm, nofun⟩
  | round hgoesOn _ => exact ⟨henclosed _ (goesOn_keeps hD hgoesOn hm), nofun⟩
  | step hgoesOn _ hb =>
    exact ⟨(hb.keeps hD nofun (henclosed _ (goesOn_keeps hD hgoesOn hm))).1, trivial⟩
  | otherRounds hgoesOn _ hb hstep =>
    have hm₂ := (hb.keeps hD nofun (henclosed _ (goesOn_keeps hD hgoesOn hm))).1
    exact ⟨advance_keeps hD hstep hm₂, trivial⟩
  -- the last value of a row is what the next task is given
  | others hv => exact hv.keeps hD trivial hm
  -- what was evaluated before, if anything, kept the store
  | right _ hv | arguments hv | key hv | otherValues hv | otherClauses hv _ | started hv =>
    exact ⟨(hv.keeps hD trivial hm).1, trivial⟩
  | _ => exact ⟨hm, trivial⟩

/-- **All that is entered in the course of an evaluation keeps the discipline.** -/
theorem entered_keeps (hD : D.Everywhere) {p q : Task × Machine}
    (h : Relation.ReflTransGen (Enters limits) p q) (hp : D.At p) : D.At q := by
  induction h with
  | refl => exact hp
  | tail _ hstep ih => exact hstep.keeps hD ih

end

end Scriptlet
