import Scriptlet.Proofs.Eval.Course

/-!
# Proofs/Eval/Depth — the number of active calls

However an evaluation ends, as many calls are active as before: `nested` takes one more for the body
of a function and gives it back on every way out.  In between there are never fewer, and never more
than the limit, since the limit is asked before a body is entered.

So an evaluator can be used again and again, also after errors: nothing is left on it that a fresh
one would not have (`depth_balanced`).
-/

namespace Scriptlet

open Eval

/-! ## Before and after

Every call is counted when it begins and no more when it is over, however it ends.  So what is shown
of one call is carried through all ways of putting computations together. -/

/-- However the computation ends, as many calls are active as before. -/
def Eval.Balanced {α : Type} (x : Eval α) : Prop :=
  ∀ m m' : Machine, (x m).machine? = some m' → m'.depth = m.depth

namespace Eval.Balanced

variable {α : Type} {x : Eval α} {m m' : Machine}

/-- A computation in lock step with itself is balanced: that is part of ending alike. -/
theorem of_lockstep {φ : Unit → α → α → Prop} (h : Discipline.anything.coupling.Lockstep φ () x x) :
    Balanced x :=
  fun _ _ hend => (Discipline.of_lockstep h trivial hend).2

/-- If it is done, as many calls are active as before. -/
theorem done {a : α} (hx : Balanced x) (h : x m = .done a m') : m'.depth = m.depth :=
  hx m m' (by rw [h]; rfl)

theorem settled {x : Nat → Eval α} {a : α} (hx : ∀ n, Balanced (x n))
    (h : Settles x m (.done a m')) : m'.depth = m.depth := by
  obtain ⟨-, n, h⟩ := h
  exact (hx n).done (h n (Nat.le_refl n))

/-- Making the scope of a call enters no call. -/
theorem callScope (params : List Param) (captured : ScopeId) (args : List Value) :
    Balanced (callScope params captured args) :=
  of_lockstep (Coupling.Lockstep.callScope (K := Discipline.anything.coupling) ⟨rfl, trivial⟩ params
    (List.forall₂_same.mpr fun _ _ => ⟨rfl, trivial⟩))

variable {limits : Limits} {scope : ScopeId}

/-- The condition of a loop is balanced. -/
theorem goesOn {condition : Option Expr} {holds : Bool}
    (h : Settles (fun n => goesOn limits n scope condition) m (.done holds m')) :
    m'.depth = m.depth :=
  settled (fun n => of_lockstep
    ((Discipline.anything.coupling.inStep limits n).goesOn ⟨rfl, trivial⟩ condition)) h

theorem advance {step : Option Expr} {r : Option Value}
    (h : Settles (fun n => advance limits n scope step) m (.done r m')) : m'.depth = m.depth :=
  settled (fun n => of_lockstep
    ((Discipline.anything.coupling.inStep limits n).advance ⟨rfl, trivial⟩ step)) h

/-- **Every task is balanced.** -/
theorem task (limits : Limits) (n : Nat) (t : Task) : Balanced (t.eval limits n) :=
  of_lockstep (Task.lockstep ⟨fun _ => trivial, fun _ _ => trivial⟩ limits n
    (t.takes_of_forall fun _ => trivial))

end Eval.Balanced

/-- **What a task leaves has as many calls active** as what it was given. -/
theorem Task.Gives.depth_eq {limits : Limits} {t : Task} {m m' : Machine} {r : t.Result}
    (h : t.Gives limits m r m') : m'.depth = m.depth :=
  Balanced.settled (fun n => Balanced.task limits n t) h

/-! ## One step

The body of a function is entered with one more call active.  Everything else that is entered is a
part of what it is entered from, with as many calls active; only the rounds of a loop do not get
smaller from one to the next, but they are counted. -/

namespace Task

/-- How much there is to evaluate. -/
noncomputable def size : Task → Nat
  | expr _ e => sizeOf e
  | statement _ s => sizeOf s
  | row _ b _ => sizeOf b
  | choice _ clauses alternative => sizeOf clauses + sizeOf alternative
  | rounds _ condition step body _ => 1 + sizeOf condition + sizeOf step + sizeOf body
  | values _ es => sizeOf es
  | entries _ pairs _ => sizeOf pairs

/-- The number of rounds that are over. -/
def finished : Task → Nat
  | rounds _ _ _ _ finished => finished
  | _ => 0

/-- The task `t'` is smaller than `t`, or the next round of the same loop. -/
def PartOf (limits : Limits) (t' t : Task) : Prop :=
  t'.size < t.size ∨ t'.size = t.size ∧ t'.finished = t.finished + 1 ∧
    ∀ most ∈ limits.maxIterations, t.finished < most

end Task

/-- The size of a pair is that of its parts, and one. -/
theorem sizeOf_pair {α β : Type} [SizeOf α] [SizeOf β] (p : α × β) :
    sizeOf p = 1 + sizeOf p.1 + sizeOf p.2 := rfl

/-- **One step** enters the body of a function, or a part with as many calls active. -/
theorem Enters.depth_cases {limits : Limits} {p q : Task × Machine} (h : Enters limits p q) :
    p.1.calls q.1 ∧ q.2.depth = p.2.depth + 1 ∧ p.2.depth < limits.maxDepth ∨
      p.1.calls q.1 = false ∧ q.2.depth = p.2.depth ∧ q.1.PartOf limits p.1 := by
  cases h with
  | body hf hargs hlt hscope =>
    have hcalled := hargs.depth_eq.trans hf.depth_eq
    have hdepth := (Balanced.callScope _ _ _).done hscope
    exact .inl ⟨rfl, by rw [← hcalled, ← hdepth], hcalled ▸ hlt⟩
  | otherRounds hgoesOn hmost hb hstep =>
    have hdepth := Balanced.goesOn hgoesOn
    have hstepped := (Balanced.advance hstep).trans hb.depth_eq
    exact .inr ⟨rfl, hstepped.trans hdepth, .inr ⟨rfl, rfl, hmost⟩⟩
  -- all other tasks are smaller; what was evaluated before them left as many calls active
  | round hgoesOn hmost =>
    have hdepth := Balanced.goesOn hgoesOn
    exact .inr ⟨rfl, hdepth, .inl (by simp +arith [Task.size])⟩
  | step hgoesOn hmost hb =>
    have hdepth := Balanced.goesOn hgoesOn
    exact .inr ⟨rfl, hb.depth_eq.trans hdepth, .inl (by simp +arith [Task.size])⟩
  | right _ hv | arguments hv | key hv | otherValues hv | entryValue hv _ | taken hv _
  | otherClauses hv _ | started hv | others hv =>
    exact .inr ⟨rfl, hv.depth_eq, .inl (by simp +arith [Task.size, sizeOf_pair])⟩
  | otherEntries hk _ hv =>
    exact .inr ⟨rfl, hv.depth_eq.trans hk.depth_eq, .inl (by simp +arith [Task.size, sizeOf_pair])⟩
  | _ => exact .inr ⟨rfl, rfl, .inl (by simp +arith [Task.size, sizeOf_pair])⟩

/-! ## In between

A task that is entered by a call has one call more on the machine, and the others have as many as
the task they are entered from. -/

/-- A step stays between the calls that are active and the limit. -/
theorem Enters.depth_le {limits : Limits} {p q : Task × Machine} (h : Enters limits p q)
    (hp : p.2.depth ≤ limits.maxDepth) : p.2.depth ≤ q.2.depth ∧ q.2.depth ≤ limits.maxDepth := by
  rcases h.depth_cases with ⟨-, hdepth, hlt⟩ | ⟨-, hdepth, -⟩ <;> omega

/-- So does all that is entered in the course of an evaluation. -/
theorem depth_le_of_entered {limits : Limits} {p q : Task × Machine}
    (h : Relation.ReflTransGen (Enters limits) p q) (hp : p.2.depth ≤ limits.maxDepth) :
    p.2.depth ≤ q.2.depth ∧ q.2.depth ≤ limits.maxDepth := by
  induction h with
  | refl => exact ⟨Nat.le_refl _, hp⟩
  | tail _ hstep ih =>
    have hq := hstep.depth_le ih.2
    exact ⟨Nat.le_trans ih.1 hq.1, hq.2⟩

/-- As many calls stay active as were. -/
theorem le_depth_of_entered {limits : Limits} {p q : Task × Machine}
    (h : Relation.ReflTransGen (Enters limits) p q) : p.2.depth ≤ q.2.depth := by
  induction h with
  | refl => exact Nat.le_refl _
  | tail _ hstep ih => rcases hstep.depth_cases with ⟨-, hdepth, -⟩ | ⟨-, hdepth, -⟩ <;> omega

/-! ## One evaluator for many programs

Programs that are run one after another hand on the machine, so that each begins with as many calls
active as the first one did. -/

/-- A program is balanced, whether it gives a value or an error. -/
theorem Program.eval_depth {limits : Limits} {n : Nat} {scope : ScopeId} {p : Program}
    {m m' : Machine} {v : Value} (h : Program.eval limits n scope p m = some (v, m')) :
    m'.depth = m.depth :=
  Balanced.task limits n (.row scope p none) m m' (Program.machine?_of_eval h)

/-- Programs one after another, each in a scope, on one evaluator: the values they give, and what is
left at the end. -/
def evalAll (limits : Limits) (fuel : Nat) :
    List (ScopeId × Program) → Machine → Option (List (ScopeId × Value) × Machine)
  | [], m => some ([], m)
  | (scope, p) :: jobs, m => do
    let (v, m₁) ← Program.eval limits fuel scope p m
    let (vs, m₂) ← evalAll limits fuel jobs m₁
    return ((scope, v) :: vs, m₂)

/-- Programs one after another, each on an evaluator of its own. -/
def evalEach (limits : Limits) (fuel : Nat) :
    List (ScopeId × Program) → Store → Option (List (ScopeId × Value) × Store)
  | [], s => some ([], s)
  | (scope, p) :: jobs, s => do
    let (v, m) ← Program.eval limits fuel scope p ⟨s, 0⟩
    let (vs, t) ← evalEach limits fuel jobs m.store
    return ((scope, v) :: vs, t)

section

variable {limits : Limits} {n : Nat} {scope : ScopeId} {p : Program}
  {jobs : List (ScopeId × Program)} {s : Store}

/-- Without a result for the first program there is none at all. -/
theorem evalEach_none (h : Program.eval limits n scope p ⟨s, 0⟩ = none) :
    evalEach limits n ((scope, p) :: jobs) s = none := by
  rw [evalEach, h]
  rfl

/-- The first program is followed by the others, on the store it left. -/
theorem evalEach_some {v : Value} {m : Machine}
    (h : Program.eval limits n scope p ⟨s, 0⟩ = some (v, m)) :
    evalEach limits n ((scope, p) :: jobs) s =
      (evalEach limits n jobs m.store).map fun (vs, t) => ((scope, v) :: vs, t) := by
  simp only [evalEach, h, Option.bind_eq_bind, Option.bind_some]
  cases evalEach limits n jobs m.store <;> rfl

end

/-- **One evaluator for all programs does what a fresh one for each does.** -/
theorem evalAll_eq_evalEach (limits : Limits) (fuel : Nat) (jobs : List (ScopeId × Program))
    (s : Store) : evalAll limits fuel jobs ⟨s, 0⟩ =
      (evalEach limits fuel jobs s).map fun (vs, t) => (vs, ⟨t, 0⟩) := by
  induction jobs generalizing s with
  | nil => rfl
  | cons job jobs ih =>
    obtain ⟨scope, p⟩ := job
    unfold evalAll
    rcases hrun : Program.eval limits fuel scope p ⟨s, 0⟩ with _ | ⟨v, t, d⟩
    · rw [evalEach_none hrun]
      rfl
    · obtain rfl : d = 0 := Program.eval_depth hrun
      rw [evalEach_some hrun]
      simp only [Option.bind_eq_bind, Option.bind_some, ih t]
      cases evalEach limits fuel jobs t <;> rfl

/-- **The number of active calls is balanced.**  However an evaluation ends, the number is as
before.  With at most `maxDepth` of them at the start, every task that is entered on the way, and
none is left out, finds at least as many as there were and at most `maxDepth`, and leaves as many as
it finds.  So an evaluator that goes on after programs, failed ones included, does what a fresh one
would do. -/
theorem depth_balanced (limits : Limits) :
    (∀ (fuel : Nat) (scope : ScopeId) (m m' : Machine),
      (∀ e, (Expr.eval limits fuel scope e m).machine? = some m' → m'.depth = m.depth) ∧
      (∀ s, (Statement.eval limits fuel scope s m).machine? = some m' → m'.depth = m.depth) ∧
      ∀ p, (Program.run limits fuel scope p m).machine? = some m' → m'.depth = m.depth) ∧
    EntersAll limits ∧
    (∀ (t t' : Task) (m m' : Machine), m.depth ≤ limits.maxDepth →
      Relation.ReflTransGen (Enters limits) (t, m) (t', m') →
        m.depth ≤ m'.depth ∧ m'.depth ≤ limits.maxDepth ∧
          ∀ fuel m'', (t'.eval limits fuel m').machine? = some m'' → m''.depth = m'.depth) ∧
    ∀ fuel jobs s, evalAll limits fuel jobs ⟨s, 0⟩ =
      (evalEach limits fuel jobs s).map fun (vs, t) => (vs, ⟨t, 0⟩) :=
  ⟨fun fuel scope m m' => ⟨fun e => Balanced.task limits fuel (.expr scope e) m m',
      fun s => Balanced.task limits fuel (.statement scope s) m m',
      fun p => Balanced.task limits fuel (.row scope p none) m m'⟩,
    entersAll limits,
    fun _ t' _ m' hm h =>
      let hle := depth_le_of_entered h hm
      ⟨hle.1, hle.2, fun fuel m'' => Balanced.task limits fuel t' m' m''⟩,
    evalAll_eq_evalEach limits⟩

/-- A function that calls itself without end, and a call of it. -/
def abyss : Program :=
  [.bind "f" (.function [] [.expr (.call (.ident "f") [])]), .expr (.call (.ident "f") [])]

/-- A call right away, of a function that does nothing. -/
def idle : Expr := .call (.function [] []) []

/-- Under a limit of one call: the call that fails leaves no call active, the call that does not is
entered with one, and an evaluator that failed goes on like a fresh one. -/
theorem depth_balanced_under_one_call :
    let m : Machine := ⟨Store.empty.addScope none, 0⟩
    (∃ m', (Program.run ⟨1, none⟩ 20 0 abyss m).machine? = some m' ∧ m'.depth = m.depth) ∧
    (∃ t' m', Relation.ReflTransGen (Enters ⟨1, none⟩) (.expr 0 idle, m) (t', m') ∧
      m'.depth = 1 ∧ m.depth ≤ m'.depth ∧ m'.depth ≤ 1) ∧
    (evalEach ⟨1, none⟩ 20 [(0, abyss), (0, [.expr idle])] m.store).isSome ∧
    evalAll ⟨1, none⟩ 20 [(0, abyss), (0, [.expr idle])] m =
      (evalEach ⟨1, none⟩ 20 [(0, abyss), (0, [.expr idle])] m.store).map
        fun (vs, t) => (vs, ⟨t, 0⟩) := by
  intro m
  have hcallee : (Task.expr 0 (.function [] [])).Gives ⟨1, none⟩ m (some (.function 0 [] [] 0))
      ⟨m.store.spendId, 0⟩ := settles_succ.mp ⟨rfl, 0, fun _ _ => rfl⟩
  have hargs : (Task.values 0 []).Gives ⟨1, none⟩ ⟨m.store.spendId, 0⟩ [] ⟨m.store.spendId, 0⟩ :=
    ⟨rfl, 0, fun _ _ => rfl⟩
  have hentered : Relation.ReflTransGen (Enters ⟨1, none⟩) (.expr 0 idle, m)
      (.row 1 [] none, ⟨m.store.spendId.addScope (some 0), 1⟩) :=
    .single (.body hcallee hargs Nat.zero_lt_one rfl)
  have hbetween := (depth_balanced ⟨1, none⟩).2.2.1 _ _ _ _ (Nat.zero_le 1) hentered
  obtain ⟨m', hm'⟩ : ∃ m', (Program.run ⟨1, none⟩ 20 0 abyss m).machine? = some m' :=
    Option.isSome_iff_exists.mp (by decide +kernel)
  exact ⟨⟨m', hm', ((depth_balanced ⟨1, none⟩).1 20 0 m m').2.2 abyss hm'⟩,
    ⟨_, _, hentered, rfl, hbetween.1, hbetween.2.1⟩,
    by decide +kernel, (depth_balanced ⟨1, none⟩).2.2.2 20 _ _⟩

end Scriptlet
