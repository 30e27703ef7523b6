import Scriptlet.Proofs.Eval.Giving
import Scriptlet.Proofs.Eval.Depth

/-!
# Proofs/Eval/Unwinding — what a return goes through, and the error of a limit

Returns and the errors of limits are raised in three places only (`Raises`).  From there a return
goes up to the call that it is in, and an error to the program, through every task on the way: each
way to enter a task is a way for the end of the one to become the end of the other.  That these ends
come from nowhere else is shown in `Eval/Origin`.
-/

namespace Scriptlet

open Eval

namespace Eval

variable {β : Type} {m m' : Machine} {why : Unwind}

/-! Whatever is done with an operand, its end comes first. -/

theorem Settles.operand_unwound {x : Nat → Eval (Option Value)} {f : Nat → Value → Eval β}
    (h : Settles x m (.unwound why m')) :
    Settles (fun n => Eval.operand (x n) >>= f n) m (.unwound why m') :=
  Settles.bind_unwound (Settles.bind_unwound h)

theorem Settles.required_unwound {x : Nat → Eval (Option Value)} {f : Nat → Value → Eval β}
    (h : Settles x m (.unwound why m')) :
    Settles (fun n => Eval.required (x n) >>= f n) m (.unwound why m') :=
  Settles.bind_unwound (Settles.bind_unwound h)

end Eval

/-! ## Where it begins

The three constructors of `Raises` are the three places of the evaluator that raise such an end: the
statement `return`, the application of a function, and the beginning of a round. -/

namespace Task

/-- The task is **unwound** on the machine `m`, for the reason `why`, and leaves `m'`. -/
def Unwinds (limits : Limits) (t : Task) (m : Machine) (why : Unwind) (m' : Machine) : Prop :=
  Settles (fun n => t.eval limits n) m (.unwound why m')

variable {limits : Limits} {t : Task} {m m' : Machine} {why : Unwind}

/-- As many calls are active at the end as at the start. -/
theorem Unwinds.depth_eq (h : t.Unwinds limits m why m') : m'.depth = m.depth := by
  obtain ⟨-, n, h⟩ := h
  have hend := congrArg Outcome.machine? (h n (Nat.le_refl n))
  exact Balanced.task limits n t m m' hend

end Task

/-- Work on the task, on its machine, **raises** an end of control itself, and leaves a machine: by
the operand of a return, by a call too many, or by a round too many. -/
inductive Raises (limits : Limits) : Task × Machine → Unwind → Machine → Prop
  | ret {scope e m r m'} : (Task.expr scope e).Gives limits m r m' →
    Raises limits (.statement scope (.ret e), m) (.returned (r.getD .null)) m'
  /-- The arguments are evaluated, but not yet bound. -/
  | overflow {scope f args m id params b captured m₁ vs m₂} :
    (Task.expr scope f).Gives limits m (some (.function id params b captured)) m₁ →
    (Task.values scope args).Gives limits m₁ vs m₂ → limits.maxDepth ≤ m₂.depth →
    Raises limits (.expr scope (.call f args), m) (.failed (.stackOverflow limits.maxDepth)) m₂
  /-- The condition holds once more. -/
  | rounds {scope condition step b finished m m₁ most} :
    Settles (fun n => goesOn limits n scope condition) m (.done true m₁) →
    limits.maxIterations = some most → most ≤ finished →
    Raises limits (.rounds scope condition step b finished, m) (.failed (.iterationLimit most)) m₁

section

variable {limits : Limits} {t t' : Task} {m m' m₁ : Machine} {why : Unwind}

/-- A function is not called when as many calls are active as may be. -/
theorem call_overflow {run : ScopeId → Block → Eval (Option Value)} {id : Identity}
    {params : List Param} {b : Block} {captured : ScopeId} {vs : List Value}
    (h : limits.maxDepth ≤ m.depth) : call limits run (.function id params b captured) vs m =
      .unwound (.failed (.stackOverflow limits.maxDepth)) m := by
  show (if limits.maxDepth ≤ m.depth then _ else _ : Eval (Option Value)) m = _
  rw [if_pos h]
  rfl

/-- Otherwise the parameters are bound, and the body is run. -/
theorem call_apply {run : ScopeId → Block → Eval (Option Value)} {id : Identity}
    {params : List Param} {b : Block} {captured : ScopeId} {vs : List Value}
    (h : m.depth < limits.maxDepth) : call limits run (.function id params b captured) vs m =
      (callScope params captured vs >>= fun inner => catchReturn (nested (run inner b))) m := by
  show (if limits.maxDepth ≤ m.depth then _ else _ : Eval (Option Value)) m = _
  rw [if_neg (Nat.not_le.mpr h)]

/-! ### Loops

The rounds that are left are a task of their own, so an end in a later round goes up through the
earlier ones one by one. -/

/-- **A round that is due** is the body and the step, and then the other rounds. -/
theorem Task.settles_rounds {scope : ScopeId} {condition step : Option Expr} {b : Block}
    {finished : Nat} {o : Outcome Unit}
    (hgoesOn : Settles (fun n => goesOn limits n scope condition) m (.done true m₁))
    (hmost : ∀ most ∈ limits.maxIterations, finished < most)
    (h : Settles (fun n => do
      let _ ← block limits n scope b
      let _ ← advance limits n scope step
      (rounds scope condition step b (finished + 1)).eval limits n) m₁ o) :
    Settles (fun n => (rounds scope condition step b finished).eval limits n) m o := by
  have hallowed : Settles (fun _ => allowRound limits.maxIterations finished) m₁ (.done () m₁) :=
    .const (by rw [allowRound_eq_pure hmost]; rfl) rfl
  have hsucc : ∀ t : Task, ∀ n, Within (fun _ => False) (t.evalTurns limits n n)
      (t.evalTurns limits (n + 1) n) := fun t n =>
    evalTurns_within limits (Nat.le_succ n) (Nat.le_refl n) t
  have hadvance : ∀ n, Within (fun _ => False) (advance limits n scope step)
      (advance limits (n + 1) scope step) := fun n => by
    cases step with
    | none => exact .refl _
    | some e => exact hsucc (.expr scope e) n
  refine settles_succ.mp ((settles_succ.mpr hgoesOn).bind (hallowed.bind (h.within fun n => ?_)))
  exact .bind (.bind (.refl _) fun inner => hsucc (.row inner b none) n) fun _ =>
    .bind (hadvance n) fun _ => hsucc (.rounds scope condition step b (finished + 1)) n

/-- **What a task raises, it is unwound by.** -/
theorem Raises.unwinds (h : Raises limits (t, m) why m') : t.Unwinds limits m why m' := by
  cases h with
  | ret he =>
    refine settles_succ.mp ?_
    simp only [Task.eval, Statement.eval]
    exact he.operand.bind (.const rfl rfl)
  | overflow hf hargs hfull =>
    refine settles_succ.mp ?_
    simp only [Task.eval, Expr.eval]
    refine hf.operand.bind (hargs.bind (.of_forall (fun n => ?_) rfl))
    exact call_overflow hfull
  | rounds hgoesOn hmost hfinished =>
    refine settles_succ.mp ((settles_succ.mpr hgoesOn).bind (.of_forall (fun n => ?_) rfl))
    rw [if_pos rfl, allowRound_eq_fail hmost hfinished]
    rfl

/-! ## Upwards

A part that is unwound unwinds what it is a part of.  Only the body of a function is different: a
return ends there, and the call that the body was is over. -/

/-- **A part is unwound**, and so is the task that it is entered from. -/
theorem Enters.unwinds (h : Enters limits (t, m) (t', m₁)) (hcalls : t.calls t' = false)
    (hpart : t'.Unwinds limits m₁ why m') : t.Unwinds limits m why m' := by
  cases h with
  -- the body of a function is no part
  | body => cases hcalls
  -- expressions
  | operand | left | callee | container =>
    refine settles_succ.mp ?_
    simp only [Task.eval, Expr.eval]
    exact hpart.operand_unwound
  | right _ hv | key hv =>
    refine settles_succ.mp ?_
    simp only [Task.eval, Expr.eval]
    exact hv.operand.bind hpart.operand_unwound
  | assigned =>
    refine settles_succ.mp ?_
    simp only [Task.eval, Expr.eval]
    exact hpart.required_unwound
  | clauses =>
    refine settles_succ.mp ?_
    simp only [Task.eval, Expr.eval]
    exact hpart
  | arguments hf =>
    refine settles_succ.mp ?_
    simp only [Task.eval, Expr.eval]
    exact hf.operand.bind hpart.bind_unwound
  | elements | pairs =>
    refine settles_succ.mp ?_
    simp only [Task.eval, Expr.eval]
    exact hpart.bind_unwound
  -- lists of expressions
  | value | entryKey | test => exact hpart.operand_unwound
  | otherValues he => exact he.operand.bind hpart.bind_unwound
  | entryValue hk hkey =>
    exact hk.operand.bind ((Settles.ofExcept hkey).bind hpart.operand_unwound)
  | otherEntries hk hkey hv =>
    exact hk.operand.bind ((Settles.ofExcept hkey).bind (hv.operand.bind hpart))
  -- choices
  | taken hv htrue =>
    refine hv.operand.bind ?_
    simp only [if_pos htrue]
    exact hpart
  | otherClauses hv hfalse =>
    refine hv.operand.bind ?_
    simp only [hfalse, Bool.false_eq_true, if_false]
    exact hpart
  | alternative => exact hpart
  -- statements
  | bound =>
    refine settles_succ.mp ?_
    simp only [Task.eval, Statement.eval]
    exact hpart.required_unwound
  | returned =>
    refine settles_succ.mp ?_
    simp only [Task.eval, Statement.eval]
    exact hpart.operand_unwound
  | alone | block =>
    refine settles_succ.mp ?_
    simp only [Task.eval, Statement.eval]
    exact hpart
  | start | loop =>
    refine settles_succ.mp ?_
    simp only [Task.eval, Statement.eval]
    exact hpart.bind_unwound
  | started hs =>
    refine settles_succ.mp ?_
    simp only [Task.eval, Statement.eval]
    exact hs.bind hpart.bind_unwound
  -- rounds of a loop
  | @condition scope c step b finished m =>
    have htest : Settles (fun n => goesOn limits n scope (some c)) m (.unwound why m') :=
      Settles.operand_unwound hpart
    exact settles_succ.mp (settles_succ.mpr htest).bind_unwound
  | round hgoesOn hmost => exact Task.settles_rounds hgoesOn hmost hpart.bind_unwound
  | step hgoesOn hmost hb => exact Task.settles_rounds hgoesOn hmost (hb.bind hpart.bind_unwound)
  | otherRounds hgoesOn hmost hb hstep =>
    exact Task.settles_rounds hgoesOn hmost (hb.bind (hstep.bind hpart))
  -- statements in a row
  | first => exact hpart.bind_unwound
  | others hs => exact hs.bind hpart

/-- What is run as a call is run with one more call active. -/
theorem catchReturn_nested_congr {x y : Eval (Option Value)}
    (h : x { m with depth := m.depth + 1 } = y { m with depth := m.depth + 1 }) :
    catchReturn (nested x) m = catchReturn (nested y) m := by
  unfold catchReturn nested
  rw [h]

/-- **A call ends as the body ends**, but for a return and for the call that was active. -/
theorem Task.settles_call {scope captured inner : ScopeId} {f : Expr} {args : List Expr}
    {id : Identity} {params : List Param} {b : Block} {vs : List Value} {m₂ m₃ : Machine}
    {o : Outcome (Option Value)}
    (hf : (expr scope f).Gives limits m (some (.function id params b captured)) m₁)
    (hargs : (values scope args).Gives limits m₁ vs m₂) (hlt : m₂.depth < limits.maxDepth)
    (hscope : callScope params captured vs m₂ = .done inner m₃)
    (hbody : Settles (fun n => (row inner b none).eval limits n)
      { m₃ with depth := m₃.depth + 1 } o)
    (ho : (catchReturn (nested fun _ => o) m₃).finished) :
    Settles (fun n => (expr scope (.call f args)).eval limits n) m
      (catchReturn (nested fun _ => o) m₃) := by
  obtain ⟨-, fuel, hbody⟩ := hbody
  refine settles_succ.mp ?_
  simp only [Task.eval, Expr.eval]
  refine hf.operand.bind (hargs.bind ⟨ho, fuel, fun n hn => ?_⟩)
  refine (call_apply hlt).trans ?_
  rw [bind_apply, hscope]
  exact catchReturn_nested_congr (hbody n hn)

/-- **An error goes through a call**, which is not active any more. -/
theorem Enters.unwinds_call {e : RuntimeError} (h : Enters limits (t, m) (t', m₁))
    (hcalls : t.calls t') (hbody : t'.Unwinds limits m₁ (.failed e) m') :
    t.Unwinds limits m (.failed e) { m' with depth := m'.depth - 1 } := by
  cases h with
  | body hf hargs hlt hscope => exact Task.settles_call hf hargs hlt hscope hbody rfl
  | _ => cases hcalls

/-- **A return ends at its call**, which gives what was returned. -/
theorem Enters.gives_call {scope : ScopeId} {f : Expr} {args : List Expr} {v : Value}
    (h : Enters limits (.expr scope (.call f args), m) (t', m₁))
    (hcalls : (Task.expr scope (.call f args)).calls t')
    (hbody : t'.Unwinds limits m₁ (.returned v) m') :
    (Task.expr scope (.call f args)).Gives limits m (some v) { m' with depth := m'.depth - 1 } := by
  cases h with
  | body hf hargs hlt hscope => exact Task.settles_call hf hargs hlt hscope hbody rfl
  | _ => cases hcalls

end

/-! ## All the way up

Step by step along the way that leads down to where the end was raised. -/

/-- Work on the first task enters the second one **within the same call**. -/
def Inside (limits : Limits) (p q : Task × Machine) : Prop :=
  Enters limits p q ∧ p.1.calls q.1 = false

section

variable {limits : Limits} {t : Task} {m m' : Machine} {why : Unwind} {v : Value}
  {e : RuntimeError} {p q : Task × Machine}

/-- **An end goes up within a call**, whatever it is. -/
theorem unwinds_of_inside (h : Relation.ReflTransGen (Inside limits) p q)
    (hq : q.1.Unwinds limits q.2 why m') : p.1.Unwinds limits p.2 why m' := by
  induction h using Relation.ReflTransGen.head_induction_on with
  | refl => exact hq
  | head hstep _ ih => exact hstep.1.unwinds hstep.2 ih

/-- As many calls as there are make no other machine. -/
theorem Machine.set_depth_eq (h : m'.depth = m.depth) : { m' with depth := m.depth } = m' := by
  rw [← h]

/-- **An error goes up to the program**, through all calls. -/
theorem unwinds_of_entered (h : Relation.ReflTransGen (Enters limits) p q)
    (hq : q.1.Unwinds limits q.2 (.failed e) m') :
    p.1.Unwinds limits p.2 (.failed e) { m' with depth := p.2.depth } := by
  induction h using Relation.ReflTransGen.head_induction_on with
  | refl => rwa [Machine.set_depth_eq hq.depth_eq]
  | @head p p' hstep _ ih =>
    have hdepth := ih.depth_eq
    rcases hstep.depth_cases with ⟨hcalls, hsucc, -⟩ | ⟨hcalls, hsame, -⟩
    · have hcall := hstep.unwinds_call hcalls ih
      rwa [hsucc, Nat.add_sub_cancel] at hcall
    · rw [← hsame]
      exact hstep.unwinds hcalls ih

end

end Scriptlet
