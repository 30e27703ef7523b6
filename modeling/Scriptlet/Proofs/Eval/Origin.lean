import Scriptlet.Proofs.Value.Errors
import Scriptlet.Proofs.Eval.Unwinding

/-!
# Proofs/Eval/Origin — where a return comes from, and the error of a limit

A task that ends with a return, or with the error of a limit, raised it itself or else has a part
that ends so: names, operators and parameters fail with errors of their own (`Calm`).  Down from a
task to such a part there is less fuel left, or less to evaluate, or fewer turns of a loop
(`Task.descends`), so the way down ends where the end was raised.

So the tasks that end with a return or the error of a limit are known exactly
(`Task.unwinds_returned_iff`, `Task.unwinds_limit_iff`): those on the way to a place that raises it.
-/

namespace Scriptlet

open Eval

/-- The end is one of control, a return or the error of a limit, and not one of an operation. -/
def Unwind.isControl : Unwind → Bool
  | returned _ => true
  | failed e => e.isLimit

namespace Eval

variable {α β : Type} {m m' : Machine} {why : Unwind}

/-! ## Computations without control

Names, operators and the parameters of a call end in errors of their own. -/

/-- The computation ends neither with a return nor with the error of a limit. -/
def Calm (x : Eval α) : Prop := ∀ m why m', x m = .unwound why m' → why.isControl = false

namespace Calm

/-! A part that is calm can be passed over: if the whole ends with an end of control, that end comes
from another part. -/

theorem pure (a : α) : Calm (pure a : Eval α) := fun _ _ _ h => by cases h

/-- An error that is not that of a limit. -/
theorem fail {e : RuntimeError} (he : e.isLimit = false) : Calm (fail e : Eval α) := by
  intro m why m' h
  cases h
  exact he

theorem fresh : Calm fresh := fun _ _ _ h => by cases h

theorem enclose (scope : ScopeId) : Calm (enclose scope) := fun _ _ _ h => by cases h

/-- A row of calm computations is calm. -/
theorem bind {x : Eval α} {f : α → Eval β} (hx : Calm x) (hf : ∀ a, Calm (f a)) :
    Calm (x >>= f) := by
  intro m why m' h
  rw [bind_apply] at h
  cases hxm : x m with
  | done a m₁ =>
    rw [hxm] at h
    exact hf a m₁ why m' h
  | unwound why' m₁ =>
    rw [hxm] at h
    cases h
    exact hx m why m' hxm
  | outOfFuel =>
    rw [hxm] at h
    cases h

/-- A calm computation does not end with an end of control. -/
theorem elim {x : Eval α} {P : Prop} (hx : Calm x) (h : x m = .unwound why m')
    (hwhy : why.isControl) : P := by
  rw [hx m why m' h] at hwhy
  cases hwhy

/-- What fails on values fails with an error of its own. -/
theorem ofExcept {r : Except RuntimeError α} (hr : ∀ e, r = .error e → e.isOfValues) :
    Calm (ofExcept r) := by
  cases r with
  | ok a => exact pure a
  | error e =>
    have he := hr e rfl
    exact fail (by cases e <;> first | rfl | cases he)

/-- An operation on values, which fails with an error of its own. -/
theorem operation {r : Except RuntimeError Value} (hr : ∀ e, r = .error e → e.isOfValues) :
    Calm (do return some (← Eval.ofExcept r) : Eval (Option Value)) :=
  bind (ofExcept hr) fun _ => pure _

/-! Names and parameters fail with errors of their own: an unknown name, one that is bound twice, a
wrong number of arguments. -/

theorem lookup (scope : ScopeId) (x : String) : Calm (lookup scope x) := by
  intro m why m' h
  unfold Eval.lookup at h
  split at h
  · cases h
  · split at h <;> cases h
    rfl

theorem define (scope : ScopeId) (x : String) (v : Value) : Calm (define scope x v) := by
  intro m why m' h
  unfold Eval.define at h
  split at h <;> cases h
  rfl

theorem assign (scope : ScopeId) (x : String) (v : Value) : Calm (assign scope x v) := by
  intro m why m' h
  unfold Eval.assign at h
  split at h <;> cases h
  rfl

/-- Parameters are bound by `define`. -/
theorem bindParams (scope : ScopeId) (params : List Param) (args : List Value) :
    Calm (bindParams scope params args) := by
  induction params generalizing args with
  | nil => exact pure ()
  | cons p ps ih =>
    unfold Eval.bindParams
    split
    · exact bind fresh fun _ => define _ _ _
    · exact bind (define _ _ _) fun _ => ih _

/-- A wrong number of arguments is an error of its own. -/
theorem callScope (params : List Param) (captured : ScopeId) (args : List Value) :
    Calm (callScope params captured args) := by
  unfold Eval.callScope
  split
  · exact bind (enclose _) fun _ => bind (bindParams _ _ _) fun _ => pure _
  · exact fail rfl

end Calm

/-! ## Operands

An operand may be what ends, or the part that is done with its value. -/

/-- An end behind an operand comes from the operand or from what is done with it. -/
theorem unwound_operand_bind {x : Eval (Option Value)} {f : Value → Eval β}
    (h : (operand x >>= f) m = .unwound why m') :
    x m = .unwound why m' ∨ ∃ r m₁, x m = .done r m₁ ∧ f (r.getD .null) m₁ = .unwound why m' := by
  simp only [operand, bind_assoc, pure_bind] at h
  exact unwound_bind h

/-- So does an end of control behind an operand that has to give something, for the lack of that is
an error of its own. -/
theorem unwound_required_bind {x : Eval (Option Value)} {f : Value → Eval β}
    (h : (required x >>= f) m = .unwound why m') (hwhy : why.isControl) :
    x m = .unwound why m' ∨ ∃ v m₁, x m = .done (some v) m₁ ∧ f v m₁ = .unwound why m' := by
  simp only [required, bind_assoc] at h
  rcases unwound_bind h with hx | ⟨r, m₁, hx, h⟩
  · exact .inl hx
  · cases r with
    | none =>
      cases h
      cases hwhy
    | some v => exact .inr ⟨v, m₁, hx, h⟩

end Eval

/-! ## Downwards

Each form of task has a lemma that says where an end of control comes from: the cases are those of
the definition of evaluation, and calm parts drop out.  All measure what is left by fuel first,
since the body of a function may be larger than the call. -/

namespace Task

/-- What is left to do: by the fuel, by how much there is to evaluate, and by the turns of a loop.
-/
noncomputable def work (n k : Nat) (t : Task) : Nat × Nat × Nat := (n, t.size, k)

/-- What a task gives with some fuel it gives with enough. -/
theorem gives_of_eval {limits : Limits} {t : Task} {m m' : Machine} {n : Nat} {r : t.Result}
    (h : t.eval limits n m = .done r m') : t.Gives limits m r m' :=
  (steady limits t).settles_iff.mpr ⟨rfl, n, h⟩

end Task

/-- A task that was unwound within fuel `n`, and `k` turns, **descends**: the end was raised by the
task itself, or else a part of it was unwound so, or the body of the function that it calls, with
less left to do. -/
inductive Descends (limits : Limits) (n k : Nat) (t : Task) (m : Machine) :
    Unwind → Machine → Prop
  | raised {why m'} : Raises limits (t, m) why m' → Descends limits n k t m why m'
  | part {q m₁ i j why m'} : Enters limits (t, m) (q, m₁) → t.calls q = false →
    q.evalTurns limits i j m₁ = .unwound why m' →
    Prod.Lex (· < ·) (Prod.Lex (· < ·) (· < ·)) (q.work i j) (t.work n k) →
    Descends limits n k t m why m'
  | call {q m₁ i j e m'} : Enters limits (t, m) (q, m₁) → t.calls q →
    q.evalTurns limits i j m₁ = .unwound (.failed e) m' →
    Prod.Lex (· < ·) (Prod.Lex (· < ·) (· < ·)) (q.work i j) (t.work n k) →
    Descends limits n k t m (.failed e) { m' with depth := m'.depth - 1 }

section

variable {limits : Limits} {t q : Task} {m m' m₁ : Machine} {why : Unwind} {n k : Nat}

namespace Descends

theorem below (h : Enters limits (t, m) (q, m₁)) (hcalls : t.calls q = false)
    (hpart : q.eval limits n m₁ = .unwound why m') : Descends limits (n + 1) k t m why m' :=
  .part h hcalls (q.evalTurns_self limits n ▸ hpart) (.left _ _ (Nat.lt_succ_self n))

/-- A smaller part. -/
theorem inside (h : Enters limits (t, m) (q, m₁)) (hcalls : t.calls q = false)
    (hpart : q.eval limits n m₁ = .unwound why m') (hsize : q.size < t.size) :
    Descends limits n k t m why m' :=
  .part h hcalls (q.evalTurns_self limits n ▸ hpart) (.right _ (.left _ _ hsize))

end Descends

namespace Task

variable {scope : ScopeId}

/-! ### Lists -/

/-- Statements in a row: from the first one, or from the others. -/
theorem row_descends {b : Block} {last : Option Value}
    (h : (row scope b last).eval limits n m = .unwound why m') :
    Descends limits n k (row scope b last) m why m' := by
  cases b with
  | nil => cases h
  | cons s ss =>
    rcases unwound_bind h with hs | ⟨r, m₁, hs, hss⟩
    · exact .inside .first rfl hs (by simp +arith [size])
    · exact .inside (.others (gives_of_eval hs)) rfl hss (by simp +arith [size])

/-- Elements: from the first one, or from the others. -/
theorem values_descends {es : List Expr} (h : (values scope es).eval limits n m = .unwound why m') :
    Descends limits n k (values scope es) m why m' := by
  cases es with
  | nil => cases h
  | cons e es =>
    rcases unwound_operand_bind h with he | ⟨r, m₁, he, h⟩
    · exact .inside .value rfl he (by simp +arith [size])
    rcases unwound_bind h with hes | ⟨vs, m₂, -, h⟩
    · exact .inside (.otherValues (gives_of_eval he)) rfl hes (by simp +arith [size])
    · cases h

/-- Pairs: from the first key, from its value, or from the others. -/
theorem entries_descends {ps : List (Expr × Expr)} {done : List HashEntry}
    (h : (entries scope ps done).eval limits n m = .unwound why m') (hwhy : why.isControl) :
    Descends limits n k (entries scope ps done) m why m' := by
  cases ps with
  | nil => cases h
  | cons p ps =>
    rcases unwound_operand_bind h with hk | ⟨r, m₁, hk, hrest⟩
    · exact .inside .entryKey rfl hk (by simp +arith [size, sizeOf_pair])
    rcases unwound_bind hrest with hkey | ⟨key, m₂, hkey, hothers⟩
    · exact (Calm.ofExcept fun _ => Value.toHashKey_error).elim hkey hwhy
    obtain ⟨hkeys, rfl⟩ := ofExcept_done hkey
    rcases unwound_operand_bind hothers with hv | ⟨v, m₃, hv, hothers⟩
    · exact .inside (.entryValue (gives_of_eval hk) hkeys) rfl hv
        (by simp +arith [size, sizeOf_pair])
    · exact .inside (.otherEntries (gives_of_eval hk) hkeys (gives_of_eval hv)) rfl hothers
        (by simp +arith [size])

/-- A choice: from a condition, from its block, or from the other choices. -/
theorem choice_descends {cs : List Clause} {alternative : Option Block}
    (h : (choice scope cs alternative).eval limits n m = .unwound why m') :
    Descends limits n k (choice scope cs alternative) m why m' := by
  cases cs with
  | nil =>
    cases alternative with
    | none => cases h
    | some b =>
      exact .inside (q := .row m.store.nextScope b none) .alternative rfl h
        (by simp +arith [size])
  | cons c cs =>
    rcases unwound_operand_bind h with hc | ⟨r, m₁, hc, h⟩
    · exact .inside .test rfl hc (by simp +arith [size, sizeOf_pair])
    by_cases htrue : (r.getD .null).truthy
    · rw [if_pos htrue] at h
      exact .inside (q := .row m₁.store.nextScope c.2 none) (.taken (gives_of_eval hc) htrue) rfl h
        (by simp +arith [size, sizeOf_pair])
    · rw [if_neg htrue] at h
      exact .inside (.otherClauses (gives_of_eval hc) (Bool.not_eq_true _ ▸ htrue)) rfl h
        (by simp +arith [size])

/-! ### Loops

Behind the body and the step of a round the loop goes on with a turn less, so the turns are part of
the measure.  A round too many is raised by the loop itself. -/

/-- A loop: from its condition, its body, its step, or the rounds that are left, unless it is
stopped. -/
theorem rounds_descends {condition step : Option Expr} {b : Block} {finished : Nat}
    (h : (rounds scope condition step b finished).evalTurns limits n k m = .unwound why m')
    (hwhy : why.isControl) :
    Descends limits n k (rounds scope condition step b finished) m why m' := by
  cases k with
  | zero => cases h
  | succ k =>
    rcases unwound_bind h with htest | ⟨holds, m₁, htest, hrest⟩
    · cases condition with
      | none => cases htest
      | some c =>
        rcases unwound_operand_bind htest with hc | ⟨r, m₁, -, hlast⟩
        · exact .inside .condition rfl hc (by simp +arith [size])
        · cases hlast
    cases holds with
    | false => cases hrest
    | true =>
      have hgoesOn := (goesOn_steady limits scope condition).settles_iff.mpr ⟨rfl, n, htest⟩
      -- The limit is looked at between the condition and the body.
      by_cases hmost : ∀ most ∈ limits.maxIterations, finished < most
      · simp only [if_pos, allowRound_eq_pure hmost, pure_bind] at hrest
        rcases unwound_bind hrest with hb | ⟨v, m₂, hb, hstep⟩
        · exact .inside (q := .row m₁.store.nextScope b none) (.round hgoesOn hmost) rfl hb
            (by simp +arith [size])
        have hbody := gives_of_eval (t := .row m₁.store.nextScope b none) hb
        rcases unwound_bind hstep with hs | ⟨v', m₃, hs, hothers⟩
        · cases step with
          | none => cases hs
          | some e => exact .inside (.step hgoesOn hmost hbody) rfl hs (by simp +arith [size])
        · have hadvance := (advance_steady limits scope step).settles_iff.mpr ⟨rfl, n, hs⟩
          exact .part (.otherRounds hgoesOn hmost hbody hadvance) rfl hothers
            (.right _ (.right _ (Nat.lt_succ_self k)))
      · obtain ⟨most, hlimit, hfinished⟩ : ∃ most ∈ limits.maxIterations, most ≤ finished := by
          simpa using hmost
        rw [if_pos rfl, allowRound_eq_fail hlimit hfinished] at hrest
        cases hrest
        exact .raised (.rounds hgoesOn hlimit hfinished)

/-! ### Statements

A block, a loop and an operand are parts that the end may come from; only a return raises it. -/

/-- Statements: a return raises its own end, unless its operand ends first. -/
theorem statement_descends {s : Statement}
    (h : (statement scope s).eval limits n m = .unwound why m') (hwhy : why.isControl) :
    Descends limits n k (statement scope s) m why m' := by
  cases n with
  | zero => cases h
  | succ n =>
    -- The operand comes first, so an end is its own, or else comes from the step behind it, which
    -- is calm except for a return.
    cases s with
    | bind x e =>
      simp only [Task.eval, Statement.eval] at h
      rcases unwound_required_bind h hwhy with he | ⟨v, m₁, -, hlast⟩
      · exact .below .bound rfl he
      · exact (Calm.bind (.define _ _ _) fun _ => .pure _).elim hlast hwhy
    | ret e =>
      simp only [Task.eval, Statement.eval] at h
      rcases unwound_operand_bind h with he | ⟨r, m₁, he, hlast⟩
      · exact .below .returned rfl he
      · cases hlast
        exact .raised (.ret (gives_of_eval he))
    | expr e =>
      simp only [Task.eval, Statement.eval] at h
      exact .below .alone rfl h
    | block b =>
      simp only [Task.eval, Statement.eval] at h
      exact .below (q := .row m.store.nextScope b none) .block rfl h
    | loop init condition step b =>
      simp only [Task.eval, Statement.eval] at h
      cases init with
      | none =>
        rcases unwound_bind h with hrounds | ⟨_, m₁, -, hlast⟩
        · exact .below .loop rfl hrounds
        · cases hlast
      | some s =>
        rcases unwound_bind h with hs | ⟨r, m₁, hs, hrest⟩
        · exact .below .start rfl hs
        rcases unwound_bind hrest with hrounds | ⟨_, m₂, -, hlast⟩
        · exact .below (.started (gives_of_eval hs)) rfl hrounds
        · cases hlast

/-! ### Expressions

The only step that leads out of the text at hand is a call, to the body of the function, with less
fuel. -/

/-- A call whose callee and arguments are known: it overflows, or the end comes from the body. -/
theorem call_descends {f : Expr} {args : List Expr} {r : Option Value} {m₂ : Machine}
    {vs : List Value} (hf : (expr scope f).Gives limits m r m₁)
    (hargs : (values scope args).Gives limits m₁ vs m₂)
    (h : call limits (fun inner b => sequence (fun s => Statement.eval limits n inner s) b none)
      (r.getD .null) vs m₂ = .unwound why m') (hwhy : why.isControl) :
    Descends limits (n + 1) k (expr scope (.call f args)) m why m' := by
  cases r with
  | none => exact (Calm.fail rfl).elim h hwhy
  | some callee =>
    cases callee with
    | function id params b captured =>
      by_cases hfull : limits.maxDepth ≤ m₂.depth
      · cases (call_overflow hfull).symm.trans h
        exact .raised (.overflow hf hargs hfull)
      have hlt := Nat.lt_of_not_le hfull
      rcases unwound_bind ((call_apply hlt).symm.trans h) with hscope | ⟨inner, m₃, hscope, hbody⟩
      · exact (Calm.callScope _ _ _).elim hscope hwhy
      have hentered := Enters.body hf hargs hlt hscope
      -- a return of the body was caught, so its end was an error
      unfold catchReturn nested at hbody
      rcases hb : (row inner b none).eval limits n { m₃ with depth := m₃.depth + 1 } with
        ⟨a, m₄⟩ | ⟨v | e, m₄⟩ | _
      all_goals
        change sequence _ b none _ = _ at hb
        rw [hb] at hbody
        cases hbody
      exact .call (i := n) (j := n) hentered rfl hb (.left _ _ (Nat.lt_succ_self n))
    | builtin b =>
      exact (Calm.bind .fresh fun _ => Calm.operation fun _ => Builtin.call_error).elim h hwhy
    | _ => exact (Calm.fail rfl).elim h hwhy

/-- Expressions: from their parts, in the order of evaluation. -/
theorem expr_descends {e : Expr} (h : (expr scope e).eval limits n m = .unwound why m')
    (hwhy : why.isControl) : Descends limits n k (expr scope e) m why m' := by
  cases n with
  | zero => cases h
  | succ n =>
    -- Parts that are evaluated may end so; the steps on values and names in between are calm, which
    -- leaves the parts and the body of a function.
    cases e with
    | integer | boolean | string =>
      simp only [Task.eval, Expr.eval] at h
      cases h
    | ident x =>
      simp only [Task.eval, Expr.eval] at h
      exact (Calm.bind (.lookup _ _) fun _ => .pure _).elim h hwhy
    | unary op e =>
      simp only [Task.eval, Expr.eval] at h
      rcases unwound_operand_bind h with he | ⟨r, m₁, -, hlast⟩
      · exact .below .operand rfl he
      · exact (Calm.operation fun _ => PrefixOp.apply_error).elim hlast hwhy
    | binary op l r =>
      by_cases hop : op = .assign
      · subst hop
        cases l with
        | ident x =>
          simp only [Task.eval, Expr.eval] at h
          rcases unwound_required_bind h hwhy with he | ⟨v, m₁, -, hlast⟩
          · exact .below .assigned rfl he
          · exact (Calm.bind (.assign _ _ _) fun _ => .pure _).elim hlast hwhy
        | _ =>
          simp only [Task.eval, Expr.eval] at h
          exact (Calm.fail rfl).elim h hwhy
      · simp only [Task.eval, Expr.eval] at h
        rcases unwound_operand_bind h with hl | ⟨v, m₁, hl, hrest⟩
        · exact .below (.left hop) rfl hl
        rcases unwound_operand_bind hrest with hr | ⟨w, m₂, -, hlast⟩
        · exact .below (.right hop (gives_of_eval hl)) rfl hr
        · exact (Calm.operation fun _ => InfixOp.apply_error).elim hlast hwhy
    | conditional cs alternative =>
      simp only [Task.eval, Expr.eval] at h
      exact .below .clauses rfl h
    | function params b =>
      simp only [Task.eval, Expr.eval] at h
      split at h
      · cases h
      · exact (Calm.fail rfl).elim h hwhy
    | call f args =>
      simp only [Task.eval, Expr.eval] at h
      rcases unwound_operand_bind h with hf | ⟨r, m₁, hf, hrest⟩
      · exact .below .callee rfl hf
      rcases unwound_bind hrest with hargs | ⟨vs, m₂, hargs, hcall⟩
      · exact .below (.arguments (gives_of_eval hf)) rfl hargs
      · exact call_descends (gives_of_eval hf) (gives_of_eval (t := .values scope args) hargs) hcall
          hwhy
    | array es =>
      simp only [Task.eval, Expr.eval] at h
      rcases unwound_bind h with hes | ⟨vs, m₁, -, hlast⟩
      · exact .below .elements rfl hes
      · cases hlast
    | hash ps =>
      simp only [Task.eval, Expr.eval] at h
      rcases unwound_bind h with hps | ⟨es, m₁, -, hlast⟩
      · exact .below .pairs rfl hps
      · cases hlast
    | index e i =>
      simp only [Task.eval, Expr.eval] at h
      rcases unwound_operand_bind h with he | ⟨r, m₁, he, hrest⟩
      · exact .below .container rfl he
      rcases unwound_operand_bind hrest with hi | ⟨w, m₂, -, hlast⟩
      · exact .below (.key (gives_of_eval he)) rfl hi
      · exact (Calm.operation fun _ => Value.index_error).elim hlast hwhy

/-- **A task that ended with an end of control descends.** -/
theorem descends (h : t.evalTurns limits n k m = .unwound why m') (hwhy : why.isControl) :
    Descends limits n k t m why m' := by
  cases t with
  | expr => exact expr_descends h hwhy
  | statement => exact statement_descends h hwhy
  | row => exact row_descends h
  | choice => exact choice_descends h
  | rounds => exact rounds_descends h hwhy
  | values => exact values_descends h
  | entries => exact entries_descends h hwhy

end Task

end

/-! ## All the way down

Going down ends, since what is left gets less, and it ends only where the end of control was raised.
-/

section

variable {limits : Limits} {t : Task} {m m' : Machine} {v : Value} {e : RuntimeError}

theorem wellFounded_work : WellFounded
    (Prod.Lex (· < ·) (Prod.Lex (· < ·) (· < ·)) : Nat × Nat × Nat → Nat × Nat × Nat → Prop) :=
  (Prod.lex Nat.lt_wfRel (Prod.lex Nat.lt_wfRel Nat.lt_wfRel)).wf

/-- A return was raised on the way down within the same call. -/
theorem exists_raises_of_returned {n k : Nat}
    (h : t.evalTurns limits n k m = .unwound (.returned v) m') :
    ∃ q, Relation.ReflTransGen (Inside limits) (t, m) q ∧ Raises limits q (.returned v) m' := by
  induction hwork : t.work n k using wellFounded_work.induction generalizing t n k m with
  | h w ih =>
    cases Task.descends h rfl with
    | raised hraises => exact ⟨(t, m), .refl, hraises⟩
    | part hq hcalls hpart hless =>
      obtain ⟨q, hpath, hraises⟩ := ih _ (hwork ▸ hless) hpart rfl
      exact ⟨q, .head ⟨hq, hcalls⟩ hpath, hraises⟩

/-- The error of a limit was raised on the way down, through calls or not; each call on the way is
over when the error has gone up. -/
theorem exists_raises_of_failed (he : e.isLimit) {n k : Nat}
    (h : t.evalTurns limits n k m = .unwound (.failed e) m') :
    ∃ q m'', Relation.ReflTransGen (Enters limits) (t, m) q ∧ Raises limits q (.failed e) m'' ∧
      m' = { m'' with depth := m.depth } := by
  induction hwork : t.work n k using wellFounded_work.induction generalizing t n k m m' with
  | h w ih =>
    cases Task.descends h he with
    | raised hraises =>
      exact ⟨(t, m), m', .refl, hraises, (Machine.set_depth_eq hraises.unwinds.depth_eq).symm⟩
    | part hq hcalls hpart hless =>
      obtain ⟨q, m'', hpath, hraises, rfl⟩ := ih _ (hwork ▸ hless) hpart rfl
      refine ⟨q, m'', .head hq hpath, hraises, ?_⟩
      rcases hq.depth_cases with ⟨hcalls', -⟩ | ⟨-, hsame, -⟩
      · rw [hcalls] at hcalls'
        cases hcalls'
      · rw [← hsame]
    | call hq hcalls hpart hless =>
      obtain ⟨q, m'', hpath, hraises, rfl⟩ := ih _ (hwork ▸ hless) hpart rfl
      refine ⟨q, m'', .head hq hpath, hraises, ?_⟩
      rcases hq.depth_cases with ⟨-, hsucc, -⟩ | ⟨hcalls', -⟩
      · rw [hsucc, Nat.add_sub_cancel]
      · rw [hcalls] at hcalls'
        cases hcalls'

namespace Task

/-- **A task ends with a return** exactly if it is on the way to one within the same call. -/
theorem unwinds_returned_iff : t.Unwinds limits m (.returned v) m' ↔
    ∃ q, Relation.ReflTransGen (Inside limits) (t, m) q ∧ Raises limits q (.returned v) m' := by
  constructor
  · rintro ⟨-, n, h⟩
    exact exists_raises_of_returned
      ((congrFun (t.evalTurns_self limits n) m).trans (h n (Nat.le_refl n)))
  · rintro ⟨⟨t', m₁⟩, hpath, hraises⟩
    exact unwinds_of_inside hpath hraises.unwinds

/-- **A task ends with the error of a limit** exactly if it is on the way to where it is raised,
through calls or not; as many calls are active again as before. -/
theorem unwinds_limit_iff (he : e.isLimit) : t.Unwinds limits m (.failed e) m' ↔
    ∃ q m'', Relation.ReflTransGen (Enters limits) (t, m) q ∧ Raises limits q (.failed e) m'' ∧
      m' = { m'' with depth := m.depth } := by
  constructor
  · rintro ⟨-, n, h⟩
    exact exists_raises_of_failed he
      ((congrFun (t.evalTurns_self limits n) m).trans (h n (Nat.le_refl n)))
  · rintro ⟨⟨t', m₁⟩, m'', hpath, hraises, rfl⟩
    exact unwinds_of_entered hpath hraises.unwinds

end Task

end

end Scriptlet
