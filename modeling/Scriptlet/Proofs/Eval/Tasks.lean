import Scriptlet.Proofs.Eval.Coupling
import Scriptlet.Proofs.Eval.Settling

/-!
# Proofs/Eval/Tasks — the evaluations inside an evaluation

Evaluation is one recursive function, but while it runs it goes through many states of the machine.
Here they are named: a `Task` is a piece of work, evaluating an expression or a statement or what is
left of a list of them, and `Enters` says which task is entered next from which task, and on which
machine.  `Enters` does not ask whether the task entered, or the whole, ever ends.

The relation leaves no task out that matters: a task halts as soon as all those halt that are
entered from it (`Task.halts_of_enters`).
-/

namespace Scriptlet

open Eval

/-- A piece of work for the evaluator, in a scope. -/
inductive Task where
  | expr (scope : ScopeId) (e : Expr)
  | statement (scope : ScopeId) (s : Statement)
  /-- Statements in a row, after one that gave `last`. -/
  | row (scope : ScopeId) (b : Block) (last : Option Value)
  /-- The clauses of an `if` that are left. -/
  | choice (scope : ScopeId) (clauses : List Clause) (alternative : Option Block)
  /-- A loop, when `finished` rounds are over. -/
  | rounds (scope : ScopeId) (condition step : Option Expr) (body : Block) (finished : Nat)
  | values (scope : ScopeId) (es : List Expr)
  /-- The pairs of a hash literal that are left, after those that gave `done`. -/
  | entries (scope : ScopeId) (pairs : List (Expr × Expr)) (done : List HashEntry)

namespace Task

/-- What a task gives. -/
def Result : Task → Type
  | values .. => List Value
  | entries .. => List HashEntry
  | rounds .. => Unit
  | _ => Option Value

/-- How the task is evaluated, with some fuel. -/
def eval (limits : Limits) (n : Nat) : (t : Task) → Eval t.Result
  | expr scope e => Expr.eval limits n scope e
  | statement scope s => Statement.eval limits n scope s
  | row scope b last => sequence (fun s => Statement.eval limits n scope s) b last
  | choice scope clauses alternative =>
    choose (fun c => operand (Expr.eval limits n scope c)) (block limits n scope) clauses
      alternative
  | rounds scope condition step body finished =>
    repeatWhile limits.maxIterations (goesOn limits n scope condition) (block limits n scope body)
      (advance limits n scope step) n finished
  | values scope es => Eval.values (fun a => operand (Expr.eval limits n scope a)) es
  | entries scope pairs done =>
    Eval.entries (fun a => operand (Expr.eval limits n scope a)) pairs done

/-- The task gives `r` on the machine `m` and leaves `m'`. -/
def Gives (limits : Limits) (t : Task) (m : Machine) (r : t.Result) (m' : Machine) : Prop :=
  Settles (fun n => t.eval limits n) m (.done r m')

/-- The task ends if given fuel enough. -/
def Halts (limits : Limits) (t : Task) (m : Machine) : Prop :=
  Eval.Halts (fun n => t.eval limits n) m

end Task

/-- Work on the first task, on its machine, **enters** the second one, on its machine. -/
inductive Enters (limits : Limits) : Task × Machine → Task × Machine → Prop
  -- expressions
  | operand {scope op e m} : Enters limits (.expr scope (.unary op e), m) (.expr scope e, m)
  | assigned {scope x e m} :
    Enters limits (.expr scope (.binary .assign (.ident x) e), m) (.expr scope e, m)
  | left {scope op l r m} : op ≠ InfixOp.assign →
    Enters limits (.expr scope (.binary op l r), m) (.expr scope l, m)
  | right {scope op l r m v m'} : op ≠ InfixOp.assign →
    (Task.expr scope l).Gives limits m v m' →
    Enters limits (.expr scope (.binary op l r), m) (.expr scope r, m')
  | clauses {scope clauses alternative m} :
    Enters limits (.expr scope (.conditional clauses alternative), m)
      (.choice scope clauses alternative, m)
  | callee {scope f args m} : Enters limits (.expr scope (.call f args), m) (.expr scope f, m)
  | arguments {scope f args m v m'} : (Task.expr scope f).Gives limits m v m' →
    Enters limits (.expr scope (.call f args), m) (.values scope args, m')
  /-- The body of a function, as one more active call. -/
  | body {scope f args m id params b captured m₁ vs m₂ inner m₃} :
    (Task.expr scope f).Gives limits m (some (.function id params b captured)) m₁ →
    (Task.values scope args).Gives limits m₁ vs m₂ →
    m₂.depth < limits.maxDepth →
    callScope params captured vs m₂ = .done inner m₃ →
    Enters limits (.expr scope (.call f args), m)
      (.row inner b none, { m₃ with depth := m₃.depth + 1 })
  | elements {scope es m} : Enters limits (.expr scope (.array es), m) (.values scope es, m)
  | pairs {scope ps m} : Enters limits (.expr scope (.hash ps), m) (.entries scope ps [], m)
  | container {scope e k m} : Enters limits (.expr scope (.index e k), m) (.expr scope e, m)
  | key {scope e k m v m'} : (Task.expr scope e).Gives limits m v m' →
    Enters limits (.expr scope (.index e k), m) (.expr scope k, m')
  -- lists of expressions
  | value {scope e es m} : Enters limits (.values scope (e :: es), m) (.expr scope e, m)
  | otherValues {scope e es m v m'} : (Task.expr scope e).Gives limits m v m' →
    Enters limits (.values scope (e :: es), m) (.values scope es, m')
  | entryKey {scope p ps done m} :
    Enters limits (.entries scope (p :: ps) done, m) (.expr scope p.1, m)
  | entryValue {scope p ps done m k key m'} : (Task.expr scope p.1).Gives limits m k m' →
    (k.getD .null).toHashKey = .ok key →
    Enters limits (.entries scope (p :: ps) done, m) (.expr scope p.2, m')
  | otherEntries {scope p ps done m k key m₁ v m₂} : (Task.expr scope p.1).Gives limits m k m₁ →
    (k.getD .null).toHashKey = .ok key → (Task.expr scope p.2).Gives limits m₁ v m₂ →
    Enters limits (.entries scope (p :: ps) done, m)
      (.entries scope ps (insertPair key ⟨k.getD .null, v.getD .null⟩ done), m₂)
  -- choices
  | test {scope c cs alternative m} :
    Enters limits (.choice scope (c :: cs) alternative, m) (.expr scope c.1, m)
  | taken {scope c cs alternative m v m'} : (Task.expr scope c.1).Gives limits m v m' →
    (v.getD .null).truthy →
    Enters limits (.choice scope (c :: cs) alternative, m)
      (.row m'.store.nextScope c.2 none, m'.enclosed scope)
  | otherClauses {scope c cs alternative m v m'} : (Task.expr scope c.1).Gives limits m v m' →
    (v.getD .null).truthy = false →
    Enters limits (.choice scope (c :: cs) alternative, m) (.choice scope cs alternative, m')
  | alternative {scope b m} :
    Enters limits (.choice scope [] (some b), m)
      (.row m.store.nextScope b none, m.enclosed scope)
  -- statements
  | bound {scope x e m} : Enters limits (.statement scope (.bind x e), m) (.expr scope e, m)
  | returned {scope e m} : Enters limits (.statement scope (.ret e), m) (.expr scope e, m)
  | alone {scope e m} : Enters limits (.statement scope (.expr e), m) (.expr scope e, m)
  | block {scope b m} :
    Enters limits (.statement scope (.block b), m)
      (.row m.store.nextScope b none, m.enclosed scope)
  | start {scope s condition step b m} :
    Enters limits (.statement scope (.loop (some s) condition step b), m) (.statement scope s, m)
  | started {scope s condition step b m v m'} : (Task.statement scope s).Gives limits m v m' →
    Enters limits (.statement scope (.loop (some s) condition step b), m)
      (.rounds scope condition step b 0, m')
  | loop {scope condition step b m} :
    Enters limits (.statement scope (.loop none condition step b), m)
      (.rounds scope condition step b 0, m)
  -- rounds of a loop
  | condition {scope c step b finished m} :
    Enters limits (.rounds scope (some c) step b finished, m) (.expr scope c, m)
  | round {scope condition step b finished m m₁} :
    Settles (fun n => goesOn limits n scope condition) m (.done true m₁) →
    (∀ most ∈ limits.maxIterations, finished < most) →
    Enters limits (.rounds scope condition step b finished, m)
      (.row m₁.store.nextScope b none, m₁.enclosed scope)
  | step {scope condition e b finished m m₁ v m₂} :
    Settles (fun n => goesOn limits n scope condition) m (.done true m₁) →
    (∀ most ∈ limits.maxIterations, finished < most) →
    (Task.row m₁.store.nextScope b none).Gives limits (m₁.enclosed scope) v m₂ →
    Enters limits (.rounds scope condition (some e) b finished, m) (.expr scope e, m₂)
  | otherRounds {scope condition step b finished m m₁ v m₂ v' m₃} :
    Settles (fun n => goesOn limits n scope condition) m (.done true m₁) →
    (∀ most ∈ limits.maxIterations, finished < most) →
    (Task.row m₁.store.nextScope b none).Gives limits (m₁.enclosed scope) v m₂ →
    Settles (fun n => advance limits n scope step) m₂ (.done v' m₃) →
    Enters limits (.rounds scope condition step b finished, m)
      (.rounds scope condition step b (finished + 1), m₃)
  -- statements in a row
  | first {scope s ss last m} : Enters limits (.row scope (s :: ss) last, m) (.statement scope s, m)
  | others {scope s ss last m v m'} : (Task.statement scope s).Gives limits m v m' →
    Enters limits (.row scope (s :: ss) last, m) (.row scope ss v, m')

/-- From a call to statements in a row: the body of a function. -/
def Task.calls : Task → Task → Bool
  | expr _ (.call _ _), row _ _ _ => true
  | _, _ => false

/-! ## More fuel

The fuel of a loop is fuel for its turns, and fuel for what it repeats.  Told apart, from one round
to the next a turn is spent, and nothing else. -/

namespace Task

/-- Evaluation with fuel for `k` turns if the task is a loop, and `n` for all else. -/
def evalTurns (limits : Limits) (n k : Nat) : (t : Task) → Eval t.Result
  | rounds scope condition step body finished =>
    repeatWhile limits.maxIterations (goesOn limits n scope condition) (block limits n scope body)
      (advance limits n scope step) k finished
  | t => t.eval limits n

/-- With as many turns as there is fuel, it is evaluation. -/
theorem evalTurns_self (limits : Limits) (n : Nat) (t : Task) :
    t.evalTurns limits n n = t.eval limits n := by
  cases t <;> rfl

/-- More fuel does not cut a task off. -/
theorem evalTurns_within (limits : Limits) {n n' k k' : Nat} (hn : n ≤ n') (hk : k ≤ k')
    (t : Task) : Within (fun _ => False) (t.evalTurns limits n k) (t.evalTurns limits n' k') := by
  have hexpr : ∀ scope e, Within (fun _ => False) (Expr.eval limits n scope e)
      (Expr.eval limits n' scope e) := (eval_within limits.le_refl (.inl rfl) hn).1
  have hstmt : ∀ scope s, Within (fun _ => False) (Statement.eval limits n scope s)
      (Statement.eval limits n' scope s) := (eval_within limits.le_refl (.inl rfl) hn).2
  have hvalue : ∀ scope e, Within (fun _ => False) (operand (Expr.eval limits n scope e))
      (operand (Expr.eval limits n' scope e)) := fun scope e => (hexpr scope e).operand
  have hblock : ∀ scope b, Within (fun _ => False) (block limits n scope b)
      (block limits n' scope b) :=
    fun scope b => .bind (.refl _) fun inner => .sequence (hstmt inner) b none
  cases t with
  | expr scope e => exact hexpr scope e
  | statement scope s => exact hstmt scope s
  | row scope b last => exact .sequence (hstmt scope) b last
  | choice scope cs alternative => exact .choose (hvalue scope) (hblock scope) cs alternative
  | rounds scope condition step b finished =>
    have htest : ∀ c, Within (fun _ => False)
        (do return (← operand (Expr.eval limits n scope c)).truthy)
        (do return (← operand (Expr.eval limits n' scope c)).truthy) :=
      fun c => .bind (hvalue scope c) fun _ => .refl _
    exact .repeatWhile limits.le_refl (.inl rfl) (.clause htest (return true) condition)
      (hblock scope b) (.clause (hexpr scope) (return none) step) hk finished
  | values scope es => exact .values (hvalue scope) es
  | entries scope ps done => exact .entries (hvalue scope) ps done

/-- **More fuel does not change what a task gives.** -/
theorem steady (limits : Limits) (t : Task) : Steady fun n => t.eval limits n := by
  intro n n' hn
  have h := evalTurns_within limits hn hn t
  rwa [evalTurns_self, evalTurns_self] at h

end Task

/-! ## No task is left out

A task is taken apart as evaluation does it: each part that takes fuel is a task that is entered,
the other parts end by themselves. -/

namespace Task

variable {limits : Limits} {scope : ScopeId} {m : Machine}

/-! ### Lists

Work on a list is work on its first member and then, on the machine that this leaves, on the others.
-/

/-- Statements in a row. -/
theorem row_halts {b : Block} {last : Option Value}
    (h : ∀ t m', Enters limits (.row scope b last, m) (t, m') → t.Halts limits m') :
    (row scope b last).Halts limits m := by
  cases b with
  | nil => exact .prompt (.pure _)
  | cons s ss => exact .bind (h _ _ .first) fun _ _ hr => h _ _ (.others hr)

/-- Elements and arguments. -/
theorem values_halts {es : List Expr}
    (h : ∀ t m', Enters limits (.values scope es, m) (t, m') → t.Halts limits m') :
    (values scope es).Halts limits m := by
  cases es with
  | nil => exact .prompt (.pure _)
  | cons e es =>
    show Eval.Halts
      (fun n => Eval.values (fun a => operand (Expr.eval limits n scope a)) (e :: es)) m
    simp only [Eval.values]
    exact .operand (h _ _ .value) fun _ _ hr =>
      .bind (h _ _ (.otherValues hr)) fun _ _ _ => .prompt (.pure _)

/-- The pairs of a hash literal. -/
theorem entries_halts {ps : List (Expr × Expr)} {done : List HashEntry}
    (h : ∀ t m', Enters limits (.entries scope ps done, m) (t, m') → t.Halts limits m') :
    (entries scope ps done).Halts limits m := by
  cases ps with
  | nil => exact .prompt (.pure _)
  | cons p ps =>
    show Eval.Halts
      (fun n => Eval.entries (fun a => operand (Expr.eval limits n scope a)) (p :: ps) done) m
    simp only [Eval.entries]
    exact .operand (h _ _ .entryKey) fun _ _ hr => .ofExcept_bind fun _ hkey =>
      .operand (h _ _ (.entryValue hr hkey)) fun _ _ hv => h _ _ (.otherEntries hr hkey hv)

/-- The choices of an `if`. -/
theorem choice_halts {cs : List Clause} {alternative : Option Block}
    (h : ∀ t m', Enters limits (.choice scope cs alternative, m) (t, m') → t.Halts limits m') :
    (choice scope cs alternative).Halts limits m := by
  cases cs with
  | nil =>
    cases alternative with
    | none => exact .prompt (.pure _)
    | some b => exact .enclose_bind (h (.row _ b none) _ .alternative)
  | cons c cs =>
    refine .operand (h _ _ .test) fun r m₁ hr => ?_
    by_cases htrue : (r.getD .null).truthy
    · simp only [if_pos htrue]
      exact .enclose_bind (h (.row _ c.2 none) _ (.taken hr htrue))
    · simp only [if_neg htrue]
      exact h _ _ (.otherClauses hr (Bool.not_eq_true _ ▸ htrue))

/-! ### Loops

One round enters the condition, the body and the step, and then the task of the rounds that are
left, which counts one more of them as finished. -/

/-- The rounds of a loop: the rounds that are left are a task of their own, so no induction is
needed here. -/
theorem rounds_halts {condition step : Option Expr} {b : Block} {finished : Nat}
    (h : ∀ t m', Enters limits (.rounds scope condition step b finished, m) (t, m') →
      t.Halts limits m') : (rounds scope condition step b finished).Halts limits m := by
  have htest : Eval.Halts (fun n => goesOn limits n scope condition) m := by
    cases condition with
    | none => exact .prompt (.pure _)
    | some c => exact .operand (h _ _ .condition) fun _ _ _ => .prompt (.pure _)
  refine .repeatWhile htest (fun m₁ hgoesOn hmost => ⟨?_, fun v m₂ hv => ⟨?_, ?_⟩⟩)
    fun n => evalTurns_within limits (Nat.le_succ n) (Nat.le_refl n)
      (.rounds scope condition step b (finished + 1))
  · exact .enclose_bind (h (.row _ b none) _ (.round hgoesOn hmost))
  · cases step with
    | none => exact .prompt (.pure _)
    | some e => exact h _ _ (.step hgoesOn hmost hv)
  · exact fun v' m₃ hv' => h _ _ (.otherRounds hgoesOn hmost hv hv')

/-! ### Statements

A statement is a block, a loop or the evaluation of an operand, with a step on the store at the end.
-/

/-- Statements: blocks, loops and operands are what they enter. -/
theorem statement_halts {s : Statement}
    (h : ∀ t m', Enters limits (.statement scope s, m) (t, m') → t.Halts limits m') :
    (statement scope s).Halts limits m := by
  refine Eval.Halts.succ.mp ?_
  cases s with
  | bind x e =>
    simp only [Task.eval, Statement.eval]
    exact .required (h _ _ .bound) fun _ _ _ =>
      .prompt (.bind (.define _ _ _) fun _ => .pure _)
  | ret e =>
    simp only [Task.eval, Statement.eval]
    exact .operand (h _ _ .returned) fun _ _ _ => .prompt (.ret _)
  | expr e =>
    simp only [Task.eval, Statement.eval]
    exact h _ _ .alone
  | block b =>
    simp only [Task.eval, Statement.eval]
    exact .enclose_bind (h (.row _ b none) _ .block)
  | loop init condition step b =>
    cases init with
    | none =>
      simp only [Task.eval, Statement.eval]
      exact .bind (h _ _ .loop) fun _ _ _ => .prompt (.pure _)
    | some s =>
      simp only [Task.eval, Statement.eval]
      exact .bind (h _ _ .start) fun _ _ hs => .bind (h _ _ (.started hs)) fun _ _ _ =>
        .prompt (.pure _)

/-! ### Expressions

Names, literals and operators on values end by themselves, and the body of a function is entered by
a call if it is not one too many. -/

/-- A call whose callee and arguments are known. -/
theorem call_halts {f : Expr} {args : List Expr}
    (h : ∀ t m', Enters limits (.expr scope (.call f args), m) (t, m') → t.Halts limits m')
    {r : Option Value} {m₁ m₂ : Machine} {vs : List Value}
    (hf : (expr scope f).Gives limits m r m₁) (hargs : (values scope args).Gives limits m₁ vs m₂) :
    Eval.Halts (fun n => call limits
      (fun inner b => sequence (fun s => Statement.eval limits n inner s) b none)
      (r.getD .null) vs) m₂ := by
  cases r with
  | none => exact .prompt (.fail _)
  | some callee =>
    cases callee with
    | function id params b captured =>
      refine .prompt_bind (x := depth) (fun _ => rfl) fun d m' hd => ?_
      cases hd
      -- With too many calls active, the body is not entered, and the call fails at once.
      by_cases hfull : limits.maxDepth ≤ m₂.depth
      · simp only [if_pos hfull]
        exact .prompt (.fail _)
      · simp only [if_neg hfull]
        refine .prompt_bind (.callScope params captured vs) fun inner m₃ hscope => ?_
        exact .catchReturn (.nested (h _ _ (.body hf hargs (Nat.lt_of_not_le hfull) hscope)))
    | builtin b =>
      have hcall : Prompt (do return some (← ofExcept (b.call (← fresh) vs))) :=
        .bind .fresh fun _ => .bind (.ofExcept _) fun _ => .pure _
      exact .prompt hcall
    | _ => exact .prompt (.fail _)

/-- Expressions, by their form. -/
theorem expr_halts {e : Expr}
    (h : ∀ t m', Enters limits (.expr scope e, m) (t, m') → t.Halts limits m') :
    (expr scope e).Halts limits m := by
  refine Eval.Halts.succ.mp ?_
  -- Each part is a task that is entered when the parts in front of it have given something, which
  -- is just when its halting is asked for.
  cases e with
  | integer | boolean | string =>
    simp only [Task.eval, Expr.eval]
    exact .prompt (.pure _)
  | ident x =>
    simp only [Task.eval, Expr.eval]
    exact .prompt (.bind (.lookup _ _) fun _ => .pure _)
  | unary op e =>
    simp only [Task.eval, Expr.eval]
    exact .operand (h _ _ .operand) fun _ _ _ => .prompt (.bind (.ofExcept _) fun _ => .pure _)
  | binary op l r =>
    by_cases hop : op = .assign
    · subst hop
      cases l with
      | ident x =>
        simp only [Task.eval, Expr.eval]
        exact .required (h _ _ .assigned) fun _ _ _ =>
          .prompt (.bind (.assign _ _ _) fun _ => .pure _)
      | _ =>
        simp only [Task.eval, Expr.eval]
        exact .prompt (.fail _)
    · simp only [Task.eval, Expr.eval]
      exact .operand (h _ _ (.left hop)) fun _ _ hl => .operand (h _ _ (.right hop hl)) fun _ _ _ =>
        .prompt (.bind (.ofExcept _) fun _ => .pure _)
  | conditional cs alternative =>
    simp only [Task.eval, Expr.eval]
    exact h _ _ .clauses
  | function params b =>
    simp only [Task.eval, Expr.eval]
    split
    · exact .prompt (.bind .fresh fun _ => .pure _)
    · exact .prompt (.fail _)
  | call f args =>
    simp only [Task.eval, Expr.eval]
    exact .operand (h _ _ .callee) fun _ _ hf => .bind (h _ _ (.arguments hf)) fun _ _ hargs =>
      call_halts h hf hargs
  | array es =>
    simp only [Task.eval, Expr.eval]
    exact .bind (h _ _ .elements) fun _ _ _ => .prompt (.bind .fresh fun _ => .pure _)
  | hash ps =>
    simp only [Task.eval, Expr.eval]
    exact .bind (h _ _ .pairs) fun _ _ _ => .prompt (.bind .fresh fun _ => .pure _)
  | index e k =>
    simp only [Task.eval, Expr.eval]
    exact .operand (h _ _ .container) fun _ _ he => .operand (h _ _ (.key he)) fun _ _ _ =>
      .prompt (.bind (.ofExcept _) fun _ => .pure _)

/-- **A task halts if all tasks halt that are entered from it.** -/
theorem halts_of_enters {t : Task}
    (h : ∀ t' m', Enters limits (t, m) (t', m') → t'.Halts limits m') : t.Halts limits m := by
  cases t with
  | expr => exact expr_halts h
  | statement => exact statement_halts h
  | row => exact row_halts h
  | choice => exact choice_halts h
  | rounds => exact rounds_halts h
  | values => exact values_halts h
  | entries => exact entries_halts h

end Task

/-- **No task that is worked on is left out** by `Enters`: a task halts if all tasks halt that are
entered from it. -/
def EntersAll (limits : Limits) : Prop :=
  ∀ (t : Task) (m : Machine),
    (∀ t' m', Enters limits (t, m) (t', m') → t'.Halts limits m') → t.Halts limits m

/-- **No task is left out.** -/
theorem entersAll (limits : Limits) : EntersAll limits := fun _ _ => Task.halts_of_enters

end Scriptlet
