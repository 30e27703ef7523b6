import Scriptlet.Proofs.Eval.Giving
import Mathlib.Logic.Relation

/-!
# Proofs/Eval/Succession — which of two tasks comes first

Of two tasks that are entered from the same one, either both are the same, or one of them is entered
later, when the other one has given something (`Enters.comparable`).  So of two tasks in an
evaluation one is entered in the course of the other, or one **precedes** the other: at the task
where the ways to them part, it is on the way that was taken first (`entered_comparable`).  -/

namespace Scriptlet

open Eval

/-- Work on the first task enters the second one and, **later**, when that has given something, the
third one. -/
inductive Later (limits : Limits) : Task × Machine → Task × Machine → Task × Machine → Prop
  -- expressions
  | right {scope op l r m v m'} : op ≠ InfixOp.assign →
    (Task.expr scope l).Gives limits m v m' →
    Later limits (.expr scope (.binary op l r), m) (.expr scope l, m) (.expr scope r, m')
  | arguments {scope f args m v m'} : (Task.expr scope f).Gives limits m v m' →
    Later limits (.expr scope (.call f args), m) (.expr scope f, m) (.values scope args, m')
  | calleeBody {scope f args m id params b captured m₁ vs m₂ inner m₃} :
    (Task.expr scope f).Gives limits m (some (.function id params b captured)) m₁ →
    (Task.values scope args).Gives limits m₁ vs m₂ →
    m₂.depth < limits.maxDepth →
    callScope params captured vs m₂ = .done inner m₃ →
    Later limits (.expr scope (.call f args), m) (.expr scope f, m)
      (.row inner b none, { m₃ with depth := m₃.depth + 1 })
  | argumentsBody {scope f args m id params b captured m₁ vs m₂ inner m₃} :
    (Task.expr scope f).Gives limits m (some (.function id params b captured)) m₁ →
    (Task.values scope args).Gives limits m₁ vs m₂ →
    m₂.depth < limits.maxDepth →
    callScope params captured vs m₂ = .done inner m₃ →
    Later limits (.expr scope (.call f args), m) (.values scope args, m₁)
      (.row inner b none, { m₃ with depth := m₃.depth + 1 })
  | key {scope e k m v m'} : (Task.expr scope e).Gives limits m v m' →
    Later limits (.expr scope (.index e k), m) (.expr scope e, m) (.expr scope k, m')
  -- lists of expressions
  | otherValues {scope e es m v m'} : (Task.expr scope e).Gives limits m v m' →
    Later limits (.values scope (e :: es), m) (.expr scope e, m) (.values scope es, m')
  | entryValue {scope p ps done m k key m'} : (Task.expr scope p.1).Gives limits m k m' →
    (k.getD .null).toHashKey = .ok key →
    Later limits (.entries scope (p :: ps) done, m) (.expr scope p.1, m) (.expr scope p.2, m')
  | keyEntries {scope p ps done m k key m₁ v m₂} : (Task.expr scope p.1).Gives limits m k m₁ →
    (k.getD .null).toHashKey = .ok key → (Task.expr scope p.2).Gives limits m₁ v m₂ →
    Later limits (.entries scope (p :: ps) done, m) (.expr scope p.1, m)
      (.entries scope ps (insertPair key ⟨k.getD .null, v.getD .null⟩ done), m₂)
  | valueEntries {scope p ps done m k key m₁ v m₂} : (Task.expr scope p.1).Gives limits m k m₁ →
    (k.getD .null).toHashKey = .ok key → (Task.expr scope p.2).Gives limits m₁ v m₂ →
    Later limits (.entries scope (p :: ps) done, m) (.expr scope p.2, m₁)
      (.entries scope ps (insertPair key ⟨k.getD .null, v.getD .null⟩ done), m₂)
  -- choices
  | taken {scope c cs alternative m v m'} : (Task.expr scope c.1).Gives limits m v m' →
    (v.getD .null).truthy →
    Later limits (.choice scope (c :: cs) alternative, m) (.expr scope c.1, m)
      (.row m'.store.nextScope c.2 none, m'.enclosed scope)
  | otherClauses {scope c cs alternative m v m'} : (Task.expr scope c.1).Gives limits m v m' →
    (v.getD .null).truthy = false →
    Later limits (.choice scope (c :: cs) alternative, m) (.expr scope c.1, m)
      (.choice scope cs alternative, m')
  -- statements
  | started {scope s condition step b m v m'} : (Task.statement scope s).Gives limits m v m' →
    Later limits (.statement scope (.loop (some s) condition step b), m) (.statement scope s, m)
      (.rounds scope condition step b 0, m')
  -- rounds of a loop
  | conditionRound {scope c step b finished m m₁} :
    Settles (fun n => goesOn limits n scope (some c)) m (.done true m₁) →
    (∀ most ∈ limits.maxIterations, finished < most) →
    Later limits (.rounds scope (some c) step b finished, m) (.expr scope c, m)
      (.row m₁.store.nextScope b none, m₁.enclosed scope)
  | conditionStep {scope c e b finished m m₁ v m₂} :
    Settles (fun n => goesOn limits n scope (some c)) m (.done true m₁) →
    (∀ most ∈ limits.maxIterations, finished < most) →
    (Task.row m₁.store.nextScope b none).Gives limits (m₁.enclosed scope) v m₂ →
    Later limits (.rounds scope (some c) (some e) b finished, m) (.expr scope c, m)
      (.expr scope e, m₂)
  | roundStep {scope condition e b finished m m₁ v m₂} :
    Settles (fun n => goesOn limits n scope condition) m (.done true m₁) →
    (∀ most ∈ limits.maxIterations, finished < most) →
    (Task.row m₁.store.nextScope b none).Gives limits (m₁.enclosed scope) v m₂ →
    Later limits (.rounds scope condition (some e) b finished, m)
      (.row m₁.store.nextScope b none, m₁.enclosed scope) (.expr scope e, m₂)
  | conditionRounds {scope c step b finished m m₁ v m₂ v' m₃} :
    Settles (fun n => goesOn limits n scope (some c)) m (.done true m₁) →
    (∀ most ∈ limits.maxIterations, finished < most) →
    (Task.row m₁.store.nextScope b none).Gives limits (m₁.enclosed scope) v m₂ →
    Settles (fun n => advance limits n scope step) m₂ (.done v' m₃) →
    Later limits (.rounds scope (some c) step b finished, m) (.expr scope c, m)
      (.rounds scope (some c) step b (finished + 1), m₃)
  | roundRounds {scope condition step b finished m m₁ v m₂ v' m₃} :
    Settles (fun n => goesOn limits n scope condition) m (.done true m₁) →
    (∀ most ∈ limits.maxIterations, finished < most) →
    (Task.row m₁.store.nextScope b none).Gives limits (m₁.enclosed scope) v m₂ →
    Settles (fun n => advance limits n scope step) m₂ (.done v' m₃) →
    Later limits (.rounds scope condition step b finished, m)
      (.row m₁.store.nextScope b none, m₁.enclosed scope)
      (.rounds scope condition step b (finished + 1), m₃)
  | stepRounds {scope condition e b finished m m₁ v m₂ v' m₃} :
    Settles (fun n => goesOn limits n scope condition) m (.done true m₁) →
    (∀ most ∈ limits.maxIterations, finished < most) →
    (Task.row m₁.store.nextScope b none).Gives limits (m₁.enclosed scope) v m₂ →
    Settles (fun n => advance limits n scope (some e)) m₂ (.done v' m₃) →
    Later limits (.rounds scope condition (some e) b finished, m) (.expr scope e, m₂)
      (.rounds scope condition (some e) b (finished + 1), m₃)
  -- statements in a row
  | others {scope s ss last m v m'} : (Task.statement scope s).Gives limits m v m' →
    Later limits (.row scope (s :: ss) last, m) (.statement scope s, m) (.row scope ss v, m')

variable {limits : Limits} {p q q' : Task × Machine}

/-- Both are entered from the first one. -/
theorem Later.enters (h : Later limits p q q') : Enters limits p q ∧ Enters limits p q' := by
  cases h with
  | right hop hl => exact ⟨.left hop, .right hop hl⟩
  | arguments hf => exact ⟨.callee, .arguments hf⟩
  | calleeBody hf hargs hlt hscope => exact ⟨.callee, .body hf hargs hlt hscope⟩
  | argumentsBody hf hargs hlt hscope => exact ⟨.arguments hf, .body hf hargs hlt hscope⟩
  | key he => exact ⟨.container, .key he⟩
  | otherValues he => exact ⟨.value, .otherValues he⟩
  | entryValue hk hkey => exact ⟨.entryKey, .entryValue hk hkey⟩
  | keyEntries hk hkey hv => exact ⟨.entryKey, .otherEntries hk hkey hv⟩
  | valueEntries hk hkey hv => exact ⟨.entryValue hk hkey, .otherEntries hk hkey hv⟩
  | taken hc htrue => exact ⟨.test, .taken hc htrue⟩
  | otherClauses hc hfalse => exact ⟨.test, .otherClauses hc hfalse⟩
  | started hs => exact ⟨.start, .started hs⟩
  | conditionRound hgoesOn hmost => exact ⟨.condition, .round hgoesOn hmost⟩
  | conditionStep hgoesOn hmost hb => exact ⟨.condition, .step hgoesOn hmost hb⟩
  | roundStep hgoesOn hmost hb => exact ⟨.round hgoesOn hmost, .step hgoesOn hmost hb⟩
  | conditionRounds hgoesOn hmost hb hstep =>
    exact ⟨.condition, .otherRounds hgoesOn hmost hb hstep⟩
  | roundRounds hgoesOn hmost hb hstep =>
    exact ⟨.round hgoesOn hmost, .otherRounds hgoesOn hmost hb hstep⟩
  | stepRounds hgoesOn hmost hb hstep =>
    exact ⟨.step hgoesOn hmost hb, .otherRounds hgoesOn hmost hb hstep⟩
  | others hs => exact ⟨.first, .others hs⟩

/-- **What is entered later waits** for what is entered before. -/
theorem Later.gives (h : Later limits p q q') : ∃ r m, q.1.Gives limits q.2 r m := by
  cases h with
  | right _ hv | arguments hv | calleeBody hv | key hv | otherValues hv | entryValue hv
  | keyEntries hv | valueEntries _ _ hv | taken hv | otherClauses hv | started hv | others hv
  | argumentsBody _ hv | roundStep _ _ hv | roundRounds _ _ hv | stepRounds _ _ _ hv =>
    exact ⟨_, _, hv⟩
  | conditionRound hgoesOn | conditionStep hgoesOn | conditionRounds hgoesOn =>
    obtain ⟨r, hr, -⟩ := settles_goesOn_some.mp hgoesOn
    exact ⟨r, _, hr⟩

/-! ## Of two tasks entered from one

The cases are those of what both are entered from.  What was evaluated before them gave one thing
only, so what is entered in the same way is the same. -/

/-- From an expression: its operands from left to right, and then the body of what it calls. -/
theorem expr_comparable {scope : ScopeId} {e : Expr} {m : Machine}
    (h : Enters limits (.expr scope e, m) q) (h' : Enters limits (.expr scope e, m) q') :
    q = q' ∨ Later limits (.expr scope e, m) q q' ∨ Later limits (.expr scope e, m) q' q := by
  -- Two operands that are both entered later are entered on machines that are alike, as the first
  -- one gave one thing only.
  cases h with
  | operand | clauses | elements | pairs =>
    cases h'
    exact .inl rfl
  | assigned =>
    cases h' with
    | assigned => exact .inl rfl
    | left hop | right hop => exact absurd rfl hop
  | left hop =>
    cases h' with
    | assigned => exact absurd rfl hop
    | left => exact .inl rfl
    | right _ hl => exact .inr (.inl (.right hop hl))
  | right hop hl =>
    cases h' with
    | assigned => exact absurd rfl hop
    | left => exact .inr (.inr (.right hop hl))
    | right _ hl' =>
      cases hl.unique hl'
      exact .inl rfl
  | callee =>
    cases h' with
    | callee => exact .inl rfl
    | arguments hf => exact .inr (.inl (.arguments hf))
    | body hf hargs hlt hscope => exact .inr (.inl (.calleeBody hf hargs hlt hscope))
  | arguments hf =>
    cases h' with
    | callee => exact .inr (.inr (.arguments hf))
    | arguments hf' =>
      cases hf.unique hf'
      exact .inl rfl
    | body hf' hargs hlt hscope =>
      cases hf.unique hf'
      exact .inr (.inl (.argumentsBody hf hargs hlt hscope))
  | body hf hargs hlt hscope =>
    cases h' with
    | callee => exact .inr (.inr (.calleeBody hf hargs hlt hscope))
    | arguments hf' =>
      cases hf.unique hf'
      exact .inr (.inr (.argumentsBody hf hargs hlt hscope))
    | body hf' hargs' _ hscope' =>
      cases hf.unique hf'
      cases hargs.unique hargs'
      cases hscope.symm.trans hscope'
      exact .inl rfl
  | container =>
    cases h' with
    | container => exact .inl rfl
    | key he => exact .inr (.inl (.key he))
  | key he =>
    cases h' with
    | container => exact .inr (.inr (.key he))
    | key he' =>
      cases he.unique he'
      exact .inl rfl

/-- From a statement: a loop has its first clause before its rounds. -/
theorem statement_comparable {scope : ScopeId} {s : Statement} {m : Machine}
    (h : Enters limits (.statement scope s, m) q) (h' : Enters limits (.statement scope s, m) q') :
    q = q' ∨ Later limits (.statement scope s, m) q q' ∨
      Later limits (.statement scope s, m) q' q := by
  cases h with
  | bound | returned | alone | block | loop =>
    cases h'
    exact .inl rfl
  | start =>
    cases h' with
    | start => exact .inl rfl
    | started hs => exact .inr (.inl (.started hs))
  | started hs =>
    cases h' with
    | start => exact .inr (.inr (.started hs))
    | started hs' =>
      cases hs.unique hs'
      exact .inl rfl

/-- From statements in a row: the first one, and then the others. -/
theorem row_comparable {scope : ScopeId} {b : Block} {last : Option Value} {m : Machine}
    (h : Enters limits (.row scope b last, m) q) (h' : Enters limits (.row scope b last, m) q') :
    q = q' ∨ Later limits (.row scope b last, m) q q' ∨
      Later limits (.row scope b last, m) q' q := by
  cases h with
  | first =>
    cases h' with
    | first => exact .inl rfl
    | others hs => exact .inr (.inl (.others hs))
  | others hs =>
    cases h' with
    | first => exact .inr (.inr (.others hs))
    | others hs' =>
      cases hs.unique hs'
      exact .inl rfl

/-- From elements: the first one, and then the others. -/
theorem values_comparable {scope : ScopeId} {es : List Expr} {m : Machine}
    (h : Enters limits (.values scope es, m) q) (h' : Enters limits (.values scope es, m) q') :
    q = q' ∨ Later limits (.values scope es, m) q q' ∨ Later limits (.values scope es, m) q' q := by
  cases h with
  | value =>
    cases h' with
    | value => exact .inl rfl
    | otherValues he => exact .inr (.inl (.otherValues he))
  | otherValues he =>
    cases h' with
    | value => exact .inr (.inr (.otherValues he))
    | otherValues he' =>
      cases he.unique he'
      exact .inl rfl

/-- From pairs: the key, the value, and then the other pairs. -/
theorem entries_comparable {scope : ScopeId} {ps : List (Expr × Expr)}
    {done : List HashEntry} {m : Machine} (h : Enters limits (.entries scope ps done, m) q)
    (h' : Enters limits (.entries scope ps done, m) q') :
    q = q' ∨ Later limits (.entries scope ps done, m) q q' ∨
      Later limits (.entries scope ps done, m) q' q := by
  cases h with
  | entryKey =>
    cases h' with
    | entryKey => exact .inl rfl
    | entryValue hk hkey => exact .inr (.inl (.entryValue hk hkey))
    | otherEntries hk hkey hv => exact .inr (.inl (.keyEntries hk hkey hv))
  | entryValue hk hkey =>
    cases h' with
    | entryKey => exact .inr (.inr (.entryValue hk hkey))
    | entryValue hk' =>
      cases hk.unique hk'
      exact .inl rfl
    | otherEntries hk' hkey' hv =>
      cases hk.unique hk'
      exact .inr (.inl (.valueEntries hk hkey' hv))
  | otherEntries hk hkey hv =>
    cases h' with
    | entryKey => exact .inr (.inr (.keyEntries hk hkey hv))
    | entryValue hk' =>
      cases hk.unique hk'
      exact .inr (.inr (.valueEntries hk hkey hv))
    | otherEntries hk' hkey' hv' =>
      cases hk.unique hk'
      cases hkey.symm.trans hkey'
      cases hv.unique hv'
      exact .inl rfl

/-- From a choice: its condition, and then its block or the other choices. -/
theorem choice_comparable {scope : ScopeId} {cs : List Clause} {alternative : Option Block}
    {m : Machine} (h : Enters limits (.choice scope cs alternative, m) q)
    (h' : Enters limits (.choice scope cs alternative, m) q') :
    q = q' ∨ Later limits (.choice scope cs alternative, m) q q' ∨
      Later limits (.choice scope cs alternative, m) q' q := by
  -- A condition gave one value only, so the two cannot have gone different ways at it.
  cases h with
  | test =>
    cases h' with
    | test => exact .inl rfl
    | taken hc htrue => exact .inr (.inl (.taken hc htrue))
    | otherClauses hc hfalse => exact .inr (.inl (.otherClauses hc hfalse))
  | taken hc htrue =>
    cases h' with
    | test => exact .inr (.inr (.taken hc htrue))
    | taken hc' =>
      cases hc.unique hc'
      exact .inl rfl
    | otherClauses hc' hfalse =>
      cases hc.unique hc'
      cases htrue.symm.trans hfalse
  | otherClauses hc hfalse =>
    cases h' with
    | test => exact .inr (.inr (.otherClauses hc hfalse))
    | taken hc' htrue =>
      cases hc.unique hc'
      cases htrue.symm.trans hfalse
    | otherClauses hc' =>
      cases hc.unique hc'
      exact .inl rfl
  | alternative =>
    cases h'
    exact .inl rfl

/-- From the rounds of a loop: the condition, the body, the step, and then the rounds that are left.
-/
theorem rounds_comparable {scope : ScopeId} {condition step : Option Expr} {b : Block}
    {finished : Nat} {m : Machine}
    (h : Enters limits (.rounds scope condition step b finished, m) q)
    (h' : Enters limits (.rounds scope condition step b finished, m) q') :
    q = q' ∨ Later limits (.rounds scope condition step b finished, m) q q' ∨
      Later limits (.rounds scope condition step b finished, m) q' q := by
  -- Each pair of ways is in the order condition, body, step, other rounds.  For two equal ways,
  -- what came before them gave the same on both, so both lead to one task on one machine.
  cases h with
  | condition =>
    cases h' with
    | condition => exact .inl rfl
    | round hgoesOn hmost => exact .inr (.inl (.conditionRound hgoesOn hmost))
    | step hgoesOn hmost hb => exact .inr (.inl (.conditionStep hgoesOn hmost hb))
    | otherRounds hgoesOn hmost hb hstep =>
      exact .inr (.inl (.conditionRounds hgoesOn hmost hb hstep))
  | round hgoesOn hmost =>
    cases h' with
    | condition => exact .inr (.inr (.conditionRound hgoesOn hmost))
    | round hgoesOn' =>
      cases hgoesOn.unique hgoesOn'
      exact .inl rfl
    | step hgoesOn' _ hb =>
      cases hgoesOn.unique hgoesOn'
      exact .inr (.inl (.roundStep hgoesOn hmost hb))
    | otherRounds hgoesOn' _ hb hstep =>
      cases hgoesOn.unique hgoesOn'
      exact .inr (.inl (.roundRounds hgoesOn hmost hb hstep))
  | step hgoesOn hmost hb =>
    cases h' with
    | condition => exact .inr (.inr (.conditionStep hgoesOn hmost hb))
    | round hgoesOn' =>
      cases hgoesOn.unique hgoesOn'
      exact .inr (.inr (.roundStep hgoesOn hmost hb))
    | step hgoesOn' _ hb' =>
      cases hgoesOn.unique hgoesOn'
      cases hb.unique hb'
      exact .inl rfl
    | otherRounds hgoesOn' _ hb' hstep =>
      cases hgoesOn.unique hgoesOn'
      cases hb.unique hb'
      exact .inr (.inl (.stepRounds hgoesOn hmost hb hstep))
  | otherRounds hgoesOn hmost hb hstep =>
    cases h' with
    | condition => exact .inr (.inr (.conditionRounds hgoesOn hmost hb hstep))
    | round hgoesOn' =>
      cases hgoesOn.unique hgoesOn'
      exact .inr (.inr (.roundRounds hgoesOn hmost hb hstep))
    | step hgoesOn' _ hb' =>
      cases hgoesOn.unique hgoesOn'
      cases hb.unique hb'
      exact .inr (.inr (.stepRounds hgoesOn hmost hb hstep))
    | otherRounds hgoesOn' _ hb' hstep' =>
      cases hgoesOn.unique hgoesOn'
      cases hb.unique hb'
      cases hstep.unique hstep'
      exact .inl rfl

/-- **Of two tasks that are entered from one, one is entered later**, or both are the same. -/
theorem Enters.comparable (h : Enters limits p q) (h' : Enters limits p q') :
    q = q' ∨ Later limits p q q' ∨ Later limits p q' q := by
  obtain ⟨t, m⟩ := p
  cases t with
  | expr => exact expr_comparable h h'
  | statement => exact statement_comparable h h'
  | row => exact row_comparable h h'
  | choice => exact choice_comparable h h'
  | rounds => exact rounds_comparable h h'
  | values => exact values_comparable h h'
  | entries => exact entries_comparable h h'

/-! ## Of all tasks in an evaluation

The ways from the root to two tasks go along together for a while.  Either one of them ends there,
or they part, and then one task of the two that they go on with is entered later than the other. -/

/-- In the course of work on `root`, work on `a` is over when `b` is entered: where the ways to them
part, the way to `a` was taken first. -/
def Precedes (limits : Limits) (root a b : Task × Machine) : Prop :=
  ∃ p a' b', Relation.ReflTransGen (Enters limits) root p ∧ Later limits p a' b' ∧
    Relation.ReflTransGen (Enters limits) a' a ∧ Relation.ReflTransGen (Enters limits) b' b

/-- What precedes in a part precedes in the whole. -/
theorem Precedes.head {root root' a b : Task × Machine} (h : Enters limits root root')
    (hab : Precedes limits root' a b) : Precedes limits root a b := by
  obtain ⟨p, a', b', hp, hlater, ha, hb⟩ := hab
  exact ⟨p, a', b', .head h hp, hlater, ha, hb⟩

/-- **Of two tasks in an evaluation**, one is entered in the course of the other one, or one
precedes the other. -/
theorem entered_comparable {root a b : Task × Machine}
    (ha : Relation.ReflTransGen (Enters limits) root a)
    (hb : Relation.ReflTransGen (Enters limits) root b) :
    Relation.ReflTransGen (Enters limits) a b ∨ Relation.ReflTransGen (Enters limits) b a ∨
      Precedes limits root a b ∨ Precedes limits root b a := by
  induction ha using Relation.ReflTransGen.head_induction_on with
  | refl => exact .inl hb
  | head hstep ha ih =>
    rcases hb.cases_head with rfl | ⟨root', hstep', hb⟩
    · exact .inr (.inl (.head hstep ha))
    rcases hstep.comparable hstep' with rfl | hlater | hlater
    · rcases ih hb with h | h | h | h
      · exact .inl h
      · exact .inr (.inl h)
      · exact .inr (.inr (.inl (h.head hstep)))
      · exact .inr (.inr (.inr (h.head hstep)))
    · exact .inr (.inr (.inl ⟨_, _, _, .refl, hlater, ha, hb⟩))
    · exact .inr (.inr (.inr ⟨_, _, _, .refl, hlater, hb, ha⟩))

end Scriptlet
