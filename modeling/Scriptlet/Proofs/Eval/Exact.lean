import Scriptlet.Proofs.Eval.Origin
import Scriptlet.Proofs.Eval.Rounds

/-!
# Proofs/Eval/Exact — limits strike at their number, neither sooner nor later

Calls are counted along the way from the program to a task (`During`), and rounds from the beginning
of an execution of a loop (`RoundsOver`), both without a look at the counters that evaluation keeps.
What evaluation keeps agrees with these counts: as many calls are active on the machine as there are
on the way, and a loop in its round `k` has been through `k` rounds since it began.  So each limit
strikes exactly at its number (`limits_exact`).
-/

namespace Scriptlet

open Eval

/-! ## Calls

On the way from a task down to one that is entered in its course, each application of a function is
a call.  `Active` counts these, without the counter of the machine, and `Active.depth_eq` says that
the counter agrees. -/

/-- Work on `root` enters the task, with so many calls on the way there. -/
inductive Active (limits : Limits) (root : Task × Machine) : Nat → Task × Machine → Prop
  | start : Active limits root 0 root
  | inside {k p q} : Active limits root k p → Inside limits p q → Active limits root k q
  | call {k p q} : Active limits root k p → Enters limits p q → p.1.calls q.1 →
    Active limits root (k + 1) q

/-- Work on the call, on its machine, **applies** the callee to the arguments, on the machine that
these have left. -/
inductive Applies (limits : Limits) : Task × Machine → Value → List Value → Machine → Prop
  | intro {scope f args m r m₁ callee vs m₂} : (Task.expr scope f).Gives limits m r m₁ →
    r.getD .null = callee → (Task.values scope args).Gives limits m₁ vs m₂ →
    Applies limits (.expr scope (.call f args), m) callee vs m₂

section

variable {limits : Limits} {root p q : Task × Machine} {k : Nat} {m m' : Machine}

/-- What is active is entered, if the calls are not counted. -/
theorem Active.entered (h : Active limits root k q) :
    Relation.ReflTransGen (Enters limits) root q := by
  induction h with
  | start => exact .refl
  | inside _ hstep ih => exact ih.tail hstep.1
  | call _ hstep _ ih => exact ih.tail hstep

/-- All that is entered is entered with some number of calls on the way. -/
theorem Active.of_entered (h : Active limits root k p)
    (hpq : Relation.ReflTransGen (Enters limits) p q) : ∃ l, Active limits root l q := by
  induction hpq with
  | refl => exact ⟨k, h⟩
  | @tail q q' _ hstep ih =>
    obtain ⟨l, hq⟩ := ih
    cases hcalls : q.1.calls q'.1 with
    | true => exact ⟨l + 1, .call hq hstep hcalls⟩
    | false => exact ⟨l, .inside hq ⟨hstep, hcalls⟩⟩

/-- Going on within a call adds no call. -/
theorem Active.of_inside (h : Active limits root k p)
    (hpq : Relation.ReflTransGen (Inside limits) p q) : Active limits root k q := by
  induction hpq with
  | refl => exact h
  | tail _ hstep ih => exact .inside ih hstep

/-- **The machine counts the calls** that are on the way. -/
theorem Active.depth_eq (h : Active limits root k q) : q.2.depth = root.2.depth + k := by
  induction h with
  | start => rfl
  | inside _ hstep ih =>
    rcases hstep.1.depth_cases with ⟨hcalls, -⟩ | ⟨-, hsame, -⟩
    · rw [hstep.2] at hcalls
      cases hcalls
    · exact hsame.trans ih
  | call _ hstep hcalls ih =>
    rcases hstep.depth_cases with ⟨-, hsucc, -⟩ | ⟨hpart, -⟩
    · rw [hsucc, ih, Nat.add_assoc]
    · rw [hpart] at hcalls
      cases hcalls

/-- When the callee and the arguments are known, as many calls are active as before. -/
theorem Applies.depth_eq {callee : Value} {vs : List Value} (h : Applies limits q callee vs m) :
    m.depth = q.2.depth := by
  cases h with
  | intro hf _ hargs => exact hargs.depth_eq.trans hf.depth_eq

/-- **A call overflows** exactly if it applies a function when as many calls are active as may be.
-/
theorem raises_overflow_iff {n : Nat} : Raises limits q (.failed (.stackOverflow n)) m ↔
    n = limits.maxDepth ∧ limits.maxDepth ≤ m.depth ∧
      ∃ id params b captured vs, Applies limits q (.function id params b captured) vs m := by
  constructor
  · intro h
    cases h with
    | overflow hf hargs hfull => exact ⟨rfl, hfull, _, _, _, _, _, .intro hf rfl hargs⟩
  · rintro ⟨rfl, hfull, id, params, b, captured, vs, happlies⟩
    cases happlies with
    | @intro _ _ _ _ r _ _ _ _ hf hcallee hargs =>
      cases r with
      | none => cases hcallee
      | some v =>
        obtain rfl : v = .function id params b captured := hcallee
        exact .overflow hf hargs hfull

/-- A function that is applied with calls left is entered when its parameters are bound. -/
theorem Applies.enters {id : Identity} {params : List Param} {b : Block} {captured inner : ScopeId}
    {vs : List Value} (h : Applies limits q (.function id params b captured) vs m)
    (hlt : m.depth < limits.maxDepth) (hscope : callScope params captured vs m = .done inner m') :
    Enters limits q (.row inner b none, { m' with depth := m'.depth + 1 }) ∧
      q.1.calls (.row inner b none) := by
  cases h with
  | @intro _ _ _ _ r _ _ _ _ hf hcallee hargs =>
    cases r with
    | none => cases hcallee
    | some v =>
      obtain rfl : v = .function id params b captured := hcallee
      exact ⟨.body hf hargs hlt hscope, rfl⟩

/-- A built-in counts for nothing: its application ends with no return and no error of a limit. -/
theorem Applies.builtin {b : Builtin} {vs : List Value} {why : Unwind}
    (h : Applies limits q (.builtin b) vs m) (hq : q.1.Unwinds limits q.2 why m') :
    why.isControl = false := by
  cases h with
  | intro hf hcallee hargs =>
    have hcalm : Calm (do return some (← ofExcept (b.call (← fresh) vs))) :=
      .bind .fresh fun _ => .operation fun _ => Builtin.call_error
    have hprompt : Prompt (do return some (← ofExcept (b.call (← fresh) vs))) :=
      .bind .fresh fun _ => .bind (.ofExcept _) fun _ => .pure _
    refine hcalm m why m' (Settles.unique (settles_succ.mp ?_) hq)
    simp only [Task.eval, Expr.eval]
    refine hf.operand.bind (hargs.bind (.of_forall (fun n => ?_) (hprompt m)))
    rw [hcallee]
    rfl

end

/-! ## Rounds

A loop is entered anew for each round that is left, with the number of rounds that are over.  That
number is counted from the first clause of the execution it belongs to, so nested loops, and the
same loop executed twice, do not share it. -/

/-- The condition of a loop holds on `m`, and leaves `m'`: it is truthy, or there is none. -/
def Holds (limits : Limits) (i : ScopeId) (condition : Option Expr) (m m' : Machine) : Prop :=
  condition = none ∧ m' = m ∨ ∃ c ∈ condition, ∃ r, (Task.expr i c).Gives limits m r m' ∧
    (r.getD .null).truthy

/-- The condition of a loop is falsy on `m`, and leaves `m'`. -/
def Fails (limits : Limits) (i : ScopeId) (condition : Option Expr) (m m' : Machine) : Prop :=
  ∃ c ∈ condition, ∃ r, (Task.expr i c).Gives limits m r m' ∧ (r.getD .null).truthy = false

section

variable {limits : Limits} {root : Task × Machine} {i : ScopeId} {condition step : Option Expr}
  {b : Block} {j k n : Nat} {m m' : Machine}

/-- That the condition holds is what evaluation asks before a round. -/
theorem holds_iff : Holds limits i condition m m' ↔
    Settles (fun n => goesOn limits n i condition) m (.done true m') := by
  cases condition with
  | none =>
    constructor
    · rintro (⟨-, rfl⟩ | ⟨_, ⟨⟩, -⟩)
      exact .const rfl rfl
    · intro h
      cases h.of_const
      exact .inl ⟨rfl, rfl⟩
  | some c => simp [Holds, settles_goesOn_some]

/-- That it fails is the other answer to the same question. -/
theorem fails_iff : Fails limits i condition m m' ↔
    Settles (fun n => goesOn limits n i condition) m (.done false m') := by
  cases condition with
  | none =>
    constructor
    · rintro ⟨_, ⟨⟩, -⟩
    · intro h
      cases h.of_const
  | some c => simp [Fails, settles_goesOn_some]

/-- In the course of work on `root`, with `k` calls on the way, a loop is executed: its first clause
is over on the machine `start`. -/
def Executes (limits : Limits) (root : Task × Machine) (k : Nat) (i : ScopeId)
    (condition step : Option Expr) (b : Block) (start : Machine) : Prop :=
  ∃ init m, Active limits root k (.statement i (.loop init condition step b), m) ∧
    Inside limits (.statement i (.loop init condition step b), m)
      (.rounds i condition step b 0, start)

/-- The execution of a loop begins with no round over, and with the calls that are active where it
stands. -/
theorem Executes.active {start : Machine} (h : Executes limits root k i condition step b start) :
    Active limits root k (.rounds i condition step b 0, start) := by
  obtain ⟨init, m, hloop, hstart⟩ := h
  exact .inside hloop hstart

/-- **Rounds are counted from the beginning of their execution**, whatever was executed before. -/
theorem Active.executes (hroot : ∀ i condition step b j, root.1 ≠ .rounds i condition step b j)
    (h : Active limits root k (.rounds i condition step b j, m)) :
    ∃ start, Executes limits root k i condition step b start ∧
      RoundsOver limits i condition step b start j m ∧
      ∀ most ∈ limits.maxIterations, j ≤ most := by
  generalize hq : ((Task.rounds i condition step b j, m) : Task × Machine) = q at h
  induction h generalizing j m with
  | start => exact absurd (hq ▸ rfl) (hroot i condition step b j)
  | inside hp hstep ih =>
    subst hq
    obtain ⟨henters, hcalls⟩ := hstep
    cases henters with
    | started hs => exact ⟨m, ⟨_, _, hp, .started hs, rfl⟩, .zero, fun _ _ => Nat.zero_le _⟩
    | loop => exact ⟨m, ⟨_, _, hp, .loop, rfl⟩, .zero, fun _ _ => Nat.zero_le _⟩
    | otherRounds hgoesOn hmost hb hstep =>
      obtain ⟨start, hexecutes, hover, -⟩ := ih rfl
      exact ⟨start, hexecutes, .succ hover hgoesOn hb hstep, hmost⟩
  | call _ hstep hcalls =>
    subst hq
    cases hstep <;> cases hcalls

/-- **A loop is stopped** exactly if its condition holds when as many rounds are over as may be. -/
theorem raises_iterationLimit_iff :
    Raises limits (.rounds i condition step b j, m) (.failed (.iterationLimit n)) m' ↔
      limits.maxIterations = some n ∧ n ≤ j ∧ Holds limits i condition m m' := by
  rw [holds_iff]
  constructor
  · intro h
    cases h with
    | rounds hgoesOn hmost hfull => exact ⟨hmost, hfull, hgoesOn⟩
  · rintro ⟨hmost, hfull, hgoesOn⟩
    exact .rounds hgoesOn hmost hfull

/-- Only a loop is stopped. -/
theorem Raises.rounds_of_iterationLimit {q : Task × Machine}
    (h : Raises limits q (.failed (.iterationLimit n)) m') :
    ∃ i condition step b j m, q = (.rounds i condition step b j, m) := by
  cases h with
  | rounds => exact ⟨_, _, _, _, _, _, rfl⟩

end

/-! ## Programs

A run of a program begins with no call active.  Then the number of calls on the way is the number
that the limit is compared with, and both errors are told by what happens in the run. -/

/-- When `p` is run in a scope of the store `s`, the task is entered on its machine while `k`
functions are called. -/
def During (limits : Limits) (scope : ScopeId) (p : Program) (s : Store) (k : Nat)
    (q : Task × Machine) : Prop :=
  Active limits (.row scope p none, ⟨s, 0⟩) k q

/-- Limits are **exact** when the program `p` is run in a scope of the store `s`. -/
structure LimitsExact (limits : Limits) (scope : ScopeId) (p : Program) (s : Store) : Prop where
  /-- Never are more functions called than may be. -/
  called_le {k : Nat} {q : Task × Machine} : During limits scope p s k q → k ≤ limits.maxDepth
  /-- A function that is applied while as many are called as may be is not called, nor are its
  parameters bound: the call ends with an overflow, on the machine that the arguments have left. -/
  overflows {q : Task × Machine} {id : Identity} {params : List Param} {b : Block}
    {captured : ScopeId} {vs : List Value} {m : Machine} :
    During limits scope p s limits.maxDepth q →
    Applies limits q (.function id params b captured) vs m →
    q.1.Unwinds limits q.2 (.failed (.stackOverflow limits.maxDepth)) m
  /-- No overflow is raised in any other case. -/
  overflow_raised_iff {k n : Nat} {q : Task × Machine} {m : Machine} : During limits scope p s k q →
    (Raises limits q (.failed (.stackOverflow n)) m ↔ n = limits.maxDepth ∧ k = limits.maxDepth ∧
      ∃ id params b captured vs, Applies limits q (.function id params b captured) vs m)
  /-- While less are called, a function that is applied is entered, when its parameters are bound.
  -/
  enters {k : Nat} {q : Task × Machine} {id : Identity} {params : List Param} {b : Block}
    {captured inner : ScopeId} {vs : List Value} {m m' : Machine} : During limits scope p s k q →
    Applies limits q (.function id params b captured) vs m → k < limits.maxDepth →
    callScope params captured vs m = .done inner m' →
    During limits scope p s (k + 1) (.row inner b none, { m' with depth := k + 1 })
  /-- A built-in that is applied, while however many are called, fails only as it does itself. -/
  builtin {q : Task × Machine} {b : Builtin} {vs : List Value} {why : Unwind} {m m' : Machine} :
    Applies limits q (.builtin b) vs m → q.1.Unwinds limits q.2 why m' → why.isControl = false
  /-- The program ends with an overflow exactly if a call in it overflows; the store is the one that
  the arguments have left. -/
  ends_overflow_iff {n : Nat} {m' : Machine} :
    Program.Ends limits scope p ⟨s, 0⟩ (.unwound (.failed (.stackOverflow n)) m') ↔
      n = limits.maxDepth ∧ ∃ q m id params b captured vs,
        During limits scope p s limits.maxDepth q ∧
          Applies limits q (.function id params b captured) vs m ∧ m' = { m with depth := 0 }
  /-- Rounds are counted from the beginning of the execution of the loop that they belong to. -/
  counted {k j : Nat} {i : ScopeId} {condition step : Option Expr} {b : Block} {m : Machine} :
    During limits scope p s k (.rounds i condition step b j, m) → ∃ start,
      Executes limits (.row scope p none, ⟨s, 0⟩) k i condition step b start ∧
        RoundsOver limits i condition step b start j m
  /-- As many rounds are entered as may be, if the execution goes on so long. -/
  entered {k j : Nat} {i : ScopeId} {condition step : Option Expr} {b : Block} {start m : Machine} :
    Executes limits (.row scope p none, ⟨s, 0⟩) k i condition step b start →
    RoundsOver limits i condition step b start j m → (∀ most ∈ limits.maxIterations, j ≤ most) →
    During limits scope p s k (.rounds i condition step b j, m)
  /-- An execution comes to each of its rounds once. -/
  once {j : Nat} {i : ScopeId} {condition step : Option Expr} {b : Block} {start m m' : Machine} :
    RoundsOver limits i condition step b start j m →
    RoundsOver limits i condition step b start j m' → m = m'
  /-- The body is run only when less rounds are over than may be, so at most as often as may be. -/
  body_lt {k j : Nat} {i inner : ScopeId} {condition step : Option Expr} {b body : Block}
    {last : Option Value} {m m' : Machine} :
    During limits scope p s k (.rounds i condition step b j, m) →
    Enters limits (.rounds i condition step b j, m) (.row inner body last, m') →
    ∀ most ∈ limits.maxIterations, j < most
  /-- A loop whose condition holds when as many rounds are over as may be is stopped there. -/
  stops {n : Nat} {i : ScopeId} {condition step : Option Expr} {b : Block}
    {start m m' : Machine} : limits.maxIterations = some n →
    RoundsOver limits i condition step b start n m →
    Holds limits i condition m m' →
    (Task.rounds i condition step b 0).Unwinds limits start (.failed (.iterationLimit n)) m'
  /-- No loop is stopped in any other case. -/
  stop_raised_iff {k j n : Nat} {i : ScopeId} {condition step : Option Expr} {b : Block}
    {m m' : Machine} : During limits scope p s k (.rounds i condition step b j, m) →
    (Raises limits (.rounds i condition step b j, m) (.failed (.iterationLimit n)) m' ↔
      limits.maxIterations = some n ∧ j = n ∧ Holds limits i condition m m')
  /-- A loop is finished normally if its condition is falsy after as many rounds as may be, or after
  less. -/
  finishes_iff {i : ScopeId} {condition step : Option Expr} {b : Block} {start m' : Machine} :
    (Task.rounds i condition step b 0).Gives limits start () m' ↔
      ∃ j m, RoundsOver limits i condition step b start j m ∧
        (∀ most ∈ limits.maxIterations, j ≤ most) ∧ Fails limits i condition m m'
  /-- The program ends at the limit of rounds exactly if an execution of a loop in it is stopped. -/
  ends_stopped_iff {n : Nat} {m' : Machine} :
    Program.Ends limits scope p ⟨s, 0⟩ (.unwound (.failed (.iterationLimit n)) m') ↔
      limits.maxIterations = some n ∧ ∃ k i condition step b start m m₁,
        Executes limits (.row scope p none, ⟨s, 0⟩) k i condition step b start ∧
          RoundsOver limits i condition step b start n m ∧ Holds limits i condition m m₁ ∧
            m' = { m₁ with depth := 0 }

section

variable {limits : Limits} {scope : ScopeId} {p : Program} {s : Store} {k : Nat}
  {q : Task × Machine}

/-- A program ends with the error of a limit exactly if it is raised somewhere in its run. -/
theorem Program.ends_unwound_iff {m m' : Machine} {e : RuntimeError} (he : e.isLimit) :
    Program.Ends limits scope p m (.unwound (.failed e) m') ↔
      ∃ q m'', Relation.ReflTransGen (Enters limits) (.row scope p none, m) q ∧
        Raises limits q (.failed e) m'' ∧ m' = { m'' with depth := m.depth } :=
  (Task.steady limits (.row scope p none)).settles_iff.symm.trans (Task.unwinds_limit_iff he)

/-- From the program on, the machine counts the calls on the way. -/
theorem During.depth_eq (h : During limits scope p s k q) : q.2.depth = k :=
  (Active.depth_eq h).trans (Nat.zero_add k)

theorem During.le (h : During limits scope p s k q) : k ≤ limits.maxDepth :=
  h.depth_eq ▸ (depth_le_of_entered h.entered (Nat.zero_le _)).2

/-- A loop that goes on in the run of a program began there, and is within its limit. -/
theorem During.executes {i : ScopeId} {condition step : Option Expr} {b : Block} {j : Nat}
    {m : Machine} (h : During limits scope p s k (.rounds i condition step b j, m)) :
    ∃ start, Executes limits (.row scope p none, ⟨s, 0⟩) k i condition step b start ∧
      RoundsOver limits i condition step b start j m ∧ ∀ most ∈ limits.maxIterations, j ≤ most :=
  Active.executes (fun _ _ _ _ _ h => by cases h) h

/-- Below the limit, a function is called once its parameters are bound. -/
theorem During.call {id : Identity} {params : List Param} {b : Block} {captured inner : ScopeId}
    {vs : List Value} {m m' : Machine} (h : During limits scope p s k q)
    (happlies : Applies limits q (.function id params b captured) vs m)
    (hlt : k < limits.maxDepth) (hscope : callScope params captured vs m = .done inner m') :
    During limits scope p s (k + 1) (.row inner b none, { m' with depth := k + 1 }) := by
  have hm : m.depth = k := happlies.depth_eq.trans h.depth_eq
  have hm' : m'.depth = k := ((Balanced.callScope _ _ _).done hscope).trans hm
  obtain ⟨henters, hcalls⟩ := happlies.enters (hm ▸ hlt) hscope
  rw [hm'] at henters
  exact Active.call h henters hcalls

/-- **A call overflows** exactly when `maxDepth` of them are active and it applies a function. -/
theorem During.raises_overflow_iff {n : Nat} {m : Machine} (h : During limits scope p s k q) :
    Raises limits q (.failed (.stackOverflow n)) m ↔ n = limits.maxDepth ∧ k = limits.maxDepth ∧
      ∃ id params b captured vs, Applies limits q (.function id params b captured) vs m := by
  rw [Scriptlet.raises_overflow_iff]
  refine and_congr_right fun _ => ?_
  constructor
  · rintro ⟨hfull, id, params, b, captured, vs, happlies⟩
    rw [happlies.depth_eq, h.depth_eq] at hfull
    exact ⟨Nat.le_antisymm h.le hfull, id, params, b, captured, vs, happlies⟩
  · rintro ⟨hk, id, params, b, captured, vs, happlies⟩
    have hm : m.depth = k := happlies.depth_eq.trans h.depth_eq
    exact ⟨hm ▸ hk ▸ Nat.le_refl _, id, params, b, captured, vs, happlies⟩

/-- **A loop is stopped** exactly when its rounds over are as many as may be, and its condition
still holds. -/
theorem During.raises_iterationLimit_iff {i : ScopeId} {condition step : Option Expr} {b : Block}
    {j n : Nat} {m m' : Machine} (h : During limits scope p s k (.rounds i condition step b j, m)) :
    Raises limits (.rounds i condition step b j, m) (.failed (.iterationLimit n)) m' ↔
      limits.maxIterations = some n ∧ j = n ∧ Holds limits i condition m m' := by
  obtain ⟨start, -, -, hj⟩ := h.executes
  rw [Scriptlet.raises_iterationLimit_iff]
  refine and_congr_right fun hmost => and_congr_left fun _ => ?_
  exact ⟨fun hle => Nat.le_antisymm (hj n hmost) hle, Nat.le_of_eq ∘ Eq.symm⟩

/-- **A program overflows** exactly if in its run a function is applied while `maxDepth` calls are
active. -/
theorem Program.ends_overflow_iff {n : Nat} {m' : Machine} :
    Program.Ends limits scope p ⟨s, 0⟩ (.unwound (.failed (.stackOverflow n)) m') ↔
      n = limits.maxDepth ∧ ∃ q m id params b captured vs,
        During limits scope p s limits.maxDepth q ∧
          Applies limits q (.function id params b captured) vs m ∧ m' = { m with depth := 0 } := by
  rw [Program.ends_unwound_iff rfl]
  constructor
  · rintro ⟨q, m, hpath, hraises, rfl⟩
    obtain ⟨k, hq⟩ : ∃ k, During limits scope p s k q := Active.start.of_entered hpath
    obtain ⟨rfl, rfl, id, params, b, captured, vs, happlies⟩ := hq.raises_overflow_iff.mp hraises
    exact ⟨rfl, q, m, id, params, b, captured, vs, hq, happlies, rfl⟩
  · rintro ⟨rfl, q, m, id, params, b, captured, vs, hq, happlies, rfl⟩
    exact ⟨q, m, hq.entered,
      hq.raises_overflow_iff.mpr ⟨rfl, rfl, id, params, b, captured, vs, happlies⟩, rfl⟩

/-- **A program is stopped** exactly if in its run an execution of a loop has been through as many
rounds as may be, and its condition holds once more. -/
theorem Program.ends_stopped_iff {n : Nat} {m' : Machine} :
    Program.Ends limits scope p ⟨s, 0⟩ (.unwound (.failed (.iterationLimit n)) m') ↔
      limits.maxIterations = some n ∧ ∃ k i condition step b start m m₁,
        Executes limits (.row scope p none, ⟨s, 0⟩) k i condition step b start ∧
          RoundsOver limits i condition step b start n m ∧ Holds limits i condition m m₁ ∧
            m' = { m₁ with depth := 0 } := by
  rw [Program.ends_unwound_iff rfl]
  constructor
  · rintro ⟨q, m₁, hpath, hraises, rfl⟩
    obtain ⟨i, condition, step, b, j, m, rfl⟩ := hraises.rounds_of_iterationLimit
    obtain ⟨k, hq⟩ : ∃ k, During limits scope p s k (.rounds i condition step b j, m) :=
      Active.start.of_entered hpath
    obtain ⟨hmost, rfl, hholds⟩ := hq.raises_iterationLimit_iff.mp hraises
    obtain ⟨start, hexecutes, hover, -⟩ := hq.executes
    exact ⟨hmost, k, i, condition, step, b, start, m, m₁, hexecutes, hover, hholds, rfl⟩
  · rintro ⟨hmost, k, i, condition, step, b, start, m, m₁, hexecutes, hover, hholds, rfl⟩
    have hn : ∀ most ∈ limits.maxIterations, n ≤ most := fun most h =>
      Nat.le_of_eq (Option.some.inj (hmost.symm.trans h))
    have hq : During limits scope p s k (.rounds i condition step b n, m) :=
      Active.of_inside hexecutes.active (hover.entered hn)
    exact ⟨_, m₁, hq.entered, hq.raises_iterationLimit_iff.mpr ⟨hmost, rfl, hholds⟩, rfl⟩

end

/-- **Limits are exact**, in the run of every program on every store, whether it ends or not. -/
theorem limits_exact (limits : Limits) (scope : ScopeId) (p : Program) (s : Store) :
    LimitsExact limits scope p s where
  called_le := During.le
  overflows h happlies :=
    have hraises := h.raises_overflow_iff.mpr ⟨rfl, rfl, _, _, _, _, _, happlies⟩
    hraises.unwinds
  overflow_raised_iff := During.raises_overflow_iff
  enters := During.call
  builtin := Applies.builtin
  ends_overflow_iff := Program.ends_overflow_iff
  -- Each part is one of the statements above, for a run from a machine on which no call is active.
  counted h := by
    obtain ⟨start, hexecutes, hover, -⟩ := h.executes
    exact ⟨start, hexecutes, hover⟩
  entered hexecutes hover hj := Active.of_inside hexecutes.active (hover.entered hj)
  once := RoundsOver.unique
  body_lt _ henters := by
    cases henters with
    | round _ hmost => exact hmost
  stops hmost hover hholds :=
    have hallowed := fun most h => Nat.le_of_eq (Option.some.inj (hmost.symm.trans h))
    have hraises := raises_iterationLimit_iff.mpr ⟨hmost, Nat.le_refl _, hholds⟩
    hover.settles hallowed hraises.unwinds
  stop_raised_iff := During.raises_iterationLimit_iff
  finishes_iff := by
    simp only [fails_iff]
    exact rounds_gives_iff
  ends_stopped_iff := Program.ends_stopped_iff

end Scriptlet
