import Scriptlet.Proofs.Eval.Unwinding

/-!
# Proofs/Eval/Rounds — the rounds of one execution of a loop

The rounds of a loop are counted without regard to what limits them (`RoundsOver`).  As long as the
limit allows, an execution of the loop does what it does from the last of these rounds on; so it is
finished normally exactly when the condition is falsy after some rounds, and these are no more than
the limit (`rounds_gives_iff`).
-/

namespace Scriptlet

open Eval

/-- From the machine `start` on, the machine is reached when so many rounds of the loop are over. -/
inductive RoundsOver (limits : Limits) (i : ScopeId) (condition step : Option Expr) (b : Block)
    (start : Machine) : Nat → Machine → Prop
  | zero : RoundsOver limits i condition step b start 0 start
  | succ {k m m₁ v m₂ v' m₃} : RoundsOver limits i condition step b start k m →
    Settles (fun n => goesOn limits n i condition) m (.done true m₁) →
    (Task.row m₁.store.nextScope b none).Gives limits (m₁.enclosed i) v m₂ →
    Settles (fun n => advance limits n i step) m₂ (.done v' m₃) →
    RoundsOver limits i condition step b start (k + 1) m₃

variable {limits : Limits} {i : ScopeId} {condition step : Option Expr} {b : Block}
  {start m m' : Machine} {k : Nat}

namespace RoundsOver

/-- After so many rounds, there is one machine that can be reached. -/
theorem unique (h : RoundsOver limits i condition step b start k m)
    (h' : RoundsOver limits i condition step b start k m') : m = m' := by
  induction h generalizing m' with
  | zero =>
    cases h'
    rfl
  | succ _ hgoesOn hb hstep ih =>
    cases h' with
    | succ hprev hgoesOn' hb' hstep' =>
      obtain rfl := ih hprev
      cases hgoesOn.unique hgoesOn'
      cases hb.unique hb'
      cases hstep.unique hstep'
      rfl

/-- The rounds that the limit allows are entered one after another. -/
theorem entered (h : RoundsOver limits i condition step b start k m)
    (hk : ∀ most ∈ limits.maxIterations, k ≤ most) :
    Relation.ReflTransGen (Inside limits) (.rounds i condition step b 0, start)
      (.rounds i condition step b k, m) := by
  induction h with
  | zero => exact .refl
  | succ _ hgoesOn hb hstep ih =>
    have hprev := ih fun most hmost => Nat.le_of_succ_le (hk most hmost)
    exact hprev.tail ⟨.otherRounds hgoesOn hk hb hstep, rfl⟩

/-- **An execution ends as it does from the rounds on that are over**, if the limit allows them. -/
theorem settles {o : Outcome Unit} (h : RoundsOver limits i condition step b start k m)
    (hk : ∀ most ∈ limits.maxIterations, k ≤ most)
    (ho : Settles (fun n => (Task.rounds i condition step b k).eval limits n) m o) :
    Settles (fun n => (Task.rounds i condition step b 0).eval limits n) start o := by
  induction h with
  | zero => exact ho
  | succ _ hgoesOn hb hstep ih =>
    refine ih (fun most hmost => Nat.le_of_succ_le (hk most hmost)) ?_
    exact Task.settles_rounds hgoesOn hk (hb.bind (hstep.bind ho))

end RoundsOver

/-- Rounds that are done were done until the condition did not hold any more. -/
theorem exists_roundsOver {n turns : Nat} (hover : RoundsOver limits i condition step b start k m)
    (hk : ∀ most ∈ limits.maxIterations, k ≤ most)
    (h : (Task.rounds i condition step b k).evalTurns limits n turns m = .done () m') :
    ∃ l m₁, RoundsOver limits i condition step b start l m₁ ∧
      (∀ most ∈ limits.maxIterations, l ≤ most) ∧
      Settles (fun n => goesOn limits n i condition) m₁ (.done false m') := by
  induction turns generalizing k m with
  | zero => cases h
  | succ turns ih =>
    obtain ⟨holds, m₁, htest, hrest⟩ := done_bind h
    have hgoesOn := (goesOn_steady limits i condition).settles_iff.mpr ⟨rfl, n, htest⟩
    cases holds with
    | false =>
      cases hrest
      exact ⟨k, m, hover, hk, hgoesOn⟩
    | true =>
      by_cases hmost : ∀ most ∈ limits.maxIterations, k < most
      · rw [if_pos rfl, allowRound_eq_pure hmost, pure_bind] at hrest
        obtain ⟨v, m₂, hb, hrest⟩ := done_bind hrest
        obtain ⟨v', m₃, hs, hrest⟩ := done_bind hrest
        have hbody : (Task.row m₁.store.nextScope b none).Gives limits (m₁.enclosed i) v m₂ :=
          (Task.steady limits _).settles_iff.mpr ⟨rfl, n, hb⟩
        have hstep := (advance_steady limits i step).settles_iff.mpr ⟨rfl, n, hs⟩
        exact ih (.succ hover hgoesOn hbody hstep) hmost hrest
      · obtain ⟨most, hlimit, hfull⟩ : ∃ most ∈ limits.maxIterations, most ≤ k := by
          simpa using hmost
        rw [if_pos rfl, allowRound_eq_fail hlimit hfull] at hrest
        cases hrest

/-- **A loop is finished normally** exactly if its condition is falsy after some rounds, which are
as many as the limit allows, or less. -/
theorem rounds_gives_iff : (Task.rounds i condition step b 0).Gives limits start () m' ↔
    ∃ k m, RoundsOver limits i condition step b start k m ∧
      (∀ most ∈ limits.maxIterations, k ≤ most) ∧
      Settles (fun n => goesOn limits n i condition) m (.done false m') := by
  constructor
  · rintro ⟨-, n, h⟩
    have hturns := (congrFun (Task.evalTurns_self limits n _) start).trans (h n (Nat.le_refl n))
    exact exists_roundsOver .zero (fun _ _ => Nat.zero_le _) hturns
  · rintro ⟨k, m, hover, hk, hfalsy⟩
    refine hover.settles hk (settles_succ.mp ((settles_succ.mpr hfalsy).bind ?_))
    exact .of_forall (fun _ => rfl) rfl

end Scriptlet
