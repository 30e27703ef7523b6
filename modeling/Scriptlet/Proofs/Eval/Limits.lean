import Scriptlet.Proofs.Eval.CutOff
import Scriptlet.Syntax.Parser

/-!
# Proofs/Eval/Limits — how a program ends does not depend on fuel or limits

`Program.Ends` leaves the fuel out: a program ends with an outcome if some amount of fuel gives it.
There is at most one such outcome (`Program.Ends.unique`), and looser limits give the same one,
unless a limit is what ended the program.
-/

namespace Scriptlet

/-- A limit of the host ended the run. -/
def Outcome.hitsLimit {α : Type} : Outcome α → Bool
  | .unwound (.failed e) _ => e.isLimit
  | _ => false

/-- The fuel sufficed. -/
def Outcome.finished {α : Type} : Outcome α → Bool
  | .outOfFuel => false
  | _ => true

/-- Where only fuel cuts off, a computation that ends is not cut off. -/
theorem Eval.Within.eq_of_finished {α : Type} {x y : Eval α} {m : Machine}
    (h : Within (fun _ => False) x y) (hfin : (x m).finished) : y m = x m := by
  rcases h m with hcut | heq
  · rcases hx : x m with ⟨a, m'⟩ | ⟨v | e, m'⟩ | _
    all_goals rw [hx] at hcut hfin
    · exact hcut.elim
    · exact hcut.elim
    · exact hcut.elim
    · cases hfin
  · exact heq.symm

/-- The program, run in a scope, **ends** with the outcome `o`. -/
def Program.Ends (limits : Limits) (scope : ScopeId) (p : Program) (m : Machine)
    (o : Outcome (Option Value)) : Prop :=
  o.finished ∧ ∃ fuel, Program.run limits fuel scope p m = o

/-- **Less fuel and tighter limits only cut a program off.** -/
theorem Program.run_within (cut : RuntimeError → Prop) {tight loose : Limits} (hle : tight ≤ loose)
    (hcut : tight = loose ∨ ∀ e, e.isLimit → cut e) {n n' : Nat} (hn : n ≤ n') (scope : ScopeId)
    (p : Program) :
    Eval.Within cut (Program.run tight n scope p) (Program.run loose n' scope p) :=
  .sequence ((eval_within hle hcut hn).2 scope) p none

/-- More fuel does not change how a program ends. -/
theorem Program.run_mono {limits : Limits} {n n' : Nat} (hn : n ≤ n') {scope : ScopeId}
    {p : Program} {m : Machine} (h : (Program.run limits n scope p m).finished) :
    Program.run limits n' scope p m = Program.run limits n scope p m :=
  (Program.run_within (fun _ => False) limits.le_refl (.inl rfl) hn scope p).eq_of_finished h

/-- **A program ends in one way only.** -/
theorem Program.Ends.unique {limits : Limits} {scope : ScopeId} {p : Program} {m : Machine}
    {o o' : Outcome (Option Value)} (h : Program.Ends limits scope p m o)
    (h' : Program.Ends limits scope p m o') : o' = o := by
  obtain ⟨hfin, n, rfl⟩ := h
  obtain ⟨hfin', n', rfl⟩ := h'
  rcases Nat.le_total n n' with hn | hn
  · exact Program.run_mono hn hfin
  · exact (Program.run_mono hn hfin').symm

/-- **Limits only cut evaluation off, they never change it.**  A program that ends without reaching
a limit ends with the same outcome, and on the same machine, under all looser limits. -/
theorem Program.Ends.under_looser_limits {tight loose : Limits} (hle : tight ≤ loose)
    {scope : ScopeId} {p : Program} {m : Machine} {o : Outcome (Option Value)}
    (h : Program.Ends tight scope p m o) (hlimit : o.hitsLimit = false) :
    Program.Ends loose scope p m o ∧ ∀ o', Program.Ends loose scope p m o' → o' = o := by
  obtain ⟨hfin, n, hrun⟩ := h
  have hloose : Program.Ends loose scope p m o := by
    refine ⟨hfin, n, ?_⟩
    rcases Program.run_within (fun e => e.isLimit) hle (.inr fun _ he => he)
      (Nat.le_refl n) scope p m with hcut | heq
    · rw [hrun] at hcut
      rcases o with ⟨v, m'⟩ | ⟨v | e, m'⟩ | _
      · exact hcut.elim
      · exact hcut.elim
      · exact absurd hcut (Bool.eq_false_iff.mp hlimit)
      · cases hfin
    · exact heq.symm.trans hrun
  exact ⟨hloose, fun o' h' => hloose.unique h'⟩

/-- A loop around a recursive function, which takes two calls at once and two rounds. -/
def countdown : Program :=
  (parse "let f = fn(n) { if (n < 1) n else f(n - 1) }; for (let i = 0; i < 2; i = i + 1) f(1);
    i / 0").program

/-- What the loop leaves behind under limits that just suffice, it leaves behind without them. -/
theorem countdown_under_looser_limits :
    ∃ o, Program.Ends ⟨2, some 2⟩ 0 countdown ⟨Store.empty.addScope none, 0⟩ o ∧
      o.hitsLimit = false ∧
      Program.Ends ⟨256, none⟩ 0 countdown ⟨Store.empty.addScope none, 0⟩ o := by
  refine ⟨Program.run ⟨2, some 2⟩ 40 0 countdown ⟨Store.empty.addScope none, 0⟩, ⟨?_, 40, rfl⟩, ?_,
    (Program.Ends.under_looser_limits ⟨?_, ?_⟩ ⟨?_, 40, rfl⟩ ?_).1⟩
  · decide +kernel
  · decide +kernel
  · decide
  · intro most h
    cases h
  · decide +kernel
  · decide +kernel

end Scriptlet
