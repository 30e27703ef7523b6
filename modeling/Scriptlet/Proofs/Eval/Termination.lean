import Scriptlet.Proofs.Eval.Depth

/-!
# Proofs/Eval/Termination — with an iteration limit every evaluation ends

The body of a function comes out of the store and may be larger than the call it is entered from, so
no size gets smaller on the way into it; but one call less may then become active.  Within a call
everything entered is smaller than what it is entered from, or one round further on in a loop whose
rounds are limited.  So calls left, size and rounds left decrease lexicographically (`enters_lex`),
and no evaluation goes on for ever.
-/

namespace Scriptlet

open Eval

/-- The calls that may still become active, the size, and the rounds that are left of `most`. -/
noncomputable def Task.rank (maxDepth most : Nat) (p : Task × Machine) : Nat × Nat × Nat :=
  (maxDepth - p.2.depth, p.1.size, most - p.1.finished)

/-- **Whatever is entered has a lower rank.** -/
theorem enters_lex {maxDepth most : Nat} {p q : Task × Machine}
    (h : Enters ⟨maxDepth, some most⟩ p q) :
    Prod.Lex (· < ·) (Prod.Lex (· < ·) (· < ·)) (Task.rank maxDepth most q)
      (Task.rank maxDepth most p) := by
  unfold Task.rank
  rcases h.depth_cases with ⟨-, hdepth, hlt⟩ | ⟨-, hdepth, hsize | ⟨hsize, hfinished, hmost⟩⟩
  · have hlt' : p.2.depth < maxDepth := hlt
    exact .left _ _ (by omega)
  · rw [hdepth]
    exact .right _ (.left _ _ hsize)
  · have hlt := hmost most rfl
    rw [hdepth, hsize]
    exact .right _ (.right _ (by omega))

theorem wellFounded_enters (maxDepth most : Nat) :
    WellFounded fun q p => Enters ⟨maxDepth, some most⟩ p q :=
  Subrelation.wf enters_lex (InvImage.wf (Task.rank maxDepth most)
    (Prod.lex Nat.lt_wfRel (Prod.lex Nat.lt_wfRel Nat.lt_wfRel)).wf)

/-- With an iteration limit, every task halts on every machine. -/
theorem Task.halts (maxDepth most : Nat) (t : Task) (m : Machine) :
    t.Halts ⟨maxDepth, some most⟩ m :=
  (wellFounded_enters maxDepth most).induction
    (C := fun p => p.1.Halts ⟨maxDepth, some most⟩ p.2) (t, m)
    fun _ ih => Task.halts_of_enters fun t' m' h => ih (t', m') h

/-- **With an iteration limit every evaluation ends**, for every program, in every scope of every
store, under every limit of calls: some amount of fuel gives a result, and more fuel gives the same.
-/
theorem Program.eval_ends (maxDepth most : Nat) (scope : ScopeId) (p : Program) (m : Machine) :
    ∃ v m' fuel, ∀ n, fuel ≤ n →
      Program.eval ⟨maxDepth, some most⟩ n scope p m = some (v, m') := by
  obtain ⟨o, ho, fuel, h⟩ := Task.halts maxDepth most (.row scope p none) m
  have hrun : ∀ n, fuel ≤ n → Program.run ⟨maxDepth, some most⟩ n scope p m = o := h
  rcases o with ⟨v, m'⟩ | ⟨v | e, m'⟩ | _
  · exact ⟨v.getD .null, m', fuel, fun n hn => by rw [Program.eval, hrun n hn]⟩
  · exact ⟨v, m', fuel, fun n hn => by rw [Program.eval, hrun n hn]⟩
  · exact ⟨.error e.message, m', fuel, fun n hn => by rw [Program.eval, hrun n hn]⟩
  · cases ho

end Scriptlet
