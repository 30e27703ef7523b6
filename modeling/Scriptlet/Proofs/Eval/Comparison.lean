import Scriptlet.Proofs.Eval.Operations
import Scriptlet.Proofs.Value.Comparison
import Scriptlet.Session

/-!
# Proofs/Eval/Comparison — comparisons in a program

Comparing two values is coherent (`Value.coherent`), and an operation ends as its operator does with
the values of its operands.
-/

namespace Scriptlet

open Eval

/-- **Comparisons are coherent.**  Comparing any two values is, and an operation in a program ends
as its operator does with the values of its operands, whatever these are. -/
theorem comparisons_coherent : (∀ u v : Value, u.Coherent v) ∧
    ∀ {limits : Limits} {i : ScopeId} {op : InfixOp} {l r : Expr} {m m₁ m₂ : Machine}
      {a b : Option Value}, op ≠ .assign → (Task.expr i l).Gives limits m a m₁ →
        (Task.expr i r).Gives limits m₁ b m₂ →
          (Expr.binary op l r).EndsAs limits i m (op.apply (a.getD .null) (b.getD .null)) m₂ :=
  ⟨Value.coherent, Expr.endsAs_binary⟩

/-- In a new session `"zebra" < "école"` gives true, as the second word begins with the larger code
point, and `1 == "1"` fails. -/
theorem comparisons_coherent_between_words :
    let m : Machine := ⟨(Session.new {}).store, 0⟩
    (Task.expr 0 (.binary .less (.string "zebra") (.string "école"))).Gives {} m
        (some (.boolean true)) m ∧
      ∃ e, (Task.expr 0 (.binary .equal (.integer 1) (.string "1"))).Unwinds {} m (.failed e) m ∧
        e.message = "type mismatch: INTEGER == STRING" := by
  intro m
  obtain ⟨hvalues, hoperations⟩ := comparisons_coherent
  have hstring : ∀ s, (Task.expr 0 (.string s)).Gives {} m (some (.string s)) m :=
    fun s => settles_succ.mp (.const rfl rfl)
  have hinteger : (Task.expr 0 (.integer 1)).Gives {} m (some (.integer 1)) m :=
    settles_succ.mp (.const rfl rfl)
  constructor
  · have hless : InfixOp.less.IsTrue (.string "zebra") (.string "école") :=
      ((hvalues _ _).strings _ _ rfl rfl).1.mpr (.differing [] _ _ (by decide))
    have hends : (Expr.binary .less (.string "zebra") (.string "école")).EndsAs {} 0 m
        (InfixOp.less.apply (.string "zebra") (.string "école")) m :=
      hoperations (by decide) (hstring "zebra") (hstring "école")
    exact (hends.gives_iff _ m).mpr ⟨hless, rfl⟩
  · obtain ⟨e, happly, -, hmessage⟩ :=
      (hvalues (.integer 1) (.string "1")).mismatch (by decide) .equal (by decide)
    have hends : (Expr.binary .equal (.integer 1) (.string "1")).EndsAs {} 0 m
        (InfixOp.equal.apply (.integer 1) (.string "1")) m :=
      hoperations (by decide) hinteger (hstring "1")
    exact ⟨e, (hends.fails_iff e m).mpr ⟨happly, rfl⟩, hmessage⟩

end Scriptlet
