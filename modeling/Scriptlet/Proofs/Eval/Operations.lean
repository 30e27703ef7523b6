import Scriptlet.Proofs.Eval.Arithmetic

/-!
# Proofs/Eval/Operations — an operation ends as its result says

The parts of an operation are evaluated from left to right, and an empty one counts as null.  Then
an operator, an index or a built-in is applied to their values, once.  The operation ends with the
value or the error that this comes to, and does nothing else to the machine; only the call of a
built-in spends an identity, whether or not something is made under it.

So what holds of values holds of the operations in a program.
-/

namespace Scriptlet

open Eval

/-- The expression **ends as** the result says: it gives the value or fails with the error, and
leaves the machine `m'`. -/
structure Expr.EndsAs (limits : Limits) (i : ScopeId) (e : Expr) (m : Machine)
    (r : Except RuntimeError Value) (m' : Machine) : Prop where
  gives_iff : ∀ v m'', (Task.expr i e).Gives limits m (some v) m'' ↔ r = .ok v ∧ m'' = m'
  fails_iff : ∀ error m'', (Task.expr i e).Unwinds limits m (.failed error) m'' ↔
    r = .error error ∧ m'' = m'

section

variable {limits : Limits} {i : ScopeId} {m m₁ m₂ : Machine} {e k f : Expr} {args : List Expr}

/-- What evaluation does with a result at the end. -/
theorem Expr.endsAs_of_settles {r : Except RuntimeError Value}
    (h : Settles (fun n => Expr.eval limits n i e) m
      ((do return some (← ofExcept r) : Eval (Option Value)) m₁)) : e.EndsAs limits i m r m₁ := by
  cases r with
  | ok w =>
    have hgives : (Task.expr i e).Gives limits m (some w) m₁ := h
    refine ⟨fun v m' => ⟨fun hv => ?_, ?_⟩, fun error m' => ⟨fun hv => ?_, fun hv => ?_⟩⟩
    · cases hgives.unique hv
      exact ⟨rfl, rfl⟩
    · rintro ⟨hv, rfl⟩
      cases hv
      exact hgives
    · cases hgives.unique hv
    · cases hv.1
  | error error =>
    have hfails : (Task.expr i e).Unwinds limits m (.failed error) m₁ := h
    refine ⟨fun v m' => ⟨fun hv => ?_, fun hv => ?_⟩, fun error' m' => ⟨fun hv => ?_, ?_⟩⟩
    · cases hfails.unique hv
    · cases hv.1
    · cases hfails.unique hv
      exact ⟨rfl, rfl⟩
    · rintro ⟨hv, rfl⟩
      cases hv
      exact hfails

theorem finished_ofExcept (r : Except RuntimeError Value) (m : Machine) :
    ((do return some (← ofExcept r) : Eval (Option Value)) m).finished :=
  Prompt.bind (.ofExcept r) (fun v => .pure (some v)) m

/-! ## The three operations

Infix operators, indexes and calls of built-ins have in common that operands are evaluated first and
a function on values comes last. -/

/-- **An operator** is applied to what its operands gave. -/
theorem Expr.endsAs_binary {op : InfixOp} {l r : Expr} {a b : Option Value} (hop : op ≠ .assign)
    (hl : (Task.expr i l).Gives limits m a m₁) (hr : (Task.expr i r).Gives limits m₁ b m₂) :
    (Expr.binary op l r).EndsAs limits i m (op.apply (a.getD .null) (b.getD .null)) m₂ :=
  endsAs_of_settles (Task.settles_binary hop hl hr rfl (finished_ofExcept _ _))

/-- **An index** is looked up in what the container gave. -/
theorem Expr.endsAs_index {c key : Option Value} (he : (Task.expr i e).Gives limits m c m₁)
    (hk : (Task.expr i k).Gives limits m₁ key m₂) :
    (Expr.index e k).EndsAs limits i m ((c.getD .null).index (key.getD .null)) m₂ := by
  refine endsAs_of_settles (settles_succ.mp ?_)
  simp only [Expr.eval]
  exact he.operand.bind (hk.operand.bind (.const rfl (finished_ofExcept _ _)))

/-- **A built-in** is called with what the arguments gave, and spends an identity. -/
theorem Expr.endsAs_builtin {b : Builtin} {vs : List Value}
    (hf : (Task.expr i f).Gives limits m (some (.builtin b)) m₁)
    (hargs : (Task.values i args).Gives limits m₁ vs m₂) :
    (Expr.call f args).EndsAs limits i m (b.call m₂.store.nextId vs) m₂.spent := by
  refine endsAs_of_settles (settles_succ.mp ?_)
  simp only [Expr.eval]
  exact hf.operand.bind (hargs.bind (.const rfl (finished_ofExcept _ m₂.spent)))

end

end Scriptlet
