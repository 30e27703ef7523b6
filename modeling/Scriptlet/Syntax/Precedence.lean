import Scriptlet.Token.Basic
import Scriptlet.Syntax.Basic

/-!
# Syntax/Precedence — how tightly operators bind

`Extension.of` is the operator table: what a token after a complete expression does with it, and how
tightly it holds on to it.
-/

namespace Scriptlet

/-- The binding strengths, weakest first. -/
inductive Precedence where
  | lowest
  | assign
  | equality
  | comparison
  | sum
  | product
  | unary
  | call
  | index
  deriving DecidableEq, Repr, Inhabited

/-- The place of a strength in the order, from 0. -/
def Precedence.rank : Precedence → Nat
  | lowest => 0
  | assign => 1
  | equality => 2
  | comparison => 3
  | sum => 4
  | product => 5
  | unary => 6
  | call => 7
  | index => 8

instance : LT Precedence := ⟨fun p q => p.rank < q.rank⟩

instance (p q : Precedence) : Decidable (p < q) := inferInstanceAs (Decidable (p.rank < q.rank))

/-- How a token carries on an expression that is complete before it. -/
inductive Extension where
  | binary (op : InfixOp)
  | call
  | index
  deriving DecidableEq, Repr, Inhabited

/-- The operator table; a token that is not in it ends the expression. -/
def Extension.of : TokenKind → Option (Precedence × Extension)
  | .assign => some (.assign, .binary .assign)
  | .equal => some (.equality, .binary .equal)
  | .notEqual => some (.equality, .binary .notEqual)
  | .less => some (.comparison, .binary .less)
  | .greater => some (.comparison, .binary .greater)
  | .plus => some (.sum, .binary .add)
  | .minus => some (.sum, .binary .sub)
  | .asterisk => some (.product, .binary .mul)
  | .slash => some (.product, .binary .div)
  | .leftParen => some (.call, .call)
  | .leftBracket => some (.index, .index)
  | _ => none

/-- What the right operand may be made of without parentheses: everything for an assignment, so that
`a = b = 1` assigns to `b` first, and otherwise only what binds tighter than the operator itself. -/
def InfixOp.rightLimit (op : InfixOp) (strength : Precedence) : Precedence :=
  match op with
  | .assign => .lowest
  | _ => strength

end Scriptlet
