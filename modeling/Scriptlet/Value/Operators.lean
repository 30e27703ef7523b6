import Scriptlet.RuntimeError

/-!
# Value/Operators — what operators do with values

Two integers and two strings have operators of their own.  Any other two values of one kind can be
told apart or not, by identity; values of different kinds have no operator in common.
-/

namespace Scriptlet

/-- `!` takes every value as a condition takes it; `-` takes integers only, and wraps at the
smallest. -/
def PrefixOp.apply (op : PrefixOp) (operand : Value) : Except RuntimeError Value :=
  match op, operand with
  | .not, v => .ok (.boolean !v.truthy)
  | .neg, .integer n => .ok (.integer (-n))
  | .neg, v => .error (.unknownPrefixOperator .neg v.kind)

namespace InfixOp

/-- Arithmetic is modulo `2 ^ 64` and division goes toward zero. -/
def applyIntegers (op : InfixOp) (m n : Int64) : Except RuntimeError Value :=
  match op with
  | .add => .ok (.integer (m + n))
  | .sub => .ok (.integer (m - n))
  | .mul => .ok (.integer (m * n))
  | .div => if n = 0 then .error .divisionByZero else .ok (.integer (m / n))
  | .less => .ok (.boolean (m < n))
  | .greater => .ok (.boolean (n < m))
  | .equal => .ok (.boolean (m = n))
  | .notEqual => .ok (.boolean (m ≠ n))
  | .assign => .error (.unknownInfixOperator .integer .assign .integer)

/-- Strings are joined, and compared by code points from the front. -/
def applyStrings (op : InfixOp) (s t : String) : Except RuntimeError Value :=
  match op with
  | .add => .ok (.string (s ++ t))
  | .less => .ok (.boolean (s < t))
  | .greater => .ok (.boolean (t < s))
  | .equal => .ok (.boolean (s = t))
  | .notEqual => .ok (.boolean (s ≠ t))
  | _ => .error (.unknownInfixOperator .string op .string)

/-- The value of an operator between two values.  An assignment has none: it needs a name on its
left. -/
def apply (op : InfixOp) (left right : Value) : Except RuntimeError Value :=
  match left, right with
  | .integer m, .integer n => op.applyIntegers m n
  | .string s, .string t => op.applyStrings s t
  | left, right =>
    if left.kind ≠ right.kind then
      .error (.typeMismatch left.kind op right.kind)
    else
      match op with
      | .equal => .ok (.boolean (left.same right))
      | .notEqual => .ok (.boolean !left.same right)
      | _ => .error (.unknownInfixOperator left.kind op right.kind)

end InfixOp

/-- The value as a hash key. -/
def Value.toHashKey (v : Value) : Except RuntimeError HashKey :=
  match v.hashKey? with
  | some key => .ok key
  | none => .error (.unusableHashKey v.kind)

/-- What stands at a place of an array, or at a key of a hash; a hash has null at every other key.
-/
def Value.index (container key : Value) : Except RuntimeError Value :=
  match container, key with
  | .array _ elements, .integer i =>
    if i < 0 then
      .error (.negativeIndex i)
    else
      match elements[i.toInt.toNat]? with
      | some v => .ok v
      | none => .error (.indexOutOfBounds i)
  | .hash _ entries, key =>
    key.toHashKey.map fun k => ((entries.lookup k).map HashPair.value).getD .null
  | container, _ => .error (.indexNotSupported container.kind)

end Scriptlet
