import Scriptlet.Value.Basic

/-!
# RuntimeError — why an evaluation stops

Most causes lie in the program; the last two are limits that the host has set.
-/

namespace Scriptlet

/-- The causes, with the kinds, names and numbers that their messages show. -/
inductive RuntimeError where
  /-- The operands of an operator are of different kinds. -/
  | typeMismatch (left : ValueKind) (op : InfixOp) (right : ValueKind)
  | unknownPrefixOperator (op : PrefixOp) (operand : ValueKind)
  | unknownInfixOperator (left : ValueKind) (op : InfixOp) (right : ValueKind)
  | unknownIdentifier (name : String)
  /-- The scope binds the name already. -/
  | alreadyDefined (name : String)
  /-- Something other than a name stands on the left of an assignment. -/
  | invalidAssignTarget
  /-- A name would be bound to the result of an expression that has none. -/
  | emptyAssignment
  /-- A variadic parameter is followed by another one. -/
  | misplacedVariadic
  | wrongArgumentCount (expected got : Nat)
  | notAFunction (kind : ValueKind)
  | unusableHashKey (kind : ValueKind)
  | indexNotSupported (kind : ValueKind)
  | indexOutOfBounds (index : Int64)
  | negativeIndex (index : Int64)
  | divisionByZero
  /-- A built-in does not take arguments of this kind. -/
  | unsupportedArgument (builtin : Builtin) (kind : ValueKind)
  /-- An element of an empty array is asked for. -/
  | emptyArray
  /-- Too many calls are active at once. -/
  | stackOverflow (maxDepth : Nat)
  /-- One loop has run too often. -/
  | iterationLimit (maxIterations : Nat)
  deriving DecidableEq, Repr, Inhabited

/-- The text of a cause, as the program's host shows it. -/
def RuntimeError.message : RuntimeError → String
  | typeMismatch left op right =>
    "type mismatch: " ++ left.label ++ " " ++ op.symbol ++ " " ++ right.label
  | unknownPrefixOperator op operand => "unknown operator: " ++ op.symbol ++ operand.label
  | unknownInfixOperator left op right =>
    "unknown operator: " ++ left.label ++ " " ++ op.symbol ++ " " ++ right.label
  | unknownIdentifier name => "identifier not found: " ++ name
  | alreadyDefined name => "identifier already exists: " ++ name
  | invalidAssignTarget => "Left side of assign expression must be a variable"
  | emptyAssignment => "cannot assign empty value to variable"
  | misplacedVariadic => "variadic parameter must be the last parameter of a function"
  | wrongArgumentCount expected got =>
    "wrong number of arguments: expected=" ++ toString expected ++ ", got=" ++ toString got
  | notAFunction kind => "not a function: " ++ kind.label
  | unusableHashKey kind => "unusable as hash key: " ++ kind.label
  | indexNotSupported kind => "index operator not supported: " ++ kind.label
  | indexOutOfBounds index => "index outside array bounds: " ++ toString index.toInt
  | negativeIndex index => "array index must be non-negative: " ++ toString index.toInt
  | divisionByZero => "division by zero"
  | unsupportedArgument builtin kind =>
    "argument to \x60" ++ builtin.name ++ "\x60 not supported: " ++ kind.label
  | emptyArray => "array has no elements"
  | stackOverflow maxDepth =>
    "stack overflow: call depth exceeded maximum of " ++ toString maxDepth
  | iterationLimit maxIterations => "loop iteration limit exceeded: " ++ toString maxIterations

end Scriptlet
