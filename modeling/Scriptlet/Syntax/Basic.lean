/-!
# Syntax/Basic — program trees

A program is a list of statements.  Grouping parentheses, semicolons and layout leave no trace in a
tree; the pairs of a hash literal keep their order, and repeated keys stay.
-/

namespace Scriptlet

/-- The operators in front of their operand. -/
inductive PrefixOp where
  | neg
  | not
  deriving DecidableEq, Repr, Inhabited

/-- The operators between two operands; assignment is one of them. -/
inductive InfixOp where
  | assign
  | add
  | sub
  | mul
  | div
  | less
  | greater
  | equal
  | notEqual
  deriving DecidableEq, Repr, Inhabited

/-- An operator as it is written. -/
def PrefixOp.symbol : PrefixOp → String
  | .neg => "-"
  | .not => "!"

/-- An operator as it is written, without the spaces around it. -/
def InfixOp.symbol : InfixOp → String
  | .assign => "="
  | .add => "+"
  | .sub => "-"
  | .mul => "*"
  | .div => "/"
  | .less => "<"
  | .greater => ">"
  | .equal => "=="
  | .notEqual => "!="

/-- A parameter of a function; a variadic one takes all arguments that are left, as an array. -/
structure Param where
  name : String
  variadic : Bool
  deriving DecidableEq, Repr, Inhabited

mutual

/-- What has a value.  A conditional and a function literal are expressions, and hold blocks. -/
inductive Expr where
  | ident (name : String)
  | integer (value : Int64)
  | string (value : String)
  | boolean (value : Bool)
  | unary (op : PrefixOp) (operand : Expr)
  | binary (op : InfixOp) (left right : Expr)
  | call (callee : Expr) (args : List Expr)
  | index (container key : Expr)
  | array (elements : List Expr)
  | hash (pairs : List (Expr × Expr))
  | function (params : List Param) (body : List Statement)
  /-- The clauses of an `if` are conditions with the block that each of them guards. -/
  | conditional (clauses : List (Expr × List Statement)) (alternative : Option (List Statement))

/-- What stands in a program or a block. -/
inductive Statement where
  | bind (name : String) (value : Expr)
  | ret (value : Expr)
  | expr (value : Expr)
  | block (body : List Statement)
  | loop (init : Option Statement) (condition step : Option Expr) (body : List Statement)

end

/-- The statements between two braces, or a single one that stands in their place. -/
abbrev Block := List Statement

/-- A condition of an `if` and the block it guards. -/
abbrev Clause := Expr × Block

abbrev Program := List Statement

instance : Inhabited Expr := ⟨.boolean false⟩

instance : Inhabited Statement := ⟨.block []⟩

end Scriptlet
