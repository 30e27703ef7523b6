import Scriptlet.Value.Basic
import Scriptlet.Syntax.Printer

/-!
# Value/Printer — values as text

A string shows itself as it is, and quoted wherever it is a part of something.  The entries of a
hash are put in the order of their texts, so their own order does not show.
-/

namespace Scriptlet

mutual

/-- The text of a value as a part of an array or a hash. -/
def Value.inspect : Value → String
  | .integer n => toString n.toInt
  | .boolean b => if b then "true" else "false"
  | .string s => Text.quote s
  | .null => "null"
  | .array _ es => "[" ++ separated ", " (inspectElements es) ++ "]"
  | .hash _ entries =>
    "\x7b" ++ separated ", " ((inspectEntries entries).mergeSort fun a b => a ≤ b) ++ "\x7d"
  | .function _ params body _ => (Expr.function params body).render
  | .builtin b => "builtin function " ++ b.name
  | .error message => "ERROR: " ++ message

/-- One text for each element. -/
def inspectElements : List Value → List String
  | [] => []
  | v :: vs => v.inspect :: inspectElements vs

/-- An entry shows the value that it was given as its key. -/
def inspectEntries : List (HashKey × HashPair Value) → List String
  | [] => []
  | (_, ⟨k, v⟩) :: entries => (k.inspect ++ ": " ++ v.inspect) :: inspectEntries entries

end

/-- The text of a value by itself. -/
def Value.render : Value → String
  | .string s => s
  | v => v.inspect

/-- The text of a value together with its kind. -/
def Value.describe : Value → String
  | .string s => "String(" ++ Text.quote s ++ ")"
  | .error message => "Error(" ++ Text.quote message ++ ")"
  | v => v.kind.label ++ "(" ++ v.render ++ ")"

end Scriptlet
