import Scriptlet.RuntimeError

/-!
# Value/Builtin — the built-in functions

None of them changes its argument: an array with one element more or less is a new array.
-/

namespace Scriptlet.Builtin

/-- The number of arguments that a built-in takes. -/
def arity : Builtin → Nat
  | push => 2
  | _ => 1

/-- An element that may be missing because the array is empty. -/
def element (e : Option Value) : Except RuntimeError Value :=
  match e with
  | some v => .ok v
  | none => .error .emptyArray

/-- An array made from `elements` by taking one away, under the identity `fresh`. -/
def shortened (fresh : Identity) (elements : List Value) (remaining : List Value) :
    Except RuntimeError Value :=
  if elements.isEmpty then .error .emptyArray else .ok (.array fresh remaining)

/-- The result of a call; an array that is made by it has the identity `fresh`. -/
def call (b : Builtin) (fresh : Identity) (args : List Value) : Except RuntimeError Value :=
  if args.length ≠ b.arity then
    .error (.wrongArgumentCount b.arity args.length)
  else
    match b, args with
    | .len, .string s :: _ => .ok (.integer (Int64.ofNat s.length))
    | .len, .array _ es :: _ => .ok (.integer (Int64.ofNat es.length))
    | .first, .array _ es :: _ => element es.head?
    | .last, .array _ es :: _ => element es.getLast?
    | .rest, .array _ es :: _ => shortened fresh es es.tail
    | .pop, .array _ es :: _ => shortened fresh es es.dropLast
    | .push, .array _ es :: added => .ok (.array fresh (es ++ added))
    | b, v :: _ => .error (.unsupportedArgument b v.kind)
    | b, [] => .error (.wrongArgumentCount b.arity 0)

end Scriptlet.Builtin
