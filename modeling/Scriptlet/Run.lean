import Scriptlet.Syntax.Parser
import Scriptlet.Eval.Basic

/-!
# Run — from source text to value

`evalSource` reads a program and evaluates it; with parse errors nothing is evaluated.  `run` does
the same for a host that wants one kind of failure, whether it was noticed in reading or in
evaluation.
-/

namespace Scriptlet

/-- Read a program and evaluate it in a scope, with no call active. -/
def evalSource (limits : Limits) (fuel : Nat) (scope : ScopeId) (source : String) (store : Store) :
    Option (Except (List ParseError) Value × Store) :=
  let parsed := parse source
  if parsed.errors.isEmpty then
    (Program.eval limits fuel scope parsed.program ⟨store, 0⟩).map fun (v, m) => (.ok v, m.store)
  else
    some (.error parsed.errors, store)

section

variable {source : String}

/-- A source without errors is evaluated. -/
theorem evalSource_of_read (h : (parse source).errors = []) (limits : Limits) (fuel : Nat)
    (scope : ScopeId) (store : Store) : evalSource limits fuel scope source store =
      (Program.eval limits fuel scope (parse source).program ⟨store, 0⟩).map
        fun (v, m) => (.ok v, m.store) :=
  if_pos (List.isEmpty_iff.mpr h)

/-- With errors in the source nothing happens to the store. -/
theorem evalSource_of_errors (h : (parse source).errors ≠ []) (limits : Limits) (fuel : Nat)
    (scope : ScopeId) (store : Store) :
    evalSource limits fuel scope source store = some (.error (parse source).errors, store) :=
  if_neg fun hempty => h (List.isEmpty_iff.mp hempty)

end

/-- Why a source has no value. -/
inductive Failure where
  | parse (errors : List ParseError)
  | runtime (message : String)
  deriving DecidableEq, Repr, Inhabited

namespace Failure

/-- The failure in one line: of several parse errors, the first one and the number of the others. -/
def message : Failure → String
  | parse [] => "parse failed"
  | parse [only] => only.message
  | parse (first :: others) =>
    first.message ++ " (and " ++ toString others.length ++ " more)"
  | runtime message => message

/-- All messages, in the order in which they came up. -/
def messages : Failure → List String
  | parse errors => errors.map ParseError.message
  | runtime message => [message]

end Failure

/-- Read a program and evaluate it in a scope; an error value as its result is a failure. -/
def run (limits : Limits) (fuel : Nat) (scope : ScopeId) (source : String) (store : Store) :
    Option (Except Failure Value × Store) :=
  (evalSource limits fuel scope source store).map fun
    | (.error errors, store) => (.error (.parse errors), store)
    | (.ok (.error message), store) => (.error (.runtime message), store)
    | (.ok v, store) => (.ok v, store)

end Scriptlet
