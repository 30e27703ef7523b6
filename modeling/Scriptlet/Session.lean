import Scriptlet.Run

/-!
# Session — one source after another

A session keeps a global scope: what one source binds there, the next one sees.
-/

namespace Scriptlet

/-- A store with a scope for globals in it, and the limits that sources are run under. -/
structure Session where
  limits : Limits
  store : Store
  globals : ScopeId
  deriving Inhabited

namespace Session

/-- A session with an empty global scope. -/
def new (limits : Limits) : Session :=
  ⟨limits, Store.empty.addScope none, Store.empty.nextScope⟩

/-- The value of a global name. -/
def get? (s : Session) (name : String) : Option Value := s.store.get? s.globals name

/-- Bind a global name. -/
def define (s : Session) (name : String) (value : Value) : Except RuntimeError Session :=
  (s.store.define s.globals name value).map fun store => { s with store }

/-- Change the value of a global name. -/
def assign (s : Session) (name : String) (value : Value) : Except RuntimeError Session :=
  (s.store.assign s.globals name value).map fun store => { s with store }

/-- Read and evaluate a source.  Parse errors are reported and nothing is evaluated; an error of the
evaluation is a value. -/
def eval (s : Session) (fuel : Nat) (source : String) :
    Option (Except (List ParseError) Value × Session) :=
  (evalSource s.limits fuel s.globals source s.store).map fun (result, store) =>
    (result, { s with store })

/-- Read and evaluate a source under limits of its own, with one kind of failure. -/
def run (s : Session) (limits : Limits) (fuel : Nat) (source : String) :
    Option (Except Failure Value × Session) :=
  (Scriptlet.run limits fuel s.globals source s.store).map fun (result, store) =>
    (result, { s with store })

end Session

end Scriptlet
