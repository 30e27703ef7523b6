import Scriptlet.RuntimeError

/-!
# Store/Basic — scopes and the names they bind

A scope binds names to values and may have an outer scope, in which a name is looked up when the
scope itself does not bind it.  Scopes are never removed, so a place in the store names one scope
for ever, and everything that holds the place sees the same bindings.

An outer scope is older than the scopes inside it, so a chain of outer scopes comes to an end: from
place `i`, after at most `i + 1` scopes.
-/

namespace Scriptlet

/-- One scope: its names, and the scope around it. -/
structure Scope where
  outer : Option ScopeId
  /-- One pair for each name, the newest name first. -/
  bindings : List (String × Value)
  deriving Inhabited

namespace Scope

/-- The value of a name in this very scope. -/
def get? (s : Scope) (name : String) : Option Value := s.bindings.lookup name

/-- Whether the scope itself binds the name; its outer scopes are not asked. -/
def binds (s : Scope) (name : String) : Bool := (s.get? name).isSome

/-- Add a name that is not bound yet. -/
def add (s : Scope) (name : String) (value : Value) : Scope :=
  { s with bindings := (name, value) :: s.bindings }

/-- Change the value of a name, if it is bound. -/
def set (s : Scope) (name : String) (value : Value) : Scope :=
  { s with bindings := s.bindings.map fun b => if b.1 = name then (name, value) else b }

end Scope

/-- All scopes that have been made, each at its place. -/
structure Store where
  scopes : Array Scope
  /-- The next identity to give out. -/
  nextId : Identity
  deriving Inhabited

namespace Store

/-- The store with no scope yet. -/
def empty : Store := ⟨#[], 0⟩

/-! ## New scopes and new identities -/

/-- The place that the next scope will have. -/
def nextScope (s : Store) : ScopeId := s.scopes.size

/-- Add an empty scope at the place `nextScope`. -/
def addScope (s : Store) (outer : Option ScopeId) : Store :=
  { s with scopes := s.scopes.push ⟨outer, []⟩ }

/-- Give out the identity `nextId`. -/
def spendId (s : Store) : Store := { s with nextId := s.nextId + 1 }

/-! ## Looking up

The outer scopes of a scope are older than it, so a search with as many steps as there are scopes
always comes to the end of them. -/

/-- The scope at a place itself binds the name. -/
def owns (s : Store) (scope : ScopeId) (name : String) : Bool :=
  match s.scopes[scope]? with
  | some content => content.binds name
  | none => false

/-- The first scope that binds the name, among the first `n` of the chain that starts at a place. -/
def resolveWithin (s : Store) (name : String) : (n : Nat) → ScopeId → Option ScopeId
  | 0, _ => none
  | n + 1, scope =>
    match s.scopes[scope]? with
    | none => none
    | some content =>
      if content.binds name then some scope
      else content.outer.bind (resolveWithin s name n)

/-- The first scope that binds the name, on the chain that starts at a place. -/
def resolve (s : Store) (scope : ScopeId) (name : String) : Option ScopeId :=
  s.resolveWithin name (scope + 1) scope

/-- The value of a name, seen from a scope. -/
def get? (s : Store) (scope : ScopeId) (name : String) : Option Value := do
  let home ← s.resolve scope name
  let content ← s.scopes[home]?
  content.get? name

/-! ## Binding -/

/-- Add a name to a scope that does not bind it. -/
def bind (s : Store) (scope : ScopeId) (name : String) (value : Value) : Store :=
  { s with scopes := s.scopes.modify scope (·.add name value) }

/-- Change the value of a name in a scope that binds it. -/
def set (s : Store) (scope : ScopeId) (name : String) (value : Value) : Store :=
  { s with scopes := s.scopes.modify scope (·.set name value) }

/-- Bind a name in the scope itself, once; it shadows a binding further out. -/
def define (s : Store) (scope : ScopeId) (name : String) (value : Value) :
    Except RuntimeError Store :=
  if s.owns scope name then .error (.alreadyDefined name) else .ok (s.bind scope name value)

/-- Change the value of a name where it is bound. -/
def assign (s : Store) (scope : ScopeId) (name : String) (value : Value) :
    Except RuntimeError Store :=
  match s.resolve scope name with
  | none => .error (.unknownIdentifier name)
  | some home => .ok (s.set home name value)

end Store

end Scriptlet
