import Scriptlet.Store.Basic

/-!
# Eval/Machine — computations on a machine

An evaluation works on a machine, which is the store and the number of active calls.  It ends with a
value, or it is unwound: by a return up to the call it belongs to, by an error up to the program.
Evaluation need not end; a computation is given fuel, and `outOfFuel` says that this was not enough.
-/

namespace Scriptlet

/-- How much the host allows a program to do. -/
structure Limits where
  /-- The number of calls that may be active at once. -/
  maxDepth : Nat := 256
  /-- The number of times that one loop may run its body. -/
  maxIterations : Option Nat := none
  deriving DecidableEq, Repr, Inhabited

/-- What an evaluation works on. -/
structure Machine where
  store : Store
  /-- The number of active calls of functions of the program. -/
  depth : Nat
  deriving Inhabited

/-- Why a computation ends early. -/
inductive Unwind where
  | returned (value : Value)
  | failed (error : RuntimeError)
  deriving Inhabited

/-- How a computation ends.  Both ends but running out of fuel leave a machine. -/
inductive Outcome (α : Type) where
  | done (a : α) (m : Machine)
  | unwound (why : Unwind) (m : Machine)
  | outOfFuel

/-- A computation on a machine. -/
def Eval (α : Type) : Type := Machine → Outcome α

namespace Eval

variable {α β : Type}

@[always_inline]
instance : Monad Eval where
  pure a := fun m => .done a m
  bind x f := fun m =>
    match x m with
    | .done a m => f a m
    | .unwound why m => .unwound why m
    | .outOfFuel => .outOfFuel

/-- A value needs no work. -/
theorem pure_apply (a : α) (m : Machine) : (pure a : Eval α) m = .done a m := rfl

/-- What follows is run on the machine that the first computation left, and not at all if that was
unwound or out of fuel. -/
theorem bind_apply (x : Eval α) (f : α → Eval β) (m : Machine) :
    (x >>= f) m = match x m with
      | .done a m => f a m
      | .unwound why m => .unwound why m
      | .outOfFuel => .outOfFuel := rfl

instance : LawfulMonad Eval :=
  LawfulMonad.mk' Eval
    (fun x => by
      funext m
      show (x >>= pure) m = x m
      rw [bind_apply]
      cases x m <;> rfl)
    (fun _ _ => rfl)
    (fun x f g => by
      funext m
      simp only [bind_apply]
      cases x m <;> rfl)

/-! ## Ends -/

/-- No answer within the fuel given. -/
def outOfFuel : Eval α := fun _ => .outOfFuel

/-- End with an error. -/
def fail (e : RuntimeError) : Eval α := fun m => .unwound (.failed e) m

/-- Return from the active call. -/
def ret (v : Value) : Eval α := fun m => .unwound (.returned v) m

/-- The result of an operation, or its error. -/
def ofExcept (r : Except RuntimeError α) : Eval α :=
  match r with
  | .ok a => pure a
  | .error e => fail e

/-- A value that a binding needs: an empty result will not do. -/
def required (x : Eval (Option Value)) : Eval Value := do
  match ← x with
  | some v => return v
  | none => fail .emptyAssignment

/-- A value that an operation works on: an empty result counts as null. -/
def operand (x : Eval (Option Value)) : Eval Value := do
  return (← x).getD .null

/-! ## The store

Each step of evaluation that touches the store is one of these; expressions and statements are put
together from them and never look into the store themselves. -/

/-- A new identity. -/
def fresh : Eval Identity := fun m => .done m.store.nextId { m with store := m.store.spendId }

/-- A new scope inside `outer`. -/
def enclose (outer : ScopeId) : Eval ScopeId := fun m =>
  .done m.store.nextScope { m with store := m.store.addScope (some outer) }

/-- The value of a name, or else the built-in of that name. -/
def lookup (scope : ScopeId) (name : String) : Eval Value := fun m =>
  match m.store.get? scope name with
  | some v => .done v m
  | none =>
    match Builtin.ofName? name with
    | some b => .done (.builtin b) m
    | none => .unwound (.failed (.unknownIdentifier name)) m

/-- Bind a name in the scope itself. -/
def define (scope : ScopeId) (name : String) (value : Value) : Eval Unit := fun m =>
  if m.store.owns scope name then .unwound (.failed (.alreadyDefined name)) m
  else .done () { m with store := m.store.bind scope name value }

/-- Change the value of a name where it is bound. -/
def assign (scope : ScopeId) (name : String) (value : Value) : Eval Unit := fun m =>
  match m.store.resolve scope name with
  | none => .unwound (.failed (.unknownIdentifier name)) m
  | some home => .done () { m with store := m.store.set home name value }

/-- `define` does to the store of the machine what `Store.define` does. -/
theorem define_apply (scope : ScopeId) (name : String) (value : Value) (m : Machine) :
    define scope name value m = match m.store.define scope name value with
      | .ok store => .done () { m with store }
      | .error e => .unwound (.failed e) m := by
  unfold define Store.define
  split <;> rfl

/-- `assign` does to the store of the machine what `Store.assign` does. -/
theorem assign_apply (scope : ScopeId) (name : String) (value : Value) (m : Machine) :
    assign scope name value m = match m.store.assign scope name value with
      | .ok store => .done () { m with store }
      | .error e => .unwound (.failed e) m := by
  unfold assign Store.assign
  split <;> simp_all

/-! ## Calls -/

/-- The number of active calls. -/
def depth : Eval Nat := fun m => .done m.depth m

/-- Run `x` as one more active call, which ends together with `x`, however that ends. -/
def nested (x : Eval α) : Eval α := fun m =>
  match x { m with depth := m.depth + 1 } with
  | .done a m => .done a { m with depth := m.depth - 1 }
  | .unwound why m => .unwound why { m with depth := m.depth - 1 }
  | .outOfFuel => .outOfFuel

/-- A return inside `x` is the result of `x`. -/
def catchReturn (x : Eval (Option Value)) : Eval (Option Value) := fun m =>
  match x m with
  | .unwound (.returned v) m => .done (some v) m
  | outcome => outcome

end Eval

end Scriptlet
