import Scriptlet.Eval.Machine
import Scriptlet.Value.Operators
import Scriptlet.Value.Builtin

/-!
# Eval/Basic — what programs mean

Statements and expressions are evaluated in a scope.  The result may be empty: a binding, a loop and
an empty block have no value.  A block runs in a new scope of its own; the header of a loop runs in
the scope around it, so what it binds is still there after the loop.

Fuel bounds how deep evaluation goes, calls included, and how often each loop runs.  It decides only
whether there is an answer, not which.
-/

namespace Scriptlet

namespace Eval

/-! ## Statements in a row, choices and loops

These take the evaluation of their parts as arguments, so that the recursion of the evaluator is in
one place and facts about them can be shown for whatever parts they have. -/

/-- Run statements one after another; the result is that of the last one, or `last` for none. -/
def sequence (run : Statement → Eval (Option Value)) :
    Block → (last : Option Value) → Eval (Option Value)
  | [], last => return last
  | s :: ss, _ => do
    let last ← run s
    sequence run ss last

/-- Run the block of the first clause whose condition holds, or else the alternative. -/
def choose (test : Expr → Eval Value) (run : Block → Eval (Option Value)) :
    List Clause → Option Block → Eval (Option Value)
  | [], none => return some .null
  | [], some alternative => run alternative
  | (condition, body) :: clauses, alternative => do
    if (← test condition).truthy then
      run body
    else
      choose test run clauses alternative

/-- One round more is due when `finished` rounds are over; the limit strikes if that is too many. -/
def allowRound (limit : Option Nat) (finished : Nat) : Eval Unit :=
  match limit with
  | some most => if most ≤ finished then fail (.iterationLimit most) else return ()
  | none => return ()

/-- Repeat `body` and `step` while `test` holds; `finished` counts the rounds that are over. -/
def repeatWhile (limit : Option Nat) (test : Eval Bool) (body step : Eval (Option Value)) :
    (fuel : Nat) → (finished : Nat) → Eval Unit
  | 0, _ => outOfFuel
  | n + 1, finished => do
    if ← test then
      allowRound limit finished
      let _ ← body
      let _ ← step
      repeatWhile limit test body step n (finished + 1)
    else
      return ()

/-! ## Literals -/

/-- Values for a list of expressions, in order. -/
def values (value : Expr → Eval Value) : List Expr → Eval (List Value)
  | [] => return []
  | e :: es => do
    let first ← value e
    let others ← values value es
    return first :: others

/-- The entries of a hash literal, put into `entries` one after another.  That a value can be a key
is asked before the value beside it is evaluated. -/
def entries (value : Expr → Eval Value) :
    List (Expr × Expr) → (entries : List HashEntry) → Eval (List HashEntry)
  | [], entries => return entries
  | (keyExpr, valueExpr) :: pairs, entries => do
    let key ← value keyExpr
    let hashKey ← ofExcept key.toHashKey
    let v ← value valueExpr
    Eval.entries value pairs (insertPair hashKey ⟨key, v⟩ entries)

/-! ## Calls -/

/-- Bind parameters to arguments in a scope.  A variadic parameter at the end takes all that is
left. -/
def bindParams (scope : ScopeId) : List Param → List Value → Eval Unit
  | [], _ => return ()
  | p :: ps, args => do
    if p.variadic && ps.isEmpty then
      define scope p.name (.array (← fresh) args)
    else
      define scope p.name (args.headD .null)
      bindParams scope ps args.tail

/-- The function takes this number of arguments. -/
def accepts (params : List Param) (count : Nat) : Bool :=
  if params.getLast?.any (·.variadic) then params.length ≤ count + 1 else count = params.length

/-- The scope of a call: inside the scope that the function was made in, with the parameters. -/
def callScope (params : List Param) (captured : ScopeId) (args : List Value) : Eval ScopeId := do
  if accepts params args.length then
    let scope ← enclose captured
    bindParams scope params args
    return scope
  else
    fail (.wrongArgumentCount params.length args.length)

/-- Call a value with arguments; `run` evaluates the body of a function in the scope of the call. -/
def call (limits : Limits) (run : ScopeId → Block → Eval (Option Value)) (callee : Value)
    (args : List Value) : Eval (Option Value) :=
  match callee with
  | .function _ params body captured => do
    if limits.maxDepth ≤ (← depth) then
      fail (.stackOverflow limits.maxDepth)
    else
      let scope ← callScope params captured args
      catchReturn (nested (run scope body))
  | .builtin b => do
    let id ← fresh
    return some (← ofExcept (b.call id args))
  | v => fail (.notAFunction v.kind)

end Eval

/-- Only the last parameter may be variadic. -/
def variadicLast (params : List Param) : Bool := !params.dropLast.any (·.variadic)

open Eval

mutual

/-- Evaluate an expression in a scope. -/
def Expr.eval (limits : Limits) (fuel : Nat) (scope : ScopeId) (e : Expr) : Eval (Option Value) :=
  match fuel with
  | 0 => outOfFuel
  | n + 1 =>
    match e with
    | .integer v => return some (.integer v)
    | .boolean b => return some (.boolean b)
    | .string s => return some (.string s)
    | .ident x => return some (← lookup scope x)
    | .unary op e => do
      let v ← operand (Expr.eval limits n scope e)
      return some (← ofExcept (op.apply v))
    | .binary .assign target e =>
      match target with
      | .ident x => do
        let v ← required (Expr.eval limits n scope e)
        assign scope x v
        return some v
      | _ => fail .invalidAssignTarget
    | .binary op l r => do
      let left ← operand (Expr.eval limits n scope l)
      let right ← operand (Expr.eval limits n scope r)
      return some (← ofExcept (op.apply left right))
    | .conditional clauses alternative =>
      choose (fun c => operand (Expr.eval limits n scope c))
        (fun b => do
          let inner ← enclose scope
          sequence (fun s => Statement.eval limits n inner s) b none)
        clauses alternative
    | .function params body => do
      if variadicLast params then
        return some (.function (← fresh) params body scope)
      else
        fail .misplacedVariadic
    | .call f args => do
      let callee ← operand (Expr.eval limits n scope f)
      let vs ← values (fun a => operand (Expr.eval limits n scope a)) args
      call limits (fun inner b => sequence (fun s => Statement.eval limits n inner s) b none)
        callee vs
    | .array es => do
      let vs ← values (fun a => operand (Expr.eval limits n scope a)) es
      return some (.array (← fresh) vs)
    | .hash ps => do
      let es ← entries (fun a => operand (Expr.eval limits n scope a)) ps []
      return some (.hash (← fresh) es)
    | .index e k => do
      let container ← operand (Expr.eval limits n scope e)
      let key ← operand (Expr.eval limits n scope k)
      return some (← ofExcept (container.index key))

/-- Evaluate a statement in a scope. -/
def Statement.eval (limits : Limits) (fuel : Nat) (scope : ScopeId) (s : Statement) :
    Eval (Option Value) :=
  match fuel with
  | 0 => outOfFuel
  | n + 1 =>
    match s with
    | .bind x e => do
      let v ← required (Expr.eval limits n scope e)
      define scope x v
      return none
    | .ret e => do
      ret (← operand (Expr.eval limits n scope e))
    | .expr e => Expr.eval limits n scope e
    | .block b => do
      let inner ← enclose scope
      sequence (fun s => Statement.eval limits n inner s) b none
    | .loop init condition step body => do
      match init with
      | some s =>
        let _ ← Statement.eval limits n scope s
      | none => pure ()
      repeatWhile limits.maxIterations
        (match condition with
          | some c => do return (← operand (Expr.eval limits n scope c)).truthy
          | none => return true)
        (do
          let inner ← enclose scope
          sequence (fun s => Statement.eval limits n inner s) body none)
        (match step with
          | some e => Expr.eval limits n scope e
          | none => return none)
        n 0
      return none

end

/-- Run the statements of a program in a scope. -/
def Program.run (limits : Limits) (fuel : Nat) (scope : ScopeId) (p : Program) :
    Eval (Option Value) :=
  Eval.sequence (Statement.eval limits fuel scope) p none

/-- Evaluate a program in a scope.  The result is that of its last statement, null for an empty one;
the value of a return outside of all functions; or the error that ended the evaluation.  There is
none if the fuel does not suffice. -/
def Program.eval (limits : Limits) (fuel : Nat) (scope : ScopeId) (p : Program) (m : Machine) :
    Option (Value × Machine) :=
  match Program.run limits fuel scope p m with
  | .done v m => some (v.getD .null, m)
  | .unwound (.returned v) m => some (v, m)
  | .unwound (.failed e) m => some (.error e.message, m)
  | .outOfFuel => none

end Scriptlet
