import Mathlib.Logic.Equiv.Basic
import Scriptlet.Proofs.Eval.Limits
import Scriptlet.Proofs.Store.Relabel

/-!
# Proofs/Eval/Equivariance — names do not matter

Evaluation asks of two names whether they are equal, and of one name whether a built-in has it.  So
if all names are replaced, in the program and in the store, such that different names stay different
and built-ins keep theirs, then evaluation does the same under the new names: each of its steps
**commutes** with the replacement, and so does the whole of it.
-/

namespace Scriptlet

variable {α β γ δ : Type} (r : String → String)

/-- The machine with the names in its store replaced. -/
def Machine.relabel (m : Machine) : Machine := { m with store := m.store.relabel r }

/-- What unwinds: a value with its functions under other names, or an error about another name. -/
def Unwind.relabel : Unwind → Unwind
  | .returned v => .returned (v.relabel r)
  | .failed e => .failed (e.relabel r)

/-- The outcome with its names replaced; `g` does that in what was computed. -/
def Outcome.relabel (g : α → β) : Outcome α → Outcome β
  | .done a m => .done (g a) (m.relabel r)
  | .unwound why m => .unwound (why.relabel r) (m.relabel r)
  | .outOfFuel => .outOfFuel

/-- The result of an expression or a statement with its names replaced. -/
def relabelResult : Option Value → Option Value := Option.map (Value.relabel r)

/-- On a machine with its names replaced, `y` ends as `x` does, with the names replaced. -/
def Commutes (g : α → β) (x : Eval α) (y : Eval β) : Prop :=
  ∀ m, y (m.relabel r) = (x m).relabel r g

variable {r}

namespace Commutes

open Eval

variable {g : α → β} {h : γ → δ}

/-! ## Steps and their order

A computation commutes with the replacement if it makes no difference whether names are replaced
before it or after it. -/

/-! Steps that do not see names commute by definition, and computations put together from such as
commute do so as well. -/

theorem pure (a : α) : Commutes r g (pure a) (pure (g a)) := fun _ => rfl

theorem ret (v : Value) : Commutes r g (ret v) (ret (v.relabel r)) := fun _ => rfl

theorem outOfFuel : Commutes r g Eval.outOfFuel Eval.outOfFuel := fun _ => rfl

theorem fail {e : RuntimeError} (he : e.name? = none) : Commutes r g (fail e) (fail e) := by
  intro m
  rw [Eval.fail, Eval.fail, Outcome.relabel, Unwind.relabel, e.relabel_of_name? r he]

/-- **Two computations in a row.** -/
theorem bind {x : Eval α} {y : Eval β} {f : α → Eval γ} {f' : β → Eval δ}
    (hxy : Commutes r g x y) (hf : ∀ a, Commutes r h (f a) (f' (g a))) :
    Commutes r h (x >>= f) (y >>= f') := by
  intro m
  rw [bind_apply, bind_apply, hxy m]
  cases x m with
  | done a m' => exact hf a m'
  | unwound why m' => rfl
  | outOfFuel => rfl

/-- Errors of operations on values are about no name. -/
theorem ofExcept {x : Except RuntimeError α} (hx : ∀ e, x = .error e → e.isOfValues) :
    Commutes r g (ofExcept x) (ofExcept (x.map g)) := by
  cases x with
  | ok a => exact pure a
  | error e => exact fail (RuntimeError.name?_of_isOfValues (hx e rfl))

theorem some {x y : Eval Value} (hxy : Commutes r (Value.relabel r) x y) :
    Commutes r (relabelResult r) (do return some (← x)) (do return some (← y)) :=
  hxy.bind fun v => pure (Option.some v)

/-- Only whether there is a result counts. -/
theorem required {x y : Eval (Option Value)} (hxy : Commutes r (relabelResult r) x y) :
    Commutes r (Value.relabel r) (required x) (required y) := by
  refine bind hxy fun v => ?_
  cases v with
  | none => exact fail rfl
  | some v => exact pure v

/-- Null is not changed. -/
theorem operand {x y : Eval (Option Value)} (hxy : Commutes r (relabelResult r) x y) :
    Commutes r (Value.relabel r) (operand x) (operand y) := by
  refine bind hxy fun v => ?_
  cases v with
  | none => exact pure Value.null
  | some v => exact pure v

/-! ## The store -/

/-! Identities and the number of active calls have no names in them; a scope has, and so names must
stay different. -/

theorem fresh : Commutes r id Eval.fresh Eval.fresh := fun _ => rfl

theorem depth : Commutes r id Eval.depth Eval.depth := fun _ => rfl

/-- A new scope has no names yet. -/
theorem enclose (i : ScopeId) : Commutes r id (enclose i) (enclose i) := by
  intro m
  simp only [Eval.enclose, Machine.relabel, Outcome.relabel, Store.nextScope_relabel,
    Store.addScope_relabel, id_eq]

section

variable (hr : Function.Injective r)
include hr

/-- **A name is looked up under its new name**, in the scopes first and among the built-ins then;
there it is the same. -/
theorem lookup (hb : ∀ b : Builtin, r b.name = b.name) (i : ScopeId) (x : String) :
    Commutes r (Value.relabel r) (Eval.lookup i x) (Eval.lookup i (r x)) := by
  have hname : Builtin.ofName? (r x) = Builtin.ofName? x := by
    refine congrArg (List.find? · Builtin.all) (funext fun b => ?_)
    rw [← hb b, hr.beq_eq, hb b]
  intro m
  simp only [Eval.lookup, Machine.relabel, Store.get?_relabel hr]
  cases m.store.get? i x with
  | some v => rfl
  | none =>
    simp only [Option.map_none, hname]
    cases Builtin.ofName? x <;> rfl

/-- A name is bound under its new name, unless that is bound already. -/
theorem define (i : ScopeId) (x : String) (v : Value) :
    Commutes r id (define i x v) (define i (r x) (v.relabel r)) := by
  intro m
  simp only [Eval.define, Machine.relabel, Store.owns_relabel hr, Store.bind_relabel]
  split <;> rfl

/-- A name is changed under its new name, in the same scope. -/
theorem assign (i : ScopeId) (x : String) (v : Value) :
    Commutes r id (Eval.assign i x v) (Eval.assign i (r x) (v.relabel r)) := by
  intro m
  simp only [Eval.assign, Machine.relabel, Store.resolve_relabel hr, Store.set_relabel hr]
  cases m.store.resolve i x <;> rfl

end

/-! ## Calls

Parameters are names as well, so they are replaced along with the body that they are used in. -/

/-- Calls are counted alike. -/
theorem nested {x : Eval α} {y : Eval β} (hxy : Commutes r g x y) :
    Commutes r g (nested x) (nested y) := by
  intro m
  have hm := hxy { m with depth := m.depth + 1 }
  simp only [Eval.nested, Machine.relabel] at hm ⊢
  rw [hm]
  cases x _ <;> rfl

/-- A return is caught, with its value under other names. -/
theorem catchReturn {x y : Eval (Option Value)} (hxy : Commutes r (relabelResult r) x y) :
    Commutes r (relabelResult r) (catchReturn x) (catchReturn y) := by
  intro m
  simp only [Eval.catchReturn, hxy m]
  cases x m with
  | unwound why m' => cases why <;> rfl
  | _ => rfl

/-- Parameters are bound under their new names to the arguments. -/
theorem bindParams (hr : Function.Injective r) (i : ScopeId) (ps : List Param)
    (args : List Value) :
    Commutes r id (bindParams i ps args)
      (bindParams i (ps.map (Param.relabel r)) (args.map (Value.relabel r))) := by
  induction ps generalizing args with
  | nil => exact pure ()
  | cons p ps ih =>
    have hhead : (args.map (Value.relabel r)).headD .null = (args.headD .null).relabel r := by
      cases args <;> rfl
    have hrest : Commutes r id
        (do Eval.define i p.name (args.headD .null); Eval.bindParams i ps args.tail)
        (do Eval.define i (r p.name) ((args.map (Value.relabel r)).headD .null)
            Eval.bindParams i (ps.map (Param.relabel r)) (args.map (Value.relabel r)).tail) := by
      rw [hhead, ← List.map_tail]
      exact bind (define hr i p.name _) fun _ => ih args.tail
    simp only [List.map_cons, Eval.bindParams, List.isEmpty_map]
    show Commutes r id _ (if p.variadic && ps.isEmpty then _ else _)
    split
    · refine bind fresh fun id => ?_
      have hdef := define hr i p.name (.array id args)
      rwa [Value.relabel_array] at hdef
    · exact hrest

/-- So the scope of a call is made under other names. -/
theorem callScope (hr : Function.Injective r) (ps : List Param) (i : ScopeId) (args : List Value) :
    Commutes r id (callScope ps i args)
      (callScope (ps.map (Param.relabel r)) i (args.map (Value.relabel r))) := by
  simp only [Eval.callScope, List.length_map, accepts_relabel]
  split
  · exact bind (enclose i) fun j => bind (bindParams hr j ps args) fun _ => pure j
  · exact fail rfl

/-- **A call** under other names runs the body of the function under other names. -/
theorem call (hr : Function.Injective r) (limits : Limits)
    {run run' : ScopeId → Block → Eval (Option Value)}
    (hrun : ∀ i b, Commutes r (relabelResult r) (run i b) (run' i (b.relabel r))) (callee : Value)
    (args : List Value) :
    Commutes r (relabelResult r) (call limits run callee args)
      (call limits run' (callee.relabel r) (args.map (Value.relabel r))) := by
  cases callee with
  | function id ps body i =>
    refine bind depth fun d => ?_
    simp only [id_eq]
    split
    · exact fail rfl
    · exact bind (callScope hr ps i args) fun j => (hrun j body).nested.catchReturn
  | builtin b =>
    refine bind fresh fun id => some ?_
    have hcall := b.call_recast (.relabel r) id args
    rw [show args.map (Value.relabel r) = args.map (Value.recast (.relabel r)) from rfl, id_eq,
      hcall]
    exact ofExcept fun e he => Builtin.call_error he
  | array i es =>
    rw [Value.relabel_array]
    exact fail rfl
  | hash i ps =>
    rw [Value.relabel_hash]
    exact fail rfl
  | _ => exact fail rfl

/-! ## Statements in a row, choices and loops

None of these looks at a name. -/

/-- Statements in a row. -/
theorem sequence {run run' : Statement → Eval (Option Value)}
    (hrun : ∀ s, Commutes r (relabelResult r) (run s) (run' (s.relabel r))) (b : Block)
    (last : Option Value) :
    Commutes r (relabelResult r) (sequence run b last)
      (sequence run' (b.relabel r) (relabelResult r last)) := by
  induction b generalizing last with
  | nil => exact pure last
  | cons s b ih => exact bind (hrun s) fun v => ih v

/-- A condition counts the same, so the same branch is chosen. -/
theorem choose {test test' : Expr → Eval Value} {run run' : Block → Eval (Option Value)}
    (htest : ∀ e, Commutes r (Value.relabel r) (test e) (test' (e.relabel r)))
    (hrun : ∀ b, Commutes r (relabelResult r) (run b) (run' (b.relabel r))) (cs : List Clause)
    (alternative : Option Block) :
    Commutes r (relabelResult r) (choose test run cs alternative)
      (choose test' run' (cs.map (Clause.relabel r)) (alternative.map (Block.relabel r))) := by
  induction cs with
  | nil =>
    cases alternative with
    | none => exact pure (Option.some Value.null)
    | some b => exact hrun b
  | cons c cs ih =>
    refine bind (htest c.1) fun v => ?_
    rw [Value.relabel, Value.truthy_recast]
    split
    · exact hrun c.2
    · exact ih

/-- Rounds are counted alike. -/
theorem allowRound (limit : Option Nat) (finished : Nat) :
    Commutes r id (allowRound limit finished) (allowRound limit finished) := by
  unfold Eval.allowRound
  split
  · split
    · exact fail rfl
    · exact pure ()
  · exact pure ()

/-- A loop goes on on both sides, by induction on its fuel. -/
theorem repeatWhile (limit : Option Nat) {test test' : Eval Bool}
    {body body' step step' : Eval (Option Value)} (htest : Commutes r id test test')
    (hbody : Commutes r (relabelResult r) body body')
    (hstep : Commutes r (relabelResult r) step step') (fuel finished : Nat) :
    Commutes r id (repeatWhile limit test body step fuel finished)
      (repeatWhile limit test' body' step' fuel finished) := by
  induction fuel generalizing finished with
  | zero => exact outOfFuel
  | succ n ih =>
    refine bind htest fun holds => ?_
    cases holds with
    | false => exact pure ()
    | true =>
      exact bind (allowRound limit finished) fun _ => bind hbody fun _ => bind hstep fun _ =>
        ih (finished + 1)

/-! ## Literals

A hash has keys but no names in it, and a function literal has its parameters and its body. -/

/-- Elements, one by one. -/
theorem values {value value' : Expr → Eval Value}
    (hvalue : ∀ e, Commutes r (Value.relabel r) (value e) (value' (e.relabel r)))
    (es : List Expr) :
    Commutes r (List.map (Value.relabel r)) (values value es)
      (values value' (es.map (Expr.relabel r))) := by
  induction es with
  | nil => exact pure []
  | cons e es ih => exact bind (hvalue e) fun v => bind ih fun vs => pure (v :: vs)

/-- Entries, one by one; keys have no names in them. -/
theorem entries {value value' : Expr → Eval Value}
    (hvalue : ∀ e, Commutes r (Value.relabel r) (value e) (value' (e.relabel r)))
    (ps : List (Expr × Expr)) (done : List HashEntry) :
    Commutes r (List.map (recastEntry (.relabel r))) (entries value ps done)
      (entries value' (ps.map (Prod.map (Expr.relabel r) (Expr.relabel r)))
        (done.map (recastEntry (.relabel r)))) := by
  induction ps generalizing done with
  | nil => exact pure done
  | cons p ps ih =>
    refine bind (hvalue p.1) fun k => ?_
    rw [Value.relabel, Value.toHashKey_recast]
    have hkey := ofExcept (r := r) (g := id) fun e he => Value.toHashKey_error (v := k) he
    rw [show k.toHashKey.map id = k.toHashKey by cases k.toHashKey <;> rfl] at hkey
    refine bind hkey fun key => bind (hvalue p.2) fun v => ?_
    have hrest := ih (insertPair key ⟨k, v⟩ done)
    rwa [← insertPair_recast] at hrest

end Commutes

/-! ## Evaluation

By induction on the fuel, with one case for each constructor of expressions and of statements. -/

open Eval

/-- Evaluation with this much fuel commutes with the replacement. -/
def EvalCommutes (r : String → String) (limits : Limits) (n : Nat) : Prop :=
  ∀ i, (∀ e : Expr, Commutes r (relabelResult r) (e.eval limits n i)
      ((e.relabel r).eval limits n i)) ∧
    ∀ s : Statement, Commutes r (relabelResult r) (s.eval limits n i)
      ((s.relabel r).eval limits n i)

namespace EvalCommutes

variable {limits : Limits} {n : Nat}

/-- The operand of an expression, with its names replaced. -/
theorem operand (hn : EvalCommutes r limits n) (i : ScopeId) (e : Expr) :
    Commutes r (Value.relabel r) (operand (e.eval limits n i))
      (operand ((e.relabel r).eval limits n i)) :=
  .operand ((hn i).1 e)

theorem body (hn : EvalCommutes r limits n) (i : ScopeId) (b : Block) :
    Commutes r (relabelResult r) (sequence (Statement.eval limits n i) b none)
      (sequence (Statement.eval limits n i) (b.relabel r) none) :=
  .sequence (hn i).2 b none

theorem block (hn : EvalCommutes r limits n) (i : ScopeId) (b : Block) :
    Commutes r (relabelResult r)
      (do let j ← enclose i; sequence (Statement.eval limits n j) b none)
      (do let j ← enclose i; sequence (Statement.eval limits n j) (b.relabel r) none) :=
  .bind (.enclose i) fun j => hn.body j b

/-- A loop after its first clause. -/
theorem rounds (hn : EvalCommutes r limits n) (i : ScopeId) (condition step : Option Expr)
    (b : Block) (fuel : Nat) :
    Commutes r id
      (repeatWhile limits.maxIterations
        (match condition with
          | some c => do return (← Eval.operand (Expr.eval limits n i c)).truthy
          | none => return true)
        (do let j ← enclose i; sequence (Statement.eval limits n j) b none)
        (match step with
          | some e => Expr.eval limits n i e
          | none => return none) fuel 0)
      (repeatWhile limits.maxIterations
        (match condition.map (Expr.relabel r) with
          | some c => do return (← Eval.operand (Expr.eval limits n i c)).truthy
          | none => return true)
        (do let j ← enclose i; sequence (Statement.eval limits n j) (b.relabel r) none)
        (match step.map (Expr.relabel r) with
          | some e => Expr.eval limits n i e
          | none => return none) fuel 0) := by
  refine .repeatWhile limits.maxIterations ?_ (hn.block i b) ?_ fuel 0
  · cases condition with
    | none => exact .pure true
    | some c =>
      refine .bind (hn.operand i c) fun v => ?_
      rw [Value.relabel, Value.truthy_recast]
      exact .pure v.truthy
  · cases step with
    | none => exact .pure none
    | some e => exact (hn i).1 e

variable (hr : Function.Injective r) (hb : ∀ b : Builtin, r b.name = b.name)
include hr

/-- **Statements**, by their form. -/
theorem statement (hn : EvalCommutes r limits n) (i : ScopeId) (s : Statement) :
    Commutes r (relabelResult r) (s.eval limits (n + 1) i)
      ((s.relabel r).eval limits (n + 1) i) := by
  cases s with
  | bind x e =>
    simp only [Statement.relabel, Statement.eval]
    exact .bind (.required ((hn i).1 e)) fun v => .bind (.define hr i x v) fun _ => .pure none
  | ret e =>
    simp only [Statement.relabel, Statement.eval]
    exact .bind (hn.operand i e) fun v => .ret v
  | expr e =>
    simp only [Statement.relabel, Statement.eval]
    exact (hn i).1 e
  | block b =>
    simp only [Statement.relabel, Statement.eval, relabelStatements_eq]
    exact hn.block i b
  | loop init condition step b =>
    simp only [Statement.relabel, Statement.eval, relabelStatements_eq, relabelOption_eq]
    have hrounds := hn.rounds i condition step b n
    cases init with
    | none => exact .bind hrounds fun _ => .pure none
    | some s => exact .bind ((hn i).2 s) fun _ => .bind hrounds fun _ => .pure none

include hb

/-- **Expressions**, by their form. -/
theorem expr (hn : EvalCommutes r limits n) (i : ScopeId) (e : Expr) :
    Commutes r (relabelResult r) (e.eval limits (n + 1) i)
      ((e.relabel r).eval limits (n + 1) i) := by
  -- Each form is put together in the same way on both sides, from parts that commute by the
  -- hypothesis about less fuel.
  cases e with
  | integer k =>
    simp only [Expr.relabel, Expr.eval]
    exact .pure (some (Value.integer k))
  | string x =>
    simp only [Expr.relabel, Expr.eval]
    exact .pure (some (Value.string x))
  | boolean b =>
    simp only [Expr.relabel, Expr.eval]
    exact .pure (some (Value.boolean b))
  | ident x =>
    simp only [Expr.relabel, Expr.eval]
    exact .some (.lookup hr hb i x)
  | unary op e =>
    simp only [Expr.relabel, Expr.eval]
    refine .bind (hn.operand i e) fun v => .some ?_
    rw [Value.relabel, op.apply_recast]
    exact .ofExcept fun _ he => PrefixOp.apply_error he
  | binary op left right =>
    by_cases hop : op = .assign
    · subst hop
      cases left with
      | ident x =>
        simp only [Expr.relabel, Expr.eval]
        exact .bind (.required ((hn i).1 right)) fun v => .bind (.assign hr i x v) fun _ =>
          .pure (some v)
      | _ =>
        simp only [Expr.relabel, Expr.eval]
        exact .fail rfl
    · simp only [Expr.relabel, Expr.eval]
      refine .bind (hn.operand i left) fun u => .bind (hn.operand i right) fun v => .some ?_
      rw [Value.relabel, Value.relabel, op.apply_recast]
      exact .ofExcept fun _ he => InfixOp.apply_error he
  | conditional cs alternative =>
    simp only [Expr.relabel, Expr.eval, relabelClauses_eq, relabelAlternative_eq]
    exact .choose (hn.operand i) (hn.block i) cs alternative
  | function ps b =>
    simp only [Expr.relabel, Expr.eval, relabelStatements_eq, variadicLast_relabel]
    split
    · exact .bind .fresh fun id => .pure (some (Value.function id ps b i))
    · exact .fail rfl
  | call f args =>
    simp only [Expr.relabel, Expr.eval, relabelExprs_eq]
    exact .bind (hn.operand i f) fun callee => .bind (.values (hn.operand i) args) fun vs =>
      .call hr limits hn.body callee vs
  | array es =>
    simp only [Expr.relabel, Expr.eval, relabelExprs_eq]
    refine .bind (.values (hn.operand i) es) fun vs => .bind .fresh fun id => ?_
    have hpure := Commutes.pure (r := r) (g := relabelResult r) (some (.array id vs))
    rwa [relabelResult, Option.map_some, Value.relabel_array] at hpure
  | hash ps =>
    simp only [Expr.relabel, Expr.eval, relabelPairs_eq]
    refine .bind (.entries (hn.operand i) ps []) fun es => .bind .fresh fun id => ?_
    have hpure := Commutes.pure (r := r) (g := relabelResult r) (some (.hash id es))
    rwa [relabelResult, Option.map_some, Value.relabel_hash] at hpure
  | index e k =>
    simp only [Expr.relabel, Expr.eval]
    refine .bind (hn.operand i e) fun u => .bind (hn.operand i k) fun v => .some ?_
    rw [Value.relabel, Value.relabel, Value.index_recast]
    exact .ofExcept fun _ he => Value.index_error he

end EvalCommutes

variable (hr : Function.Injective r) (hb : ∀ b : Builtin, r b.name = b.name)
include hr hb

/-- **Evaluation commutes with the replacement of names**, by induction on the fuel. -/
theorem evalCommutes (limits : Limits) (n : Nat) : EvalCommutes r limits n := by
  induction n with
  | zero =>
    refine fun i => ⟨fun e => ?_, fun s => ?_⟩
    · simp only [Expr.eval]
      exact .outOfFuel
    · simp only [Statement.eval]
      exact .outOfFuel
  | succ n ih => exact fun i => ⟨ih.expr hr hb i, ih.statement hr i⟩

/-- A program is its statements in a row. -/
theorem Program.run_relabel (limits : Limits) (n : Nat) (i : ScopeId) (p : Program) :
    Commutes r (relabelResult r) (Program.run limits n i p)
      (Program.run limits n i (p.relabel r)) :=
  (evalCommutes hr hb limits n).body i p

omit hr hb in
/-- Whether a run has ended does not depend on names. -/
theorem Outcome.finished_relabel {g : α → β} (o : Outcome α) :
    (o.relabel r g).finished = o.finished := by
  cases o <;> rfl

/-- **Other names, the same run.**  If different names stay different and built-ins keep theirs,
then on the store with its names replaced the program with its names replaced does, with the same
fuel, what the program does: it ends with the same value or return up to the names in functions, or
with the same error up to the name it is about, and leaves the same store up to names.  One of the
two ends if and only if the other one does. -/
theorem Program.equivariant (limits : Limits) (i : ScopeId) (p : Program) (m : Machine) :
    (∀ n, Program.run limits n i (p.relabel r) (m.relabel r) =
      (Program.run limits n i p m).relabel r (relabelResult r)) ∧
    ∀ o', Program.Ends limits i (p.relabel r) (m.relabel r) o' ↔
      ∃ o, Program.Ends limits i p m o ∧ o' = o.relabel r (relabelResult r) := by
  have hrun := fun n => Program.run_relabel hr hb limits n i p m
  refine ⟨hrun, fun o' => ⟨?_, ?_⟩⟩
  · rintro ⟨hfin, n, rfl⟩
    rw [hrun n] at hfin ⊢
    exact ⟨_, ⟨(Outcome.finished_relabel _).symm.trans hfin, n, rfl⟩, rfl⟩
  · rintro ⟨o, ⟨hfin, n, rfl⟩, rfl⟩
    exact ⟨(Outcome.finished_relabel _).trans hfin, n, hrun n⟩

omit hr hb

/-- A program in which a function adds its argument to a global. -/
def adding : Program :=
  [.bind "x" (.integer 1),
    .bind "f" (.function [⟨"y", false⟩] [.expr (.binary .add (.ident "x") (.ident "y"))]),
    .expr (.call (.ident "f") [.integer 2])]

/-- It adds as well if the global and the parameter exchange their names. -/
theorem Program.equivariant_exchanged :
    Function.Injective (Equiv.swap "x" "y") ∧
      (∀ b : Builtin, Equiv.swap "x" "y" b.name = b.name) ∧
      ∃ m, Program.Ends {} 0 (adding.relabel (Equiv.swap "x" "y"))
        (Machine.relabel (Equiv.swap "x" "y") ⟨Store.empty.addScope none, 0⟩)
        (.done (some (.integer 3)) m) := by
  have hr : Function.Injective (Equiv.swap "x" "y") := Equiv.injective _
  have hb : ∀ b : Builtin, Equiv.swap "x" "y" b.name = b.name := by
    intro b
    exact Equiv.swap_apply_of_ne_of_ne (by cases b <;> decide) (by cases b <;> decide)
  have hequivariant := Program.equivariant hr hb {} 0 adding ⟨Store.empty.addScope none, 0⟩
  exact ⟨hr, hb, _, (hequivariant.2 _).mpr ⟨_, ⟨rfl, 5, rfl⟩, rfl⟩⟩

end Scriptlet
