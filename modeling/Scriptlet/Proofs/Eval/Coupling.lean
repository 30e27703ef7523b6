import Scriptlet.Proofs.Value.Keys
import Scriptlet.Proofs.Value.Shape
import Scriptlet.Eval.Basic

/-!
# Proofs/Eval/Coupling — two runs side by side

Evaluation knows scopes and identities only by what it does with them: it looks names up, binds and
assigns them, makes new scopes and new identities.  So let two runs start from two stores that
correspond, in scopes that correspond.  If each of these few steps keeps the correspondence, then so
does evaluation: the two runs stay in **lock step** (`inStep`), and end alike.

What corresponds to what may grow while the runs go on; a `World` says what does so far.  A property
of single runs is the case of a run beside itself.
-/

namespace Scriptlet

/-- The names that a statement binds in the scope it is evaluated in: that of a `let`, and of a
`let` that starts a loop. -/
def Statement.ownNames : Statement → List String
  | .bind x _ => [x]
  | .loop (some init) _ _ _ => init.ownNames
  | _ => []

namespace Eval

/-- A block, in a new scope. -/
def block (limits : Limits) (n : Nat) (scope : ScopeId) (b : Block) : Eval (Option Value) := do
  let inner ← enclose scope
  sequence (fun s => Statement.eval limits n inner s) b none

/-- A loop goes on while its condition holds, if it has one. -/
def goesOn (limits : Limits) (n : Nat) (scope : ScopeId) (condition : Option Expr) : Eval Bool :=
  match condition with
  | some c => do return (← operand (Expr.eval limits n scope c)).truthy
  | none => return true

/-- The step of a loop, if it has one. -/
def advance (limits : Limits) (n : Nat) (scope : ScopeId) (step : Option Expr) :
    Eval (Option Value) :=
  match step with
  | some e => Expr.eval limits n scope e
  | none => return none

end Eval

/-- Two values are **made** alike, under the identities `i` and `j`: of parts that are related by
`R`, and functions in scopes that are related by `S`.  The entries of a hash are well keyed, and
only the last parameter of a function is variadic. -/
inductive Value.Made (R : Value → Value → Prop) (S : ScopeId → ScopeId → Prop) (i j : Identity) :
    Value → Value → Prop
  | array {es fs : List Value} : List.Forall₂ R es fs → Made R S i j (.array i es) (.array j fs)
  | hash {ps qs : List HashEntry} : WellKeyed ps →
    List.Forall₂ (EntryRel (HashPair.Rel R)) ps qs → Made R S i j (.hash i ps) (.hash j qs)
  | function {params : List Param} {s t : ScopeId} (body : Block) :
    variadicLast params → S s t → Made R S i j (.function i params body s)
      (.function j params body t)

/-- What corresponds to what in two stores, kept by each step of an evaluation. -/
structure Coupling where
  /-- How far the correspondence has come. -/
  World : Type
  le : World → World → Prop
  value : World → Value → Value → Prop
  /-- Evaluation may go on in these two scopes. -/
  scope : World → ScopeId → ScopeId → Prop
  /-- The name may be bound in these two scopes. -/
  own : World → ScopeId → ScopeId → String → Prop
  store : World → Store → Store → Prop
  le_refl : ∀ w, le w w
  le_trans : ∀ {u v w}, le u v → le v w → le u w
  value_mono : ∀ {w w' v v'}, le w w' → value w v v' → value w' v v'
  scope_mono : ∀ {w w' i j}, le w w' → scope w i j → scope w' i j
  own_mono : ∀ {w w' i j x}, le w w' → own w i j x → own w' i j x
  /-- Values have the shape of those they correspond to. -/
  shaped : ∀ {w v v'}, value w v v' → v.Shaped (value w) (scope w) v'
  /-- Two values are the same if and only if those they correspond to are. -/
  same : ∀ {w u u' v v'}, value w u u' → value w v v' → u.same v = u'.same v'
  plain : ∀ {w v}, v.isPlain → value w v v
  lookup : ∀ {w s t i j}, store w s t → scope w i j → ∀ x,
    Option.Rel (value w) (s.get? i x) (t.get? j x)
  /-- A new value on either side takes the identity that is next. -/
  make : ∀ {w s t v v'}, store w s t →
    Value.Made (value w) (scope w) s.nextId t.nextId v v' →
      ∃ w', le w w' ∧ store w' s.spendId t.spendId ∧ value w' v v'
  addScope : ∀ {w s t i j}, store w s t → scope w i j →
    ∃ w', le w w' ∧ store w' (s.addScope (some i)) (t.addScope (some j)) ∧
      scope w' s.nextScope t.nextScope ∧ ∀ x, own w' s.nextScope t.nextScope x
  owns : ∀ {w s t i j x}, store w s t → own w i j x → s.owns i x = t.owns j x
  bind : ∀ {w s t i j x v v'}, store w s t → own w i j x → value w v v' → s.owns i x = false →
    store w (s.bind i x v) (t.bind j x v')
  assign : ∀ {w s t i j x v v'}, store w s t → scope w i j → value w v v' →
    Option.Rel (fun h k => store w (s.set h x v) (t.set k x v')) (s.resolve i x) (t.resolve j x)

namespace Coupling

variable {K : Coupling} {α β γ δ : Type}

/-- The results of two expressions or statements: both empty, or values that correspond. -/
def result (K : Coupling) (w : K.World) : Option Value → Option Value → Prop :=
  Option.Rel (K.value w)

/-- Two scopes made for a block or a call, in which all names may be bound. -/
def inner (K : Coupling) (w : K.World) (i j : ScopeId) : Prop :=
  K.scope w i j ∧ ∀ x, K.own w i j x

/-- Names that may be bound in two scopes may still be later. -/
theorem inner_mono {w w' : K.World} {i j : ScopeId} (h : K.le w w') (hij : K.inner w i j) :
    K.inner w' i j :=
  ⟨K.scope_mono h hij.1, fun x => K.own_mono h (hij.2 x)⟩

/-- Lists of values that correspond do so in every later world. -/
theorem values_mono {w w' : K.World} {es fs : List Value} (h : K.le w w')
    (hes : List.Forall₂ (K.value w) es fs) : List.Forall₂ (K.value w') es fs :=
  hes.imp fun _ _ => K.value_mono h

/-- Entries correspond that stand under one key and hold a key object and a value that do. -/
def pairs (K : Coupling) (w : K.World) : List HashEntry → List HashEntry → Prop :=
  List.Forall₂ (EntryRel (HashPair.Rel (K.value w)))

/-- Entries of hashes that correspond do so in every later world. -/
theorem pairs_mono {w w' : K.World} {ps qs : List HashEntry} (h : K.le w w')
    (hps : K.pairs w ps qs) : K.pairs w' ps qs :=
  hps.imp fun _ _ hpq => ⟨hpq.1, hpq.2.imp fun _ _ => K.value_mono h⟩

/-- Two runs that started in the world `w` with `d` active calls **end alike**, both with `d` active
calls, and what they give corresponds. -/
inductive EndAlike (K : Coupling) (φ : K.World → α → β → Prop) (w : K.World) (d : Nat) :
    Outcome α → Outcome β → Prop
  | done {w' : K.World} {a : α} {b : β} {s t : Store} :
    K.le w w' → K.store w' s t → φ w' a b → EndAlike K φ w d (.done a ⟨s, d⟩) (.done b ⟨t, d⟩)
  | returned {w' : K.World} {v v' : Value} {s t : Store} :
    K.le w w' → K.store w' s t → K.value w' v v' →
      EndAlike K φ w d (.unwound (.returned v) ⟨s, d⟩) (.unwound (.returned v') ⟨t, d⟩)
  | failed {w' : K.World} {e : RuntimeError} {s t : Store} :
    K.le w w' → K.store w' s t →
      EndAlike K φ w d (.unwound (.failed e) ⟨s, d⟩) (.unwound (.failed e) ⟨t, d⟩)
  | outOfFuel : EndAlike K φ w d .outOfFuel .outOfFuel

/-- From two stores that correspond in the world `w`, the two computations end alike. -/
def Lockstep (K : Coupling) (φ : K.World → α → β → Prop) (w : K.World) (x : Eval α)
    (y : Eval β) : Prop :=
  ∀ s t d, K.store w s t → K.EndAlike φ w d (x ⟨s, d⟩) (y ⟨t, d⟩)

variable {φ : K.World → α → β → Prop} {ψ : K.World → γ → δ → Prop} {w : K.World}
  {ψ' : K.World → α → α → Prop}

/-- Runs that end alike seen from a later world do so seen from an earlier one. -/
theorem EndAlike.earlier {w' : K.World} {d : Nat} {o : Outcome α} {o' : Outcome β}
    (h : K.le w w') (ho : K.EndAlike φ w' d o o') : K.EndAlike φ w d o o' := by
  cases ho with
  | done h' hst hab => exact .done (K.le_trans h h') hst hab
  | returned h' hst hv => exact .returned (K.le_trans h h') hst hv
  | failed h' hst => exact .failed (K.le_trans h h') hst
  | outOfFuel => exact .outOfFuel

namespace Lockstep

open Eval

/-- What follows from correspondence may be asked for instead. -/
theorem imp {φ' : K.World → α → β → Prop} {x : Eval α} {y : Eval β} (h : K.Lockstep φ w x y)
    (hφ : ∀ w' a b, φ w' a b → φ' w' a b) : K.Lockstep φ' w x y := by
  intro s t d hst
  have ho := h s t d hst
  generalize x ⟨s, d⟩ = o, y ⟨t, d⟩ = o' at ho ⊢
  cases ho with
  | done hle hst' hab => exact .done hle hst' (hφ _ _ _ hab)
  | returned hle hst' hv => exact .returned hle hst' hv
  | failed hle hst' => exact .failed hle hst'
  | outOfFuel => exact .outOfFuel

/-- What holds of all that the first computation gives may be added. -/
theorem attach {x : Eval α} {y : Eval β} (h : K.Lockstep φ w x y) {P : α → Prop}
    (hP : ∀ m a m', x m = .done a m' → P a) :
    K.Lockstep (fun w a b => P a ∧ φ w a b) w x y := by
  intro s t d hst
  have ho := h s t d hst
  generalize hx : x ⟨s, d⟩ = o, y ⟨t, d⟩ = o' at ho ⊢
  cases ho with
  | done hle hst' hab => exact .done hle hst' ⟨hP _ _ _ hx, hab⟩
  | returned hle hst' hv => exact .returned hle hst' hv
  | failed hle hst' => exact .failed hle hst'
  | outOfFuel => exact .outOfFuel

/-! ## Steps and their order

Two runs in lock step end in the same way; so a row of two that are in lock step is in lock step,
and a proof about evaluation needs one such lemma for each way of putting computations together. -/

theorem pure {a : α} {b : β} (h : φ w a b) : K.Lockstep φ w (pure a) (pure b) :=
  fun _ _ _ hst => .done (K.le_refl w) hst h

theorem fail (e : RuntimeError) : K.Lockstep φ w (fail e) (fail e) :=
  fun _ _ _ hst => .failed (K.le_refl w) hst

theorem ret {v v' : Value} (h : K.value w v v') : K.Lockstep φ w (ret v) (ret v') :=
  fun _ _ _ hst => .returned (K.le_refl w) hst h

theorem outOfFuel : K.Lockstep φ w Eval.outOfFuel Eval.outOfFuel := fun _ _ _ _ => .outOfFuel

/-- **Two computations in a row stay in lock step** if the second ones do in every later world. -/
theorem bind {x : Eval α} {y : Eval β} {f : α → Eval γ} {g : β → Eval δ}
    (hxy : K.Lockstep φ w x y)
    (hfg : ∀ w', K.le w w' → ∀ a b, φ w' a b → K.Lockstep ψ w' (f a) (g b)) :
    K.Lockstep ψ w (x >>= f) (y >>= g) := by
  intro s t d hst
  have h := hxy s t d hst
  rw [bind_apply, bind_apply]
  generalize x ⟨s, d⟩ = o, y ⟨t, d⟩ = o' at h ⊢
  cases h with
  | done hle hst' hab => exact (hfg _ hle _ _ hab _ _ d hst').earlier hle
  | returned hle hst' hv => exact .returned hle hst' hv
  | failed hle hst' => exact .failed hle hst'
  | outOfFuel => exact .outOfFuel

/-- An operation that gives what corresponds, or one error. -/
theorem ofExcept {r : Except RuntimeError α} {r' : Except RuntimeError β}
    (h : Agrees (φ w) r r') : K.Lockstep φ w (ofExcept r) (ofExcept r') := by
  cases h with
  | ok hab => exact pure hab
  | error e => exact fail e

/-- One operation on both sides, with a plain value as its result. -/
theorem ofExcept_plain {r : Except RuntimeError Value} (h : ∀ v, r = .ok v → v.isPlain) :
    K.Lockstep K.value w (Eval.ofExcept r) (Eval.ofExcept r) := by
  cases r with
  | ok v => exact pure (K.plain (h v rfl))
  | error e => exact fail e

theorem some {x y : Eval Value} (h : K.Lockstep K.value w x y) :
    K.Lockstep K.result w (do return some (← x)) (do return some (← y)) :=
  h.bind fun _ _ _ _ hv => pure (.some hv)

/-- Both results are there, or both are missing. -/
theorem required {x y : Eval (Option Value)} (h : K.Lockstep K.result w x y) :
    K.Lockstep K.value w (required x) (required y) := by
  refine bind h fun w' _ a b hab => ?_
  cases hab with
  | none => exact fail _
  | some hv => exact pure hv

/-- Null stands in for both, or for neither. -/
theorem operand {x y : Eval (Option Value)} (h : K.Lockstep K.result w x y) :
    K.Lockstep K.value w (operand x) (operand y) := by
  refine bind h fun w' _ a b hab => pure ?_
  cases hab with
  | none => exact K.plain rfl
  | some hv => exact hv

/-! ## The store

The operations on the store are where a coupling has something to prove; what it has to prove is
stated as the fields of `Coupling`. -/

/-- **A new value**, and what is done with it. -/
theorem make {f g : Identity → Value} {next : Value → Eval γ} {next' : Value → Eval δ}
    (hmade : ∀ i j, Value.Made (K.value w) (K.scope w) i j (f i) (g j))
    (hnext : ∀ w', K.le w w' → ∀ v v', K.value w' v v' →
      K.Lockstep ψ w' (next v) (next' v')) :
    K.Lockstep ψ w (do next (f (← fresh))) (do next' (g (← fresh))) := by
  intro s t d hst
  obtain ⟨w', hle, hst', hv⟩ := K.make hst (hmade s.nextId t.nextId)
  exact (hnext w' hle _ _ hv _ _ d hst').earlier hle

/-! Each of the few things that are done to the store is a step of the coupling; here it is put in
the form of a computation. -/

theorem enclose {i j : ScopeId} (h : K.scope w i j) :
    K.Lockstep K.inner w (enclose i) (enclose j) := by
  intro s t d hst
  obtain ⟨w', hle, hst', hscope, hown⟩ := K.addScope hst h
  exact .done hle hst' ⟨hscope, hown⟩

/-- A name is bound on both sides to values that correspond, or is that of a built-in, or is not
found. -/
theorem lookup {i j : ScopeId} (h : K.scope w i j) (x : String) :
    K.Lockstep K.value w (Eval.lookup i x) (Eval.lookup j x) := by
  intro s t d hst
  unfold Eval.lookup
  rcases rel_cases (K.lookup hst h x) with ⟨hs, ht⟩ | ⟨v, v', hs, ht, hv⟩
  · dsimp only
    rw [hs, ht]
    cases Builtin.ofName? x with
    | none => exact .failed (K.le_refl w) hst
    | some b => exact .done (K.le_refl w) hst (K.plain rfl)
  · dsimp only
    rw [hs, ht]
    exact .done (K.le_refl w) hst hv

/-- The name may be bound in both scopes, which both have it already or both do not. -/
theorem define {i j : ScopeId} {x : String} {v v' : Value} (h : K.own w i j x)
    (hv : K.value w v v') :
    K.Lockstep (fun _ _ _ => True) w (define i x v) (define j x v') := by
  intro s t d hst
  unfold Eval.define
  dsimp only
  rw [← K.owns hst h]
  cases hown : s.owns i x with
  | true => exact .failed (K.le_refl w) hst
  | false => exact .done (K.le_refl w) (K.bind hst h hv hown) trivial

/-- The name is found in scopes that correspond, or in none. -/
theorem assign {i j : ScopeId} (x : String) {v v' : Value} (h : K.scope w i j)
    (hv : K.value w v v') :
    K.Lockstep (fun _ _ _ => True) w (Eval.assign i x v) (Eval.assign j x v') := by
  intro s t d hst
  unfold Eval.assign
  dsimp only
  rcases rel_cases (K.assign (x := x) hst h hv) with ⟨hs, ht⟩ | ⟨home, home', hs, ht, hst'⟩
  · rw [hs, ht]
    exact .failed (K.le_refl w) hst
  · rw [hs, ht]
    exact .done (K.le_refl w) hst' trivial

/-! ## Calls

Both runs enter a call, or neither does, as their machines count the same number of calls. -/

/-- One more call is active on both sides while the computations run, and none when they are over.
-/
theorem nested {x : Eval α} {y : Eval β} (h : K.Lockstep φ w x y) :
    K.Lockstep φ w (nested x) (nested y) := by
  intro s t d hst
  have h' := h s t (d + 1) hst
  unfold Eval.nested
  dsimp only
  generalize x ⟨s, d + 1⟩ = o, y ⟨t, d + 1⟩ = o' at h' ⊢
  cases h' with
  | done hle hst' hab => exact .done hle hst' hab
  | returned hle hst' hv => exact .returned hle hst' hv
  | failed hle hst' => exact .failed hle hst'
  | outOfFuel => exact .outOfFuel

/-- A return on both sides is a result on both sides. -/
theorem catchReturn {x y : Eval (Option Value)} (h : K.Lockstep K.result w x y) :
    K.Lockstep K.result w (catchReturn x) (catchReturn y) := by
  intro s t d hst
  have h' := h s t d hst
  unfold Eval.catchReturn
  generalize x ⟨s, d⟩ = o, y ⟨t, d⟩ = o' at h' ⊢
  cases h' with
  | done hle hst' hab => exact .done hle hst' hab
  | returned hle hst' hv => exact .done hle hst' (.some hv)
  | failed hle hst' => exact .failed hle hst'
  | outOfFuel => exact .outOfFuel

/-- Parameters are bound in two new scopes to arguments that correspond. -/
theorem bindParams {i j : ScopeId} (hown : ∀ x, K.own w i j x) (params : List Param)
    {args args' : List Value} (hargs : List.Forall₂ (K.value w) args args') :
    K.Lockstep (fun _ _ _ => True) w (bindParams i params args) (bindParams j params args') := by
  induction params generalizing w args args' with
  | nil => exact pure trivial
  | cons p ps ih =>
    unfold Eval.bindParams
    split
    · exact make (fun _ _ => .array hargs) fun w' hle _ _ hv =>
        define (K.own_mono hle (hown _)) hv
    · have hfirst : K.value w (args.headD .null) (args'.headD .null) := by
        cases hargs with
        | nil => exact K.plain rfl
        | cons hv _ => exact hv
      refine bind (define (hown _) hfirst) fun w' hle _ _ _ => ?_
      exact ih (fun x => K.own_mono hle (hown x)) (K.values_mono hle (rel_tail hargs))

/-- The scopes of two calls, made in scopes that correspond. -/
theorem callScope {i j : ScopeId} (h : K.scope w i j) (params : List Param)
    {args args' : List Value} (hargs : List.Forall₂ (K.value w) args args') :
    K.Lockstep K.inner w (callScope params i args) (callScope params j args') := by
  unfold Eval.callScope
  rw [hargs.length_eq]
  split
  · refine bind (enclose h) fun w' hle i' j' hij => ?_
    refine bind (bindParams hij.2 params (K.values_mono hle hargs)) fun w'' hle' _ _ _ => ?_
    exact pure (K.inner_mono hle' hij)
  · exact fail _

/-- **A built-in** spends an identity, whether or not its result is a new array. -/
theorem builtin (b : Builtin) {args args' : List Value}
    (hargs : List.Forall₂ (K.value w) args args') :
    K.Lockstep K.result w (do return Option.some (← Eval.ofExcept (b.call (← Eval.fresh) args)))
      (do return Option.some (← Eval.ofExcept (b.call (← Eval.fresh) args'))) := by
  intro s t d hst
  have hcall : Agrees (fun v v' => K.value w v v' ∨
      Value.Made (K.value w) (K.scope w) s.nextId t.nextId v v')
      (b.call s.nextId args) (b.call t.nextId args') :=
    b.call_agrees (fun hv => .inl (K.plain hv)) (fun hes => .inr (.array hes))
      (fun hv => .inl hv) K.shaped hargs
  -- an identity is spent in any case; an empty array may be made of it
  obtain ⟨w', hle, hst', -⟩ := K.make hst (.array .nil)
  show K.EndAlike K.result w d ((do return Option.some (← Eval.ofExcept (b.call s.nextId args)) :
    Eval (Option Value)) ⟨s.spendId, d⟩) ((do return Option.some (← Eval.ofExcept
      (b.call t.nextId args')) : Eval (Option Value)) ⟨t.spendId, d⟩)
  generalize b.call s.nextId args = r, b.call t.nextId args' = r' at hcall ⊢
  cases hcall with
  | error e => exact .failed hle hst'
  | ok hv =>
    rcases hv with hv | hmade
    · exact .done hle hst' (.some (K.value_mono hle hv))
    · obtain ⟨w'', hle', hst'', hv⟩ := K.make hst hmade
      exact .done hle' hst'' (.some hv)

/-- **A call** is decided by the shape of the callee; a function runs in two new scopes. -/
theorem call (limits : Limits) {run run' : ScopeId → Block → Eval (Option Value)}
    (hrun : ∀ w', K.le w w' → ∀ i j b, K.inner w' i j →
      K.Lockstep K.result w' (run i b) (run' j b))
    {callee callee' : Value} (hcallee : K.value w callee callee') {args args' : List Value}
    (hargs : List.Forall₂ (K.value w) args args') :
    K.Lockstep K.result w (call limits run callee args) (call limits run' callee' args') := by
  cases K.shaped hcallee with
  | plain hp =>
    cases callee with
    | builtin b => exact builtin b hargs
    | array | hash | function => cases hp
    | _ => exact fail _
  | error | array | hash => exact fail _
  | function i j params body hscope =>
    intro s t d hst
    by_cases hd : limits.maxDepth ≤ d
    · have hfail : K.EndAlike K.result w d
          (.unwound (.failed (.stackOverflow limits.maxDepth)) ⟨s, d⟩)
          (.unwound (.failed (.stackOverflow limits.maxDepth)) ⟨t, d⟩) :=
        .failed (K.le_refl w) hst
      simpa only [Eval.call, bind_apply, depth, if_pos hd, Eval.fail] using hfail
    · have hbody := bind (callScope hscope params hargs) fun w' hle i' j' hij =>
        catchReturn (nested (hrun w' hle i' j' body hij))
      simpa only [Eval.call, bind_apply, depth, if_neg hd] using hbody s t d hst

/-! ## Statements in a row, choices and loops

A condition is truthy on both sides or on neither, so both runs go the same way. -/

/-- The last result is that of the last statement, or what was there before the first. -/
theorem sequence {run run' : Statement → Eval (Option Value)} (b : Block)
    (h : ∀ w', K.le w w' → ∀ s ∈ b, K.Lockstep K.result w' (run s) (run' s))
    {last last' : Option Value} (hlast : K.result w last last') :
    K.Lockstep K.result w (sequence run b last) (sequence run' b last') := by
  induction b generalizing w last last' with
  | nil => exact pure hlast
  | cons s ss ih =>
    refine bind (h w (K.le_refl w) s List.mem_cons_self) fun w' hle a b hab => ?_
    exact ih (fun w'' hle' s' hs' =>
      h w'' (K.le_trans hle hle') s' (List.mem_cons_of_mem s hs')) hab

/-- Conditions that correspond count the same, so both runs take the same branch. -/
theorem choose {test test' : Expr → Eval Value} {run run' : Block → Eval (Option Value)}
    (htest : ∀ w', K.le w w' → ∀ e, K.Lockstep K.value w' (test e) (test' e))
    (hrun : ∀ w', K.le w w' → ∀ b, K.Lockstep K.result w' (run b) (run' b))
    (clauses : List Clause) (alternative : Option Block) :
    K.Lockstep K.result w (choose test run clauses alternative)
      (choose test' run' clauses alternative) := by
  induction clauses generalizing w with
  | nil =>
    cases alternative with
    | none => exact pure (.some (K.plain rfl))
    | some b => exact hrun w (K.le_refl w) b
  | cons c cs ih =>
    refine bind (htest w (K.le_refl w) c.1) fun w' hle a b hab => ?_
    rw [(K.shaped hab).truthy_eq]
    split
    · exact hrun w' hle c.2
    · exact ih (fun w'' hle' => htest w'' (K.le_trans hle hle'))
        (fun w'' hle' => hrun w'' (K.le_trans hle hle'))

/-- The rounds are counted alike. -/
theorem allowRound (limit : Option Nat) (finished : Nat) :
    K.Lockstep (fun _ _ _ => True) w (allowRound limit finished) (allowRound limit finished) := by
  unfold Eval.allowRound
  split
  · split
    · exact fail _
    · exact pure trivial
  · exact pure trivial

/-- **A loop in lock step**, by induction on its fuel: both go on or both end. -/
theorem repeatWhile (limit : Option Nat) {test test' : Eval Bool}
    {body body' step step' : Eval (Option Value)}
    (htest : ∀ w', K.le w w' → K.Lockstep (fun _ => Eq) w' test test')
    (hbody : ∀ w', K.le w w' → K.Lockstep K.result w' body body')
    (hstep : ∀ w', K.le w w' → K.Lockstep K.result w' step step') (fuel finished : Nat) :
    K.Lockstep (fun _ _ _ => True) w (repeatWhile limit test body step fuel finished)
      (repeatWhile limit test' body' step' fuel finished) := by
  induction fuel generalizing w finished with
  | zero => exact outOfFuel
  | succ n ih =>
    refine bind (htest w (K.le_refl w)) fun w₁ h₁ holds _ heq => ?_
    subst heq
    split
    · refine bind (allowRound limit finished) fun w₂ h₂ _ _ _ => ?_
      have hle₂ := K.le_trans h₁ h₂
      refine bind (hbody w₂ hle₂) fun w₃ h₃ _ _ _ => ?_
      have hle₃ := K.le_trans hle₂ h₃
      refine bind (hstep w₃ hle₃) fun w₄ h₄ _ _ _ => ?_
      have hle₄ := K.le_trans hle₃ h₄
      exact ih (fun w' h => htest w' (K.le_trans hle₄ h)) (fun w' h => hbody w' (K.le_trans hle₄ h))
        (fun w' h => hstep w' (K.le_trans hle₄ h)) (finished + 1)
    · exact pure trivial

/-! ## Literals

What is made on both sides gets an identity on both sides, and the world of the coupling grows with
it. -/

/-- Elements one after another, each in a world that is later than that of the one before. -/
theorem values {value value' : Expr → Eval Value}
    (h : ∀ w', K.le w w' → ∀ e, K.Lockstep K.value w' (value e) (value' e)) (es : List Expr) :
    K.Lockstep (fun w => List.Forall₂ (K.value w)) w (values value es) (values value' es) := by
  induction es generalizing w with
  | nil => exact pure .nil
  | cons e es ih =>
    refine bind (h w (K.le_refl w) e) fun w₁ h₁ _ _ hv => ?_
    refine bind (ih fun w' h' => h w' (K.le_trans h₁ h')) fun w₂ h₂ _ _ hvs => ?_
    exact pure (.cons (K.value_mono h₂ hv) hvs)

/-- Entries one after another: the keys have one hash key, so both go to one place. -/
theorem entries {value value' : Expr → Eval Value}
    (h : ∀ w', K.le w w' → ∀ e, K.Lockstep K.value w' (value e) (value' e))
    (ps : List (Expr × Expr)) {done done' : List HashEntry} (hdone : K.pairs w done done') :
    K.Lockstep K.pairs w (entries value ps done) (entries value' ps done') := by
  induction ps generalizing w done done' with
  | nil => exact pure hdone
  | cons p ps ih =>
    refine bind (h w (K.le_refl w) p.1) fun w₁ h₁ _ _ hkey => ?_
    rw [(K.shaped hkey).toHashKey_eq]
    refine bind (ofExcept (φ := fun _ => Eq) (Agrees.refl _)) fun w₂ h₂ key _ heq => ?_
    subst heq
    have hle₂ := K.le_trans h₁ h₂
    refine bind (h w₂ hle₂ p.2) fun w₃ h₃ _ _ hv => ?_
    have hle₃ := K.le_trans hle₂ h₃
    have hkey₃ := K.value_mono (K.le_trans h₂ h₃) hkey
    exact ih (fun w' h' => h w' (K.le_trans hle₃ h'))
      (rel_insertPair ⟨hkey₃, hv⟩ (K.pairs_mono hle₃ hdone))

/-- **The entries of a hash literal are well keyed**: a value that can be a key is put in under the
key that it has. -/
theorem wellKeyed_of_entries {value : Expr → Eval Value} {ps : List (Expr × Expr)}
    {done es : List HashEntry} {m m' : Machine} (hdone : WellKeyed done)
    (h : Eval.entries value ps done m = .done es m') : WellKeyed es := by
  induction ps generalizing done m with
  | nil =>
    cases h
    exact hdone
  | cons p ps ih =>
    unfold Eval.entries at h
    rw [bind_apply] at h
    split at h
    · next key m₁ hkey =>
      rw [bind_apply] at h
      cases hhash : key.toHashKey with
      | error e =>
        rw [hhash] at h
        cases h
      | ok k =>
        simp only [hhash, Eval.ofExcept, pure_apply] at h
        rw [bind_apply] at h
        split at h
        · exact ih (hdone.insertPair (Value.toHashKey_eq_ok_iff.mp hhash)) h
        all_goals cases h
    all_goals cases h

/-- A clause of a loop header, and what stands in for it if it is not there. -/
theorem clause {clause clause' : Expr → Eval α} (h : ∀ e, K.Lockstep ψ' w (clause e) (clause' e))
    (absent : Eval α) (habsent : K.Lockstep ψ' w absent absent) (e : Option Expr) :
    K.Lockstep ψ' w (match e with | Option.some e => clause e | none => absent)
      (match e with | Option.some e => clause' e | none => absent) := by
  cases e with
  | none => exact habsent
  | some e => exact h e

end Lockstep

/-! ## Evaluation

By induction on the fuel: the parts of an expression or a statement are evaluated with one unit
less, in the same two scopes or in two new ones. -/

open Eval

/-- Evaluation with this much fuel **stays in lock step** in scopes that correspond: of expressions,
and of statements if their names may be bound there. -/
def InStep (K : Coupling) (limits : Limits) (n : Nat) : Prop :=
  ∀ w i j, K.scope w i j →
    (∀ e, K.Lockstep K.result w (Expr.eval limits n i e) (Expr.eval limits n j e)) ∧
      ∀ s : Statement, (∀ x ∈ s.ownNames, K.own w i j x) →
        K.Lockstep K.result w (Statement.eval limits n i s) (Statement.eval limits n j s)

namespace InStep

variable {limits : Limits} {n : Nat} {i j : ScopeId}

theorem operand (h : K.InStep limits n) (hij : K.scope w i j) (e : Expr) :
    K.Lockstep K.value w (operand (Expr.eval limits n i e)) (operand (Expr.eval limits n j e)) :=
  ((h w i j hij).1 e).operand

/-- A row of statements in a scope where their names may be bound. -/
theorem row (h : K.InStep limits n) (hij : K.scope w i j) {b : Block}
    (hown : ∀ s ∈ b, ∀ x ∈ s.ownNames, K.own w i j x) {last last' : Option Value}
    (hlast : K.result w last last') :
    K.Lockstep K.result w (sequence (Statement.eval limits n i) b last)
      (sequence (Statement.eval limits n j) b last') :=
  .sequence b (fun w' hle s hs => (h w' i j (K.scope_mono hle hij)).2 s fun x hx =>
    K.own_mono hle (hown s hs x hx)) hlast

/-- The body of a block or a call, in two new scopes. -/
theorem body (h : K.InStep limits n) (hij : K.inner w i j) (b : Block) :
    K.Lockstep K.result w (sequence (Statement.eval limits n i) b none)
      (sequence (Statement.eval limits n j) b none) :=
  h.row hij.1 (fun _ _ x _ => hij.2 x) .none

theorem block (h : K.InStep limits n) (hij : K.scope w i j) (b : Block) :
    K.Lockstep K.result w (block limits n i b) (block limits n j b) :=
  .bind (.enclose hij) fun _ _ _ _ hinner => h.body hinner b

theorem goesOn (h : K.InStep limits n) (hij : K.scope w i j) (condition : Option Expr) :
    K.Lockstep (fun _ => Eq) w (goesOn limits n i condition) (goesOn limits n j condition) :=
  .clause (fun c => .bind (h.operand hij c) fun _ _ _ _ hv => .pure (K.shaped hv).truthy_eq)
    (return true) (.pure rfl) condition

theorem advance (h : K.InStep limits n) (hij : K.scope w i j) (step : Option Expr) :
    K.Lockstep K.result w (advance limits n i step) (advance limits n j step) :=
  .clause (h w i j hij).1 (return none) (.pure .none) step

/-- The rounds of a loop. -/
theorem rounds (h : K.InStep limits n) (hij : K.scope w i j) (condition step : Option Expr)
    (b : Block) (fuel finished : Nat) :
    K.Lockstep (fun _ _ _ => True) w
      (repeatWhile limits.maxIterations (Eval.goesOn limits n i condition) (Eval.block limits n i b)
        (Eval.advance limits n i step) fuel finished)
      (repeatWhile limits.maxIterations (Eval.goesOn limits n j condition) (Eval.block limits n j b)
        (Eval.advance limits n j step) fuel finished) :=
  .repeatWhile limits.maxIterations (fun _ hle => h.goesOn (K.scope_mono hle hij) condition)
    (fun _ hle => h.block (K.scope_mono hle hij) b)
    (fun _ hle => h.advance (K.scope_mono hle hij) step) fuel finished

/-- **Expressions**, by their form: each is put together from the computations above as in the
definition. -/
theorem expr (h : K.InStep limits n) (hij : K.scope w i j) (e : Expr) :
    K.Lockstep K.result w (Expr.eval limits (n + 1) i e) (Expr.eval limits (n + 1) j e) := by
  -- An operand may be evaluated in a later world than the expression was entered in, so it is asked
  -- for in all of them.
  have hval : ∀ w', K.le w w' → ∀ e, K.Lockstep K.value w'
      (Eval.operand (Expr.eval limits n i e)) (Eval.operand (Expr.eval limits n j e)) :=
    fun w' hle => h.operand (K.scope_mono hle hij)
  cases e with
  | integer | boolean | string =>
    simp only [Expr.eval]
    exact .pure (.some (K.plain rfl))
  | ident x =>
    simp only [Expr.eval]
    exact .some (.lookup hij x)
  | unary op e =>
    simp only [Expr.eval]
    refine .bind (h.operand hij e) fun w' _ v v' hv => .some ?_
    rw [op.apply_eq (K.shaped hv)]
    exact .ofExcept_plain fun u hu => PrefixOp.apply_isPlain hu
  | binary op l r =>
    by_cases hop : op = .assign
    · subst hop
      cases l with
      | ident x =>
        simp only [Expr.eval]
        refine .bind ((h w i j hij).1 r).required fun w' hle v v' hv => ?_
        refine .bind (.assign x (K.scope_mono hle hij) hv) fun w'' hle' _ _ _ => ?_
        exact .pure (.some (K.value_mono hle' hv))
      | _ =>
        simp only [Expr.eval]
        exact .fail _
    · simp only [Expr.eval]
      refine .bind (h.operand hij l) fun w₁ h₁ u u' hu => ?_
      refine .bind (hval w₁ h₁ r) fun w₂ h₂ v v' hv => .some ?_
      have hu₂ := K.value_mono h₂ hu
      rw [op.apply_eq (K.shaped hu₂) (K.shaped hv) (K.same hu₂ hv)]
      exact .ofExcept_plain fun u hu => InfixOp.apply_isPlain hu
  | conditional cs alternative =>
    simp only [Expr.eval]
    exact .choose hval (fun w' hle b => h.block (K.scope_mono hle hij) b) cs alternative
  | function ps b =>
    simp only [Expr.eval]
    by_cases hlast : variadicLast ps
    · simp only [if_pos hlast]
      exact .make (fun _ _ => .function b hlast hij) fun _ _ _ _ hv => .pure (.some hv)
    · simp only [if_neg hlast]
      exact .fail _
  | call f args =>
    simp only [Expr.eval]
    refine .bind (h.operand hij f) fun w₁ h₁ c c' hc => ?_
    refine .bind (.values (fun w' h' => hval w' (K.le_trans h₁ h')) args) fun w₂ h₂ vs vs' hvs => ?_
    exact .call limits (fun w' _ i j b hinner => h.body hinner b) (K.value_mono h₂ hc) hvs
  | array es =>
    simp only [Expr.eval]
    exact .bind (.values hval es) fun w₁ _ vs vs' hvs =>
      .make (fun _ _ => .array hvs) fun _ _ _ _ hv => .pure (.some hv)
  | hash ps =>
    simp only [Expr.eval]
    have hentries := (Lockstep.entries hval ps .nil).attach fun _ _ _ =>
      Lockstep.wellKeyed_of_entries .nil
    exact .bind hentries fun w₁ _ es es' hes =>
      .make (fun _ _ => .hash hes.1 hes.2) fun _ _ _ _ hv => .pure (.some hv)
  | index e key =>
    simp only [Expr.eval]
    refine .bind (h.operand hij e) fun w₁ h₁ c c' hc => ?_
    refine .bind (hval w₁ h₁ key) fun w₂ h₂ k k' hk => .some (.ofExcept ?_)
    exact Value.index_agrees (K.plain rfl) (K.shaped (K.value_mono h₂ hc)) (K.shaped hk)

/-- **Statements**, by their form. -/
theorem statement (h : K.InStep limits n) (hij : K.scope w i j) (s : Statement)
    (hs : ∀ x ∈ s.ownNames, K.own w i j x) :
    K.Lockstep K.result w (Statement.eval limits (n + 1) i s)
      (Statement.eval limits (n + 1) j s) := by
  cases s with
  | bind x e =>
    simp only [Statement.eval]
    refine .bind ((h w i j hij).1 e).required fun w₁ h₁ v v' hv => ?_
    have hown : K.own w₁ i j x := K.own_mono h₁ (hs x (List.mem_singleton.mpr rfl))
    exact .bind (.define hown hv) fun w₂ _ _ _ _ => .pure .none
  | ret e =>
    simp only [Statement.eval]
    exact .bind (h.operand hij e) fun w₁ _ v v' hv => .ret hv
  | expr e =>
    simp only [Statement.eval]
    exact (h w i j hij).1 e
  | block b =>
    simp only [Statement.eval]
    exact h.block hij b
  | loop init condition step b =>
    simp only [Statement.eval]
    cases init with
    | none =>
      exact .bind (h.rounds hij condition step b n 0) fun _ _ _ _ _ => .pure .none
    | some s =>
      exact .bind ((h w i j hij).2 s hs) fun w₁ h₁ _ _ _ =>
        .bind (h.rounds (K.scope_mono h₁ hij) condition step b n 0) fun _ _ _ _ _ => .pure .none

end InStep

/-- **Evaluation stays in lock step**, under every coupling. -/
theorem inStep (K : Coupling) (limits : Limits) (n : Nat) : K.InStep limits n := by
  induction n with
  | zero =>
    refine fun w i j _ => ⟨fun e => ?_, fun s _ => ?_⟩
    · simp only [Expr.eval]
      exact .outOfFuel
    · simp only [Statement.eval]
      exact .outOfFuel
  | succ n ih => exact fun w i j hij => ⟨ih.expr hij, ih.statement hij⟩

end Coupling

end Scriptlet
