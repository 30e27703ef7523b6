import Scriptlet.Proofs.Eval.Tasks
import Scriptlet.Proofs.Store.Chain
import Scriptlet.Proofs.Value.Keys

/-!
# Proofs/Eval/Giving — what a task gives, by what its parts give

A task that gives something was put together from tasks that gave something: an array literal from
its elements, a call from the callee and the arguments.  Each lemma here takes one task apart, and
says what evaluation makes of what the parts gave; no amount of fuel is left in it.

The parts of a list are evaluated from left to right, each on the machine that the part before it
left.  `ExprsGive` and `PairsGive` are such chains, with all the machines in between, and they are
what lists of expressions (`values_gives_iff`) and pairs of them (`entries_gives_iff`) amount to.
-/

namespace Scriptlet

open Eval

/-- The machine after an identity was given out. -/
def Machine.spent (m : Machine) : Machine := { m with store := m.store.spendId }

/-! ## Parts

What is evaluated for a part is steady: more fuel does not change what it gives. -/

section

variable {limits : Limits} {i : ScopeId} {α β : Type} {m m' : Machine}

theorem operand_steady (limits : Limits) (i : ScopeId) (e : Expr) :
    Steady fun n => operand (Expr.eval limits n i e) :=
  fun n n' hn => (e.steady limits i n n' hn).operand

theorem values_steady (limits : Limits) (i : ScopeId) (es : List Expr) :
    Steady fun n => Eval.values (fun e => operand (Expr.eval limits n i e)) es :=
  (Task.values i es).steady limits

/-- The pairs of a hash literal. -/
theorem entries_steady (limits : Limits) (i : ScopeId) (ps : List (Expr × Expr))
    (done : List HashEntry) :
    Steady fun n => Eval.entries (fun e => operand (Expr.eval limits n i e)) ps done :=
  (Task.entries i ps done).steady limits

/-- The condition of a loop, there or not. -/
theorem goesOn_steady (limits : Limits) (i : ScopeId) (condition : Option Expr) :
    Steady fun n => goesOn limits n i condition := by
  cases condition with
  | none => exact .const _
  | some c => exact (operand_steady limits i c).bind fun _ => .const _

/-- The step of a loop, there or not. -/
theorem advance_steady (limits : Limits) (i : ScopeId) (step : Option Expr) :
    Steady fun n => advance limits n i step := by
  cases step with
  | none => exact .const _
  | some e => exact e.steady limits i

/-- A call: the body is run with the fuel that it is given. -/
theorem call_steady (limits : Limits) (callee : Value) (args : List Value) :
    Steady fun n => call limits
      (fun inner b => sequence (fun s => Statement.eval limits n inner s) b none) callee args :=
  fun _ _ hn => .call limits.le_refl (.inl rfl)
    (fun inner b => .sequence ((eval_within limits.le_refl (.inl rfl) hn).2 inner) b none) callee
    args

/-- An operation on values gives what it gives and leaves the machine alone. -/
theorem ofExcept_done {r : Except RuntimeError α} {a : α} (h : ofExcept r m = .done a m') :
    r = .ok a ∧ m' = m := by
  cases r with
  | error e => cases h
  | ok b =>
    cases h
    exact ⟨rfl, rfl⟩

/-- An operand is what its expression gives, null for nothing. -/
theorem gives_of_operand_bind {e : Expr} {f : Nat → Value → Eval β} {b : β}
    (h : Settles (fun n => operand (Expr.eval limits n i e) >>= f n) m (.done b m'))
    (hf : ∀ v, Steady fun n => f n v) :
    ∃ r m₁, (Task.expr i e).Gives limits m r m₁ ∧
      Settles (fun n => f n (r.getD .null)) m₁ (.done b m') := by
  simp only [operand, bind_assoc, pure_bind] at h
  exact h.of_bind_done (e.steady limits i) fun r => hf (r.getD .null)

/-- Where something is required, its expression gave it. -/
theorem gives_of_required_bind {e : Expr} {f : Nat → Value → Eval β} {b : β}
    (h : Settles (fun n => required (Expr.eval limits n i e) >>= f n) m (.done b m'))
    (hf : ∀ v, Steady fun n => f n v) :
    ∃ v m₁, (Task.expr i e).Gives limits m (some v) m₁ ∧
      Settles (fun n => f n v) m₁ (.done b m') := by
  simp only [required, bind_assoc] at h
  obtain ⟨r, m₁, hr, h⟩ := h.of_bind_done (e.steady limits i) fun r => by
    cases r with
    | none => exact .const _
    | some v => exact (Steady.const (pure v)).bind hf
  cases r with
  | none => cases h.of_const
  | some v => exact ⟨v, m₁, hr, h⟩

end

/-! ## One after another

The machines in between are part of these chains.  A value in a list is thus the value of its own
expression on the one machine where that expression was evaluated, and nothing else can stand for
it. -/

/-- The expressions, evaluated one after another, **give** these values.  Each is evaluated on the
machine that the one before it left, and counts as null if it gives nothing. -/
inductive ExprsGive (limits : Limits) (i : ScopeId) :
    List Expr → Machine → List Value → Machine → Prop
  | nil {m} : ExprsGive limits i [] m [] m
  | cons {e es m r m₁ vs m'} : (Task.expr i e).Gives limits m r m₁ →
    ExprsGive limits i es m₁ vs m' → ExprsGive limits i (e :: es) m (r.getD .null :: vs) m'

/-- The pairs of expressions, evaluated one after another, **give** pairs of a key and a value,
whether or not these keys can be keys of a hash. -/
inductive PairsGive (limits : Limits) (i : ScopeId) :
    List (Expr × Expr) → Machine → List (Value × Value) → Machine → Prop
  | nil {m} : PairsGive limits i [] m [] m
  | cons {p ps m k m₁ v m₂ kvs m'} :
    (Task.expr i p.1).Gives limits m k m₁ → (Task.expr i p.2).Gives limits m₁ v m₂ →
    PairsGive limits i ps m₂ kvs m' →
    PairsGive limits i (p :: ps) m ((k.getD .null, v.getD .null) :: kvs) m'

namespace Task

variable {limits : Limits} {i : ScopeId} {m m' : Machine} {r : Option Value}

/-! ## Lists

Evaluation of a list, and of the pairs of a hash, is a recursion along the list.  Taken apart step
by step it is the chain, and put together again the chain is the evaluation. -/

/-- The first expression is evaluated first, and the others on the machine that it leaves. -/
theorem values_gives_cons {e : Expr} {es : List Expr} {vs : List Value}
    (h : (values i (e :: es)).Gives limits m vs m') :
    ∃ r m₁ ws, (expr i e).Gives limits m r m₁ ∧ (values i es).Gives limits m₁ ws m' ∧
      vs = r.getD .null :: ws := by
  change Settles (fun n => Eval.values (fun e => operand (Expr.eval limits n i e)) (e :: es)) m
    (.done vs m') at h
  simp only [Eval.values] at h
  obtain ⟨r, m₁, hr, h⟩ := gives_of_operand_bind h fun v =>
    (values_steady limits i es).bind fun ws => .const _
  obtain ⟨ws, m₂, hws, h⟩ := h.of_bind_done (values_steady limits i es) fun _ => .const _
  cases h.of_const
  exact ⟨r, m₁, ws, hr, hws, rfl⟩

/-- **A list of expressions gives what its chain gives**: each value is that of the expression in
its place. -/
theorem values_gives_iff {es : List Expr} {vs : List Value} :
    (values i es).Gives limits m vs m' ↔ ExprsGive limits i es m vs m' := by
  constructor
  · intro h
    induction es generalizing m vs with
    | nil =>
      cases h.of_const
      exact .nil
    | cons e es ih =>
      obtain ⟨r, m₁, ws, hr, hws, rfl⟩ := values_gives_cons h
      exact .cons hr (ih hws)
  · intro h
    induction h with
    | nil => exact .const rfl rfl
    | cons hr _ ih => exact hr.operand.bind (Settles.bind ih (.const rfl rfl))

/-- The key of the first pair, then its value, and then the other pairs with this one entered. -/
theorem entries_gives_cons {p : Expr × Expr} {ps : List (Expr × Expr)}
    {done es : List HashEntry} (h : (entries i (p :: ps) done).Gives limits m es m') :
    ∃ k m₁ key r m₂, (expr i p.1).Gives limits m k m₁ ∧ (k.getD .null).toHashKey = .ok key ∧
      (expr i p.2).Gives limits m₁ r m₂ ∧
      (entries i ps (insertPair key ⟨k.getD .null, r.getD .null⟩ done)).Gives limits m₂ es m' := by
  change Settles (fun n => Eval.entries (fun e => operand (Expr.eval limits n i e))
    (p :: ps) done) m
    (.done es m') at h
  simp only [Eval.entries] at h
  obtain ⟨k, m₁, hk, hrest⟩ := gives_of_operand_bind h fun v => (Steady.const _).bind fun key =>
    (operand_steady limits i p.2).bind fun v => entries_steady limits i ps _
  obtain ⟨key, m₂, hkey, hothers⟩ := hrest.of_bind_done (.const _) fun key =>
    (operand_steady limits i p.2).bind fun v => entries_steady limits i ps _
  obtain ⟨hkeys, rfl⟩ := ofExcept_done hkey.of_const
  obtain ⟨r, m₃, hr, hothers⟩ := gives_of_operand_bind hothers fun v => entries_steady limits i ps _
  exact ⟨k, m₂, key, r, m₃, hk, hkeys, hr, hothers⟩

/-- **Pairs of expressions give the entries that their chain makes**, and do so only if all keys can
be keys. -/
theorem entries_gives_iff {ps : List (Expr × Expr)} {done es : List HashEntry} :
    (entries i ps done).Gives limits m es m' ↔
      ∃ kvs, PairsGive limits i ps m kvs m' ∧ (∀ q ∈ kvs, q.1.IsKey) ∧ es = putPairs kvs done := by
  constructor
  · intro h
    induction ps generalizing m done with
    | nil =>
      cases h.of_const
      exact ⟨[], .nil, nofun, rfl⟩
    | cons p ps ih =>
      obtain ⟨k, m₁, key, r, m₂, hk, hkey, hr, h⟩ := entries_gives_cons h
      obtain ⟨kvs, hkvs, hkeys, rfl⟩ := ih h
      replace hkey := Value.toHashKey_eq_ok_iff.mp hkey
      exact ⟨_, .cons hk hr hkvs,
        List.forall_mem_cons.mpr ⟨Value.isKey_iff_hashKey?.mpr ⟨key, hkey⟩, hkeys⟩,
        (putPairs_cons hkey _ kvs done).symm⟩
  · rintro ⟨kvs, h, hkeys, rfl⟩
    induction h generalizing done with
    | nil => exact .const rfl rfl
    | @cons p ps m k m₁ v m₂ kvs m' hk hv _ ih =>
      obtain ⟨hfirst, hothers⟩ := List.forall_mem_cons.mp hkeys
      obtain ⟨key, hkey⟩ := Value.isKey_iff_hashKey?.mp hfirst
      rw [putPairs_cons hkey]
      exact hk.operand.bind ((Settles.ofExcept (Value.toHashKey_eq_ok_iff.mpr hkey)).bind
        (hv.operand.bind (ih hothers)))

/-! ## Expressions

One lemma for each form of expression that the proofs about identities and names need to take apart.
-/

/-- A name gives what it is bound to or, if it is not bound, the built-in of that name; no machine
changes. -/
theorem ident_gives {x : String} (h : (expr i (.ident x)).Gives limits m r m') :
    m' = m ∧ ∃ v, r = some v ∧ (m.store.get? i x = some v ∨
      m.store.get? i x = none ∧ ∃ b, Builtin.ofName? x = some b ∧ v = .builtin b) := by
  replace h := settles_succ.mpr h
  simp only [Task.eval, Expr.eval] at h
  obtain ⟨v, m₁, hv, h⟩ := h.of_bind_done (.const _) fun _ => .const _
  cases h.of_const
  replace hv := hv.of_const
  unfold lookup at hv
  split at hv
  · rename_i hget
    cases hv
    exact ⟨rfl, v, rfl, .inl hget⟩
  · rename_i hget
    split at hv
    · rename_i b hb
      cases hv
      exact ⟨rfl, .builtin b, rfl, .inr ⟨hget, b, hb, rfl⟩⟩
    · cases hv

/-- A function literal gives a function of this scope, with a new identity. -/
theorem function_gives {params : List Param} {b : Block}
    (h : (expr i (.function params b)).Gives limits m r m') :
    r = some (.function m.store.nextId params b i) ∧ m' = m.spent := by
  replace h := settles_succ.mpr h
  simp only [Task.eval, Expr.eval] at h
  replace h := h.of_const
  split at h
  · cases h
    exact ⟨rfl, rfl⟩
  · cases h

/-- An array literal gives an array of what its elements gave, with an identity that is taken after
them. -/
theorem array_gives {es : List Expr} (h : (expr i (.array es)).Gives limits m r m') :
    ∃ vs m₁, (values i es).Gives limits m vs m₁ ∧ r = some (.array m₁.store.nextId vs) ∧
      m' = m₁.spent := by
  replace h := settles_succ.mpr h
  simp only [Task.eval, Expr.eval] at h
  obtain ⟨vs, m₁, hvs, h⟩ := h.of_bind_done (values_steady limits i es) fun _ => .const _
  cases h.of_const
  exact ⟨vs, m₁, hvs, rfl, rfl⟩

/-- A hash literal gives the entries that its pairs made, with an identity that is taken after them.
-/
theorem hash_gives {ps : List (Expr × Expr)} (h : (expr i (.hash ps)).Gives limits m r m') :
    ∃ es m₁, (entries i ps []).Gives limits m es m₁ ∧ r = some (.hash m₁.store.nextId es) ∧
      m' = m₁.spent := by
  replace h := settles_succ.mpr h
  simp only [Task.eval, Expr.eval] at h
  obtain ⟨es, m₁, hes, h⟩ := h.of_bind_done (entries_steady limits i ps []) fun _ => .const _
  cases h.of_const
  exact ⟨es, m₁, hes, rfl, rfl⟩

/-- The container is evaluated before the key, and the operation on the two changes no machine. -/
theorem index_gives {e k : Expr} (h : (expr i (.index e k)).Gives limits m r m') :
    ∃ c m₁ key v, (expr i e).Gives limits m c m₁ ∧ (expr i k).Gives limits m₁ key m' ∧
      (c.getD .null).index (key.getD .null) = .ok v ∧ r = some v := by
  replace h := settles_succ.mpr h
  simp only [Task.eval, Expr.eval] at h
  obtain ⟨c, m₁, hc, h⟩ := gives_of_operand_bind h fun c =>
    (operand_steady limits i k).bind fun key => .const _
  obtain ⟨key, m₂, hkey, hlast⟩ := gives_of_operand_bind h fun _ => .const _
  replace hlast := hlast.of_const
  rw [bind_apply] at hlast
  cases hv : (c.getD .null).index (key.getD .null) with
  | error e =>
    rw [hv] at hlast
    cases hlast
  | ok v =>
    rw [hv] at hlast
    cases hlast
    exact ⟨c, m₁, key, v, hc, hkey, hv, rfl⟩

/-- **A call of a built-in** gives what the built-in makes of the arguments, and spends an
identity. -/
theorem call_builtin_gives {f : Expr} {args : List Expr} {b : Builtin} {m₁ m₂ : Machine}
    {vs : List Value} (h : (expr i (.call f args)).Gives limits m r m')
    (hf : (expr i f).Gives limits m (some (.builtin b)) m₁)
    (hargs : (values i args).Gives limits m₁ vs m₂) :
    ∃ v, b.call m₂.store.nextId vs = .ok v ∧ r = some v ∧ m' = m₂.spent := by
  replace h := settles_succ.mpr h
  simp only [Task.eval, Expr.eval] at h
  obtain ⟨c, m₁', hc, h⟩ := gives_of_operand_bind h fun c =>
    (values_steady limits i args).bind fun vs => call_steady limits c vs
  cases hf.unique hc
  obtain ⟨vs', m₂', hvs, h⟩ := h.of_bind_done (values_steady limits i args) fun vs =>
    call_steady limits _ vs
  cases hargs.unique hvs
  replace h := h.of_const
  change (do return some (← Eval.ofExcept (b.call m₂.store.nextId vs)) : Eval (Option Value))
    m₂.spent = .done r m' at h
  cases hv : b.call m₂.store.nextId vs with
  | error e =>
    rw [hv] at h
    cases h
  | ok v =>
    rw [hv] at h
    cases h
    exact ⟨v, rfl, rfl, rfl⟩

end Task

/-! ## Loop headers

The condition and the step of a loop may be missing, which counts as a condition that holds and as a
step that does nothing. -/

section

variable {limits : Limits} {i : ScopeId} {m m' : Machine}

/-- A condition that is there is an operand, which is truthy or not. -/
theorem settles_goesOn_some {c : Expr} {holds : Bool} :
    Settles (fun n => goesOn limits n i (some c)) m (.done holds m') ↔
      ∃ r, (Task.expr i c).Gives limits m r m' ∧ (r.getD .null).truthy = holds := by
  constructor
  · intro h
    obtain ⟨r, m₁, hr, hlast⟩ := gives_of_operand_bind h fun _ => .const _
    cases hlast.of_const
    exact ⟨r, hr, rfl⟩
  · rintro ⟨r, hr, rfl⟩
    exact hr.operand.bind (.const rfl rfl)

/-- A condition leaves the machine alone, if there is none, or else it is an expression that gives
something. -/
theorem goesOn_gives {condition : Option Expr} {holds : Bool}
    (h : Settles (fun n => goesOn limits n i condition) m (.done holds m')) :
    m' = m ∨ ∃ c r, (Task.expr i c).Gives limits m r m' := by
  cases condition with
  | none =>
    cases h.of_const
    exact .inl rfl
  | some c =>
    obtain ⟨r, hr, -⟩ := settles_goesOn_some.mp h
    exact .inr ⟨c, r, hr⟩

theorem advance_gives {step : Option Expr} {r : Option Value}
    (h : Settles (fun n => advance limits n i step) m (.done r m')) :
    m' = m ∨ ∃ e, (Task.expr i e).Gives limits m r m' := by
  cases step with
  | none =>
    cases h.of_const
    exact .inl rfl
  | some e => exact .inr ⟨e, h⟩

end

/-! ## Arguments

Binding the parameters of a call is a recursion along the parameters, in which the arguments get
fewer.  `parameterValue` says without that recursion what each parameter is bound to. -/

section

variable {scope : ScopeId} {m m' : Machine} {params : List Param} {args : List Value}

/-- A name is bound if the scope did not own it, and nothing else changes. -/
theorem define_done {x : String} {v : Value} (h : define scope x v m = .done () m') :
    m.store.owns scope x = false ∧ m' = { m with store := m.store.bind scope x v } := by
  unfold define at h
  split at h
  · cases h
  · rename_i howns
    cases h
    exact ⟨Bool.not_eq_true _ ▸ howns, rfl⟩

/-- A call makes a scope inside the one that the function captured, if it accepts the arguments, and
binds its parameters there. -/
theorem callScope_done {captured inner : ScopeId}
    (h : callScope params captured args m = .done inner m') :
    inner = m.store.nextScope ∧ accepts params args.length ∧
      bindParams inner params args (m.enclosed captured) = .done () m' := by
  unfold callScope at h
  split at h
  · rename_i haccepts
    change (bindParams m.store.nextScope params args >>= fun _ => pure m.store.nextScope)
      (m.enclosed captured) = .done inner m' at h
    rw [bind_apply] at h
    split at h
    · rename_i hbind
      cases h
      exact ⟨rfl, haccepts, hbind⟩
    · cases h
    · cases h
  · cases h

/-- What the parameter at the place `k` is bound to: the argument at that place or, if it takes all
that is left, an array of these under the identity `fresh`. -/
def parameterValue (params : List Param) (args : List Value) (fresh : Identity) (k : Nat)
    (p : Param) : Value :=
  if p.variadic ∧ k + 1 = params.length then .array fresh (args.drop k) else args.getD k .null

/-- A name that the scope binds stays bound to its value: no name is bound twice. -/
theorem own?_bind_of_owns {s : Store} {x y : String} {u v : Value} (hx : s.owns scope x = false)
    (hscope : scope < s.nextScope) (hy : s.own? scope y = some u) :
    (s.bind scope x v).own? scope y = some u := by
  rw [Store.written_bind hscope, if_neg, hy]
  rintro ⟨-, rfl⟩
  rw [Store.owns_eq_isSome, hy] at hx
  cases hx

theorem own?_bind_self {s : Store} (hscope : scope < s.nextScope) (x : String) (v : Value) :
    (s.bind scope x v).own? scope x = some v :=
  (Store.written_bind hscope x v scope x).trans (if_pos ⟨rfl, rfl⟩)

/-- The last parameter, if it is variadic, gets an array of what is left. -/
theorem parameterValue_rest {q : Param} (hq : q.variadic) (args : List Value) (fresh : Identity) :
    parameterValue [q] args fresh 0 q = .array fresh args := by
  rw [parameterValue, if_pos ⟨hq, rfl⟩, List.drop_zero]

/-- The first parameter gets the first argument, null if there is none, unless it takes them all. -/
theorem parameterValue_zero {q : Param} {ps : List Param} (hlast : ¬ (q.variadic && ps.isEmpty))
    (args : List Value) (fresh : Identity) :
    parameterValue (q :: ps) args fresh 0 q = args.headD .null := by
  rw [parameterValue, if_neg]
  · cases args <;> rfl
  · rintro ⟨hq, hlen⟩
    rw [hq, Bool.true_and, List.isEmpty_iff] at hlast
    exact hlast (List.length_eq_zero_iff.mp (Nat.succ.inj hlen).symm)

/-- The others get what is left. -/
theorem parameterValue_succ (q : Param) (ps : List Param) (args : List Value) (fresh : Identity)
    (k : Nat) (p : Param) : parameterValue (q :: ps) args fresh (k + 1) p =
      parameterValue ps args.tail fresh k p := by
  unfold parameterValue
  cases args with
  | nil => simp only [List.length_cons, Nat.add_right_cancel_iff, List.drop_nil, List.tail_nil,
      List.getD_nil]
  | cons v vs => simp only [List.length_cons, Nat.add_right_cancel_iff, List.drop_succ_cons,
      List.tail_cons, List.getD_cons_succ]

/-- **Each parameter is bound to its argument**, and what the scope bound before stays. -/
theorem bindParams_done (h : bindParams scope params args m = .done () m')
    (hscope : scope < m.store.nextScope) :
    (∀ y u, m.store.own? scope y = some u → m'.store.own? scope y = some u) ∧
      ∀ k p, params[k]? = some p → m'.store.own? scope p.name =
        some (parameterValue params args m.store.nextId k p) := by
  -- Along the parameters, for any arguments and machine; each name is new when its turn comes, so
  -- no later one replaces it.
  induction params generalizing args m with
  | nil =>
    cases h
    exact ⟨fun _ _ hy => hy, nofun⟩
  | cons q ps ih =>
    unfold bindParams at h
    split at h
    · rename_i hlast
      obtain ⟨hq, hps⟩ := Bool.and_eq_true_iff.mp hlast
      obtain rfl := List.isEmpty_iff.mp hps
      obtain ⟨howns, rfl⟩ := define_done (m := m.spent) h
      refine ⟨fun y u hy => own?_bind_of_owns howns hscope hy, fun k p hp => ?_⟩
      cases k with
      | succ k => cases hp
      | zero =>
        obtain rfl := Option.some.inj hp
        rw [parameterValue_rest hq]
        exact own?_bind_self hscope _ _
    · rename_i hlast
      rw [bind_apply] at h
      split at h
      · rename_i hdefine
        obtain ⟨howns, rfl⟩ := define_done hdefine
        have hchanged := m.store.changed_bind scope q.name (args.headD .null)
        obtain ⟨hold, hparams⟩ := ih h (hchanged.nextScope.symm ▸ hscope)
        refine ⟨fun y u hy => hold y u (own?_bind_of_owns howns hscope hy), fun k p hp => ?_⟩
        cases k with
        | succ k => rw [hparams k p hp, parameterValue_succ]; rfl
        | zero =>
          obtain rfl := Option.some.inj hp
          rw [hold _ _ (own?_bind_self hscope _ _), parameterValue_zero hlast]
      · cases h
      · cases h

/-- **In the scope of a call, the name of a parameter gives what it is bound to.** -/
theorem callScope_parameter {captured inner : ScopeId}
    (h : callScope params captured args m = .done inner m') {k : Nat} {p : Param}
    (hp : params[k]? = some p) :
    m'.store.get? inner p.name = some (parameterValue params args m.store.nextId k p) := by
  obtain ⟨rfl, -, hbind⟩ := callScope_done h
  have hinner : m.store.nextScope < (m.enclosed captured).store.nextScope :=
    Nat.lt_of_lt_of_eq (Nat.lt_succ_self _) (m.store.nextScope_addScope _).symm
  exact Store.get?_of_own? ((bindParams_done hbind hinner).2 k p hp)

end

/-! ## Variables

A `let` and an assignment store what their expression gave, on the machine that it left. -/

namespace Task

variable {limits : Limits} {i : ScopeId} {x : String} {e : Expr} {m m' : Machine}
  {r : Option Value}

/-- A `let` binds its name in the scope itself, which did not own it. -/
theorem bind_gives (h : (statement i (.bind x e)).Gives limits m r m') :
    ∃ v m₁, (expr i e).Gives limits m (some v) m₁ ∧ m₁.store.owns i x = false ∧
      m' = { m₁ with store := m₁.store.bind i x v } := by
  replace h := settles_succ.mpr h
  simp only [Task.eval, Statement.eval] at h
  obtain ⟨v, m₁, hv, h⟩ := gives_of_required_bind h fun _ => .const _
  obtain ⟨_, m₂, hdefine, h⟩ := h.of_bind_done (.const _) fun _ => .const _
  cases h.of_const
  obtain ⟨howns, rfl⟩ := define_done hdefine.of_const
  exact ⟨v, m₁, hv, howns, rfl⟩

/-- An assignment changes the name in the scope where it is found, and gives what it stored. -/
theorem assign_gives (h : (expr i (.binary .assign (.ident x) e)).Gives limits m r m') :
    ∃ v m₁ home, (expr i e).Gives limits m (some v) m₁ ∧ r = some v ∧
      m₁.store.resolve i x = some home ∧ m' = { m₁ with store := m₁.store.set home x v } := by
  replace h := settles_succ.mpr h
  simp only [Task.eval, Expr.eval] at h
  obtain ⟨v, m₁, hv, h⟩ := gives_of_required_bind h fun _ => .const _
  obtain ⟨_, m₂, hassign, h⟩ := h.of_bind_done (.const _) fun _ => .const _
  cases h.of_const
  replace hassign := hassign.of_const
  unfold assign at hassign
  split at hassign
  · cases hassign
  · rename_i home hhome
    cases hassign
    exact ⟨v, m₁, home, hv, rfl, hhome, rfl⟩

end Task

end Scriptlet
