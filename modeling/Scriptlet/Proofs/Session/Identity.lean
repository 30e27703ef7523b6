import Scriptlet.Proofs.Eval.Giving
import Scriptlet.Proofs.Eval.Names
import Scriptlet.Proofs.Eval.Register
import Scriptlet.Proofs.Session.History

/-!
# Proofs/Session/Identity — identity along every run

A host has values at hand: it makes some, it gets some out of arrays, hashes and scopes, and
programs give it some.  `Store.Held s vs` says that it can come to the store `s` with `vs` at hand.
An evaluation that has not ended holds values in the same way, so what its tasks give counts as
well; then every state on the way of an evaluation is such a state (`Held.enters`).

In all these states identity is sound (`Held.sound`): what is the same is equal, what is made
is new to all that is there, and what is handed on is handed on itself.
-/

namespace Scriptlet

open Eval

/-! ## Values at hand

Held values come with the store they were given in, and stay held while the store goes on, since
nothing that was made is ever changed.  A register of all that was made (`Store.Registered`) shows
that they can be told apart by their identities. -/

/-- The store and the values that are **held**, by a host or by an evaluation on its way: what a
history of making values, looking into them, binding them and evaluating can lead to. -/
inductive Store.Held : Store → List Value → Prop
  | empty : Held .empty []
  | addScope {s : Store} {vs : List Value} (outer : Option ScopeId) :
    Held s vs → Held (s.addScope outer) vs
  /-- An integer, a string, an error: what carries no identity. -/
  | bare {s : Store} {vs : List Value} {v : Value} :
    Held s vs → v.identity? = none → Held s (v :: vs)
  /-- An array, a hash or a function, made of what is held under the identity that is next. -/
  | make {s : Store} {vs : List Value} {v : Value} :
    Held s vs → v.identity? = some s.nextId → (∀ u : Value, u.PartOf v → u ∈ vs) →
      Held s.spendId (v :: vs)
  /-- Taking out of an array or a hash. -/
  | part {s : Store} {vs : List Value} {u v : Value} :
    Held s vs → v ∈ vs → u.PartOf v → Held s (u :: vs)
  | get {s : Store} {vs : List Value} {i : ScopeId} {x : String} {v : Value} :
    Held s vs → s.get? i x = some v → Held s (v :: vs)
  | define {s t : Store} {vs : List Value} {i : ScopeId} {x : String} {v : Value} :
    Held s vs → v ∈ vs → s.define i x v = .ok t → Held t vs
  | assign {s t : Store} {vs : List Value} {i : ScopeId} {x : String} {v : Value} :
    Held s vs → v ∈ vs → s.assign i x v = .ok t → Held t vs
  /-- A program, however it ends. -/
  | eval {s : Store} {vs : List Value} {limits : Limits} {fuel : Nat} {i : ScopeId} {p : Program}
      {d : Nat} {v : Value} {m : Machine} :
    Held s vs → Program.eval limits fuel i p ⟨s, d⟩ = some (v, m) → Held m.store (v :: vs)
  /-- A part of a program, while the values before it are waiting. -/
  | gives {s : Store} {vs : List Value} {limits : Limits} {d : Nat} {t : Task} {r : t.Result}
      {m : Machine} :
    Held s vs → (∀ v ∈ t.taken, v ∈ vs) → t.Gives limits ⟨s, d⟩ r m → Held m.store (t.given r ++ vs)

/-- The value is **present**: it is held or bound, or somewhere inside such a value. -/
def Store.Present (s : Store) (vs : List Value) (u : Value) : Prop :=
  (∃ v ∈ vs, Value.Holds u v) ∨ ∃ (i : ScopeId) (c : Scope) (b : String × Value),
    s.scopes[i]? = some c ∧ b ∈ c.bindings ∧ Value.Holds u b.2

/-- More is present where more is held. -/
theorem Store.Present.mono {s : Store} {vs ws : List Value} (hsub : ∀ v ∈ vs, v ∈ ws) {u : Value}
    (h : s.Present vs u) : s.Present ws u :=
  h.imp_left fun ⟨v, hv, hu⟩ => ⟨v, hsub v hv, hu⟩

namespace Store.Held

variable {s t : Store} {vs : List Value} {limits : Limits} {m m' : Machine} {v : Value}

/-- **All that is held is registered.** -/
theorem registered (h : s.Held vs) : ∃ R, s.Registered R ∧ ∀ v ∈ vs, v.Registered R := by
  -- Along the history; each step that makes a value enters it, and each step that looks into values
  -- stays within what was entered.
  induction h with
  | empty => exact ⟨.empty, .empty, nofun⟩
  | addScope outer _ ih =>
    obtain ⟨R, hs, hvs⟩ := ih
    exact ⟨R, hs.addScope outer, hvs⟩
  | bare _ hv ih =>
    obtain ⟨R, hs, hvs⟩ := ih
    exact ⟨R, hs, List.forall_mem_cons.mpr ⟨Value.registered_of_bare hv, hvs⟩⟩
  | @make s vs v _ hid hparts ih =>
    obtain ⟨R, hs, hvs⟩ := ih
    refine ⟨R.enter v, hs.enter v, List.forall_mem_cons.mpr ⟨?_, fun u hu => ?_⟩⟩
    · exact Value.registered_enter (hs.next ▸ hid) fun u hu => hvs u (hparts u hu)
    · exact (hvs u hu).extends (R.enter_extends v)
  | part _ hv hu ih =>
    obtain ⟨R, hs, hvs⟩ := ih
    exact ⟨R, hs, List.forall_mem_cons.mpr ⟨(hvs _ hv).held hu.holds, hvs⟩⟩
  | get _ hget ih =>
    obtain ⟨R, hs, hvs⟩ := ih
    exact ⟨R, hs, List.forall_mem_cons.mpr ⟨hs.binds.get? hget, hvs⟩⟩
  | define _ hv hdefine ih =>
    obtain ⟨R, hs, hvs⟩ := ih
    obtain ⟨-, rfl⟩ := Store.define_eq_ok hdefine
    exact ⟨R, hs.bind (hvs _ hv) _ _, hvs⟩
  | assign _ hv hassign ih =>
    obtain ⟨R, hs, hvs⟩ := ih
    obtain ⟨home, -, rfl⟩ := Store.assign_eq_ok hassign
    exact ⟨R, hs.set (hvs _ hv) _ _, hvs⟩
  | eval _ heval ih =>
    obtain ⟨R, hs, hvs⟩ := ih
    obtain ⟨R', hle, hs', hv⟩ := Program.eval_registered heval hs
    exact ⟨R', hs', List.forall_mem_cons.mpr ⟨hv, fun v hv => (hvs v hv).extends hle⟩⟩
  | gives _ ht hgives ih =>
    obtain ⟨R, hs, hvs⟩ := ih
    obtain ⟨R', hle, hs', hr⟩ := hgives.registered hs fun v hv => hvs v (ht v hv)
    refine ⟨R', hs', fun v hv => ?_⟩
    rcases List.mem_append.mp hv with hv | hv
    · exact hr v hv
    · exact (hvs v hv).extends hle

/-- Whatever is present was registered when it was made, as was all that is inside it. -/
theorem registered_of_present {R : Register} (hs : s.Registered R)
    (hvs : ∀ v ∈ vs, v.Registered R) {u : Value} (hu : s.Present vs u) : u.Registered R := by
  rcases hu with ⟨v, hv, hu⟩ | ⟨i, c, b, hc, hb, hu⟩
  · exact (hvs v hv).held hu
  · exact (hs.binds i c hc b hb).held hu

/-- **Values that are present are told apart by their identities.** -/
theorem toldApart (h : s.Held vs) : Value.ToldApart (s.Present vs) := by
  obtain ⟨R, hs, hvs⟩ := h.registered
  exact Value.toldApart_of_registered fun u hu => registered_of_present hs hvs hu

/-- **What is made is new** to all that is present, unless it is an empty array. -/
theorem newTo (h : s.Held vs) (hid : v.identity? = some s.nextId) (hne : ∀ i, v ≠ .array i []) :
    v.NewTo (s.Present vs) := by
  obtain ⟨R, hs, hvs⟩ := h.registered
  exact Value.newTo_of_registered (fun u hu => registered_of_present hs hvs hu) (hs.next ▸ hid) hne

/-- An array with elements, which a host makes, is new to all that is present. -/
theorem array_newTo (h : s.Held vs) {es : List Value} (hes : es ≠ []) :
    (Value.array s.nextId es).NewTo (s.Present vs) :=
  h.newTo rfl fun _ heq => hes (Value.array.inj heq).2

/-! ## On the way of an evaluation

A task that is entered may have been given values by the tasks before it, as arguments or elements
of what is being made.  These count as held while the task is on its way. -/

/-- A held value is bound. -/
theorem define_done {scope : ScopeId} {x : String} (h : m.store.Held vs) (hv : v ∈ vs)
    (hdefine : Eval.define scope x v m = .done () m') : m'.store.Held vs := by
  rw [define_apply] at hdefine
  split at hdefine
  · rename_i hstore
    cases hdefine
    exact h.define hv hstore
  · cases hdefine

/-- Arguments are bound to parameters; an array of the last ones is made on the way. -/
theorem bindParams {scope : ScopeId} {params : List Param} {args : List Value}
    (h : m.store.Held vs) (hargs : ∀ v ∈ args, v ∈ vs)
    (hbind : Eval.bindParams scope params args m = .done () m') :
    ∃ ws, m'.store.Held ws ∧ ∀ v ∈ vs, v ∈ ws := by
  induction params generalizing args m vs with
  | nil =>
    cases hbind
    exact ⟨vs, h, fun _ hv => hv⟩
  | cons q ps ih =>
    unfold Eval.bindParams at hbind
    split at hbind
    · have harray : m.spent.store.Held (.array m.store.nextId args :: vs) := h.make rfl hargs
      exact ⟨_, harray.define_done List.mem_cons_self hbind, fun _ => List.mem_cons_of_mem _⟩
    · rw [bind_apply] at hbind
      split at hbind
      · rename_i hdefine
        -- a parameter without an argument is bound to null
        have hnull : m.store.Held (.null :: vs) := h.bare rfl
        have hmem : args.headD .null ∈ Value.null :: vs := by
          cases args with
          | nil => exact List.mem_cons_self
          | cons v _ => exact List.mem_cons_of_mem _ (hargs v List.mem_cons_self)
        obtain ⟨ws, hws, hvs⟩ := ih (hnull.define_done hmem hdefine)
          (fun v hv => List.mem_cons_of_mem _ (hargs v (List.mem_of_mem_tail hv))) hbind
        exact ⟨ws, hws, fun v hv => hvs v (List.mem_cons_of_mem _ hv)⟩
      · cases hbind
      · cases hbind

/-- What a task gives is held from then on, with all that was held before. -/
theorem gave {t : Task} {r : t.Result} (h : m.store.Held vs) (ht : ∀ v ∈ t.taken, v ∈ vs)
    (hgives : t.Gives limits m r m') : m'.store.Held (t.given r ++ vs) :=
  .gives h ht hgives

/-- An operand is held, as null if its expression gives nothing. -/
theorem gaveOperand {i : ScopeId} {e : Expr} {r : Option Value} (h : m.store.Held vs)
    (hgives : (Task.expr i e).Gives limits m r m') :
    ∃ ws, m'.store.Held ws ∧ (∀ v ∈ vs, v ∈ ws) ∧ r.getD .null ∈ ws := by
  have hgave := h.gave (List.forall_mem_nil _) hgives
  cases r with
  | none =>
    exact ⟨_, hgave.bare (v := .null) rfl,
      fun _ hv => List.mem_cons_of_mem _ (List.mem_append_right _ hv), List.mem_cons_self⟩
  | some v => exact ⟨_, hgave, fun _ => List.mem_append_right _, List.mem_cons_self⟩

/-- The keys and values of pairs are held, those as well that a later pair replaces. -/
theorem gavePairs {i : ScopeId} {ps : List (Expr × Expr)} {kvs : List (Value × Value)}
    (h : m.store.Held vs) (hgives : PairsGive limits i ps m kvs m') :
    ∃ ws, m'.store.Held ws ∧ (∀ v ∈ vs, v ∈ ws) ∧ ∀ q ∈ kvs, q.1 ∈ ws ∧ q.2 ∈ ws := by
  induction hgives generalizing vs with
  | nil => exact ⟨vs, h, fun _ hv => hv, List.forall_mem_nil _⟩
  | cons hk hv _ ih =>
    obtain ⟨us₁, hus₁, hsub₁, hkey⟩ := h.gaveOperand hk
    obtain ⟨us₂, hus₂, hsub₂, hvalue⟩ := hus₁.gaveOperand hv
    obtain ⟨ws, hws, hsub, hpairs⟩ := ih hus₂
    exact ⟨ws, hws, fun v hv => hsub v (hsub₂ v (hsub₁ v hv)),
      List.forall_mem_cons.mpr ⟨⟨hsub _ (hsub₂ _ hkey), hsub _ hvalue⟩, hpairs⟩⟩

/-- A condition is evaluated, and what was held is held. -/
theorem goesOn {i : ScopeId} {condition : Option Expr} {holds : Bool} (h : m.store.Held vs)
    (hgoesOn : Settles (fun n => Eval.goesOn limits n i condition) m (.done holds m')) :
    ∃ ws, m'.store.Held ws ∧ ∀ v ∈ vs, v ∈ ws := by
  rcases goesOn_gives hgoesOn with rfl | ⟨c, r, hgives⟩
  · exact ⟨vs, h, fun _ hv => hv⟩
  · exact ⟨_, h.gave (List.forall_mem_nil _) hgives, fun _ => List.mem_append_right _⟩

theorem advance {i : ScopeId} {step : Option Expr} {r : Option Value} (h : m.store.Held vs)
    (hadvance : Settles (fun n => Eval.advance limits n i step) m (.done r m')) :
    ∃ ws, m'.store.Held ws ∧ ∀ v ∈ vs, v ∈ ws := by
  rcases advance_gives hadvance with rfl | ⟨e, hgives⟩
  · exact ⟨vs, h, fun _ hv => hv⟩
  · exact ⟨_, h.gave (List.forall_mem_nil _) hgives, fun _ => List.mem_append_right _⟩

/-- **What evaluation enters, it enters with all that was held.** -/
theorem enters {t t' : Task} (h : m.store.Held vs) (ht : ∀ v ∈ t.taken, v ∈ vs)
    (henters : Enters limits (t, m) (t', m')) :
    ∃ ws, m'.store.Held ws ∧ (∀ v ∈ vs, v ∈ ws) ∧ ∀ v ∈ t'.taken, v ∈ ws := by
  -- One case for each way to enter a task: the values that the entered task takes were given by
  -- those before it, on the machines that the chain in between leaves.
  cases henters with
  | body hf hargs _ hscope =>
    have h₂ := (h.gave (List.forall_mem_nil _) hf).gave (List.forall_mem_nil _) hargs
    obtain ⟨rfl, -, hbind⟩ := callScope_done hscope
    obtain ⟨ws, hws, hvs⟩ := bindParams (m := Machine.enclosed _ _) (h₂.addScope (some _))
      (fun v hv => List.mem_append_left _ hv) hbind
    exact ⟨ws, hws, fun v hv => hvs v (List.mem_append_right _ (List.mem_append_right _ hv)),
      List.forall_mem_nil _⟩
  | otherEntries hk _ hv =>
    obtain ⟨us, hus, hsub, hkey⟩ := h.gaveOperand hk
    obtain ⟨ws, hws, hsub', hvalue⟩ := hus.gaveOperand hv
    have hdone := Task.forall_mem_flatMap_both.mp fun u hu => hsub' u (hsub u (ht u hu))
    exact ⟨ws, hws, fun v hv => hsub' v (hsub v hv),
      Task.forall_mem_flatMap_both.mpr (forall_insertPair (P := fun _ q => q.All (· ∈ _)) hdone
        ⟨hsub' _ hkey, hvalue⟩)⟩
  | others hv =>
    exact ⟨_, h.gave (List.forall_mem_nil _) hv, fun _ => List.mem_append_right _,
      fun _ => List.mem_append_left _⟩
  | taken hv _ =>
    exact ⟨_, (h.gave (List.forall_mem_nil _) hv).addScope (some _),
      fun _ => List.mem_append_right _, List.forall_mem_nil _⟩
  | alternative | block => exact ⟨vs, h.addScope (some _), fun _ hv => hv, List.forall_mem_nil _⟩
  | round hgoesOn _ =>
    obtain ⟨ws, hws, hvs⟩ := h.goesOn hgoesOn
    exact ⟨ws, hws.addScope (some _), hvs, List.forall_mem_nil _⟩
  | step hgoesOn _ hb =>
    obtain ⟨ws, hws, hvs⟩ := h.goesOn hgoesOn
    have hbody := gave (m := Machine.enclosed _ _) (hws.addScope (some _))
      (List.forall_mem_nil _) hb
    exact ⟨_, hbody, fun v hv => List.mem_append_right _ (hvs v hv), List.forall_mem_nil _⟩
  | otherRounds hgoesOn _ hb hstep =>
    obtain ⟨ws, hws, hvs⟩ := h.goesOn hgoesOn
    have hbody := gave (m := Machine.enclosed _ _) (hws.addScope (some _))
      (List.forall_mem_nil _) hb
    obtain ⟨us, hus, hws'⟩ := hbody.advance hstep
    exact ⟨us, hus, fun v hv => hws' v (List.mem_append_right _ (hvs v hv)), List.forall_mem_nil _⟩
  | right _ hv | arguments hv | key hv | otherValues hv | otherClauses hv _ | started hv
  | entryValue hv _ =>
    exact ⟨_, h.gave (List.forall_mem_nil _) hv, fun _ => List.mem_append_right _,
      List.forall_mem_nil _⟩
  | _ => exact ⟨vs, h, fun _ hv => hv, List.forall_mem_nil _⟩

end Store.Held

/-- No evaluation takes a scope away. -/
theorem Task.Gives.lt_nextScope {limits : Limits} {i k : ScopeId} {e : Expr} {m m' : Machine}
    {r : Option Value} (h : (Task.expr i e).Gives limits m r m') (hk : k < m.store.nextScope) :
    k < m'.store.nextScope := by
  obtain ⟨-, n, hn⟩ := h
  have hend : (Expr.eval limits n i e m).machine? = some m' :=
    congrArg Outcome.machine? (hn n (Nat.le_refl n))
  exact Nat.lt_of_lt_of_le hk
    ((growth m.store i []).of_expr trivial (.refl _ _ _) hend).1.1

/-! ## Soundness

Equality of the language compares arrays, hashes and functions by their identities first.  That is
right only if two values with one identity are the same, which is what the register is for. -/

/-- **Identity is sound** where `vs` are held: what is the same is equal, what evaluation makes is
new to all that was present before, and what it hands on it hands on itself. -/
structure Store.IdentitySound (s : Store) (vs : List Value) : Prop where
  toldApart : Value.ToldApart (s.Present vs)
  -- what is made
  function : ∀ {limits d i params b r m'},
    (Task.expr i (.function params b)).Gives limits ⟨s, d⟩ r m' →
      r = some (.function s.nextId params b i) ∧
        (Value.function s.nextId params b i).NewTo (s.Present vs)
  /-- An array literal holds what its expressions gave, each on the machine that the one before it
  left. -/
  array : ∀ {limits d i es r m'}, (Task.expr i (.array es)).Gives limits ⟨s, d⟩ r m' →
    ∃ (ws : List Value) (m₁ : Machine), ExprsGive limits i es ⟨s, d⟩ ws m₁ ∧ m' = m₁.spent ∧
      r = some (.array m₁.store.nextId ws) ∧
      (ws ≠ [] → (Value.array m₁.store.nextId ws).NewTo (m₁.store.Present (ws ++ vs)))
  /-- A hash literal holds what its pairs gave one after another: of those with one key it keeps the
  last, its key object and its value.  It is new to those that it does not keep as well. -/
  hash : ∀ {limits d i ps r m'}, (Task.expr i (.hash ps)).Gives limits ⟨s, d⟩ r m' →
    ∃ (kvs : List (Value × Value)) (qs : List HashEntry) (m₁ : Machine),
      PairsGive limits i ps ⟨s, d⟩ kvs m₁ ∧ m' = m₁.spent ∧
      r = some (.hash m₁.store.nextId qs) ∧ LastCounts kvs qs ∧
      (Value.hash m₁.store.nextId qs).NewTo
        (m₁.store.Present ((kvs.flatMap fun q => [q.1, q.2]) ++ vs))
  builtin : ∀ {limits d i f args b r m₁} {ws : List Value} {m₂ m'},
    (Task.expr i f).Gives limits ⟨s, d⟩ (some (.builtin b)) m₁ →
    ExprsGive limits i args m₁ ws m₂ →
    (Task.expr i (.call f args)).Gives limits ⟨s, d⟩ r m' →
      ∃ v, r = some v ∧ b.Makes m₂.store.nextId ws v ∧
        (b = .rest ∨ b = .pop ∨ b = .push → v.elements? ≠ some [] →
          v.NewTo (m₂.store.Present (ws ++ .builtin b :: vs)))
  /-- A parameter is bound to its argument, or to a new array of all arguments that are left. -/
  parameter : ∀ {limits d i f args id params b captured m₁} {ws : List Value} {m₂ inner m₃},
    (Task.expr i f).Gives limits ⟨s, d⟩ (some (.function id params b captured)) m₁ →
    ExprsGive limits i args m₁ ws m₂ →
    callScope params captured ws m₂ = .done inner m₃ →
      ∀ (k : Nat) p, params[k]? = some p →
        m₃.store.get? inner p.name = some (parameterValue params ws m₂.store.nextId k p) ∧
        (ws.drop k ≠ [] → (Value.array m₂.store.nextId (ws.drop k)).NewTo
          (m₂.store.Present (ws ++ .function id params b captured :: vs)))
  -- what is handed on
  ident : ∀ {limits d i x r m'}, (Task.expr i (.ident x)).Gives limits ⟨s, d⟩ r m' →
    m' = ⟨s, d⟩ ∧ ∃ v, r = some v ∧ (s.get? i x = some v ∨
      s.get? i x = none ∧ ∃ b, Builtin.ofName? x = some b ∧ v = .builtin b)
  /-- A `let` binds its name to what its expression gave. -/
  bind : ∀ {limits d i x e r m'}, i < s.nextScope →
    (Task.statement i (.bind x e)).Gives limits ⟨s, d⟩ r m' →
      ∃ v m₁, (Task.expr i e).Gives limits ⟨s, d⟩ (some v) m₁ ∧ m'.store.get? i x = some v
  assign : ∀ {limits d i x e r m'},
    (Task.expr i (.binary .assign (.ident x) e)).Gives limits ⟨s, d⟩ r m' →
      ∃ v m₁, (Task.expr i e).Gives limits ⟨s, d⟩ (some v) m₁ ∧ r = some v ∧
        m'.store.get? i x = some v
  index : ∀ {limits d i e k r m'}, (Task.expr i (.index e k)).Gives limits ⟨s, d⟩ r m' →
    ∃ c m₁ key v, (Task.expr i e).Gives limits ⟨s, d⟩ c m₁ ∧
      (Task.expr i k).Gives limits m₁ key m' ∧ r = some v ∧
      Value.TakesOut (c.getD .null) (key.getD .null) v

namespace Store

variable {s : Store} {vs : List Value}

/-- **Identity is sound wherever values are held.** -/
theorem Held.sound (h : s.Held vs) : s.IdentitySound vs where
  toldApart := h.toldApart
  function hgives := by
    obtain ⟨rfl, -⟩ := Task.function_gives hgives
    exact ⟨rfl, h.newTo rfl fun _ => by simp⟩
  -- A literal is made when its parts have been evaluated, so it is new to what was held and to what
  -- its parts gave as well.
  array hgives := by
    obtain ⟨ws, m₁, hws, rfl, hm'⟩ := Task.array_gives hgives
    exact ⟨ws, m₁, Task.values_gives_iff.mp hws, hm', rfl,
      (h.gave (List.forall_mem_nil _) hws).array_newTo⟩
  hash hgives := by
    obtain ⟨qs, m₁, hqs, rfl, hm'⟩ := Task.hash_gives hgives
    obtain ⟨kvs, hkvs, hkeys, rfl⟩ := Task.entries_gives_iff.mp hqs
    obtain ⟨ws, hws, hvs, hpairs⟩ := h.gavePairs hkvs
    have hsub : ∀ v ∈ (kvs.flatMap fun q => [q.1, q.2]) ++ vs, v ∈ ws := by
      intro v hv
      rcases List.mem_append.mp hv with hv | hv
      · obtain ⟨q, hq, hv⟩ := List.mem_flatMap.mp hv
        rcases List.mem_pair.mp hv with rfl | rfl
        · exact (hpairs q hq).1
        · exact (hpairs q hq).2
      · exact hvs v hv
    have hnew := hws.newTo (v := .hash m₁.store.nextId (putPairs kvs [])) rfl fun _ => by simp
    exact ⟨kvs, _, m₁, hkvs, hm', rfl, lastCounts_putPairs hkeys,
      fun u hu => hnew u (hu.mono hsub)⟩
  builtin hf hargs hgives := by
    replace hargs := Task.values_gives_iff.mpr hargs
    obtain ⟨v, hcall, rfl, -⟩ := Task.call_builtin_gives hgives hf hargs
    have hheld := (h.gave (List.forall_mem_nil _) hf).gave (List.forall_mem_nil _) hargs
    have hmakes := Builtin.makes_of_call hcall
    refine ⟨v, rfl, hmakes, fun hb hne => ?_⟩
    cases hmakes with
    | len | first | last => simp at hb
    | rest | pop | push => exact hheld.array_newTo fun hes => hne (congrArg some hes)
  parameter hf hargs hscope k p hp :=
    ⟨callScope_parameter hscope hp,
      ((h.gave (List.forall_mem_nil _) hf).gave (List.forall_mem_nil _)
        (Task.values_gives_iff.mpr hargs)).array_newTo⟩
  ident hgives := Task.ident_gives hgives
  bind hi hgives := by
    obtain ⟨v, m₁, hv, -, rfl⟩ := Task.bind_gives hgives
    exact ⟨v, m₁, hv, get?_of_own? (own?_bind_self (hv.lt_nextScope hi) _ _)⟩
  assign hgives := by
    obtain ⟨v, m₁, home, hv, rfl, hhome, rfl⟩ := Task.assign_gives hgives
    exact ⟨v, m₁, hv, rfl, get?_set hhome v⟩
  index hgives := by
    obtain ⟨c, m₁, key, v, hc, hkey, hindex, rfl⟩ := Task.index_gives hgives
    exact ⟨c, m₁, key, v, hc, hkey, rfl, Value.takesOut_of_index hindex⟩

/-- **Identity is sound along every run**: in each state that a host can come to, and on the way of
each evaluation from there, whatever it works on and however far it comes; nothing that evaluation
works on is left out of that way. -/
theorem identity_sound (h : s.Held vs) : s.IdentitySound vs ∧ (∀ limits, EntersAll limits) ∧
    ∀ (limits : Limits) (d : Nat) (t : Task), (∀ v ∈ t.taken, v ∈ vs) →
      ∀ q, Relation.ReflTransGen (Enters limits) (t, ⟨s, d⟩) q →
        ∃ ws, (∀ v ∈ vs, v ∈ ws) ∧ (∀ v ∈ q.1.taken, v ∈ ws) ∧ q.2.store.Held ws ∧
          q.2.store.IdentitySound ws := by
  refine ⟨h.sound, entersAll, fun limits d t ht q hq => ?_⟩
  suffices hheld : ∃ ws, q.2.store.Held ws ∧ (∀ v ∈ vs, v ∈ ws) ∧ ∀ v ∈ q.1.taken, v ∈ ws by
    obtain ⟨ws, hws, hvs, htaken⟩ := hheld
    exact ⟨ws, hvs, htaken, hws, hws.sound⟩
  induction hq with
  | refl => exact ⟨vs, h, fun _ hv => hv, ht⟩
  | tail _ hstep ih =>
    obtain ⟨ws, hws, hvs, htaken⟩ := ih
    obtain ⟨us, hus, hws', htaken'⟩ := hws.enters htaken hstep
    exact ⟨us, hus, fun v hv => hws' v (hvs v hv), htaken'⟩

/-- The elements that are the same as the first one. -/
def firstAgain (v : Value) : Option (List Bool) :=
  v.elements?.map fun es => es.map fun e => (es.headD .null).same e

/-- An array that was handed around, through a hash as well, is found again; what `push` makes of it
is another one, and so is an array that looks like it. -/
theorem identity_sound_after_push :
    let source := "let a = [1]; [a, push(a, 2), [1], a, {1: a}[1]]"
    ∃ v m, Program.eval {} 40 0 (parse source).program ⟨empty.addScope none, 0⟩ = some (v, m) ∧
      firstAgain v = some [true, false, false, true, true] ∧ m.store.IdentitySound [v] := by
  intro source
  have hrun : ((Program.eval {} 40 0 (parse source).program ⟨empty.addScope none, 0⟩).bind
      fun r => firstAgain r.1) = some [true, false, false, true, true] := by
    decide +kernel
  obtain ⟨⟨v, m⟩, heval, hagain⟩ := Option.bind_eq_some_iff.mp hrun
  exact ⟨v, m, heval, hagain, (identity_sound (.eval (.addScope none .empty) heval)).1⟩

end Store

end Scriptlet
