import Scriptlet.Proofs.Eval.Renamed
import Scriptlet.Proofs.Eval.Settling
import Scriptlet.Proofs.Store.Spare

/-!
# Proofs/Eval/Transparent — an empty scope makes no difference

An expression binds no name in the scope that it is evaluated in.  So if that scope is empty to
begin with, it stays empty, and evaluation does what it does in the scope around it: the two runs
stay in lock step, each store of the one being that of the other without the empty scope.

An `else if` is an `if` in an `else` block that lacks its braces, and so lacks a scope; hence it can
be put into braces.  -/

namespace Scriptlet

variable {i j : Nat}

/-! ## Values in other scopes

The second run has no scope at `j`, so later places are one less there, and what referred to `j`
refers to the scope around it.  Values are changed accordingly, and nothing else is. -/

namespace Value

/-- What a value becomes when a scope is left out, if it only refers to scopes before `n`. -/
def LeftOut (j i n : Nat) (v v' : Value) : Prop :=
  v' = v.rescope (collapse j i) ∧ v.Within (· < n)

namespace LeftOut

variable {n : Nat} {v v' : Value}

/-- What has no scope in it stays as it is. -/
theorem plain (hv : v.isPlain) : LeftOut j i n v v := by
  refine ⟨(recast_of_isPlain _ hv).symm, ?_⟩
  rintro k ⟨id, params, body, hk⟩
  cases v with
  | array | hash | function => cases hv
  | _ => cases hk

/-- Elements are changed one by one. -/
theorem elements {es fs : List Value} :
    List.Forall₂ (LeftOut j i n) es fs ↔
      fs = es.map (rescope (collapse j i)) ∧ ∀ e ∈ es, e.Within (· < n) := by
  constructor
  · intro h
    induction h with
    | nil => exact ⟨rfl, nofun⟩
    | cons hv _ ih => exact ⟨congrArg₂ List.cons hv.1 ih.1, List.forall_mem_cons.mpr ⟨hv.2, ih.2⟩⟩
  · rintro ⟨rfl, h⟩
    exact List.forall₂_map_right_iff.mpr (List.forall₂_same.mpr fun e he => ⟨rfl, h e he⟩)

/-- Of the entries only the values are changed; keys have no scopes in them. -/
theorem entries {ps qs : List HashEntry} :
    List.Forall₂ (EntryRel (HashPair.Rel (LeftOut j i n))) ps qs ↔
      qs = ps.map (recastEntry (.rescope (collapse j i))) ∧
        ∀ p ∈ ps, p.2.All fun v => v.Within (· < n) := by
  constructor
  · intro h
    induction h with
    | nil => exact ⟨rfl, List.forall_mem_nil _⟩
    | @cons p q ps qs hp _ ih =>
      have hkey := hp.2.key
      have hvalue := hp.2.value
      have hq : q = recastEntry (.rescope (collapse j i)) p :=
        Prod.ext hp.1.symm (congrArg₂ HashPair.mk hkey.1 hvalue.1)
      exact ⟨congrArg₂ List.cons hq ih.1, List.forall_mem_cons.mpr ⟨⟨hkey.2, hvalue.2⟩, ih.2⟩⟩
  · rintro ⟨rfl, h⟩
    exact List.forall₂_map_right_iff.mpr (List.forall₂_same.mpr fun p hp =>
      ⟨rfl, .intro ⟨rfl, (h p hp).key⟩ ⟨rfl, (h p hp).value⟩⟩)

/-- The value has the shape that it had. -/
theorem shaped (h : LeftOut j i n v v') :
    v.Shaped (LeftOut j i n) (fun k l => l = collapse j i k ∧ k < n) v' := by
  obtain ⟨rfl, hv⟩ := h
  cases v with
  | array id es =>
    rw [rescope_array]
    exact .array id id (elements.mpr ⟨rfl, within_array.mp hv⟩)
  | hash id ps =>
    rw [rescope_hash]
    exact .hash id id (entries.mpr ⟨rfl, within_hash.mp hv⟩)
  | function id params body k =>
    exact .function id id params body ⟨rfl, within_function (A := (· < n)) |>.mp hv⟩
  | error message => exact .error message
  | _ => exact .plain rfl

/-- A new value, made of such parts. -/
theorem made {id : Identity}
    (h : Made (LeftOut j i n) (fun k l => l = collapse j i k ∧ k < n) id id v v') :
    LeftOut j i n v v' := by
  cases h with
  | array hes =>
    obtain ⟨rfl, hwithin⟩ := elements.mp hes
    exact ⟨(rescope_array _ _ _).symm, within_array.mpr hwithin⟩
  | hash _ hps =>
    obtain ⟨rfl, hwithin⟩ := entries.mp hps
    exact ⟨(rescope_hash _ _ _).symm, within_hash.mpr hwithin⟩
  | function body _ hk =>
    obtain ⟨rfl, hlt⟩ := hk
    exact ⟨rfl, within_function (A := (· < n)) |>.mpr hlt⟩

end LeftOut

end Value

/-! ## The two runs

The coupling needs that the scope at `j` stays empty, and that no `let` is evaluated in it.
Expressions have none of their own, and their blocks make new scopes. -/

/-- A run beside the one without the empty scope at `j`, which is inside the scope at `i`.  A world
is the number of scopes of the first store. -/
def leavingOut (j i : Nat) : Coupling where
  World := Nat
  le := (· ≤ ·)
  value := Value.LeftOut j i
  scope n k l := l = collapse j i k ∧ k < n
  own n k l _ := l = collapse j i k ∧ k < n ∧ k ≠ j
  store n s t := s.Spare j i ∧ t = s.without j i ∧ n = s.nextScope
  le_refl := Nat.le_refl
  le_trans := Nat.le_trans
  value_mono hle h := ⟨h.1, fun k hk => Nat.lt_of_lt_of_le (h.2 k hk) hle⟩
  scope_mono hle h := ⟨h.1, Nat.lt_of_lt_of_le h.2 hle⟩
  own_mono hle h := ⟨h.1, Nat.lt_of_lt_of_le h.2.1 hle, h.2.2⟩
  shaped := Value.LeftOut.shaped
  same := by
    rintro n u u' v v' ⟨rfl, -⟩ ⟨rfl, -⟩
    exact (Value.same_recast _ u v).symm
  plain := Value.LeftOut.plain
  lookup := by
    rintro n s t k l ⟨hspare, rfl, rfl⟩ ⟨rfl, hk⟩ x
    rw [hspare.get? k x]
    cases hv : s.get? k x with
    | none => exact .none
    | some v => exact .some ⟨rfl, hspare.closed.get? hk hv⟩
  make := by
    rintro n s t v v' ⟨hspare, rfl, rfl⟩ hmade
    exact ⟨s.nextScope, Nat.le_refl _,
      ⟨⟨hspare.scope, hspare.ordered, hspare.closed.outer, hspare.closed.bindings⟩, rfl, rfl⟩,
      .made hmade⟩
  addScope := by
    rintro n s t k l ⟨hspare, rfl, rfl⟩ ⟨rfl, hk⟩
    have hnew : (s.without j i).nextScope = collapse j i s.nextScope := by
      rw [Store.nextScope_without hspare.lt_nextScope, collapse_of_gt hspare.lt_nextScope]
    have hne : s.nextScope ≠ j := Nat.ne_of_gt hspare.lt_nextScope
    refine ⟨s.nextScope + 1, Nat.le_succ _, ⟨hspare.addScope hk, ?_, ?_⟩,
      ⟨hnew, Nat.lt_succ_self _⟩, fun _ => ⟨hnew, Nat.lt_succ_self _, hne⟩⟩
    · exact Store.addScope_without hspare.lt_nextScope (some k)
    · rw [Store.nextScope_addScope]
  owns := by
    rintro n s t k l x ⟨-, rfl, -⟩ ⟨rfl, -, hk⟩
    exact (Store.owns_without hk x).symm
  bind := by
    rintro n s t k l x v v' ⟨hspare, rfl, rfl⟩ ⟨rfl, hlt, hk⟩ ⟨rfl, hv⟩ -
    have hchanged := s.changed_bind k x v
    exact ⟨hspare.change hk hchanged hv fun _ _ => Scope.mem_bindings_add,
      Store.bind_without hk x v, hchanged.nextScope.symm⟩
  assign := by
    rintro n s t k l x v v' ⟨hspare, rfl, rfl⟩ ⟨rfl, hlt⟩ ⟨rfl, hv⟩
    rw [hspare.resolve k x]
    cases hhome : s.resolve k x with
    | none => exact .none
    | some home =>
      have hne := hspare.home_ne hhome
      have hchanged := s.changed_set home x v
      exact .some ⟨hspare.change hne hchanged hv fun _ _ => Scope.mem_bindings_set,
        Store.set_without hne x v, hchanged.nextScope.symm⟩

/-! ## Outcomes

A run in the empty scope ends exactly if the one without it does.  What the two give differs in the
places of scopes only, so a host that prints it sees no difference. -/

/-- The machine without the scope at `j`. -/
def Machine.without (j i : ScopeId) (m : Machine) : Machine :=
  { m with store := m.store.without j i }

/-- The outcome without the scope at `j`, which is inside the scope at `i`: this scope is left out
of the store, and functions that were made in it were made in the scope around it. -/
def Outcome.without (j i : ScopeId) : Outcome (Option Value) → Outcome (Option Value)
  | .done v m => .done (v.map (Value.rescope (collapse j i))) (m.without j i)
  | .unwound (.returned v) m => .unwound (.returned (v.rescope (collapse j i))) (m.without j i)
  | .unwound (.failed e) m => .unwound (.failed e) (m.without j i)
  | .outOfFuel => .outOfFuel

/-- **Evaluation in an empty scope**: it stays empty, and without it the outcome is the one in the
scope around it. -/
theorem Expr.eval_spare (limits : Limits) (n : Nat) (e : Expr) {s : Store} (hs : s.Spare j i)
    (d : Nat) :
    Expr.eval limits n i e ⟨s.without j i, d⟩ = (Expr.eval limits n j e ⟨s, d⟩).without j i ∧
      ∀ m ∈ (Expr.eval limits n j e ⟨s, d⟩).machine?, m.store.Spare j i ∧ m.depth = d := by
  have hscope : (leavingOut j i).scope s.nextScope j i := ⟨collapse_self.symm, hs.lt_nextScope⟩
  have hend := ((leavingOut j i).inStep limits n s.nextScope j i hscope).1 e s (s.without j i) d
    ⟨hs, rfl, rfl⟩
  generalize Expr.eval limits n j e ⟨s, d⟩ = o,
    Expr.eval limits n i e ⟨s.without j i, d⟩ = o' at hend ⊢
  cases hend with
  | done _ hst hv =>
    obtain ⟨hspare, rfl, -⟩ := hst
    refine ⟨?_, fun m hm => Option.some.inj hm ▸ ⟨hspare, rfl⟩⟩
    cases hv with
    | none => rfl
    | some hv => rw [hv.1]; rfl
  | returned _ hst hv =>
    obtain ⟨hspare, rfl, -⟩ := hst
    exact ⟨by rw [hv.1]; rfl, fun m hm => Option.some.inj hm ▸ ⟨hspare, rfl⟩⟩
  | failed _ hst =>
    obtain ⟨hspare, rfl, -⟩ := hst
    exact ⟨rfl, fun m hm => Option.some.inj hm ▸ ⟨hspare, rfl⟩⟩
  | outOfFuel => exact ⟨rfl, nofun⟩

/-- What is shown of an outcome: the text of a value, or the message of an error. -/
def Outcome.text : Outcome (Option Value) → Option String
  | .done v _ => some (v.getD .null).render
  | .unwound (.returned v) _ => some v.render
  | .unwound (.failed e) _ => some e.message
  | .outOfFuel => none

/-- The outcome `o'` is the outcome `o` **without** the scope at `j`, an empty one inside the scope
at `i`. -/
structure Outcome.LacksScope (j i : ScopeId) (o o' : Outcome (Option Value)) : Prop where
  /-- Both diverge, give the same value, return the same value or fail with the same error;
  functions in the one value were made in the scopes that correspond to those in the other one. -/
  outcome : o' = o.without j i
  /-- The scope is empty also at the end. -/
  empty : ∀ m ∈ o.machine?, m.store.scopes[j]? = some ⟨some i, []⟩
  /-- Both show the same text. -/
  text : o'.text = o.text
  /-- Older scopes have their places, and bind the same names to values that correspond. -/
  older : ∀ m ∈ o.machine?, ∀ m' ∈ o'.machine?, ∀ k < j,
    m'.store.scopes[k]? = m.store.scopes[k]?.map (Scope.rescope (collapse j i))

/-- The outcome without the scope is one, if the scope is still empty. -/
theorem Outcome.lacksScope {o : Outcome (Option Value)}
    (h : ∀ m ∈ o.machine?, m.store.scopes[j]? = some ⟨some i, []⟩) :
    o.LacksScope j i (o.without j i) := by
  refine ⟨rfl, h, ?_, ?_⟩
  · rcases o with ⟨_ | v, m⟩ | ⟨v | e, m⟩ | _
    · rfl
    · exact congrArg some (v.render_rescope _)
    · exact congrArg some (v.render_rescope _)
    · rfl
    · rfl
  · intro m hm m' hm' k hk
    have hstore : m'.store = m.store.without j i := by
      rcases o with ⟨v, m⟩ | ⟨v | e, m⟩ | _ <;> cases hm <;> cases hm' <;> rfl
    have hplace := m.store.scopes_without (i := i) (Nat.ne_of_lt hk)
    rwa [collapse_of_lt hk, ← hstore] at hplace

/-- **A new scope around an expression makes no difference.** -/
theorem Expr.eval_enclosed (limits : Limits) (n : Nat) (e : Expr) {s : Store} (hs : s.Sound)
    (hi : i < s.nextScope) (d : Nat) :
    (Expr.eval limits n s.nextScope e ⟨s.addScope (some i), d⟩).LacksScope s.nextScope i
      (Expr.eval limits n i e ⟨s, d⟩) := by
  have hspare := Store.Spare.new hs.ordered hs.closed hi
  obtain ⟨heq, hspare'⟩ := Expr.eval_spare limits n e hspare d
  rw [Store.without_addScope hs.closed i] at heq
  rw [heq]
  exact Outcome.lacksScope fun m hm => (hspare' m hm).1.scope

/-! ## An `else if` in braces

Putting braces around an `else if` puts one more scope around the choices that are left.  They are
expressions, so this scope is empty all the while; by induction on the choices all of them can be
put into braces. -/

open Eval

/-- The outcome `o'` is `o` without some empty scopes, which are not older than the place `old`. -/
inductive Outcome.LacksScopes (old : ScopeId) :
    Outcome (Option Value) → Outcome (Option Value) → Prop
  | none (o : Outcome (Option Value)) : LacksScopes old o o
  | one {j i : ScopeId} {o o' o'' : Outcome (Option Value)} :
    old ≤ j → o.LacksScope j i o' → LacksScopes old o' o'' → LacksScopes old o o''

/-- A chain of choices in which each `else if` is an `if` in an `else` block. -/
def Expr.nestedIfs : List Clause → Option Block → Expr
  | [], alternative => .conditional [] alternative
  | [c], alternative => .conditional [c] alternative
  | c :: c' :: cs, alternative => .conditional [c] (some [.expr (nestedIfs (c' :: cs) alternative)])

/-- How the evaluation of an expression ends, with fuel enough. -/
def Expr.Settles (limits : Limits) (i : ScopeId) (e : Expr) :
    Machine → Outcome (Option Value) → Prop :=
  Eval.Settles fun n => Expr.eval limits n i e

variable {limits : Limits} {m m' : Machine} {o : Outcome (Option Value)}

/-- A block is steady, as its statements are. -/
theorem Eval.steady_block (limits : Limits) (i : ScopeId) (b : Block) :
    Steady fun n => block limits n i b :=
  fun _ _ hn => .bind (.refl _) fun j =>
    .sequence ((eval_within limits.le_refl (.inl rfl) hn).2 j) b none

/-- How a chain of choices ends: as the condition of the first one, if that ends early, and else as
its block or as the `others`, on the machine that the condition leaves. -/
def FirstChoice (limits : Limits) (i : ScopeId) (m : Machine) (c : Clause)
    (others : Machine → Outcome (Option Value) → Prop) (o : Outcome (Option Value)) : Prop :=
  (∃ why m', c.1.Settles limits i m (.unwound why m') ∧ o = .unwound why m') ∨
    ∃ v m', c.1.Settles limits i m (.done v m') ∧
      if (v.getD .null).truthy then Eval.Settles (fun n => block limits n i c.2) m' o
      else others m' o

/-- If the other choices end alike, so do all of them. -/
theorem FirstChoice.transfer {c : Clause} {others others' : Machine → Outcome (Option Value) → Prop}
    {R : Outcome (Option Value) → Outcome (Option Value) → Prop} (hR : ∀ o, R o o)
    (hothers : ∀ v m', c.1.Settles limits i m (.done v m') → ∀ o, others m' o →
      ∃ o', others' m' o' ∧ R o o') (h : FirstChoice limits i m c others o) :
    ∃ o', FirstChoice limits i m c others' o' ∧ R o o' := by
  rcases h with ⟨why, m', hwhy, rfl⟩ | ⟨v, m', hv, ho⟩
  · exact ⟨_, .inl ⟨why, m', hwhy, rfl⟩, hR _⟩
  · by_cases htruthy : (v.getD .null).truthy
    · rw [if_pos htruthy] at ho
      exact ⟨o, .inr ⟨v, m', hv, (if_pos htruthy).mpr ho⟩, hR o⟩
    · rw [if_neg htruthy] at ho
      obtain ⟨o', ho', hoo⟩ := hothers v m' hv o ho
      exact ⟨o', .inr ⟨v, m', hv, (if_neg htruthy).mpr ho'⟩, hoo⟩

/-- **The first choice** and the others. -/
theorem Expr.settles_conditional_cons {c : Clause} {cs : List Clause} {alternative : Option Block} :
    (Expr.conditional (c :: cs) alternative).Settles limits i m o ↔
      FirstChoice limits i m c ((Expr.conditional cs alternative).Settles limits i) o := by
  -- One step of the evaluation takes the first choice apart; the others are a conditional of their
  -- own, with the same fuel.
  have hrow : ∀ n, Expr.eval limits (n + 1) i (.conditional (c :: cs) alternative) =
      Expr.eval limits n i c.1 >>= fun v => if (v.getD .null).truthy then block limits n i c.2
        else Expr.eval limits (n + 1) i (.conditional cs alternative) := by
    intro n
    simp only [Expr.eval, choose, operand, bind_assoc, pure_bind]
    rfl
  have hrest : ∀ v : Option Value, Steady fun n => if (v.getD .null).truthy then
      block limits n i c.2 else Expr.eval limits (n + 1) i (.conditional cs alternative) := by
    intro v n n' hn
    dsimp only
    split
    · exact Eval.steady_block limits i c.2 n n' hn
    · exact (Expr.conditional cs alternative).steady limits i _ _ (Nat.succ_le_succ hn)
  have hchoice : ∀ (v : Option Value) (m' : Machine),
      Eval.Settles (fun n => if (v.getD .null).truthy then block limits n i c.2
        else Expr.eval limits (n + 1) i (.conditional cs alternative)) m' o ↔
      if (v.getD .null).truthy then Eval.Settles (fun n => block limits n i c.2) m' o
        else (Expr.conditional cs alternative).Settles limits i m' o := by
    intro v m'
    split
    · exact Iff.rfl
    · exact settles_succ (x := fun n => Expr.eval limits n i (.conditional cs alternative))
  rw [Expr.Settles, ← settles_succ]
  simp only [hrow]
  rw [Eval.settles_bind_iff (c.1.steady limits i) hrest]
  simp only [hchoice]
  exact or_comm

/-- An expression in a block is evaluated in a new scope. -/
theorem Expr.settles_else {e : Expr} :
    (Expr.conditional [] (some [.expr e])).Settles limits i m o ↔
      e.Settles limits m.store.nextScope (m.enclosed i) o := by
  have hblock : ∀ n, Expr.eval limits (n + 2) i (.conditional [] (some [.expr e])) m =
      Expr.eval limits n m.store.nextScope e (m.enclosed i) := by
    intro n
    simp only [Expr.eval, choose, Statement.eval, Eval.sequence, bind_pure]
    rfl
  have htwice : Eval.Settles (fun n => Expr.eval limits (n + 2) i
      (.conditional [] (some [.expr e]))) m o ↔
      (Expr.conditional [] (some [.expr e])).Settles limits i m o :=
    (settles_succ (x := fun n => Expr.eval limits (n + 1) i _)).trans
      (settles_succ (x := fun n => Expr.eval limits n i _))
  rw [← htwice]
  simp only [Eval.Settles, Expr.Settles, hblock]

/-- Evaluation to a value keeps the store sound, and scopes stay. -/
theorem Expr.settles_sound {e : Expr} {v : Option Value} (hs : m.store.Sound)
    (hi : i < m.store.nextScope) (h : e.Settles limits i m (.done v m')) :
    m'.store.Sound ∧ m.store.nextScope ≤ m'.store.nextScope := by
  obtain ⟨-, n, hn⟩ := h
  have hrun : Program.eval limits (n + 1) i [.expr e] m = some (v.getD .null, m') := by
    simp only [Program.eval, Program.run, Eval.sequence, Statement.eval, bind_apply, pure_apply,
      hn n (Nat.le_refl n)]
  exact Program.eval_sound_grown hs hi hrun

/-- The two are finished together. -/
theorem Outcome.LacksScope.finished_eq {o o' : Outcome (Option Value)} (h : o.LacksScope j i o') :
    o'.finished = o.finished := by
  rw [h.outcome]
  rcases o with ⟨v, m⟩ | ⟨v | e, m⟩ | _ <;> rfl

/-- Scopes that are not older than a place are not older than an earlier one. -/
theorem Outcome.LacksScopes.mono {old old' : ScopeId} (hle : old' ≤ old)
    {o o' : Outcome (Option Value)} (h : o.LacksScopes old o') : o.LacksScopes old' o' := by
  induction h with
  | none o => exact .none o
  | one hj ho _ ih => exact .one (Nat.le_trans hle hj) ho ih

/-- Two ways to end are **alike up to scopes**: each outcome of the one is an outcome of the other,
but for some empty scopes, and the other way around. -/
def AlikeUpToScopes (old : ScopeId) (P Q : Outcome (Option Value) → Prop) : Prop :=
  (∀ o, P o → ∃ o', Q o' ∧ o.LacksScopes old o') ∧ ∀ o', Q o' → ∃ o, P o ∧ o.LacksScopes old o'

theorem AlikeUpToScopes.refl (old : ScopeId) (P : Outcome (Option Value) → Prop) :
    AlikeUpToScopes old P P :=
  ⟨fun o ho => ⟨o, ho, .none o⟩, fun o ho => ⟨o, ho, .none o⟩⟩

/-- **An expression in braces** ends as the expression does without them, but for one scope. -/
theorem AlikeUpToScopes.enclosed (hs : m.store.Sound) (hi : i < m.store.nextScope) {e : Expr}
    {Q : Outcome (Option Value) → Prop}
    (h : AlikeUpToScopes m.store.nextScope (e.Settles limits i m) Q) :
    AlikeUpToScopes m.store.nextScope (e.Settles limits m.store.nextScope (m.enclosed i)) Q := by
  have hlacks := fun n => Expr.eval_enclosed limits n e hs hi m.depth
  constructor
  · intro o ho
    obtain ⟨hfin, n, rfl⟩ := (e.steady limits _).settles_iff.mp ho
    obtain ⟨o', ho', hoo⟩ := h.1 _ ((e.steady limits i).settles_iff.mpr
      ⟨(hlacks n).finished_eq.trans hfin, n, rfl⟩)
    exact ⟨o', ho', .one (Nat.le_refl _) (hlacks n) hoo⟩
  · intro o' ho'
    obtain ⟨o, ho, hoo⟩ := h.2 o' ho'
    obtain ⟨hfin, n, rfl⟩ := (e.steady limits i).settles_iff.mp ho
    exact ⟨_, (e.steady limits _).settles_iff.mpr ⟨(hlacks n).finished_eq.symm.trans hfin, n, rfl⟩,
      .one (Nat.le_refl _) (hlacks n) hoo⟩

/-- **Each `else if` can be put into braces**, by induction on the choices. -/
theorem alike_nestedIfs (hs : m.store.Sound) (hi : i < m.store.nextScope) (cs : List Clause)
    (alternative : Option Block) :
    AlikeUpToScopes m.store.nextScope ((Expr.nestedIfs cs alternative).Settles limits i m)
      ((Expr.conditional cs alternative).Settles limits i m) := by
  -- The braces around the inner choices are one more scope for them, which
  -- `AlikeUpToScopes.enclosed` takes away.
  induction cs generalizing m with
  | nil => exact .refl _ _
  | cons c cs ih =>
    cases cs with
    | nil => exact .refl _ _
    | cons c' cs =>
      -- where the first condition does not hold
      have hothers : ∀ v m', c.1.Settles limits i m (.done v m') → AlikeUpToScopes m.store.nextScope
          ((Expr.conditional [] (some [.expr (.nestedIfs (c' :: cs) alternative)])).Settles
            limits i m') ((Expr.conditional (c' :: cs) alternative).Settles limits i m') := by
        intro v m' hv
        obtain ⟨hs', hle⟩ := Expr.settles_sound hs hi hv
        have hi' := Nat.lt_of_lt_of_le hi hle
        obtain ⟨hto, hfrom⟩ := (ih hs' hi').enclosed hs' hi'
        refine ⟨fun o ho => ?_, fun o' ho' => ?_⟩
        · obtain ⟨o', ho', hoo⟩ := hto o (Expr.settles_else.mp ho)
          exact ⟨o', ho', hoo.mono hle⟩
        · obtain ⟨o, ho, hoo⟩ := hfrom o' ho'
          exact ⟨o, Expr.settles_else.mpr ho, hoo.mono hle⟩
      refine ⟨fun o ho => ?_, fun o' ho' => ?_⟩
      · obtain ⟨o', ho', hoo⟩ := (Expr.settles_conditional_cons.mp ho).transfer .none
          fun v m' hv => (hothers v m' hv).1
        exact ⟨o', Expr.settles_conditional_cons.mpr ho', hoo⟩
      · obtain ⟨o, ho, hoo⟩ := (Expr.settles_conditional_cons.mp ho').transfer
          (R := fun o' o => o.LacksScopes m.store.nextScope o') .none
          fun v m' hv => (hothers v m' hv).2
        exact ⟨o, Expr.settles_conditional_cons.mpr ho, hoo⟩

/-- **An empty scope is transparent.**  On every sound store, an expression is evaluated in a new
empty scope inside the scope at `i` as it is in the scope at `i` itself, but for this scope.  In
particular an `if` with any number of `else if` ends as it does with each of these in braces, but
for some empty scopes: one of the two has an end if and only if the other one has. -/
theorem Store.Sound.emptyScope_transparent (limits : Limits) {s : Store} (hs : s.Sound)
    {i : ScopeId}
    (hi : i < s.nextScope) (d : Nat) :
    (∀ n e, (Expr.eval limits n s.nextScope e ⟨s.addScope (some i), d⟩).LacksScope s.nextScope i
      (Expr.eval limits n i e ⟨s, d⟩)) ∧
    ∀ cs alternative, AlikeUpToScopes s.nextScope
      ((Expr.nestedIfs cs alternative).Settles limits i ⟨s, d⟩)
      ((Expr.conditional cs alternative).Settles limits i ⟨s, d⟩) :=
  ⟨fun n e => Expr.eval_enclosed limits n e hs hi d, fun cs alternative =>
    alike_nestedIfs hs hi cs alternative⟩

/-- The second of two choices, in braces, makes a function. -/
theorem Store.Sound.emptyScope_transparent_root :
    (Store.empty.addScope none).Sound ∧ 0 < (Store.empty.addScope none).nextScope ∧
      ∃ o o', (Expr.nestedIfs [(.boolean false, []), (.boolean true, [.expr (.function [] [])])]
          none).Settles {} 0 ⟨Store.empty.addScope none, 0⟩ o ∧
        (Expr.conditional [(.boolean false, []), (.boolean true, [.expr (.function [] [])])]
          none).Settles {} 0 ⟨Store.empty.addScope none, 0⟩ o' ∧
        o.LacksScopes 1 o' ∧ o.text = some "fn() \x7b \x7d" := by
  have hs : (Store.empty.addScope none).Sound := .addRoot .empty
  have hi : 0 < (Store.empty.addScope none).nextScope := Nat.zero_lt_one
  obtain ⟨-, hchain⟩ := Store.Sound.emptyScope_transparent {} hs hi 0
  have ho : (Expr.nestedIfs [(.boolean false, []), (.boolean true, [.expr (.function [] [])])]
      none).Settles {} 0 ⟨Store.empty.addScope none, 0⟩ _ :=
    (Expr.steady {} 0 _).settles_iff.mpr ⟨rfl, 9, rfl⟩
  obtain ⟨o', ho', hoo⟩ := (hchain _ none).1 _ ho
  exact ⟨hs, hi, _, o', ho, ho', hoo, rfl⟩

end Scriptlet
