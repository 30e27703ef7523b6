import Mathlib.Data.List.Induction
import Scriptlet.Proofs.Eval.Giving
import Scriptlet.Proofs.Value.Entries

/-!
# Proofs/Eval/Arguments — no argument is lost and none is made up

The parameters of a call are bound one after another, each to the argument at its place; a variadic
parameter at the end is bound to an array of all that is left.  The number of arguments is compared
first, so every access to parameters and arguments is in range (`callScopeChecked_eq`).

Binding fails at the first name that stands there for the second time.  If there is none, the new
scope binds the names of the parameters and no others, and what it binds them to is what was passed,
in order.
-/

namespace Scriptlet

open Eval

/-! ## Parameters

A variadic parameter takes all arguments that are left.  Whether there is one is asked of the last
parameter, and whether it may be there is asked of all others. -/

/-- A parameter that is variadic is the last one, and so there is one at most. -/
structure RestLast (params : List Param) : Prop where
  last : ∀ k p, params[k]? = some p → p.variadic → k + 1 = params.length
  once : params.countP (·.variadic) ≤ 1

/-- The last parameter takes all arguments that are left. -/
def takesRest (params : List Param) : Bool := params.getLast?.any (·.variadic)

/-- The number of parameters that take one argument each. -/
def singleCount (params : List Param) : Nat :=
  if takesRest params then params.length - 1 else params.length

/-- The number of arguments is not that of the parameters or, if one of these is variadic, is less
than that of the others. -/
def Miscounted (params : List Param) (count : Nat) : Prop :=
  (∀ p ∈ params, p.variadic = false) ∧ count ≠ params.length ∨
    (∃ p ∈ params, p.variadic) ∧ count < params.length - 1

/-- The name is the first one that a parameter before has as well. -/
def FirstRepeated (params : List Param) (x : String) : Prop :=
  ∃ before p behind, params = before ++ p :: behind ∧ p.name = x ∧
    (before.map (·.name)).Nodup ∧ x ∈ before.map (·.name)

section

variable {params : List Param}

theorem takesRest_append (init : List Param) (r : Param) :
    takesRest (init ++ [r]) = r.variadic := by
  simp [takesRest]

/-- **What evaluation checks of a function literal** is that only its last parameter may be
variadic. -/
theorem restLast_of_variadicLast (h : variadicLast params) : RestLast params := by
  rcases List.eq_nil_or_concat' params with rfl | ⟨init, r, rfl⟩
  · exact ⟨nofun, Nat.zero_le _⟩
  · have hinit : ∀ p ∈ init, p.variadic = false := by
      simpa [variadicLast] using h
    constructor
    · intro k p hp hvariadic
      by_cases hk : k < init.length
      · rw [List.getElem?_append_left hk] at hp
        rw [hinit p (List.mem_of_getElem? hp)] at hvariadic
        cases hvariadic
      · have hlt : k < (init ++ [r]).length := (List.getElem?_eq_some_iff.mp hp).1
        rw [List.length_append, List.length_singleton] at hlt ⊢
        omega
    · have hnone : init.countP (·.variadic) = 0 :=
        List.countP_eq_zero.mpr fun p hp => by simp [hinit p hp]
      rw [List.countP_append, hnone, Nat.zero_add]
      exact List.countP_le_length

/-- Without a variadic parameter there is none at the end. -/
theorem takesRest_of_none (h : ∀ p ∈ params, p.variadic = false) : takesRest params = false := by
  rcases List.eq_nil_or_concat' params with rfl | ⟨init, r, rfl⟩
  · rfl
  · rw [takesRest_append]
    exact h r (by simp)

/-- The parameters before the last one are not variadic. -/
theorem RestLast.cases (h : RestLast params) : (∀ p ∈ params, p.variadic = false) ∨
    ∃ init r, params = init ++ [r] ∧ r.variadic ∧ ∀ p ∈ init, p.variadic = false := by
  rcases List.eq_nil_or_concat' params with rfl | ⟨init, r, rfl⟩
  · exact .inl nofun
  · have hinit : ∀ p ∈ init, p.variadic = false := by
      intro p hp
      obtain ⟨k, hk⟩ := List.getElem?_of_mem hp
      have hlt : k < init.length := (List.getElem?_eq_some_iff.mp hk).1
      refine Bool.eq_false_iff.mpr fun hvariadic => ?_
      have hlast := h.last k p ((List.getElem?_append_left hlt).trans hk) hvariadic
      rw [List.length_append, List.length_singleton] at hlast
      omega
    cases hr : r.variadic with
    | true => exact .inr ⟨init, r, rfl, hr, hinit⟩
    | false => exact .inl (List.forall_mem_append.mpr ⟨hinit, List.forall_mem_singleton.mpr hr⟩)

/-- **Some name is the first repeated one** exactly if two parameters share a name. -/
theorem exists_firstRepeated_iff :
    (∃ x, FirstRepeated params x) ↔ ¬ (params.map (·.name)).Nodup := by
  constructor
  · rintro ⟨x, before, p, behind, rfl, rfl, -, hmem⟩ hnodup
    rw [List.map_append, List.map_cons, List.nodup_middle] at hnodup
    exact (List.nodup_cons.mp hnodup).1 (List.mem_append_left _ hmem)
  · intro hnodup
    induction params using List.reverseRecOn with
    | nil => exact absurd List.nodup_nil hnodup
    | append_singleton init r ih =>
      by_cases hinit : (init.map (·.name)).Nodup
      · refine ⟨r.name, init, r, [], rfl, rfl, hinit, ?_⟩
        rw [List.map_append, List.map_singleton, ← List.concat_eq_append, List.nodup_concat]
          at hnodup
        exact Classical.byContradiction fun hnot => hnodup ⟨hnot, hinit⟩
      · obtain ⟨x, before, p, behind, rfl, hx⟩ := ih hinit
        exact ⟨x, before, p, behind ++ [r], by simp, hx⟩

end

/-! ## Names bound in a row

Binding is `define`, again and again in one scope, so it fails at the first name that the scope owns
already and binds all of them if there is none. -/

/-- The scope with names bound one after another. -/
def Scope.addAll (c : Scope) (bs : List (String × Value)) : Scope :=
  { c with bindings := bs.reverse ++ c.bindings }

/-- What a name is bound to in a new scope, if no name is bound twice. -/
theorem Scope.get?_addAll (outer : Option ScopeId) {bs : List (String × Value)}
    (hnodup : (bs.map Prod.fst).Nodup) {x : String} {v : Value} (hmem : (x, v) ∈ bs) :
    (Scope.addAll ⟨outer, []⟩ bs).get? x = some v := by
  rw [get?, addAll, List.append_nil, lookup_eq_some_iff_mem, List.mem_reverse]
  · exact hmem
  · rw [List.map_reverse]
    exact List.nodup_reverse.mpr hnodup

/-- The names that are bound in a row are bound, and no others. -/
theorem Scope.binds_addAll (outer : Option ScopeId) (bs : List (String × Value)) (x : String) :
    (Scope.addAll ⟨outer, []⟩ bs).binds x ↔ x ∈ bs.map Prod.fst := by
  rw [binds, get?, addAll, List.append_nil, isSome_lookup_iff, List.map_reverse, List.mem_reverse]

/-- One change to a scope after another. -/
theorem Store.Changed.trans {s t u : Store} {i : ScopeId} {f g : Scope → Scope}
    (h : s.Changed t i f) (h' : t.Changed u i g) : s.Changed u i (g ∘ f) := by
  refine ⟨fun k => ?_, h'.nextScope.trans h.nextScope, h'.nextId.trans h.nextId, fun c => ?_⟩
  · rw [h'.scopes, h.scopes]
    split
    · rw [Option.map_map]
    · rfl
  · exact (h'.outer (f c)).trans (h.outer c)

theorem Store.owns_eq_binds {s : Store} {i : ScopeId} {c : Scope} (hc : s.scopes[i]? = some c)
    (x : String) : s.owns i x = c.binds x := by
  rw [owns, hc]

namespace Eval

/-- Bind names in a scope, one after another. -/
def defineAll (scope : ScopeId) : List (String × Value) → Eval Unit
  | [] => return ()
  | b :: bs => do
    define scope b.1 b.2
    defineAll scope bs

end Eval

section

variable {i : ScopeId} {m : Machine} {c : Scope} {bs : List (String × Value)}

/-! What one `define` does, by whether the name is there already.  With a free name it is a change
to the store and nothing else. -/

theorem define_of_free {x : String} (hx : m.store.owns i x = false) (v : Value) :
    define i x v m = .done () { m with store := m.store.bind i x v } := by
  rw [define, hx]
  rfl

theorem define_array_of_free {x : String} (hx : m.store.owns i x = false) (vs : List Value) :
    (do define i x (.array (← fresh) vs) : Eval Unit) m =
      .done () { m with store := m.store.spendId.bind i x (.array m.store.nextId vs) } :=
  define_of_free (m := m.spent) hx _

/-- With a name that the scope owns it fails, and changes nothing. -/
theorem define_of_owns {x : String} (hx : m.store.owns i x) (v : Value) :
    define i x v m = .unwound (.failed (.alreadyDefined x)) m := by
  rw [define, hx]
  rfl

/-- **Names that differ are bound in a row** where none of them is bound. -/
theorem defineAll_done (hc : m.store.scopes[i]? = some c) (hnodup : (bs.map Prod.fst).Nodup)
    (hfree : ∀ b ∈ bs, c.binds b.1 = false) :
    ∃ t : Store, defineAll i bs m = .done () { m with store := t } ∧
      m.store.Changed t i (·.addAll bs) := by
  induction bs generalizing m c with
  | nil => exact ⟨m.store, rfl, fun k => by simp [Scope.addAll], rfl, rfl, fun _ => rfl⟩
  | cons b bs ih =>
    obtain ⟨hb, hnodup⟩ := List.nodup_cons.mp hnodup
    obtain ⟨hbfree, hfree⟩ := List.forall_mem_cons.mp hfree
    have hdefine := define_of_free (i := i) ((Store.owns_eq_binds hc b.1).trans hbfree) b.2
    have hchanged := m.store.changed_bind i b.1 b.2
    have hfree' : ∀ b' ∈ bs, (c.add b.1 b.2).binds b'.1 = false := by
      intro b' hb'
      have hne : b'.1 ≠ b.1 := fun heq => hb (heq ▸ List.mem_map_of_mem hb')
      rw [Scope.binds, Scope.get?_add, if_neg hne]
      exact hfree b' hb'
    obtain ⟨t, ht, hmore⟩ := ih (m := { m with store := m.store.bind i b.1 b.2 })
      (hchanged.at_home hc) hnodup hfree'
    have haddAll : (·.addAll bs) ∘ (·.add b.1 b.2) = (Scope.addAll · (b :: bs)) := by
      funext c
      simp [Scope.addAll, Scope.add]
    refine ⟨t, ?_, haddAll ▸ hchanged.trans hmore⟩
    rw [defineAll, bind_apply, hdefine]
    exact ht

end

/-! ## Parameters in a row

The recursion along the parameters gives each one its argument.  Taken as a list of names with
values, it is binding names in a row. -/

/-- Parameters with the arguments at their places. -/
def named (ps : List Param) (args : List Value) : List (String × Value) :=
  List.zipWith (fun p v => (p.name, v)) ps args

/-- The names are those of the parameters, if there are enough arguments. -/
theorem map_fst_named {ps : List Param} {args : List Value} (h : ps.length ≤ args.length) :
    (named ps args).map Prod.fst = ps.map (·.name) := by
  induction ps generalizing args with
  | nil => rfl
  | cons p ps ih =>
    cases args with
    | nil => cases h
    | cons v vs => exact congrArg (p.name :: ·) (ih (Nat.le_of_succ_le_succ h))

/-- The first parameter does not matter to that, unless it is the last. -/
theorem takesRest_cons {p : Param} {ps : List Param} (h : ps ≠ []) :
    takesRest (p :: ps) = takesRest ps := by
  obtain ⟨q, qs, rfl⟩ := List.exists_cons_of_ne_nil h
  rw [takesRest, takesRest, List.getLast?_cons_cons]

/-- **Parameters take an argument each** as long as there are more behind them, or the last of them
is not variadic. -/
theorem bindParams_append {i : ScopeId} {ps tail : List Param} {args : List Value}
    (hlen : ps.length ≤ args.length) (htail : tail = [] → takesRest ps = false) :
    bindParams i (ps ++ tail) args = (do
      defineAll i (named ps args)
      bindParams i tail (args.drop ps.length)) := by
  induction ps generalizing args with
  | nil => rfl
  | cons p ps ih =>
    cases args with
    | nil => cases hlen
    | cons v vs =>
      have hsingle : (p.variadic && (ps ++ tail).isEmpty) = false := by
        rcases List.eq_nil_or_concat' ps with rfl | ⟨init, r, rfl⟩
        · cases tail with
          | nil => simpa [takesRest] using htail rfl
          | cons => simp
        · simp
      have hmore := @ih vs (Nat.le_of_succ_le_succ hlen) fun h => by
        cases ps with
        | nil => rfl
        | cons q qs => exact takesRest_cons (List.cons_ne_nil q qs) ▸ htail h
      rw [List.cons_append, bindParams, hsingle, if_neg Bool.false_ne_true, List.tail_cons, hmore]
      simp only [named, List.zipWith_cons_cons, defineAll, bind_assoc, List.headD_cons,
        List.length_cons, List.drop_succ_cons]

/-- A name that the scope binds already cannot be bound, whatever the parameter takes. -/
theorem bindParams_owned {i : ScopeId} {m : Machine} {p : Param} (h : m.store.owns i p.name)
    (ps : List Param) (args : List Value) :
    ∃ m', bindParams i (p :: ps) args m = .unwound (.failed (.alreadyDefined p.name)) m' := by
  unfold bindParams
  split
  · exact ⟨m.spent, define_of_owns (m := m.spent) h _⟩
  · refine ⟨m, ?_⟩
    rw [bind_apply, define_of_owns h]

/-- **Parameters that are not variadic take all arguments**, if there are as many. -/
theorem bindParams_single {i : ScopeId} {ps : List Param} {args : List Value}
    (hlen : args.length = ps.length) (h : takesRest ps = false) :
    bindParams i ps args = defineAll i (named ps args) := by
  have hrow : bindParams i (ps ++ []) args = (do
      defineAll i (named ps args)
      bindParams i [] (args.drop ps.length)) :=
    bindParams_append (Nat.le_of_eq hlen.symm) fun _ => h
  rw [List.append_nil] at hrow
  exact hrow.trans (bind_pure_unit)

/-- **A variadic parameter at the end takes what is left**, as an array. -/
theorem bindParams_rest {i : ScopeId} {init : List Param} {r : Param} {args : List Value}
    (hlen : init.length ≤ args.length) (hr : r.variadic) :
    bindParams i (init ++ [r]) args = (do
      defineAll i (named init args)
      define i r.name (.array (← fresh) (args.drop init.length))) := by
  have hlast : bindParams i [r] (args.drop init.length) = (do
      define i r.name (.array (← fresh) (args.drop init.length))) := by
    rw [bindParams, hr]
    rfl
  rw [← hlast]
  exact bindParams_append hlen fun h => absurd h (List.cons_ne_nil _ _)

/-! ## The scope of a call

The number of arguments is looked at before anything is made, so a call with a wrong number leaves
the store as it was. -/

section

variable {params : List Param} {captured : ScopeId} {args : List Value} {m : Machine}

/-- How many arguments are accepted, without the look at each parameter. -/
theorem accepts_eq (count : Nat) : accepts params count =
    if takesRest params then decide (params.length ≤ count + 1)
    else decide (count = params.length) :=
  rfl

/-- Without a variadic parameter, any other number is wrong. -/
theorem miscounted_of_none (h : ∀ p ∈ params, p.variadic = false) {count : Nat} :
    Miscounted params count ↔ count ≠ params.length := by
  have hsome : ¬ ∃ p ∈ params, p.variadic := fun ⟨p, hp, hvariadic⟩ => by
    rw [h p hp] at hvariadic
    cases hvariadic
  rw [Miscounted, and_iff_right h, or_iff_left fun hsome' => hsome hsome'.1]

theorem miscounted_of_rest {init : List Param} {r : Param} (hr : r.variadic) {count : Nat} :
    Miscounted (init ++ [r]) count ↔ count < init.length := by
  have hmem : r ∈ init ++ [r] := List.mem_append_right _ List.mem_cons_self
  have hnone : ¬ ∀ p ∈ init ++ [r], p.variadic = false := fun hnone => by
    rw [hnone r hmem] at hr
    cases hr
  have hlen : (init ++ [r]).length - 1 = init.length := by simp
  rw [Miscounted, hlen]
  exact ⟨fun h => h.elim (fun h => absurd h.1 hnone) And.right, fun h => .inr ⟨⟨r, hmem, hr⟩, h⟩⟩

/-- **The number of arguments is accepted** exactly if it is not wrong. -/
theorem accepts_iff (h : RestLast params) {count : Nat} :
    accepts params count ↔ ¬ Miscounted params count := by
  rw [accepts_eq]
  rcases h.cases with hnone | ⟨init, r, rfl, hr, hinit⟩
  · rw [miscounted_of_none hnone, takesRest_of_none hnone, if_neg Bool.false_ne_true,
      decide_eq_true_iff, ne_eq, not_not]
  · rw [miscounted_of_rest hr, takesRest_append, if_pos hr, decide_eq_true_iff, Nat.not_lt,
      List.length_append, List.length_singleton, Nat.add_le_add_iff_right]

/-- All parameters but the last one find an argument. -/
theorem length_le_of_accepts {before behind : List Param} {p : Param} {count : Nat}
    (h : accepts (before ++ p :: behind) count) : before.length ≤ count := by
  rw [accepts_eq] at h
  split at h <;>
  · have hcount := of_decide_eq_true h
    rw [List.length_append, List.length_cons] at hcount
    omega

/-- The number of arguments is looked at before a scope is made. -/
theorem callScope_of_not_accepts (h : ¬ accepts params args.length) :
    callScope params captured args m =
      .unwound (.failed (.wrongArgumentCount params.length args.length)) m := by
  rw [callScope, if_neg h]
  rfl

/-- If it is accepted, the parameters are bound in a new scope inside the captured one. -/
theorem callScope_of_accepts (h : accepts params args.length) : callScope params captured args m =
    (do
      bindParams m.store.nextScope params args
      return m.store.nextScope) (m.enclosed captured) := by
  rw [callScope, if_pos h]
  rfl

/-- The new scope is empty, and inside the captured one. -/
theorem Machine.enclosed_at_nextScope (m : Machine) (captured : ScopeId) :
    (m.enclosed captured).store.scopes[m.store.nextScope]? = some ⟨some captured, []⟩ :=
  m.store.addScope_new (some captured)

/-- The names of parameters that differ are all bound in the new scope. -/
theorem defineAll_named (m : Machine) (captured : ScopeId) {ps : List Param}
    (hlen : ps.length ≤ args.length) (hnodup : (ps.map (·.name)).Nodup) :
    ∃ t : Store, defineAll m.store.nextScope (named ps args) (m.enclosed captured) =
        .done () { m with store := t } ∧
      (m.enclosed captured).store.Changed t m.store.nextScope (·.addAll (named ps args)) := by
  rw [← map_fst_named hlen] at hnodup
  exact defineAll_done (m.enclosed_at_nextScope captured) hnodup fun _ _ => rfl

/-- **Binding fails at the first repeated name.** -/
theorem callScope_of_repeated (h : accepts params args.length) {x : String}
    (hx : FirstRepeated params x) :
    ∃ m', callScope params captured args m = .unwound (.failed (.alreadyDefined x)) m' := by
  obtain ⟨before, p, behind, rfl, rfl, hnodup, hmem⟩ := hx
  have hlen : before.length ≤ args.length := length_le_of_accepts h
  obtain ⟨t, ht, hchanged⟩ := defineAll_named m captured hlen hnodup
  have howns : t.owns m.store.nextScope p.name := by
    rw [Store.owns_eq_binds (hchanged.at_home (m.enclosed_at_nextScope captured)),
      Scope.binds_addAll, map_fst_named hlen]
    exact hmem
  obtain ⟨m', hm'⟩ := bindParams_owned (m := { m with store := t }) howns behind
    (args.drop before.length)
  have hrow : bindParams m.store.nextScope (before ++ p :: behind) args = (do
      defineAll m.store.nextScope (named before args)
      bindParams m.store.nextScope (p :: behind) (args.drop before.length)) :=
    bindParams_append hlen fun h => absurd h (List.cons_ne_nil _ _)
  refine ⟨m', ?_⟩
  rw [callScope_of_accepts h, hrow, bind_assoc, bind_apply, ht]
  dsimp only
  rw [bind_apply, hm']

end

/-! ## What the new scope binds

After binding, the scope has one binding for each parameter, and the last one has an array if it is
variadic.  Nothing of the arguments is lost in that, and nothing is added. -/

/-- The scope is that of a call: it is inside the scope that the function captured and binds the
names of the parameters and no others.  The values of the parameters that are not variadic, in
order, and then the elements of the array that is the value of the variadic one are the
arguments. -/
structure Scope.TakesIn (c : Scope) (params : List Param) (captured : ScopeId)
    (args : List Value) : Prop where
  outer : c.outer = some captured
  names : ∀ x, c.binds x ↔ x ∈ params.map (·.name)
  arguments : ∃ single rest : List Value, single ++ rest = args ∧
    (params.filter (!·.variadic)).map (c.get? ·.name) = single.map some ∧
    (∀ p ∈ params, p.variadic → ∃ id, c.get? p.name = some (.array id rest)) ∧
    ((∀ p ∈ params, p.variadic = false) → rest = [])

/-- The call is **entered** on the machine `m'`, in a new scope; all other scopes are as they
were. -/
structure Machine.Enters (m m' : Machine) (inner : ScopeId) (params : List Param)
    (captured : ScopeId) (args : List Value) : Prop where
  new : inner = m.store.nextScope
  scope : ∃ c, m'.store.scopes[inner]? = some c ∧ c.TakesIn params captured args
  elsewhere : ∀ k : ScopeId, k ≠ inner → m'.store.scopes[k]? = m.store.scopes[k]?
  depth : m'.depth = m.depth

section

variable {params init : List Param} {r : Param} {captured : ScopeId} {args : List Value}
  {m : Machine} {c : Scope}

/-- The values of the parameters are the arguments at their places. -/
theorem map_get?_named (hlen : init.length ≤ args.length)
    (h : ∀ b ∈ named init args, c.get? b.1 = some b.2) :
    init.map (c.get? ·.name) = (args.take init.length).map some := by
  induction init generalizing args with
  | nil => rfl
  | cons p ps ih =>
    cases args with
    | nil => cases hlen
    | cons v vs =>
      obtain ⟨hp, hps⟩ := List.forall_mem_cons.mp h
      rw [List.map_cons, List.length_cons, List.take_succ_cons, List.map_cons,
        ih (Nat.le_of_succ_le_succ hlen) hps, hp]

/-- Without a variadic parameter, binding takes in each argument under its own name. -/
theorem takesIn_single (hnone : ∀ p ∈ params, p.variadic = false)
    (hlen : args.length = params.length) (hnodup : (params.map (·.name)).Nodup) :
    (Scope.addAll ⟨some captured, []⟩ (named params args)).TakesIn params captured args := by
  have hnames := map_fst_named (Nat.le_of_eq hlen.symm)
  refine ⟨rfl, fun x => ?_, args, [], List.append_nil args, ?_, fun p hp hvariadic => ?_,
    fun _ => rfl⟩
  · rw [Scope.binds_addAll, hnames]
  · have hfilter : params.filter (!·.variadic) = params :=
      List.filter_eq_self.mpr fun p hp => by rw [hnone p hp]; rfl
    rw [hfilter, map_get?_named (Nat.le_of_eq hlen.symm), ← hlen, List.take_length]
    exact fun b hb => Scope.get?_addAll (some captured) (hnames ▸ hnodup) hb
  · rw [hnone p hp] at hvariadic
    cases hvariadic

/-- With one at the end, the arguments that are left go into its array. -/
theorem takesIn_rest (hinit : ∀ p ∈ init, p.variadic = false) (hr : r.variadic)
    (hlen : init.length ≤ args.length) (hnodup : ((init ++ [r]).map (·.name)).Nodup)
    (id : Identity) :
    (Scope.addAll ⟨some captured, []⟩ (named init args ++
      [(r.name, .array id (args.drop init.length))])).TakesIn (init ++ [r]) captured args := by
  have hnames : (named init args ++ [(r.name, Value.array id (args.drop init.length))]).map
      Prod.fst = (init ++ [r]).map (·.name) := by
    rw [List.map_append, map_fst_named hlen, List.map_append]
    rfl
  have hget {b : String × Value} (hb : b ∈ named init args ++
      [(r.name, .array id (args.drop init.length))]) :=
    Scope.get?_addAll (some captured) (hnames ▸ hnodup) hb
  refine ⟨rfl, fun x => ?_, args.take init.length, args.drop init.length,
    List.take_append_drop _ _, ?_, fun p hp hvariadic => ?_, fun hnone => ?_⟩
  · rw [Scope.binds_addAll, hnames]
  · have hfilter : (init ++ [r]).filter (!·.variadic) = init := by
      rw [List.filter_append, List.filter_eq_self.mpr fun p hp => by rw [hinit p hp]; rfl]
      simp [hr]
    rw [hfilter, map_get?_named hlen]
    exact fun b hb => hget (List.mem_append_left _ hb)
  · rcases List.mem_append.mp hp with hp | hp
    · rw [hinit p hp] at hvariadic
      cases hvariadic
    · obtain rfl := List.mem_singleton.mp hp
      exact ⟨id, hget (List.mem_append_right _ List.mem_cons_self)⟩
  · rw [hnone r (List.mem_append_right _ List.mem_cons_self)] at hr
    cases hr

theorem Machine.enclosed_elsewhere {k : ScopeId} (hk : k ≠ m.store.nextScope) :
    (m.enclosed captured).store.scopes[k]? = m.store.scopes[k]? := by
  rw [Machine.enclosed, Store.scopes_addScope, if_neg hk]

/-- A call without a variadic parameter takes in as many arguments as there are parameters. -/
theorem callScope_single (hnone : ∀ p ∈ params, p.variadic = false)
    (h : accepts params args.length) (hlen : args.length = params.length)
    (hnodup : (params.map (·.name)).Nodup) : ∃ m',
      callScope params captured args m = .done m.store.nextScope m' ∧
        m.Enters m' m.store.nextScope params captured args := by
  obtain ⟨t, ht, hchanged⟩ := defineAll_named m captured (Nat.le_of_eq hlen.symm) hnodup
  have hscope := hchanged.at_home (m.enclosed_at_nextScope captured)
  refine ⟨{ m with store := t }, ?_, rfl, ⟨_, hscope, takesIn_single hnone hlen hnodup⟩,
    fun k hk => ?_, rfl⟩
  · rw [callScope_of_accepts h, bindParams_single hlen (takesRest_of_none hnone), bind_apply, ht]
    rfl
  · rw [hchanged.elsewhere (Ne.symm hk), Machine.enclosed_elsewhere hk]

/-- A call with one takes in at least as many as there are other parameters. -/
theorem callScope_rest (hinit : ∀ p ∈ init, p.variadic = false) (hr : r.variadic)
    (h : accepts (init ++ [r]) args.length) (hnodup : ((init ++ [r]).map (·.name)).Nodup) : ∃ m',
      callScope (init ++ [r]) captured args m = .done m.store.nextScope m' ∧
        m.Enters m' m.store.nextScope (init ++ [r]) captured args := by
  -- The array of the last parameter spends an identity, which changes no scope.
  have hlen : init.length ≤ args.length := length_le_of_accepts h
  have hnames := hnodup
  rw [List.map_append, List.map_singleton, ← List.concat_eq_append, List.nodup_concat] at hnames
  obtain ⟨t, ht, hchanged⟩ := defineAll_named m captured hlen hnames.2
  have hscope := hchanged.at_home (m.enclosed_at_nextScope captured)
  have hfree : t.owns m.store.nextScope r.name = false := by
    rw [Store.owns_eq_binds hscope, Bool.eq_false_iff, ne_eq, Scope.binds_addAll,
      map_fst_named hlen]
    exact hnames.1
  have hdefine := define_array_of_free (m := { m with store := t }) hfree (args.drop init.length)
  have hlast := t.spendId.changed_bind m.store.nextScope r.name
    (.array t.nextId (args.drop init.length))
  have hadd : (Scope.addAll ⟨some captured, []⟩ (named init args)).add r.name
        (.array t.nextId (args.drop init.length)) =
      Scope.addAll ⟨some captured, []⟩ (named init args ++
        [(r.name, .array t.nextId (args.drop init.length))]) := by
    simp [Scope.addAll, Scope.add]
  refine ⟨{ m with store := _ }, ?_, rfl, ⟨_, (hlast.at_home hscope).trans (congrArg some hadd),
    takesIn_rest hinit hr hlen hnodup t.nextId⟩, fun k hk => ?_, rfl⟩
  · rw [callScope_of_accepts h, bindParams_rest hlen hr, bind_assoc, bind_apply, ht]
    dsimp only
    rw [bind_apply, hdefine]
    rfl
  · exact (hlast.elsewhere (Ne.symm hk)).trans
      ((hchanged.elsewhere (Ne.symm hk)).trans (Machine.enclosed_elsewhere hk))

/-- **The call is entered** when the number of arguments is accepted and no name is repeated. -/
theorem callScope_of_nodup (hrest : RestLast params) (h : accepts params args.length)
    (hnodup : (params.map (·.name)).Nodup) : ∃ m',
      callScope params captured args m = .done m.store.nextScope m' ∧
        m.Enters m' m.store.nextScope params captured args := by
  rcases hrest.cases with hnone | ⟨init, r, rfl, hr, hinit⟩
  · have hlen : args.length = params.length :=
      not_not.mp ((miscounted_of_none hnone).not.mp ((accepts_iff hrest).mp h))
    exact callScope_single hnone h hlen hnodup
  · exact callScope_rest hinit hr h hnodup

end

/-! ## Nothing is out of range

The parameters that take one argument each are a slice of all parameters, up to the last one if that
is variadic.  Here each access is spelled out, and something stands in for what is not there; it can
be anything, so it is never come to. -/

namespace Eval

/-- Bind parameters to an argument each; `missing` stands in for one that is not there. -/
def bindEach (missing : Eval Value) (scope : ScopeId) : List Param → List Value → Eval Unit
  | [], _ => return ()
  | p :: ps, args => do
    define scope p.name (← args.head?.elim missing pure)
    bindEach missing scope ps args.tail

/-- The scope of a call; `outOfRange` stands in for a length less than zero, for a slice that is
longer than the whole, and for a parameter that is not there. -/
def callScopeChecked (missing : Eval Value) (outOfRange : Eval ScopeId) (params : List Param)
    (captured : ScopeId) (args : List Value) : Eval ScopeId :=
  if takesRest params ∧ params.length < 1 then
    outOfRange
  else if args.length < singleCount params ∨
      ¬ takesRest params ∧ singleCount params < args.length then
    fail (.wrongArgumentCount params.length args.length)
  else if params.length < singleCount params then
    outOfRange
  else do
    let scope ← enclose captured
    bindEach missing scope (params.take (singleCount params)) args
    if takesRest params then
      match params[singleCount params]? with
      | some p => do
        define scope p.name (.array (← fresh) (args.drop (singleCount params)))
        return scope
      | none => outOfRange
    else
      return scope

end Eval

/-- **Nothing stands in for an argument** where there are enough of them. -/
theorem bindEach_eq (missing : Eval Value) (i : ScopeId) {ps : List Param} {args : List Value}
    (h : ps.length ≤ args.length) : bindEach missing i ps args = defineAll i (named ps args) := by
  induction ps generalizing args with
  | nil => rfl
  | cons p ps ih =>
    cases args with
    | nil => cases h
    | cons v vs =>
      rw [bindEach, List.head?_cons, Option.elim_some, pure_bind, List.tail_cons,
        ih (Nat.le_of_succ_le_succ h)]
      rfl

section

variable {params init : List Param} {r : Param} {args : List Value} {captured : ScopeId}
  (missing : Eval Value) (outOfRange : Eval ScopeId)

/-- Without a variadic parameter, the slice is all parameters. -/
theorem callScopeChecked_single (h : takesRest params = false) :
    callScopeChecked missing outOfRange params captured args =
      callScope params captured args := by
  have hcount : singleCount params = params.length := by
    rw [singleCount, h, if_neg Bool.false_ne_true]
  rw [callScopeChecked, callScope, accepts_eq, h, hcount, if_neg fun h => Bool.false_ne_true h.1,
    if_neg Bool.false_ne_true]
  by_cases hlen : args.length = params.length
  · rw [if_neg (by omega), if_neg (Nat.lt_irrefl _), if_pos (decide_eq_true hlen), List.take_length]
    refine congrArg (enclose captured >>= ·) (funext fun scope => ?_)
    rw [bindEach_eq missing scope (Nat.le_of_eq hlen.symm), bindParams_single hlen h]
    rfl
  · rw [if_pos (by simp; omega), if_neg (by simpa using hlen)]

theorem callScopeChecked_rest (hr : r.variadic) :
    callScopeChecked missing outOfRange (init ++ [r]) captured args =
      callScope (init ++ [r]) captured args := by
  have htakes : takesRest (init ++ [r]) = true := (takesRest_append init r).trans hr
  have hlength : (init ++ [r]).length = init.length + 1 := by simp
  have hcount : singleCount (init ++ [r]) = init.length := by
    rw [singleCount, htakes, if_pos rfl, hlength, Nat.add_sub_cancel]
  rw [callScopeChecked, callScope, accepts_eq, htakes, hcount, hlength, if_neg (by omega),
    if_pos rfl]
  by_cases hlen : init.length ≤ args.length
  · rw [if_neg (by simp; omega), if_neg (by omega), if_pos (by simpa using hlen), List.take_left]
    refine congrArg (enclose captured >>= ·) (funext fun scope => ?_)
    rw [bindEach_eq missing scope hlen, bindParams_rest hlen hr, List.getElem?_concat_length,
      if_pos rfl]
    simp only [bind_assoc]
  · rw [if_pos (by simp; omega), if_neg (by simpa using hlen)]

end

/-- **No access is out of range**: whatever stands in for what is not there, the scope of a call is
made as if each access had found something. -/
theorem callScopeChecked_eq (missing : Eval Value) (outOfRange : Eval ScopeId)
    (params : List Param) (captured : ScopeId) (args : List Value) :
    callScopeChecked missing outOfRange params captured args =
      callScope params captured args := by
  rcases List.eq_nil_or_concat' params with rfl | ⟨init, r, rfl⟩
  · exact callScopeChecked_single missing outOfRange rfl
  · cases hr : r.variadic with
    | false => exact callScopeChecked_single missing outOfRange ((takesRest_append init r).trans hr)
    | true => exact callScopeChecked_rest missing outOfRange hr

/-! ## How binding ends

There are three ends: the number is wrong, a name is bound twice, or all parameters are bound.
Which of them it is depends on the parameters and on the number of arguments only. -/

section

variable (params : List Param) (captured : ScopeId) (args : List Value) (m : Machine)

/-- The ways in which binding ends. -/
inductive EndsBinding : Outcome ScopeId → Prop
  | miscounted : Miscounted params args.length →
    EndsBinding (.unwound (.failed (.wrongArgumentCount params.length args.length)) m)
  | repeated {x : String} {m' : Machine} : ¬ Miscounted params args.length →
    FirstRepeated params x → EndsBinding (.unwound (.failed (.alreadyDefined x)) m')
  | entered {m' : Machine} : ¬ Miscounted params args.length → (params.map (·.name)).Nodup →
    m.Enters m' m.store.nextScope params captured args → EndsBinding (.done m.store.nextScope m')

/-- Binding **conserves the arguments**. -/
structure ConservesArguments : Prop where
  /-- No access is out of range, whatever would stand in for what is not there. -/
  inRange : ∀ missing outOfRange, callScopeChecked missing outOfRange params captured args =
    callScope params captured args
  /-- It fails if the number of arguments is wrong, and if it is right, at the first repeated name;
  it fails in no other way. -/
  fails_iff : ∀ why, (∃ m', callScope params captured args m = .unwound why m') ↔
    why = .failed (.wrongArgumentCount params.length args.length) ∧
        Miscounted params args.length ∨
      ∃ x, why = .failed (.alreadyDefined x) ∧ ¬ Miscounted params args.length ∧
        FirstRepeated params x
  repeated_iff : (∃ x, FirstRepeated params x) ↔ ¬ (params.map (·.name)).Nodup
  /-- Otherwise it succeeds, and the new scope takes in the arguments. -/
  done_iff : (∃ inner m', callScope params captured args m = .done inner m') ↔
    ¬ Miscounted params args.length ∧ (params.map (·.name)).Nodup
  enters : ∀ inner m', callScope params captured args m = .done inner m' →
    m.Enters m' inner params captured args

end

namespace RestLast

variable {params : List Param} (h : RestLast params) (captured : ScopeId) (args : List Value)
  (m : Machine)
include h

theorem callScope_miscounted (hwrong : Miscounted params args.length) :
    callScope params captured args m =
      .unwound (.failed (.wrongArgumentCount params.length args.length)) m :=
  callScope_of_not_accepts fun haccepts => (accepts_iff h).mp haccepts hwrong

/-- **Binding ends in one of these ways.** -/
theorem endsBinding :
    EndsBinding params captured args m (callScope params captured args m) := by
  by_cases hwrong : Miscounted params args.length
  · rw [h.callScope_miscounted captured args m hwrong]
    exact .miscounted hwrong
  · have haccepts := (accepts_iff h).mpr hwrong
    by_cases hnodup : (params.map (·.name)).Nodup
    · obtain ⟨m', hm', henters⟩ := callScope_of_nodup h haccepts hnodup
      rw [hm']
      exact .entered hwrong hnodup henters
    · obtain ⟨x, hx⟩ := exists_firstRepeated_iff.mpr hnodup
      obtain ⟨m', hm'⟩ := callScope_of_repeated haccepts hx
      rw [hm']
      exact .repeated hwrong hx

/-- **Binding conserves the arguments** if no parameter but the last is variadic. -/
theorem conservesArguments : ConservesArguments params captured args m := by
  have hends := h.endsBinding captured args m
  refine ⟨fun _ _ => callScopeChecked_eq _ _ _ _ _, fun why => ⟨?_, ?_⟩,
    exists_firstRepeated_iff, ⟨?_, ?_⟩, ?_⟩
  · rintro ⟨m', hfails⟩
    rw [hfails] at hends
    cases hends with
    | miscounted hwrong => exact .inl ⟨rfl, hwrong⟩
    | repeated hright hx => exact .inr ⟨_, rfl, hright, hx⟩
  · rintro (⟨rfl, hwrong⟩ | ⟨x, rfl, hright, hx⟩)
    · exact ⟨m, h.callScope_miscounted captured args m hwrong⟩
    · exact callScope_of_repeated ((accepts_iff h).mpr hright) hx
  · rintro ⟨inner, m', hdone⟩
    rw [hdone] at hends
    cases hends with
    | entered hright hnodup _ => exact ⟨hright, hnodup⟩
  · rintro ⟨hright, hnodup⟩
    obtain ⟨m', hdone, -⟩ := callScope_of_nodup h ((accepts_iff h).mpr hright) hnodup
    exact ⟨_, m', hdone⟩
  · intro inner m' hdone
    rw [hdone] at hends
    cases hends with
    | entered _ _ henters => exact henters

end RestLast

end Scriptlet
