import Mathlib.Tactic.MkIffOfInductiveProp
import Scriptlet.Proofs.Eval.Arguments
import Scriptlet.Proofs.Eval.Literals
import Scriptlet.Proofs.Eval.Operations
import Scriptlet.Proofs.Store.Names
import Scriptlet.Proofs.Value.Sequence
import Scriptlet.Session

/-!
# Proofs/Eval/Sequences — versions of arrays in a program

A **version** of an array is what calls of `push`, `pop` and `rest` make of it, one around the
other.  A program can bind one version after another, each made of any array that has a name by
then, so that older versions stay in use.

What carries over from one binding to the next is that no name changes what it stands for: a call
only spends an identity, and a binding adds a name that was not there (`Machine.Binds`).  So at the
end of the program, or where it fails, all versions can be read at once: each name is bound to an
array that shows what the operations make of the sequence at the base, as that is still seen then
(`Version.AllBound`).
-/

namespace Scriptlet

open Eval

/-! ## Versions

A version names the array that it starts from, and what is pushed is named as well; so it is known
without evaluation what a version should show. -/

/-- A call of the operation on what an expression gives; a name says what is pushed. -/
def ArrayOp.toExpr (op : ArrayOp String) (e : Expr) : Expr :=
  .call (.ident op.builtin.name) (e :: op.added.map .ident)

/-- The name of an array, and the calls around it from inside out. -/
structure Version where
  base : String
  ops : List (ArrayOp String)

namespace Version

/-- The version as an expression: the name, and the calls around it. -/
def toExpr (v : Version) : Expr := v.ops.foldl (fun e op => op.toExpr e) (.ident v.base)

/-- What the operations make of the sequence at the base, if names stand for what `ρ` says. -/
def Yields (ρ : String → Value) (v : Version) (r : Option (FiniteSequence Value)) : Prop :=
  ∃ s, (ρ v.base).Shows s ∧ s.after? (v.ops.map (·.map ρ)) = r

/-- If the base stands for an array, the operations start from the sequence of its elements. -/
theorem yields_iff {ρ : String → Value} {v : Version} {id : Identity} {es : List Value}
    (hbase : ρ v.base = .array id es) {r : Option (FiniteSequence Value)} :
    v.Yields ρ r ↔ (FiniteSequence.ofList es).after? (v.ops.map (·.map ρ)) = r := by
  rw [Yields, hbase]
  simp only [Value.shows_array_iff, exists_eq_left]

/-- The statements that bind versions to names. -/
def bindings (p : List (String × Version)) : Block := p.map fun d => .bind d.1 d.2.toExpr

end Version

/-- The operation can be called where the names `seen` have values: what it pushes has one, and its
built-in is not shadowed. -/
@[mk_iff]
structure ArrayOp.Formed (seen : Set String) (op : ArrayOp String) : Prop where
  pushed : ∀ x ∈ op.added, x ∈ seen
  unshadowed : op.builtin.name ∉ seen

/-- The version can be made where the names `arrays` stand for arrays. -/
structure Version.Formed (arrays seen : Set String) (v : Version) : Prop where
  base : v.base ∈ arrays
  ops : ∀ op ∈ v.ops, op.Formed seen

/-- Each version can be made when its turn has come, and is bound to a new name. -/
inductive Version.AllFormed : Set String → Set String → List (String × Version) → Prop
  | nil {arrays seen} : AllFormed arrays seen []
  | cons {arrays seen x v p} : v.Formed arrays seen → x ∉ seen →
    AllFormed (insert x arrays) (insert x seen) p → AllFormed arrays seen ((x, v) :: p)

/-- The names that stand for arrays, seen from a scope. -/
def Store.arrays (s : Store) (i : ScopeId) : Set String := {x | (s.meaning i x).kind = .array}

/-- What stands for an array has a value. -/
theorem Store.arrays_subset_seen (s : Store) (i : ScopeId) : s.arrays i ⊆ s.seen i := by
  intro x hx
  by_contra hseen
  have hnull : s.meaning i x = .null := by rw [meaning, notMem_seen.mp hseen, Option.getD_none]
  have hkind : (s.meaning i x).kind = .array := hx
  rw [hnull] at hkind
  cases hkind

/-- What a version yields depends on names that have values only. -/
theorem Version.Formed.yields_congr {arrays seen : Set String} {v : Version} {ρ ρ' : String → Value}
    (hv : v.Formed arrays seen) (hsub : arrays ⊆ seen) (h : ∀ x ∈ seen, ρ x = ρ' x)
    {r : Option (FiniteSequence Value)} : v.Yields ρ r ↔ v.Yields ρ' r := by
  have hops : v.ops.map (·.map ρ) = v.ops.map (·.map ρ') :=
    List.map_congr_left fun op hop =>
      ArrayOp.map_congr fun x hx => h x ((hv.ops op hop).pushed x hx)
  rw [Yields, Yields, hops, h v.base (hsub hv.base)]

/-! ## Names

A name is looked up in the scopes first, so the built-in of that name is what it stands for only if
no scope in sight binds it.  Making arrays changes none of that. -/

theorem Builtin.ofName?_name (b : Builtin) : ofName? b.name = some b := by
  cases b <;> rfl

namespace Machine.OnlyMade

variable {m m' : Machine}

/-- When values are made, a name gives what it gave. -/
theorem get?_eq (h : m.OnlyMade m') (i : ScopeId) (x : String) :
    m'.store.get? i x = m.store.get? i x :=
  ((Store.AgreesOn.of_scopes_eq h.scopes x).get?_eq i).symm

theorem own?_eq (h : m.OnlyMade m') (k : ScopeId) (x : String) :
    m'.store.own? k x = m.store.own? k x :=
  ((Store.AgreesOn.of_scopes_eq h.scopes x).own?_eq k).symm

theorem seen_eq (h : m.OnlyMade m') (i : ScopeId) : m'.store.seen i = m.store.seen i := by
  simp only [Store.seen, h.get?_eq]

theorem meaning_eq (h : m.OnlyMade m') (i : ScopeId) : m'.store.meaning i = m.store.meaning i :=
  funext fun x => by rw [Store.meaning, Store.meaning, h.get?_eq]

theorem nextScope_eq (h : m.OnlyMade m') : m'.store.nextScope = m.store.nextScope :=
  congrArg Array.size h.scopes

end Machine.OnlyMade

section

variable {limits : Limits} {i : ScopeId} {m m₁ m' : Machine} {e : Expr} {a : Value}

/-- A name that has a value gives it. -/
theorem Task.gives_name {x : String} (hx : x ∈ m.store.seen i) :
    (expr i (.ident x)).Gives limits m (some (m.store.meaning i x)) m := by
  have hlookup : lookup i x m = .done (m.store.meaning i x) m := by
    rw [lookup, Store.get?_of_mem_seen hx]
  refine settles_succ.mp ?_
  simp only [Task.eval, Expr.eval]
  exact Settles.bind (.const hlookup rfl) (.const rfl rfl)

/-- The name of a built-in gives the built-in, if no scope in sight binds that name. -/
theorem Task.gives_builtin {b : Builtin} (hb : b.name ∉ m.store.seen i) :
    (expr i (.ident b.name)).Gives limits m (some (.builtin b)) m := by
  have hlookup : lookup i b.name m = .done (.builtin b) m := by
    rw [lookup, Store.notMem_seen.mp hb, b.ofName?_name]
  refine settles_succ.mp ?_
  simp only [Task.eval, Expr.eval]
  exact Settles.bind (.const hlookup rfl) (.const rfl rfl)

/-- A list of names gives what they stand for. -/
theorem Task.values_give_names {xs : List String} (hxs : ∀ x ∈ xs, x ∈ m.store.seen i) :
    (values i (xs.map .ident)).Gives limits m (xs.map (m.store.meaning i)) m := by
  induction xs with
  | nil => exact .const rfl rfl
  | cons x xs ih =>
    obtain ⟨hx, hxs⟩ := List.forall_mem_cons.mp hxs
    exact (gives_name hx).operand.bind ((ih hxs).bind (.const rfl rfl))

/-! ## Calls around each other

Each call evaluates the array first, then what is pushed, and then makes a new array.  The calls go
from inside out, so an induction along the operations has one call in front and the others around
it; the first that fails is the last one that is applied. -/

variable {op : ArrayOp String} {ops : List (ArrayOp String)} {s t : FiniteSequence Value}

/-- **A call of the operation ends as its built-in says.** -/
theorem ArrayOp.endsAs (hop : op.Formed (m.store.seen i))
    (he : (Task.expr i e).Gives limits m (some a) m₁) (hmade : m.OnlyMade m₁) :
    (op.toExpr e).EndsAs limits i m
      (op.builtin.call m₁.store.nextId (a :: (op.map (m.store.meaning i)).added)) m₁.spent := by
  have hadded : (Task.values i (op.added.map .ident)).Gives limits m₁
      (op.added.map (m.store.meaning i)) m₁ := by
    rw [← hmade.meaning_eq]
    exact Task.values_give_names (hmade.seen_eq i ▸ hop.pushed)
  rw [added_map]
  exact Expr.endsAs_builtin (Task.gives_builtin hop.unshadowed)
    (he.operand.bind (hadded.bind (.const rfl rfl)))

/-- **A call does to an array what the operation does to the sequence**, under a new identity. -/
theorem ArrayOp.gives_of_some (hop : op.Formed (m.store.seen i))
    (he : (Task.expr i e).Gives limits m (some a) m₁) (hmade : m.OnlyMade m₁) (ha : a.Shows s)
    (ht : (op.map (m.store.meaning i)).onSequence? s = some t) :
    (Task.expr i (op.toExpr e)).Gives limits m (some (.array m₁.store.nextId t.toList))
      m₁.spent := by
  have hcall := (op.map (m.store.meaning i)).call_of_some ha ht m₁.store.nextId
  rw [builtin_map] at hcall
  exact ((endsAs hop he hmade).gives_iff _ _).mpr ⟨hcall, rfl⟩

/-- **Where the operation is not defined, the call fails.** -/
theorem ArrayOp.unwinds_of_none (hop : op.Formed (m.store.seen i))
    (he : (Task.expr i e).Gives limits m (some a) m₁) (hmade : m.OnlyMade m₁) (ha : a.Shows s)
    (ht : (op.map (m.store.meaning i)).onSequence? s = none) :
    (Task.expr i (op.toExpr e)).Unwinds limits m (.failed .emptyArray) m₁.spent := by
  have hcall := (op.map (m.store.meaning i)).call_of_none ha ht m₁.store.nextId
  rw [builtin_map] at hcall
  exact ((endsAs hop he hmade).fails_iff _ _).mpr ⟨hcall, rfl⟩

/-- What unwinds the array unwinds the calls around it. -/
theorem ArrayOp.unwinds_around {why : Unwind} (hops : ∀ op ∈ ops, op.Formed (m.store.seen i))
    (he : (Task.expr i e).Unwinds limits m why m') :
    (Task.expr i (ops.foldl (fun e op => op.toExpr e) e)).Unwinds limits m why m' := by
  induction ops generalizing e with
  | nil => exact he
  | cons op ops ih =>
    obtain ⟨hop, hops⟩ := List.forall_mem_cons.mp hops
    have hbuiltin : (Task.expr i (.ident op.builtin.name)).Gives limits m _ m :=
      Task.gives_builtin hop.unshadowed
    exact ih hops ((Enters.arguments hbuiltin).unwinds rfl (Enters.value.unwinds rfl he))

/-- **Calls one around the other do what the operations do to the sequence**, one after another. -/
theorem ArrayOp.give_after (hops : ∀ op ∈ ops, op.Formed (m.store.seen i))
    (he : (Task.expr i e).Gives limits m (some a) m₁) (hmade : m.OnlyMade m₁) (ha : a.Shows s)
    (ht : s.after? (ops.map (·.map (m.store.meaning i))) = some t) :
    ∃ w m', (Task.expr i (ops.foldl (fun e op => op.toExpr e) e)).Gives limits m (some w) m' ∧
      w.Shows t ∧ m.OnlyMade m' := by
  induction ops generalizing e a s m₁ with
  | nil =>
    obtain rfl := Option.some.inj ht
    exact ⟨a, m₁, he, ha, hmade⟩
  | cons op ops ih =>
    obtain ⟨hop, hops⟩ := List.forall_mem_cons.mp hops
    obtain ⟨s', hs', ht⟩ := Option.bind_eq_some_iff.mp ht
    exact ih hops (gives_of_some hop he hmade ha hs') (hmade.trans (.spent m₁)) ⟨_, rfl⟩ ht

/-- **Where an operation is not defined, its call fails**, and with it the calls around it. -/
theorem ArrayOp.unwind_after (hops : ∀ op ∈ ops, op.Formed (m.store.seen i))
    (he : (Task.expr i e).Gives limits m (some a) m₁) (hmade : m.OnlyMade m₁) (ha : a.Shows s)
    (ht : s.after? (ops.map (·.map (m.store.meaning i))) = none) :
    ∃ m', (Task.expr i (ops.foldl (fun e op => op.toExpr e) e)).Unwinds limits m
      (.failed .emptyArray) m' ∧ m.OnlyMade m' := by
  induction ops generalizing e a s m₁ with
  | nil => cases ht
  | cons op ops ih =>
    obtain ⟨hop, hops⟩ := List.forall_mem_cons.mp hops
    have hmade' := hmade.trans (.spent m₁)
    cases hs' : (op.map (m.store.meaning i)).onSequence? s with
    | none =>
      have hfails := unwinds_around hops (unwinds_of_none hop he hmade ha hs')
      exact ⟨_, hfails, hmade'⟩
    | some s' =>
      have hrest := Option.bind_eq_none_iff.mp ht s' hs'
      exact ih hops (gives_of_some hop he hmade ha hs') hmade' ⟨_, rfl⟩ hrest

end

/-! ## One binding after another

The versions are bound one by one.  That an older one is still what it was is carried along: its
name is not bound again, and no call changes what a name stands for. -/

/-- From `m` to `m'` a name was bound in the scope, and all other names, in all scopes and as seen
from this one, stand for what they stood for. -/
structure Machine.Binds (m m' : Machine) (i : ScopeId) (x : String) (w : Value) : Prop where
  own : ∀ k y, m'.store.own? k y = if k = i ∧ y = x then some w else m.store.own? k y
  get : ∀ y, m'.store.get? i y = if y = x then some w else m.store.get? i y
  nextScope : m'.store.nextScope = m.store.nextScope

namespace Machine.Binds

variable {m m' : Machine} {i : ScopeId} {x : String} {w : Value}

/-- A version is made, and then a name is bound to it. -/
theorem of_onlyMade {m₁ : Machine} (hmade : m.OnlyMade m₁) (hi : i < m.store.nextScope) :
    m.Binds { m₁ with store := m₁.store.bind i x w } i x w := by
  have hi₁ : i < m₁.store.nextScope := hmade.nextScope_eq ▸ hi
  refine ⟨fun k y => ?_, fun y => ?_, ?_⟩
  · rw [Store.written_bind hi₁, hmade.own?_eq]
  · rw [Store.get?_bind hi₁, hmade.get?_eq]
  · exact (m₁.store.changed_bind i x w).nextScope.trans hmade.nextScope_eq

theorem meaning_of_ne (h : m.Binds m' i x w) {y : String} (hne : y ≠ x) :
    m'.store.meaning i y = m.store.meaning i y := by
  rw [Store.meaning, Store.meaning, h.get, if_neg hne]

theorem meaning_self (h : m.Binds m' i x w) : m'.store.meaning i x = w := by
  rw [Store.meaning, h.get, if_pos rfl, Option.getD_some]

/-- One more name has a value. -/
theorem seen_eq (h : m.Binds m' i x w) : m'.store.seen i = insert x (m.store.seen i) := by
  ext y
  show (m'.store.get? i y).isSome ↔ y = x ∨ (m.store.get? i y).isSome
  rw [h.get]
  by_cases hy : y = x
  · simp [hy]
  · simp [hy]

/-- If the value is an array, one more name stands for an array. -/
theorem arrays_eq (h : m.Binds m' i x w) (hw : w.kind = .array) :
    m'.store.arrays i = insert x (m.store.arrays i) := by
  ext y
  show (m'.store.meaning i y).kind = .array ↔ y = x ∨ (m.store.meaning i y).kind = .array
  by_cases hy : y = x
  · simp only [hy, h.meaning_self, hw, true_or]
  · simp only [h.meaning_of_ne hy, hy, false_or]

/-- What names stood for they still stand for. -/
theorem get?_kept (h : m.Binds m' i x w) (hx : x ∉ m.store.seen i) {y : String} {v : Value}
    (hy : m.store.get? i y = some v) : m'.store.get? i y = some v := by
  rw [h.get, if_neg, hy]
  rintro rfl
  rw [Store.notMem_seen.mp hx] at hy
  cases hy

/-- What scopes bind they still bind. -/
theorem own?_kept (h : m.Binds m' i x w) (hx : x ∉ m.store.seen i) {k : ScopeId} {y : String}
    {v : Value} (hy : m.store.own? k y = some v) : m'.store.own? k y = some v := by
  rw [h.own, if_neg, hy]
  rintro ⟨rfl, rfl⟩
  exact hx (Option.isSome_iff_exists.mpr ⟨v, Store.get?_of_own? hy⟩)

end Machine.Binds

section

variable {limits : Limits} {i : ScopeId} {m : Machine} {x : String} {v : Version}
  {t : FiniteSequence Value}

/-- **A version that is made is bound**, and nothing else is done but that. -/
theorem Version.Formed.gives_bind (hv : v.Formed (m.store.arrays i) (m.store.seen i))
    (hx : x ∉ m.store.seen i) (hi : i < m.store.nextScope)
    (ht : v.Yields (m.store.meaning i) (some t)) :
    ∃ w m', (Task.statement i (.bind x v.toExpr)).Gives limits m none m' ∧ w.Shows t ∧
      m.Binds m' i x w := by
  obtain ⟨s, hs, ht⟩ := ht
  have hbase : (Task.expr i (.ident v.base)).Gives limits m _ m :=
    Task.gives_name (m.store.arrays_subset_seen i hv.base)
  obtain ⟨w, m₁, hgives, hw, hmade⟩ := ArrayOp.give_after hv.ops hbase (.refl m) hs ht
  have hfree : m₁.store.owns i x = false := by
    have hnone : m₁.store.get? i x = none := (hmade.get?_eq i x).trans (Store.notMem_seen.mp hx)
    rw [Store.owns_eq_isSome]
    refine Option.isSome_eq_false_iff.mpr (Option.isNone_iff_eq_none.mpr ?_)
    refine Option.eq_none_iff_forall_ne_some.mpr fun u hu => ?_
    cases hnone.symm.trans (Store.get?_of_own? hu)
  refine ⟨w, _, settles_succ.mp ?_, hw, .of_onlyMade hmade hi⟩
  simp only [Task.eval, Statement.eval]
  have hrequired : Settles (fun n => required (Expr.eval limits n i v.toExpr)) m (.done w m₁) :=
    hgives.bind (.const rfl rfl)
  exact hrequired.bind (Settles.bind (.const (define_of_free hfree w) rfl) (.const rfl rfl))

/-- **A version that cannot be made fails**, and nothing is bound. -/
theorem Version.Formed.unwinds_bind (hv : v.Formed (m.store.arrays i) (m.store.seen i))
    (ht : v.Yields (m.store.meaning i) none) :
    ∃ m', (Task.statement i (.bind x v.toExpr)).Unwinds limits m (.failed .emptyArray) m' ∧
      m.OnlyMade m' := by
  obtain ⟨s, hs, ht⟩ := ht
  have hbase : (Task.expr i (.ident v.base)).Gives limits m _ m :=
    Task.gives_name (m.store.arrays_subset_seen i hv.base)
  obtain ⟨m', hfails, hmade⟩ := ArrayOp.unwind_after hv.ops hbase (.refl m) hs ht
  exact ⟨m', Enters.bound.unwinds rfl hfails, hmade⟩

end

/-- The versions `done` **are bound as they say**, on the machine `m'`: each to an array that shows
what it yields, if names stand for what they are bound to there.  Nothing that was bound on the
machine `m` has changed. -/
structure Version.AllBound (i : ScopeId) (m : Machine) (done : List (String × Version))
    (m' : Machine) : Prop where
  bound : ∀ d ∈ done, ∃ t, d.2.Yields (m'.store.meaning i) (some t) ∧
    ∃ w, m'.store.own? i d.1 = some w ∧ m'.store.get? i d.1 = some w ∧ w.Shows t
  keeps : ∀ k x v, m.store.own? k x = some v → m'.store.own? k x = some v
  sees : ∀ x v, m.store.get? i x = some v → m'.store.get? i x = some v

namespace Version.AllBound

variable {i : ScopeId} {m m₁ m' : Machine} {done : List (String × Version)}

theorem of_onlyMade (h : m.OnlyMade m') : AllBound i m [] m' :=
  ⟨nofun, fun k x _ hx => (h.own?_eq k x).trans hx, fun x _ hx => (h.get?_eq i x).trans hx⟩

/-- A version that is bound first stays as it is, and so does what it is made of. -/
theorem cons {x : String} {v : Version} {w : Value} {t : FiniteSequence Value}
    (hv : v.Formed (m.store.arrays i) (m.store.seen i)) (hx : x ∉ m.store.seen i)
    (ht : v.Yields (m.store.meaning i) (some t)) (hw : w.Shows t) (hbinds : m.Binds m₁ i x w)
    (h : AllBound i m₁ done m') : AllBound i m ((x, v) :: done) m' := by
  have hsees : ∀ y u, m.store.get? i y = some u → m'.store.get? i y = some u :=
    fun y u hy => h.sees y u (hbinds.get?_kept hx hy)
  refine ⟨List.forall_mem_cons.mpr ⟨⟨t, ?_, w, ?_, ?_, hw⟩, h.bound⟩,
    fun k y u hy => h.keeps k y u (hbinds.own?_kept hx hy), hsees⟩
  · refine (hv.yields_congr (m.store.arrays_subset_seen i) fun y hy => ?_).mp ht
    exact (congrArg (Option.getD · .null) (hsees y _ (Store.get?_of_mem_seen hy))).symm
  · exact h.keeps i x w ((hbinds.own i x).trans (if_pos ⟨rfl, rfl⟩))
  · exact h.sees x w ((hbinds.get x).trans (if_pos rfl))

end Version.AllBound

/-- **A row of bindings binds each version**, up to the first one that cannot be made. -/
theorem Version.bindings_settle {limits : Limits} {i : ScopeId} {m : Machine}
    {p : List (String × Version)} (hp : AllFormed (m.store.arrays i) (m.store.seen i) p)
    (hi : i < m.store.nextScope) (last : Option Value) :
    ∃ done rest m', p = done ++ rest ∧ AllBound i m done m' ∧
      ((rest = [] ∧ ∃ r, (Task.row i (bindings p) last).Gives limits m r m') ∨
        ∃ d ds, rest = d :: ds ∧ d.2.Yields (m'.store.meaning i) none ∧
          (Task.row i (bindings p) last).Unwinds limits m (.failed .emptyArray) m') := by
  generalize harrays : m.store.arrays i = arrays at hp
  generalize hseen : m.store.seen i = seen at hp
  -- Along the row.  The machine changes with every binding, so the names that stand for something
  -- by then are what the induction is about.
  induction hp generalizing m last with
  | nil => exact ⟨[], [], m, rfl, .of_onlyMade (.refl m), .inl ⟨rfl, last, .const rfl rfl⟩⟩
  | @cons _ _ x v p hv hx _ ih =>
    subst harrays hseen
    obtain ⟨s, hs, -⟩ := Value.existsUnique_shows hv.base
    cases hr : s.after? (v.ops.map (·.map (m.store.meaning i))) with
    | none =>
      obtain ⟨m', hfails, hmade⟩ := hv.unwinds_bind ⟨s, hs, hr⟩
      refine ⟨[], (x, v) :: p, m', rfl, .of_onlyMade hmade, .inr ⟨_, _, rfl, ?_, ?_⟩⟩
      · rw [hmade.meaning_eq]
        exact ⟨s, hs, hr⟩
      · exact Enters.first.unwinds rfl hfails
    | some t =>
      have ht : v.Yields (m.store.meaning i) (some t) := ⟨s, hs, hr⟩
      obtain ⟨w, m₁, hgives, hw, hbinds⟩ := hv.gives_bind hx hi ht
      have hkind : w.kind = .array := by
        obtain ⟨id, rfl⟩ := hw
        rfl
      obtain ⟨done, rest, m', rfl, hbound, hends⟩ := ih (hbinds.nextScope ▸ hi) none
        (hbinds.arrays_eq hkind) hbinds.seen_eq
      refine ⟨(x, v) :: done, rest, m', rfl, hbound.cons hv hx ht hw hbinds, ?_⟩
      rcases hends with ⟨hrest, r, hrow⟩ | ⟨d, ds, hrest, hd, hrow⟩
      · exact .inl ⟨hrest, r, hgives.bind hrow⟩
      · exact .inr ⟨d, ds, hrest, hd, (Enters.others hgives).unwinds rfl hrow⟩

/-! ## Arrays are sequences

All together: what an index gives, what the built-ins give, what a row of versions gives, and how
long two joined strings are. -/

/-- **The length of two strings joined** in a program. -/
theorem Task.gives_len_add {limits : Limits} {i : ScopeId} {f l r : Expr} {m m₁ m₂ m₃ : Machine}
    {s t : String} (hf : (expr i f).Gives limits m (some (.builtin .len)) m₁)
    (hl : (expr i l).Gives limits m₁ (some (.string s)) m₂)
    (hr : (expr i r).Gives limits m₂ (some (.string t)) m₃) :
    (expr i (.call f [.binary .add l r])).Gives limits m (some (.integer
      (Int64.ofNat s.toList.length + Int64.ofNat t.toList.length))) m₃.spent := by
  have hjoined : (expr i (.binary .add l r)).Gives limits m₁ (some (.string (s ++ t))) m₃ :=
    ((Expr.endsAs_binary (by decide) hl hr).gives_iff _ _).mpr ⟨rfl, rfl⟩
  have hargs : (values i [.binary .add l r]).Gives limits m₁ [.string (s ++ t)] m₃ :=
    hjoined.operand.bind (.const rfl rfl)
  exact ((Expr.endsAs_builtin hf hargs).gives_iff _ _).mpr ⟨Builtin.len_append s t _, rfl⟩

/-- Arrays are **finite sequences** to all that works with them. -/
structure ArraysAreSequences : Prop where
  shows : ∀ v : Value, v.kind = .array → ∃! s, v.Shows s
  actsAs : ∀ (v : Value) s, v.Shows s → v.ActsAs s
  /-- Any calls of `push`, `pop` and `rest` one after another, on any array. -/
  calls : ∀ (v : Value) s, v.Shows s → ∀ calls : List (Identity × ArrayOp Value),
    (∀ t, s.after? (calls.map Prod.snd) = some t →
      ∃ w, ArrayOp.callAll v calls = .ok w ∧ w.Shows t) ∧
    (s.after? (calls.map Prod.snd) = none → ArrayOp.callAll v calls = .error .emptyArray)
  /-- The length of a string counts characters. -/
  characters : ∀ (s : String) id,
    Builtin.len.call id [.string s] = .ok (.integer (Int64.ofNat s.toList.length))
  /-- The length of two strings joined is that of the one and that of the other together. -/
  joined : ∀ {limits : Limits} {i : ScopeId} {f l r : Expr} {m m₁ m₂ m₃ : Machine} {s t : String},
    (Task.expr i f).Gives limits m (some (.builtin .len)) m₁ →
      (Task.expr i l).Gives limits m₁ (some (.string s)) m₂ →
        (Task.expr i r).Gives limits m₂ (some (.string t)) m₃ →
          (Task.expr i (.call f [.binary .add l r])).Gives limits m (some (.integer
            (Int64.ofNat s.toList.length + Int64.ofNat t.toList.length))) m₃.spent
  /-- An index in a program ends as it does for the values, and leaves the machine as it is. -/
  index_ends : ∀ {limits : Limits} {i : ScopeId} {e k : Expr} {m m₁ m₂ : Machine}
    {a key : Option Value}, (Task.expr i e).Gives limits m a m₁ →
      (Task.expr i k).Gives limits m₁ key m₂ →
        (Expr.index e k).EndsAs limits i m ((a.getD .null).index (key.getD .null)) m₂
  /-- So does a call of a built-in, which leaves all bindings as they are. -/
  call_ends : ∀ {limits : Limits} {i : ScopeId} {f : Expr} {args : List Expr} {b : Builtin}
    {m m₁ m₂ : Machine} {vs : List Value}, (Task.expr i f).Gives limits m (some (.builtin b)) m₁ →
      (Task.values i args).Gives limits m₁ vs m₂ →
        (Expr.call f args).EndsAs limits i m (b.call m₂.store.nextId vs) m₂.spent
  /-- A program that binds versions of arrays, older ones in use with newer ones, binds each to an
  array that shows what it yields, up to the first version that yields nothing, if there is one. -/
  versions : ∀ {limits : Limits} {i : ScopeId} {m : Machine} {p : List (String × Version)},
    i < m.store.nextScope → Version.AllFormed (m.store.arrays i) (m.store.seen i) p →
      ∃ done rest m', p = done ++ rest ∧ Version.AllBound i m done m' ∧
        ((rest = [] ∧ ∃ r, Program.Ends limits i (Version.bindings p) m (.done r m')) ∨
          ∃ d ds, rest = d :: ds ∧ d.2.Yields (m'.store.meaning i) none ∧
            Program.Ends limits i (Version.bindings p) m (.unwound (.failed .emptyArray) m'))

/-- **Arrays are finite sequences.** -/
theorem arrays_are_sequences : ArraysAreSequences where
  shows _ hv := Value.existsUnique_shows hv
  actsAs _ _ h := h.actsAs
  calls _ _ h _ := ⟨fun _ ht => ArrayOp.callAll_of_some h ht, ArrayOp.callAll_of_none h⟩
  characters := Builtin.len_string
  joined := Task.gives_len_add
  index_ends := Expr.endsAs_index
  call_ends := Expr.endsAs_builtin
  versions hi hp := by
    obtain ⟨done, rest, m', hsplit, hbound, hends⟩ := Version.bindings_settle hp hi none
    refine ⟨done, rest, m', hsplit, hbound, hends.imp ?_ ?_⟩
    · exact fun ⟨hrest, r, hrow⟩ => ⟨hrest, r, .of_row hrow⟩
    · exact fun ⟨d, ds, hrest, hd, hrow⟩ => ⟨d, ds, hrest, hd, .of_row hrow⟩

/-- Where `a` is `[1, 2]`, the program `let b = rest(push(a, a)); let c = pop(pop(pop(b)));` fails
at the third `pop`.  Then `a` is still what it was, and `b` is `[2, a]` with the very array `a` in
it. -/
theorem arrays_are_sequences_pushed_into_themselves :
    let a : Value := .array 0 [.integer 1, .integer 2]
    let m : Machine := ⟨(Session.new {}).store.bind 0 "a" a, 0⟩
    ∃ m' w, Program.Ends {} 0 (Version.bindings [("b", ⟨"a", [.push "a", .rest]⟩),
        ("c", ⟨"b", [.pop, .pop, .pop]⟩)]) m (.unwound (.failed .emptyArray) m') ∧
      m'.store.get? 0 "a" = some a ∧ m'.store.get? 0 "b" = some w ∧
      w.elements? = some [.integer 2, a] := by
  intro a m
  have hget : ∀ x, m.store.get? 0 x = if x = "a" then some a else none :=
    fun x => Store.get?_bind (by decide) x "a" a
  have hseen : ∀ x, x ∈ m.store.seen 0 ↔ x = "a" := by
    intro x
    show (m.store.get? 0 x).isSome ↔ x = "a"
    rw [hget]
    split <;> simp [*]
  have hbase : "a" ∈ m.store.arrays 0 := by
    show (m.store.meaning 0 "a").kind = .array
    rw [Store.meaning, hget]
    rfl
  have hformed : Version.AllFormed (m.store.arrays 0) (m.store.seen 0)
      [("b", ⟨"a", [.push "a", .rest]⟩), ("c", ⟨"b", [.pop, .pop, .pop]⟩)] := by
    refine .cons ⟨hbase, ?_⟩ ?_ (.cons ⟨Set.mem_insert _ _, ?_⟩ ?_ .nil)
    all_goals
      simp [ArrayOp.formed_iff, ArrayOp.added, ArrayOp.builtin, Builtin.name, hseen]
  obtain ⟨done, rest, m', hsplit, hbound, hends⟩ :=
    arrays_are_sequences.versions (i := 0) (m := m) (by decide) hformed
  have ha : m'.store.get? 0 "a" = some a := hbound.sees "a" a (hget "a")
  have hmeaning : m'.store.meaning 0 "a" = a := by
    rw [Store.meaning, ha]
    rfl
  have hb : ∀ r, (Version.mk "a" [.push "a", .rest]).Yields (m'.store.meaning 0) r →
      r.map FiniteSequence.toList = some [.integer 2, a] := by
    intro r hr
    rw [← (Version.yields_iff hmeaning).mp hr]
    simp only [List.map_cons, List.map_nil, ArrayOp.map, hmeaning]
    rfl
  cases done with
  | nil =>
    -- `b` would be the first version that yields nothing
    obtain rfl : _ = rest := hsplit
    rcases hends with ⟨hrest, -⟩ | ⟨d, ds, hrest, hd, -⟩
    · cases hrest
    · cases hrest
      cases hb none hd
  | cons d done =>
    injection hsplit with hd hsplit
    subst hd
    obtain ⟨t, ht, w, -, hw, id, hshows⟩ := hbound.bound _ List.mem_cons_self
    rw [Option.some.inj (hb _ ht)] at hshows
    have hc : ∀ r, (Version.mk "b" [.pop, .pop, .pop]).Yields (m'.store.meaning 0) r →
      r = none := by
      intro r hr
      have hmeaning' : m'.store.meaning 0 "b" = .array id [.integer 2, a] := by
        rw [Store.meaning, hw, hshows]
        rfl
      exact ((Version.yields_iff hmeaning').mp hr).symm
    cases done with
    | nil =>
      obtain rfl : _ = rest := hsplit
      rcases hends with ⟨hrest, -⟩ | ⟨d, ds, -, -, hfails⟩
      · cases hrest
      · exact ⟨m', w, hfails, ha, hw, hshows ▸ rfl⟩
    | cons d done =>
      -- `c` would be bound to what it does not yield
      injection hsplit with hd _
      subst hd
      obtain ⟨t, ht, -⟩ := hbound.bound _ (List.mem_cons_of_mem _ List.mem_cons_self)
      cases hc _ ht

end Scriptlet
