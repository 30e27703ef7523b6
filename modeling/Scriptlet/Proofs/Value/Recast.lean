import Mathlib.Logic.Function.Basic
import Scriptlet.Proofs.Value.Shape
import Scriptlet.Store.Basic

/-!
# Proofs/Value/Recast — no operator looks into a function

What a function consists of is seen by calls only.  So all functions inside of values can be given
other parameters, another body and another scope, and every operator, index and built-in does with
the new values what it did with the old ones: it commutes with `Value.recast`.  A scope can be
recast together with the values it binds, under other names if these stay different.  -/

namespace Scriptlet

/-- What the parts of a function and the names in a scope become. -/
structure Recast where
  name : String → String
  params : List Param → List Param
  body : Block → Block
  scope : ScopeId → ScopeId

mutual

/-- The value with all functions in it recast. -/
def Value.recast (c : Recast) : Value → Value
  | .integer n => .integer n
  | .boolean b => .boolean b
  | .string s => .string s
  | .null => .null
  | .array i es => .array i (recastElements c es)
  | .hash i ps => .hash i (recastEntries c ps)
  | .function i params body scope => .function i (c.params params) (c.body body) (c.scope scope)
  | .builtin b => .builtin b
  | .error message => .error message

/-- All elements recast. -/
def recastElements (c : Recast) : List Value → List Value
  | [] => []
  | v :: vs => v.recast c :: recastElements c vs

/-- Both values of all entries recast; the keys they stand under stay. -/
def recastEntries (c : Recast) : List (HashKey × HashPair Value) → List (HashKey × HashPair Value)
  | [] => []
  | (key, ⟨k, v⟩) :: ps => (key, ⟨k.recast c, v.recast c⟩) :: recastEntries c ps

end

variable (c : Recast)

/-- An entry with its two values recast. -/
def recastEntry (p : HashEntry) : HashEntry := p.map id (HashPair.map (Value.recast c))

/-! As maps, elements and entries can be taken one by one. -/

theorem recastElements_eq (es : List Value) : recastElements c es = es.map (Value.recast c) := by
  induction es with
  | nil => rfl
  | cons e es ih => rw [recastElements, ih, List.map_cons]

theorem recastEntries_eq (ps : List HashEntry) :
    recastEntries c ps = ps.map (recastEntry c) := by
  induction ps with
  | nil => rfl
  | cons p ps ih =>
    rw [recastEntries, ih, List.map_cons]
    rfl

/-- What is found among recast entries is what would have been found, recast. -/
theorem lookup_recast (ps : List HashEntry) (key : HashKey) :
    (ps.map (recastEntry c)).lookup key =
      (ps.lookup key).map (HashPair.map (Value.recast c)) :=
  lookup_map _ ps key

/-- To put in a recast pair is to put it in and recast. -/
theorem insertPair_recast (key : HashKey) (pair : HashPair Value) (ps : List HashEntry) :
    insertPair key (pair.map (Value.recast c)) (ps.map (recastEntry c)) =
      (insertPair key pair ps).map (recastEntry c) := by
  induction ps with
  | nil => rfl
  | cons p ps ih =>
    simp only [List.map_cons, insertPair, recastEntry, Prod.map_fst, id]
    split
    · rfl
    · exact congrArg _ ih

namespace Value

/-! ## What a value shows

Kind, truth and keys are told without a look at names and scopes. -/

/-! Recasting changes nothing that any operator, index or built-in asks for: kinds, truth values,
keys, and which values are the same. -/

@[simp]
theorem recast_array (i : Identity) (es : List Value) :
    (array i es).recast c = .array i (es.map (recast c)) := by
  rw [recast, recastElements_eq]

@[simp]
theorem recast_hash (i : Identity) (ps : List HashEntry) :
    (hash i ps).recast c = .hash i (ps.map (recastEntry c)) := by
  rw [recast, recastEntries_eq]

theorem recast_of_isPlain {v : Value} (h : v.isPlain) : v.recast c = v := by
  cases v <;> first | rfl | cases h

@[simp]
theorem kind_recast (v : Value) : (v.recast c).kind = v.kind := by
  cases v <;> rfl

@[simp]
theorem truthy_recast (v : Value) : (v.recast c).truthy = v.truthy := by
  cases v <;> rfl

@[simp]
theorem toHashKey_recast (v : Value) : (v.recast c).toHashKey = v.toHashKey := by
  cases v <;> rfl

/-- **The same values stay the same**, and no others become so. -/
@[simp]
theorem same_recast (u v : Value) : (u.recast c).same (v.recast c) = u.same v := by
  cases u <;> cases v <;> simp [same, recast, recastElements_eq]

theorem getD_recast (v : Option Value) :
    (v.map (recast c)).getD .null = (v.getD .null).recast c := by
  cases v <;> rfl

end Value

/-! ## Operators, indexes and built-ins

These look at kinds, at plain values and at identities, and hand out what is inside; none of that is
recast. -/

/-- **Prefix operators** commute with recasting. -/
theorem PrefixOp.apply_recast (op : PrefixOp) (v : Value) :
    op.apply (v.recast c) = (op.apply v).map (Value.recast c) := by
  cases op with
  | not => rw [PrefixOp.apply, PrefixOp.apply, Value.truthy_recast]; rfl
  | neg => cases v <;> rfl

/-- **Operators between operands** do, since they see integers, strings, kinds and sameness. -/
theorem InfixOp.apply_recast (op : InfixOp) (l r : Value) :
    op.apply (l.recast c) (r.recast c) = (op.apply l r).map (Value.recast c) := by
  -- what operators give is plain
  have hplain : (op.apply l r).map (Value.recast c) = op.apply l r := by
    cases h : op.apply l r with
    | error e => rfl
    | ok u => exact congrArg Except.ok (Value.recast_of_isPlain c (InfixOp.apply_isPlain h))
  rw [hplain]
  by_cases hint : l.kind = .integer ∧ r.kind = .integer
  · cases l <;> cases hint.1
    cases r <;> cases hint.2
    rfl
  by_cases hstr : l.kind = .string ∧ r.kind = .string
  · cases l <;> cases hstr.1
    cases r <;> cases hstr.2
    rfl
  rw [op.apply_eq_of_kind hint hstr,
    op.apply_eq_of_kind (by simpa using hint) (by simpa using hstr)]
  simp

/-- **Indexing** does: what is taken out is recast along with where it stood. -/
theorem Value.index_recast (container key : Value) :
    (container.recast c).index (key.recast c) = (container.index key).map (Value.recast c) := by
  cases container with
  | array i es =>
    rw [recast_array]
    cases key with
    | integer n =>
      simp only [recast, index, List.getElem?_map]
      split
      · rfl
      · cases es[n.toInt.toNat]? <;> rfl
    | _ => rfl
  | hash i ps =>
    rw [recast_hash, index, index, toHashKey_recast]
    cases key.toHashKey with
    | error e => rfl
    | ok k =>
      simp only [Except.map, lookup_recast, Option.map_map, ← getD_recast]
      rfl
  | _ => cases key <;> rfl

theorem Builtin.element_recast (e : Option Value) :
    element (e.map (Value.recast c)) = (element e).map (Value.recast c) := by
  cases e <;> rfl

theorem Builtin.shortened_recast (fresh : Identity) (es remaining : List Value) :
    shortened fresh (es.map (Value.recast c)) (remaining.map (Value.recast c)) =
      (shortened fresh es remaining).map (Value.recast c) := by
  simp only [shortened, List.isEmpty_map]
  split
  · rfl
  · rw [Except.map, Value.recast_array]

/-- **Built-ins** commute with recasting. -/
theorem Builtin.call_recast (b : Builtin) (fresh : Identity) (args : List Value) :
    b.call fresh (args.map (Value.recast c)) = (b.call fresh args).map (Value.recast c) := by
  unfold Builtin.call
  rw [List.length_map]
  split
  · rfl
  cases args with
  | nil => cases b <;> rfl
  | cons v vs =>
    cases v with
    | array i es =>
      rw [List.map_cons, Value.recast_array]
      cases b with
      | len => simp only [List.length_map]; rfl
      | first => simp only [List.head?_map, element_recast]
      | last => simp only [List.getLast?_map, element_recast]
      | rest => simp only [← List.map_tail, shortened_recast]
      | pop => simp only [← List.map_dropLast, shortened_recast]
      | push => simp only [← List.map_append, ← Value.recast_array]; rfl
    | _ => cases b <;> rfl

/-! ## Scopes

Different names have to stay different, since a scope with two names that become one would bind one
of them twice. -/

namespace Scope

/-- The scope with its names and its values recast. -/
def recast (s : Scope) : Scope :=
  ⟨s.outer.map c.scope, s.bindings.map fun b => (c.name b.1, b.2.recast c)⟩

variable (s : Scope) (x : String) (v : Value)

/-- A name that is added to a scope is added under its new name. -/
theorem add_recast : (s.recast c).add (c.name x) (v.recast c) = (s.add x v).recast c := rfl

variable {c} (hc : Function.Injective c.name)
include hc

/-- **A lookup finds the recast value under the new name**, as different names stay different. -/
theorem get?_recast : (s.recast c).get? (c.name x) = (s.get? x).map (Value.recast c) := by
  obtain ⟨outer, bindings⟩ := s
  simp only [get?, recast]
  induction bindings with
  | nil => rfl
  | cons b bs ih =>
    rw [List.map_cons, List.lookup_cons, List.lookup_cons, hc.beq_eq]
    cases x == b.1 with
    | true => rfl
    | false => exact ih

theorem binds_recast : (s.recast c).binds (c.name x) = s.binds x := by
  rw [binds, get?_recast s x hc, Option.isSome_map, binds]

theorem set_recast : (s.recast c).set (c.name x) (v.recast c) = (s.set x v).recast c := by
  simp only [set, recast, List.map_map, Scope.mk.injEq, true_and]
  refine List.map_congr_left fun b _ => ?_
  simp only [Function.comp_apply, hc.eq_iff]
  split <;> rfl

end Scope

end Scriptlet
