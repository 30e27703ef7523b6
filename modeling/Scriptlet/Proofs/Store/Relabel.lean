import Scriptlet.Proofs.Syntax.Relabel
import Scriptlet.Proofs.Value.Errors
import Scriptlet.Proofs.Value.Recast

/-!
# Proofs/Store/Relabel — other names in a store

The names that a store binds are replaced, and those in the functions it holds.  If different names
stay different, then the new names are found where the old ones were.

Only two errors carry a name; operators and built-ins cause neither.
-/

namespace Scriptlet

variable (r : String → String)

/-! ## Errors

Names occur in the errors about unknown names and names that are bound twice, and in no others. -/

/-- The name that the error is about. -/
def RuntimeError.name? : RuntimeError → Option String
  | unknownIdentifier x | alreadyDefined x => some x
  | _ => none

/-- The error with its name replaced. -/
def RuntimeError.relabel : RuntimeError → RuntimeError
  | unknownIdentifier x => .unknownIdentifier (r x)
  | alreadyDefined x => .alreadyDefined (r x)
  | e => e

/-- An error without a name in it stays as it is. -/
theorem RuntimeError.relabel_of_name? {e : RuntimeError} (h : e.name? = none) :
    e.relabel r = e := by
  cases e <;> first | rfl | cases h

/-- The errors of operations on values have no names in them. -/
theorem RuntimeError.name?_of_isOfValues {e : RuntimeError} (h : e.isOfValues) :
    e.name? = none := by
  cases e <;> first | rfl | cases h

/-! ## Values and scopes

The names that are replaced are those that scopes bind, and those in the bodies and parameters of
functions, wherever these are held. -/

/-- Other names, also in the parameters and the bodies of functions. -/
def Recast.relabel : Recast := ⟨r, List.map (Param.relabel r), Block.relabel r, id⟩

/-- The value with the names in its functions replaced. -/
def Value.relabel (v : Value) : Value := v.recast (.relabel r)

@[simp]
theorem Value.relabel_array (i : Identity) (es : List Value) :
    (array i es).relabel r = .array i (es.map (Value.relabel r)) :=
  recast_array _ i es

@[simp]
theorem Value.relabel_hash (i : Identity) (ps : List HashEntry) :
    (hash i ps).relabel r = .hash i (ps.map (recastEntry (.relabel r))) :=
  recast_hash _ i ps

theorem Scope.outer_relabel (c : Scope) : (c.recast (.relabel r)).outer = c.outer :=
  congrFun Option.map_id c.outer

/-- The store with names replaced in all its scopes. -/
def Store.relabel (s : Store) : Store :=
  { s with scopes := s.scopes.map (Scope.recast (.relabel r)) }

variable {r} (hr : Function.Injective r)

/-! ## Stores

Every operation on a store with its names replaced does what it does on the store itself, with the
names of the result replaced.  Only lookups need that different names stay different. -/

namespace Store

variable (s : Store) (i : ScopeId)

/-- Each place has the same scope, with other names. -/
theorem scopes_relabel :
    (s.relabel r).scopes[i]? = s.scopes[i]?.map (Scope.recast (.relabel r)) :=
  Array.getElem?_map

theorem nextScope_relabel : (s.relabel r).nextScope = s.nextScope := Array.size_map

/-- A new scope has no names to replace. -/
theorem addScope_relabel (outer : Option ScopeId) :
    (s.relabel r).addScope outer = (s.addScope outer).relabel r := by
  have hnew : Scope.recast (.relabel r) ⟨outer, []⟩ = ⟨outer, []⟩ :=
    congrArg (Scope.mk · []) (Scope.outer_relabel r ⟨outer, []⟩)
  simp only [addScope, relabel, Array.map_push, hnew]

/-- A change of one scope that is a change of the scope with other names, too. -/
theorem modify_relabel {f g : Scope → Scope}
    (h : ∀ c : Scope, g (c.recast (.relabel r)) = (f c).recast (.relabel r)) :
    Store.mk ((s.relabel r).scopes.modify i g) s.nextId =
      (Store.mk (s.scopes.modify i f) s.nextId).relabel r := by
  refine congrArg (Store.mk · s.nextId) (Array.ext_getElem? fun k => ?_)
  simp only [relabel, Array.getElem?_modify, Array.getElem?_map]
  split
  · simp only [Option.map_map, Function.comp_def, h]
  · rfl

theorem bind_relabel (x : String) (v : Value) :
    (s.relabel r).bind i (r x) (v.relabel r) = (s.bind i x v).relabel r :=
  s.modify_relabel i fun c => c.add_recast (.relabel r) x v

include hr

theorem set_relabel (x : String) (v : Value) :
    (s.relabel r).set i (r x) (v.relabel r) = (s.set i x v).relabel r :=
  s.modify_relabel i fun c => c.set_recast x v hr

/-- A scope owns the new name if it owned the old one. -/
theorem owns_relabel (x : String) : (s.relabel r).owns i (r x) = s.owns i x := by
  rw [owns, owns, scopes_relabel]
  cases s.scopes[i]? with
  | none => rfl
  | some c => exact c.binds_recast x hr

/-- The search for the new name goes the way of the search for the old one. -/
theorem resolveWithin_relabel (x : String) (n : Nat) :
    (s.relabel r).resolveWithin (r x) n i = s.resolveWithin x n i := by
  induction n generalizing i with
  | zero => rfl
  | succ n ih =>
    rw [resolveWithin, resolveWithin, scopes_relabel]
    cases s.scopes[i]? with
    | none => rfl
    | some c =>
      have hbinds := c.binds_recast (c := .relabel r) x hr
      rw [show (Recast.relabel r).name x = r x from rfl] at hbinds
      simp only [Option.map_some, hbinds]
      split
      · rfl
      · rw [Scope.outer_relabel]
        cases c.outer with
        | none => rfl
        | some o => exact ih o

/-- **A name is found where it was.** -/
theorem resolve_relabel (x : String) : (s.relabel r).resolve i (r x) = s.resolve i x :=
  resolveWithin_relabel hr s i x (i + 1)

/-- The new name stands for the old value, with other names in it. -/
theorem get?_relabel (x : String) :
    (s.relabel r).get? i (r x) = (s.get? i x).map (Value.relabel r) := by
  rw [get?, get?, resolve_relabel hr]
  cases s.resolve i x with
  | none => rfl
  | some home =>
    simp only [Option.bind_eq_bind, Option.bind_some, scopes_relabel]
    cases s.scopes[home]? with
    | none => rfl
    | some c => exact c.get?_recast (c := .relabel r) x hr

end Store

end Scriptlet
