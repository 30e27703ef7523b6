import Scriptlet.Proofs.Value.Induction
import Scriptlet.Proofs.Value.Recast
import Scriptlet.Value.Printer

/-!
# Proofs/Value/Text — what the text of a value shows

The text of an array or a hash is put together from the texts of its parts.  A function shows its
parameters and its body, but not the scope it was made in.
-/

namespace Scriptlet

/-- The texts of the elements, in order. -/
theorem inspectElements_eq (es : List Value) : inspectElements es = es.map Value.inspect := by
  induction es with
  | nil => rfl
  | cons e es ih => rw [inspectElements, ih, List.map_cons]

/-- The text of what a hash keeps under a key: the key object and the value, with a colon between.
-/
def inspectPair (p : HashPair Value) : String := p.key.inspect ++ ": " ++ p.value.inspect

/-- The text of one entry of a hash. -/
def inspectEntry (p : HashEntry) : String := inspectPair p.2

/-- The texts of the entries, in the order in which they stand. -/
theorem inspectEntries_eq (ps : List HashEntry) :
    inspectEntries ps = ps.map inspectEntry := by
  induction ps with
  | nil => rfl
  | cons p ps ih => rw [inspectEntries, ih, List.map_cons, inspectEntry, inspectPair]

namespace Value

/-- An integer is shown by its digits, with a sign if it is negative. -/
theorem inspect_integer (n : Int64) : (integer n).inspect = toString n.toInt := rfl

/-- An array is shown by its elements between brackets. -/
theorem inspect_array (i : Identity) (es : List Value) :
    (array i es).inspect = "[" ++ separated ", " (inspectElements es) ++ "]" := rfl

/-- A hash is shown by its entries between braces, in the order of their texts. -/
theorem inspect_hash (i : Identity) (ps : List HashEntry) :
    (hash i ps).inspect = "\x7b" ++ separated ", "
      ((inspectEntries ps).mergeSort fun a b => a ≤ b) ++ "\x7d" := rfl

end Value

/-! ## Other scopes -/

/-- Functions in the scopes that `f` gives for theirs. -/
def Recast.rescope (f : ScopeId → ScopeId) : Recast := ⟨id, id, id, f⟩

/-- The value with its functions in the scopes that `f` gives for theirs. -/
def Value.rescope (f : ScopeId → ScopeId) (v : Value) : Value := v.recast (.rescope f)

namespace Value

variable (f : ScopeId → ScopeId)

/-- Functions in an array are moved with it. -/
@[simp]
theorem rescope_array (i : Identity) (es : List Value) :
    (array i es).rescope f = .array i (es.map (rescope f)) :=
  recast_array _ i es

@[simp]
theorem rescope_hash (i : Identity) (ps : List HashEntry) :
    (hash i ps).rescope f = .hash i (ps.map (recastEntry (.rescope f))) :=
  recast_hash _ i ps

/-- A function is moved to the scope that `f` gives. -/
@[simp]
theorem rescope_function (i : Identity) (params : List Param) (body : Block) (scope : ScopeId) :
    (function i params body scope).rescope f = .function i params body (f scope) :=
  rfl

/-- The text inside of something does not show scopes either. -/
theorem inspect_rescope (v : Value) : (v.rescope f).inspect = v.inspect := by
  induction v using induct with
  | plain v hv => rw [rescope, recast_of_isPlain _ hv]
  | error | function => rfl
  | array i es ih =>
    rw [rescope_array, inspect_array, inspect_array, inspectElements_eq, inspectElements_eq,
      List.map_map]
    exact congrArg (fun texts => "[" ++ separated ", " texts ++ "]") (List.map_congr_left ih)
  | hash i ps ih =>
    have hps : (ps.map (recastEntry (.rescope f))).map inspectEntry = ps.map inspectEntry := by
      rw [List.map_map]
      refine List.map_congr_left fun p hp => ?_
      obtain ⟨hkey, hvalue⟩ := ih p hp
      exact congrArg₂ (fun key value => key ++ ": " ++ value) hkey hvalue
    rw [rescope_hash, inspect_hash, inspect_hash, inspectEntries_eq, inspectEntries_eq, hps]

/-- **The text of a value does not show scopes.** -/
theorem render_rescope (v : Value) : (v.rescope f).render = v.render := by
  cases v with
  | string s => rfl
  | _ => exact inspect_rescope f _

end Value

end Scriptlet
