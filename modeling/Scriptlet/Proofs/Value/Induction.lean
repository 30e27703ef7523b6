import Scriptlet.Proofs.Value.Shape

/-!
# Proofs/Value/Induction — induction over values

The elements of an array, and the two values of each entry of a hash, are the only parts of a value
that are values again.
-/

namespace Scriptlet.Value

variable {P : Value → Prop}

/-- A value has the property if its parts have theirs. -/
structure Inductive (P : Value → Prop) : Prop where
  plain : ∀ v, v.isPlain → P v
  error : ∀ message, P (.error message)
  array : ∀ i es, (∀ e ∈ es, P e) → P (.array i es)
  hash : ∀ i (ps : List HashEntry), (∀ p ∈ ps, p.2.All P) → P (.hash i ps)
  function : ∀ i params body scope, P (.function i params body scope)

namespace Inductive

mutual

/-- **All values have an inductive property.** -/
theorem value (h : Inductive P) : ∀ v, P v
  | .integer _ => h.plain _ rfl
  | .boolean _ => h.plain _ rfl
  | .string _ => h.plain _ rfl
  | .null => h.plain _ rfl
  | .array i es => h.array i es (h.elements es)
  | .hash i ps => h.hash i ps (h.entries ps)
  | .function i params body scope => h.function i params body scope
  | .builtin _ => h.plain _ rfl
  | .error message => h.error message

theorem elements (h : Inductive P) : ∀ es : List Value, ∀ e ∈ es, P e
  | [] => nofun
  | e :: es => List.forall_mem_cons.mpr ⟨h.value e, h.elements es⟩

theorem entries (h : Inductive P) : ∀ ps : List HashEntry, ∀ p ∈ ps, p.2.All P
  | [] => nofun
  | (_, ⟨k, v⟩) :: ps => List.forall_mem_cons.mpr ⟨⟨h.value k, h.value v⟩, h.entries ps⟩

end

end Inductive

/-- **Induction over values.** -/
@[elab_as_elim]
theorem induct (v : Value) (plain : ∀ v : Value, v.isPlain → P v)
    (error : ∀ message, P (.error message))
    (array : ∀ i es, (∀ e ∈ es, P e) → P (.array i es))
    (hash : ∀ i (ps : List HashEntry), (∀ p ∈ ps, p.2.All P) → P (.hash i ps))
    (function : ∀ i params body scope, P (.function i params body scope)) : P v :=
  Inductive.value ⟨plain, error, array, hash, function⟩ v

end Scriptlet.Value
