import Scriptlet.Proofs.Text.Quoted
import Scriptlet.Proofs.Value.Entries
import Scriptlet.Proofs.Value.Text

/-!
# Proofs/Value/Data — values that can be written down

*Data* is what literals stand for: integers, booleans, strings, and arrays and hashes of data, where
a hash is well keyed.  The smallest integer is left out, as its digits are no
integer; so are strings with a character whose escape is not read back.

Two values are *equal as data* if they are put together in the same way from the same integers,
booleans and strings, identities aside; hashes are compared as the finite maps they are, whatever
the order of their entries.  -/

namespace Scriptlet

/-! ## Data

Data can be written down as a literal, since there are no functions, built-ins or errors in it. -/

mutual

/-- The value is data, and written so that it can be read back. -/
def Value.isData : Value → Bool
  | .integer n => n ≠ Int64.minValue
  | .boolean _ => true
  | .string s => s.toList.all fun c => Text.IsPlain c
  | .array _ es => dataElements es
  | .hash _ ps => (ps.map Prod.fst).Nodup && dataEntries ps
  | _ => false

/-- All elements are data. -/
def dataElements : List Value → Bool
  | [] => true
  | e :: es => e.isData && dataElements es

/-- All entries keep data, under the keys of their key objects. -/
def dataEntries : List (HashKey × HashPair Value) → Bool
  | [] => true
  | (key, ⟨k, v⟩) :: ps => k.hashKey? = some key && k.isData && v.isData && dataEntries ps

end

theorem dataElements_iff {es : List Value} : dataElements es ↔ ∀ e ∈ es, e.isData := by
  induction es with
  | nil => simp [dataElements]
  | cons e es ih => rw [dataElements, Bool.and_eq_true, ih, List.forall_mem_cons]

theorem dataEntries_iff {ps : List HashEntry} : dataEntries ps ↔
    ∀ p ∈ ps, p.2.key.hashKey? = some p.1 ∧ p.2.All fun v => v.isData := by
  induction ps with
  | nil => simp [dataEntries]
  | cons p ps ih =>
    rw [dataEntries, Bool.and_eq_true, Bool.and_eq_true, Bool.and_eq_true, ih,
      List.forall_mem_cons, decide_eq_true_eq]
    constructor
    · exact fun ⟨⟨⟨hnamed, hkey⟩, hvalue⟩, hps⟩ => ⟨⟨hnamed, hkey, hvalue⟩, hps⟩
    · exact fun ⟨⟨hnamed, hkey, hvalue⟩, hps⟩ => ⟨⟨⟨hnamed, hkey⟩, hvalue⟩, hps⟩

namespace Value

theorem isData_array {i : Identity} {es : List Value} :
    (array i es).isData ↔ ∀ e ∈ es, e.isData :=
  dataElements_iff

/-- A hash is data if its entries are well keyed, and keep data. -/
theorem isData_hash {i : Identity} {ps : List HashEntry} :
    (hash i ps).isData ↔ WellKeyed ps ∧ ∀ p ∈ ps, p.2.All fun v => v.isData := by
  rw [isData, Bool.and_eq_true, dataEntries_iff, decide_eq_true_eq]
  constructor
  · exact fun h => ⟨⟨h.1, fun p hp => (h.2 p hp).1⟩, fun p hp => (h.2 p hp).2⟩
  · exact fun h => ⟨h.1.nodup, fun p hp => ⟨h.1.named p hp, h.2 p hp⟩⟩

/-! ## Equality

Two pieces of data are equal if they are put together alike, whatever their identities, and a hash
if it has equal values at the same keys. -/

/-- The values are **equal as data**. -/
inductive Equal : Value → Value → Prop
  | integer (n : Int64) : Equal (.integer n) (.integer n)
  | boolean (b : Bool) : Equal (.boolean b) (.boolean b)
  | string (s : String) : Equal (.string s) (.string s)
  | array {i j : Identity} {es fs : List Value} :
    List.Forall₂ Equal es fs → Equal (.array i es) (.array j fs)
  | hash {i j : Identity} {ps qs : List HashEntry} :
    (∀ key, Option.Rel (HashPair.Rel Equal) (ps.lookup key) (qs.lookup key)) →
      Equal (.hash i ps) (.hash j qs)

/-- What equals a key is the key itself. -/
theorem Equal.of_hashKey? {k : HashKey} {u v : Value} (h : Equal u v)
    (hu : u.hashKey? = some k) : v = u := by
  cases h with
  | integer | boolean | string => rfl
  | array | hash => cases hu

end Value

/-! ## Entries in order

The literal of a hash has its entries in the order of their texts; the order makes no difference to
the hash. -/

/-- The entries of a hash in the order in which they are shown. -/
def shownEntries (ps : List HashEntry) : List HashEntry :=
  ps.mergeSort fun p q => inspectEntry p ≤ inspectEntry q

/-- The entries that are shown are those that are there. -/
theorem shownEntries_perm (ps : List HashEntry) : (shownEntries ps).Perm ps :=
  List.mergeSort_perm ps _

/-- The text of a hash shows its entries in that order. -/
theorem Value.inspect_hash_shown (i : Identity) (ps : List HashEntry) :
    (hash i ps).inspect =
      "\x7b" ++ separated ", " ((shownEntries ps).map inspectEntry) ++ "\x7d" := by
  rw [inspect_hash, inspectEntries_eq, shownEntries, List.map_mergeSort]
  exact fun _ _ _ _ => rfl

end Scriptlet
