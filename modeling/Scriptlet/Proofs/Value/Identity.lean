import Scriptlet.Proofs.Value.Alike
import Scriptlet.Proofs.Value.Keys
import Scriptlet.Value.Printer

/-!
# Proofs/Value/Identity — which values are the same

`Value.same` compares what a value is *told apart by*: the value itself, or the identity it carries,
or that it is an empty array.  So it is an equivalence, where it holds at all (`same_iff`).

Of arrays, hashes and functions it sees the identity and nothing else, and so it says little about
two such values alone.  It says much about values that came to be in one history: there an identity
is given to one value only.  A `Register` is the record of what was given to which, and among the
values that are **registered** two are the same only if they are equal, or two empty arrays
(`Registered.eq_of_same`).  A value under an identity that has not been given out is not the same as
any of them (`newTo_of_registered`).
-/

namespace Scriptlet

/-! ## What values are told apart by

Integers and strings are compared by what they are.  Of all other values that are not errors,
equality asks for a mark: the identity of an array with elements, of a hash or of a function, and
for the others the value itself. -/

/-- What a value is told apart by. -/
inductive Mark where
  | boolean (b : Bool)
  | null
  | builtin (b : Builtin)
  | emptyArray
  | array (id : Identity)
  | hash (id : Identity)
  | function (id : Identity)

/-- A mark belongs to values of one kind. -/
def Mark.kind : Mark → ValueKind
  | boolean _ => .boolean
  | null => .null
  | builtin _ => .builtin
  | emptyArray | array _ => .array
  | hash _ => .hash
  | function _ => .function

namespace Value

variable {u v w : Value}

/-- Integers, strings and errors have no mark: they are not compared this way. -/
def mark? : Value → Option Mark
  | boolean b => some (.boolean b)
  | null => some .null
  | array _ [] => some .emptyArray
  | array i (_ :: _) => some (.array i)
  | hash i _ => some (.hash i)
  | function i .. => some (.function i)
  | builtin b => some (.builtin b)
  | _ => none

/-- **Two values are the same if they have one mark.** -/
theorem same_iff : u.same v ↔ ∃ t, v.mark? = some t ∧ u.mark? = some t := by
  cases u with
  | array i es =>
    cases v with
    | array j fs => cases es <;> cases fs <;> simp [same, mark?]
    | _ => cases es <;> simp [same, mark?]
  | _ =>
    cases v with
    | array j fs => cases fs <;> simp [same, mark?]
    | _ => simp [same, mark?]

theorem kind_of_mark {t : Mark} (h : v.mark? = some t) : v.kind = t.kind := by
  unfold mark? at h
  split at h <;> cases h <;> rfl

/-- **Sameness is symmetric.** -/
theorem same_comm (u v : Value) : u.same v = v.same u := by
  rw [Bool.eq_iff_iff, same_iff, same_iff]
  exact exists_congr fun _ => and_comm

/-- **Sameness is transitive.** -/
theorem same_trans (huv : u.same v) (hvw : v.same w) : u.same w := by
  obtain ⟨t, hv, hu⟩ := same_iff.mp huv
  obtain ⟨t', hw, hv'⟩ := same_iff.mp hvw
  obtain rfl : t = t' := Option.some.inj (hv.symm.trans hv')
  exact same_iff.mpr ⟨t, hw, hu⟩

/-- **Sameness is reflexive** on all values that are compared by identity. -/
theorem same_self_iff (v : Value) :
    v.same v ↔ v.kind ≠ .integer ∧ v.kind ≠ .string ∧ v.kind ≠ .error := by
  cases v with
  | array i es => cases es <;> simp [same_iff, mark?, kind]
  | _ => simp [same_iff, mark?, kind]

theorem kind_eq_of_same (h : u.same v) : u.kind = v.kind := by
  obtain ⟨t, hv, hu⟩ := same_iff.mp h
  rw [kind_of_mark hu, kind_of_mark hv]

/-! ## Inside a value

Values are inside arrays and hashes at any depth, but not inside functions, which hold a scope. -/

/-- What is held by what is held is held. -/
theorem Holds.trans (huv : Holds u v) (hvw : Holds v w) : Holds u w := by
  induction hvw with
  | self => exact huv
  | element he _ ih => exact .element he ih
  | key hp _ ih => exact .key hp ih
  | entry hp _ ih => exact .entry hp ih

/-- The value is an element of an array, or the key object or the value of an entry of a hash. -/
def PartOf (u : Value) : Value → Prop
  | array _ es => u ∈ es
  | hash _ ps => ∃ p ∈ ps, p.2.key = u ∨ p.2.value = u
  | _ => False

/-- A value holds its parts. -/
theorem PartOf.holds (h : u.PartOf v) : Holds u v := by
  cases v with
  | array i es => exact .element h .self
  | hash i ps =>
    obtain ⟨p, hp, rfl | rfl⟩ := h
    · exact .key hp .self
    · exact .entry hp .self
  | _ => cases h

/-- What a value holds is the value, or held by a part of it. -/
theorem Holds.cases_part (h : Holds u v) : u = v ∨ ∃ w : Value, w.PartOf v ∧ Holds u w := by
  cases h with
  | self => exact .inl rfl
  | element he h => exact .inr ⟨_, he, h⟩
  | key hp h => exact .inr ⟨_, ⟨_, hp, .inl rfl⟩, h⟩
  | entry hp h => exact .inr ⟨_, ⟨_, hp, .inr rfl⟩, h⟩

end Value

/-! ## Registers

A register keeps for each identity that was given out the value that was made with it.  That it is
the only one with that identity is what makes the comparison of identities right. -/

/-- Which value each identity was given to; `next` is the first that was not given out. -/
structure Register where
  next : Identity
  made : Identity → Option Value
  unmade : ∀ i, next ≤ i → made i = none

namespace Register

variable {R : Register} {u v : Value} {i : Identity}

/-- Nothing has been given out. -/
def empty : Register := ⟨0, fun _ => none, fun _ _ => rfl⟩

/-- The next identity is given to the value. -/
def enter (R : Register) (v : Value) : Register where
  next := R.next + 1
  made i := if i = R.next then some v else R.made i
  unmade i hi := by
    have hne : i ≠ R.next := Nat.ne_of_gt hi
    rw [if_neg hne]
    exact R.unmade i (Nat.le_of_succ_le hi)

/-- What was given out before stays as it was. -/
def Extends (R' R : Register) : Prop := ∀ i v, R.made i = some v → R'.made i = some v

/-- What was given out comes before what is given out next. -/
theorem lt_next (h : R.made i = some v) : i < R.next := by
  refine Nat.lt_of_not_le fun hle => ?_
  rw [R.unmade i hle] at h
  cases h

theorem enter_next (R : Register) (v : Value) : (R.enter v).made R.next = some v := if_pos rfl

/-- To enter a value changes nothing that was entered before. -/
theorem enter_extends (R : Register) (v : Value) : (R.enter v).Extends R := by
  intro i u h
  have hne : i ≠ R.next := Nat.ne_of_lt (lt_next h)
  exact (if_neg hne).trans h

end Register

/-- Each identity in the value was given to what carries it there. -/
def Value.Registered (R : Register) (v : Value) : Prop :=
  ∀ u i, Value.Holds u v → u.identity? = some i → R.made i = some u

/-- The value is **new to** those with the property: it is not the same as any of them. -/
def Value.NewTo (P : Value → Prop) (v : Value) : Prop := ∀ u, P u → u.same v = false

namespace Value

variable {R R' : Register} {u v : Value} {i : Identity} {P : Value → Prop}

/-- A value stays registered when more is given out. -/
theorem Registered.extends (h : v.Registered R) (hR : R'.Extends R) : v.Registered R' :=
  fun u i hu hi => hR i u (h u i hu hi)

theorem Registered.held (h : v.Registered R) (hu : Holds u v) : u.Registered R :=
  fun u' i hu' hi => h u' i (hu'.trans hu) hi

/-- A value is registered if it was given its identity, if any, and its parts are. -/
theorem registered_iff : v.Registered R ↔
    (∀ i, v.identity? = some i → R.made i = some v) ∧ ∀ w : Value, w.PartOf v → w.Registered R := by
  constructor
  · exact fun h => ⟨fun i => h v i .self, fun w hw => h.held hw.holds⟩
  · rintro ⟨hv, hparts⟩ u i hu hi
    rcases hu.cases_part with rfl | ⟨w, hw, hu⟩
    · exact hv i hi
    · exact hparts w hw u i hu hi

/-- A value without an identity has no parts either. -/
theorem registered_of_bare (h : v.identity? = none) : v.Registered R := by
  cases v with
  | array | hash | function => cases h
  | _ => exact registered_iff.mpr ⟨nofun, fun _ hw => hw.elim⟩

/-- Plain values carry no identity. -/
theorem identity?_of_isPlain (h : v.isPlain) : v.identity? = none := by
  cases v with
  | array | hash | function => cases h
  | _ => rfl

/-- **A new value is registered** once it is entered, if its parts were. -/
theorem registered_enter (hv : v.identity? = some R.next)
    (hparts : ∀ w : Value, w.PartOf v → w.Registered R) : v.Registered (R.enter v) := by
  refine registered_iff.mpr ⟨fun i hi => ?_, fun w hw => (hparts w hw).extends (R.enter_extends v)⟩
  obtain rfl : R.next = i := Option.some.inj (hv.symm.trans hi)
  exact R.enter_next v

/-- Values with one mark are equal, or empty arrays, or carry one identity. -/
theorem cases_of_mark {t : Mark} (hu : u.mark? = some t) (hv : v.mark? = some t) :
    u = v ∨ (∃ i j, u = array i [] ∧ v = array j []) ∨
      ∃ i, u.identity? = some i ∧ v.identity? = some i := by
  unfold mark? at hu hv
  split at hu <;> cases hu <;> split at hv <;> cases hv
  all_goals
    first
    | exact .inl rfl
    | exact .inr (.inl ⟨_, _, rfl, rfl⟩)
    | exact .inr (.inr ⟨_, rfl, rfl⟩)

/-- **Registered values that are the same are equal**, or two empty arrays. -/
theorem Registered.eq_of_same (hu : u.Registered R) (hv : v.Registered R) (h : u.same v) :
    u = v ∨ ∃ i j, u = array i [] ∧ v = array j [] := by
  obtain ⟨t, hvt, hut⟩ := same_iff.mp h
  rcases cases_of_mark hut hvt with rfl | hempty | ⟨i, hui, hvi⟩
  · exact .inl rfl
  · exact .inr hempty
  · exact .inl (Option.some.inj ((hu u i .self hui).symm.trans (hv v i .self hvi)))

/-- **A value under the next identity is new** to all that are registered, unless it is an empty
array. -/
theorem newTo_of_registered (hP : ∀ u, P u → u.Registered R) (hv : v.identity? = some R.next)
    (hne : ∀ i, v ≠ array i []) : v.NewTo P := by
  intro u hu
  have hnext : u.identity? ≠ some R.next := fun hui =>
    Nat.lt_irrefl R.next (Register.lt_next (hP u hu u R.next .self hui))
  refine Bool.eq_false_iff.mpr fun h => ?_
  obtain ⟨t, hvt, hut⟩ := same_iff.mp h
  rcases cases_of_mark hut hvt with rfl | ⟨_, j, -, rfl⟩ | ⟨i, hui, hvi⟩
  · exact hnext hv
  · exact hne j rfl
  · exact hnext (hui.trans (hvi.symm.trans hv))

end Value

/-! ## Telling values apart

Two registered values with one identity are the value that was entered under it. -/

/-- Among the values with the property, `Value.same` **tells apart** what is different.  -/
structure Value.ToldApart (P : Value → Prop) : Prop where
  symm : ∀ u v, P u → P v → u.same v → v.same u
  trans : ∀ u v w, P u → P v → P w → u.same v → v.same w → u.same w
  refl : ∀ v, P v → (v.same v ↔ v.kind ≠ .integer ∧ v.kind ≠ .string ∧ v.kind ≠ .error)
  kind : ∀ u v, P u → P v → u.same v → u.kind = v.kind
  text : ∀ u v, P u → P v → u.same v → u.render = v.render ∧ u.inspect = v.inspect
  elements : ∀ u v, P u → P v → u.same v → u.elements? = v.elements?
  empty : ∀ i j, P (.array i []) → P (.array j []) → (Value.array i []).same (.array j [])

/-- **Registered values are told apart.** -/
theorem Value.toldApart_of_registered {P : Value → Prop} {R : Register}
    (hP : ∀ v, P v → v.Registered R) : Value.ToldApart P where
  symm u v _ _ h := same_comm v u ▸ h
  trans _ _ _ _ _ _ := same_trans
  refl v _ := same_self_iff v
  kind _ _ _ _ := kind_eq_of_same
  text u v hu hv h := by
    rcases (hP u hu).eq_of_same (hP v hv) h with rfl | ⟨i, j, rfl, rfl⟩
    · exact ⟨rfl, rfl⟩
    · exact ⟨rfl, rfl⟩
  elements u v hu hv h := by
    rcases (hP u hu).eq_of_same (hP v hv) h with rfl | ⟨i, j, rfl, rfl⟩
    · rfl
    · rfl
  empty _ _ _ _ := rfl

/-! ## Taking out and putting in

An element that is taken out of a value is the element that was put in, with its identity. -/

/-- What an index **takes out** of which container, with which key: the element at a place of an
array, the value under a key of a hash, or null for a key that is not there. -/
inductive Value.TakesOut : Value → Value → Value → Prop
  | element {i : Identity} {es : List Value} {n : Int64} {v : Value} :
    0 ≤ n → es[n.toInt.toNat]? = some v → TakesOut (.array i es) (.integer n) v
  | entry {i : Identity} {ps : List HashEntry} {key : Value} {k : HashKey} {p : HashPair Value} :
    key.hashKey? = some k → ps.lookup k = some p → TakesOut (.hash i ps) key p.value
  | missing {i : Identity} {ps : List HashEntry} {key : Value} {k : HashKey} :
    key.hashKey? = some k → ps.lookup k = none → TakesOut (.hash i ps) key .null

/-- **An index takes out what is there.** -/
theorem Value.takesOut_of_index {c key v : Value} (h : c.index key = .ok v) :
    TakesOut c key v := by
  unfold Value.index at h
  split at h
  · split at h
    · cases h
    · rename_i hn
      split at h
      · rename_i hv
        cases h
        exact .element (Int64.not_lt.mp hn) hv
      · cases h
  · rename_i ps
    cases hkey : key.toHashKey with
    | error e =>
      rw [hkey] at h
      cases h
    | ok k =>
      rw [hkey] at h
      obtain rfl : ((ps.lookup k).map HashPair.value).getD .null = v := by
        cases h
        rfl
      have hnamed := Value.toHashKey_eq_ok_iff.mp hkey
      cases hv : ps.lookup k with
      | none => exact .missing hnamed hv
      | some p => exact .entry hnamed hv
  · cases h

/-- What built-ins make of which arguments: elements are handed out as they are, and an array with
one element more or less is made under the identity `fresh`. -/
inductive Builtin.Makes (fresh : Identity) : Builtin → List Value → Value → Prop
  | len {v : Value} (n : Int64) : Makes fresh .len [v] (.integer n)
  | first {i : Identity} {es : List Value} {v : Value} :
    es.head? = some v → Makes fresh .first [.array i es] v
  | last {i : Identity} {es : List Value} {v : Value} :
    es.getLast? = some v → Makes fresh .last [.array i es] v
  | rest {i : Identity} {es : List Value} :
    es ≠ [] → Makes fresh .rest [.array i es] (.array fresh es.tail)
  | pop {i : Identity} {es : List Value} :
    es ≠ [] → Makes fresh .pop [.array i es] (.array fresh es.dropLast)
  | push {i : Identity} {es : List Value} (v : Value) :
    Makes fresh .push [.array i es, v] (.array fresh (es ++ [v]))

/-- An element that is handed out was there. -/
theorem Builtin.element_eq_ok {o : Option Value} {v : Value} (h : element o = .ok v) :
    o = some v := by
  cases o with
  | none => cases h
  | some u => rw [Except.ok.inj h]

/-- An array that is made by taking away is a new one, and was made from one that was not empty. -/
theorem Builtin.shortened_eq_ok {fresh : Identity} {es fs : List Value} {v : Value}
    (h : shortened fresh es fs = .ok v) : es ≠ [] ∧ v = .array fresh fs := by
  unfold shortened at h
  split at h
  · cases h
  · rename_i hes
    exact ⟨fun heq => hes (heq ▸ rfl), (Except.ok.inj h).symm⟩

/-- **What a built-in gives is handed out or made**, by the built-in and the kind of its argument.
-/
theorem Builtin.makes_of_call {fresh : Identity} {b : Builtin} {args : List Value} {v : Value}
    (h : b.call fresh args = .ok v) : b.Makes fresh args v := by
  unfold call at h
  split at h
  · cases h
  · rename_i hlen
    replace hlen : args.length = b.arity := Decidable.not_not.mp hlen
    -- With the right number of arguments the first one is there, and each built-in fails on the
    -- kinds that it does not take.
    cases b with
    | push =>
      obtain ⟨u, w, rfl⟩ := List.length_eq_two.mp hlen
      cases u with
      | array i es =>
        cases h
        exact .push w
      | _ => cases h
    | len =>
      obtain ⟨u, rfl⟩ := List.length_eq_one_iff.mp hlen
      cases u with
      | string | array =>
        cases h
        exact .len _
      | _ => cases h
    | first | last =>
      obtain ⟨u, rfl⟩ := List.length_eq_one_iff.mp hlen
      cases u with
      | array i es =>
        have he := element_eq_ok h
        first
        | exact .first he
        | exact .last he
      | _ => cases h
    | rest | pop =>
      obtain ⟨u, rfl⟩ := List.length_eq_one_iff.mp hlen
      cases u with
      | array i es =>
        obtain ⟨hes, rfl⟩ := shortened_eq_ok h
        first
        | exact .rest hes
        | exact .pop hes
      | _ => cases h

end Scriptlet
