import Mathlib.Algebra.Group.Nat.Defs
import Mathlib.Data.List.OfFn
import Scriptlet.Value.Builtin
import Scriptlet.Value.Operators

/-!
# Proofs/Value/Sequence — arrays as finite sequences

A finite sequence has a length and an entry at each place below it.  Every array shows one
(`existsUnique_shows`), and this one is what all that looks into arrays agrees on (`Value.ActsAs`):
the index reads its entries, `len` its length, and `push`, `pop` and `rest` make arrays that show it
with one entry more or less.  The entries are the very values, with their identities.

Calls of `push`, `pop` and `rest` one after another therefore do what the same operations do to the
sequence, and fail where one of these is not defined (`ArrayOp.callAll_of_some`,
`ArrayOp.callAll_of_none`).  Calls in a program are the matter of `Eval/Sequences`.
-/

namespace Scriptlet

/-! ## Finite sequences

A sequence is a length and an entry for each place, with no list behind it; its operations are told
by places. -/

/-- **A finite sequence**: a length, and an entry at each place below it. -/
structure FiniteSequence (α : Type) where
  length : Nat
  entry : Fin length → α

namespace FiniteSequence

variable {α : Type} {s t : FiniteSequence α} {x : α}

/-- One entry more, at the end. -/
def push (s : FiniteSequence α) (x : α) : FiniteSequence α := ⟨s.length + 1, Fin.snoc s.entry x⟩

/-- All entries but the last one. -/
def pop? : FiniteSequence α → Option (FiniteSequence α)
  | ⟨0, _⟩ => none
  | ⟨n + 1, f⟩ => some ⟨n, Fin.init f⟩

/-- All entries but the first one. -/
def rest? : FiniteSequence α → Option (FiniteSequence α)
  | ⟨0, _⟩ => none
  | ⟨n + 1, f⟩ => some ⟨n, Fin.tail f⟩

/-- The entries in order. -/
def toList (s : FiniteSequence α) : List α := List.ofFn s.entry

/-- A list as a sequence. -/
def ofList (l : List α) : FiniteSequence α := ⟨l.length, l.get⟩

/-- The entries of such a sequence are the members of the list. -/
theorem toList_ofList (l : List α) : (ofList l).toList = l := List.ofFn_get l

/-- There are as many entries as the sequence is long. -/
@[simp] theorem length_toList (s : FiniteSequence α) : s.toList.length = s.length :=
  List.length_ofFn

/-- A sequence is known from its entries in order. -/
theorem toList_injective (h : s.toList = t.toList) : s = t := by
  have hsigma : (⟨s.length, s.entry⟩ : Σ n, Fin n → α) = ⟨t.length, t.entry⟩ := List.ofFn_inj'.mp h
  exact congrArg (fun p : Σ n, Fin n → α => mk p.1 p.2) hsigma

theorem toList_eq_nil_iff : s.toList = [] ↔ s.length = 0 := by
  rw [← List.length_eq_zero_iff, length_toList]

/-- At a place there is an entry, if the place is below the length. -/
theorem getElem?_toList {k : Nat} :
    s.toList[k]? = some x ↔ ∃ j : Fin s.length, j = k ∧ s.entry j = x := by
  rw [toList, List.getElem?_ofFn]
  constructor
  · intro h
    split at h
    · rename_i hk
      exact ⟨⟨k, hk⟩, rfl, Option.some.inj h⟩
    · cases h
  · rintro ⟨j, rfl, rfl⟩
    exact dif_pos j.isLt

/-! ### The operations, on lists -/

theorem toList_push (s : FiniteSequence α) (x : α) : (s.push x).toList = s.toList ++ [x] := by
  simp only [toList, push, List.ofFn_succ', List.concat_eq_append, Fin.snoc_castSucc, Fin.snoc_last]

/-- Nothing can be taken from the end of an empty sequence. -/
theorem pop?_eq_none_iff : s.pop? = none ↔ s.length = 0 := by
  obtain ⟨_ | n, f⟩ := s
  · exact ⟨fun _ => rfl, fun _ => rfl⟩
  · exact ⟨nofun, nofun⟩

theorem rest?_eq_none_iff : s.rest? = none ↔ s.length = 0 := by
  obtain ⟨_ | n, f⟩ := s
  · exact ⟨fun _ => rfl, fun _ => rfl⟩
  · exact ⟨nofun, nofun⟩

/-- The entries but the last. -/
theorem toList_pop? (h : s.pop? = some t) : s.toList ≠ [] ∧ t.toList = s.toList.dropLast := by
  obtain ⟨_ | n, f⟩ := s
  · cases h
  · obtain rfl := Option.some.inj h
    have hlast : toList ⟨n + 1, f⟩ = toList ⟨n, Fin.init f⟩ ++ [f (Fin.last n)] :=
      (List.ofFn_succ' f).trans (List.concat_eq_append ..)
    rw [hlast, List.dropLast_concat]
    exact ⟨List.append_ne_nil_of_right_ne_nil _ (List.cons_ne_nil _ _), rfl⟩

/-- The entries but the first. -/
theorem toList_rest? (h : s.rest? = some t) : s.toList ≠ [] ∧ t.toList = s.toList.tail := by
  obtain ⟨_ | n, f⟩ := s
  · cases h
  · obtain rfl := Option.some.inj h
    have hfirst : toList ⟨n + 1, f⟩ = f 0 :: toList ⟨n, Fin.tail f⟩ := List.ofFn_succ
    rw [hfirst]
    exact ⟨List.cons_ne_nil _ _, rfl⟩

end FiniteSequence

/-! ## What an array shows

An array shows the sequence of its elements, whatever its identity. -/

namespace Value

variable {v w : Value} {s t : FiniteSequence Value} {id : Identity}

/-- The value is an array of the entries of the sequence. -/
def Shows (v : Value) (s : FiniteSequence Value) : Prop := ∃ id, v = .array id s.toList

/-- An array shows the sequence of its elements and no other. -/
theorem shows_array_iff {es : List Value} : (array id es).Shows s ↔ s = .ofList es := by
  constructor
  · rintro ⟨_, heq⟩
    injection heq with _ hes
    exact FiniteSequence.toList_injective (hes.symm.trans (FiniteSequence.toList_ofList es).symm)
  · rintro rfl
    exact ⟨id, by rw [FiniteSequence.toList_ofList]⟩

/-- **Every array shows one sequence.** -/
theorem existsUnique_shows (hv : v.kind = .array) : ∃! s, v.Shows s := by
  cases v with
  | array id es => exact ⟨.ofList es, shows_array_iff.mpr rfl, fun _ => shows_array_iff.mp⟩
  | _ => cases hv

/-- All that looks into arrays **agrees on one sequence**. -/
structure ActsAs (v : Value) (s : FiniteSequence Value) : Prop where
  len : ∀ id, Builtin.len.call id [v] = .ok (.integer (Int64.ofNat s.length))
  /-- An index is good if it is a place of the sequence, and else it is negative or out of bounds.
  -/
  index_ok_iff : ∀ (i : Int64) w,
    v.index (.integer i) = .ok w ↔ ∃ k : Fin s.length, (k : Int) = i.toInt ∧ s.entry k = w
  index_negative_iff : ∀ i : Int64,
    v.index (.integer i) = .error (.negativeIndex i) ↔ i.toInt < 0
  index_outOfBounds_iff : ∀ i : Int64,
    v.index (.integer i) = .error (.indexOutOfBounds i) ↔ s.length ≤ i.toInt
  push : ∀ id x, ∃ w, Builtin.push.call id [v, x] = .ok w ∧ w.Shows (s.push x)
  pop : ∀ id t, s.pop? = some t → ∃ w, Builtin.pop.call id [v] = .ok w ∧ w.Shows t
  rest : ∀ id t, s.rest? = some t → ∃ w, Builtin.rest.call id [v] = .ok w ∧ w.Shows t
  first_eq_index : ∀ id, s.length ≠ 0 → Builtin.first.call id [v] = v.index (.integer 0)
  last : ∀ id (k : Fin s.length), k + 1 = s.length → Builtin.last.call id [v] = .ok (s.entry k)
  /-- Of more than `2 ^ 63` elements the last one would be at a place that is no integer. -/
  last_eq_index : ∀ id, s.length ≠ 0 → s.length ≤ 2 ^ 63 →
    Builtin.last.call id [v] = v.index (.integer (Int64.ofNat s.length - 1))
  emptyArray_iff : ∀ b ∈ [Builtin.first, .last, .rest, .pop], ∀ id,
    b.call id [v] = .error .emptyArray ↔ s.length = 0

/-! ### Indexes -/

/-- Indexing an array, as its definition has it: the sign comes first, then the place. -/
theorem index_array (id : Identity) (es : List Value) (i : Int64) :
    (array id es).index (.integer i) = if i.toInt < 0 then .error (.negativeIndex i) else
      match es[i.toInt.toNat]? with
      | some v => .ok v
      | none => .error (.indexOutOfBounds i) := by
  have hlt : i < 0 ↔ i.toInt < 0 := Int64.lt_iff_toInt_lt
  exact if_congr hlt rfl rfl

/-- Below the start of an array there is nothing. -/
theorem index_of_negative (h : v.Shows s) {i : Int64} (hi : i.toInt < 0) :
    v.index (.integer i) = .error (.negativeIndex i) := by
  obtain ⟨id, rfl⟩ := h
  rw [index_array, if_pos hi]

theorem index_of_le (h : v.Shows s) {i : Int64} (hi : s.length ≤ i.toInt) :
    v.index (.integer i) = .error (.indexOutOfBounds i) := by
  obtain ⟨id, rfl⟩ := h
  have hnone : s.toList[i.toInt.toNat]? = none := by
    rw [List.getElem?_eq_none_iff, FiniteSequence.length_toList]
    omega
  rw [index_array, if_neg (by omega), hnone]

/-- **At each place of the sequence** there is its entry. -/
theorem index_of_place (h : v.Shows s) {i : Int64} (k : Fin s.length) (hi : (k : Int) = i.toInt) :
    v.index (.integer i) = .ok (s.entry k) := by
  obtain ⟨id, rfl⟩ := h
  have hsome : s.toList[i.toInt.toNat]? = some (s.entry k) :=
    FiniteSequence.getElem?_toList.mpr ⟨k, by omega, rfl⟩
  rw [index_array, if_neg (by omega), hsome]

/-- An integer is below the start, at a place or behind the end. -/
theorem place_cases (s : FiniteSequence Value) (i : Int64) :
    i.toInt < 0 ∨ (∃ k : Fin s.length, (k : Int) = i.toInt) ∨ s.length ≤ i.toInt := by
  by_cases hnegative : i.toInt < 0
  · exact .inl hnegative
  · by_cases hplace : i.toInt < s.length
    · exact .inr (.inl ⟨⟨i.toInt.toNat, by omega⟩, by simp only; omega⟩)
    · exact .inr (.inr (Int.not_lt.mp hplace))

end Value

/-! ### Built-ins

Each one is told by the entries of what it gives, and where it fails by the length. -/

namespace Builtin

variable {fresh : Identity} {es fs : List Value} {o : Option Value}

/-- An element is missing just if there is none. -/
theorem element_eq_emptyArray_iff : element o = .error .emptyArray ↔ o = none := by
  cases o with
  | none => exact ⟨fun _ => rfl, fun _ => rfl⟩
  | some v => exact ⟨nofun, nofun⟩

/-- Nothing can be taken away just if there is nothing. -/
theorem shortened_eq_emptyArray_iff : shortened fresh es fs = .error .emptyArray ↔ es = [] := by
  cases es with
  | nil => exact ⟨fun _ => rfl, fun _ => rfl⟩
  | cons e es => exact ⟨nofun, nofun⟩

theorem shortened_of_ne_nil (h : es ≠ []) : shortened fresh es fs = .ok (.array fresh fs) :=
  if_neg (mt List.isEmpty_iff.mp h)

end Builtin

namespace Value

variable {v w : Value} {s t : FiniteSequence Value}

/-- `first` hands out the entry at place 0. -/
theorem first_of_place (h : v.Shows s) (id : Identity) (k : Fin s.length) (hk : (k : Nat) = 0) :
    Builtin.first.call id [v] = .ok (s.entry k) := by
  obtain ⟨i, rfl⟩ := h
  have hfirst : s.toList.head? = some (s.entry k) := by
    rw [List.head?_eq_getElem?]
    exact FiniteSequence.getElem?_toList.mpr ⟨k, hk, rfl⟩
  show Builtin.element s.toList.head? = _
  rw [hfirst]
  rfl

/-- `last` hands out the entry at the last place. -/
theorem last_of_place (h : v.Shows s) (id : Identity) (k : Fin s.length)
    (hk : (k : Nat) + 1 = s.length) : Builtin.last.call id [v] = .ok (s.entry k) := by
  obtain ⟨i, rfl⟩ := h
  have hlast : s.toList.getLast? = some (s.entry k) := by
    rw [List.getLast?_eq_getElem?, FiniteSequence.length_toList]
    exact FiniteSequence.getElem?_toList.mpr ⟨k, by omega, rfl⟩
  show Builtin.element s.toList.getLast? = _
  rw [hlast]
  rfl

/-- **Elements cannot be taken out of an empty array**, nor away, and out of no other it fails
so. -/
theorem emptyArray_iff (h : v.Shows s) {b : Builtin}
    (hb : b ∈ [Builtin.first, .last, .rest, .pop]) (id : Identity) :
    b.call id [v] = .error .emptyArray ↔ s.length = 0 := by
  obtain ⟨i, rfl⟩ := h
  rw [← FiniteSequence.toList_eq_nil_iff]
  simp only [List.mem_cons, List.not_mem_nil, or_false] at hb
  rcases hb with rfl | rfl | rfl | rfl
  · exact Builtin.element_eq_emptyArray_iff.trans List.head?_eq_none_iff
  · exact Builtin.element_eq_emptyArray_iff.trans List.getLast?_eq_none_iff
  · exact Builtin.shortened_eq_emptyArray_iff
  · exact Builtin.shortened_eq_emptyArray_iff

/-- The length less one, in 64 bits. -/
theorem toInt_length_sub_one {n : Nat} (hpos : n ≠ 0) (hle : n ≤ 2 ^ 63) :
    (Int64.ofNat n - 1).toInt = n - 1 := by
  obtain ⟨n, rfl⟩ := Nat.exists_eq_add_one_of_ne_zero hpos
  have hsub : Int64.ofNat (n + 1) - 1 = Int64.ofNat n := by
    rw [Int64.ofNat_add]
    exact Int64.add_sub_cancel _ _
  rw [hsub, Int64.toInt_ofNat_of_lt hle]
  omega

end Value

/-! ## Rows of calls

The calls are applied one after another, and each makes a new array; so what is shown in the end is
what the operations make of the sequence in the beginning. -/

/-- What makes an array of an array. -/
inductive ArrayOp (α : Type) where
  | push (x : α)
  | pop
  | rest

namespace ArrayOp

variable {α β : Type}

/-- The operation on other entries. -/
def map (f : α → β) : ArrayOp α → ArrayOp β
  | push x => push (f x)
  | pop => pop
  | rest => rest

/-- The built-in that is called. -/
def builtin : ArrayOp α → Builtin
  | push _ => .push
  | pop => .pop
  | rest => .rest

/-- The arguments behind the array. -/
def added : ArrayOp α → List α
  | push x => [x]
  | _ => []

/-- What the operation does to a sequence, unless that is too short. -/
def onSequence? : ArrayOp α → FiniteSequence α → Option (FiniteSequence α)
  | push x, s => some (s.push x)
  | pop, s => s.pop?
  | rest, s => s.rest?

@[simp] theorem builtin_map (f : α → β) (op : ArrayOp α) : (op.map f).builtin = op.builtin := by
  cases op <;> rfl

@[simp] theorem added_map (f : α → β) (op : ArrayOp α) : (op.map f).added = op.added.map f := by
  cases op <;> rfl

/-- Only what is added counts. -/
theorem map_congr {f g : α → β} {op : ArrayOp α} (h : ∀ x ∈ op.added, f x = g x) :
    op.map f = op.map g := by
  cases op with
  | push x => exact congrArg push (h x List.mem_cons_self)
  | pop => rfl
  | rest => rfl

variable (op : ArrayOp Value) {v : Value} {s t : FiniteSequence Value}

/-- **A call does to an array what the operation does to the sequence.** -/
theorem call_of_some (h : v.Shows s) (hop : op.onSequence? s = some t) (id : Identity) :
    op.builtin.call id (v :: op.added) = .ok (.array id t.toList) := by
  obtain ⟨i, rfl⟩ := h
  cases op with
  | push x =>
    obtain rfl := Option.some.inj hop
    rw [s.toList_push]
    rfl
  | pop =>
    obtain ⟨hne, ht⟩ := FiniteSequence.toList_pop? hop
    rw [ht]
    exact Builtin.shortened_of_ne_nil hne
  | rest =>
    obtain ⟨hne, ht⟩ := FiniteSequence.toList_rest? hop
    rw [ht]
    exact Builtin.shortened_of_ne_nil hne

/-- **Where the sequence is too short, the call fails.** -/
theorem call_of_none (h : v.Shows s) (hop : op.onSequence? s = none) (id : Identity) :
    op.builtin.call id (v :: op.added) = .error .emptyArray := by
  cases op with
  | push x => cases hop
  | pop =>
    exact (Value.emptyArray_iff h (by decide) id).mpr (FiniteSequence.pop?_eq_none_iff.mp hop)
  | rest =>
    exact (Value.emptyArray_iff h (by decide) id).mpr (FiniteSequence.rest?_eq_none_iff.mp hop)

end ArrayOp

/-- What operations do to a sequence, one after another. -/
def FiniteSequence.after? {α : Type} (s : FiniteSequence α) (ops : List (ArrayOp α)) :
    Option (FiniteSequence α) :=
  ops.foldlM (fun s op => op.onSequence? s) s

/-- Calls on an array, each on what the one before gave, and under an identity of its own. -/
def ArrayOp.callAll (v : Value) (calls : List (Identity × ArrayOp Value)) :
    Except RuntimeError Value :=
  calls.foldlM (fun v call => call.2.builtin.call call.1 (v :: call.2.added)) v

namespace ArrayOp

variable {v : Value} {s t : FiniteSequence Value} {calls : List (Identity × ArrayOp Value)}

/-- **Calls do to an array what the operations do to the sequence.** -/
theorem callAll_of_some (h : v.Shows s) (ht : s.after? (calls.map Prod.snd) = some t) :
    ∃ w, callAll v calls = .ok w ∧ w.Shows t := by
  induction calls generalizing v s with
  | nil =>
    obtain rfl := Option.some.inj ht
    exact ⟨v, rfl, h⟩
  | cons call calls ih =>
    obtain ⟨s', hs', ht⟩ := Option.bind_eq_some_iff.mp ht
    obtain ⟨w, hw, hshows⟩ := ih ⟨call.1, rfl⟩ ht
    refine ⟨w, ?_, hshows⟩
    rw [callAll, List.foldlM_cons, call_of_some _ h hs']
    exact hw

/-- **Where one of the operations is not defined, the calls fail.** -/
theorem callAll_of_none (h : v.Shows s) (ht : s.after? (calls.map Prod.snd) = none) :
    callAll v calls = .error .emptyArray := by
  induction calls generalizing v s with
  | nil => cases ht
  | cons call calls ih =>
    rw [callAll, List.foldlM_cons]
    cases hs' : call.2.onSequence? s with
    | none =>
      rw [call_of_none _ h hs']
      rfl
    | some s' =>
      rw [call_of_some _ h hs']
      exact ih ⟨_, rfl⟩ (Option.bind_eq_none_iff.mp ht s' hs')

/-- An array of one element has no more than that one to take away. -/
example : callAll (.array 0 [.integer 1])
    [(1, .rest), (2, .push (.integer 2)), (3, .pop), (4, .pop)] = .error .emptyArray := rfl

end ArrayOp

/-- **An array acts as the sequence that it shows.** -/
theorem Value.Shows.actsAs {v : Value} {s : FiniteSequence Value} (h : v.Shows s) : v.ActsAs s where
  len id := by
    obtain ⟨i, rfl⟩ := h
    rw [← s.length_toList]
    rfl
  -- An index is negative, a place of the sequence, or behind its end, and each of the three has one
  -- answer of its own; so the answer tells which of them it is.
  index_ok_iff i w := by
    refine ⟨fun hw => ?_, fun ⟨k, hk, hw⟩ => hw ▸ index_of_place h k hk⟩
    rcases place_cases s i with hi | ⟨k, hk⟩ | hi
    · cases (index_of_negative h hi).symm.trans hw
    · cases (index_of_place h k hk).symm.trans hw
      exact ⟨k, hk, rfl⟩
    · cases (index_of_le h hi).symm.trans hw
  index_negative_iff i := by
    refine ⟨fun hfails => ?_, index_of_negative h⟩
    rcases place_cases s i with hi | ⟨k, hk⟩ | hi
    · exact hi
    · cases (index_of_place h k hk).symm.trans hfails
    · cases (index_of_le h hi).symm.trans hfails
  index_outOfBounds_iff i := by
    refine ⟨fun hfails => ?_, index_of_le h⟩
    rcases place_cases s i with hi | ⟨k, hk⟩ | hi
    · cases (index_of_negative h hi).symm.trans hfails
    · cases (index_of_place h k hk).symm.trans hfails
    · exact hi
  push id x := ⟨_, (ArrayOp.push x).call_of_some h rfl id, id, rfl⟩
  pop id t ht := ⟨_, ArrayOp.pop.call_of_some h ht id, id, rfl⟩
  rest id t ht := ⟨_, ArrayOp.rest.call_of_some h ht id, id, rfl⟩
  first_eq_index id hne := by
    have hpos : 0 < s.length := Nat.pos_of_ne_zero hne
    rw [first_of_place h id ⟨0, hpos⟩ rfl, index_of_place h ⟨0, hpos⟩ rfl]
  last id k hk := last_of_place h id k hk
  last_eq_index id hne hle := by
    have hlt : s.length - 1 < s.length := Nat.sub_one_lt hne
    have hplace : ((⟨s.length - 1, hlt⟩ : Fin s.length) : Int) =
        (Int64.ofNat s.length - 1).toInt := by
      rw [toInt_length_sub_one hne hle]
      exact Int.ofNat_sub (Nat.pos_of_ne_zero hne)
    rw [last_of_place h id ⟨s.length - 1, hlt⟩ (Nat.sub_one_add_one hne),
      index_of_place h _ hplace]
  emptyArray_iff b hb id := emptyArray_iff h hb id

/-! ## Strings

The length of a string is counted in characters, as the text has them, so it adds up when strings
are joined. -/

/-- **The length of a string counts characters.** -/
theorem Builtin.len_string (s : String) (id : Identity) :
    Builtin.len.call id [.string s] = .ok (.integer (Int64.ofNat s.toList.length)) := by
  rw [String.length_toList]
  rfl

/-- **Joined strings have the lengths of their parts together.** -/
theorem Builtin.len_append (s t : String) (id : Identity) : Builtin.len.call id [.string (s ++ t)] =
    .ok (.integer (Int64.ofNat s.toList.length + Int64.ofNat t.toList.length)) := by
  rw [len_string, String.toList_append, List.length_append, Int64.ofNat_add]

end Scriptlet
