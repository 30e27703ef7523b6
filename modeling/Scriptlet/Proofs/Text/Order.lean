import Mathlib.Data.List.Lex
import Mathlib.Data.String.Basic
import Mathlib.Tactic.SplitIfs

/-!
# Proofs/Text/Order — which of two strings comes first

Strings come one before the other as words in a dictionary, with characters in the order of their
code points.  It does not matter whether characters are compared or the bytes of their encoding in
UTF-8 (`bytes_lt_iff`): the first byte of a character tells how many there are, more for the larger
code points, and all of them are digits of the code point, the most significant one first.  So two
different characters differ at a byte that both of them have (`utf8EncodeChar_append_lt`).
-/

namespace Scriptlet.Text

/-! ## Words in a dictionary

To compare two lists letter by letter is to look for the first place where they differ. -/

/-- As words in a dictionary, the first comes **before** the second: it is a proper beginning of it,
or has the smaller letter at the first place where the two differ. -/
inductive Before {α : Type} (smaller : α → α → Prop) : List α → List α → Prop
  | beginning (a : List α) (x : α) (more : List α) : Before smaller a (a ++ x :: more)
  | differing (common : List α) {x y : α} (a b : List α) :
    smaller x y → Before smaller (common ++ x :: a) (common ++ y :: b)

section

variable {α : Type} {smaller : α → α → Prop} {a b : List α}

theorem Before.cons (h : Before smaller a b) (x : α) : Before smaller (x :: a) (x :: b) := by
  cases h with
  | beginning _ y more => exact .beginning (x :: a) y more
  | differing common a b hxy => exact .differing (x :: common) a b hxy

/-- **The order of a dictionary** is the lexicographic one. -/
theorem before_iff_lex : Before smaller a b ↔ List.Lex smaller a b := by
  constructor
  · intro h
    cases h with
    | beginning _ x more =>
      induction a with
      | nil => exact .nil
      | cons y a ih => exact .cons ih
    | differing common a b hxy =>
      induction common with
      | nil => exact .rel hxy
      | cons z common ih => exact .cons ih
  · intro h
    induction h with
    | nil => exact .beginning [] _ _
    | rel hxy => exact .differing [] _ _ hxy
    | cons _ ih => exact ih.cons _

end

/-- **Strings are in the order of their code points.** -/
theorem lt_iff_before {s t : String} :
    s < t ↔ Before (fun c d : Char => c.toNat < d.toNat) s.toList t.toList :=
  before_iff_lex.symm

/-! ## Bytes

The first byte of a code point tells how many bytes follow, so encodings are compared byte by byte
as code points are compared one by one. -/

/-- The number of bytes behind the first one. -/
def laterCount (n : Nat) : Nat :=
  if n ≤ 0x7f then 0 else if n ≤ 0x7ff then 1 else if n ≤ 0xffff then 2 else 3

/-- The first byte: it tells how many there are, and has the most significant digit. -/
def firstByte (n : Nat) : Nat :=
  if n ≤ 0x7f then n
  else if n ≤ 0x7ff then 0xc0 + n / 64
  else if n ≤ 0xffff then 0xe0 + n / 64 ^ 2
  else 0xf0 + n / 64 ^ 3

/-- The last `k` digits to the base 64, a byte for each. -/
def laterBytes : (k : Nat) → Nat → List UInt8
  | 0, _ => []
  | k + 1, n => UInt8.ofNat (0x80 + n / 64 ^ k % 64) :: laterBytes k n

section

variable {m n : Nat}

theorem firstByte_lt (h : n < 0x110000) : firstByte n < 256 := by
  unfold firstByte
  split_ifs <;> omega

/-- **The first byte decides**, unless the other digits have to. -/
theorem firstByte_cases (h : m < n) : firstByte m < firstByte n ∨
    firstByte m = firstByte n ∧ laterCount m = laterCount n ∧
      m / 64 ^ laterCount m = n / 64 ^ laterCount m := by
  unfold firstByte laterCount
  split_ifs <;> omega

theorem ofNat_lt_ofNat (h : m < n) (hn : n < 256) : UInt8.ofNat m < UInt8.ofNat n := by
  rwa [UInt8.lt_iff_toNat_lt, UInt8.toNat_ofNat_of_lt' (Nat.lt_trans h hn),
    UInt8.toNat_ofNat_of_lt' hn]

/-- **Numbers that agree in all other digits** are told apart by the last ones. -/
theorem laterBytes_append_lt {k : Nat} (h : m < n) (hfirst : m / 64 ^ k = n / 64 ^ k)
    (a b : List UInt8) : laterBytes k m ++ a < laterBytes k n ++ b := by
  induction k with
  | zero => simp at hfirst; omega
  | succ k ih =>
    have hdigit : ∀ l, l / 64 ^ (k + 1) = l / 64 ^ k / 64 := fun l => by
      rw [Nat.pow_succ, Nat.div_div_eq_div_mul]
    rw [hdigit, hdigit] at hfirst
    have hle : m / 64 ^ k ≤ n / 64 ^ k := Nat.div_le_div_right (Nat.le_of_lt h)
    rw [laterBytes, laterBytes, List.cons_append, List.cons_append, List.cons_lt_cons_iff]
    rcases Nat.lt_or_eq_of_le hle with hlt | heq
    · exact .inl (ofNat_lt_ofNat (by omega) (by omega))
    · exact .inr ⟨by rw [heq], ih heq⟩

end

/-- There are as many code points. -/
theorem val_lt (c : Char) : c.val.toNat < 0x110000 := by
  have h := c.valid
  simp only [UInt32.isValidChar, Nat.isValidChar] at h
  omega

/-- **The encoding of a character** is its first byte with the other digits behind. -/
theorem utf8EncodeChar_eq (c : Char) : String.utf8EncodeChar c =
    UInt8.ofNat (firstByte c.val.toNat) :: laterBytes (laterCount c.val.toNat) c.val.toNat := by
  have h := val_lt c
  unfold String.utf8EncodeChar firstByte laterCount
  dsimp only
  split_ifs <;>
    simp (disch := omega) only [laterBytes, Nat.mod_eq_of_lt, Nat.add_comm, Nat.reducePow,
      Nat.div_one]

/-- **Two characters differ at a byte that both have**, so what stands behind them does not
matter. -/
theorem utf8EncodeChar_append_lt {c d : Char} (h : c < d) (a b : List UInt8) :
    String.utf8EncodeChar c ++ a < String.utf8EncodeChar d ++ b := by
  have hlt : c.val.toNat < d.val.toNat := h
  rw [utf8EncodeChar_eq, utf8EncodeChar_eq, List.cons_append, List.cons_append,
    List.cons_lt_cons_iff]
  rcases firstByte_cases hlt with hfirst | ⟨hfirst, hcount, hdigits⟩
  · exact .inl (ofNat_lt_ofNat hfirst (firstByte_lt (val_lt d)))
  · rw [hfirst, ← hcount]
    exact .inr ⟨rfl, laterBytes_append_lt hlt hdigits a b⟩

/-- Encodings are in the order of their texts. -/
theorem flatMap_utf8EncodeChar_lt {cs ds : List Char} (h : cs < ds) :
    cs.flatMap String.utf8EncodeChar < ds.flatMap String.utf8EncodeChar := by
  induction h with
  | nil =>
    rw [List.flatMap_cons, utf8EncodeChar_eq]
    exact List.nil_lt_cons _ _
  | rel hlt =>
    rw [List.flatMap_cons, List.flatMap_cons]
    exact utf8EncodeChar_append_lt hlt _ _
  | cons _ ih =>
    rw [List.flatMap_cons, List.flatMap_cons]
    exact List.append_left_lt ih

/-- The bytes of a string in UTF-8. -/
def bytes (s : String) : List UInt8 := s.toByteArray.data.toList

/-- The bytes of a string are those of its characters. -/
theorem bytes_eq (s : String) : bytes s = s.toList.flatMap String.utf8EncodeChar := by
  rw [bytes, ← String.utf8Encode_toList, List.utf8Encode, List.toList_data_toByteArray]

/-- **Bytes are in the order of the strings.** -/
theorem bytes_lt_iff {s t : String} : bytes s < bytes t ↔ s < t := by
  have hforward : ∀ {s t : String}, s < t → bytes s < bytes t := fun h => by
    rw [bytes_eq, bytes_eq]
    exact flatMap_utf8EncodeChar_lt h
  refine ⟨fun h => ?_, hforward⟩
  rcases lt_trichotomy s t with hlt | rfl | hgt
  · exact hlt
  · exact absurd h (List.lt_irrefl _)
  · exact absurd (hforward hgt) (List.lt_asymm h)

/-- **Strings are in the order of their bytes.** -/
theorem lt_iff_bytes_before {s t : String} :
    s < t ↔ Before (fun a b : UInt8 => a.toNat < b.toNat) (bytes s) (bytes t) :=
  bytes_lt_iff.symm.trans before_iff_lex.symm

end Scriptlet.Text
