import Scriptlet.Proofs.Text.Order
import Scriptlet.Proofs.Value.Identity
import Scriptlet.Value.Operators

/-!
# Proofs/Value/Comparison — comparing any two values

An operator sees its operands in one of four ways (`operands`): as two integers, as two strings, as
two other values of one kind, or as values of different kinds.  Each lemma here goes by these ways,
and none by the kinds of values.

`==` and `!=` compare all values of one kind, and are symmetric although not always reflexive.  `<`
and `>` compare integers and strings, which they put in a strict linear order.  Between values of
different kinds every operator fails, and says between which kinds; that the kinds differ is no
other operation's error (`coherent`).  -/

namespace Scriptlet

theorem ValueKind.label_inj {k l : ValueKind} : k.label = l.label ↔ k = l := by
  cases k <;> cases l <;> decide

/-! ## Operands

Which operator takes which operands is settled by the kinds of the two, so everything below is shown
kind by kind. -/

/-- How an operator sees its operands. -/
inductive Operands : Value → Value → Prop
  | integers (a b : Int64) : Operands (.integer a) (.integer b)
  | strings (s t : String) : Operands (.string s) (.string t)
  | others {u v : Value} : u.kind = v.kind → u.kind ≠ .integer → u.kind ≠ .string → Operands u v
  | different {u v : Value} : u.kind ≠ v.kind → Operands u v

/-- Any two values are seen in one of the four ways. -/
theorem operands (u v : Value) : Operands u v := by
  by_cases hkind : u.kind = v.kind
  · cases u with
    | integer a =>
      cases v with
      | integer b => exact .integers a b
      | _ => cases hkind
    | string s =>
      cases v with
      | string t => exact .strings s t
      | _ => cases hkind
    | _ => exact .others hkind (by simp [Value.kind]) (by simp [Value.kind])
  · exact .different hkind

namespace InfixOp

variable {op : InfixOp} {u v w : Value}

/-- The operator gives a value for the operands. -/
def Succeeds (op : InfixOp) (u v : Value) : Prop := ∃ r, op.apply u v = .ok r

/-- A comparison of the operands is true. -/
def IsTrue (op : InfixOp) (u v : Value) : Prop := op.apply u v = .ok (.boolean true)

/-- **Other values of one kind** are equal or not, and that is all. -/
theorem apply_others (hkind : u.kind = v.kind) (hinteger : u.kind ≠ .integer)
    (hstring : u.kind ≠ .string) : op.apply u v =
      match op with
      | .equal => .ok (.boolean (u.same v))
      | .notEqual => .ok (.boolean !u.same v)
      | _ => .error (.unknownInfixOperator u.kind op v.kind) := by
  unfold apply
  split
  · exact absurd rfl hinteger
  · exact absurd rfl hstring
  · refine (if_neg (not_not.mpr hkind)).trans ?_
    cases op <;> rfl

/-- **Values of different kinds** have no operator in common. -/
theorem apply_different (hkind : u.kind ≠ v.kind) :
    op.apply u v = .error (.typeMismatch u.kind op v.kind) := by
  unfold apply
  split
  · exact absurd rfl hkind
  · exact absurd rfl hkind
  · rw [if_pos hkind]

/-- No operator gives a value across kinds. -/
theorem not_succeeds_different (hkind : u.kind ≠ v.kind) : ¬ op.Succeeds u v := by
  rintro ⟨r, hr⟩
  rw [apply_different hkind] at hr
  cases hr

end InfixOp

namespace Value

variable {u v w : Value}

/-! ## Equality

Values of one kind can be compared.  Equality is by what the value is, for integers, strings,
booleans and null, and by identity for the rest. -/

/-- The values are **equal** to a program: integers and strings if they are one, others by
identity. -/
def equals : Value → Value → Bool
  | integer a, integer b => a = b
  | string s, string t => s = t
  | u, v => u.same v

/-- Where there is no order, what is compared is which value it is. -/
theorem equals_others (hinteger : u.kind ≠ .integer) (hstring : u.kind ≠ .string) :
    u.equals v = u.same v := by
  unfold equals
  split
  · exact absurd rfl hinteger
  · exact absurd rfl hstring
  · rfl

/-- Equality does not depend on which operand stands on the left. -/
theorem equals_comm (hkind : u.kind = v.kind) : u.equals v = v.equals u := by
  cases operands u v with
  | integers a b => exact decide_eq_decide.mpr eq_comm
  | strings s t => exact decide_eq_decide.mpr eq_comm
  | others _ hinteger hstring =>
    rw [equals_others hinteger hstring, equals_others (hkind ▸ hinteger) (hkind ▸ hstring),
      same_comm]
  | different hne => exact absurd hkind hne

/-- **Values of one kind are equal or not**, and `!=` says the opposite of `==`. -/
theorem apply_equal (hkind : u.kind = v.kind) :
    InfixOp.equal.apply u v = .ok (.boolean (u.equals v)) ∧
      InfixOp.notEqual.apply u v = .ok (.boolean !u.equals v) := by
  cases operands u v with
  | integers a b => exact ⟨rfl, congrArg (Except.ok ∘ boolean) (by simp [equals])⟩
  | strings s t => exact ⟨rfl, congrArg (Except.ok ∘ boolean) (by simp [equals])⟩
  | others _ hinteger hstring =>
    rw [InfixOp.apply_others hkind hinteger hstring, InfixOp.apply_others hkind hinteger hstring,
      equals_others hinteger hstring]
    exact ⟨rfl, rfl⟩
  | different hne => exact absurd hkind hne

/-- **What can be compared for equality**: any two values of one kind, and no others. -/
theorem succeeds_equal_iff :
    (InfixOp.equal.Succeeds u v ↔ u.kind = v.kind) ∧
      (InfixOp.notEqual.Succeeds u v ↔ u.kind = v.kind) := by
  by_cases hkind : u.kind = v.kind
  · obtain ⟨hequal, hnotEqual⟩ := apply_equal hkind
    exact ⟨iff_of_true ⟨_, hequal⟩ hkind, iff_of_true ⟨_, hnotEqual⟩ hkind⟩
  · exact ⟨iff_of_false (InfixOp.not_succeeds_different hkind) hkind,
      iff_of_false (InfixOp.not_succeeds_different hkind) hkind⟩

/-- **Equality is symmetric**, and fails on both sides if on one. -/
theorem equal_symm (u v r : Value) :
    InfixOp.equal.apply u v = .ok r ↔ InfixOp.equal.apply v u = .ok r := by
  by_cases hkind : u.kind = v.kind
  · rw [(apply_equal hkind).1, (apply_equal hkind.symm).1, equals_comm hkind]
  · rw [InfixOp.apply_different hkind, InfixOp.apply_different (Ne.symm hkind)]
    exact iff_of_false nofun nofun

/-! ## Order

Integers are ordered as numbers, and strings by their code points one after another. -/

/-- The values are two integers or two strings. -/
def Ordered (u v : Value) : Prop :=
  u.kind = .integer ∧ v.kind = .integer ∨ u.kind = .string ∧ v.kind = .string

/-- **What can be ordered**: two integers or two strings. -/
theorem succeeds_less_iff : InfixOp.less.Succeeds u v ↔ u.Ordered v := by
  cases operands u v with
  | integers a b => exact iff_of_true ⟨_, rfl⟩ (.inl ⟨rfl, rfl⟩)
  | strings s t => exact iff_of_true ⟨_, rfl⟩ (.inr ⟨rfl, rfl⟩)
  | others hkind hinteger hstring =>
    refine iff_of_false ?_ fun h => h.elim (fun h => hinteger h.1) fun h => hstring h.1
    rintro ⟨r, hr⟩
    rw [InfixOp.apply_others hkind hinteger hstring] at hr
    cases hr
  | different hkind =>
    refine iff_of_false (InfixOp.not_succeeds_different hkind) ?_
    rintro (⟨hu, hv⟩ | ⟨hu, hv⟩) <;> exact hkind (hu.trans hv.symm)

/-- `>` is `<` with its operands exchanged. -/
theorem less_iff_greater (u v r : Value) :
    InfixOp.less.apply u v = .ok r ↔ InfixOp.greater.apply v u = .ok r := by
  cases operands u v with
  | integers a b => exact Iff.rfl
  | strings s t => exact Iff.rfl
  | others hkind hinteger hstring =>
    rw [InfixOp.apply_others hkind hinteger hstring,
      InfixOp.apply_others hkind.symm (hkind ▸ hinteger) (hkind ▸ hstring)]
    exact iff_of_false nofun nofun
  | different hkind =>
    rw [InfixOp.apply_different hkind, InfixOp.apply_different (Ne.symm hkind)]
    exact iff_of_false nofun nofun

/-- The results of `<`, `==` and `>`. -/
def ComparesAs (u v : Value) (less equal greater : Bool) : Prop :=
  InfixOp.less.apply u v = .ok (.boolean less) ∧ InfixOp.equal.apply u v = .ok (.boolean equal) ∧
    InfixOp.greater.apply u v = .ok (.boolean greater)

/-- In a linear order, of less, equal and greater one is true. -/
theorem one_of_three {α : Type} [LE α] [LT α] [Std.IsLinearOrder α] [Std.LawfulOrderLT α]
    [DecidableLT α] [DecidableEq α] (a b : α) {P : Bool → Bool → Bool → Prop}
    (h : P (a < b) (a = b) (b < a)) :
      P true false false ∨ P false true false ∨ P false false true := by
  rcases Std.lt_trichotomy a b with hlt | rfl | hgt
  · rw [decide_eq_true hlt, decide_eq_false (Std.ne_of_lt hlt),
      decide_eq_false (Std.not_gt_of_lt hlt)] at h
    exact .inl h
  · rw [decide_eq_true rfl, decide_eq_false Std.lt_irrefl] at h
    exact .inr (.inl h)
  · rw [decide_eq_true hgt, decide_eq_false (Std.ne_of_lt hgt).symm,
      decide_eq_false (Std.not_gt_of_lt hgt)] at h
    exact .inr (.inr h)

/-- **Where there is an order**, one value is less, or the two are equal, or one is greater. -/
theorem trichotomy (h : InfixOp.less.Succeeds u v) : u.ComparesAs v true false false ∨
    u.ComparesAs v false true false ∨ u.ComparesAs v false false true := by
  cases operands u v with
  | integers a b => exact one_of_three a b ⟨rfl, rfl, rfl⟩
  | strings s t => exact one_of_three s t ⟨rfl, rfl, rfl⟩
  | others hkind hinteger hstring =>
    exact (succeeds_less_iff.mp h).elim (fun h => absurd h.1 hinteger) fun h => absurd h.1 hstring
  | different hkind => exact absurd h (InfixOp.not_succeeds_different hkind)

/-- Integers are ordered as 64-bit numbers with a sign. -/
theorem less_isTrue_integers {a b : Int64} :
    InfixOp.less.IsTrue (.integer a) (.integer b) ↔ a < b := by
  simp [InfixOp.IsTrue, InfixOp.apply, InfixOp.applyIntegers]

/-- Strings are ordered as the library orders them, by code points. -/
theorem less_isTrue_strings {s t : String} :
    InfixOp.less.IsTrue (.string s) (.string t) ↔ s < t := by
  simp [InfixOp.IsTrue, InfixOp.apply, InfixOp.applyStrings]

/-- **What is less is less** among the integers, or among the strings. -/
theorem cases_of_less (h : InfixOp.less.IsTrue u v) :
    (∃ a b, u = .integer a ∧ v = .integer b ∧ a < b) ∨
      ∃ s t, u = .string s ∧ v = .string t ∧ s < t := by
  cases operands u v with
  | integers a b => exact .inl ⟨a, b, rfl, rfl, less_isTrue_integers.mp h⟩
  | strings s t => exact .inr ⟨s, t, rfl, rfl, less_isTrue_strings.mp h⟩
  | others hkind hinteger hstring =>
    exact (succeeds_less_iff.mp ⟨_, h⟩).elim (fun h => absurd h.1 hinteger)
      fun h => absurd h.1 hstring
  | different hkind => exact absurd ⟨_, h⟩ (InfixOp.not_succeeds_different hkind)

/-- **Less is transitive**; that the first and the last are of one kind follows. -/
theorem less_trans (huv : InfixOp.less.IsTrue u v) (hvw : InfixOp.less.IsTrue v w) :
    InfixOp.less.IsTrue u w := by
  rcases cases_of_less huv with ⟨a, b, rfl, rfl, hab⟩ | ⟨s, t, rfl, rfl, hst⟩
  · rcases cases_of_less hvw with ⟨_, c, hb, rfl, hbc⟩ | ⟨_, _, hb, -⟩
    · cases hb
      exact less_isTrue_integers.mpr (Int64.lt_trans hab hbc)
    · cases hb
  · rcases cases_of_less hvw with ⟨_, _, ht, -⟩ | ⟨_, w, ht, rfl, htw⟩
    · cases ht
    · cases ht
      exact less_isTrue_strings.mpr (String.lt_trans hst htw)

/-! ## Mismatches

Between two kinds there is no comparison, not even for equality, and the error names both of them.
-/

/-- **A mismatch is between kinds**: no operator finds one between values of one kind. -/
theorem apply_ne_typeMismatch (hkind : u.kind = v.kind) (op : InfixOp) (k l : ValueKind)
    (op' : InfixOp) : op.apply u v ≠ .error (.typeMismatch k op' l) := by
  intro h
  cases operands u v with
  | integers a b =>
    change op.applyIntegers a b = _ at h
    unfold InfixOp.applyIntegers at h
    split at h <;> try cases h
    split at h <;> cases h
  | strings s t =>
    change op.applyStrings s t = _ at h
    unfold InfixOp.applyStrings at h
    split at h <;> cases h
  | others _ hinteger hstring =>
    rw [InfixOp.apply_others hkind hinteger hstring] at h
    split at h <;> cases h
  | different hne => exact hne hkind

/-! ## All together

Each field of `Coherent` is one of the laws above. -/

/-- Comparing the two values, and the second with a third one, is **coherent**. -/
structure Coherent (u v : Value) : Prop where
  /-- `==` and `!=` succeed for values of types with one name. -/
  equal_iff : InfixOp.equal.Succeeds u v ↔ u.kind.label = v.kind.label
  notEqual_iff : InfixOp.notEqual.Succeeds u v ↔ u.kind.label = v.kind.label
  opposite : u.kind.label = v.kind.label → ∃ b, InfixOp.equal.apply u v = .ok (.boolean b) ∧
    InfixOp.notEqual.apply u v = .ok (.boolean !b)
  symm : ∀ r, InfixOp.equal.apply u v = .ok r ↔ InfixOp.equal.apply v u = .ok r
  /-- `<` succeeds for two integers and for two strings. -/
  less_iff : InfixOp.less.Succeeds u v ↔ u.Ordered v
  exchanged : ∀ r, InfixOp.less.apply u v = .ok r ↔ InfixOp.greater.apply v u = .ok r
  trichotomy : InfixOp.less.Succeeds u v → u.ComparesAs v true false false ∨
    u.ComparesAs v false true false ∨ u.ComparesAs v false false true
  trans : ∀ w, InfixOp.less.IsTrue u v → InfixOp.less.IsTrue v w → InfixOp.less.IsTrue u w
  integers : ∀ a b, u = .integer a → v = .integer b →
    (InfixOp.less.IsTrue u v ↔ a.toInt < b.toInt)
  /-- Strings are in the order of a dictionary, by code points and also by bytes. -/
  strings : ∀ s t, u = .string s → v = .string t →
    (InfixOp.less.IsTrue u v ↔
      Text.Before (fun c d : Char => c.toNat < d.toNat) s.toList t.toList) ∧
    (InfixOp.less.IsTrue u v ↔
      Text.Before (fun a b : UInt8 => a.toNat < b.toNat) (Text.bytes s) (Text.bytes t))
  /-- Between types of different names an operator fails, and names the two in order. -/
  mismatch : u.kind.label ≠ v.kind.label → ∀ op ≠ InfixOp.assign,
    ∃ e : RuntimeError, op.apply u v = .error e ∧ e = .typeMismatch u.kind op v.kind ∧
      e.message = "type mismatch: " ++ u.kind.label ++ " " ++ op.symbol ++ " " ++ v.kind.label
  matched : u.kind.label = v.kind.label → ∀ (op : InfixOp) k op' l,
    op.apply u v ≠ .error (.typeMismatch k op' l)

/-- **Comparing any two values is coherent.** -/
theorem coherent (u v : Value) : u.Coherent v where
  equal_iff := succeeds_equal_iff.1.trans ValueKind.label_inj.symm
  notEqual_iff := succeeds_equal_iff.2.trans ValueKind.label_inj.symm
  opposite hlabel := ⟨_, apply_equal (ValueKind.label_inj.mp hlabel)⟩
  symm := equal_symm u v
  less_iff := succeeds_less_iff
  exchanged := less_iff_greater u v
  trichotomy := trichotomy
  trans _ := less_trans
  integers a b hu hv := by
    subst hu hv
    exact less_isTrue_integers.trans Int64.lt_iff_toInt_lt
  strings s t hu hv := by
    subst hu hv
    exact ⟨less_isTrue_strings.trans Text.lt_iff_before,
      less_isTrue_strings.trans Text.lt_iff_bytes_before⟩
  mismatch hlabel op _ :=
    ⟨_, InfixOp.apply_different (mt ValueKind.label_inj.mpr hlabel), rfl, rfl⟩
  matched hlabel op k op' l := apply_ne_typeMismatch (ValueKind.label_inj.mp hlabel) op k l op'

end Value

end Scriptlet
