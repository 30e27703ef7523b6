import Mathlib.Data.Int.ModEq
import Scriptlet.Proofs.Eval.Unwinding

/-!
# Proofs/Eval/Arithmetic — trees of integers

An `Arithmetic` tree is put together from integer literals by unary minus and `+`, `-`, `*` and `/`.
It is evaluated to an integer, or to the error of a division by zero, and leaves the machine as it
was.

All operators but the division agree with those of the integers up to a multiple of `2 ^ 64`, so a
tree without divisions can be computed without bounds and reduced once, at the end
(`value?_of_exactValue?`).  A division sees its operands as they are represented, and rounds toward
zero.
-/

namespace Scriptlet

open Eval

/-! ## Trees

A tree of operations is a piece of syntax, and its value in `ℤ` is defined along the syntax, with no
look at 64 bits. -/

/-- The operators that go together with taking a remainder. -/
inductive RingOp where
  | add
  | sub
  | mul
  deriving DecidableEq, Repr, Inhabited

namespace RingOp

/-- The operator as it is written. -/
def toInfix : RingOp → InfixOp
  | add => .add
  | sub => .sub
  | mul => .mul

/-- What the operator does to integers of any size. -/
def exact : RingOp → Int → Int → Int
  | add, a, b => a + b
  | sub, a, b => a - b
  | mul, a, b => a * b

/-- What the operator does to integers of 64 bits. -/
def wrapped : RingOp → Int64 → Int64 → Int64
  | add, a, b => a + b
  | sub, a, b => a - b
  | mul, a, b => a * b

/-- **An exact result that is reduced** is the result of what was reduced. -/
theorem ofInt_exact (op : RingOp) (a b : Int) :
    Int64.ofInt (op.exact a b) = op.wrapped (Int64.ofInt a) (Int64.ofInt b) := by
  cases op with
  | add => exact Int64.ofInt_add a b
  | sub => exact Int64.ofInt_sub a b
  | mul => exact Int64.ofInt_mul a b

/-- Operators on integers are the operations on 64 bits. -/
theorem apply_integers (op : RingOp) (a b : Int64) :
    op.toInfix.apply (.integer a) (.integer b) = .ok (.integer (op.wrapped a b)) := by
  cases op <;> rfl

theorem ne_assign (op : RingOp) : op.toInfix ≠ .assign := by
  cases op <;> decide

end RingOp

/-- A tree of integer literals, negations, sums, differences, products and quotients. -/
inductive Arithmetic where
  | literal (n : Nat) (fits : n < Parse.integerLimit)
  | neg (t : Arithmetic)
  | ring (op : RingOp) (l r : Arithmetic)
  | div (l r : Arithmetic)

namespace Arithmetic

/-- The tree as an expression. -/
def toExpr : Arithmetic → Expr
  | literal n _ => .integer (Int64.ofNat n)
  | neg t => .unary .neg t.toExpr
  | ring op l r => .binary op.toInfix l.toExpr r.toExpr
  | div l r => .binary .div l.toExpr r.toExpr

/-- There is a division in the tree. -/
def divides : Arithmetic → Bool
  | literal _ _ => false
  | neg t => t.divides
  | ring _ l r => l.divides || r.divides
  | div _ _ => true

/-- The value of a tree without divisions, in the integers. -/
def exactValue? : Arithmetic → Option Int
  | literal n _ => some n
  | neg t => t.exactValue?.map fun a => -a
  | ring op l r => l.exactValue?.bind fun a => r.exactValue?.map fun b => op.exact a b
  | div _ _ => none

/-- The value of a tree in 64 bits; there is none if an operand has none, or a divisor is zero. -/
def value? : Arithmetic → Option Int64
  | literal n _ => some (Int64.ofNat n)
  | neg t => t.value?.map fun a => -a
  | ring op l r => l.value?.bind fun a => r.value?.map fun b => op.wrapped a b
  | div l r => l.value?.bind fun a => r.value?.bind fun b => if b = 0 then none else some (a / b)

/-- A tree without divisions has a value in the integers. -/
theorem isSome_exactValue? (t : Arithmetic) : t.exactValue?.isSome = !t.divides := by
  induction t with
  | literal => rfl
  | neg t ih =>
    rw [divides, ← ih, exactValue?]
    cases t.exactValue? <;> rfl
  | ring op l r ihl ihr =>
    rw [divides, Bool.not_or, ← ihl, ← ihr, exactValue?]
    cases l.exactValue? <;> cases r.exactValue? <;> rfl
  | div => rfl

/-- **One reduction at the end** gives what reducing at every step gives. -/
theorem value?_of_exactValue? {t : Arithmetic} {z : Int} (h : t.exactValue? = some z) :
    t.value? = some (Int64.ofInt z) := by
  induction t generalizing z with
  | literal n =>
    obtain rfl := Option.some.inj h
    rw [value?, Int64.ofInt_eq_ofNat]
  | neg t ih =>
    obtain ⟨a, ha, rfl⟩ := Option.map_eq_some_iff.mp h
    rw [value?, ih ha, Option.map_some, Int64.ofInt_neg]
  | ring op l r ihl ihr =>
    obtain ⟨a, ha, h⟩ := Option.bind_eq_some_iff.mp h
    obtain ⟨b, hb, rfl⟩ := Option.map_eq_some_iff.mp h
    rw [value?, ihl ha, ihr hb, Option.bind_some, Option.map_some, op.ofInt_exact]
  | div => cases h

end Arithmetic

/-- The smallest integer divided by minus one is itself again. -/
example : (Arithmetic.div (.ring .sub (.neg (.literal 0x7fffffffffffffff (by decide)))
    (.literal 1 (by decide))) (.neg (.literal 1 (by decide)))).value? = some Int64.minValue := by
  decide

/-- The integers that 64 bits represent are one for each remainder. -/
theorem eq_toInt_ofInt_iff {z k : Int} :
    k = (Int64.ofInt z).toInt ↔ -2 ^ 63 ≤ k ∧ k < 2 ^ 63 ∧ k ≡ z [ZMOD 2 ^ 64] := by
  have hsize : ((Int64.size : Nat) : Int) = 2 ^ 64 := rfl
  constructor
  · rintro rfl
    refine ⟨Int64.le_toInt _, Int64.toInt_lt _, ?_⟩
    rw [Int64.toInt_ofInt, Int.ModEq, ← hsize, Int.bmod_emod]
  · rintro ⟨hle, hlt, hmod⟩
    rw [Int.ModEq, ← hsize] at hmod
    rw [← Int64.toInt_ofInt_of_le hle hlt, Int64.toInt_ofInt, Int64.toInt_ofInt, ← Int.emod_bmod,
      hmod, Int.emod_bmod]

/-- **Division rounds toward zero**; the one quotient that does not fit wraps around. -/
theorem toInt_div_cases (a b : Int64) : (a / b).toInt =
    if a.toInt = -2 ^ 63 ∧ b.toInt = -1 then -2 ^ 63 else a.toInt.tdiv b.toInt := by
  by_cases ha : a = Int64.minValue
  · by_cases hb : b = -1
    · rw [ha, hb]
      decide
    · have hne : b.toInt ≠ -1 := fun h => hb (Int64.toInt_inj.mp h)
      rw [if_neg fun h => hne h.2, Int64.toInt_div_of_ne_right a b hb]
  · have hne : a.toInt ≠ -2 ^ 63 := fun h => ha (Int64.toInt_inj.mp h)
    rw [if_neg fun h => hne h.1, Int64.toInt_div_of_ne_left a b ha]

/-! ## Evaluation

Operands are evaluated from left to right, and the operation comes last, so a division that fails
keeps what is behind it from being evaluated. -/

section

variable {limits : Limits} {i : ScopeId} {m m₁ m₂ : Machine} {l r e : Expr}

/-! Evaluation of an operation, from that of its operands: what they give goes through the operator,
on the machine that the second one left. -/

theorem Task.gives_neg {a : Int64} (h : (expr i e).Gives limits m (some (.integer a)) m₁) :
    (expr i (.unary .neg e)).Gives limits m (some (.integer (-a))) m₁ := by
  refine settles_succ.mp ?_
  simp only [Task.eval, Expr.eval]
  exact h.operand.bind (.const rfl rfl)

/-- An operator is applied to what its operands gave. -/
theorem Task.settles_binary {op : InfixOp} {u v : Option Value} {o : Outcome (Option Value)}
    (hop : op ≠ .assign) (hl : (expr i l).Gives limits m u m₁)
    (hr : (expr i r).Gives limits m₁ v m₂)
    (ho : (do return some (← ofExcept (op.apply (u.getD .null) (v.getD .null))) :
      Eval (Option Value)) m₂ = o) (hfinished : o.finished) :
    Settles (fun n => (expr i (.binary op l r)).eval limits n) m o := by
  refine settles_succ.mp ?_
  simp only [Task.eval, Expr.eval]
  exact hl.operand.bind (hr.operand.bind (.const ho hfinished))

variable {a b : Int64} (hl : (Task.expr i l).Gives limits m (some (.integer a)) m₁)
  (hr : (Task.expr i r).Gives limits m₁ (some (.integer b)) m₂)
include hl hr

theorem Task.gives_ring (op : RingOp) :
    (expr i (.binary op.toInfix l r)).Gives limits m (some (.integer (op.wrapped a b))) m₂ := by
  refine settles_binary op.ne_assign hl hr ?_ rfl
  simp only [Option.getD_some, op.apply_integers]
  rfl

theorem Task.gives_div (hb : b ≠ 0) :
    (expr i (.binary .div l r)).Gives limits m (some (.integer (a / b))) m₂ := by
  refine settles_binary (by decide) hl hr ?_ rfl
  simp only [Option.getD_some, InfixOp.apply, InfixOp.applyIntegers, if_neg hb]
  rfl

theorem Task.unwinds_div (hb : b = 0) :
    (expr i (.binary .div l r)).Unwinds limits m (.failed .divisionByZero) m₂ := by
  refine settles_binary (by decide) hl hr ?_ rfl
  simp only [Option.getD_some, InfixOp.apply, InfixOp.applyIntegers, if_pos hb]
  rfl

end

namespace Arithmetic

variable (limits : Limits) (i : ScopeId) (m : Machine)

/-- **A tree with a value is evaluated to it**, by induction on the tree. -/
theorem gives_of_value? {t : Arithmetic} {n : Int64} (h : t.value? = some n) :
    (Task.expr i t.toExpr).Gives limits m (some (.integer n)) m := by
  induction t generalizing n with
  | literal =>
    obtain rfl := Option.some.inj h
    exact settles_succ.mp (.const rfl rfl)
  | neg t ih =>
    obtain ⟨a, ha, rfl⟩ := Option.map_eq_some_iff.mp h
    exact Task.gives_neg (ih ha)
  | ring op l r ihl ihr =>
    obtain ⟨a, ha, h⟩ := Option.bind_eq_some_iff.mp h
    obtain ⟨b, hb, rfl⟩ := Option.map_eq_some_iff.mp h
    exact Task.gives_ring (ihl ha) (ihr hb) op
  | div l r ihl ihr =>
    obtain ⟨a, ha, h⟩ := Option.bind_eq_some_iff.mp h
    obtain ⟨b, hb, h⟩ := Option.bind_eq_some_iff.mp h
    by_cases hzero : b = 0
    · rw [if_pos hzero] at h
      cases h
    · rw [if_neg hzero] at h
      obtain rfl := Option.some.inj h
      exact Task.gives_div (ihl ha) (ihr hb) hzero

/-- Work on the tree comes to a division whose operands have values, that of the divisor being
zero. -/
def ReachesZero (t : Arithmetic) : Prop :=
  ∃ l r : Arithmetic,
    Relation.ReflTransGen (Enters limits) (.expr i t.toExpr, m) (.expr i (l.div r).toExpr, m) ∧
      ∃ a, (Task.expr i l.toExpr).Gives limits m (some (.integer a)) m ∧
        (Task.expr i r.toExpr).Gives limits m (some (.integer 0)) m

variable {limits i m} {t : Arithmetic}

/-- A division by zero in an operand is one in the operation. -/
theorem ReachesZero.head {t' : Arithmetic} (h : t'.ReachesZero limits i m)
    (ht : Enters limits (.expr i t.toExpr, m) (.expr i t'.toExpr, m)) :
    t.ReachesZero limits i m := by
  obtain ⟨l, r, hpath, hvalues⟩ := h
  exact ⟨l, r, hpath.head ht, hvalues⟩

/-- An operation reaches a division by zero in its left operand or, if that has a value, in its
right one. -/
theorem ReachesZero.of_operands {l r : Arithmetic} {op : InfixOp} (hop : op ≠ .assign)
    (ht : t.toExpr = .binary op l.toExpr r.toExpr)
    (h : l.ReachesZero limits i m ∨ ∃ a, l.value? = some a ∧ r.ReachesZero limits i m) :
    t.ReachesZero limits i m := by
  rcases h with h | ⟨a, ha, h⟩
  · exact h.head (ht ▸ .left hop)
  · exact h.head (ht ▸ .right hop (gives_of_value? limits i m ha))

/-- **A tree without a value comes to a division by zero.** -/
theorem reachesZero_of_value? (h : t.value? = none) : t.ReachesZero limits i m := by
  induction t with
  | literal => cases h
  | neg t ih => exact (ih (Option.map_eq_none_iff.mp h)).head .operand
  | ring op l r ihl ihr =>
    cases ha : l.value? with
    | none => exact .of_operands op.ne_assign rfl (.inl (ihl ha))
    | some a =>
      have hr := Option.map_eq_none_iff.mp (Option.bind_eq_none_iff.mp h a ha)
      exact .of_operands op.ne_assign rfl (.inr ⟨a, ha, ihr hr⟩)
  | div l r ihl ihr =>
    cases ha : l.value? with
    | none => exact .of_operands (by decide) rfl (.inl (ihl ha))
    | some a =>
      have hr := Option.bind_eq_none_iff.mp h a ha
      cases hb : r.value? with
      | none => exact .of_operands (by decide) rfl (.inr ⟨a, ha, ihr hb⟩)
      | some b =>
        -- both operands have values, so it is the divisor
        obtain rfl : b = 0 := by simpa using Option.bind_eq_none_iff.mp hr b hb
        exact ⟨l, r, .refl, a, gives_of_value? limits i m ha, gives_of_value? limits i m hb⟩

/-- **A division by zero that is come to** ends the evaluation. -/
theorem ReachesZero.unwinds (h : t.ReachesZero limits i m) :
    (Task.expr i t.toExpr).Unwinds limits m (.failed .divisionByZero) m := by
  obtain ⟨l, r, hpath, a, hl, hr⟩ := h
  exact unwinds_of_entered hpath (Task.unwinds_div hl hr rfl)

/-- The tree is **computed in two's complement**, under the limits, in the scope and on the
machine. -/
structure TwosComplement (limits : Limits) (i : ScopeId) (m : Machine) (t : Arithmetic) : Prop where
  halts : (Task.expr i t.toExpr).Halts limits m
  /-- It ends with an integer or with a division by zero, and nothing is done but that. -/
  ends {o : Outcome (Option Value)} : Settles (fun n => Expr.eval limits n i t.toExpr) m o →
    (∃ n, o = .done (some (.integer n)) m) ∨ o = .unwound (.failed .divisionByZero) m
  /-- Without divisions it gives the exact value of the whole tree, as it is represented. -/
  exact : t.divides = false → ∃ z n, t.exactValue? = some z ∧
    (Task.expr i t.toExpr).Gives limits m (some (.integer n)) m ∧
      ∀ k : Int, k = n.toInt ↔ -2 ^ 63 ≤ k ∧ k < 2 ^ 63 ∧ k ≡ z [ZMOD 2 ^ 64]
  /-- A division gives the quotient of what its operands gave, rounded toward zero, unless that is
  `2 ^ 63`. -/
  quotient {l r : Expr} {m₁ m₂ m₃ : Machine} {a b : Int64} :
    (Task.expr i l).Gives limits m₁ (some (.integer a)) m₂ →
    (Task.expr i r).Gives limits m₂ (some (.integer b)) m₃ → b ≠ 0 →
    ∃ q, (Task.expr i (.binary .div l r)).Gives limits m₁ (some (.integer q)) m₃ ∧ q.toInt =
      if a.toInt = -2 ^ 63 ∧ b.toInt = -1 then -2 ^ 63 else a.toInt.tdiv b.toInt
  /-- It fails exactly if, from left to right and from inside out, a division by zero is come to. -/
  fails_iff : (Task.expr i t.toExpr).Unwinds limits m (.failed .divisionByZero) m ↔
    t.ReachesZero limits i m

/-- **Integers are computed in two's complement, and only a division by zero fails.** -/
theorem twosComplement (limits : Limits) (i : ScopeId) (m : Machine) (t : Arithmetic) :
    t.TwosComplement limits i m := by
  have hends : (∃ n, t.value? = some n ∧
        (Task.expr i t.toExpr).Gives limits m (some (.integer n)) m) ∨
      t.ReachesZero limits i m := by
    cases ht : t.value? with
    | none => exact .inr (reachesZero_of_value? ht)
    | some n => exact .inl ⟨n, rfl, gives_of_value? limits i m ht⟩
  exact {
    halts := by
      rcases hends with ⟨n, -, hn⟩ | hzero
      · exact ⟨_, hn⟩
      · exact ⟨_, hzero.unwinds⟩
    ends := fun ho => by
      rcases hends with ⟨n, -, hn⟩ | hzero
      · exact .inl ⟨n, ho.unique hn⟩
      · exact .inr (ho.unique hzero.unwinds)
    exact := fun hfree => by
      obtain ⟨z, hz⟩ : ∃ z, t.exactValue? = some z := by
        rw [← Option.isSome_iff_exists, isSome_exactValue?, hfree]
        rfl
      have hgives := gives_of_value? limits i m (value?_of_exactValue? hz)
      exact ⟨z, _, hz, hgives, fun k => eq_toInt_ofInt_iff⟩
    quotient := fun hl hr hb => ⟨_, Task.gives_div hl hr hb, toInt_div_cases _ _⟩
    fails_iff := by
      refine ⟨fun hfails => ?_, ReachesZero.unwinds⟩
      rcases hends with ⟨n, -, hn⟩ | hzero
      · cases hfails.unique hn
      · exact hzero }

end Arithmetic

end Scriptlet
