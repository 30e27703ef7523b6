import Scriptlet.Value.Operators
import Scriptlet.Value.Builtin

/-!
# Proofs/Value/Errors — what can be wrong with operands

Operators, built-ins, indexing and hash keys fail only over the values they are given: never over a
name, over how a program is written, or over a limit of the host.
-/

namespace Scriptlet

/-- The error is one of an operation on values. -/
def RuntimeError.isOfValues : RuntimeError → Bool
  | typeMismatch .. | unknownPrefixOperator .. | unknownInfixOperator .. => true
  | wrongArgumentCount .. | unsupportedArgument .. | emptyArray => true
  | unusableHashKey .. | indexNotSupported .. | indexOutOfBounds .. | negativeIndex .. => true
  | divisionByZero => true
  | _ => false

/-! One lemma for each operation: wherever it fails, it fails over its values. The cases are those
of its definition. -/

/-- Prefix operators fail over the kind of their operand. -/
theorem PrefixOp.apply_error {op : PrefixOp} {v : Value} {e : RuntimeError}
    (h : op.apply v = .error e) : e.isOfValues := by
  unfold PrefixOp.apply at h
  split at h <;> cases h
  rfl

/-- Operators between operands fail over kinds, or divide by zero. -/
theorem InfixOp.apply_error {op : InfixOp} {u v : Value} {e : RuntimeError}
    (h : op.apply u v = .error e) : e.isOfValues := by
  unfold InfixOp.apply at h
  split at h
  · cases op <;> simp only [InfixOp.applyIntegers] at h
    case div =>
      split at h <;> cases h
      rfl
    all_goals cases h <;> rfl
  · cases op <;> simp only [InfixOp.applyStrings] at h <;> cases h <;> rfl
  · split at h
    · cases h
      rfl
    · split at h <;> cases h
      rfl

/-- A value that is no key is complained of by its kind. -/
theorem Value.toHashKey_error {v : Value} {e : RuntimeError} (h : v.toHashKey = .error e) :
    e.isOfValues := by
  unfold Value.toHashKey at h
  split at h <;> cases h
  rfl

/-- An index fails over the kinds of both values, or over a place that is not there. -/
theorem Value.index_error {u v : Value} {e : RuntimeError} (h : u.index v = .error e) :
    e.isOfValues := by
  unfold Value.index at h
  split at h
  · split at h
    · cases h
      rfl
    · split at h
      · cases h
      · cases h
        rfl
  · cases hkey : v.toHashKey with
    | error e' =>
      rw [hkey] at h
      cases h
      exact toHashKey_error hkey
    | ok k =>
      rw [hkey] at h
      cases h
  · cases h
    rfl

/-- An element is missing only from an empty array. -/
theorem Builtin.element_error {v : Option Value} {e : RuntimeError} (h : element v = .error e) :
    e.isOfValues := by
  cases v <;> cases h
  rfl

theorem Builtin.shortened_error {fresh : Identity} {es remaining : List Value} {e : RuntimeError}
    (h : shortened fresh es remaining = .error e) : e.isOfValues := by
  unfold shortened at h
  split at h <;> cases h
  rfl

/-- **Built-ins fail over the number and kinds of their arguments**, or over an empty array. -/
theorem Builtin.call_error {b : Builtin} {fresh : Identity} {args : List Value} {e : RuntimeError}
    (h : b.call fresh args = .error e) : e.isOfValues := by
  unfold Builtin.call at h
  split at h
  · cases h
    rfl
  · split at h
    case h_3 | h_4 => exact element_error h
    case h_5 | h_6 => exact shortened_error h
    all_goals cases h <;> rfl

end Scriptlet
