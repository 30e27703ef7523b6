import Scriptlet.Text.Quoted

/-!
# Proofs/Text/Quoted — quoted texts are read as what was written

Reading knows five short escapes.  A text whose characters need no other escape is read back from
between its quotes, whatever stands behind the closing one.
-/

namespace Scriptlet.Text

/-- The character stands for itself between quotes, or has one of the escapes that reading knows. -/
def IsPlain (c : Char) : Prop := escape c = [c] ∨ c ∈ ['\t', '\n', '\r', '"', '\\']

instance (c : Char) : Decidable (IsPlain c) :=
  inferInstanceAs (Decidable (escape c = [c] ∨ c ∈ ['\t', '\n', '\r', '"', '\\']))

variable {c : Char} {cs rest : List Char}

/-- What stands for itself is neither a quote nor a backslash. -/
theorem ne_of_escape_self (h : escape c = [c]) : c ≠ '"' ∧ c ≠ '\\' := by
  constructor
  · rintro rfl
    exact absurd h (by decide)
  · rintro rfl
    exact absurd h (by decide)

/-- A character that is neither quote nor backslash belongs to the body. -/
theorem quotedBody_of_ne (h : c ≠ '"' ∧ c ≠ '\\') :
    quotedBody (c :: cs) = (quotedBody cs).map (c :: ·) := by
  obtain ⟨hquote, hslash⟩ := h
  rw [quotedBody] <;> simp_all

theorem unescape_of_ne (h : c ≠ '\\') : unescape (c :: cs) = c :: unescape cs := by
  rw [unescape] <;> simp_all

/-- **The closing quote is found.** -/
theorem quotedBody_escaped (rest : List Char) (h : ∀ c ∈ cs, IsPlain c) :
    quotedBody (cs.flatMap escape ++ '"' :: rest) = some (cs.flatMap escape) := by
  induction cs with
  | nil => rfl
  | cons c cs ih =>
    have hbody := ih fun c hc => h c (List.mem_cons_of_mem _ hc)
    rw [List.flatMap_cons, List.append_assoc]
    rcases h c (List.mem_cons_self ..) with hself | hshort
    · rw [hself, List.singleton_append, quotedBody_of_ne (ne_of_escape_self hself), hbody]
      rfl
    · simp only [List.mem_cons, List.not_mem_nil, or_false] at hshort
      rcases hshort with rfl | rfl | rfl | rfl | rfl
      all_goals
        simp only [escape, List.cons_append, List.nil_append]
        rw [quotedBody, hbody]
        rfl

/-- **The text is read back.** -/
theorem unescape_escaped (h : ∀ c ∈ cs, IsPlain c) : unescape (cs.flatMap escape) = cs := by
  induction cs with
  | nil => rfl
  | cons c cs ih =>
    have hbody := ih fun c hc => h c (List.mem_cons_of_mem _ hc)
    rw [List.flatMap_cons]
    rcases h c (List.mem_cons_self ..) with hself | hshort
    · rw [hself, List.singleton_append, unescape_of_ne (ne_of_escape_self hself).2, hbody]
    · simp only [List.mem_cons, List.not_mem_nil, or_false] at hshort
      rcases hshort with rfl | rfl | rfl | rfl | rfl
      all_goals
        simp only [escape, List.cons_append, List.nil_append]
        rw [unescape, hbody]
        rfl

end Scriptlet.Text
