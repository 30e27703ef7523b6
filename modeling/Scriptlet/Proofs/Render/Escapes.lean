import Scriptlet.Proofs.Render.Strings

/-!
# Proofs/Render/Escapes — a quoted text is known from its characters

No escape is the beginning of another one.  What stands behind a backslash tells the escapes with a
backslash apart, and the digits of a code point end at a brace.  None of them begins with a quote,
so the quote that closes a text is the first one that no escape takes along, whatever stands behind
it.

Reading does not undo this: it knows fewer escapes than there are, and gives U+0000 and the two
characters that spell its escape one reading.  Their texts are different all the same.
-/

namespace Scriptlet.Text

variable {c d : Char} {r s x y : List Char}

/-- Runs of characters of one kind are equal if they are equal with other characters behind them. -/
theorem run_append_inj {p : Char → Bool} (hx : ∀ c ∈ x, p c) (hy : ∀ c ∈ y, p c)
    (hr : ∀ c ∈ r.head?, p c = false) (hs : ∀ c ∈ s.head?, p c = false) (h : x ++ r = y ++ s) :
    x = y ∧ r = s := by
  have hxy : x = y := by
    rw [← takeWhile_append_of_head hx hr, h, takeWhile_append_of_head hy hs]
  subst hxy
  exact ⟨rfl, List.append_cancel_left h⟩

theorem digitChar_inj : ∀ m < 16, ∀ n < 16, Nat.digitChar m = Nat.digitChar n → m = n := by decide

/-- A number is known from its hexadecimal digits. -/
theorem toDigits_inj {m n : Nat} (h : Nat.toDigits 16 m = Nat.toDigits 16 n) : m = n := by
  induction m using Nat.strongRecOn generalizing n with
  | ind m ih =>
    rw [Nat.toDigits_eq_if (by decide), Nat.toDigits_eq_if (n := n) (by decide)] at h
    split at h <;> split at h
    · next hm hn => exact digitChar_inj m hm n hn (List.singleton_inj.mp h)
    · have hlength := congrArg List.length h
      simp at hlength
    · have hlength := congrArg List.length h
      simp at hlength
    · next hm hn =>
      obtain ⟨hmore, hlast⟩ := List.append_inj' h rfl
      have hdiv : m / 16 = n / 16 := ih _ (Nat.div_lt_self (by omega) (by decide)) hmore
      have hmod : m % 16 = n % 16 := digitChar_inj _ (Nat.mod_lt _ (by decide)) _
        (Nat.mod_lt _ (by decide)) (List.singleton_inj.mp hlast)
      omega

/-- The characters after a backslash that stand for one character, U+0000 included. -/
def backslashEscapes : List (Char × Char) := ('0', '\x00') :: shortEscapes

/-- What stands behind a backslash tells the character. -/
theorem backslashEscapes_inj : ∀ p ∈ backslashEscapes, ∀ q ∈ backslashEscapes,
    p.1 = q.1 → p.2 = q.2 := by
  decide

/-- None of these is the letter of code point escapes. -/
theorem backslashEscapes_ne : ∀ p ∈ backslashEscapes, p.1 ≠ 'u' := by decide

/-- The text begins with the escape of `c`, and goes on with `r`. -/
inductive Escaped (c : Char) (r : List Char) : List Char → Prop
  | self : c ≠ '"' → c ≠ '\\' → Escaped c r (c :: r)
  | short {x : Char} : (x, c) ∈ backslashEscapes → Escaped c r ('\\' :: x :: r)
  | codePoint : Escaped c r ('\\' :: 'u' :: '\x7b' :: (Nat.toDigits 16 c.toNat ++ '\x7d' :: r))

/-- The escape of a character begins with it, so to speak. -/
theorem escaped (c : Char) (r : List Char) : Escaped c r (escape c ++ r) := by
  rcases escape_cases c with ⟨x, hx, h⟩ | rfl | h | h
  · rw [h]
    exact .short (List.mem_cons_of_mem _ hx)
  · exact .short (List.mem_cons_self ..)
  · rw [h]
    exact .self (ne_of_escape_self h).1 (ne_of_escape_self h).2
  · have htext : codePointEscape c ++ r =
        '\\' :: 'u' :: '\x7b' :: (Nat.toDigits 16 c.toNat ++ '\x7d' :: r) := by
      simp [codePointEscape]
    rw [h, htext]
    exact .codePoint

variable {t : List Char}

/-- No escape begins with the quote that closes a text. -/
theorem Escaped.ne_quote (h : Escaped c r t) : t ≠ '"' :: s := by
  cases h with
  | self hquote _ => exact fun heq => hquote (List.cons.inj heq).1
  | short | codePoint => nofun

/-- The digits of a code point end at the brace. -/
theorem toDigits_behind (h : Nat.toDigits 16 c.toNat ++ '\x7d' :: r =
    Nat.toDigits 16 d.toNat ++ '\x7d' :: s) : c = d ∧ r = s := by
  have hdigits : ∀ n : Nat, ∀ c ∈ Nat.toDigits 16 n, (c != '\x7d') = true := by
    intro n c hc
    obtain ⟨m, hm, rfl⟩ := exists_of_mem_toDigits n c hc
    exact bne_iff_ne.mpr (digitChar_ne m hm).2.2
  obtain ⟨hsame, hbehind⟩ := run_append_inj (hdigits _) (hdigits _) (by simp) (by simp) h
  exact ⟨Char.toNat_inj.mp (toDigits_inj hsame), (List.cons.inj hbehind).2⟩

/-- **What a text begins with is the escape of one character only.** -/
theorem Escaped.unique {t' : List Char} (h : Escaped c r t) (h' : Escaped d s t') (heq : t = t') :
    c = d ∧ r = s := by
  cases h with
  | self hquote hslash =>
    cases h' with
    | self => exact List.cons.inj heq
    | short | codePoint => exact absurd (List.cons.inj heq).1 hslash
  | @short x hx =>
    cases h' with
    | self _ hslash => exact absurd (List.cons.inj heq).1.symm hslash
    | short hy =>
      obtain ⟨hxy, hbehind⟩ := List.cons.inj (List.cons.inj heq).2
      exact ⟨backslashEscapes_inj _ hx _ hy hxy, hbehind⟩
    | codePoint =>
      exact absurd (List.cons.inj (List.cons.inj heq).2).1 (backslashEscapes_ne _ hx)
  | codePoint =>
    cases h' with
    | self _ hslash => exact absurd (List.cons.inj heq).1.symm hslash
    | short hy =>
      exact absurd (List.cons.inj (List.cons.inj heq).2).1.symm (backslashEscapes_ne _ hy)
    | codePoint =>
      exact toDigits_behind (List.cons.inj (List.cons.inj (List.cons.inj heq).2).2).2

/-- **A quoted text ends where its quote is closed**, and what stands between the quotes is the text
of no other one. -/
theorem quoteBody_inj {cs ds : List Char}
    (h : cs.flatMap escape ++ '"' :: r = ds.flatMap escape ++ '"' :: s) : cs = ds ∧ r = s := by
  induction cs generalizing ds with
  | nil =>
    cases ds with
    | nil => exact ⟨rfl, (List.cons.inj h).2⟩
    | cons d ds =>
      rw [List.flatMap_cons, List.append_assoc] at h
      exact absurd h.symm (escaped d _).ne_quote
  | cons c cs ih =>
    rw [List.flatMap_cons, List.append_assoc] at h
    cases ds with
    | nil => exact absurd h (escaped c _).ne_quote
    | cons d ds =>
      rw [List.flatMap_cons, List.append_assoc] at h
      obtain ⟨rfl, hmore⟩ := (escaped c _).unique (escaped d _) h
      obtain ⟨rfl, hbehind⟩ := ih hmore
      exact ⟨rfl, hbehind⟩

theorem quote_append_inj {a b : String}
    (h : (quote a).toList ++ r = (quote b).toList ++ s) : a = b ∧ r = s := by
  simp only [quote, quoteChars, String.toList_ofList, List.cons_append, List.append_assoc,
    List.nil_append] at h
  obtain ⟨hab, hbehind⟩ := quoteBody_inj (List.cons.inj h).2
  exact ⟨String.toList_inj.mp hab, hbehind⟩

/-- U+0000 and the characters that spell its escape have different texts, but one reading. -/
example : quote "\x00" ≠ quote "\\0" ∧
    "\x00".toList.flatMap reread = "\\0".toList.flatMap reread := by
  decide

end Scriptlet.Text
