import Scriptlet.Syntax.Printer
import Scriptlet.Proofs.Lex.Strings

/-!
# Proofs/Render/Strings — what the text of a string literal is read as

The printer has an escape for every character that cannot stand for itself; the reader knows five of
them.  So the text of a string literal is one string token whatever the string, with a quote in it
or a line feed, but each character with another escape comes back as the characters that spell the
escape.  The string itself is read back exactly if it has no such character.  -/

namespace Scriptlet

namespace Text

/-- What the escape of a character is read as: the character, or else the escape as it is spelled.
-/
def reread (c : Char) : List Char := if IsPlain c then [c] else escape c

variable {c : Char} {cs body body' text text' : List Char}

/-! ## Bodies in a row

The body of a string literal is taken apart into plain characters and escapes; each of them is read
as what it stands for, whatever is behind it. -/

/-- Bodies in a row mean what they mean by themselves, since none ends in the middle of a pair. -/
theorem StandsFor.append (h : StandsFor body text) (h' : StandsFor body' text') :
    StandsFor (body ++ body') (text ++ text') := by
  induction h with
  | nil => exact h'
  | char hquote hslash _ ih => exact .char hquote hslash ih
  | short hc _ ih => exact .short hc ih
  | other hc _ ih => exact .other hc ih

/-- What is taken along in a row of bodies. -/
theorem StandsFor.takenAlong_append (h : StandsFor body text) (rest : List Char) :
    takenAlong (body ++ rest) = takenAlong body ++ takenAlong rest := by
  induction h with
  | nil => rfl
  | char _ hslash _ ih =>
    rw [List.cons_append, takenAlong_of_ne hslash, takenAlong_of_ne hslash, ih]
  | short _ _ ih | other _ _ ih =>
    rw [List.cons_append, List.cons_append, takenAlong, takenAlong, ih, List.cons_append]

/-- Without a quote and a backslash a body means itself, and takes nothing along. -/
theorem standsFor_self (h : ∀ c ∈ cs, c ≠ '"' ∧ c ≠ '\\') :
    StandsFor cs cs ∧ takenAlong cs = [] := by
  induction cs with
  | nil => exact ⟨.nil, rfl⟩
  | cons c cs ih =>
    obtain ⟨⟨hquote, hslash⟩, hcs⟩ := List.forall_mem_cons.mp h
    obtain ⟨hstands, htaken⟩ := ih hcs
    exact ⟨.char hquote hslash hstands, (takenAlong_of_ne hslash).trans htaken⟩

/-! ## The escape of a character

A character stands for itself, has a short escape, or is written by its code point; U+0000 is
written as `\0`.  The reader knows the short escapes of the printer and takes any other backslash
for itself. -/

theorem reread_of_plain (h : IsPlain c) : reread c = [c] := if_pos h

theorem reread_of_not_plain (h : ¬ IsPlain c) : reread c = escape c := if_neg h

/-- The characters with short escapes are those that the printer writes so. -/
theorem mem_of_shortEscapes {d : Char} (h : (d, c) ∈ shortEscapes) :
    c ∈ ['\t', '\n', '\r', '"', '\\'] :=
  List.mem_map_of_mem (f := Prod.snd) h

/-- A character without a short escape stands for itself or is written by its code point. -/
theorem escape_cases (c : Char) :
    (∃ d, (d, c) ∈ shortEscapes ∧ escape c = ['\\', d]) ∨ c = '\x00' ∨ escape c = [c] ∨
      escape c = codePointEscape c := by
  unfold escape
  split
  case h_6 => exact .inr (.inl rfl)
  case h_7 =>
    refine .inr (.inr ?_)
    split
    · exact .inl rfl
    · exact .inr rfl
  all_goals exact .inl ⟨_, by decide, rfl⟩

/-- Hexadecimal digits are the first sixteen digit characters. -/
theorem exists_of_mem_toDigits (n : Nat) :
    ∀ d ∈ Nat.toDigits 16 n, ∃ m < 16, d = Nat.digitChar m := by
  induction n using Nat.strongRecOn with
  | ind n ih =>
    rw [Nat.toDigits_eq_if (by decide)]
    split
    · next hn => exact List.forall_mem_singleton.mpr ⟨n, hn, rfl⟩
    · next hn =>
      have hless : n / 16 < n := Nat.div_lt_self (by omega) (by decide)
      have hlast := Nat.mod_lt n (by decide : 0 < 16)
      exact List.forall_mem_append.mpr ⟨ih _ hless, List.forall_mem_singleton.mpr ⟨_, hlast, rfl⟩⟩

/-- No digit is a quote, a backslash or the closing brace. -/
theorem digitChar_ne : ∀ n < 16, Nat.digitChar n ≠ '"' ∧ Nat.digitChar n ≠ '\\' ∧
    Nat.digitChar n ≠ '\x7d' := by decide

/-- Hexadecimal digits are neither quotes nor backslashes. -/
theorem toDigits_ne (n : Nat) : ∀ d ∈ Nat.toDigits 16 n, d ≠ '"' ∧ d ≠ '\\' := by
  intro d hd
  obtain ⟨m, hm, rfl⟩ := exists_of_mem_toDigits n d hd
  exact ⟨(digitChar_ne m hm).1, (digitChar_ne m hm).2.1⟩

/-- A code point escape is read as the characters it is spelled with. -/
theorem standsFor_codePointEscape (c : Char) :
    StandsFor (codePointEscape c) (codePointEscape c) ∧ '\n' ∉ takenAlong (codePointEscape c) := by
  have hspelled : ∀ d ∈ '\x7b' :: Nat.toDigits 16 c.toNat ++ ['\x7d'], d ≠ '"' ∧ d ≠ '\\' := by
    refine List.forall_mem_append.mpr ⟨List.forall_mem_cons.mpr ⟨by decide, toDigits_ne _⟩, ?_⟩
    exact List.forall_mem_singleton.mpr (by decide)
  obtain ⟨hstands, htaken⟩ := standsFor_self hspelled
  have htaken' : takenAlong (codePointEscape c) = ['u'] := congrArg ('u' :: ·) htaken
  exact ⟨.other (by decide) hstands, htaken' ▸ by decide⟩

/-- **The escape of a character stands for what it is reread as**, and takes no line feed along. -/
theorem standsFor_escape (c : Char) :
    StandsFor (escape c) (reread c) ∧ '\n' ∉ takenAlong (escape c) := by
  by_cases hplain : IsPlain c
  · rw [reread_of_plain hplain]
    rcases hplain with hself | hshort
    · have hspelled : ∀ d ∈ [c], d ≠ '"' ∧ d ≠ '\\' :=
        List.forall_mem_singleton.mpr (ne_of_escape_self hself)
      obtain ⟨hstands, htaken⟩ := standsFor_self hspelled
      rw [hself]
      refine ⟨hstands, ?_⟩
      rw [htaken]
      exact List.not_mem_nil
    · simp only [List.mem_cons, List.not_mem_nil, or_false] at hshort
      rcases hshort with rfl | rfl | rfl | rfl | rfl
      all_goals exact ⟨.short (by decide) .nil, by decide⟩
  · rw [reread_of_not_plain hplain]
    rcases escape_cases c with ⟨d, hd, -⟩ | rfl | hself | hpoint
    · exact absurd (.inr (mem_of_shortEscapes hd)) hplain
    · exact ⟨.other (by decide) .nil, by decide⟩
    · exact absurd (.inl hself) hplain
    · rw [hpoint]
      exact standsFor_codePointEscape c

/-- **The escapes of a text stand for what its characters are reread as.** -/
theorem standsFor_escapes (cs : List Char) :
    StandsFor (cs.flatMap escape) (cs.flatMap reread) ∧ '\n' ∉ takenAlong (cs.flatMap escape) := by
  induction cs with
  | nil => exact ⟨.nil, List.not_mem_nil⟩
  | cons c cs ih =>
    obtain ⟨hc, hfeed⟩ := standsFor_escape c
    obtain ⟨hcs, hfeeds⟩ := ih
    rw [List.flatMap_cons, List.flatMap_cons, hc.takenAlong_append]
    exact ⟨hc.append hcs, List.not_mem_append hfeed hfeeds⟩

/-! ## What comes back unchanged

A string comes back unchanged exactly if none of its characters is one that the reader does not know
the escape of. -/

/-- An escape that is not read has at least two characters. -/
theorem two_le_reread (h : ¬ IsPlain c) : 2 ≤ (reread c).length := by
  rw [reread_of_not_plain h]
  rcases escape_cases c with ⟨d, hd, -⟩ | rfl | hself | hpoint
  · exact absurd (.inr (mem_of_shortEscapes hd)) h
  · decide
  · exact absurd (.inl hself) h
  · rw [hpoint]
    exact Nat.le_add_left 2 _

/-- Rereading never makes a text shorter. -/
theorem length_le_reread (cs : List Char) : cs.length ≤ (cs.flatMap reread).length := by
  induction cs with
  | nil => exact Nat.le_refl 0
  | cons c cs ih =>
    have hc : 1 ≤ (reread c).length := by
      by_cases hplain : IsPlain c
      · rw [reread_of_plain hplain]
        exact Nat.le_refl 1
      · exact Nat.le_of_succ_le (two_le_reread hplain)
    rw [List.flatMap_cons, List.length_append, List.length_cons]
    omega

/-- **A text is reread as itself exactly if all its characters are plain**: any other one makes it
longer. -/
theorem flatMap_reread_eq_iff : cs.flatMap reread = cs ↔ ∀ c ∈ cs, IsPlain c := by
  induction cs with
  | nil => exact ⟨fun _ => nofun, fun _ => rfl⟩
  | cons c cs ih =>
    rw [List.flatMap_cons, List.forall_mem_cons]
    by_cases hplain : IsPlain c
    · rw [reread_of_plain hplain, List.singleton_append, List.cons_inj_right, ih,
        and_iff_right hplain]
    · refine iff_of_false (fun heq => ?_) fun h => hplain h.1
      have hlength := congrArg List.length heq
      have hc := two_le_reread hplain
      have hcs := length_le_reread cs
      rw [List.length_append, List.length_cons] at hlength
      omega

end Text

open Text

/-! ## String literals

The text of a literal is one token, so what is behind it is lexed on its own. -/

/-- The text of a string literal, character by character. -/
theorem toList_render_string (v : String) :
    (Expr.string v).render.toList = '"' :: (v.toList.flatMap escape ++ ['"']) := by
  rw [Expr.render, quote, quoteChars, String.toList_ofList, List.cons_append]

/-- **The text of a string literal is one string token**, from its first byte to its last, whose
literal is what the characters are reread as. -/
theorem tokenize_render_string (v : String) : tokenize (Expr.string v).render =
    [⟨.string, String.ofList (v.toList.flatMap reread),
      ⟨0, (Expr.string v).render.utf8ByteSize⟩⟩] := by
  have htext := toList_render_string v
  obtain ⟨hstands, hfeed⟩ := standsFor_escapes v.toList
  have hlexeme := lexeme_closed (hstands.quotedBody_eq hfeed [])
  have hsize : (Expr.string v).render.utf8ByteSize =
      byteLength ('"' :: v.toList.flatMap escape ++ ['"']) := by
    rw [← byteLength_toList, htext, List.cons_append]
  have hliteral : (Lexeme.mk .string ('"' :: v.toList.flatMap escape ++ ['"'])).literal =
      String.ofList (v.toList.flatMap reread) := by
    show String.ofList (unescape (v.toList.flatMap escape ++ ['"']).dropLast) = _
    rw [List.dropLast_concat, hstands.unescape_eq]
  have hrest : ('"' :: (v.toList.flatMap escape ++ ['"'])).drop
      ('"' :: v.toList.flatMap escape ++ ['"']).length = [] := List.drop_length
  rw [tokenize, htext, tokensFrom, if_neg (by decide)]
  simp only [hlexeme, hrest]
  rw [tokensFrom, Lexeme.token, hliteral, Nat.zero_add, ← hsize]

/-- **The text of a string literal is read as one string token and the end of input**, whatever the
string.  The literal of the token is the string with each character whose escape reading does not
know replaced by that escape; so it is the string itself exactly if there is no such character. -/
theorem string_text_reread (v : String) :
    ∃ t : Token, t.kind = .string ∧ t.span = ⟨0, (Expr.string v).render.utf8ByteSize⟩ ∧
      (∀ n, (TokenStream.ofSource (Expr.string v).render).take (n + 1) =
        t :: List.replicate n (.endAt (Expr.string v).render.utf8ByteSize)) ∧
      t.literal = String.ofList (v.toList.flatMap reread) ∧
      (t.literal = v ↔ ∀ c ∈ v.toList, IsPlain c) := by
  have htokens := tokenize_render_string v
  refine ⟨⟨.string, String.ofList (v.toList.flatMap reread), _⟩, rfl, rfl, fun n => ?_, rfl, ?_⟩
  · have hstream := TokenStream.take_past_end (tokenize (Expr.string v).render)
      (.endAt (Expr.string v).render.utf8ByteSize) n
    rw [TokenStream.ofSource, Nat.add_comm n 1]
    rwa [htokens] at hstream ⊢
  · rw [← flatMap_reread_eq_iff]
    constructor
    · intro h
      exact String.toList_ofList.symm.trans (congrArg String.toList h)
    · intro h
      exact (congrArg String.ofList h).trans String.ofList_toList

/-- The text of the string of U+0000 alone is read as a string of two characters. -/
theorem string_text_not_reread : ¬ ∀ v : String, ∃ t : Token,
    tokenize (Expr.string v).render = [t] ∧ t.kind = .string ∧ t.literal = v := by
  intro h
  obtain ⟨t, htokens, -, hliteral⟩ := h "\x00"
  have htokens' : tokenize (Expr.string "\x00").render = [⟨.string, "\\0", ⟨0, 4⟩⟩] := by
    decide +kernel
  rw [htokens', List.singleton_inj] at htokens
  rw [← htokens] at hliteral
  exact absurd hliteral (by decide)

end Scriptlet
