import Scriptlet.Proofs.Parse.Reading

/-!
# Proofs/Parse/Lookahead — reading looks one word ahead

Behind the last word of a phrase, reading looks at one more word to see whether the phrase goes on.
If that word is there, nothing behind it makes a difference: the phrase is read in the same way
whatever words are added at the end.

A rule looks at no more than three words from where it stands.  Once these are written out, it looks
at the same words with others added behind them, and nothing is left to show.
-/

namespace Scriptlet

variable {ws ws' more : List Word}

/-! ## The next words

The parser looks at the current word and at the next one.  What it does in a phrase is settled by
the words of the phrase and by the one word behind it. -/

/-- Two words that are there can be written out. -/
theorem exists_two (h : 1 < ws.length) : ∃ a b vs, ws = a :: b :: vs := by
  obtain ⟨a, us, rfl⟩ := List.exists_cons_of_length_pos (Nat.lt_of_succ_lt h)
  obtain ⟨b, vs, rfl⟩ := List.exists_cons_of_length_pos (Nat.lt_of_succ_lt_succ h)
  exact ⟨a, b, vs, rfl⟩

theorem lt_length_of_tail {n : Nat} (h : n < ws.tail.length) : n < ws.length :=
  Nat.lt_of_lt_of_le h (List.tail_suffix ws).length_le

/-- Three words, where the tail has two. -/
theorem exists_three (h : 1 < ws.tail.length) : ∃ a b c vs, ws = a :: b :: c :: vs := by
  obtain ⟨a, us, rfl⟩ :=
    List.exists_cons_of_length_pos (Nat.lt_of_succ_lt (lt_length_of_tail h))
  obtain ⟨b, c, vs, rfl⟩ := exists_two (show 1 < us.length from h)
  exact ⟨a, b, c, vs, rfl⟩

/-- Where a phrase starts there are at least as many words as behind it. -/
theorem Reads.lt_length {p : Phrase} {n : Nat} (h : Reads p ws ws') (hn : n < ws'.length) :
    n < ws.length :=
  Nat.lt_of_lt_of_le hn h.length_le

/-- Whether a semicolon is next is seen from the second word. -/
theorem pastSemicolon_append (h : 1 < ws.length) :
    pastSemicolon (ws ++ more) = pastSemicolon ws ++ more := by
  obtain ⟨a, b, vs, rfl⟩ := exists_two h
  unfold pastSemicolon
  split <;> simp_all [firstKind]

/-- Past a semicolon there are not more words than before it. -/
theorem lt_length_of_pastSemicolon {n : Nat} (h : n < (pastSemicolon ws).length) : n < ws.length :=
  Nat.lt_of_lt_of_le h (pastSemicolon_suffix ws).length_le

/-! ## Statements

A statement that ends with an expression is read in the same way if its expression is, and a word
follows the expression. -/

section Statements

variable {x : String} {e : Expr} {w₁ w₂ : List Word}

/-- A binding, with more words behind it. -/
theorem Reads.bind_append (h : firstKind ws = .letWord) (h₁ : ws.tail = .name x :: w₁)
    (h₂ : firstKind w₁ = .assign) (he : Reads (.expression .lowest e) w₁.tail w₂)
    (he' : Reads (.expression .lowest e) (w₁.tail ++ more) (w₂ ++ more)) (hlast : 1 < w₂.length) :
    Reads (.statement (.bind x e)) (ws ++ more) (pastSemicolon w₂ ++ more) := by
  have hw₁ := he.lt_length hlast
  obtain ⟨a, b, c, vs, rfl⟩ := exists_three hw₁
  obtain ⟨d, us, rfl⟩ := List.exists_cons_of_ne_nil (l := ws) (by rintro rfl; cases h₁)
  rw [← pastSemicolon_append hlast]
  exact .bind h (congrArg (· ++ more) h₁) h₂ he'

/-- A return, with more words behind it. -/
theorem Reads.ret_append (h : firstKind ws = .returnWord)
    (he : Reads (.expression .lowest e) ws.tail w₁)
    (he' : Reads (.expression .lowest e) (ws.tail ++ more) (w₁ ++ more)) (hlast : 1 < w₁.length) :
    Reads (.statement (.ret e)) (ws ++ more) (pastSemicolon w₁ ++ more) := by
  obtain ⟨a, b, c, vs, rfl⟩ := exists_three (he.lt_length hlast)
  rw [← pastSemicolon_append hlast]
  exact .ret h he'

/-- An expression that stands for a statement; that it opens no block is seen from its first two
words. -/
theorem Reads.expr_append (h : OpensNoBlock ws) (he : Reads (.expression .lowest e) ws w₁)
    (he' : Reads (.expression .lowest e) (ws ++ more) (w₁ ++ more)) (hlast : 1 < w₁.length) :
    Reads (.statement (.expr e)) (ws ++ more) (pastSemicolon w₁ ++ more) := by
  obtain ⟨a, b, vs, rfl⟩ := exists_two (he.lt_length hlast)
  rw [← pastSemicolon_append hlast]
  exact .expr h he'

end Statements

/-! ## Readings

By induction on the reading, with the words behind it exchanged for others that begin alike. -/

/-- **A reading does not see past the word behind its last one.**

The induction is on the reading, and each rule is applied to the longer words.  Wherever it looks
from, there are the words still to be read before the end of the phrase, and the two there. -/
theorem Reads.append {p : Phrase} (h : Reads p ws ws') (more : List Word)
    (hnext : 1 < ws'.length) : Reads p (ws ++ more) (ws' ++ more) := by
  -- By induction on the reading.  Each rule looks at up to three words, and these are there since
  -- there are two words at the end of the phrase and more in front of it.
  induction h with
  | ident => exact .ident
  | integer hn => exact .integer hn
  | string => exact .string
  | param => exact .param
  | trueWord h | falseWord h | noStatements h | noInit h | noClause h | noMoreItems h | noPairs h
  | noMoreParams h | noAlternative h | stop h =>
    obtain ⟨a, b, vs, rfl⟩ := exists_two hnext
    constructor
    exact h
  | noItems h | noParams h =>
    obtain ⟨a, b, c, vs, rfl⟩ := exists_three hnext
    constructor
    exact h
  | unary h he ih =>
    obtain ⟨a, b, c, vs, rfl⟩ := exists_three (he.lt_length hnext)
    exact .unary h (ih hnext)
  | grouped h he h₁ ih =>
    have hw₁ := lt_length_of_tail hnext
    obtain ⟨a, b, c, vs, rfl⟩ := exists_three (he.lt_length hw₁)
    obtain ⟨a, b, c, us, rfl⟩ := exists_three hnext
    show Reads _ _ (List.tail (a :: b :: c :: us ++ more))
    exact .grouped h (ih hw₁) h₁
  | array h hes ih =>
    obtain ⟨a, b, vs, rfl⟩ := exists_two (hes.lt_length hnext)
    exact .array h (ih hnext)
  | hash h hps h₁ ih =>
    have hw₁ := lt_length_of_tail hnext
    obtain ⟨a, b, vs, rfl⟩ := exists_two (hps.lt_length hw₁)
    obtain ⟨a, b, c, us, rfl⟩ := exists_three hnext
    show Reads _ _ (List.tail (a :: b :: c :: us ++ more))
    exact .hash h (ih hw₁) h₁
  | function h h₁ hps h₂ hb ihps ihb =>
    have hw₁ := hb.lt_length hnext
    obtain ⟨a, b, c, vs, rfl⟩ := exists_three (hps.lt_length (lt_length_of_tail hw₁))
    obtain ⟨a, b, c, us, rfl⟩ := exists_three hw₁
    exact .function h h₁ (ihps (lt_length_of_tail hw₁)) h₂ (ihb hnext)
  | conditional h hc hcs ihc ihcs =>
    have hw₁ := hcs.lt_length hnext
    obtain ⟨a, b, vs, rfl⟩ := exists_two (hc.lt_length hw₁)
    exact .conditional h (ihc hw₁) (ihcs hnext)
  | binary h hlt hr he ihr ihe =>
    have hw₁ := he.lt_length hnext
    obtain ⟨a, b, c, vs, rfl⟩ := exists_three (lt_length_of_tail (hr.lt_length hw₁))
    exact .binary h hlt (ihr hw₁) (ihe hnext)
  | call h hlt has he ihas ihe =>
    have hw₁ := he.lt_length hnext
    obtain ⟨a, b, c, vs, rfl⟩ := exists_three (has.lt_length hw₁)
    exact .call h hlt (ihas hw₁) (ihe hnext)
  | index h hlt hk h₁ he ihk ihe =>
    have hw₁ := he.lt_length hnext
    obtain ⟨a, b, c, vs, rfl⟩ :=
      exists_three (lt_length_of_tail (hk.lt_length (lt_length_of_tail hw₁)))
    obtain ⟨a, b, c, us, rfl⟩ := exists_three hw₁
    exact .index h hlt (ihk (lt_length_of_tail hw₁)) h₁ (ihe hnext)
  | expression hl he ihl ihe => exact .expression (ihl (he.lt_length hnext)) (ihe hnext)
  | moreItems h he hes ihe ihes =>
    have hw₁ := hes.lt_length hnext
    obtain ⟨a, b, c, vs, rfl⟩ := exists_three (lt_length_of_tail (he.lt_length hw₁))
    exact .moreItems h (ihe hw₁) (ihes hnext)
  | items h he hes h₂ ihe ihes =>
    have hw₂ := lt_length_of_tail hnext
    have hw₁ := hes.lt_length hw₂
    obtain ⟨a, b, c, vs, rfl⟩ := exists_three (he.lt_length hw₁)
    obtain ⟨a, b, c, us, rfl⟩ := exists_three hnext
    show Reads _ _ (List.tail (a :: b :: c :: us ++ more))
    exact .items h (ihe hw₁) (ihes hw₂) h₂
  | lastPair h hk h₁ hv h₂ ihk ihv =>
    have hw₁ := lt_length_of_tail (hv.lt_length hnext)
    obtain ⟨a, b, c, vs, rfl⟩ := exists_three (hk.lt_length (lt_length_of_tail hw₁))
    obtain ⟨a, b, c, us, rfl⟩ := exists_three hw₁
    obtain ⟨a, b, ts, rfl⟩ := exists_two hnext
    exact .lastPair h (ihk (lt_length_of_tail hw₁)) h₁ (ihv hnext) h₂
  | pair h hk h₁ hv h₂ hps ihk ihv ihps =>
    have hw₂ := hps.lt_length hnext
    have hw₁ := lt_length_of_tail (hv.lt_length (lt_length_of_tail hw₂))
    obtain ⟨a, b, c, vs, rfl⟩ := exists_three (hk.lt_length (lt_length_of_tail hw₁))
    obtain ⟨a, b, c, us, rfl⟩ := exists_three hw₁
    obtain ⟨a, b, c, ts, rfl⟩ := exists_three hw₂
    exact .pair h (ihk (lt_length_of_tail hw₁)) h₁ (ihv (lt_length_of_tail hw₂)) h₂ (ihps hnext)
  | variadic h h₁ =>
    obtain ⟨a, b, c, vs, rfl⟩ := exists_three hnext
    exact .variadic h (congrArg (· ++ more) h₁)
  | moreParams h hp hps ihp ihps =>
    have hw₁ := hps.lt_length hnext
    obtain ⟨a, b, c, vs, rfl⟩ := exists_three (lt_length_of_tail (hp.lt_length hw₁))
    exact .moreParams h (ihp hw₁) (ihps hnext)
  | params h hp hps h₂ ihp ihps =>
    have hw₂ := lt_length_of_tail hnext
    have hw₁ := hps.lt_length hw₂
    obtain ⟨a, b, c, vs, rfl⟩ := exists_three (hp.lt_length hw₁)
    obtain ⟨a, b, c, us, rfl⟩ := exists_three hnext
    show Reads _ _ (List.tail (a :: b :: c :: us ++ more))
    exact .params h (ihp hw₁) (ihps hw₂) h₂
  | clause h hc h₁ hb ihc ihb =>
    have hw₁ := lt_length_of_tail (hb.lt_length hnext)
    obtain ⟨a, b, c, vs, rfl⟩ :=
      exists_three (lt_length_of_tail (hc.lt_length (lt_length_of_tail hw₁)))
    obtain ⟨a, b, c, us, rfl⟩ := exists_three hw₁
    exact .clause h (ihc (lt_length_of_tail hw₁)) h₁ (ihb hnext)
  | elseIf h h₁ hc hcs ihc ihcs =>
    have hw₁ := hcs.lt_length hnext
    obtain ⟨a, b, c, vs, rfl⟩ := exists_three (lt_length_of_tail (hc.lt_length hw₁))
    exact .elseIf h h₁ (ihc hw₁) (ihcs hnext)
  | otherwise h h₁ hb ihb =>
    obtain ⟨a, b, c, vs, rfl⟩ := exists_three (lt_length_of_tail (hb.lt_length hnext))
    exact .otherwise h h₁ (ihb hnext)
  | braced h hb ih =>
    obtain ⟨a, b, vs, rfl⟩ := exists_two (hb.lt_length hnext)
    exact .braced h (ih hnext)
  | single h hs ih =>
    obtain ⟨a, b, vs, rfl⟩ := exists_two (hs.lt_length hnext)
    exact .single h (ih hnext)
  | block hb ih =>
    obtain ⟨a, b, c, vs, rfl⟩ := exists_three (hb.lt_length hnext)
    exact .block (ih hnext)
  | statements hs hb ihs ihb =>
    have hw₁ := hb.lt_length hnext
    obtain ⟨a, b, c, us, rfl⟩ := exists_three hw₁
    exact .statements (ihs (lt_length_of_tail hw₁)) (ihb hnext)
  | bind h h₁ h₂ he ih =>
    have hlast := lt_length_of_pastSemicolon hnext
    exact .bind_append h h₁ h₂ he (ih hlast) hlast
  | ret h he ih =>
    have hlast := lt_length_of_pastSemicolon hnext
    exact .ret_append h he (ih hlast) hlast
  | expr h he ih =>
    have hlast := lt_length_of_pastSemicolon hnext
    exact .expr_append h he (ih hlast) hlast
  | blockStatement h h₁ hb ih =>
    obtain ⟨a, b, vs, rfl⟩ := exists_two (hb.lt_length hnext)
    exact .blockStatement h h₁ (ih hnext)
  | loop h h₁ hi hc hs hb ihi ihc ihs ihb =>
    have hw₃ := hb.lt_length hnext
    have hw₂ := hs.lt_length (lt_length_of_tail hw₃)
    have hw₁ := hc.lt_length (lt_length_of_tail hw₂)
    obtain ⟨a, b, c, vs, rfl⟩ :=
      exists_three (lt_length_of_tail (hi.lt_length (lt_length_of_tail hw₁)))
    obtain ⟨a, b, c, us, rfl⟩ := exists_three hw₁
    obtain ⟨a, b, c, ts, rfl⟩ := exists_three hw₂
    obtain ⟨a, b, c, rs, rfl⟩ := exists_three hw₃
    exact .loop h h₁ (ihi (lt_length_of_tail hw₁)) (ihc (lt_length_of_tail hw₂))
      (ihs (lt_length_of_tail hw₃)) (ihb hnext)
  | init h hs h₁ ih =>
    obtain ⟨a, b, vs, rfl⟩ := exists_two (hs.lt_length hnext)
    obtain ⟨a, b, us, rfl⟩ := exists_two hnext
    exact .init h (ih hnext) h₁
  | loopClause h he h₁ ih =>
    have hw₁ := lt_length_of_tail hnext
    obtain ⟨a, b, vs, rfl⟩ := exists_two (he.lt_length hw₁)
    obtain ⟨a, b, c, us, rfl⟩ := exists_three hnext
    show Reads _ _ (List.tail (a :: b :: c :: us ++ more))
    exact .loopClause h (ih hw₁) h₁

end Scriptlet
