import Scriptlet.Proofs.Lex.Words
import Scriptlet.Proofs.Text.Quoted

/-!
# Proofs/Lex/Append — the tokens of one text after another

A semicolon is a token of its own, whatever follows.  A text whose last token is one can therefore
be carried on: its tokens stay, and behind them come those of the other text, moved to where it
begins.  -/

namespace Scriptlet

open Text

/-! ## Places, moved

The second of two sources stands as many bytes further on as the first one has. -/

/-- The span, moved on by `k` bytes. -/
def Span.shift (k : Nat) (s : Span) : Span := ⟨k + s.start, k + s.stop⟩

/-- The token, moved on by `k` bytes. -/
def Token.shift (k : Nat) (t : Token) : Token := { t with span := t.span.shift k }

@[simp] theorem Token.word_shift (k : Nat) (t : Token) : (t.shift k).word = t.word := rfl

/-- A lexeme further on is the token moved on. -/
theorem Lexeme.token_add (l : Lexeme) (k start : Nat) :
    l.token (k + start) = (l.token start).shift k := by
  unfold Lexeme.token Token.shift Span.shift
  rw [Nat.add_assoc]

/-- What is no blank begins a lexeme, and the tokens behind it are those of the text behind it. -/
theorem tokensFrom_cons {start : Nat} {c : Char} {rest : List Char} (h : isBlank c = false) :
    tokensFrom start (c :: rest) = (lexeme c rest).token start ::
      tokensFrom (start + byteLength (lexeme c rest).text)
        ((c :: rest).drop (lexeme c rest).text.length) := by
  rw [tokensFrom, if_neg (Bool.eq_false_iff.mp h)]

/-- **The tokens of a text move with it.** -/
theorem tokensFrom_add (k start : Nat) (cs : List Char) :
    tokensFrom (k + start) cs = (tokensFrom start cs).map (Token.shift k) := by
  fun_induction tokensFrom start cs with
  | case1 start => rw [tokensFrom, List.map_nil]
  | case2 start c rest hblank ih => rw [tokensFrom, if_pos hblank, Nat.add_assoc, ih]
  | case3 start c rest hblank l ih =>
    rw [tokensFrom_cons (Bool.eq_false_iff.mpr hblank), List.map_cons, ← ih, Lexeme.token_add,
      Nat.add_assoc]

/-! ## Bytes

Spans count bytes, and texts are lists of characters, so the two have to be told from each other. -/

/-- Bytes add up over characters. -/
theorem byteLength_append (cs ds : List Char) :
    byteLength (cs ++ ds) = byteLength cs + byteLength ds := by
  induction cs with
  | nil => exact (Nat.zero_add _).symm
  | cons c cs ih =>
    show c.utf8Size + byteLength (cs ++ ds) = c.utf8Size + byteLength cs + byteLength ds
    rw [ih, Nat.add_assoc]

theorem byteLength_ofList (cs : List Char) : byteLength cs = (String.ofList cs).utf8ByteSize := by
  induction cs with
  | nil => rfl
  | cons c cs ih =>
    have hcons : String.ofList (c :: cs) = String.singleton c ++ String.ofList cs := by
      rw [String.singleton_eq_ofList, ← String.ofList_append, List.singleton_append]
    rw [hcons, String.utf8ByteSize_append, String.utf8ByteSize_singleton, ← ih]
    rfl

/-- The bytes of a text are counted over its characters in the same way. -/
theorem byteLength_toList (s : String) : byteLength s.toList = s.utf8ByteSize := by
  rw [byteLength_ofList, String.ofList_toList]

/-! ## One lexeme

What is behind a lexeme is asked only whether it carries the lexeme on.  A semicolon is carried on
by nothing, so a source that ends with one is lexed as it would be alone. -/

variable {c : Char} {rest more body : List Char}

/-- What is between the quotes stands in the text, with a quote behind it. -/
theorem quotedBody_prefix (h : quotedBody rest = some body) : body ++ ['"'] <+: rest := by
  fun_induction quotedBody rest generalizing body with
  | case1 | case3 | case4 => cases h
  | case2 rest =>
    cases h
    exact List.prefix_append _ _
  | case5 c rest hc ih =>
    obtain ⟨b, hb, rfl⟩ := Option.map_eq_some_iff.mp h
    rw [List.cons_append, List.cons_append, List.prefix_cons_inj, List.prefix_cons_inj]
    exact ih hb
  | case6 c rest _ _ _ ih =>
    obtain ⟨b, hb, rfl⟩ := Option.map_eq_some_iff.mp h
    rw [List.cons_append, List.prefix_cons_inj]
    exact ih hb

/-- The body of a quoted text is found again whatever follows its closing quote. -/
theorem quotedBody_closed (h : quotedBody rest = some body) (more : List Char) :
    quotedBody (body ++ '"' :: more) = some body := by
  fun_induction quotedBody rest generalizing body with
  | case1 | case3 | case4 => cases h
  | case2 rest =>
    cases h
    rfl
  | case5 c rest hc ih =>
    obtain ⟨b, hb, rfl⟩ := Option.map_eq_some_iff.mp h
    rw [List.cons_append, List.cons_append, quotedBody, if_neg hc, ih hb, Option.map_some]
  | case6 c rest hquote hlast hescape ih =>
    obtain ⟨b, hb, rfl⟩ := Option.map_eq_some_iff.mp h
    have hslash : c ≠ '\\' := by
      rintro rfl
      cases rest with
      | nil => exact hlast rfl rfl
      | cons d rest => exact hescape d rest rfl rfl
    rw [List.cons_append, quotedBody_of_ne ⟨hquote, hslash⟩, ih hb, Option.map_some]

/-- The first quote that closes is found in a longer text too. -/
theorem quotedBody_append (h : quotedBody rest = some body) :
    quotedBody (rest ++ more) = some body := by
  obtain ⟨after, rfl⟩ := quotedBody_prefix h
  rw [List.append_assoc, List.append_assoc]
  exact quotedBody_closed h (after ++ more)

/-! The text of a lexeme is the front of what was read, so nothing is looked up twice when it is
dropped. -/

theorem symbol_text_prefix (c : Char) (rest : List Char) : (symbol c rest).text <+: c :: rest := by
  unfold symbol
  split <;> simp

theorem symbol_text_ne_nil (c : Char) (rest : List Char) : (symbol c rest).text ≠ [] := by
  unfold symbol
  split <;> nofun

theorem lexeme_text_prefix (c : Char) (rest : List Char) : (lexeme c rest).text <+: c :: rest := by
  unfold lexeme
  split
  · exact List.prefix_cons_inj c |>.mpr (List.takeWhile_prefix _)
  split
  · exact List.prefix_cons_inj c |>.mpr (List.takeWhile_prefix _)
  split
  · next hc =>
    split
    · next body hbody =>
      rw [hc, List.cons_append, List.prefix_cons_inj]
      exact quotedBody_prefix hbody
    · exact List.prefix_refl _
  · exact symbol_text_prefix c rest

/-- Looking two characters ahead does not go past a semicolon. -/
theorem symbol_append (h : ';' ∈ rest) : symbol c (rest ++ more) = symbol c rest := by
  match rest, h with
  | [x], h =>
    obtain rfl : ';' = x := List.mem_singleton.mp h
    unfold symbol
    split <;> first | rfl | (split <;> simp_all)
  | x :: y :: rest, _ =>
    unfold symbol
    split <;> first | rfl | (split <;> simp_all)

/-- A run that ends inside a text ends there whatever follows the text. -/
theorem takeWhile_append_of_drop {p : Char → Bool}
    (h : rest.drop (rest.takeWhile p).length ≠ []) :
    (rest ++ more).takeWhile p = rest.takeWhile p := by
  rw [List.takeWhile_append, if_neg]
  rintro hlen
  exact h (by rw [hlen, List.drop_length])

/-- **A lexeme with a semicolon behind it is the same whatever follows.** -/
theorem lexeme_append (h : ';' ∈ (c :: rest).drop (lexeme c rest).text.length) :
    lexeme c (rest ++ more) = lexeme c rest := by
  revert h
  unfold lexeme
  split
  · intro h
    rw [takeWhile_append_of_drop (List.ne_nil_of_mem h)]
  split
  · intro h
    rw [takeWhile_append_of_drop (List.ne_nil_of_mem h)]
  split
  · rcases hbody : quotedBody rest with _ | body
    · -- an open string leaves nothing behind it
      intro h
      rw [List.drop_length] at h
      cases h
    · intro _
      rw [quotedBody_append hbody]
  · intro h
    obtain ⟨d, text, htext⟩ := List.exists_cons_of_ne_nil (symbol_text_ne_nil c rest)
    rw [htext, List.length_cons, List.drop_succ_cons] at h
    exact symbol_append (List.mem_of_mem_drop h)

theorem ofWord_ne_semicolon (word : String) : TokenKind.ofWord word ≠ .semicolon := by
  unfold TokenKind.ofWord
  split <;> decide

/-- A semicolon token is read from the character that it is. -/
theorem eq_semicolon_of_kind (h : (lexeme c rest).kind = .semicolon) : c = ';' := by
  revert h
  unfold lexeme
  split
  · intro h
    exact absurd h (ofWord_ne_semicolon _)
  split
  · nofun
  split
  · split <;> nofun
  · unfold symbol
    split <;> simp

/-! ## One text after another

By the recursion of the lexer on the first text. -/

/-- Where a semicolon token is, there is a semicolon in the text. -/
theorem semicolon_mem {start : Nat} {cs : List Char} {t : Token} (ht : t ∈ tokensFrom start cs)
    (hkind : t.kind = .semicolon) : ';' ∈ cs := by
  fun_induction tokensFrom start cs with
  | case1 => cases ht
  | case2 start c rest hblank ih => exact List.mem_cons_of_mem _ (ih ht)
  | case3 start c rest hblank l ih =>
    rcases List.mem_cons.mp ht with rfl | ht
    · exact eq_semicolon_of_kind hkind ▸ List.mem_cons_self
    · exact List.mem_of_mem_drop (ih ht)

/-- The last token, if there is one, is a semicolon. -/
def EndsInSemicolon (ts : List Token) : Prop := ∀ t ∈ ts.getLast?, t.kind = .semicolon

instance (ts : List Token) : Decidable (EndsInSemicolon ts) :=
  inferInstanceAs (Decidable (∀ t ∈ ts.getLast?, t.kind = .semicolon))

/-- The last token of all is the last one of those behind the first. -/
theorem EndsInSemicolon.tail {t : Token} {ts : List Token} (h : EndsInSemicolon (t :: ts)) :
    EndsInSemicolon ts := by
  intro u hu
  cases ts with
  | nil => cases hu
  | cons v ts => exact h u hu

/-- By the recursion of the lexer.  Behind each lexeme but the last there is a semicolon still to
come, so it is read in the longer text as before. -/
theorem tokensFrom_append {start : Nat} {cs : List Char}
    (h : EndsInSemicolon (tokensFrom start cs)) (more : List Char) :
    tokensFrom start (cs ++ more) =
      tokensFrom start cs ++ tokensFrom (start + byteLength cs) more := by
  -- Along the recursion of the lexer.  The only lexeme that could be carried on is the last one,
  -- and that is a semicolon.
  fun_induction tokensFrom start cs with
  | case1 start => rfl
  | case2 start c rest hblank ih =>
    rw [List.cons_append, tokensFrom, if_pos hblank, ih h, Nat.add_assoc]
    rfl
  | case3 start c rest hblank l ih =>
    have hsame : lexeme c (rest ++ more) = l := by
      rcases hts : tokensFrom (start + byteLength l.text) ((c :: rest).drop l.text.length) with
        _ | ⟨u, us⟩
      · rw [hts] at h
        have hkind : (lexeme c rest).kind = .semicolon := h _ rfl
        obtain rfl := eq_semicolon_of_kind hkind
        rfl
      · have hlast : (u :: us).getLast (List.cons_ne_nil u us) ∈
            tokensFrom (start + byteLength l.text) ((c :: rest).drop l.text.length) := by
          rw [hts]
          exact List.getLast_mem _
        refine lexeme_append (semicolon_mem hlast (h.tail _ ?_))
        rw [hts]
        exact List.getLast?_eq_some_getLast _
    have hprefix : l.text <+: c :: rest := lexeme_text_prefix c rest
    have hdrop : (c :: (rest ++ more)).drop l.text.length =
        (c :: rest).drop l.text.length ++ more := by
      rw [← List.cons_append]
      exact List.drop_append_of_le_length hprefix.length_le
    have hbytes : byteLength (c :: rest) =
        byteLength l.text + byteLength ((c :: rest).drop l.text.length) := by
      rw [← byteLength_append]
      exact congrArg byteLength (List.prefix_iff_eq_append.mp hprefix).symm
    rw [List.cons_append, tokensFrom_cons (Bool.eq_false_iff.mpr hblank), hsame, hdrop, hbytes,
      ← Nat.add_assoc, ih h.tail, List.cons_append]

/-- **The tokens of one text after another**, the first of which ends in a semicolon. -/
theorem tokenize_append {s : String} (h : EndsInSemicolon (tokenize s)) (t : String) :
    tokenize (s ++ t) = tokenize s ++ (tokenize t).map (Token.shift s.utf8ByteSize) := by
  unfold tokenize
  rw [String.toList_append, tokensFrom_append h, Nat.zero_add, byteLength_toList, ← tokensFrom_add,
    Nat.add_zero]

end Scriptlet
