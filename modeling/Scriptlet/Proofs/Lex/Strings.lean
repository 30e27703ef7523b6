import Scriptlet.Proofs.Lex.Longest

/-!
# Proofs/Lex/Strings — a string ends at the first quote that no backslash takes along

`StandsFor` is what may be written between quotes and what it means, said without the reader: a
backslash takes the next character along, and the pair means one character if it is one of the short
escapes, and itself otherwise.  A token that begins with a quote is a string as far as the quote
that ends such a text.  A line feed must not be taken along: then, and where no quote ends the text,
the rest of the source is one illegal token, and the last one.  -/

namespace Scriptlet

namespace Text

/-! ## Between quotes

A backslash takes the character after it along, and a quote that is not taken along ends the body.
The one character that is not taken along is a line feed. -/

/-- The characters that a backslash gives another meaning, and what they mean. -/
def shortEscapes : List (Char × Char) :=
  [('t', '\t'), ('n', '\n'), ('r', '\r'), ('"', '"'), ('\\', '\\')]

/-- No quote stands in the body but behind a backslash that takes it along, and the body means the
text. -/
inductive StandsFor : (body text : List Char) → Prop
  | nil : StandsFor [] []
  | char {c : Char} {body text : List Char} : c ≠ '"' → c ≠ '\\' → StandsFor body text →
    StandsFor (c :: body) (c :: text)
  | short {c d : Char} {body text : List Char} : (c, d) ∈ shortEscapes → StandsFor body text →
    StandsFor ('\\' :: c :: body) (d :: text)
  | other {c : Char} {body text : List Char} : c ∉ shortEscapes.map Prod.fst →
    StandsFor body text → StandsFor ('\\' :: c :: body) ('\\' :: c :: text)

/-- The characters that backslashes take along. -/
def takenAlong : List Char → List Char
  | '\\' :: c :: body => c :: takenAlong body
  | _ :: body => takenAlong body
  | [] => []

variable {c d : Char} {body text rest : List Char}

/-! The lexer's own functions between quotes, in the words above. -/

/-- A character without a backslash in front of it is not taken along. -/
theorem takenAlong_of_ne (h : c ≠ '\\') : takenAlong (c :: body) = takenAlong body := by
  rw [takenAlong]
  simp_all

/-- A short escape means its character. -/
theorem escapeMeaning_short (h : (c, d) ∈ shortEscapes) : escapeMeaning c = [d] := by
  simp only [shortEscapes, List.mem_cons, Prod.mk.injEq, List.not_mem_nil, or_false] at h
  obtain ⟨rfl, rfl⟩ | ⟨rfl, rfl⟩ | ⟨rfl, rfl⟩ | ⟨rfl, rfl⟩ | ⟨rfl, rfl⟩ := h
  all_goals rfl

/-- Any other one means itself, backslash and all. -/
theorem escapeMeaning_other (h : c ∉ shortEscapes.map Prod.fst) : escapeMeaning c = ['\\', c] := by
  unfold escapeMeaning
  split
  all_goals first
    | rfl
    | exact absurd (by decide) h

/-- A character is a short escape or is none. -/
theorem StandsFor.pair (c : Char) (h : StandsFor body text) :
    StandsFor ('\\' :: c :: body) (escapeMeaning c ++ text) := by
  by_cases hc : c ∈ shortEscapes.map Prod.fst
  · obtain ⟨⟨c, d⟩, hd, rfl⟩ := List.mem_map.mp hc
    rw [escapeMeaning_short hd]
    exact .short hd h
  · rw [escapeMeaning_other hc]
    exact .other hc h

/-- **The closing quote is found**, unless a line feed is taken along before it. -/
theorem StandsFor.quotedBody_eq (h : StandsFor body text) (hfeed : '\n' ∉ takenAlong body)
    (after : List Char) : quotedBody (body ++ '"' :: after) = some body := by
  have hpair {c : Char} {body : List Char} (hfeed : '\n' ∉ takenAlong ('\\' :: c :: body))
      (ih : '\n' ∉ takenAlong body → quotedBody (body ++ '"' :: after) = some body) :
      quotedBody ('\\' :: c :: body ++ '"' :: after) = some ('\\' :: c :: body) := by
    have hc := List.ne_of_not_mem_cons hfeed
    rw [List.cons_append, List.cons_append, quotedBody, if_neg hc.symm,
      ih (List.not_mem_of_not_mem_cons hfeed), Option.map_some]
  induction h with
  | nil => rfl
  | char hquote hslash _ ih =>
    rw [takenAlong_of_ne hslash] at hfeed
    rw [List.cons_append, quotedBody_of_ne ⟨hquote, hslash⟩, ih hfeed, Option.map_some]
  | short _ _ ih => exact hpair hfeed ih
  | other _ _ ih => exact hpair hfeed ih

/-- **The body is read as what it means.** -/
theorem StandsFor.unescape_eq (h : StandsFor body text) : unescape body = text := by
  induction h with
  | nil => rfl
  | char _ hslash _ ih => rw [unescape_of_ne hslash, ih]
  | short hc _ ih => rw [unescape, escapeMeaning_short hc, ih, List.singleton_append]
  | other hc _ ih =>
    rw [unescape, escapeMeaning_other hc, ih, List.cons_append, List.singleton_append]

/-- What is found to be a body is one. -/
theorem standsFor_of_quotedBody (h : quotedBody rest = some body) :
    StandsFor body (unescape body) ∧ '\n' ∉ takenAlong body := by
  fun_induction quotedBody rest generalizing body with
  | case1 | case3 | case4 => cases h
  | case2 rest =>
    cases h
    exact ⟨.nil, List.not_mem_nil⟩
  | case5 c rest hc ih =>
    obtain ⟨b, hb, rfl⟩ := Option.map_eq_some_iff.mp h
    obtain ⟨hstands, hfeed⟩ := ih hb
    rw [unescape]
    exact ⟨hstands.pair c, List.not_mem_cons_of_ne_of_not_mem (Ne.symm hc) hfeed⟩
  | case6 c rest hquote hlast hescape ih =>
    obtain ⟨b, hb, rfl⟩ := Option.map_eq_some_iff.mp h
    obtain ⟨hstands, hfeed⟩ := ih hb
    have hslash : c ≠ '\\' := by
      rintro rfl
      cases rest with
      | nil => exact hlast rfl rfl
      | cons d rest => exact hescape d rest rfl rfl
    rw [unescape_of_ne hslash, takenAlong_of_ne hslash]
    exact ⟨.char hquote hslash hstands, hfeed⟩

end Text

open Text

/-! ## Tokens

A token that begins with a quote ends at the first closing quote there is or, if there is none, is
illegal up to the end of the source. -/

section

variable {source : String} {t : Token} {body text rest after : List Char}

/-- With a quote that closes, the token goes up to it. -/
theorem lexeme_closed (h : quotedBody rest = some body) :
    lexeme '"' rest = ⟨.string, '"' :: body ++ ['"']⟩ := by
  rw [lexeme, if_neg (by decide), if_neg (by decide), if_pos rfl, h]

theorem lexeme_unclosed (h : quotedBody rest = none) :
    lexeme '"' rest = ⟨.illegal, '"' :: rest⟩ := by
  rw [lexeme, if_neg (by decide), if_neg (by decide), if_pos rfl, h]

/-- A token that begins with a quote. -/
theorem lexedAt_quote (ht : t ∈ tokenize source) (hquote : t.ahead source = '"' :: rest) :
    LexedAt source t '"' rest := by
  obtain ⟨c, rest', h⟩ := exists_lexedAt ht
  obtain ⟨rfl, rfl⟩ := List.cons.inj (h.ahead.symm.trans hquote)
  exact h

/-- **A string that is closed** is one token with what it means. -/
theorem LexedAt.of_closed (h : LexedAt source t '"' rest) (hrest : rest = body ++ '"' :: after)
    (hbody : StandsFor body text) (hfeed : '\n' ∉ takenAlong body) :
    t.kind = .string ∧ t.literal = String.ofList text ∧
      (t.span.textIn source).toList = '"' :: body ++ ['"'] := by
  have hclosed : quotedBody rest = some body := hrest ▸ hbody.quotedBody_eq hfeed after
  have hlexeme := lexeme_closed hclosed
  refine ⟨by rw [h.kind, hlexeme], ?_, by rw [h.text, hlexeme]⟩
  rw [h.literal, hlexeme]
  show String.ofList (unescape (body ++ ['"']).dropLast) = _
  rw [List.dropLast_concat, hbody.unescape_eq]

/-- **A string that is not** is the last token, and illegal. -/
theorem LexedAt.of_unclosed (h : LexedAt source t '"' rest) (hrest : quotedBody rest = none) :
    t.kind = .illegal ∧ t.literal = String.ofList ('"' :: rest) ∧
      t.span.stop = source.utf8ByteSize ∧ ∃ ts, tokenize source = ts ++ [t] := by
  have hlexeme := lexeme_unclosed hrest
  refine ⟨by rw [h.kind, hlexeme], by rw [h.literal, hlexeme]; rfl, h.last ?_⟩
  rw [hlexeme]

end

/-- **A string is illegal only if it is not closed, or takes a line feed along.**  At a token that
begins with a quote, let a body follow up to another quote.  If no line feed is taken along in it,
the token is the string that ends there and means what the body does.  If there is no such body, or
one that takes a line feed along, the token is illegal, goes on to the end of the source, and has
nothing behind it but the end of input. -/
theorem string_closed_or_illegal (source : String) {t : Token} (ht : t ∈ tokenize source)
    {rest : List Char} (hquote : t.ahead source = '"' :: rest) :
    (∀ body text after, rest = body ++ '"' :: after → StandsFor body text →
      '\n' ∉ takenAlong body →
        t.kind = .string ∧ t.literal = String.ofList text ∧
          (t.span.textIn source).toList = '"' :: body ++ ['"']) ∧
    ((∀ body text after, rest = body ++ '"' :: after → StandsFor body text →
      '\n' ∈ takenAlong body) →
        t.kind = .illegal ∧ t.literal = String.ofList ('"' :: rest) ∧
          t.span.stop = source.utf8ByteSize ∧
          ∃ ts, ∀ n, (TokenStream.ofSource source).take (ts.length + 1 + n) =
            ts ++ t :: List.replicate n (.endAt source.utf8ByteSize)) := by
  have h := lexedAt_quote ht hquote
  refine ⟨fun body text after hrest hbody hfeed => h.of_closed hrest hbody hfeed, fun hopen => ?_⟩
  have hunclosed : quotedBody rest = none := by
    refine Option.eq_none_iff_forall_ne_some.mpr fun body hbody => ?_
    obtain ⟨after, hrest⟩ := quotedBody_prefix hbody
    rw [List.append_assoc] at hrest
    obtain ⟨hstands, hfeed⟩ := standsFor_of_quotedBody hbody
    exact hfeed (hopen body _ after hrest.symm hstands)
  obtain ⟨hkind, hliteral, hstop, ts, hts⟩ := h.of_unclosed hunclosed
  refine ⟨hkind, hliteral, hstop, ts, fun n => ?_⟩
  have hstream := TokenStream.take_past_end (tokenize source) (.endAt source.utf8ByteSize) n
  rwa [hts, List.length_append, List.length_singleton, List.append_assoc,
    List.singleton_append, ← hts] at hstream

/-- A quote that is taken along does not end the string, and behind the string one is not closed. -/
theorem string_closed_or_illegal_in_turn :
    (∃ t ∈ tokenize "\"a\\\"\\q\"\"b",
      t.ahead "\"a\\\"\\q\"\"b" = ['"', 'a', '\\', '"', '\\', 'q', '"', '"', 'b'] ∧
        StandsFor ['a', '\\', '"', '\\', 'q'] ['a', '"', '\\', 'q'] ∧
          t.kind = .string ∧ t.literal = String.ofList ['a', '"', '\\', 'q']) ∧
      ∃ t ∈ tokenize "\"a\\\"\\q\"\"b", t.ahead "\"a\\\"\\q\"\"b" = ['"', 'b'] ∧
        t.kind = .illegal ∧ t.literal = String.ofList ['"', 'b'] := by
  have hstands : StandsFor ['a', '\\', '"', '\\', 'q'] ['a', '"', '\\', 'q'] :=
    .char (by decide) (by decide) (.short (by decide) (.other (by decide) .nil))
  have hstring : (⟨.string, "a\"\\q", ⟨0, 7⟩⟩ : Token) ∈ tokenize "\"a\\\"\\q\"\"b" := by
    decide +kernel
  have hillegal : (⟨.illegal, "\"b", ⟨7, 9⟩⟩ : Token) ∈ tokenize "\"a\\\"\\q\"\"b" := by
    decide +kernel
  obtain ⟨hclosed, -⟩ := string_closed_or_illegal _ hstring rfl
  obtain ⟨hkind, hliteral, -⟩ := hclosed _ _ ['"', 'b'] rfl hstands (by decide)
  have hquote : (⟨.illegal, "\"b", ⟨7, 9⟩⟩ : Token).ahead "\"a\\\"\\q\"\"b" = '"' :: ['b'] := rfl
  obtain ⟨-, hopen⟩ := string_closed_or_illegal _ hillegal hquote
  obtain ⟨hkind', hliteral', -⟩ := hopen fun body text after hrest _ =>
    absurd (hrest ▸ List.mem_append_right body List.mem_cons_self : '"' ∈ ['b']) (by decide)
  exact ⟨⟨_, hstring, rfl, hstands, hkind, hliteral⟩, _, hillegal, hquote, hkind', hliteral'⟩

/-- A string that takes a line feed along is closed, and is illegal all the same. -/
theorem closed_string_illegal : ¬ ∀ (source : String), ∀ t ∈ tokenize source, ∀ rest,
    t.ahead source = '"' :: rest → ∀ body text after, rest = body ++ '"' :: after →
      StandsFor body text → t.kind = .string := by
  intro h
  have hmem : (⟨.illegal, "\"a\\\nb\"", ⟨0, 6⟩⟩ : Token) ∈ tokenize "\"a\\\nb\"" := by
    decide +kernel
  have hstands : StandsFor ['a', '\\', '\n', 'b'] ['a', '\\', '\n', 'b'] :=
    .char (by decide) (by decide) (.other (by decide) (.char (by decide) (by decide) .nil))
  exact absurd (h _ _ hmem _ rfl _ _ [] rfl hstands) (by decide)

end Scriptlet
