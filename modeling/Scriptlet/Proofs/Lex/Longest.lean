import Scriptlet.Proofs.Lex.Pieces
import Scriptlet.Proofs.Lex.Tiling

/-!
# Proofs/Lex/Longest — a token is the longest one at its place

What a token is depends on the text from its start on, and not on what is before it.  A word or a
number goes on as long as there are characters for it; of the operators and delimiters that the text
begins with, the token is the longest; and where nothing begins, one character is illegal.
-/

namespace Scriptlet

open Text

/-! ## Places of tokens

Cutting the text off in front of a token changes nothing about the token, since the lexer keeps no
state from one token to the next. -/

/-- The text of the source from the start of the token on. -/
def Token.ahead (t : Token) (source : String) : List Char :=
  ((⟨t.span.start, source.utf8ByteSize⟩ : Span).textIn source).toList

/-- The token is the lexeme that `c :: rest`, the source from its start on, begins with; if nothing
is behind it, it is the last token. -/
structure LexedAt (source : String) (t : Token) (c : Char) (rest : List Char) : Prop where
  ahead : t.ahead source = c :: rest
  notBlank : isBlank c = false
  kind : t.kind = (lexeme c rest).kind
  literal : t.literal = (lexeme c rest).literal
  text : (t.span.textIn source).toList = (lexeme c rest).text
  last : (lexeme c rest).text = c :: rest →
    t.span.stop = source.utf8ByteSize ∧ ∃ ts, tokenize source = ts ++ [t]

section

variable {source : String} {before cs rest : List Char} {c : Char} {ts us vs : List Token}
  {t : Token}

/-- Each token of a cut is the lexeme at its place, and the cut goes on behind it. -/
theorem Cut.split (h : Cut (byteLength before) cs ts) (hsource : source.toList = before ++ cs)
    (hts : ts = us ++ t :: vs) : ∃ before' c rest, source.toList = before' ++ c :: rest ∧
      isBlank c = false ∧ t = (lexeme c rest).token (byteLength before') ∧
      Cut (byteLength before' + byteLength (lexeme c rest).text)
        ((c :: rest).drop (lexeme c rest).text.length) vs := by
  -- on the cut; each gap and lexeme that is passed goes over to `before`
  generalize hplace : byteLength before = place at h
  induction h generalizing before us with
  | nil => exact absurd hts.symm (List.append_ne_nil_of_right_ne_nil us (List.cons_ne_nil t vs))
  | @cons _ gap c rest ts hgap hc hrest ih =>
    subst hplace
    cases us with
    | nil =>
      obtain ⟨rfl, rfl⟩ := List.cons.inj hts
      rw [← byteLength_append] at hrest ⊢
      exact ⟨before ++ gap, c, rest, by rw [List.append_assoc, hsource], hc, rfl, hrest⟩
    | cons u us =>
      obtain ⟨-, hts⟩ := List.cons.inj hts
      refine ih (split_source hsource) hts ?_
      rw [byteLength_append, byteLength_append]

/-- The bytes of a source are those in front of a place and those behind it. -/
theorem utf8ByteSize_of_split (h : source.toList = before ++ cs) :
    source.utf8ByteSize = byteLength before + byteLength cs := by
  rw [← byteLength_toList, h, byteLength_append]

/-- **A token is the lexeme at the front of the text from its start on.** -/
theorem exists_lexedAt (ht : t ∈ tokenize source) : ∃ c rest, LexedAt source t c rest := by
  obtain ⟨us, vs, hts⟩ := List.append_of_mem ht
  have hcut : Cut (byteLength []) source.toList (tokenize source) := .of_tokensFrom 0 source.toList
  obtain ⟨before, c, rest, hsource, hc, rfl, hrest⟩ := hcut.split rfl hts
  have hsplit : source.toList = before ++ (lexeme c rest).text ++
      (c :: rest).drop (lexeme c rest).text.length := by
    rw [List.append_assoc, ← Cut.split_lexeme, hsource]
  refine ⟨c, rest, ⟨?_, hc, rfl, rfl, ?_, fun hall => ?_⟩⟩
  · have hwhole : source.toList = before ++ (c :: rest) ++ [] := by rw [List.append_nil, hsource]
    show ((⟨byteLength before, source.utf8ByteSize⟩ : Span).textIn source).toList = _
    rw [utf8ByteSize_of_split hsource, textIn_eq hwhole, String.toList_ofList]
  · rw [textIn_token hsplit, String.toList_ofList]
  · rw [hall, List.drop_length] at hrest
    obtain rfl : vs = [] := List.length_eq_zero_iff.mp (Nat.le_zero.mp hrest.length_le)
    refine ⟨?_, us, hts⟩
    rw [utf8ByteSize_of_split hsource]
    show byteLength before + byteLength (lexeme c rest).text = _
    rw [hall]

end

/-! ## What stands at a place

These say which tokens there are without the lexer: runs of characters as long as they can be, the
reserved words, and the operators and delimiters as they are written. -/

/-- The text is the longest one at the front of `rest` that consists of such characters. -/
structure LongestRun (p : Char → Bool) (text rest : List Char) : Prop where
  front : text <+: rest
  all : ∀ c ∈ text, p c
  longest : ∀ other, other <+: rest → (∀ c ∈ other, p c) → other.length ≤ text.length

/-- The reserved words. -/
def keywords : List (String × TokenKind) :=
  [("fn", .functionWord), ("let", .letWord), ("true", .trueWord), ("false", .falseWord),
    ("if", .ifWord), ("else", .elseWord), ("return", .returnWord), ("for", .forWord)]

/-- The kind is that of a reserved word, or the word is an identifier and is not reserved. -/
def KindOfWord (word : String) (kind : TokenKind) : Prop :=
  (word, kind) ∈ keywords ∨ kind = .identifier ∧ word ∉ keywords.map Prod.fst

/-- The operators and delimiters as they are written. -/
def signs : List (List Char × TokenKind) :=
  [(['=', '='], .equal), (['!', '='], .notEqual), (['.', '.', '.'], .ellipsis), (['='], .assign),
    (['!'], .bang), (['+'], .plus), (['-'], .minus), (['*'], .asterisk), (['/'], .slash),
    (['<'], .less), (['>'], .greater), ([','], .comma), ([';'], .semicolon), ([':'], .colon),
    (['('], .leftParen), ([')'], .rightParen), (['{'], .leftBrace), (['}'], .rightBrace),
    (['['], .leftBracket), ([']'], .rightBracket)]

/-- The token of this kind and text is the longest one that `rest` begins with.  Strings, which end
by a character of their own, are left to their own laws. -/
structure LongestMatch (rest : List Char) (kind : TokenKind) (text : List Char) : Prop where
  front : text <+: rest
  /-- A token does not begin with a blank, and there is one of the cases below or a quote. -/
  starts : ∃ c ∈ rest.head?, isBlank c = false
  word : ∀ c ∈ rest.head?, isWordChar c →
    LongestRun isWordChar text rest ∧ KindOfWord (String.ofList text) kind
  number : ∀ c ∈ rest.head?, c.isDigit → LongestRun Char.isDigit text rest ∧ kind = .integer
  /-- A sign that `rest` begins with, and no longer one. -/
  sign : ∀ p ∈ signs, p.1 <+: rest → (∀ q ∈ signs, q.1 <+: rest → q.1.length ≤ p.1.length) →
    text = p.1 ∧ kind = p.2
  illegal : ∀ c ∈ rest.head?, isWordChar c = false → c.isDigit = false → c ≠ '"' →
    (∀ p ∈ signs, ¬ p.1 <+: rest) → text = [c] ∧ kind = .illegal

section

variable {p : Char → Bool} {c : Char} {rest : List Char}

/-- The characters up to the first one that is none of them are the longest run. -/
theorem longestRun_takeWhile (p : Char → Bool) (rest : List Char) :
    LongestRun p (rest.takeWhile p) rest where
  front := List.takeWhile_prefix p
  all := List.all_eq_true.mp List.all_takeWhile
  longest other hother hall := by
    obtain ⟨after, rfl⟩ := hother
    rw [List.takeWhile_append_of_pos hall, List.length_append]
    exact Nat.le_add_right _ _

/-- The lexer's table of words is the one here. -/
theorem kindOfWord_ofWord (word : String) : KindOfWord word (TokenKind.ofWord word) := by
  unfold KindOfWord TokenKind.ofWord
  split
  all_goals simp_all [keywords]

/-- **A word is the longest run of word characters**, whatever kind it is. -/
theorem lexeme_word (hc : isWordChar c) : LongestRun isWordChar (lexeme c rest).text (c :: rest) ∧
    KindOfWord (String.ofList (lexeme c rest).text) (lexeme c rest).kind := by
  rw [lexeme, if_pos hc, ← List.takeWhile_cons_of_pos hc]
  exact ⟨longestRun_takeWhile isWordChar (c :: rest), kindOfWord_ofWord _⟩

/-- **A number is the longest run of digits.** -/
theorem lexeme_number (hc : c.isDigit) :
    LongestRun Char.isDigit (lexeme c rest).text (c :: rest) ∧
      (lexeme c rest).kind = .integer := by
  rw [lexeme, if_neg (Bool.eq_false_iff.mp (not_wordChar_of_digit hc)), if_pos hc,
    ← List.takeWhile_cons_of_pos hc]
  exact ⟨longestRun_takeWhile Char.isDigit (c :: rest), rfl⟩

/-- A sign that an equals sign would carry on, and none is behind it. -/
theorem lexeme_single (hc : c = '=' ∨ c = '!') (hrest : ∀ d ∈ rest.head?, d ≠ '=') :
    lexeme c rest = lexeme c [] := by
  obtain rfl | rfl := hc
  all_goals
    rw [lexeme_symbol rest rfl rfl (by decide), lexeme_symbol [] rfl rfl (by decide)]
    unfold symbol
    split <;> simp_all

/-- **The longest sign is the lexeme.** -/
theorem lexeme_sign {sign : List Char × TokenKind} (hsign : sign ∈ signs)
    (hfront : sign.1 <+: c :: rest)
    (hlongest : ∀ q ∈ signs, q.1 <+: c :: rest → q.1.length ≤ sign.1.length) :
    lexeme c rest = ⟨sign.2, sign.1⟩ := by
  -- an equals sign behind it makes a longer sign
  have hnext : sign.1.length = 1 → ['=', '='] <+: c :: rest ∨ ['!', '='] <+: c :: rest → False := by
    intro hlength hlonger
    obtain h | h := hlonger
    · have hle : 2 ≤ sign.1.length := hlongest (['=', '='], .equal) (by decide) h
      omega
    · have hle : 2 ≤ sign.1.length := hlongest (['!', '='], .notEqual) (by decide) h
      omega
  clear hlongest
  simp only [signs, List.mem_cons, List.not_mem_nil, or_false] at hsign
  rcases hsign with rfl | rfl | rfl | rfl | rfl | rfl | rfl | rfl | rfl | rfl | rfl | rfl | rfl |
    rfl | rfl | rfl | rfl | rfl | rfl | rfl
  all_goals
    obtain ⟨after, hafter⟩ := hfront
    cases hafter
  all_goals try rfl
  · refine (lexeme_single (.inl rfl) fun d hd heq => hnext rfl (.inl ?_)).trans rfl
    obtain ⟨after, rfl⟩ := List.head?_eq_some_iff.mp hd
    exact heq ▸ List.prefix_append ['=', '='] after
  · refine (lexeme_single (.inr rfl) fun d hd heq => hnext rfl (.inr ?_)).trans rfl
    obtain ⟨after, rfl⟩ := List.head?_eq_some_iff.mp hd
    exact heq ▸ List.prefix_append ['!', '='] after

/-- What is read where no word, number or string begins is a sign, or a character by itself. -/
theorem symbol_cases (c : Char) (rest : List Char) : symbol c rest = ⟨.illegal, [c]⟩ ∨
    ((symbol c rest).text, (symbol c rest).kind) ∈ signs := by
  unfold symbol
  split
  all_goals first
    | exact .inl rfl
    | exact .inr (by decide)

/-- Where no word, number, string or sign begins there is one illegal character. -/
theorem lexeme_illegal (hword : isWordChar c = false) (hdigit : c.isDigit = false)
    (hquote : c ≠ '"') (hnone : ∀ p ∈ signs, ¬ p.1 <+: c :: rest) :
    lexeme c rest = ⟨.illegal, [c]⟩ := by
  rw [lexeme_symbol rest hword hdigit hquote]
  obtain hillegal | hsign := symbol_cases c rest
  · exact hillegal
  · have hfront := symbol_text_prefix c rest
    exact absurd hfront (hnone _ hsign)

/-- What begins with a character that is no blank is the longest match there. -/
theorem lexeme_longest (hc : isBlank c = false) :
    LongestMatch (c :: rest) (lexeme c rest).kind (lexeme c rest).text where
  front := lexeme_text_prefix c rest
  starts := ⟨c, rfl, hc⟩
  word := by
    rintro _ ⟨⟩ hc
    exact lexeme_word hc
  number := by
    rintro _ ⟨⟩ hc
    exact lexeme_number hc
  sign p hp hfront hlongest := by
    rw [lexeme_sign hp hfront hlongest]
    exact ⟨rfl, rfl⟩
  illegal := by
    rintro _ ⟨⟩ hword hdigit hquote hnone
    rw [lexeme_illegal hword hdigit hquote hnone]
    exact ⟨rfl, rfl⟩

end

/-- What the literal is, but for strings. -/
theorem literal_of_ne_string {source : String} {t : Token} (ht : t ∈ tokenize source)
    (hkind : t.kind ≠ .string) : t.literal = t.span.textIn source := by
  have hliteral := (tiles_tokenize source).literal t ht
  rwa [Token.LiteralOf, if_neg hkind] at hliteral

/-- **Every token is the longest match at its place.**  A word is the whole run of letters and
underscores, of the kind of a reserved word if it is one, and a number the whole run of digits; an
operator or delimiter is the longest that the text begins with; a character that begins nothing is
illegal.  But for strings, the literal is the text. -/
theorem tokenize_longest (source : String) : ∀ t ∈ tokenize source,
    LongestMatch (t.ahead source) t.kind (t.span.textIn source).toList ∧
      (t.kind ≠ .string → t.literal = t.span.textIn source) := by
  intro t ht
  obtain ⟨c, rest, h⟩ := exists_lexedAt ht
  refine ⟨?_, literal_of_ne_string ht⟩
  rw [h.ahead, h.kind, h.text]
  exact lexeme_longest h.notBlank

/-- Behind a word that begins like a reserved one, two signs share their equals signs out: the first
takes one of them, and the second the other two. -/
theorem tokenize_longest_not_equal :
    (⟨.notEqual, "!=", ⟨4, 6⟩⟩ : Token) ∈ tokenize "iffy!===1" ∧
      LongestMatch ['!', '=', '=', '=', '1'] .notEqual ['!', '='] := by
  have hmem : (⟨.notEqual, "!=", ⟨4, 6⟩⟩ : Token) ∈ tokenize "iffy!===1" := by decide +kernel
  exact ⟨hmem, (tokenize_longest "iffy!===1" _ hmem).1⟩

end Scriptlet
