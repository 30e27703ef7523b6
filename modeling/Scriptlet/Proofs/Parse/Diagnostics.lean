import Mathlib
import Scriptlet.Proofs.Lex.Longest
import Scriptlet.Proofs.Parse.Order
import Scriptlet.Proofs.Parse.Reading

/-!
# Proofs/Parse/Diagnostics — what an error says of the token it points at

An error has a span and says something of what stands there: what kind of token was found, and why
it cannot be there.  `TrueIn` is that both are so in the source.  The tokens of a source are of a
form that makes this hold wherever the parser complains: an integer is a run of digits, a name is no
reserved word, and the end of input stands at the last byte.  -/

namespace Scriptlet

/-! ## First tokens of expressions

Whether an expression begins at a token is settled by its kind. -/

/-- There is an expression that starts with a token of this kind. -/
def BeginsExpression (kind : TokenKind) : Prop :=
  ∃ limit e ws ws', Reads (.expression limit e) ws ws' ∧ firstKind ws = kind

/-- What starts an expression is one if no word is behind it. -/
theorem Reads.begins {e : Expr} {ws : List Word} {w : Word} (h : Reads (.leading e) ws [w]) :
    BeginsExpression (firstKind ws) := by
  have hstop : StopsAt .lowest [w] := stopsAt_of_none rfl
  exact ⟨.lowest, e, ws, [w], .expression h (.stop hstop), rfl⟩

/-- A name alone is an expression, if no operator follows it. -/
theorem reads_name {limit : Precedence} {ws : List Word} (h : Extension.of (firstKind ws) = none)
    (x : String) : Reads (.expression limit (.ident x)) (.name x :: ws) (.name x :: ws) :=
  .expression .ident (.stop (stopsAt_of_none h))

/-- `!x` and `-x` -/
theorem begins_prefixOp (op : PrefixOp) : BeginsExpression op.kind := by
  have hread : Reads (.leading (.unary op (.ident "x"))) [.sign op.kind, .name "x"] [.name "x"] :=
    .unary rfl (reads_name rfl "x")
  exact hread.begins

/-- `(x)` -/
theorem begins_leftParen_name : BeginsExpression .leftParen := by
  have hread : Reads (.leading (.ident "x")) [.sign .leftParen, .name "x", .sign .rightParen] _ :=
    .grouped rfl (reads_name rfl "x") rfl
  exact hread.begins

/-- `fn() {}` -/
theorem begins_function : BeginsExpression .functionWord := by
  have hread : Reads (.leading (.function [] []))
      [.sign .functionWord, .sign .leftParen, .sign .rightParen, .sign .leftBrace,
        .sign .rightBrace] [.sign .rightBrace] :=
    .function rfl rfl (.noParams rfl) rfl (.block (.noStatements rfl))
  exact hread.begins

/-- `if (x) {}` -/
theorem begins_conditional : BeginsExpression .ifWord := by
  have hclause : Reads (.clause (.ident "x", []))
      [.sign .ifWord, .sign .leftParen, .name "x", .sign .rightParen, .sign .leftBrace,
        .sign .rightBrace] [.sign .rightBrace] :=
    .clause rfl (reads_name rfl "x") rfl (.braced rfl (.block (.noStatements rfl)))
  exact (Reads.conditional rfl hclause (.noAlternative (by decide))).begins

/-- **Each of the twelve kinds starts an expression, and no other one.** -/
theorem beginsExpression_iff {kind : TokenKind} :
    BeginsExpression kind ↔ startsExpression kind := by
  constructor
  · rintro ⟨limit, e, ws, ws', h, rfl⟩
    exact h.starts_expression
  · intro h
    cases kind with
    | identifier =>
      have hread : Reads (.leading (.ident "x")) [.name "x"] [.name "x"] := .ident
      exact hread.begins
    | integer =>
      have hread : Reads (.leading (.integer 0)) [.integer 0] [.integer 0] := .integer (by decide)
      exact hread.begins
    | string =>
      have hread : Reads (.leading (.string "")) [.string ""] [.string ""] := .string
      exact hread.begins
    | trueWord =>
      have hread : Reads (.leading (.boolean true)) [.sign .trueWord] _ := .trueWord rfl
      exact hread.begins
    | falseWord =>
      have hread : Reads (.leading (.boolean false)) [.sign .falseWord] _ := .falseWord rfl
      exact hread.begins
    | leftBracket =>
      have hread : Reads (.leading (.array [])) [.sign .leftBracket, .sign .rightBracket] _ :=
        .array rfl (.noItems rfl)
      exact hread.begins
    | leftBrace =>
      have hread : Reads (.leading (.hash [])) [.sign .leftBrace, .sign .rightBrace] _ :=
        .hash rfl (.noPairs rfl) rfl
      exact hread.begins
    | minus => exact begins_prefixOp .neg
    | bang => exact begins_prefixOp .not
    | leftParen => exact begins_leftParen_name
    | functionWord => exact begins_function
    | ifWord => exact begins_conditional
    | _ => cases h

/-! ## Numerals

An integer literal is read if its digits are a number below 2⁶³. -/

/-- A run of decimal digits, as many zeros in front as there may be. -/
def IsNumeral (x : String) : Prop := x ≠ "" ∧ ∀ c ∈ x.toList, c.isDigit

/-- The parser reads a numeral as the number that it is. -/
theorem IsNumeral.toNat? {x : String} (h : IsNumeral x) : x.toNat? = some (Parse.decimal x) := by
  obtain ⟨hne, hdigits⟩ := h
  have hkeep : x.toList.filter (· != '_') = x.toList := by
    refine List.filter_eq_self.mpr fun c hc => bne_iff_ne.mpr ?_
    rintro rfl
    exact absurd (hdigits _ hc) (by decide)
  rw [String.toNat?_eq_some_ofDigitChars (String.isNat_of_isDigit hne hdigits), hkeep]
  rfl

/-! ## Errors

Each error tells its own kind of truth about the token that it points at. -/

/-- The kind of the token that the fault is about. -/
def ParseFault.found : ParseFault → TokenKind
  | unexpectedToken _ found => found
  | noExpression found => found
  | unclosedBlock => .endOfInput
  | integerTooLarge _ => .integer
  | missingLoopSemicolon found => found
  | missingPairSeparator found => found

/-- What the fault says is so for a token of the kind it names that stands at the span. -/
def ParseFault.HoldsAt (source : String) (span : Span) : ParseFault → Prop
  | unexpectedToken expected found => expected ≠ found
  | noExpression found => ¬ BeginsExpression found
  | unclosedBlock => span = ⟨source.utf8ByteSize, source.utf8ByteSize⟩
  | integerTooLarge text => text = span.textIn source ∧ IsNumeral text ∧
      ∃ n, text.toNat? = some n ∧ Parse.integerLimit ≤ n
  | missingLoopSemicolon found => found ≠ .semicolon
  | missingPairSeparator found => found ≠ .comma ∧ found ≠ .rightBrace

/-- The error points at a token of the source, of the kind it has found, and what it says of it
is so. -/
structure ParseError.TrueIn (source : String) (e : ParseError) : Prop where
  token : ∃ t ∈ sourceLine source, t.span = e.span ∧ t.kind = e.fault.found
  fault : e.fault.HoldsAt source e.span

/-! ## Tokens of a source

A reader of a source sees its tokens and then the end of input. -/

section

variable {source : String} {t : Token} {c : Char} {rest : List Char}

/-- What is not the end of input is one of the tokens. -/
theorem mem_tokenize (ht : t ∈ sourceLine source) (hkind : t.kind ≠ .endOfInput) :
    t ∈ tokenize source := by
  obtain ht | ht := List.mem_append.mp ht
  · exact ht
  · exact absurd (List.mem_singleton.mp ht ▸ rfl) hkind

/-- The end of input stands behind the last byte. -/
theorem span_of_end (ht : t ∈ sourceLine source) (hkind : t.kind = .endOfInput) :
    t.span = ⟨source.utf8ByteSize, source.utf8ByteSize⟩ := by
  obtain ht | ht := List.mem_append.mp ht
  · exact absurd hkind (tokensFrom_ne_end 0 source.toList t ht)
  · rw [List.mem_singleton.mp ht]
    rfl

/-- What a lexeme is, by its first character. -/
theorem lexeme_kind_cases (c : Char) (rest : List Char) :
    (isWordChar c ∧
      (lexeme c rest).kind = TokenKind.ofWord (String.ofList (lexeme c rest).text)) ∨
    (c.isDigit ∧ (lexeme c rest).kind = .integer) ∨
    (lexeme c rest).kind = .string ∨ (lexeme c rest).kind = .illegal ∨
    ∃ p ∈ signs, (lexeme c rest).kind = p.2 := by
  unfold lexeme
  split
  · next hc => exact .inl ⟨hc, rfl⟩
  split
  · next hc => exact .inr (.inl ⟨hc, rfl⟩)
  split
  · split
    · exact .inr (.inr (.inl rfl))
    · exact .inr (.inr (.inr (.inl rfl)))
  · obtain hillegal | hsign := symbol_cases c rest
    · exact .inr (.inr (.inr (.inl (congrArg Lexeme.kind hillegal))))
    · exact .inr (.inr (.inr (.inr ⟨_, hsign, rfl⟩)))

theorem ofWord_ne_integer (word : String) : TokenKind.ofWord word ≠ .integer := by
  unfold TokenKind.ofWord
  split <;> decide

/-- Only a word is an identifier. -/
theorem word_of_identifier (h : (lexeme c rest).kind = .identifier) :
    isWordChar c ∧ TokenKind.ofWord (String.ofList (lexeme c rest).text) = .identifier := by
  have hsigns : ∀ p ∈ signs, TokenKind.identifier ≠ p.2 := by decide
  obtain ⟨hc, hkind⟩ | ⟨-, hkind⟩ | hkind | hkind | ⟨p, hp, hkind⟩ := lexeme_kind_cases c rest
  all_goals rw [h] at hkind
  · exact ⟨hc, hkind.symm⟩
  · cases hkind
  · cases hkind
  · cases hkind
  · exact absurd hkind (hsigns p hp)

/-- Only a run of digits is an integer. -/
theorem digit_of_integer (h : (lexeme c rest).kind = .integer) : c.isDigit := by
  have hsigns : ∀ p ∈ signs, TokenKind.integer ≠ p.2 := by decide
  obtain ⟨-, hkind⟩ | ⟨hc, -⟩ | hkind | hkind | ⟨p, hp, hkind⟩ := lexeme_kind_cases c rest
  · exact absurd (hkind.symm.trans h) (ofWord_ne_integer _)
  · exact hc
  all_goals rw [h] at hkind
  · cases hkind
  · cases hkind
  · exact absurd hkind (hsigns p hp)

/-- What is known of a token that is neither a string nor the end of input. -/
theorem exists_lexeme (ht : t ∈ sourceLine source) (hend : t.kind ≠ .endOfInput)
    (hstring : t.kind ≠ .string) : ∃ c rest, t.kind = (lexeme c rest).kind ∧
      t.literal = t.span.textIn source ∧ t.literal ≠ "" ∧
      t.literal.toList = (lexeme c rest).text := by
  have hmem := mem_tokenize ht hend
  have hliteral := literal_of_ne_string hmem hstring
  obtain ⟨c, rest, h⟩ := exists_lexedAt hmem
  have htext : t.literal.toList = (lexeme c rest).text := hliteral ▸ h.text
  refine ⟨c, rest, h.kind, hliteral, fun hempty => ?_, htext⟩
  rw [hempty] at htext
  exact lexeme_text_ne_nil c rest htext.symm

/-- **An identifier is a name.** -/
theorem isName_of_identifier (ht : t ∈ sourceLine source) (hkind : t.kind = .identifier) :
    IsName t.literal := by
  obtain ⟨c, rest, hlexeme, -, hne, htext⟩ :=
    exists_lexeme ht (by rw [hkind]; decide) (by rw [hkind]; decide)
  obtain ⟨hc, hword⟩ := word_of_identifier (hlexeme.symm.trans hkind)
  refine ⟨hne, ?_, ?_⟩
  · rw [htext, List.all_eq_true]
    exact (lexeme_word hc).1.all
  · rwa [← t.literal.ofList_toList, htext]

/-- **An integer is a numeral, as it stands in the source.** -/
theorem isNumeral_of_integer (ht : t ∈ sourceLine source) (hkind : t.kind = .integer) :
    t.literal = t.span.textIn source ∧ IsNumeral t.literal := by
  obtain ⟨c, rest, hlexeme, hliteral, hne, htext⟩ :=
    exists_lexeme ht (by rw [hkind]; decide) (by rw [hkind]; decide)
  have hc := digit_of_integer (hlexeme.symm.trans hkind)
  refine ⟨hliteral, hne, ?_⟩
  rw [htext]
  exact (lexeme_number hc).1.all

end

end Scriptlet
