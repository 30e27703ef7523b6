import Scriptlet.Proofs.Lex.Words
import Scriptlet.Proofs.Text.Quoted

/-!
# Proofs/Lex/Pieces — the words of the pieces that printed texts are made of

A symbol that no other one begins with is a word whatever follows.  A name, a keyword or a number is
one if what follows keeps apart from it, and every piece that may stand behind it does.
-/

namespace Scriptlet

open Text

/-- No token runs on into this character. -/
@[simp] def isApart : Char → Bool
  | ' ' | '(' | ')' | '[' | ']' | '\x7b' | '\x7d' | ',' | ';' | ':' => true
  | _ => false

/-- No token runs on into the text. -/
@[simp] def Apart : List Char → Bool
  | [] => true
  | c :: _ => isApart c

variable {c : Char} {x rest : List Char}

/-- A word ends before such a character. -/
theorem not_wordChar_of_isApart (h : isApart c) : isWordChar c = false := by
  unfold isApart at h
  split at h
  all_goals first | rfl | cases h

theorem not_digit_of_isApart (h : isApart c) : c.isDigit = false := by
  unfold isApart at h
  split at h
  all_goals first | rfl | cases h

/-- A run of characters ends where the next one is not of its kind. -/
theorem takeWhile_append_of_head {p : Char → Bool} (hx : ∀ c ∈ x, p c)
    (hrest : ∀ c ∈ rest.head?, p c = false) : (x ++ rest).takeWhile p = x := by
  rw [List.takeWhile_append_of_pos hx]
  cases rest with
  | nil => rw [List.takeWhile_nil, List.append_nil]
  | cons d rest =>
    rw [List.takeWhile_cons_of_neg (Bool.eq_false_iff.mp (hrest d rfl)), List.append_nil]

/-- A text that keeps apart does so by its first character, if it has one. -/
theorem isApart_of_head (h : Apart rest) : ∀ c ∈ rest.head?, isApart c := by
  cases rest with
  | nil => nofun
  | cons d rest =>
    rintro _ ⟨⟩
    exact h

/-- A run that no such character carries on ends where it did. -/
theorem takeWhile_append_apart {p : Char → Bool} (hp : ∀ c, isApart c → p c = false)
    (hx : ∀ c ∈ x, p c) (h : Apart rest) : (x ++ rest).takeWhile p = x :=
  takeWhile_append_of_head hx fun c hc => hp c (isApart_of_head h c hc)

/-! ## Words and numbers

A name or a number goes on as long as there are characters for it, so it is one token if what is
behind it begins with something else. -/

/-! Blanks, word characters and digits are told apart by their codes, so what begins a lexeme tells
its form. -/

theorem not_blank_of_wordChar (h : isWordChar c) : isBlank c = false := by
  refine Bool.eq_false_iff.mpr fun hblank => ?_
  simp only [isBlank, Bool.or_eq_true, decide_eq_true_eq] at hblank
  rcases hblank with ((rfl | rfl) | rfl) | rfl <;> cases h

theorem not_blank_of_digit (h : c.isDigit) : isBlank c = false := by
  refine Bool.eq_false_iff.mpr fun hblank => ?_
  simp only [isBlank, Bool.or_eq_true, decide_eq_true_eq] at hblank
  rcases hblank with ((rfl | rfl) | rfl) | rfl <;> cases h

theorem not_wordChar_of_digit (h : c.isDigit) : isWordChar c = false := by
  have hne : c ≠ '_' := by
    rintro rfl
    cases h
  obtain ⟨-, hnine⟩ := Char.isDigit_iff_toNat.mp h
  change c.toNat ≤ 57 at hnine
  have hupper : c.isUpper = false := by
    refine decide_eq_false fun ⟨hfirst, _⟩ => ?_
    have hge : 65 ≤ c.toNat := UInt32.le_iff_toNat_le.mp hfirst
    omega
  have hlower : c.isLower = false := by
    refine Bool.eq_false_iff.mpr fun hlower => ?_
    obtain ⟨hfirst, -⟩ := (Bool.and_eq_true _ _).mp hlower
    have hge : 97 ≤ c.toNat := UInt32.le_iff_toNat_le.mp (of_decide_eq_true hfirst)
    omega
  have halpha : c.isAlpha = false := Bool.or_eq_false_iff.mpr ⟨hupper, hlower⟩
  simp [isWordChar, halpha, hne]

/-- **A run of word characters is one word**: a name or a keyword. -/
theorem wordsOf_word (hne : x ≠ []) (hx : x.all isWordChar) (h : Apart rest) :
    wordsOf (x ++ rest) =
      (Lexeme.mk (TokenKind.ofWord (String.ofList x)) x).word :: wordsOf rest := by
  obtain ⟨c, x, rfl⟩ := List.exists_cons_of_ne_nil hne
  rw [List.all_eq_true] at hx
  have hc := hx c (List.mem_cons_self ..)
  have htake := takeWhile_append_apart (fun _ => not_wordChar_of_isApart)
    (fun c hc => hx c (List.mem_cons_of_mem _ hc)) h
  rw [List.cons_append, wordsOf_cons (not_blank_of_wordChar hc), lexeme, if_pos hc, htake]
  congr 2
  exact List.drop_left

/-- **A run of digits is one number.** -/
theorem wordsOf_digits (hne : x ≠ []) (hx : ∀ c ∈ x, c.isDigit) (h : Apart rest) :
    wordsOf (x ++ rest) = .integer (Parse.decimal (String.ofList x)) :: wordsOf rest := by
  obtain ⟨c, x, rfl⟩ := List.exists_cons_of_ne_nil hne
  have hc := hx c (List.mem_cons_self ..)
  have hword : ¬ isWordChar c = true := Bool.eq_false_iff.mp (not_wordChar_of_digit hc)
  have htake := takeWhile_append_apart (fun _ => not_digit_of_isApart)
    (fun c hc => hx c (List.mem_cons_of_mem _ hc)) h
  rw [List.cons_append, wordsOf_cons (not_blank_of_digit hc), lexeme, if_neg hword, if_pos hc,
    htake]
  congr 2
  exact List.drop_left

/-- **A number is read from its digits.** -/
theorem wordsOf_toString (n : Nat) (h : Apart rest) :
    wordsOf ((toString n).toList ++ rest) = .integer n :: wordsOf rest := by
  have hdigits : (toString n).toList = Nat.toDigits 10 n := Nat.toList_repr
  have hvalue : Parse.decimal (String.ofList (Nat.toDigits 10 n)) = n := by
    rw [Parse.decimal, String.toList_ofList]
    exact Nat.ofDigitChars_ten_toDigits
  rw [hdigits, wordsOf_digits Nat.toDigits_ne_nil
    (fun c hc => Nat.isDigit_of_mem_toDigits (by decide) (by decide) hc) h, hvalue]

/-- A name: a run of word characters that is no keyword. -/
def IsName (x : String) : Prop :=
  x ≠ "" ∧ x.toList.all isWordChar ∧ TokenKind.ofWord x = .identifier

instance (x : String) : Decidable (IsName x) :=
  inferInstanceAs (Decidable (x ≠ "" ∧ x.toList.all isWordChar ∧ _))

/-- **A name is read from its text.** -/
theorem wordsOf_name {name : String} (hname : IsName name) (h : Apart rest) :
    wordsOf (name.toList ++ rest) = .name name :: wordsOf rest := by
  obtain ⟨hne, hchars, hkind⟩ := hname
  have hnil : name.toList ≠ [] := fun h => hne (String.toList_eq_nil_iff.mp h)
  have hword : (Lexeme.mk .identifier name.toList).word = .name name := by
    rw [Lexeme.word, Token.word_of_identifier rfl]
    exact congrArg Word.name String.ofList_toList
  rw [wordsOf_word hnil hchars h, String.ofList_toList, hkind, hword]

/-! ## Keywords

Each reserved word is a token of its own kind, if it is not the beginning of a longer word. -/

section Keywords

variable (rest : List Char)

/-! Keywords are followed by a blank or a parenthesis where the printer writes them, but for the two
truth values, which may stand anywhere. -/

@[simp] theorem wordsOf_let :
    wordsOf ('l' :: 'e' :: 't' :: ' ' :: rest) = .sign .letWord :: wordsOf (' ' :: rest) :=
  wordsOf_cons rfl

@[simp] theorem wordsOf_return :
    wordsOf ('r' :: 'e' :: 't' :: 'u' :: 'r' :: 'n' :: ' ' :: rest) =
      .sign .returnWord :: wordsOf (' ' :: rest) :=
  wordsOf_cons rfl

@[simp] theorem wordsOf_for :
    wordsOf ('f' :: 'o' :: 'r' :: ' ' :: rest) = .sign .forWord :: wordsOf (' ' :: rest) :=
  wordsOf_cons rfl

@[simp] theorem wordsOf_if :
    wordsOf ('i' :: 'f' :: ' ' :: rest) = .sign .ifWord :: wordsOf (' ' :: rest) :=
  wordsOf_cons rfl

@[simp] theorem wordsOf_else :
    wordsOf ('e' :: 'l' :: 's' :: 'e' :: ' ' :: rest) = .sign .elseWord :: wordsOf (' ' :: rest) :=
  wordsOf_cons rfl

@[simp] theorem wordsOf_fn :
    wordsOf ('f' :: 'n' :: '(' :: rest) = .sign .functionWord :: wordsOf ('(' :: rest) :=
  wordsOf_cons rfl

end Keywords

/-- A truth value, before what keeps apart from it. -/
theorem wordsOf_true (h : Apart rest) :
    wordsOf ('t' :: 'r' :: 'u' :: 'e' :: rest) = .sign .trueWord :: wordsOf rest := by
  have hchars : ['t', 'r', 'u', 'e'].all isWordChar := rfl
  exact wordsOf_word (List.cons_ne_nil _ _) hchars h

theorem wordsOf_false (h : Apart rest) :
    wordsOf ('f' :: 'a' :: 'l' :: 's' :: 'e' :: rest) = .sign .falseWord :: wordsOf rest := by
  have hchars : ['f', 'a', 'l', 's', 'e'].all isWordChar := rfl
  exact wordsOf_word (List.cons_ne_nil _ _) hchars h

/-! ## Symbols

Delimiters and operators are one character long, apart from three of them, and so need nothing
behind them to end. -/

/-- What begins no word, number or string is a symbol. -/
theorem lexeme_symbol (rest : List Char) (hword : isWordChar c = false) (hdigit : c.isDigit = false)
    (hquote : c ≠ '"') : lexeme c rest = symbol c rest := by
  rw [lexeme, if_neg (Bool.eq_false_iff.mp hword), if_neg (Bool.eq_false_iff.mp hdigit),
    if_neg hquote]

section Symbols

variable (rest : List Char)

@[simp] theorem wordsOf_space : wordsOf (' ' :: rest) = wordsOf rest := wordsOf_blank rfl

/-! Delimiters of one character are read without a look at what follows. -/

@[simp] theorem wordsOf_leftParen : wordsOf ('(' :: rest) = .sign .leftParen :: wordsOf rest :=
  wordsOf_cons rfl

@[simp] theorem wordsOf_rightParen : wordsOf (')' :: rest) = .sign .rightParen :: wordsOf rest :=
  wordsOf_cons rfl

@[simp] theorem wordsOf_leftBracket :
    wordsOf ('[' :: rest) = .sign .leftBracket :: wordsOf rest :=
  wordsOf_cons rfl

@[simp] theorem wordsOf_rightBracket :
    wordsOf (']' :: rest) = .sign .rightBracket :: wordsOf rest :=
  wordsOf_cons rfl

@[simp] theorem wordsOf_leftBrace :
    wordsOf ('\x7b' :: rest) = .sign .leftBrace :: wordsOf rest :=
  wordsOf_cons rfl

@[simp] theorem wordsOf_rightBrace :
    wordsOf ('\x7d' :: rest) = .sign .rightBrace :: wordsOf rest :=
  wordsOf_cons rfl

@[simp] theorem wordsOf_comma : wordsOf (',' :: rest) = .sign .comma :: wordsOf rest :=
  wordsOf_cons rfl

@[simp] theorem wordsOf_semicolon : wordsOf (';' :: rest) = .sign .semicolon :: wordsOf rest :=
  wordsOf_cons rfl

@[simp] theorem wordsOf_colon : wordsOf (':' :: rest) = .sign .colon :: wordsOf rest :=
  wordsOf_cons rfl

@[simp] theorem wordsOf_ellipsis :
    wordsOf ('.' :: '.' :: '.' :: rest) = .sign .ellipsis :: wordsOf rest :=
  wordsOf_cons rfl

end Symbols

/-- An operator between blanks. -/
theorem wordsOf_infixOp (op : InfixOp) (rest : List Char) :
    wordsOf (op.symbol.toList ++ ' ' :: rest) = .sign op.kind :: wordsOf rest := by
  cases op
  all_goals exact (wordsOf_cons rfl).trans (congrArg _ (wordsOf_space rest))

/-- An operator right before its operand, which does not begin with an equals sign. -/
theorem wordsOf_prefixOp (op : PrefixOp) (hc : c ≠ '=') :
    wordsOf (op.symbol.toList ++ c :: rest) = .sign op.kind :: wordsOf (c :: rest) := by
  cases op with
  | neg => exact wordsOf_cons rfl
  | not =>
    have hlexeme : lexeme '!' (c :: rest) = ⟨.bang, ['!']⟩ := by
      rw [lexeme_symbol _ rfl rfl (by decide), symbol]
      all_goals simp_all
    show wordsOf ('!' :: c :: rest) = _
    rw [wordsOf_cons rfl, hlexeme]
    rfl

/-! ## Strings

A quoted text has its end in itself. -/

/-- **A string is read from between its quotes.** -/
theorem wordsOf_quote {text : String} (h : ∀ c ∈ text.toList, IsPlain c) (rest : List Char) :
    wordsOf ((quote text).toList ++ rest) = .string text :: wordsOf rest := by
  have htext : (quote text).toList ++ rest =
      '"' :: (text.toList.flatMap escape ++ '"' :: rest) := by
    simp [quote, quoteChars]
  have hlexeme : lexeme '"' (text.toList.flatMap escape ++ '"' :: rest) =
      ⟨.string, '"' :: text.toList.flatMap escape ++ ['"']⟩ := by
    rw [lexeme, if_neg (by decide), if_neg (by decide), if_pos rfl, quotedBody_escaped rest h]
  have hword : (Lexeme.mk .string ('"' :: text.toList.flatMap escape ++ ['"'])).word =
      .string text := by
    rw [Lexeme.word, Token.word_of_string rfl]
    refine congrArg Word.string ?_
    show String.ofList (unescape _) = text
    simp [unescape_escaped h]
  have hsplit : '"' :: (text.toList.flatMap escape ++ '"' :: rest) =
      '"' :: text.toList.flatMap escape ++ ['"'] ++ rest := by simp
  rw [htext, wordsOf_cons rfl, hlexeme, hword, hsplit, List.drop_left]

end Scriptlet
