import Scriptlet.Proofs.Parse.Word

/-!
# Proofs/Lex/Words — the words of a text

`wordsOf` is lexing without places.  A blank adds no word, and anything else adds the word of the
lexeme in front.
-/

namespace Scriptlet

/-- The words of a text, wherever it stands. -/
def wordsOf (cs : List Char) : List Word := (tokensFrom 0 cs).map Token.word

/-- The word of a lexeme, wherever it stands. -/
def Lexeme.word (l : Lexeme) : Word := (l.token 0).word

theorem Lexeme.word_token (l : Lexeme) (start : Nat) : (l.token start).word = l.word := rfl

/-- **Words do not depend on places.** -/
theorem words_tokensFrom (start : Nat) (cs : List Char) :
    (tokensFrom start cs).map Token.word = wordsOf cs := by
  unfold wordsOf
  generalize 0 = start'
  fun_induction tokensFrom start cs generalizing start' with
  | case1 start => rw [tokensFrom]
  | case2 start c rest hblank ih =>
    rw [tokensFrom, if_pos hblank]
    exact ih _
  | case3 start c rest hblank l ih =>
    rw [tokensFrom, if_neg hblank, List.map_cons, List.map_cons, l.word_token]
    exact congrArg _ (ih _)

@[simp] theorem wordsOf_nil : wordsOf [] = [] := by
  rw [wordsOf, tokensFrom]
  rfl

variable {c : Char} {rest : List Char}

theorem wordsOf_blank (h : isBlank c) : wordsOf (c :: rest) = wordsOf rest := by
  rw [wordsOf, tokensFrom, if_pos h, words_tokensFrom]

/-- Anything else adds the word of the lexeme in front. -/
theorem wordsOf_cons (h : isBlank c = false) : wordsOf (c :: rest) =
    (lexeme c rest).word :: wordsOf ((c :: rest).drop (lexeme c rest).text.length) := by
  rw [wordsOf, tokensFrom, if_neg (Bool.eq_false_iff.mp h), List.map_cons, words_tokensFrom]
  rfl

/-! ## The end of input

The end of input is no lexeme: it is what a reader finds behind the last token, as often as it
looks. -/

theorem TokenKind.ofWord_ne_end (word : String) : ofWord word ≠ .endOfInput := by
  unfold ofWord
  split <;> decide

theorem symbol_ne_end (c : Char) (rest : List Char) : (symbol c rest).kind ≠ .endOfInput := by
  unfold symbol
  split <;> simp

/-- No lexeme is, so the end of input stands only behind them all. -/
theorem lexeme_ne_end (c : Char) (rest : List Char) : (lexeme c rest).kind ≠ .endOfInput := by
  unfold lexeme
  split
  · exact TokenKind.ofWord_ne_end _
  · split
    · simp
    · split
      · split <;> simp
      · exact symbol_ne_end c rest

/-- **No token of a source is the end of input.** -/
theorem tokensFrom_ne_end (start : Nat) (cs : List Char) :
    ∀ t ∈ tokensFrom start cs, t.kind ≠ .endOfInput := by
  fun_induction tokensFrom start cs with
  | case1 start => nofun
  | case2 start c rest hblank ih => exact ih
  | case3 start c rest hblank l ih =>
    intro t ht
    rcases List.mem_cons.mp ht with rfl | ht
    · exact lexeme_ne_end c rest
    · exact ih t ht

end Scriptlet
