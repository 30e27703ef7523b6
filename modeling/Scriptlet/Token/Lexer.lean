import Scriptlet.Token.Basic
import Scriptlet.Text.Quoted

/-!
# Token/Lexer — cutting a source text into tokens

`lexeme` takes the longest token off the front of a text, and `tokenize` takes tokens until the text
is used up, passing over blanks.  Nothing stops it: a character that starts no token becomes an
illegal token of its own, and an unclosed string becomes one illegal token that runs to the end.
-/

namespace Scriptlet

open Text

/-- Blanks separate tokens and are otherwise skipped. -/
def isBlank (c : Char) : Bool := c = ' ' || c = '\t' || c = '\r' || c = '\n'

/-- Letters of words are `A` to `Z`, `a` to `z` and the underscore. -/
def isWordChar (c : Char) : Bool := c.isAlpha || c = '_'

/-- The bytes that characters take in UTF-8. -/
def byteLength (cs : List Char) : Nat := cs.foldr (fun c n => c.utf8Size + n) 0

/-- A token without its place: its kind, and the characters it is made of. -/
structure Lexeme where
  kind : TokenKind
  text : List Char

/-- The operators and delimiters, the longer ones first; any other character is illegal. -/
def symbol (c : Char) (rest : List Char) : Lexeme :=
  match c, rest with
  | '=', '=' :: _ => ⟨.equal, ['=', '=']⟩
  | '!', '=' :: _ => ⟨.notEqual, ['!', '=']⟩
  | '.', '.' :: '.' :: _ => ⟨.ellipsis, ['.', '.', '.']⟩
  | '=', _ => ⟨.assign, ['=']⟩
  | '+', _ => ⟨.plus, ['+']⟩
  | '-', _ => ⟨.minus, ['-']⟩
  | '!', _ => ⟨.bang, ['!']⟩
  | '*', _ => ⟨.asterisk, ['*']⟩
  | '/', _ => ⟨.slash, ['/']⟩
  | '<', _ => ⟨.less, ['<']⟩
  | '>', _ => ⟨.greater, ['>']⟩
  | ',', _ => ⟨.comma, [',']⟩
  | ';', _ => ⟨.semicolon, [';']⟩
  | ':', _ => ⟨.colon, [':']⟩
  | '(', _ => ⟨.leftParen, ['(']⟩
  | ')', _ => ⟨.rightParen, [')']⟩
  | '{', _ => ⟨.leftBrace, ['{']⟩
  | '}', _ => ⟨.rightBrace, ['}']⟩
  | '[', _ => ⟨.leftBracket, ['[']⟩
  | ']', _ => ⟨.rightBracket, [']']⟩
  | c, _ => ⟨.illegal, [c]⟩

/-- The longest token at the front of `c :: rest`, where `c` is no blank. -/
def lexeme (c : Char) (rest : List Char) : Lexeme :=
  if isWordChar c then
    let word := c :: rest.takeWhile isWordChar
    ⟨TokenKind.ofWord (String.ofList word), word⟩
  else if c.isDigit then
    ⟨.integer, c :: rest.takeWhile Char.isDigit⟩
  else if c = '"' then
    match quotedBody rest with
    | some body => ⟨.string, '"' :: body ++ ['"']⟩
    | none => ⟨.illegal, c :: rest⟩
  else
    symbol c rest

/-- The literal of a lexeme: a string is read, the rest is taken as it stands. -/
def Lexeme.literal (l : Lexeme) : String :=
  match l.kind with
  | .string => String.ofList (unescape (l.text.tail.dropLast))
  | _ => String.ofList l.text

/-- The lexeme as a token that starts at byte `start`. -/
def Lexeme.token (l : Lexeme) (start : Nat) : Token :=
  ⟨l.kind, l.literal, ⟨start, start + byteLength l.text⟩⟩

/-- A lexeme has at least one character, so lexing moves on. -/
theorem lexeme_text_ne_nil (c : Char) (rest : List Char) : (lexeme c rest).text ≠ [] := by
  unfold lexeme symbol
  repeat' split
  all_goals simp

/-- The tokens of a text that begins at byte `start` of the source. -/
def tokensFrom (start : Nat) : List Char → List Token
  | [] => []
  | c :: rest =>
    if isBlank c then
      tokensFrom (start + c.utf8Size) rest
    else
      let l := lexeme c rest
      l.token start :: tokensFrom (start + byteLength l.text) ((c :: rest).drop l.text.length)
termination_by cs => cs.length
decreasing_by
  · simp
  · have := List.length_pos_iff.mpr (lexeme_text_ne_nil c rest)
    simp only [List.length_drop, List.length_cons]
    omega

/-- The tokens of a source text, the end of input not counted. -/
def tokenize (source : String) : List Token := tokensFrom 0 source.toList

end Scriptlet
