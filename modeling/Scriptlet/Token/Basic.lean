/-!
# Token/Basic — the words of the language, and where they stand

A token is a kind, a literal and a span.  The literal of a string token is the text it stands for;
the literal of every other token is the source text at its span.
-/

namespace Scriptlet

/-- The byte range `[start, stop)` of a source text in UTF-8. -/
structure Span where
  start : Nat
  stop : Nat
  deriving DecidableEq, Repr, Inhabited

/-- The kinds of words.  Each keyword and each operator is a kind of its own; `illegal` is what
belongs to none. -/
inductive TokenKind where
  | identifier
  | integer
  | string
  | assign
  | plus
  | minus
  | bang
  | asterisk
  | slash
  | less
  | greater
  | equal
  | notEqual
  | comma
  | semicolon
  | colon
  | ellipsis
  | leftParen
  | rightParen
  | leftBrace
  | rightBrace
  | leftBracket
  | rightBracket
  | functionWord
  | letWord
  | trueWord
  | falseWord
  | ifWord
  | elseWord
  | returnWord
  | forWord
  /-- A character that starts no token, or a string literal that is never closed. -/
  | illegal
  | endOfInput
  deriving DecidableEq, Repr, Inhabited

namespace TokenKind

/-- The name of a kind in messages: an operator or delimiter is named by itself. -/
def label : TokenKind → String
  | identifier => "IDENT"
  | integer => "INT"
  | string => "STRING"
  | assign => "="
  | plus => "+"
  | minus => "-"
  | bang => "!"
  | asterisk => "*"
  | slash => "/"
  | less => "<"
  | greater => ">"
  | equal => "=="
  | notEqual => "!="
  | comma => ","
  | semicolon => ";"
  | colon => ":"
  | ellipsis => "..."
  | leftParen => "("
  | rightParen => ")"
  | leftBrace => "\x7b"
  | rightBrace => "\x7d"
  | leftBracket => "["
  | rightBracket => "]"
  | functionWord => "FUNCTION"
  | letWord => "LET"
  | trueWord => "TRUE"
  | falseWord => "FALSE"
  | ifWord => "IF"
  | elseWord => "ELSE"
  | returnWord => "RETURN"
  | forWord => "FOR"
  | illegal => "ILLEGAL"
  | endOfInput => "EOF"

/-- The kind of a word: one of the eight keywords, or an identifier. -/
def ofWord (word : String) : TokenKind :=
  match word with
  | "fn" => functionWord
  | "let" => letWord
  | "true" => trueWord
  | "false" => falseWord
  | "if" => ifWord
  | "else" => elseWord
  | "return" => returnWord
  | "for" => forWord
  | _ => identifier

end TokenKind

/-- A word of the source, and where it stands. -/
structure Token where
  kind : TokenKind
  literal : String
  span : Span
  deriving DecidableEq, Repr, Inhabited

/-- The token that stands at the end of a source of `size` bytes. -/
def Token.endAt (size : Nat) : Token := ⟨.endOfInput, "", ⟨size, size⟩⟩

end Scriptlet
