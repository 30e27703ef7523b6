import Scriptlet.Token.Lexer

/-!
# Token/Stream — tokens read one after another

A stream is what is left of a token list, and the end-of-input token that follows it for ever.  A
reader sees two tokens, `current` and `upcoming`, and moves with `advance`; at the end it stays.
-/

namespace Scriptlet

/-- The part of the source that a reader has not passed. -/
structure TokenStream where
  /-- The tokens not yet passed; the first of them is the current one. -/
  pending : List Token
  /-- What is read when no token is left. -/
  stop : Token

namespace TokenStream

/-- The stream of a source text, at its first token. -/
def ofSource (source : String) : TokenStream := ⟨tokenize source, .endAt source.utf8ByteSize⟩

/-- The token at which the reader stands. -/
def current (s : TokenStream) : Token := s.pending.headD s.stop

/-- The token after the current one. -/
def upcoming (s : TokenStream) : Token := s.pending.tail.headD s.stop

/-- The stream after its current token. -/
def advance (s : TokenStream) : TokenStream := { s with pending := s.pending.tail }

/-- The number of tokens not yet passed, the end of input not counted. -/
def remaining (s : TokenStream) : Nat := s.pending.length

/-- The next `n` tokens; past the end, each is the end of input. -/
def take : Nat → TokenStream → List Token
  | 0, _ => []
  | n + 1, s => s.current :: take n s.advance

end TokenStream

end Scriptlet
