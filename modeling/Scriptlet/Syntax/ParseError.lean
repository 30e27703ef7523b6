import Scriptlet.Token.Basic
import Scriptlet.Text.Quoted

/-!
# Syntax/ParseError — what can be wrong with a program text

A parse error is a cause and the span of the token at which it was noticed.
-/

namespace Scriptlet

/-- What is wrong, with the kinds of tokens it is about. -/
inductive ParseFault where
  /-- One kind of token was required, another one stands there. -/
  | unexpectedToken (expected found : TokenKind)
  /-- No expression starts with this token. -/
  | noExpression (found : TokenKind)
  /-- The source ends inside a block. -/
  | unclosedBlock
  /-- The integer literal does not fit in 64 bits. -/
  | integerTooLarge (text : String)
  /-- The first clause of a loop header does not end with a semicolon. -/
  | missingLoopSemicolon (found : TokenKind)
  /-- A pair of a hash literal is followed by neither a comma nor a closing brace. -/
  | missingPairSeparator (found : TokenKind)
  deriving DecidableEq, Repr, Inhabited

/-- The text of a fault; tokens are named as `TokenKind.label` shows them, and the digits of an
integer literal are quoted. -/
def ParseFault.message : ParseFault → String
  | unexpectedToken expected found =>
    "expected next token to be " ++ expected.label ++ ", got " ++ found.label ++ " instead"
  | noExpression found => "no prefix parse function for " ++ found.label ++ " found"
  | unclosedBlock => "block statement not closed by " ++ TokenKind.rightBrace.label
  | integerTooLarge text => "could not parse " ++ Text.quote text ++ " as integer"
  | missingLoopSemicolon found =>
    "no semicolon after for loop initialization, found " ++ found.label
  | missingPairSeparator found =>
    "expected next token to be " ++ TokenKind.rightBrace.label ++ " or " ++ TokenKind.comma.label
      ++ ", got " ++ found.label ++ " instead"

/-- A fault, with the span of the token at which it was noticed. -/
structure ParseError where
  fault : ParseFault
  span : Span
  deriving DecidableEq, Repr, Inhabited

/-- The place is shown beside the text and is no part of it. -/
def ParseError.message (e : ParseError) : String := e.fault.message

end Scriptlet
