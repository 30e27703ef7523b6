import Scriptlet.Text.Unprintable
import Scriptlet.Text.GraphemeExtend
import Scriptlet.Text.DefaultIgnorable

/-!
# Text/Quoted — a text between double quotes

Writing: `quote` puts a text between double quotes, so that no character of it can be mistaken for
the closing quote or go unseen.  Six characters have a short escape; any other that cannot be seen
by itself is written by its code point.

Reading: `quotedBody` finds where a quoted text ends, and `unescape` resolves its escapes.  Reading
knows five of the short escapes; that of U+0000 and a code point escape are read as the characters
that spell them.
-/

namespace Scriptlet.Text

/-! ## Writing -/

/-- The two halfwidth sound marks: they extend the katakana before them, but each is drawn in a cell
of its own. -/
def isHalfwidthSoundMark (c : Char) : Bool := c = '\uff9e' || c = '\uff9f'

/-- The character is drawn onto its neighbour, and not beside it. -/
def joinsNeighbour (c : Char) : Bool := isGraphemeExtend c && !isHalfwidthSoundMark c

/-- The character can stand for itself: it has a printed form, which is not empty and does not join
its neighbour. -/
def isVisible (c : Char) : Bool :=
  if c.toNat < 0x7f then 0x20 ≤ c.toNat
  else !isUnprintable c && !isDefaultIgnorable c && !joinsNeighbour c

/-- A character by its code point: `\u` and lower-case hexadecimal digits between braces. -/
def codePointEscape (c : Char) : List Char :=
  '\\' :: 'u' :: '{' :: Nat.toDigits 16 c.toNat ++ ['}']

/-- One character of a quoted text. -/
def escape (c : Char) : List Char :=
  match c with
  | '"' => ['\\', '"']
  | '\\' => ['\\', '\\']
  | '\t' => ['\\', 't']
  | '\n' => ['\\', 'n']
  | '\r' => ['\\', 'r']
  | '\x00' => ['\\', '0']
  | c => if isVisible c then [c] else codePointEscape c

/-- The characters of a quoted text, quotes included. -/
def quoteChars (cs : List Char) : List Char :=
  '"' :: cs.flatMap escape ++ ['"']

/-- A text between double quotes. -/
def quote (text : String) : String := String.ofList (quoteChars text.toList)

/-! ## Reading

The lexer knows where a quoted text ends, and what is taken for its value is settled apart from
that. -/

/-- What stands between an opening quote and its closing quote, escapes unresolved; `cs` begins
after the opening quote.  A backslash takes the character after it along, unless that is a line
feed: then, and when the text ends first, the quote is never closed. -/
def quotedBody : List Char → Option (List Char)
  | [] => none
  | '"' :: _ => some []
  | ['\\'] => none
  | '\\' :: c :: cs => if c = '\n' then none else (quotedBody cs).map ('\\' :: c :: ·)
  | c :: cs => (quotedBody cs).map (c :: ·)

/-- The characters that a backslash and `c` stand for: themselves, unless `c` names one. -/
def escapeMeaning (c : Char) : List Char :=
  match c with
  | 't' => ['\t']
  | 'n' => ['\n']
  | 'r' => ['\r']
  | '"' => ['"']
  | '\\' => ['\\']
  | c => ['\\', c]

/-- The text that the body of a quoted text stands for. -/
def unescape : List Char → List Char
  | [] => []
  | ['\\'] => ['\\']
  | '\\' :: c :: cs => escapeMeaning c ++ unescape cs
  | c :: cs => c :: unescape cs

end Scriptlet.Text
