import Scriptlet.Syntax.Precedence
import Scriptlet.Syntax.Parse

/-!
# Syntax/Parser — program trees from tokens

Expressions are read by binding strength: `leading` reads what can start one, and `extend` carries
it on while the next operator binds tighter than the limit it was given.  Statements need a keyword,
a brace or an expression in front; a semicolon after them is optional.

A rule takes the phrases *one level further in* as an argument and is no recursion by itself;
`phrases` ties the rules together.  Every rule passes a token before it goes further in, so as many
levels as there are tokens, and one more, never run out.  Lists run over at most as many items as
there are tokens, for the same reason.

A statement that cannot be read is left out, and reading goes on behind the token where it failed.
-/

namespace Scriptlet

/-- The two kinds of phrases that contain each other. -/
structure Phrases where
  /-- An expression whose operators bind tighter than the limit. -/
  expression : (limit : Precedence) → Parse Expr
  statement : Parse Statement

namespace Parse

/-! ## Blocks -/

/-- Statements up to a token that closes the list, which is not passed.  `n` bounds their number. -/
def statements (closes : TokenKind → Bool) (statement : Parse Statement) : (n : Nat) → Parse Block
  | 0 => return []
  | n + 1 => do
    if closes (← current).kind then
      return []
    else
      let first ← attempt statement
      advance
      let others ← statements closes statement n
      return first.toList ++ others

/-- A token that closes a block, or leaves it open at the end of input. -/
def endsBlock (kind : TokenKind) : Bool := kind = .rightBrace || kind = .endOfInput

/-- The end of a block, which must not be the end of input. -/
def blockEnd : Parse Unit := do
  let last ← current
  if last.kind = .endOfInput then report .unclosedBlock last.span else return ()

/-- A block between braces; the opening brace is current before, the closing one after. -/
def block (inner : Phrases) : Parse Block := do
  advance
  let body ← statements endsBlock inner.statement (← remaining)
  blockEnd
  return body

/-- What a condition or a loop header guards: a block between braces, or one statement. -/
def body (inner : Phrases) : Parse Block := do
  if (← current).kind = .leftBrace then
    block inner
  else
    return (← attempt inner.statement).toList

/-! ## Lists between delimiters -/

/-- More items, each after a comma.  `n` bounds their number. -/
def moreItems (inner : Phrases) : (n : Nat) → Parse (List Expr)
  | 0 => return []
  | n + 1 => do
    if ← skip .comma then
      advance
      let first ← inner.expression .lowest
      let others ← moreItems inner n
      return first :: others
    else
      return []

/-- Expressions between commas up to `close`; the opening delimiter is current before. -/
def items (inner : Phrases) (close : TokenKind) : Parse (List Expr) := do
  if ← skip close then
    return []
  else
    advance
    let first ← inner.expression .lowest
    let others ← moreItems inner (← remaining)
    expect close
    return first :: others

/-- What follows a pair of a hash literal: a comma, which is passed, or the closing brace. -/
def pairEnd : Parse Unit := do
  if ← skip .comma then
    return ()
  else
    let next ← upcoming
    if next.kind = .rightBrace then return ()
    else reject (.missingPairSeparator next.kind) next.span

/-- The pairs of a hash literal up to the closing brace, which is not passed.  A comma may stand
after the last one.  `n` bounds their number. -/
def pairs (inner : Phrases) : (n : Nat) → Parse (List (Expr × Expr))
  | 0 => return []
  | n + 1 => do
    if (← upcoming).kind = .rightBrace then
      return []
    else
      advance
      let key ← inner.expression .lowest
      expect .colon
      advance
      let value ← inner.expression .lowest
      pairEnd
      let others ← pairs inner n
      return (key, value) :: others

/-- Pass the ellipsis before a variadic parameter; tell whether it was there. -/
def ellipsis : Parse Bool := do
  if (← current).kind = .ellipsis then
    advance
    return true
  else
    return false

/-- A parameter; its first token is current. -/
def param : Parse Param := do
  let variadic ← ellipsis
  let t ← current
  if t.kind = .identifier then
    return ⟨t.literal, variadic⟩
  else
    reject (.unexpectedToken .identifier t.kind) t.span

/-- More parameters, each after a comma.  `n` bounds their number. -/
def moreParams : (n : Nat) → Parse (List Param)
  | 0 => return []
  | n + 1 => do
    if ← skip .comma then
      advance
      let first ← param
      let others ← moreParams n
      return first :: others
    else
      return []

/-- The parameters of a function literal; the opening parenthesis is current before, the closing one
after. -/
def params : Parse (List Param) := do
  if ← skip .rightParen then
    return []
  else
    advance
    let first ← param
    let others ← moreParams (← remaining)
    expect .rightParen
    return first :: others

/-! ## Expressions -/

/-- The number that decimal digits stand for. -/
def decimal (digits : String) : Nat :=
  digits.toList.foldl (fun n c => 10 * n + (c.toNat - '0'.toNat)) 0

/-- The first number that is no integer literal, `2 ^ 63`. -/
def integerLimit : Nat := 0x8000000000000000

/-- An integer literal; the digits of one that is too large are all in the error. -/
def integer (t : Token) : Parse Expr :=
  let n := decimal t.literal
  if n < integerLimit then return .integer (Int64.ofNat n)
  else reject (.integerTooLarge t.literal) t.span

/-- A prefix operator and its operand, which ends before any operator between operands. -/
def unary (inner : Phrases) (op : PrefixOp) : Parse Expr := do
  advance
  return .unary op (← inner.expression .unary)

/-- An expression between parentheses, which leave no node. -/
def grouped (inner : Phrases) : Parse Expr := do
  advance
  let e ← inner.expression .lowest
  expect .rightParen
  return e

/-- A hash literal, the opening brace being current; the entries keep the order of the source. -/
def hash (inner : Phrases) : Parse Expr := do
  let entries ← pairs inner (← remaining)
  expect .rightBrace
  return .hash entries

/-- A function literal; its body is a block, never a statement on its own. -/
def function (inner : Phrases) : Parse Expr := do
  expect .leftParen
  let ps ← params
  expect .leftBrace
  return .function ps (← block inner)

/-- A condition between parentheses and the block it guards; `if` is current. -/
def clause (inner : Phrases) : Parse Clause := do
  expect .leftParen
  advance
  let condition ← inner.expression .lowest
  expect .rightParen
  advance
  return (condition, ← body inner)

/-- The clauses after the first one, and the last `else`.  `n` bounds their number. -/
def alternatives (inner : Phrases) : (n : Nat) → Parse (List Clause × Option Block)
  | 0 => return ([], none)
  | n + 1 => do
    if ← skip .elseWord then
      if ← skip .ifWord then
        let first ← clause inner
        let (others, last) ← alternatives inner n
        return (first :: others, last)
      else
        advance
        return ([], some (← body inner))
    else
      return ([], none)

/-- A conditional with all its clauses; `if` is current. -/
def conditional (inner : Phrases) : Parse Expr := do
  let first ← clause inner
  let (others, last) ← alternatives inner (← remaining)
  return .conditional (first :: others) last

/-- What an expression starts with; its first token is current before, its last one after. -/
def leading (inner : Phrases) : Parse Expr := do
  let t ← current
  match t.kind with
  | .identifier => return .ident t.literal
  | .integer => integer t
  | .string => return .string t.literal
  | .trueWord => return .boolean true
  | .falseWord => return .boolean false
  | .bang => unary inner .not
  | .minus => unary inner .neg
  | .leftParen => grouped inner
  | .leftBracket => return .array (← items inner .rightBracket)
  | .leftBrace => hash inner
  | .ifWord => conditional inner
  | .functionWord => function inner
  | _ => reject (.noExpression t.kind) t.span

/-- Carry on `left` with the operator that is current. -/
def extension (inner : Phrases) (left : Expr) (strength : Precedence) : Extension → Parse Expr
  | .binary op => do
    advance
    return .binary op left (← inner.expression (op.rightLimit strength))
  | .call => return .call left (← items inner .rightParen)
  | .index => do
    advance
    let key ← inner.expression .lowest
    expect .rightBracket
    return .index left key

/-- Carry on `left` as long as the next operator binds tighter than `limit`.  `n` bounds the number
of operators. -/
def extend (inner : Phrases) (limit : Precedence) : (n : Nat) → (left : Expr) → Parse Expr
  | 0, left => return left
  | n + 1, left => do
    match Extension.of (← upcoming).kind with
    | none => return left
    | some (strength, how) =>
      if limit < strength then
        advance
        let longer ← extension inner left strength how
        extend inner limit n longer
      else
        return left

/-- An expression; its first token is current before, its last one after. -/
def expression (inner : Phrases) (limit : Precedence) : Parse Expr := do
  let left ← leading inner
  extend inner limit (← remaining) left

/-! ## Statements -/

/-- A semicolon may follow. -/
def optionalSemicolon : Parse Unit := do
  let _ ← skip .semicolon

/-- `let`, a name, `=` and a value. -/
def binding (inner : Phrases) : Parse Statement := do
  expect .identifier
  let t ← current
  expect .assign
  advance
  let value ← inner.expression .lowest
  optionalSemicolon
  return .bind t.literal value

/-- `return` and a value, which is required. -/
def returning (inner : Phrases) : Parse Statement := do
  advance
  let value ← inner.expression .lowest
  optionalSemicolon
  return .ret value

/-- The first clause of a loop header, with the semicolon that ends it current after. -/
def loopInit (inner : Phrases) : Parse (Option Statement) := do
  if (← current).kind = .semicolon then
    return none
  else
    let init ← inner.statement
    let t ← current
    if t.kind = .semicolon then
      return some init
    else
      reject (.missingLoopSemicolon t.kind) t.span

/-- A later clause of a loop header, with the token that closes it current after. -/
def loopClause (inner : Phrases) (close : TokenKind) : Parse (Option Expr) := do
  if (← current).kind = close then
    return none
  else
    let e ← inner.expression .lowest
    expect close
    return some e

/-- A loop: its header between parentheses, with each of the three clauses optional, and its body.
-/
def loop (inner : Phrases) : Parse Statement := do
  expect .leftParen
  advance
  let init ← loopInit inner
  advance
  let condition ← loopClause inner .semicolon
  advance
  let step ← loopClause inner .rightParen
  advance
  return .loop init condition step (← body inner)

/-- A brace that starts a statement opens a block only before one of these; before anything else it
opens a hash literal. -/
def opensBlock (next : TokenKind) : Bool :=
  next = .letWord || next = .returnWord || next = .forWord || next = .rightBrace

/-- An expression that stands for a statement. -/
def expressionStatement (inner : Phrases) : Parse Statement := do
  let e ← expression inner .lowest
  optionalSemicolon
  return .expr e

/-- A statement; its first token is current before, its last one after. -/
def statement (inner : Phrases) : Parse Statement := do
  match (← current).kind with
  | .letWord => binding inner
  | .returnWord => returning inner
  | .forWord => loop inner
  | .leftBrace =>
    if opensBlock (← upcoming).kind then
      return .block (← block inner)
    else
      expressionStatement inner
  | _ => expressionStatement inner

/-! ## Programs

A program is statements up to the end of input; errors do not stop it. -/

/-- The phrases that are nested at most `n` levels deep. -/
def phrases : (n : Nat) → Phrases
  | 0 => ⟨fun _ => fail, fail⟩
  | n + 1 =>
    let inner := phrases n
    ⟨expression inner, statement inner⟩

/-- A token that ends a program. -/
def endsProgram (kind : TokenKind) : Bool := kind = .endOfInput

/-- The statements up to the end of input. -/
def program : Parse Program := do
  let n ← remaining
  statements endsProgram (phrases (n + 1)).statement n

end Parse

/-- The outcome of reading a source.  With errors, the statements that could not be read are missing
from the program. -/
structure Parsed where
  program : Program
  /-- In the order in which they were noticed. -/
  errors : List ParseError

/-- Read a program from a token stream. -/
def parseStream (stream : TokenStream) : Parsed :=
  match Parse.program ⟨stream, []⟩ with
  | (program, s) => ⟨program.getD [], s.errors⟩

/-- Read a program from its source text. -/
def parse (source : String) : Parsed := parseStream (.ofSource source)

end Scriptlet
