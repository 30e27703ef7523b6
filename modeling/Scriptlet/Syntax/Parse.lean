import Scriptlet.Token.Stream
import Scriptlet.Syntax.ParseError

/-!
# Syntax/Parse — reading with a position and a list of faults

A parse moves over a token stream, collects errors, and ends with a result or without one.  A failed
parse keeps its position and its errors, so the reader around it carries on from there.
-/

namespace Scriptlet

/-- Where a reader stands, and what it has complained of on the way. -/
structure ParseState where
  stream : TokenStream
  /-- The errors noticed so far, in the order in which they were noticed. -/
  errors : List ParseError

/-- A reader of tokens, which may end without a result. -/
def Parse (α : Type) : Type := ParseState → Option α × ParseState

namespace Parse

variable {α β : Type}

@[always_inline]
instance : Monad Parse where
  pure a := fun s => (some a, s)
  bind p f := fun s =>
    match p s with
    | (some a, s) => f a s
    | (none, s) => (none, s)

/-- A parse that has no result ends the rule it stands in, with the position and the errors it has.
-/
theorem bind_apply (p : Parse α) (f : α → Parse β) (s : ParseState) :
    (p >>= f) s = match p s with
      | (some a, s) => f a s
      | (none, s) => (none, s) := rfl

instance : LawfulMonad Parse :=
  LawfulMonad.mk' Parse
    (fun p => by
      funext s
      show (p >>= pure) s = p s
      rw [bind_apply]
      rcases p s with ⟨_ | a, s⟩ <;> rfl)
    (fun _ _ => rfl)
    (fun p f g => by
      funext s
      simp only [bind_apply]
      rcases p s with ⟨_ | a, s⟩ <;> rfl)

/-- End without a result. -/
def fail : Parse α := fun s => (none, s)

/-- The parse as one that always has a result. -/
def attempt (p : Parse α) : Parse (Option α) := fun s =>
  match p s with
  | (result, s) => (some result, s)

/-- The token at the position. -/
def current : Parse Token := fun s => (some s.stream.current, s)

/-- The token after the position. -/
def upcoming : Parse Token := fun s => (some s.stream.upcoming, s)

/-- The number of tokens from the position on. -/
def remaining : Parse Nat := fun s => (some s.stream.remaining, s)

/-- Move to the next token. -/
def advance : Parse Unit := fun s => (some (), { s with stream := s.stream.advance })

/-- Note an error, and carry on. -/
def report (fault : ParseFault) (span : Span) : Parse Unit := fun s =>
  (some (), { s with errors := s.errors ++ [⟨fault, span⟩] })

/-- Note an error, and end without a result. -/
def reject (fault : ParseFault) (span : Span) : Parse α := do
  report fault span
  fail

/-- Move to the next token, which must be of the given kind. -/
def expect (kind : TokenKind) : Parse Unit := do
  let t ← upcoming
  if t.kind = kind then advance else reject (.unexpectedToken kind t.kind) t.span

/-- Move to the next token if it is of the given kind; tell whether it was. -/
def skip (kind : TokenKind) : Parse Bool := do
  if (← upcoming).kind = kind then
    advance
    return true
  else
    return false

end Parse

end Scriptlet
