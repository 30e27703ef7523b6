import Scriptlet.Proofs.Lex.Append
import Scriptlet.Proofs.Parse.Alike

/-!
# Proofs/Parse/Shift — a parser does the same further on in a text

Tokens that begin `k` bytes further on differ from the others in places only, so a parser does with
them what it does with the others, and its errors are further on as well.
-/

namespace Scriptlet

/-! ## Moved on by `k` bytes

To move a stream on is one of the ways to be alike but for places. -/

/-- The error, noticed `k` bytes further on. -/
def ParseError.shift (k : Nat) (e : ParseError) : ParseError := { e with span := e.span.shift k }

/-- The stream, further on by `k` bytes with all its tokens and its end. -/
def TokenStream.shift (k : Nat) (s : TokenStream) : TokenStream :=
  ⟨s.pending.map (Token.shift k), s.stop.shift k⟩

/-- The state, further on with what it has complained of. -/
def ParseState.shift (k : Nat) (s : ParseState) : ParseState :=
  ⟨s.stream.shift k, s.errors.map (ParseError.shift k)⟩

namespace Parse

variable {α : Type} {k n : Nat}

/-- From `s` on, `q` does `k` bytes further on what `p` does, which leaves the end of the stream in
place and goes forward. -/
structure ShiftsAt (k : Nat) (p q : Parse α) (s : ParseState) : Prop where
  moved : q (s.shift k) = ((p s).1, (p s).2.shift k)
  stop : (p s).2.stream.stop = s.stream.stop
  forward : (p s).2.stream.pending <:+ s.stream.pending

/-- On streams of at most `n` tokens, `q` does `k` bytes further on what `p` does. -/
def Shifts (k n : Nat) (p q : Parse α) : Prop :=
  ∀ s : ParseState, s.Ended → s.stream.remaining ≤ n → ShiftsAt k p q s

/-! ## Further on is elsewhere

A state that is moved on differs from the other one in places only, and in no other way. -/

/-- The place `k` bytes further on. -/
def Further (k : Nat) (σ τ : Span) : Prop := τ = σ.shift k

/-- A state that is moved on is like the other one. -/
theorem alike_shift (k : Nat) (s : ParseState) : s.Alike (Further k) (s.shift k) :=
  ⟨⟨List.forall₂_map_right_iff.mpr (List.forall₂_same.mpr fun _ _ => ⟨rfl, rfl, rfl⟩),
    rfl, rfl, rfl⟩,
    List.forall₂_map_right_iff.mpr (List.forall₂_same.mpr fun _ _ => ⟨rfl, rfl⟩)⟩

/-- A token at the place further on is the token moved on. -/
theorem shift_token_alike {a b : Token} (h : Token.Alike (Further k) a b) :
    Token.Alike Eq (a.shift k) b :=
  ⟨h.kind, h.literal, h.span.symm⟩

theorem shift_error_alike {e f : ParseError} (h : ParseError.Alike (Further k) e f) :
    ParseError.Alike Eq (e.shift k) f :=
  ⟨h.fault, h.span.symm⟩

/-- A state that is like another one, each place further on by `k`, is that state moved on. -/
theorem eq_shift_of_alike {s t : ParseState} (h : s.Alike (Further k) t) : t = s.shift k := by
  have hpending := h.stream.pending.imp fun _ _ => shift_token_alike
  have herrors := h.errors.imp fun _ _ => shift_error_alike
  have hsame : (s.shift k).Alike Eq t :=
    ⟨⟨List.forall₂_map_left_iff.mpr hpending, shift_token_alike h.stream.stop⟩,
      List.forall₂_map_left_iff.mpr herrors⟩
  exact hsame.eq.symm

/-- So what was said of parsers that are alike is said here. -/
theorem shiftsAt_iff {p q : Parse α} {s : ParseState} :
    ShiftsAt k p q s ↔ AlikeAt (Further k) p q s (s.shift k) := by
  constructor
  · rintro ⟨hmoved, hstop, hforward⟩
    refine ⟨by rw [hmoved], ?_, hstop, hforward⟩
    rw [hmoved]
    exact alike_shift k _
  · rintro ⟨hresult, hstate, hstop, hforward⟩
    exact ⟨Prod.ext hresult (eq_shift_of_alike hstate), hstop, hforward⟩

theorem shifts_iff {p q : Parse α} : Shifts k n p q ↔ Alike (Further k) n p q := by
  constructor
  · intro h s t hst hs hlen
    obtain rfl := eq_shift_of_alike hst
    exact shiftsAt_iff.mp (h s hs hlen)
  · exact fun h s hs hlen => shiftsAt_iff.mpr (h s _ (alike_shift k s) hs hlen)

end Parse

/-- On streams of at most `n` tokens, the phrases are read alike `k` bytes further on. -/
structure Phrases.Shifts (k n : Nat) (inner outer : Phrases) : Prop where
  expression (limit : Precedence) :
    Parse.Shifts k n (inner.expression limit) (outer.expression limit)
  statement : Parse.Shifts k n inner.statement outer.statement

namespace Parse

variable {k n : Nat}

/-- **How many levels there are does not matter**, if there are more than tokens. -/
theorem phrases_shifts (k n : Nat) {m m' : Nat} (hm : n < m) (hm' : n < m') :
    (phrases m).Shifts k n (phrases m') :=
  have h := phrases_alike hm hm'
  ⟨fun limit => shifts_iff.mpr (h.expression limit), shifts_iff.mpr h.statement⟩

/-- **How many turns there are does not matter**, if there are as many as tokens. -/
theorem statements_shiftsAt {closes : TokenKind → Bool} (hend : closes .endOfInput = true)
    {p q : Parse Statement} (h : Shifts k n p q) {m m' : Nat} {s : ParseState} (hs : s.Ended)
    (hn : s.stream.remaining ≤ n) (hm : s.stream.remaining ≤ m) (hm' : s.stream.remaining ≤ m') :
    ShiftsAt k (statements closes p m) (statements closes q m') s :=
  shiftsAt_iff.mpr (statements_alikeAt hend (shifts_iff.mp h) (alike_shift k s) hs hn hm hm')

end Parse

end Scriptlet
