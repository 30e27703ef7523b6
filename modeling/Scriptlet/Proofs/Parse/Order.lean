import Scriptlet.Proofs.Lex.Tiling
import Scriptlet.Proofs.Parse.Word

/-!
# Proofs/Parse/Order — errors come in the order of the source, but for one

A reader complains of the token that is current or of the one after it.  It is *settled* if no error
is further on than the current token, and otherwise just one token *ahead* of itself: an error was
noticed at the next token, which was not passed.  To pass it settles the reader again, and all rules
but one pass a token before they complain of the current one.

The exception is the header of a loop: what must end in a semicolon there is the token at which the
first clause has ended, and a branch in that clause that could not be read has left its error behind
at the next token.
-/

namespace Scriptlet

variable {line : List Token}

/-! ## Orders

The order is one of places in the source, with the one exception that a loop header makes. -/

/-- The tokens begin one behind the other. -/
def Ascending (line : List Token) : Prop := line.Pairwise fun t u => t.span.start ≤ u.span.start

/-- The later error does not point before the earlier one; or it is that of a missing semicolon in a
loop header, and points at the token right before that of the earlier one. -/
def InOrder (line : List Token) (earlier later : ParseError) : Prop :=
  earlier.span.start ≤ later.span.start ∨
    (∃ found, later.fault = .missingLoopSemicolon found) ∧
      ∃ t u, [t, u] <:+: line ∧ later.span = t.span ∧ earlier.span = u.span

/-- What all readers of a line have: its tokens from some point on, and errors that are in order. -/
structure ParseState.InLine (line : List Token) (s : ParseState) : Prop where
  suffix : s.stream.pending ++ [s.stream.stop] <:+ line
  ordered : s.errors.Pairwise (InOrder line)

/-- No error is further on than the current token. -/
structure ParseState.Settled (line : List Token) (s : ParseState) : Prop extends s.InLine line where
  behind : ∀ e ∈ s.errors, e.span.start ≤ s.stream.current.span.start

/-- No error is further on than the current token, but for those at the next one. -/
structure ParseState.Ahead (line : List Token) (s : ParseState) : Prop extends s.InLine line where
  behind : ∀ e ∈ s.errors, e.span.start ≤ s.stream.current.span.start ∨
    e.span = s.stream.upcoming.span

namespace ParseState

variable {s : ParseState} {e : ParseError}

/-- The next token is the current one, or it stands behind it in the line. -/
theorem next_in_line (h : s.InLine line) : s.stream.upcoming = s.stream.current ∨
    [s.stream.current, s.stream.upcoming] <:+: line := by
  obtain ⟨⟨pending, stop⟩, errors⟩ := s
  have hsuffix := h.suffix
  match pending, hsuffix with
  | [], _ => exact .inl rfl
  | [_], hsuffix => exact .inr hsuffix.isInfix
  | t :: u :: pending, hsuffix =>
    have hpair : [t, u] <+: t :: u :: pending ++ [stop] := List.prefix_append [t, u] _
    exact .inr (hpair.isInfix.trans hsuffix.isInfix)

/-- The next token begins where the current one does or behind it. -/
theorem current_le_upcoming (hline : Ascending line) (h : s.InLine line) :
    s.stream.current.span.start ≤ s.stream.upcoming.span.start := by
  obtain hsame | hnext := next_in_line h
  · rw [hsame]
  · have hpair := hline.sublist hnext.sublist
    exact List.rel_of_pairwise_cons hpair List.mem_cons_self

/-- A settled reader may have an error at the current token; it has none ahead. -/
theorem Settled.ahead (h : s.Settled line) : s.Ahead line :=
  ⟨h.toInLine, fun e he => .inl (h.behind e he)⟩

/-- The reader goes forward in its line. -/
theorem next_suffix (h : s.stream.pending ++ [s.stream.stop] <:+ line) :
    s.next.stream.pending ++ [s.next.stream.stop] <:+ line := by
  obtain ⟨⟨pending, stop⟩, errors⟩ := s
  cases pending with
  | nil => exact h
  | cons t pending => exact (List.suffix_cons t _).trans h

/-- **To pass a token settles the reader.** -/
theorem Ahead.next (hline : Ascending line) (h : s.Ahead line) : s.next.Settled line where
  suffix := next_suffix h.suffix
  ordered := h.ordered
  behind e he := by
    obtain hcurrent | hupcoming := h.behind e he
    · exact Nat.le_trans hcurrent (current_le_upcoming hline h.toInLine)
    · exact Nat.le_of_eq (congrArg Span.start hupcoming)

/-- An error that is in order with all that are there may be added. -/
theorem InLine.report (h : s.InLine line) (he : ∀ earlier ∈ s.errors, InOrder line earlier e) :
    (s.report e).InLine line where
  suffix := h.suffix
  ordered := List.pairwise_append.mpr ⟨h.ordered, List.pairwise_singleton _ _,
    fun earlier hearlier _ hlast => List.mem_singleton.mp hlast ▸ he earlier hearlier⟩

/-- What a reader has complained of after one more error. -/
theorem mem_errors_report {earlier : ParseError} (h : earlier ∈ (s.report e).errors) :
    earlier ∈ s.errors ∨ earlier = e := by
  obtain h | h := List.mem_append.mp h
  · exact .inl h
  · exact .inr (List.mem_singleton.mp h)

/-- A settled reader may complain of the current token. -/
theorem Settled.report_current (h : s.Settled line) (fault : ParseFault) :
    (s.report ⟨fault, s.stream.current.span⟩).Settled line where
  toInLine := h.toInLine.report fun earlier hearlier => .inl (h.behind earlier hearlier)
  behind e he := by
    obtain he | rfl := mem_errors_report he
    · exact h.behind e he
    · exact Nat.le_refl _

/-- Any reader may complain of the next token. -/
theorem Ahead.report_upcoming (hline : Ascending line) (h : s.Ahead line) (fault : ParseFault) :
    (s.report ⟨fault, s.stream.upcoming.span⟩).Ahead line where
  toInLine := h.toInLine.report fun earlier hearlier =>
    .inl ((h.next hline).behind earlier hearlier)
  behind e he := by
    obtain he | rfl := mem_errors_report he
    · exact h.behind e he
    · exact .inr rfl

/-- **The exception**: a complaint of the current token where an error may be ahead. -/
theorem Ahead.report_semicolon (h : s.Ahead line) (found : TokenKind) :
    (s.report ⟨.missingLoopSemicolon found, s.stream.current.span⟩).Ahead line where
  toInLine := by
    refine h.toInLine.report fun earlier hearlier => ?_
    obtain hcurrent | hupcoming := h.behind earlier hearlier
    · exact .inl hcurrent
    obtain hsame | hnext := next_in_line h.toInLine
    · rw [hsame] at hupcoming
      exact .inl (Nat.le_of_eq (congrArg Span.start hupcoming))
    · exact .inr ⟨⟨found, rfl⟩, _, _, hnext, rfl, hupcoming⟩
  behind e he := by
    obtain he | rfl := mem_errors_report he
    · exact h.behind e he
    · exact .inl (Nat.le_refl _)

end ParseState

/-! ## Orderly parsers

A parser is followed with one of two claims about its state: that it is settled, or that it may be
one token ahead. -/

namespace Parse

variable {α β : Type}

/-- From all states with `P`, the parser leaves its errors in order, and is at most a token ahead.
-/
def Orderly (line : List Token) (P : ParseState → Prop) (p : Parse α) : Prop :=
  ∀ s, P s → (p s).2.Ahead line

namespace Orderly

open ParseState

variable {P Q : ParseState → Prop} {p : Parse α} {f : α → Parse β}

/-! A parser is run from a state with `P`, mostly `Settled` or `Ahead`; it always leaves one that is
`Ahead`. So a rule that must start settled, because it may complain of the current token, can stand
only behind a token that was passed. -/

theorem mono (h : Orderly line P p) (hQ : ∀ s, Q s → P s) : Orderly line Q p :=
  fun s hs => h s (hQ s hs)

theorem settled (h : Orderly line (Ahead line) p) : Orderly line (Settled line) p :=
  h.mono fun _ => Settled.ahead

/-- **One parser after another.** -/
theorem bind (hp : Orderly line P p) (hf : ∀ a, Orderly line (Ahead line) (f a)) :
    Orderly line P (p >>= f) := by
  intro s hs
  have hs₁ := hp s hs
  rw [bind_apply]
  rcases hps : p s with ⟨_ | a, s₁⟩
  all_goals rw [hps] at hs₁
  · exact hs₁
  · exact hf a s₁ hs₁

/-- The same, behind a parser that leaves the reader settled. -/
theorem bind_settled (hp : ∀ s, P s → (p s).2.Settled line)
    (hf : ∀ a, Orderly line (Settled line) (f a)) : Orderly line P (p >>= f) := by
  intro s hs
  have hs₁ := hp s hs
  rw [bind_apply]
  rcases hps : p s with ⟨_ | a, s₁⟩
  all_goals rw [hps] at hs₁
  · exact hs₁.ahead
  · exact hf a s₁ hs₁

theorem pure (a : α) : Orderly line (Ahead line) (pure a) := fun _ hs => hs

/-- That a parser has no result does not matter here. -/
theorem attempt (h : Orderly line P p) : Orderly line P (attempt p) := h

/-- Both branches have to be orderly. -/
theorem ite {c : Prop} [Decidable c] {q : Parse α} (hp : Orderly line P p)
    (hq : Orderly line P q) : Orderly line P (if c then p else q) := by
  split
  · exact hp
  · exact hq

/-- The current token is remembered. -/
theorem current {f : Token → Parse β}
    (hf : ∀ t, Orderly line (fun s => P s ∧ s.stream.current = t) (f t)) :
    Orderly line P (Parse.current >>= f) :=
  fun s hs => hf _ s ⟨hs, rfl⟩

/-- The next token is remembered. -/
theorem upcoming {f : Token → Parse β}
    (hf : ∀ t, Orderly line (fun s => P s ∧ s.stream.upcoming = t) (f t)) :
    Orderly line P (Parse.upcoming >>= f) :=
  fun s hs => hf _ s ⟨hs, rfl⟩

/-- A token that was remembered need not be used. -/
theorem forget {t : Token} {look : ParseState → Token} (h : Orderly line P p) :
    Orderly line (fun s => P s ∧ look s = t) p :=
  h.mono fun _ hs => hs.1

theorem remaining {f : Nat → Parse β} (hf : ∀ n, Orderly line P (f n)) :
    Orderly line P (Parse.remaining >>= f) :=
  fun s hs => hf _ s hs

/-- Behind a token that was passed, what follows starts settled. -/
theorem advance (hline : Ascending line) {f : Unit → Parse β}
    (hf : Orderly line (Settled line) (f ())) : Orderly line (Ahead line) (Parse.advance >>= f) :=
  fun _ hs => hf _ (hs.next hline)

/-- To give up at the current token needs a settled reader. -/
theorem reject_current (fault : ParseFault) (t : Token) :
    Orderly line (fun s => s.Settled line ∧ s.stream.current = t)
      (reject fault t.span : Parse α) := by
  rintro s ⟨hs, rfl⟩
  exact (hs.report_current fault).ahead

/-- To give up at the next token needs nothing. -/
theorem reject_upcoming (hline : Ascending line) (fault : ParseFault) (t : Token) :
    Orderly line (fun s => s.Ahead line ∧ s.stream.upcoming = t)
      (reject fault t.span : Parse α) := by
  rintro s ⟨hs, rfl⟩
  exact hs.report_upcoming hline fault

/-- Either the token is passed, or the complaint is about it. -/
theorem expect (hline : Ascending line) (kind : TokenKind) :
    Orderly line (Ahead line) (expect kind) :=
  upcoming fun t => ite (forget (advance hline (settled (pure ())))) (reject_upcoming hline _ t)

theorem skip (hline : Ascending line) (kind : TokenKind) :
    Orderly line (Ahead line) (skip kind) :=
  upcoming fun _ => ite (forget (advance hline (settled (pure true)))) (forget (pure false))

end Orderly

end Parse

/-- The phrases, which are read from their first token on, leave errors in order. -/
structure Phrases.Orderly (line : List Token) (inner : Phrases) : Prop where
  expression (limit : Precedence) :
    Parse.Orderly line (ParseState.Settled line) (inner.expression limit)
  statement : Parse.Orderly line (ParseState.Settled line) inner.statement

namespace Parse

open ParseState

variable {inner : Phrases} (hline : Ascending line)

include hline

/-! ### Blocks -/

/-- Statements begin settled and end settled: each is followed by a step. -/
theorem statements_settled {closes : TokenKind → Bool} {p : Parse Statement}
    (hp : Orderly line (Settled line) p) (n : Nat) {s : ParseState} (hs : s.Settled line) :
    (statements closes p n s).2.Settled line := by
  induction n generalizing s with
  | zero => exact hs
  | succ n ih =>
    cases hc : closes s.stream.current.kind with
    | true =>
      rw [statements_of_closes hc]
      exact hs
    | false =>
      rw [statements_of_open hc]
      exact ih ((hp s hs).next hline)

omit hline in
/-- A block that is left open is complained of at the end of input, which is current then. -/
theorem blockEnd_orderly : Orderly line (Settled line) blockEnd := by
  refine .current fun t => .ite ?_ (Orderly.pure ()).settled.forget
  rintro s ⟨hs, rfl⟩
  exact (hs.report_current .unclosedBlock).ahead

theorem block_orderly (h : inner.Orderly line) : Orderly line (Ahead line) (block inner) := by
  rw [block_eq]
  refine .bind_settled (fun s hs => ?_) fun _ => .bind (blockEnd_orderly) fun _ => .pure _
  exact statements_settled hline h.statement s.next.stream.remaining (hs.next hline)

/-- A body starts at the token behind a parenthesis. -/
theorem body_orderly (h : inner.Orderly line) : Orderly line (Settled line) (body inner) :=
  .current fun _ => .ite (block_orderly hline h).settled.forget
    (.bind h.statement.attempt.forget fun _ => .pure _)

/-! ### Lists between delimiters -/

/-- Each item starts behind its comma. -/
theorem moreItems_orderly (h : inner.Orderly line) (n : Nat) :
    Orderly line (Ahead line) (moreItems inner n) := by
  induction n with
  | zero => exact .pure []
  | succ n ih =>
    exact .bind (.skip hline .comma) fun _ => .ite
      (.advance hline (.bind (h.expression .lowest) fun _ => .bind ih fun _ => .pure _)) (.pure [])

/-- The closing token is asked for one ahead. -/
theorem items_orderly (h : inner.Orderly line) (close : TokenKind) :
    Orderly line (Ahead line) (items inner close) :=
  .bind (.skip hline close) fun _ => .ite (.pure [])
    (.advance hline (.bind (h.expression .lowest) fun _ => .remaining fun n =>
      .bind (moreItems_orderly hline h n) fun _ => .bind (.expect hline close) fun _ => .pure _))

theorem pairEnd_orderly : Orderly line (Ahead line) pairEnd :=
  .bind (.skip hline .comma) fun _ => .ite (.pure ())
    (.upcoming fun t => .ite (.forget (.pure ())) (.reject_upcoming hline _ t))

/-- Key and value both start behind a token that was passed. -/
theorem pairs_orderly (h : inner.Orderly line) (n : Nat) :
    Orderly line (Ahead line) (pairs inner n) := by
  induction n with
  | zero => exact .pure []
  | succ n ih =>
    exact .upcoming fun _ => .forget (.ite (.pure []) (.advance hline
      (.bind (h.expression .lowest) fun _ => .bind (.expect hline .colon) fun _ =>
        .advance hline (.bind (h.expression .lowest) fun _ =>
          .bind (pairEnd_orderly hline) fun _ => .bind ih fun _ => .pure _))))

/-- The dots are passed or not, and the reader is settled either way. -/
theorem ellipsis_settled {s : ParseState} (hs : s.Settled line) : (ellipsis s).2.Settled line := by
  unfold ellipsis
  rw [bind_apply]
  simp only [current]
  split
  · exact hs.ahead.next hline
  · exact hs

/-- A parameter that is no name is complained of at the current token. -/
theorem param_orderly : Orderly line (Settled line) param :=
  .bind_settled (fun _ => ellipsis_settled hline) fun _ => .current fun t =>
    .ite (Orderly.pure _).settled.forget (.reject_current _ t)

theorem moreParams_orderly (n : Nat) : Orderly line (Ahead line) (moreParams n) := by
  induction n with
  | zero => exact .pure []
  | succ n ih =>
    exact .bind (.skip hline .comma) fun _ => .ite
      (.advance hline (.bind (param_orderly hline) fun _ => .bind ih fun _ => .pure _)) (.pure [])

theorem params_orderly : Orderly line (Ahead line) params :=
  .bind (.skip hline .rightParen) fun _ => .ite (.pure [])
    (.advance hline (.bind (param_orderly hline) fun _ => .remaining fun n =>
      .bind (moreParams_orderly hline n) fun _ => .bind (.expect hline .rightParen) fun _ =>
        .pure _))

/-! ### Expressions -/

theorem function_orderly (h : inner.Orderly line) :
    Orderly line (Ahead line) (function inner) :=
  .bind (.expect hline .leftParen) fun _ => .bind (params_orderly hline) fun _ =>
    .bind (.expect hline .leftBrace) fun _ => .bind (block_orderly hline h) fun _ => .pure _

/-- Condition and body start behind a parenthesis each. -/
theorem clause_orderly (h : inner.Orderly line) : Orderly line (Ahead line) (clause inner) :=
  .bind (.expect hline .leftParen) fun _ => .advance hline
    (.bind (h.expression .lowest) fun _ => .bind (.expect hline .rightParen) fun _ =>
      .advance hline (.bind (body_orderly hline h) fun _ => .pure _))

theorem alternatives_orderly (h : inner.Orderly line) (n : Nat) :
    Orderly line (Ahead line) (alternatives inner n) := by
  induction n with
  | zero => exact .pure _
  | succ n ih =>
    refine .bind (.skip hline .elseWord) fun _ => .ite
      (.bind (.skip hline .ifWord) fun _ => .ite ?_ ?_) (.pure _)
    · exact .bind (clause_orderly hline h) fun _ => .bind ih fun _ => .pure _
    · exact .advance hline (.bind (body_orderly hline h) fun _ => .pure _)

theorem conditional_orderly (h : inner.Orderly line) :
    Orderly line (Ahead line) (conditional inner) :=
  .bind (clause_orderly hline h) fun _ => .remaining fun n =>
    .bind (alternatives_orderly hline h n) fun _ => .pure _

theorem unary_orderly (h : inner.Orderly line) (op : PrefixOp) :
    Orderly line (Ahead line) (unary inner op) :=
  .advance hline (.bind (h.expression .unary) fun _ => .pure _)

/-- **What an expression starts with**: the only rule for expressions that complains of the current
token, and so must start settled. -/
theorem leading_orderly (h : inner.Orderly line) : Orderly line (Settled line) (leading inner) := by
  refine .current fun t => ?_
  split
  · exact (Orderly.pure _).settled.forget
  · exact .ite (Orderly.pure _).settled.forget (.reject_current _ t)
  · exact (Orderly.pure _).settled.forget
  · exact (Orderly.pure _).settled.forget
  · exact (Orderly.pure _).settled.forget
  · exact (unary_orderly hline h .not).settled.forget
  · exact (unary_orderly hline h .neg).settled.forget
  · exact .forget (.settled (.advance hline (.bind (h.expression .lowest) fun _ =>
      .bind (.expect hline .rightParen) fun _ => .pure _)))
  · exact .forget (.settled (.bind (items_orderly hline h _) fun _ => .pure _))
  · exact .forget (.settled (.remaining fun n => .bind (pairs_orderly hline h n) fun _ =>
      .bind (.expect hline .rightBrace) fun _ => .pure _))
  · exact (conditional_orderly hline h).settled.forget
  · exact (function_orderly hline h).settled.forget
  · exact .reject_current _ t

/-- An operator is current, so its operand starts behind it. -/
theorem extension_orderly (h : inner.Orderly line) (left : Expr) (strength : Precedence)
    (how : Extension) : Orderly line (Ahead line) (extension inner left strength how) := by
  cases how with
  | binary op => exact .advance hline (.bind (h.expression _) fun _ => .pure _)
  | call => exact .bind (items_orderly hline h .rightParen) fun _ => .pure _
  | index =>
    exact .advance hline (.bind (h.expression .lowest) fun _ =>
      .bind (.expect hline .rightBracket) fun _ => .pure _)

/-- By induction on the turns; each operator is passed before it is used. -/
theorem extend_orderly (h : inner.Orderly line) (limit : Precedence) (n : Nat) (left : Expr) :
    Orderly line (Ahead line) (extend inner limit n left) := by
  induction n generalizing left with
  | zero => exact .pure left
  | succ n ih =>
    refine .upcoming fun t => .forget ?_
    rcases Extension.of t.kind with _ | ⟨strength, how⟩
    · exact .pure left
    · exact .ite (.advance hline (.bind (extension_orderly hline h left strength how).settled ih))
        (.pure left)

/-- An expression starts settled and may end one token ahead. -/
theorem expression_orderly (h : inner.Orderly line) (limit : Precedence) :
    Orderly line (Settled line) (expression inner limit) :=
  .bind (leading_orderly hline h) fun left => .remaining fun n =>
    extend_orderly hline h limit n left

/-! ### Statements -/

theorem optionalSemicolon_orderly : Orderly line (Ahead line) optionalSemicolon :=
  .bind (.skip hline .semicolon) fun _ => .pure ()

omit hline in
/-- The one rule that complains of the current token where the reader may be ahead. -/
theorem loopInit_orderly (h : inner.Orderly line) :
    Orderly line (Settled line) (loopInit inner) := by
  refine .current fun _ => .forget (.ite (Orderly.pure none).settled
    (.bind h.statement fun init => .current fun t => .ite (.forget (.pure _)) ?_))
  rintro s ⟨hs, rfl⟩
  exact hs.report_semicolon _

/-- A later clause starts behind the semicolon that ends the one before. -/
theorem loopClause_orderly (h : inner.Orderly line) (close : TokenKind) :
    Orderly line (Settled line) (loopClause inner close) :=
  .current fun _ => .forget (.ite (Orderly.pure none).settled
    (.bind (h.expression .lowest) fun _ => .bind (.expect hline close) fun _ => .pure _))

/-- **The loop header**: all its parts start behind a token that was passed, but for what the first
clause leaves. -/
theorem loop_orderly (h : inner.Orderly line) : Orderly line (Ahead line) (loop inner) :=
  .bind (.expect hline .leftParen) fun _ => .advance hline
    (.bind (loopInit_orderly h) fun _ => .advance hline
      (.bind (loopClause_orderly hline h .semicolon) fun _ => .advance hline
        (.bind (loopClause_orderly hline h .rightParen) fun _ => .advance hline
          (.bind (body_orderly hline h) fun _ => .pure _))))

/-- As for the expression. -/
theorem expressionStatement_orderly (h : inner.Orderly line) :
    Orderly line (Settled line) (expressionStatement inner) :=
  .bind (expression_orderly hline h .lowest) fun _ =>
    .bind (optionalSemicolon_orderly hline) fun _ => .pure _

/-- A statement starts at a token that was passed, whether it is the first of its list or not. -/
theorem statement_orderly (h : inner.Orderly line) :
    Orderly line (Settled line) (statement inner) := by
  refine .current fun t => .forget ?_
  split
  · exact .settled (.bind (.expect hline .identifier) fun _ => .current fun _ => .forget
      (.bind (.expect hline .assign) fun _ => .advance hline
        (.bind (h.expression .lowest) fun _ => .bind (optionalSemicolon_orderly hline) fun _ =>
          .pure _)))
  · exact .settled (.advance hline (.bind (h.expression .lowest) fun _ =>
      .bind (optionalSemicolon_orderly hline) fun _ => .pure _))
  · exact (loop_orderly hline h).settled
  · exact .upcoming fun _ => .forget (.ite
      (.settled (.bind (block_orderly hline h) fun _ => .pure _))
      (expressionStatement_orderly hline h))
  · exact expressionStatement_orderly hline h

/-- By induction on the levels. -/
theorem phrases_orderly (n : Nat) : (phrases n).Orderly line := by
  induction n with
  | zero => exact ⟨fun _ _ hs => hs.ahead, fun _ hs => hs.ahead⟩
  | succ n ih => exact ⟨expression_orderly hline ih, statement_orderly hline ih⟩

end Parse

/-! ## Sources

The tokens of a source begin one behind the other, so order in the line is order in the source. -/

/-- Tokens that leave gaps of no negative length between them begin one behind the other. -/
theorem ascending_of_gaps {place size : Nat} {ts : List Token}
    (hgaps : ∀ gap ∈ gaps place size ts, gap.start ≤ gap.stop)
    (hspans : ∀ t ∈ ts, t.span.start ≤ t.span.stop) :
    Ascending (ts ++ [.endAt size]) ∧ ∀ t ∈ ts ++ [.endAt size], place ≤ t.span.start := by
  induction ts generalizing place with
  | nil =>
    have hplace : place ≤ size := hgaps _ List.mem_cons_self
    exact ⟨List.pairwise_singleton _ _, List.forall_mem_singleton.mpr hplace⟩
  | cons t ts ih =>
    obtain ⟨hplace, hgaps⟩ := List.forall_mem_cons.mp hgaps
    obtain ⟨hspan, hspans⟩ := List.forall_mem_cons.mp hspans
    obtain ⟨hascending, hbehind⟩ := ih hgaps hspans
    have hplace : place ≤ t.span.start := hplace
    have hfirst : ∀ u ∈ ts ++ [.endAt size], t.span.start ≤ u.span.start :=
      fun u hu => Nat.le_trans hspan (hbehind u hu)
    exact ⟨List.pairwise_cons.mpr ⟨hfirst, hascending⟩,
      List.forall_mem_cons.mpr ⟨hplace, fun u hu => Nat.le_trans hplace (hfirst u hu)⟩⟩

/-- The tokens of a source and the end of input behind them. -/
def sourceLine (source : String) : List Token :=
  tokenize source ++ [.endAt source.utf8ByteSize]

/-- The tokens of a source do not overlap, so they begin one behind the other. -/
theorem ascending_sourceLine (source : String) : Ascending (sourceLine source) := by
  have htiles := tiles_tokenize source
  have hgaps := fun gap hgap => (htiles.gaps gap hgap).1
  have hspans := fun t ht => Nat.le_of_lt (htiles.within t ht).nonempty
  exact (ascending_of_gaps hgaps hspans).1

/-- **Parse errors come in the order of the source, but for one kind.**  Of two errors of a source,
the later one does not point before the earlier one, unless it is that of a missing semicolon in a
loop header, which may point at the token right before that of an earlier error. -/
theorem parse_errors_inOrder (source : String) :
    (parse source).errors.Pairwise (InOrder (sourceLine source)) := by
  have hline := ascending_sourceLine source
  have hstart : (ParseState.start (.ofSource source)).Settled (sourceLine source) :=
    ⟨⟨List.suffix_refl _, .nil⟩, List.forall_mem_nil _⟩
  have hphrases := Parse.phrases_orderly hline ((tokenize source).length + 1)
  exact (Parse.statements_settled hline hphrases.statement _ hstart).ordered

/-- The branch in the first clause asks for a name at `1` and is given up at `let`, where the loop
misses its semicolon. -/
theorem parse_errors_not_ascending :
    ¬ ∀ source : String, (parse source).errors.Pairwise fun e e' => e.span.start ≤ e'.span.start :=
  fun h => absurd (h "for (if (a) let 1") (by decide +kernel)

end Scriptlet
