import Scriptlet.Proofs.Parse.Word

/-!
# Proofs/Parse/Charges — each error is paid for by a token

The `tally` of a reader is the number of its errors and of the tokens behind the current one.  A
token that a rule requires and passes brings the tally down, and pays for an error later in the
rule: the parentheses of a loop header pay for its first clause, those of a condition for its
branch.  What is left to pay is at most one error for a phrase that is not read and for a statement,
and none for an expression; and the step to the next statement pays for the one before it.  -/

namespace Scriptlet

/-! ## The tally of a reader

Errors and tokens are counted together, so that passing a token and complaining once leaves the sum
as it was. -/

namespace ParseState

/-- The errors so far, and the tokens behind the current one. -/
def tally (s : ParseState) : Nat := s.errors.length + s.stream.advance.remaining

variable {s : ParseState}

/-- Passing a token never raises the tally; at the end of input it stays as it is. -/
theorem tally_next_le (s : ParseState) : s.next.tally ≤ s.tally := by
  have hle : s.stream.advance.advance.remaining ≤ s.stream.advance.remaining :=
    (List.tail_suffix _).length_le
  exact Nat.add_le_add_left hle _

/-- **A token that is passed pays for an error.** -/
theorem tally_next (hs : s.Ended) (h : s.stream.upcoming.kind ≠ .endOfInput) :
    s.next.tally + 1 = s.tally := by
  obtain ⟨⟨pending, stop⟩, errors⟩ := s
  match pending, h with
  | [], h => exact absurd hs h
  | [_], h => exact absurd hs h
  | _ :: _ :: pending, _ => rfl

/-- At a token, the tally counts the tokens from it on but one. -/
theorem tally_of_current (hs : s.Ended) (h : s.stream.current.kind ≠ .endOfInput) :
    s.tally + 1 = s.errors.length + s.stream.remaining := by
  obtain ⟨⟨pending, stop⟩, errors⟩ := s
  match pending, h with
  | [], h => exact absurd hs h
  | _ :: pending, _ => rfl

/-- A complaint raises it by one. -/
theorem tally_report (s : ParseState) (e : ParseError) : (s.report e).tally = s.tally + 1 := by
  show (s.errors ++ [e]).length + s.stream.advance.remaining = _
  rw [List.length_append, List.length_singleton, Nat.add_right_comm]
  rfl

/-- The tally of a reader that starts is at most the number of its tokens. -/
theorem tally_le (s : ParseState) : s.tally ≤ s.errors.length + s.stream.remaining :=
  Nat.add_le_add_left (List.tail_suffix _).length_le _

end ParseState

/-! ## What a parse costs

A parser raises the tally by a bounded amount; there is one bound for when it succeeds and one for
when it fails. -/

namespace Parse

variable {α β : Type} {a b c d : Nat}

/-- What may be added to the tally by a parse that has a result, and by one that has none. -/
def charge (done failed : Nat) : Option α → Nat
  | some _ => done
  | none => failed

/-- What both outcomes have in common can be taken out. -/
theorem charge_add (c d k : Nat) (o : Option α) : charge (c + k) (d + k) o = charge c d o + k := by
  cases o <;> rfl

/-- A charge that is the same with and without a result is a number. -/
theorem charge_same (a : Nat) (o : Option α) : charge a a o = a := by
  cases o <;> rfl

/-- From `s` on, the parse leaves the input ended and does not charge more. -/
structure CostsAt (done failed : Nat) (p : Parse α) (s : ParseState) : Prop where
  ended : (p s).2.Ended
  tally : (p s).2.tally ≤ s.tally + charge done failed (p s).1

/-- So it is from all states on. -/
def Costs (done failed : Nat) (p : Parse α) : Prop :=
  ∀ s : ParseState, s.Ended → CostsAt done failed p s

namespace CostsAt

variable {s : ParseState}

/-! A look at a token costs nothing, nor does asking how many there are: what follows is charged as
it is. -/

theorem current {f : Token → Parse β} (h : CostsAt c d (f s.stream.current) s) :
    CostsAt c d (Parse.current >>= f) s :=
  ⟨h.ended, h.tally⟩

theorem upcoming {f : Token → Parse β} (h : CostsAt c d (f s.stream.upcoming) s) :
    CostsAt c d (Parse.upcoming >>= f) s :=
  ⟨h.ended, h.tally⟩

theorem remaining {f : Nat → Parse β} (h : CostsAt c d (f s.stream.remaining) s) :
    CostsAt c d (Parse.remaining >>= f) s :=
  ⟨h.ended, h.tally⟩

/-- What is behind a token may cost one more. -/
theorem credit {f : Unit → Parse β} (hf : CostsAt (c + 1) (d + 1) (f ()) s.next)
    (hs : s.Ended) (h : s.stream.upcoming.kind ≠ .endOfInput) :
    CostsAt c d (Parse.advance >>= f) s := by
  obtain ⟨hended, hle⟩ := hf
  refine ⟨hended, ?_⟩
  have htally := ParseState.tally_next hs h
  rw [charge_add] at hle
  show (f () s.next).2.tally ≤ s.tally + charge c d (f () s.next).1
  omega

end CostsAt

namespace Costs

variable {p : Parse α} {f : α → Parse β} {kind : TokenKind}

/-- **One parser after another.** -/
theorem bind (hp : Costs a b p) (hf : ∀ x, Costs c d (f x)) (hb : b ≤ d + a) :
    Costs (c + a) (d + a) (p >>= f) := by
  intro s hs
  obtain ⟨hended, hle⟩ := hp s hs
  rcases hps : p s with ⟨_ | x, s₁⟩
  all_goals rw [hps] at hended hle
  · have hrun : (p >>= f) s = (none, s₁) := by rw [bind_apply, hps]
    refine ⟨hrun ▸ hended, ?_⟩
    rw [hrun]
    exact Nat.le_trans hle (Nat.add_le_add_left hb _)
  · have hrun : (p >>= f) s = f x s₁ := by rw [bind_apply, hps]
    obtain ⟨hended', hle'⟩ := hf x s₁ hended
    refine ⟨hrun ▸ hended', ?_⟩
    rw [hrun, charge_add]
    have hle : s₁.tally ≤ s.tally + a := hle
    omega

/-- Behind a parser that costs nothing but the error that stops it. -/
theorem free (hp : Costs 0 1 p) (hf : ∀ x, Costs c (d + 1) (f x)) : Costs c (d + 1) (p >>= f) :=
  bind hp hf (Nat.le_add_left 1 d)

theorem charged (hp : Costs 1 1 p) (hf : ∀ x, Costs c d (f x)) :
    Costs (c + 1) (d + 1) (p >>= f) :=
  bind hp hf (Nat.le_add_left 1 d)

/-- A result is no charge by itself, so any bound holds. -/
theorem pure (x : α) : Costs c d (pure x) := fun _ hs => ⟨hs, Nat.le_add_right _ _⟩

theorem fail : Costs c d (fail : Parse α) := fun _ hs => ⟨hs, Nat.le_add_right _ _⟩

/-- A complaint that lets the rule go on costs one on either outcome. -/
theorem report (fault : ParseFault) (span : Span) : Costs (c + 1) d (report fault span) := by
  refine fun s hs => ⟨hs, ?_⟩
  have htally := s.tally_report ⟨fault, span⟩
  show (s.report ⟨fault, span⟩).tally ≤ s.tally + (c + 1)
  omega

/-- A rule that gives up has one complaint, and what would follow is not run. -/
theorem reject_bind (fault : ParseFault) (span : Span) (f : α → Parse β) :
    Costs c (d + 1) (Parse.reject fault span >>= f) := by
  refine fun s hs => ⟨hs, ?_⟩
  have htally := s.tally_report ⟨fault, span⟩
  show (s.report ⟨fault, span⟩).tally ≤ s.tally + (d + 1)
  omega

theorem reject (fault : ParseFault) (span : Span) :
    Costs c (d + 1) (reject fault span : Parse α) :=
  reject_bind fault span Pure.pure

/-- An attempt always has a result, so it is charged what the two outcomes of `p` have in common. -/
theorem attempt (h : Costs a a p) : Costs a d (attempt p) := by
  intro s hs
  obtain ⟨hended, hle⟩ := h s hs
  rw [charge_same] at hle
  exact ⟨hended, hle⟩

/-- Both branches may cost as much as the whole. -/
theorem ite {P : Prop} [Decidable P] {q : Parse α} (hp : Costs c d p) (hq : Costs c d q) :
    Costs c d (if P then p else q) := by
  split
  · exact hp
  · exact hq

theorem current {f : Token → Parse β} (hf : ∀ t, Costs c d (f t)) :
    Costs c d (Parse.current >>= f) :=
  fun s hs => (hf _ s hs).current

theorem upcoming {f : Token → Parse β} (hf : ∀ t, Costs c d (f t)) :
    Costs c d (Parse.upcoming >>= f) :=
  fun s hs => (hf _ s hs).upcoming

theorem remaining {f : Nat → Parse β} (hf : ∀ n, Costs c d (f n)) :
    Costs c d (Parse.remaining >>= f) :=
  fun s hs => (hf _ s hs).remaining

/-- A token that is passed unasked may be the end of input, so it pays for nothing. -/
theorem advance {f : Unit → Parse β} (hf : Costs c d (f ())) :
    Costs c d (Parse.advance >>= f) := fun s hs =>
  have h := hf s.next hs
  ⟨h.ended, Nat.le_trans h.tally (Nat.add_le_add_right s.tally_next_le _)⟩

/-- **A token that is required pays for what follows.** -/
theorem expect {f : Unit → Parse β} (hkind : kind ≠ .endOfInput)
    (hf : Costs (c + 1) (d + 2) (f ())) : Costs c (d + 1) (Parse.expect kind >>= f) := by
  intro s hs
  unfold Parse.expect
  rw [bind_assoc]
  refine .upcoming ?_
  split
  · next h => exact .credit (hf s.next hs) hs (h ▸ hkind)
  · exact reject_bind _ _ f s hs

/-- **A token that is passed if it is there** pays if it is. -/
theorem skip {f : Bool → Parse β} (hkind : kind ≠ .endOfInput)
    (ht : Costs (c + 1) (d + 1) (f true)) (hf : Costs c d (f false)) :
    Costs c d (Parse.skip kind >>= f) := by
  intro s hs
  unfold Parse.skip
  rw [bind_assoc]
  refine .upcoming ?_
  split
  · next h =>
    rw [bind_assoc]
    exact .credit (ht s.next hs) hs (h ▸ hkind)
  · exact hf s hs

end Costs

end Parse

/-! ## What the rules cost

Rule by rule.  Each one passes the tokens that it requires before it can complain of what is behind
them. -/

/-- What is charged for a phrase at most: an expression that is read costs nothing. -/
structure Phrases.Costs (inner : Phrases) : Prop where
  expression (limit : Precedence) : Parse.Costs 0 1 (inner.expression limit)
  statement : Parse.Costs 1 1 inner.statement

namespace Parse

variable {inner : Phrases} {a b c d : Nat}

/-! ### Blocks -/

/-- **A statement is paid for by the step to the next one.** -/
theorem statements_tally {closes : TokenKind → Bool} (hend : closes .endOfInput = true)
    {p : Parse Statement} (hp : Costs 1 1 p) (n : Nat) {s : ParseState} (hs : s.Ended) :
    (statements closes p n s).2.Ended ∧
      (statements closes p n s).2.errors.length + (statements closes p n s).2.stream.remaining ≤
        s.errors.length + s.stream.remaining := by
  induction n generalizing s with
  | zero => exact ⟨hs, Nat.le_refl _⟩
  | succ n ih =>
    cases hc : closes s.stream.current.kind with
    | true =>
      rw [statements_of_closes hc]
      exact ⟨hs, Nat.le_refl _⟩
    | false =>
      obtain ⟨hended, hcost⟩ := hp s hs
      rw [charge_same] at hcost
      obtain ⟨hended', hrest⟩ :
          (statements closes p n (p s).2.next).2.Ended ∧ _ ≤ (p s).2.tally := ih hended
      have hcurrent : s.stream.current.kind ≠ .endOfInput := fun h => by
        rw [h, hend] at hc
        cases hc
      have htally := ParseState.tally_of_current hs hcurrent
      rw [statements_of_open hc]
      exact ⟨hended', Nat.le_trans hrest (Nat.le_trans hcost (Nat.le_of_eq htally))⟩

/-- A missing brace is complained of, and the block stands all the same. -/
theorem blockEnd_costs : Costs 1 1 blockEnd :=
  .current fun _ => .ite (.report _ _) (.pure ())

/-- The statements behind an opening brace. -/
theorem braced_costs (h : inner.Costs) :
    Costs 0 0 (advance >>= fun _ => remaining >>= statements endsBlock inner.statement) := by
  intro s hs
  have hrun : (statements endsBlock inner.statement s.next.stream.remaining s.next).2.Ended ∧
      _ ≤ s.next.errors.length + s.next.stream.remaining :=
    statements_tally rfl h.statement s.next.stream.remaining hs
  obtain ⟨hended, hle⟩ := hrun
  exact ⟨hended, Nat.le_trans (ParseState.tally_le _)
    (Nat.le_trans hle (Nat.le_add_right s.tally _))⟩

/-- A block that is left open is charged for, and nothing in it. -/
theorem block_costs (h : inner.Costs) : Costs 1 1 (block inner) := by
  rw [block_eq]
  exact .bind (braced_costs h) (fun b => .charged blockEnd_costs fun _ => .pure b) (Nat.zero_le _)

/-- A block that is left open, or the one statement that stands in its place and is charged for even
if it is not read. -/
theorem body_costs (h : inner.Costs) : Costs 1 1 (body inner) :=
  .current fun _ => .ite (block_costs h) (.charged (.attempt h.statement) fun _ => .pure _)

/-! ### Lists between delimiters -/

/-- Commas are passed if they are there, and each item costs nothing if it is read. -/
theorem moreItems_costs (h : inner.Costs) (n : Nat) : Costs 0 1 (moreItems inner n) := by
  induction n with
  | zero => exact .pure []
  | succ n ih =>
    exact .skip nofun (.advance (.free (h.expression .lowest) fun _ => .free ih fun _ => .pure _))
      (.pure [])

/-- The closing token is not the end of input, so to pass it pays. -/
theorem items_costs (h : inner.Costs) {close : TokenKind} (hclose : close ≠ .endOfInput) :
    Costs 0 1 (items inner close) :=
  .skip hclose (.pure []) (.advance (.free (h.expression .lowest) fun _ => .remaining fun n =>
    .free (moreItems_costs h n) fun _ => .expect hclose (.pure _)))

theorem pairEnd_costs : Costs 0 1 pairEnd :=
  .skip nofun (.pure ()) (.upcoming fun _ => .ite (.pure ()) (.reject _ _))

/-- A colon and a delimiter for each pair, each of them required. -/
theorem pairs_costs (h : inner.Costs) (n : Nat) : Costs 0 1 (pairs inner n) := by
  induction n with
  | zero => exact .pure []
  | succ n ih =>
    exact .upcoming fun _ => .ite (.pure []) (.advance (.free (h.expression .lowest) fun _ =>
      .expect nofun (.advance (.free (h.expression .lowest) fun _ => .free pairEnd_costs fun _ =>
        .free ih fun _ => .pure _))))

theorem param_costs : Costs 0 1 param :=
  .free (.current fun _ => .ite (.advance (.pure true)) (.pure false)) fun _ =>
    .current fun _ => .ite (.pure _) (.reject _ _)

theorem moreParams_costs (n : Nat) : Costs 0 1 (moreParams n) := by
  induction n with
  | zero => exact .pure []
  | succ n ih =>
    exact .skip nofun (.advance (.free param_costs fun _ => .free ih fun _ => .pure _)) (.pure [])

/-- Both parentheses are required; that the rest parameter is the last is not for this rule to say.
-/
theorem params_costs : Costs 0 1 params :=
  .skip nofun (.pure []) (.advance (.free param_costs fun _ => .remaining fun n =>
    .free (moreParams_costs n) fun _ => .expect nofun (.pure _)))

/-! ### Expressions -/

/-- The opening brace pays for the body that is left open. -/
theorem function_costs (h : inner.Costs) : Costs 0 1 (function inner) :=
  .expect nofun (.free params_costs fun _ =>
    .expect nofun (.charged (block_costs h) fun _ => .pure _))

theorem clause_costs (h : inner.Costs) : Costs 0 1 (clause inner) :=
  .expect nofun (.advance (.free (h.expression .lowest) fun _ =>
    .expect nofun (.advance (.charged (body_costs h) fun _ => .pure _))))

/-- `else` pays for the last branch. -/
theorem alternatives_costs (h : inner.Costs) (n : Nat) : Costs 0 1 (alternatives inner n) := by
  induction n with
  | zero => exact .pure _
  | succ n ih =>
    exact .skip nofun
      (.skip nofun (.free (clause_costs h) fun _ => .free ih fun _ => .pure _)
        (.advance (.charged (body_costs h) fun _ => .pure _)))
      (.pure _)

/-- Literals cost nothing unless they are out of range, which stops the rule; each bracket pays for
what it opens. -/
theorem leading_costs (h : inner.Costs) : Costs 0 1 (leading inner) := by
  refine .current fun t => ?_
  split
  · exact .pure _
  · exact .ite (.pure _) (.reject _ _)
  · exact .pure _
  · exact .pure _
  · exact .pure _
  · exact .advance (.free (h.expression .unary) fun _ => .pure _)
  · exact .advance (.free (h.expression .unary) fun _ => .pure _)
  · exact .advance (.free (h.expression .lowest) fun _ => .expect nofun (.pure _))
  · exact .free (items_costs h nofun) fun _ => .pure _
  · exact .remaining fun n => .free (pairs_costs h n) fun _ => .expect nofun (.pure _)
  · exact .free (clause_costs h) fun _ => .remaining fun n =>
      .free (alternatives_costs h n) fun _ => .pure _
  · exact function_costs h
  · exact .reject _ _

theorem extension_costs (h : inner.Costs) (left : Expr) (strength : Precedence) (how : Extension) :
    Costs 0 1 (extension inner left strength how) := by
  cases how with
  | binary op => exact .advance (.free (h.expression _) fun _ => .pure _)
  | call => exact .free (items_costs h nofun) fun _ => .pure _
  | index =>
    exact .advance (.free (h.expression .lowest) fun _ => .expect nofun (.pure _))

/-- By induction on the turns: an operator behind an operand costs nothing, as the operand does not.
-/
theorem extend_costs (h : inner.Costs) (limit : Precedence) (n : Nat) (left : Expr) :
    Costs 0 1 (extend inner limit n left) := by
  induction n generalizing left with
  | zero => exact .pure left
  | succ n ih =>
    refine .upcoming fun t => ?_
    rcases Extension.of t.kind with _ | ⟨strength, how⟩
    · exact .pure left
    · exact .ite (.advance (.free (extension_costs h left strength how) ih)) (.pure left)

/-- **An expression that is read costs nothing**, and one that is not costs the complaint that
stopped it. -/
theorem expression_costs (h : inner.Costs) (limit : Precedence) :
    Costs 0 1 (expression inner limit) :=
  .free (leading_costs h) fun left => .remaining fun n => extend_costs h limit n left

/-! ### Statements -/

/-- Nobody complains of a missing semicolon here. -/
theorem optionalSemicolon_costs : Costs 0 1 optionalSemicolon :=
  .skip nofun (.pure ()) (.pure ())

/-- The statement of the first clause is charged for, and a missing semicolon behind it. -/
theorem loopInit_costs (h : inner.Costs) : Costs 1 2 (loopInit inner) :=
  .current fun _ => .ite (.pure none) (.charged h.statement fun _ =>
    .current fun _ => .ite (.pure _) (.reject _ _))

/-- A clause that is left out costs nothing, and behind one that is not the closing token is
required. -/
theorem loopClause_costs (h : inner.Costs) {close : TokenKind} (hclose : close ≠ .endOfInput) :
    Costs 0 1 (loopClause inner close) :=
  .current fun _ => .ite (.pure none) (.free (h.expression .lowest) fun _ =>
    .expect hclose (.pure _))

/-- The opening parenthesis pays for the first clause; what is left to pay is the body. -/
theorem loop_costs (h : inner.Costs) : Costs 1 1 (loop inner) :=
  .expect nofun (.advance (.bind (loopInit_costs h) (fun _ => .advance
    (.free (loopClause_costs h nofun) fun _ => .advance (.free (loopClause_costs h nofun) fun _ =>
      .advance (.charged (body_costs h) fun _ => .pure _)))) (Nat.le_refl 2)))

theorem expressionStatement_costs (h : inner.Costs) : Costs 1 1 (expressionStatement inner) :=
  .free (expression_costs h .lowest) fun _ => .free optionalSemicolon_costs fun _ => .pure _

/-- **A statement costs one error at most**: a block at its end is left open, or it is not read. -/
theorem statement_costs (h : inner.Costs) : Costs 1 1 (statement inner) := by
  refine .current fun t => ?_
  split
  · exact .expect nofun (.current fun _ => .expect nofun (.advance
      (.free (h.expression .lowest) fun _ => .free optionalSemicolon_costs fun _ => .pure _)))
  · exact .advance
      (.free (h.expression .lowest) fun _ => .free optionalSemicolon_costs fun _ => .pure _)
  · exact loop_costs h
  · exact .upcoming fun _ => .ite (.charged (block_costs h) fun _ => .pure _)
      (expressionStatement_costs h)
  · exact expressionStatement_costs h

/-! ### Programs -/

/-- By induction on the levels: phrases that are out of levels fail without a complaint. -/
theorem phrases_costs (n : Nat) : (phrases n).Costs := by
  induction n with
  | zero => exact ⟨fun _ => .fail, .fail⟩
  | succ n ih => exact ⟨expression_costs ih, statement_costs ih⟩

/-- **A program has at most as many errors as tokens.** -/
theorem program_errors_le {stream : TokenStream} (h : stream.stop.kind = .endOfInput) :
    (program (.start stream)).2.errors.length ≤ stream.remaining := by
  obtain ⟨-, hle⟩ :
      (program (.start stream)).2.Ended ∧ _ + _ ≤ (ParseState.start stream).errors.length + _ :=
    statements_tally rfl (phrases_costs (stream.remaining + 1)).statement stream.remaining h
  rw [ParseState.start, List.length_nil, Nat.zero_add] at hle
  exact Nat.le_trans (Nat.le_add_right _ _) hle

end Parse

end Scriptlet
