import Mathlib.Logic.Function.Iterate
import Scriptlet.Proofs.Parse.Alike
import Scriptlet.Proofs.Parse.Charges
import Scriptlet.Proofs.Lex.Words

/-!
# Proofs/Parse/Termination — a parser stops by itself, at the end of input

The rules are given a number of turns for each of their loops and a number of levels.  These are
variants and no budgets: every turn passes a token, and at the end of input each loop leaves by its
own test or fails.  So with more turns than there are tokens a loop never runs out of them
(`Phrases.LoopsEnd`): whatever would be done then, the result is that of the parser.

A program is read up to the end of input, and what is in front of that pays for its errors.
-/

namespace Scriptlet

variable {R : Span → Span → Prop}

namespace Parse

variable {α β : Type} {inner outer : Phrases} {kind : TokenKind} {k n m m' : Nat} {s t : ParseState}

theorem AlikeAt.run_eq {p q : Parse α} (h : AlikeAt Eq p q s s) : p s = q s :=
  Prod.ext h.result.symm h.state.eq

/-! ## One turn of each loop

A loop is one turn of it, over and over, and then what is done when the turns are out.  In the
parser that is to leave, as the loop does by itself; here it is left open.  In each turn, `others`
are the turns that are left. -/

/-- Statements up to a token that closes the list: one of them. -/
def statementsTurn (closes : TokenKind → Bool) (statement : Parse Statement)
    (others : Parse Block) : Parse Block := do
  if closes (← current).kind then
    return []
  else
    let first ← attempt statement
    advance
    let rest ← others
    return first.toList ++ rest

/-- An item after a comma, if there is one. -/
def moreItemsTurn (inner : Phrases) (others : Parse (List Expr)) : Parse (List Expr) := do
  if ← skip .comma then
    advance
    let first ← inner.expression .lowest
    let rest ← others
    return first :: rest
  else
    return []

/-- A pair of a hash literal, if its closing brace is not next. -/
def pairsTurn (inner : Phrases) (others : Parse (List (Expr × Expr))) :
    Parse (List (Expr × Expr)) := do
  if (← upcoming).kind = .rightBrace then
    return []
  else
    advance
    let key ← inner.expression .lowest
    expect .colon
    advance
    let value ← inner.expression .lowest
    pairEnd
    let rest ← others
    return (key, value) :: rest

/-- A parameter after a comma, if there is one. -/
def moreParamsTurn (others : Parse (List Param)) : Parse (List Param) := do
  if ← skip .comma then
    advance
    let first ← param
    let rest ← others
    return first :: rest
  else
    return []

/-- An `else`, if there is one, with a clause or the last block. -/
def alternativesTurn (inner : Phrases) (others : Parse (List Clause × Option Block)) :
    Parse (List Clause × Option Block) := do
  if ← skip .elseWord then
    if ← skip .ifWord then
      let first ← clause inner
      let (rest, last) ← others
      return (first :: rest, last)
    else
      advance
      return ([], some (← body inner))
  else
    return ([], none)

/-- An operator that binds tighter than the limit, if there is one. -/
def extendTurn (inner : Phrases) (limit : Precedence) (others : Expr → Parse Expr) (left : Expr) :
    Parse Expr := do
  match Extension.of (← upcoming).kind with
  | none => return left
  | some (strength, how) =>
    if limit < strength then
      advance
      let longer ← extension inner left strength how
      others longer
    else
      return left

/-- What does one turn more each time is that turn, over and over. -/
theorem eq_iterate {γ : Type} (loop : Nat → γ) (turn : γ → γ)
    (h : ∀ n, loop (n + 1) = turn (loop n)) (n : Nat) : loop n = turn^[n] (loop 0) := by
  induction n with
  | zero => rfl
  | succ n ih => rw [Function.iterate_succ_apply', ← ih, h]

/-- **The loops of the parser** are these turns, and leave when they are out of them. -/
theorem statements_eq_iterate (closes : TokenKind → Bool) (p : Parse Statement) (n : Nat) :
    statements closes p n = (statementsTurn closes p)^[n] (return []) :=
  eq_iterate (statements closes p) (statementsTurn closes p) (fun _ => rfl) n

theorem moreItems_eq_iterate (inner : Phrases) (n : Nat) :
    moreItems inner n = (moreItemsTurn inner)^[n] (return []) :=
  eq_iterate (moreItems inner) (moreItemsTurn inner) (fun _ => rfl) n

theorem pairs_eq_iterate (inner : Phrases) (n : Nat) :
    pairs inner n = (pairsTurn inner)^[n] (return []) :=
  eq_iterate (pairs inner) (pairsTurn inner) (fun _ => rfl) n

theorem moreParams_eq_iterate (n : Nat) : moreParams n = moreParamsTurn^[n] (return []) :=
  eq_iterate moreParams moreParamsTurn (fun _ => rfl) n

theorem alternatives_eq_iterate (inner : Phrases) (n : Nat) :
    alternatives inner n = (alternativesTurn inner)^[n] (return ([], none)) :=
  eq_iterate (alternatives inner) (alternativesTurn inner) (fun _ => rfl) n

theorem extend_eq_iterate (inner : Phrases) (limit : Precedence) (n : Nat) :
    extend inner limit n = (extendTurn inner limit)^[n] fun left => return left :=
  eq_iterate (extend inner limit) (extendTurn inner limit) (fun _ => rfl) n

/-! ## At the end of input

At the end of input nothing is passed, so a reader that goes on there could go on for ever.  Each
loop leaves at once when its next token is the end. -/

/-- At the end of input, the parser has the result `a` and does nothing. -/
def Idle (a : α) (p : Parse α) : Prop :=
  ∀ s : ParseState, s.Ended → s.stream.remaining ≤ 0 → p s = (some a, s)

/-- With no token left, two loops that are idle with the same result do the same. -/
theorem Idle.alike {p q : Parse α} {a : α} (hp : Idle a p) (hq : Idle a q) : Alike R 0 p q := by
  intro s t hst hs hlen
  have ht : t.Ended := hst.stream.stop.kind.trans hs
  have hlen' : t.stream.remaining ≤ 0 := hst.stream.remaining_eq ▸ hlen
  exact (AlikeAt.pure a hst).congr (hp s hs hlen) (hq t ht hlen')

/-- With no token left, the one looked ahead at is the end as well. -/
theorem kind_upcoming_of_remaining (hs : s.Ended) (h : s.stream.remaining ≤ 0) :
    s.stream.upcoming.kind = .endOfInput :=
  kind_current_of_remaining (s := s.next) hs (Nat.le_trans (List.tail_suffix _).length_le h)

/-- What depends on a token that is not there is what is done without it. -/
theorem Idle.skip_bind {f : Bool → Parse β} {b : β} (hkind : kind ≠ .endOfInput)
    (hf : Idle b (f false)) : Idle b (skip kind >>= f) := by
  intro s hs hlen
  have hne : s.stream.upcoming.kind ≠ kind := kind_upcoming_of_remaining hs hlen ▸ hkind.symm
  unfold skip
  rw [bind_assoc, bind_apply]
  simp only [upcoming, if_neg hne]
  exact hf s hs hlen

theorem Idle.pure (a : α) : Idle a (pure a) := fun _ _ _ => rfl

/-- A list of statements leaves at the end of input, which closes it. -/
theorem statementsTurn_idle {closes : TokenKind → Bool} (hend : closes .endOfInput = true)
    (p : Parse Statement) (others : Parse Block) : Idle [] (statementsTurn closes p others) := by
  intro s hs hlen
  show (if closes s.stream.current.kind then _ else _ : Parse Block) s = _
  rw [kind_current_of_remaining hs hlen, if_pos hend]
  rfl

/-- A list of items leaves because no comma follows. -/
theorem moreItemsTurn_idle (inner : Phrases) (others : Parse (List Expr)) :
    Idle [] (moreItemsTurn inner others) :=
  .skip_bind nofun (.pure [])

theorem moreParamsTurn_idle (others : Parse (List Param)) : Idle [] (moreParamsTurn others) :=
  .skip_bind nofun (.pure [])

/-- A conditional ends because no `else` follows. -/
theorem alternativesTurn_idle (inner : Phrases) (others : Parse (List Clause × Option Block)) :
    Idle ([], none) (alternativesTurn inner others) :=
  .skip_bind nofun (.pure _)

/-- An expression ends because the end of input is no operator. -/
theorem extendTurn_idle (inner : Phrases) (limit : Precedence) (others : Expr → Parse Expr)
    (left : Expr) : Idle left (extendTurn inner limit others left) := by
  intro s hs hlen
  unfold extendTurn
  rw [bind_apply]
  simp only [upcoming, kind_upcoming_of_remaining hs hlen]
  rfl

/-! ## Turns -/

/-- If the token is there, one token less is left. -/
theorem Alike.skip_bind {f g : Bool → Parse β} (ht : Alike R n (f true) (g true))
    (hf : Alike R (n + 1) (f false) (g false)) :
    Alike R (n + 1) (Parse.skip kind >>= f) (Parse.skip kind >>= g) := by
  unfold Parse.skip
  rw [bind_assoc, bind_assoc]
  refine .upcoming fun _ _ _ _ _ => ?_
  split
  · rw [bind_assoc, bind_assoc]
    exact .advance ht
  · exact hf

/-- **A loop that passes a token each turn takes no more turns than there are tokens**, and one to
leave.  So with that many it does not matter what is done when they are out; with one less, that has
to be to leave. -/
theorem Alike.of_turns {F G : Parse α → Parse α} {out out' : Parse α} {a : α}
    (hF : ∀ p, Idle a (F p)) (hG : ∀ p, Idle a (G p))
    (hturn : ∀ {k p q}, k < n → Alike R k p q → Alike R (k + 1) (F p) (G q)) (hk : k ≤ n)
    (hm : k ≤ m) (hm' : k ≤ m') (hout : m = k → Idle a out) (hout' : m' = k → Idle a out') :
    Alike R k (F^[m] out) (G^[m'] out') := by
  induction k generalizing m m' with
  | zero =>
    have hidle {F : Parse α → Parse α} {out : Parse α} {m : Nat} (hF : ∀ p, Idle a (F p))
        (hout : m = 0 → Idle a out) : Idle a (F^[m] out) := by
      cases m with
      | zero => exact hout rfl
      | succ m => exact Function.iterate_succ_apply' F m out ▸ hF _
    exact (hidle hF hout).alike (hidle hG hout')
  | succ k ih =>
    obtain ⟨m, rfl⟩ := Nat.exists_eq_add_one_of_ne_zero (Nat.ne_zero_of_lt hm)
    obtain ⟨m', rfl⟩ := Nat.exists_eq_add_one_of_ne_zero (Nat.ne_zero_of_lt hm')
    rw [Function.iterate_succ_apply', Function.iterate_succ_apply']
    exact hturn hk (ih (Nat.le_of_succ_le hk) (Nat.le_of_succ_le_succ hm)
      (Nat.le_of_succ_le_succ hm') (fun h => hout (congrArg (· + 1) h))
      fun h => hout' (congrArg (· + 1) h))

/-- Of two runs of one loop, the one is the parser's, which leaves when its turns are out, and the
other one has more turns than there are tokens. -/
theorem Alike.of_more_turns {F G : Parse α → Parse α} {out : Parse α} {a : α}
    (hF : ∀ p, Idle a (F p)) (hG : ∀ p, Idle a (G p))
    (hturn : ∀ {k p q}, k < n → Alike R k p q → Alike R (k + 1) (F p) (G q)) (hm : n < m) :
    Alike R n (F^[m] out) (G^[n] (Pure.pure a)) :=
  of_turns hF hG hturn (Nat.le_refl n) (Nat.le_of_lt hm) (Nat.le_refl n)
    (fun h => absurd h (Nat.ne_of_gt hm)) fun _ => .pure a

/-- Each turn passes the token behind its statement. -/
theorem statements_turns {closes : TokenKind → Bool} (hend : closes .endOfInput = true)
    {p q : Parse Statement} (h : Alike R n p q) (hm : n < m) (out : Parse Block) :
    Alike R n ((statementsTurn closes p)^[m] out) (statements closes q n) := by
  rw [statements_eq_iterate]
  refine .of_more_turns (statementsTurn_idle hend p) (statementsTurn_idle hend q)
    (fun hk hothers => ?_) hm
  exact .current fun _ _ _ _ _ => .ite (.pure []) (.bind (h.mono hk).attempt fun first =>
    .advance (.bind hothers fun others => .pure (first.toList ++ others)))

/-- Each turn passes its comma. -/
theorem moreItems_turns (h : inner.Alike R n outer) (hm : n < m) (out : Parse (List Expr)) :
    Alike R n ((moreItemsTurn inner)^[m] out) (moreItems outer n) := by
  rw [moreItems_eq_iterate]
  refine .of_more_turns (moreItemsTurn_idle inner) (moreItemsTurn_idle outer)
    (fun hk hothers => ?_) hm
  have hfirst := (h.expression .lowest).mono (Nat.le_of_lt hk)
  exact .skip_bind (.pass (.bind hfirst fun first => .bind hothers fun others =>
    .pure (first :: others))) (.pure [])

theorem moreParams_turns (hm : n < m) (out : Parse (List Param)) :
    Alike R n (moreParamsTurn^[m] out) (moreParams n) := by
  rw [moreParams_eq_iterate]
  exact .of_more_turns moreParamsTurn_idle moreParamsTurn_idle
    (fun _ hothers => .skip_bind (.pass (.bind param_alike fun first => .bind hothers fun others =>
      .pure (first :: others))) (.pure [])) hm

/-- Each turn passes its `else`. -/
theorem alternatives_turns (h : inner.Alike R n outer) (hm : n < m)
    (out : Parse (List Clause × Option Block)) :
    Alike R n ((alternativesTurn inner)^[m] out) (alternatives outer n) := by
  rw [alternatives_eq_iterate]
  refine .of_more_turns (alternativesTurn_idle inner) (alternativesTurn_idle outer)
    (fun hk hothers => ?_) hm
  have hclause := (clause_alike h).mono (Nat.le_succ_of_le (Nat.le_of_lt hk))
  have hbody := (body_alike h).mono (Nat.le_of_lt hk)
  refine .skip_bind (.bind (.skip .ifWord) fun _ => .ite ?_ ?_) (.pure _)
  · exact .bind hclause fun _ => .bind hothers fun _ => .pure _
  · exact .pass (.bind hbody fun b => .pure _)

/-- An expression that was carried on is carried on again: the turns that are left start from what
this one made. -/
theorem extend_turns (h : inner.Alike R n outer) (hk : k ≤ n) (hm : k < m)
    (limit : Precedence) (out : Expr → Parse Expr) (left : Expr) :
    Alike R k ((extendTurn inner limit)^[m] out left) (extend outer limit k left) := by
  rw [extend_eq_iterate]
  induction k generalizing m left with
  | zero =>
    obtain ⟨m, rfl⟩ := Nat.exists_eq_add_one_of_ne_zero (Nat.ne_zero_of_lt hm)
    rw [Function.iterate_succ_apply']
    exact (extendTurn_idle inner limit _ left).alike (.pure left)
  | succ k ih =>
    obtain ⟨m, rfl⟩ := Nat.exists_eq_add_one_of_ne_zero (Nat.ne_zero_of_lt hm)
    have hk' : k ≤ n := Nat.le_of_succ_le hk
    rw [Function.iterate_succ_apply', Function.iterate_succ_apply']
    refine .upcoming fun kind _ _ _ _ => ?_
    dsimp only
    rcases Extension.of kind with _ | ⟨strength, how⟩
    · exact .pure left
    · have hlonger := (extension_alike h left strength how).mono (Nat.le_succ_of_le hk')
      exact .ite (.advance (.bind hlonger (ih hk' (Nat.lt_of_succ_lt_succ hm)))) (.pure left)

/-! ### Pairs

At the end of input a further pair is asked for and fails; but the end of input is never current,
neither at the opening brace nor behind a pair that was read. -/

/-- With a token to look ahead at, there is a current one, now and when that is passed. -/
theorem pending_of_upcoming (hs : s.Ended) (h : s.stream.upcoming.kind ≠ .endOfInput) :
    s.stream.pending ≠ [] ∧ s.next.stream.pending ≠ [] := by
  obtain ⟨⟨pending, stop⟩, errors⟩ := s
  match pending, h with
  | [], h => exact absurd hs h
  | [_], h => exact absurd hs h
  | _ :: _ :: _, _ => exact ⟨List.cons_ne_nil _ _, List.cons_ne_nil _ _⟩

/-- Behind a pair there is a token. -/
theorem pairEnd_bind_alike {f g : Unit → Parse β}
    (hf : ∀ s t : ParseState, s.Alike R t → s.Ended → s.stream.pending ≠ [] →
      s.stream.remaining ≤ n → AlikeAt R (f ()) (g ()) s t) :
    Alike R n (pairEnd >>= f) (pairEnd >>= g) := by
  intro s t hst hs hlen
  unfold pairEnd skip
  simp only [bind_assoc]
  refine .upcoming ?_
  rw [hst.stream.upcoming.kind]
  split
  · next hcomma =>
    simp only [bind_assoc, pure_bind, if_true]
    refine .advance (hf _ _ ⟨hst.stream.advance, hst.errors⟩ hs ?_ ?_)
    · exact (pending_of_upcoming hs (hcomma ▸ nofun)).2
    · exact Nat.le_trans (List.tail_suffix _).length_le hlen
  · simp only [pure_bind, Bool.false_eq_true, if_false, bind_assoc]
    refine .upcoming ?_
    rw [hst.stream.upcoming.kind]
    split
    · next hbrace =>
      exact hf s t hst hs (pending_of_upcoming hs (hbrace ▸ nofun)).1 hlen
    · exact Alike.reject _ hst.stream.upcoming.span s t hst hs hlen

/-- A loop over pairs does not even need a turn to leave: at the end of input it would have failed
before. -/
theorem pairs_turns (h : inner.Alike R n outer) (out : Parse (List (Expr × Expr)))
    (hk : k ≤ n + 1) (hm : k ≤ m) (hst : s.Alike R t) (hs : s.Ended)
    (hne : s.stream.pending ≠ []) (hlen : s.stream.remaining ≤ k) :
    AlikeAt R ((pairsTurn inner)^[m] out) (pairs outer k) s t := by
  rw [pairs_eq_iterate]
  induction k generalizing m s t with
  | zero => exact absurd (List.length_eq_zero_iff.mp (Nat.le_zero.mp hlen)) hne
  | succ k ih =>
    obtain ⟨m, rfl⟩ := Nat.exists_eq_add_one_of_ne_zero (Nat.ne_zero_of_lt hm)
    have hk' : k ≤ n := Nat.le_of_succ_le_succ hk
    have hinner := (h.expression .lowest).mono hk'
    rw [Function.iterate_succ_apply', Function.iterate_succ_apply']
    refine .upcoming ?_
    rw [hst.stream.upcoming.kind]
    split
    · exact .pure [] hst
    · refine .advance (Alike.bind hinner (fun key => .bind (.expect .colon) fun _ =>
        .pass (.bind hinner fun value => pairEnd_bind_alike fun s t hst hs hne hlen => ?_)) _ _
          ⟨hst.stream.advance, hst.errors⟩ hs (remaining_advance_le hlen))
      have hothers := ih (Nat.le_succ_of_le hk') (Nat.le_of_succ_le_succ hm) hst hs hne hlen
      exact hothers.bind fun others hlast => .pure ((key, value) :: others) hlast

end Parse

/-- **Each loop leaves by itself.**  With more turns than there are tokens, it does not matter what
is done when they are out (`out`), nor how many they are: the loop does what it does in the parser,
which gives it as many turns as there are tokens. -/
structure Phrases.LoopsEnd (inner : Phrases) : Prop where
  statements {closes : TokenKind → Bool} {s : ParseState} {n : Nat} (out : Parse Block) :
    closes .endOfInput = true → s.Ended → s.stream.remaining < n →
    (Parse.statementsTurn closes inner.statement)^[n] out s =
      Parse.statements closes inner.statement s.stream.remaining s
  moreItems {s : ParseState} {n : Nat} (out : Parse (List Expr)) :
    s.Ended → s.stream.remaining < n →
    (Parse.moreItemsTurn inner)^[n] out s = Parse.moreItems inner s.stream.remaining s
  /-- Here even as many turns as tokens are enough. -/
  pairs {s : ParseState} {n : Nat} (out : Parse (List (Expr × Expr))) :
    s.Ended → s.stream.pending ≠ [] → s.stream.remaining ≤ n →
    (Parse.pairsTurn inner)^[n] out s = Parse.pairs inner s.stream.remaining s
  moreParams {s : ParseState} {n : Nat} (out : Parse (List Param)) :
    s.Ended → s.stream.remaining < n →
    Parse.moreParamsTurn^[n] out s = Parse.moreParams s.stream.remaining s
  alternatives {s : ParseState} {n : Nat} (out : Parse (List Clause × Option Block)) :
    s.Ended → s.stream.remaining < n →
    (Parse.alternativesTurn inner)^[n] out s = Parse.alternatives inner s.stream.remaining s
  extend {s : ParseState} {n : Nat} (limit : Precedence) (out : Expr → Parse Expr) (left : Expr) :
    s.Ended → s.stream.remaining < n →
    (Parse.extendTurn inner limit)^[n] out left s =
      Parse.extend inner limit s.stream.remaining left s

namespace Parse

variable {α : Type} {m n : Nat} {s : ParseState}

/-- The parser's phrases do the same as themselves, so no more than there are tokens is needed of
them. -/
theorem phrases_alike_self (n m : Nat) : (phrases m).Alike R n (phrases m) := by
  induction m with
  | zero => exact ⟨fun _ => .fail, .fail⟩
  | succ m ih =>
    exact ⟨fun limit => (expression_alike ih limit).mono (Nat.le_succ n),
      (statement_alike ih).mono (Nat.le_succ n)⟩

theorem Alike.run_eq {p q : Parse α} (h : Alike Eq s.stream.remaining p q) (hs : s.Ended) :
    p s = q s :=
  (h s s s.alike_self hs (Nat.le_refl _)).run_eq

/-- **Every loop of the parser ends by itself**, however deep it is nested. -/
theorem phrases_loopsEnd (levels : Nat) : (phrases levels).LoopsEnd where
  statements out hend hs hn :=
    (statements_turns hend (phrases_alike_self _ levels).statement hn out).run_eq hs
  moreItems out hs hn := (moreItems_turns (phrases_alike_self _ levels) hn out).run_eq hs
  pairs out hs hne hn :=
    (pairs_turns (phrases_alike_self _ levels) out (Nat.le_succ _) hn (ParseState.alike_self _) hs
      hne (Nat.le_refl _)).run_eq
  moreParams out hs hn := (moreParams_turns hn out).run_eq hs
  alternatives out hs hn := (alternatives_turns (phrases_alike_self _ levels) hn out).run_eq hs
  extend limit out left hs hn :=
    (extend_turns (phrases_alike_self _ levels) (Nat.le_refl _) hn limit out left).run_eq hs

/-! ## Programs

The program starts with as many turns and levels as there are tokens, and neither of them runs out.
-/

/-- Statements end at a token that closes them. -/
theorem closes_of_statements {closes : TokenKind → Bool} (hend : closes .endOfInput = true)
    {p : Parse Statement} (hp : Alike Eq n p p) (hs : s.Ended) (hn : s.stream.remaining ≤ n)
    (hm : s.stream.remaining ≤ m) :
    closes (statements closes p m s).2.stream.current.kind := by
  induction m generalizing s with
  | zero =>
    show closes s.stream.current.kind
    rw [kind_current_of_remaining hs hm, hend]
  | succ m ih =>
    cases hc : closes s.stream.current.kind with
    | true => rw [statements_of_closes hc, hc]
    | false =>
      have hfirst := hp s s s.alike_self hs hn
      have hnext : (p s).2.next.stream.remaining ≤ m :=
        remaining_advance_le (Nat.le_trans hfirst.remaining_le hm)
      rw [statements_of_open hc]
      refine ih (hfirst.ended hs) (Nat.le_trans ?_ hn) hnext
      exact Nat.le_trans (List.tail_suffix _).length_le hfirst.remaining_le

theorem program_isSome (s : ParseState) : (program s).1.isSome :=
  statements_isSome endsProgram (phrases (s.stream.remaining + 1)).statement s.stream.remaining s

/-- A program is read up to the end of input. -/
theorem program_stream {stream : TokenStream} (hstop : stream.stop.kind = .endOfInput)
    (htokens : ∀ t ∈ stream.pending, t.kind ≠ .endOfInput) :
    (program (.start stream)).2.stream = ⟨[], stream.stop⟩ := by
  have hself := program_alike (ParseState.alike_self (.start stream)) hstop
  have hphrases := phrases_alike_self (R := Eq) stream.remaining (stream.remaining + 1)
  have hcloses : endsProgram (program (.start stream)).2.stream.current.kind :=
    closes_of_statements rfl hphrases.statement hstop (Nat.le_refl _) (Nat.le_refl _)
  have hstop' : (program (.start stream)).2.stream.stop = stream.stop := hself.stop
  have hforward : (program (.start stream)).2.stream.pending <:+ stream.pending := hself.forward
  rcases hend : (program (.start stream)).2.stream with ⟨_ | ⟨t, pending⟩, stop⟩
  · rw [hend] at hstop'
    exact congrArg _ hstop'
  · rw [hend] at hcloses hforward
    have ht : t.kind = .endOfInput := of_decide_eq_true hcloses
    exact absurd ht (htokens t (hforward.subset List.mem_cons_self))

/-- A program is read in this way with any levels and turns that cover the tokens. -/
theorem statements_eq_program {stream : TokenStream} (hstop : stream.stop.kind = .endOfInput)
    (bottom : Phrases) {levels turns : Nat} (hlevels : stream.remaining < levels)
    (hturns : stream.remaining ≤ turns) :
    statements endsProgram (phrasesOver bottom levels).statement turns (.start stream) =
      program (.start stream) := by
  have hend : endsProgram .endOfInput = true := rfl
  have hphrases : (phrasesOver bottom levels).Alike Eq stream.remaining
      (phrases (stream.remaining + 1)) := by
    rw [phrases_eq]
    exact phrasesOver_alike _ _ hlevels (Nat.lt_succ_self _)
  have hself := ParseState.alike_self (.start stream)
  exact (statements_alikeAt hend hphrases.statement hself hstop (Nat.le_refl _) hturns
    (Nat.le_refl _)).run_eq

end Parse

/-- **The parser terminates at the end of input, with at most as many errors as tokens.**  It reads
any source to its end, whatever is wrong in it.  What is nested deeper than there are tokens does
not matter, nor how many levels and turns there are, as long as they cover the tokens; and no loop
runs out of turns before it leaves by itself, whatever would be done then. -/
theorem parse_terminates (source : String) : ∃ s : ParseState,
    Parse.program (.start (.ofSource source)) = (some (parse source).program, s) ∧
      s.stream = ⟨[], .endAt source.utf8ByteSize⟩ ∧ s.errors = (parse source).errors ∧
      (parse source).errors.length ≤ (tokenize source).length ∧
      (∀ (bottom : Phrases) (levels turns : Nat), (tokenize source).length < levels →
        (tokenize source).length ≤ turns →
        Parse.statements Parse.endsProgram (Parse.phrasesOver bottom levels).statement turns
          (.start (.ofSource source)) = (some (parse source).program, s)) ∧
      ∀ levels, (Parse.phrases levels).LoopsEnd := by
  have hstop : (TokenStream.ofSource source).stop.kind = .endOfInput := rfl
  obtain ⟨b, hb⟩ := Option.isSome_iff_exists.mp
    (Parse.program_isSome (.start (.ofSource source)))
  have hprogram : (parse source).program = b := congrArg (Option.getD · []) hb
  have hrun : Parse.program (.start (.ofSource source)) =
      (some (parse source).program, (Parse.program (.start (.ofSource source))).2) :=
    Prod.ext (by rw [hb, hprogram]) rfl
  have hend := Parse.program_stream hstop (tokensFrom_ne_end 0 source.toList)
  exact ⟨_, hrun, hend, rfl, Parse.program_errors_le hstop,
    fun bottom levels turns hlevels hturns =>
      (Parse.statements_eq_program hstop bottom hlevels hturns).trans hrun,
    Parse.phrases_loopsEnd⟩

end Scriptlet
