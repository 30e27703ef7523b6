import Scriptlet.Proofs.Parse.Word
import Mathlib.Data.List.Forall2

/-!
# Proofs/Parse/Alike — a parser does not look at places

What a parser reads and what it complains of depends on the kinds and literals of the tokens before
it; their places only come back in its complaints.  Nor does it depend on the number of levels and
turns it is given, as long as there are as many as tokens.

`Alike` says this of two parsers that run on streams which differ in places only, `R` relating the
places of one to those of the other.  It is closed under sequence, so each rule keeps it because its
steps do.  On the way it says that a parser leaves the end of its stream in place and goes forward.
-/

namespace Scriptlet

/-! ## Alike but for places

Tokens are alike if they are the same word.  Readers are alike if their tokens are, one by one, and
they have complained of the same. -/

section

variable (R : Span → Span → Prop)

/-- Two tokens that differ in their places only: `t` at the one place and `u` at the other. -/
structure Token.Alike (t u : Token) : Prop where
  kind : u.kind = t.kind
  literal : u.literal = t.literal
  span : R t.span u.span

/-- Two complaints about the same fault, at places that correspond. -/
structure ParseError.Alike (e f : ParseError) : Prop where
  fault : f.fault = e.fault
  span : R e.span f.span

/-- Two streams with the same tokens at places that correspond, token by token; their ends
correspond as well. -/
structure TokenStream.Alike (s t : TokenStream) : Prop where
  pending : List.Forall₂ (Token.Alike R) s.pending t.pending
  stop : Token.Alike R s.stop t.stop

/-- Two readers that are equally far in streams that differ in places only, and that have complained
of the same so far. -/
structure ParseState.Alike (s t : ParseState) : Prop where
  stream : TokenStream.Alike R s.stream t.stream
  errors : List.Forall₂ (ParseError.Alike R) s.errors t.errors

end

/-- Nothing but places is looked at, so a state is like itself. -/
theorem ParseState.alike_self (s : ParseState) : s.Alike Eq s :=
  ⟨⟨List.forall₂_same.mpr fun _ _ => ⟨rfl, rfl, rfl⟩, rfl, rfl, rfl⟩,
    List.forall₂_same.mpr fun _ _ => ⟨rfl, rfl⟩⟩

theorem Token.Alike.eq {t u : Token} (h : t.Alike Eq u) : t = u := by
  obtain ⟨kind, literal, span⟩ := t
  obtain ⟨rfl, rfl, rfl⟩ := h
  rfl

theorem ParseError.Alike.eq {e f : ParseError} (h : e.Alike Eq f) : e = f := by
  obtain ⟨fault, span⟩ := e
  obtain ⟨rfl, rfl⟩ := h
  rfl

/-- States that are alike in places too are the same. -/
theorem ParseState.Alike.eq {s t : ParseState} (h : s.Alike Eq t) : s = t := by
  obtain ⟨⟨pending, stop⟩, errors⟩ := s
  obtain ⟨⟨hpending, hstop⟩, herrors⟩ := h
  obtain rfl := hstop.eq
  have hpending := hpending.imp fun _ _ => Token.Alike.eq
  have herrors := herrors.imp fun _ _ => ParseError.Alike.eq
  rw [List.forall₂_eq_eq_eq] at hpending herrors
  obtain rfl := hpending
  obtain rfl := herrors
  rfl

variable {R : Span → Span → Prop}

namespace TokenStream.Alike

variable {s t : TokenStream}

theorem current (h : Alike R s t) : Token.Alike R s.current t.current := by
  rcases s with ⟨_, _⟩
  rcases t with ⟨_, _⟩
  obtain ⟨pending, stop⟩ := h
  cases pending with
  | nil => exact stop
  | cons ht _ => exact ht

theorem advance (h : Alike R s t) : Alike R s.advance t.advance := by
  rcases s with ⟨_, _⟩
  rcases t with ⟨_, _⟩
  obtain ⟨pending, stop⟩ := h
  refine ⟨?_, stop⟩
  cases pending with
  | nil => exact .nil
  | cons _ hts => exact hts

/-- The token that is looked ahead at is the current one of the advanced stream. -/
theorem upcoming (h : Alike R s t) : Token.Alike R s.upcoming t.upcoming := h.advance.current

/-- Equally many tokens are left in both, so turns and levels that are counted by them are equally
many too. -/
theorem remaining_eq (h : Alike R s t) : t.remaining = s.remaining := h.pending.length_eq.symm

end TokenStream.Alike

namespace Parse

variable {α β : Type} {n n' : Nat}

/-- What `q` does from `t` on is what `p` does from `s` on, which leaves the end of the stream in
place and goes forward. -/
structure AlikeAt (R : Span → Span → Prop) (p q : Parse α) (s t : ParseState) : Prop where
  result : (q t).1 = (p s).1
  state : (p s).2.Alike R (q t).2
  stop : (p s).2.stream.stop = s.stream.stop
  forward : (p s).2.stream.pending <:+ s.stream.pending

/-- On streams of at most `n` tokens that differ in places only, `q` does what `p` does. -/
def Alike (R : Span → Span → Prop) (n : Nat) (p q : Parse α) : Prop :=
  ∀ s t : ParseState, s.Alike R t → s.Ended → s.stream.remaining ≤ n → AlikeAt R p q s t

/-! ## From one state

Two parsers are followed from a pair of states that are alike, step by step: they look at tokens
that are alike, so they do the same. -/

namespace AlikeAt

variable {p q : Parse α} {s t : ParseState}

/-- A parser never reads past the end of input, so an ended stream stays one. -/
theorem ended (h : AlikeAt R p q s t) (hs : s.Ended) : (p s).2.Ended :=
  (congrArg Token.kind h.stop).trans hs

/-- Only the runs from `s` and `t` on count. -/
theorem congr {p' q' : Parse α} (h : AlikeAt R p' q' s t) (hp : p s = p' s) (hq : q t = q' t) :
    AlikeAt R p q s t :=
  ⟨by rw [hp, hq, h.result], by rw [hp, hq]; exact h.state, by rw [hp, h.stop],
    by rw [hp]; exact h.forward⟩

theorem remaining_le (h : AlikeAt R p q s t) : (p s).2.stream.remaining ≤ s.stream.remaining :=
  h.forward.length_le

/-- **One parser after another.** -/
theorem bind {f g : α → Parse β} (hp : AlikeAt R p q s t)
    (hf : ∀ a, (p s).2.Alike R (q t).2 → AlikeAt R (f a) (g a) (p s).2 (q t).2) :
    AlikeAt R (p >>= f) (q >>= g) s t := by
  -- The first parser ends alike on both sides, so either both stop there or both go on, from states
  -- that are alike.
  obtain ⟨hresult, hstate, hstop, hforward⟩ := hp
  have hf := fun a => hf a hstate
  rcases hps : p s with ⟨_ | a, s₁⟩
  all_goals
    rcases hqt : q t with ⟨b, t₁⟩
    rw [hps, hqt] at hresult hstate
    rw [hps] at hstop hforward
    rw [hps, hqt] at hf
    obtain rfl : b = _ := hresult
  · have hpf : (p >>= f) s = (none, s₁) := by rw [bind_apply, hps]
    have hqg : (q >>= g) t = (none, t₁) := by rw [bind_apply, hqt]
    refine ⟨?_, ?_, ?_, ?_⟩
    · rw [hpf, hqg]
    · rwa [hpf, hqg]
    · rwa [hpf]
    · rwa [hpf]
  · have hpf : (p >>= f) s = f a s₁ := by rw [bind_apply, hps]
    have hqg : (q >>= g) t = g a t₁ := by rw [bind_apply, hqt]
    refine ⟨?_, ?_, ?_, ?_⟩
    · rw [hpf, hqg]
      exact (hf a).result
    · rw [hpf, hqg]
      exact (hf a).state
    · rw [hpf]
      exact (hf a).stop.trans hstop
    · rw [hpf]
      exact (hf a).forward.trans hforward

theorem pure (a : α) (h : s.Alike R t) : AlikeAt R (pure a) (Pure.pure a) s t :=
  ⟨rfl, h, rfl, List.suffix_refl _⟩

/-- If `p` fails on one stream, `q` does on the other, and both attempts go on without a result. -/
theorem attempt (h : AlikeAt R p q s t) : AlikeAt R (attempt p) (Parse.attempt q) s t :=
  ⟨congrArg some h.result, h.state, h.stop, h.forward⟩

theorem current {f g : Token → Parse β}
    (hf : AlikeAt R (f s.stream.current) (g t.stream.current) s t) :
    AlikeAt R (Parse.current >>= f) (Parse.current >>= g) s t :=
  ⟨hf.result, hf.state, hf.stop, hf.forward⟩

theorem upcoming {f g : Token → Parse β}
    (hf : AlikeAt R (f s.stream.upcoming) (g t.stream.upcoming) s t) :
    AlikeAt R (Parse.upcoming >>= f) (Parse.upcoming >>= g) s t :=
  ⟨hf.result, hf.state, hf.stop, hf.forward⟩

theorem advance {f g : Unit → Parse β}
    (hf : AlikeAt R (f ()) (g ()) { s with stream := s.stream.advance }
      { t with stream := t.stream.advance }) :
    AlikeAt R (Parse.advance >>= f) (Parse.advance >>= g) s t :=
  ⟨hf.result, hf.state, hf.stop, hf.forward.trans (List.tail_suffix _)⟩

end AlikeAt

theorem remaining_advance_le {s : TokenStream} (h : s.remaining ≤ n + 1) :
    s.advance.remaining ≤ n := by
  show s.pending.tail.length ≤ n
  rw [List.length_tail]
  exact Nat.sub_le_of_le_add h

/-! ## From all states

A rule is put together from other rules, which may be entered in any state.  So a rule is alike if
its parts are, from all states that have no more tokens left than the rule may use. -/

namespace Alike

variable {p q : Parse α} {f g : α → Parse β}

/-- What holds on all streams of so many tokens holds on the shorter ones. -/
theorem mono (h : Alike R n p q) (hn : n' ≤ n) : Alike R n' p q :=
  fun s t hst hs hlen => h s t hst hs (Nat.le_trans hlen hn)

theorem bind (hp : Alike R n p q) (hf : ∀ a, Alike R n (f a) (g a)) :
    Alike R n (p >>= f) (q >>= g) := by
  intro s t hst hs hlen
  have hpq := hp s t hst hs hlen
  exact hpq.bind fun a hbehind =>
    hf a _ _ hbehind (hpq.ended hs) (Nat.le_trans hpq.remaining_le hlen)

theorem pure (a : α) : Alike R n (pure a) (Pure.pure a) := fun _ _ hst _ _ => .pure a hst

theorem fail : Alike R n (fail : Parse α) Parse.fail :=
  fun _ _ hst _ _ => ⟨rfl, hst, rfl, List.suffix_refl _⟩

/-- Complaining of the same fault at places that correspond keeps errors alike. -/
theorem report (fault : ParseFault) {σ τ : Span} (h : R σ τ) :
    Alike R n (report fault σ) (Parse.report fault τ) :=
  fun _ _ hst _ _ => ⟨rfl, ⟨hst.stream, List.rel_append hst.errors (.cons ⟨rfl, h⟩ .nil)⟩, rfl,
    List.suffix_refl _⟩

theorem reject (fault : ParseFault) {σ τ : Span} (h : R σ τ) :
    Alike R n (reject fault σ : Parse α) (Parse.reject fault τ) :=
  (report fault h).bind fun _ => fail

theorem attempt (h : Alike R n p q) : Alike R n (attempt p) (Parse.attempt q) :=
  fun s t hst hs hlen => (h s t hst hs hlen).attempt

/-- The condition may not depend on the run: rules decide by kinds and literals, which are the same
in both. -/
theorem ite {c : Prop} [Decidable c] {p' q' : Parse α} (h : Alike R n p q) (h' : Alike R n p' q') :
    Alike R n (if c then p else p') (if c then q else q') := by
  split
  · exact h
  · exact h'

/-- Alike tokens are one kind and one literal at two places. -/
theorem of_alike {f g : Token → Parse β} {a b : Token} (hab : Token.Alike R a b)
    (hf : ∀ kind literal σ τ, R σ τ → Alike R n (f ⟨kind, literal, σ⟩) (g ⟨kind, literal, τ⟩)) :
    Alike R n (f a) (g b) := by
  obtain ⟨kind, literal, σ⟩ := a
  obtain ⟨_, _, τ⟩ := b
  obtain ⟨hkind, hliteral, hspan⟩ := hab
  obtain rfl : _ = kind := hkind
  obtain rfl : _ = literal := hliteral
  exact hf _ _ σ τ hspan

/-- A rule may use all of the current token, but of its place only where it may be replaced by one
that corresponds. -/
theorem current {f g : Token → Parse β}
    (hf : ∀ kind literal σ τ, R σ τ → Alike R n (f ⟨kind, literal, σ⟩) (g ⟨kind, literal, τ⟩)) :
    Alike R n (Parse.current >>= f) (Parse.current >>= g) := by
  refine fun s t hst hs hlen => .current ?_
  exact of_alike hst.stream.current hf s t hst hs hlen

/-- As for the current token, for the one that is looked ahead at. -/
theorem upcoming {f g : Token → Parse β}
    (hf : ∀ kind literal σ τ, R σ τ → Alike R n (f ⟨kind, literal, σ⟩) (g ⟨kind, literal, τ⟩)) :
    Alike R n (Parse.upcoming >>= f) (Parse.upcoming >>= g) := by
  refine fun s t hst hs hlen => .upcoming ?_
  exact of_alike hst.stream.upcoming hf s t hst hs hlen

/-- Rules ask how many tokens are left only for turns and levels; both runs get the same number. -/
theorem remaining {f g : Nat → Parse β} (hf : ∀ m, Alike R n (f m) (g m)) :
    Alike R n (Parse.remaining >>= f) (Parse.remaining >>= g) := by
  intro s t hst hs hlen
  have hfg := hf s.stream.remaining s t hst hs hlen
  refine hfg.congr rfl ?_
  show g t.stream.remaining t = _
  rw [hst.stream.remaining_eq]

/-- **Past a token there is one token less.** -/
theorem advance {f g : Unit → Parse β} (hf : Alike R n (f ()) (g ())) :
    Alike R (n + 1) (Parse.advance >>= f) (Parse.advance >>= g) :=
  fun _ _ hst hs hlen =>
    .advance (hf _ _ ⟨hst.stream.advance, hst.errors⟩ hs (remaining_advance_le hlen))

/-- Where the bound does not have to go down, a token may be passed for nothing. -/
theorem pass {f g : Unit → Parse β} (hf : Alike R n (f ()) (g ())) :
    Alike R n (Parse.advance >>= f) (Parse.advance >>= g) :=
  (advance hf).mono (Nat.le_succ n)

theorem expect (kind : TokenKind) : Alike R n (expect kind) (Parse.expect kind) :=
  upcoming fun _ _ _ _ h => ite (pass (pure ())) (reject _ h)

theorem skip (kind : TokenKind) : Alike R n (skip kind) (Parse.skip kind) :=
  upcoming fun _ _ _ _ _ => ite (pass (pure true)) (pure false)

end Alike

end Parse

/-- On streams of at most `n` tokens that differ in places only, the phrases are read alike. -/
structure Phrases.Alike (R : Span → Span → Prop) (n : Nat) (inner outer : Phrases) : Prop where
  expression (limit : Precedence) :
    Parse.Alike R n (inner.expression limit) (outer.expression limit)
  statement : Parse.Alike R n inner.statement outer.statement

namespace Parse

variable {n : Nat} {inner outer : Phrases}

/-! ## Blocks -/

/-! Each rule keeps the relation because its steps do.  A rule that passes a token before it goes
further in has one level more for the tokens behind it: it is alike on `n + 1` tokens if what is
nested is alike on `n`. -/

/-- For the same number of turns on both sides; that this number does not matter comes at the end.
-/
theorem statements_alike (closes : TokenKind → Bool) {p q : Parse Statement} (h : Alike R n p q)
    (m : Nat) : Alike R n (statements closes p m) (statements closes q m) := by
  induction m with
  | zero => exact .pure []
  | succ m ih =>
    exact .current fun _ _ _ _ _ => .ite (.pure [])
      (.bind h.attempt fun first => .pass (.bind ih fun others => .pure _))

theorem blockEnd_alike : Alike R n blockEnd blockEnd :=
  .current fun _ _ _ _ hspan => .ite (.report _ hspan) (.pure ())

/-- The opening brace is a token of its own, so the statements have one less. -/
theorem block_alike (h : inner.Alike R n outer) : Alike R (n + 1) (block inner) (block outer) :=
  .advance (.remaining fun m => .bind (statements_alike _ h.statement m) fun body =>
    .bind blockEnd_alike fun _ => .pure body)

/-- A body that is asked for behind a parenthesis need not start with a brace, so nothing is gained.
-/
theorem body_alike (h : inner.Alike R n outer) : Alike R n (body inner) (body outer) :=
  .current fun _ _ _ _ _ => .ite ((block_alike h).mono (Nat.le_succ n))
    (.bind h.statement.attempt fun s => .pure s.toList)

/-! ## Lists between delimiters -/

theorem moreItems_alike (h : inner.Alike R n outer) (m : Nat) :
    Alike R (n + 1) (moreItems inner m) (moreItems outer m) := by
  induction m with
  | zero => exact .pure []
  | succ m ih =>
    refine .bind (.skip .comma) fun more => .ite (.advance ?_) (.pure [])
    exact .bind (h.expression .lowest) fun first =>
      .bind (ih.mono (Nat.le_succ n)) fun others => .pure (first :: others)

/-- The delimiter is passed first, whether there are items or not. -/
theorem items_alike (h : inner.Alike R n outer) (close : TokenKind) :
    Alike R (n + 1) (items inner close) (items outer close) := by
  refine .bind (.skip close) fun closed => .ite (.pure []) (.advance ?_)
  exact .bind (h.expression .lowest) fun first => .remaining fun m =>
    .bind ((moreItems_alike h m).mono (Nat.le_succ n)) fun others =>
      .bind (.expect close) fun _ => .pure (first :: others)

theorem pairEnd_alike : Alike R n pairEnd pairEnd :=
  .bind (.skip .comma) fun _ =>
    .ite (.pure ()) (.upcoming fun _ _ _ _ hspan => .ite (.pure ()) (.reject _ hspan))

/-- A pair starts behind the brace or comma that is passed. -/
theorem pairs_alike (h : inner.Alike R n outer) (m : Nat) :
    Alike R (n + 1) (pairs inner m) (pairs outer m) := by
  induction m with
  | zero => exact .pure []
  | succ m ih =>
    refine .upcoming fun _ _ _ _ _ => .ite (.pure []) (.advance ?_)
    exact .bind (h.expression .lowest) fun key => .bind (.expect .colon) fun _ =>
      .pass (.bind (h.expression .lowest) fun value => .bind pairEnd_alike fun _ =>
        .bind (ih.mono (Nat.le_succ n)) fun others => .pure ((key, value) :: others))

theorem ellipsis_alike : Alike R n ellipsis ellipsis :=
  .current fun _ _ _ _ _ => .ite (.pass (.pure true)) (.pure false)

/-- No phrase is nested in a parameter, so any bound will do. -/
theorem param_alike : Alike R n param param :=
  .bind ellipsis_alike fun _ => .current fun _ _ _ _ hspan => .ite (.pure _) (.reject _ hspan)

theorem moreParams_alike (m : Nat) : Alike R n (moreParams m) (moreParams m) := by
  induction m with
  | zero => exact .pure []
  | succ m ih =>
    exact .bind (.skip .comma) fun _ => .ite
      (.pass (.bind param_alike fun first => .bind ih fun others => .pure (first :: others)))
      (.pure [])

theorem params_alike : Alike R n params params :=
  .bind (.skip .rightParen) fun _ => .ite (.pure []) (.pass (.bind param_alike fun first =>
    .remaining fun m => .bind (moreParams_alike m) fun others =>
      .bind (.expect .rightParen) fun _ => .pure (first :: others)))

/-! ## Expressions -/

/-- Whether a literal is in range is seen from its text; only the complaint has a place. -/
theorem integer_alike (kind : TokenKind) (literal : String) {σ τ : Span} (hspan : R σ τ) :
    Alike R n (integer ⟨kind, literal, σ⟩) (integer ⟨kind, literal, τ⟩) :=
  .ite (.pure _) (.reject _ hspan)

theorem unary_alike (h : inner.Alike R n outer) (op : PrefixOp) :
    Alike R (n + 1) (unary inner op) (unary outer op) :=
  .advance (.bind (h.expression .unary) fun e => .pure (Expr.unary op e))

theorem grouped_alike (h : inner.Alike R n outer) :
    Alike R (n + 1) (grouped inner) (grouped outer) :=
  .advance (.bind (h.expression .lowest) fun e => .bind (.expect .rightParen) fun _ => .pure e)

theorem hash_alike (h : inner.Alike R n outer) : Alike R (n + 1) (hash inner) (hash outer) :=
  .remaining fun m => .bind (pairs_alike h m) fun entries =>
    .bind (.expect .rightBrace) fun _ => .pure (Expr.hash entries)

theorem function_alike (h : inner.Alike R n outer) :
    Alike R (n + 1) (function inner) (function outer) :=
  .bind (.expect .leftParen) fun _ => .bind params_alike fun ps =>
    .bind (.expect .leftBrace) fun _ => .bind (block_alike h) fun b => .pure (Expr.function ps b)

theorem clause_alike (h : inner.Alike R n outer) :
    Alike R (n + 1) (clause inner) (clause outer) :=
  .bind (.expect .leftParen) fun _ => .advance (.bind (h.expression .lowest) fun c =>
    .bind (.expect .rightParen) fun _ => .pass (.bind (body_alike h) fun b => .pure (c, b)))

theorem alternatives_alike (h : inner.Alike R n outer) (m : Nat) :
    Alike R (n + 1) (alternatives inner m) (alternatives outer m) := by
  induction m with
  | zero => exact .pure _
  | succ m ih =>
    refine .bind (.skip .elseWord) fun _ => .ite (.bind (.skip .ifWord) fun _ => .ite ?_ ?_)
      (.pure _)
    · exact .bind (clause_alike h) fun _ => .bind ih fun _ => .pure _
    · exact .advance (.bind (body_alike h) fun b => .pure _)

theorem conditional_alike (h : inner.Alike R n outer) :
    Alike R (n + 1) (conditional inner) (conditional outer) :=
  .bind (clause_alike h) fun _ => .remaining fun m =>
    .bind (alternatives_alike h m) fun _ => .pure _

/-- The kind of the current token selects the rule, and it is the same kind on both sides. -/
theorem leading_alike (h : inner.Alike R n outer) :
    Alike R (n + 1) (leading inner) (leading outer) := by
  refine .current fun kind literal σ τ hspan => ?_
  dsimp only
  split
  · exact .pure _
  · exact integer_alike _ literal hspan
  · exact .pure _
  · exact .pure _
  · exact .pure _
  · exact unary_alike h .not
  · exact unary_alike h .neg
  · exact grouped_alike h
  · exact .bind (items_alike h .rightBracket) fun es => .pure (Expr.array es)
  · exact hash_alike h
  · exact conditional_alike h
  · exact function_alike h
  · exact .reject _ hspan

/-- An operator or bracket behind an expression is passed before its operand is read. -/
theorem extension_alike (h : inner.Alike R n outer) (left : Expr) (strength : Precedence)
    (how : Extension) :
    Alike R (n + 1) (extension inner left strength how) (extension outer left strength how) := by
  cases how with
  | binary op =>
    exact .advance (.bind (h.expression _) fun right => .pure (Expr.binary op left right))
  | call => exact .bind (items_alike h .rightParen) fun args => .pure (Expr.call left args)
  | index =>
    exact .advance (.bind (h.expression .lowest) fun key => .bind (.expect .rightBracket) fun _ =>
      .pure (Expr.index left key))

theorem extend_alike (h : inner.Alike R n outer) (limit : Precedence) (m : Nat) (left : Expr) :
    Alike R (n + 1) (extend inner limit m left) (extend outer limit m left) := by
  induction m generalizing left with
  | zero => exact .pure left
  | succ m ih =>
    refine .upcoming fun kind _ _ _ _ => ?_
    dsimp only
    rcases Extension.of kind with _ | ⟨strength, how⟩
    · exact .pure left
    · exact .ite (.pass (.bind (extension_alike h left strength how) ih)) (.pure left)

/-- Every expression starts with a token, so what is nested in it has one less. -/
theorem expression_alike (h : inner.Alike R n outer) (limit : Precedence) :
    Alike R (n + 1) (expression inner limit) (expression outer limit) :=
  .bind (leading_alike h) fun left => .remaining fun m => extend_alike h limit m left

/-! ## Statements -/

theorem optionalSemicolon_alike : Alike R n optionalSemicolon optionalSemicolon :=
  .bind (.skip .semicolon) fun _ => .pure ()

theorem binding_alike (h : inner.Alike R n outer) :
    Alike R (n + 1) (binding inner) (binding outer) :=
  .bind (.expect .identifier) fun _ => .current fun _ literal _ _ _ =>
    .bind (.expect .assign) fun _ => .advance (.bind (h.expression .lowest) fun value =>
      .bind optionalSemicolon_alike fun _ => .pure (Statement.bind literal value))

theorem returning_alike (h : inner.Alike R n outer) :
    Alike R (n + 1) (returning inner) (returning outer) :=
  .advance (.bind (h.expression .lowest) fun value => .bind optionalSemicolon_alike fun _ =>
    .pure (Statement.ret value))

/-- The first clause may be a statement, which is read on the tokens of the header. -/
theorem loopInit_alike (h : inner.Alike R n outer) :
    Alike R n (loopInit inner) (loopInit outer) :=
  .current fun _ _ _ _ _ => .ite (.pure none) (.bind h.statement fun init =>
    .current fun _ _ _ _ hspan => .ite (.pure (some init)) (.reject _ hspan))

theorem loopClause_alike (h : inner.Alike R n outer) (close : TokenKind) :
    Alike R n (loopClause inner close) (loopClause outer close) :=
  .current fun _ _ _ _ _ => .ite (.pure none) (.bind (h.expression .lowest) fun e =>
    .bind (.expect close) fun _ => .pure (some e))

theorem loop_alike (h : inner.Alike R n outer) : Alike R (n + 1) (loop inner) (loop outer) :=
  .bind (.expect .leftParen) fun _ => .advance (.bind (loopInit_alike h) fun init =>
    .pass (.bind (loopClause_alike h .semicolon) fun condition =>
      .pass (.bind (loopClause_alike h .rightParen) fun step =>
        .pass (.bind (body_alike h) fun b => .pure (Statement.loop init condition step b)))))

theorem expressionStatement_alike (h : inner.Alike R n outer) :
    Alike R (n + 1) (expressionStatement inner) (expressionStatement outer) :=
  .bind (expression_alike h .lowest) fun e => .bind optionalSemicolon_alike fun _ =>
    .pure (Statement.expr e)

/-- The kind of the current token selects the rule, as for expressions. -/
theorem statement_alike (h : inner.Alike R n outer) :
    Alike R (n + 1) (statement inner) (statement outer) := by
  refine .current fun kind _ _ _ _ => ?_
  dsimp only
  split
  · exact binding_alike h
  · exact returning_alike h
  · exact loop_alike h
  · exact .upcoming fun _ _ _ _ _ => .ite (.bind (block_alike h) fun b => .pure (Statement.block b))
      (expressionStatement_alike h)
  · exact expressionStatement_alike h

/-! ## Levels and turns

The numbers of levels and turns may differ on the two sides, as long as both suffice for the tokens
that are left. -/

/-! The parser starts with as many levels and turns as there are tokens.  It need not be that many:
a level deeper is one token less, and so is a further turn; and with no token left no phrase starts,
so whatever stands at the bottom is not asked for. -/

/-- The phrases that are nested at most `n` levels deep, with `bottom` in the place of deeper ones.
-/
def phrasesOver (bottom : Phrases) : (n : Nat) → Phrases
  | 0 => bottom
  | n + 1 => ⟨expression (phrasesOver bottom n), statement (phrasesOver bottom n)⟩

/-- The parser's own bottom fails. -/
theorem phrases_eq (n : Nat) : phrases n = phrasesOver ⟨fun _ => fail, fail⟩ n := by
  induction n with
  | zero => rfl
  | succ n ih => rw [phrases, ih, phrasesOver]

/-- At the end of input no expression starts, so nothing further in is asked for. -/
theorem leading_at_end (inner : Phrases) {s : ParseState}
    (h : s.stream.current.kind = .endOfInput) :
    leading inner s = reject (.noExpression .endOfInput) s.stream.current.span s := by
  unfold leading
  rw [bind_apply]
  simp only [current, h]

/-- So what would follow the operand does not matter either. -/
theorem leading_bind_at_end {α : Type} (inner : Phrases) (f : Expr → Parse α) {s : ParseState}
    (h : s.stream.current.kind = .endOfInput) :
    (leading inner >>= f) s = reject (.noExpression .endOfInput) s.stream.current.span s := by
  rw [bind_apply, leading_at_end inner h]
  rfl

/-- With no tokens left the current one is the end. -/
theorem kind_current_of_remaining {s : ParseState} (hs : s.Ended) (h : s.stream.remaining ≤ 0) :
    s.stream.current.kind = .endOfInput := by
  have hnone : s.stream.pending = [] := List.length_eq_zero_iff.mp (Nat.le_zero.mp h)
  unfold TokenStream.current
  rw [hnone]
  exact hs

/-- Two expressions at the end of input are the same complaint, whatever is nested in them and
whatever would follow. -/
theorem leading_bind_alike_nil {α : Type} (inner outer : Phrases) (f g : Expr → Parse α) :
    Alike R 0 (leading inner >>= f) (leading outer >>= g) := by
  intro s t hst hs hlen
  have hend := kind_current_of_remaining hs hlen
  have hcurrent := hst.stream.current
  exact (Alike.reject _ hcurrent.span s t hst hs hlen).congr (leading_bind_at_end inner f hend)
    (leading_bind_at_end outer g (hcurrent.kind.trans hend))

/-- A statement at the end of input is an expression that does not start. -/
theorem statement_at_end (inner : Phrases) {s : ParseState}
    (h : s.stream.current.kind = .endOfInput) :
    statement inner s = reject (.noExpression .endOfInput) s.stream.current.span s := by
  unfold statement
  rw [bind_apply]
  simp only [current, h, expressionStatement, expression, bind_assoc]
  exact leading_bind_at_end inner _ h

/-- The case of no tokens in `phrasesOver_alike`. -/
theorem statement_alike_nil (inner outer : Phrases) :
    Alike R 0 (statement inner) (statement outer) := by
  intro s t hst hs hlen
  have hend := kind_current_of_remaining hs hlen
  have hcurrent := hst.stream.current
  exact (Alike.reject _ hcurrent.span s t hst hs hlen).congr (statement_at_end inner hend)
    (statement_at_end outer (hcurrent.kind.trans hend))

/-- **What is nested deeper than there are tokens does not matter**, nor how many levels there are
above it. -/
theorem phrasesOver_alike (bottom bottom' : Phrases) {n m m' : Nat} (hm : n < m) (hm' : n < m') :
    (phrasesOver bottom m).Alike R n (phrasesOver bottom' m') := by
  induction n generalizing m m' with
  | zero =>
    obtain ⟨m, rfl⟩ := Nat.exists_eq_add_one_of_ne_zero (Nat.ne_zero_of_lt hm)
    obtain ⟨m', rfl⟩ := Nat.exists_eq_add_one_of_ne_zero (Nat.ne_zero_of_lt hm')
    exact ⟨fun limit => leading_bind_alike_nil _ _ _ _, statement_alike_nil _ _⟩
  | succ n ih =>
    obtain ⟨m, rfl⟩ := Nat.exists_eq_add_one_of_ne_zero (Nat.ne_zero_of_lt hm)
    obtain ⟨m', rfl⟩ := Nat.exists_eq_add_one_of_ne_zero (Nat.ne_zero_of_lt hm')
    have h := ih (Nat.lt_of_succ_lt_succ hm) (Nat.lt_of_succ_lt_succ hm')
    exact ⟨expression_alike h, statement_alike h⟩

/-- For the parser's own phrases: `m` and `m'` levels are as good as each other on fewer tokens. -/
theorem phrases_alike {n m m' : Nat} (hm : n < m) (hm' : n < m') :
    (phrases m).Alike R n (phrases m') := by
  rw [phrases_eq, phrases_eq]
  exact phrasesOver_alike _ _ hm hm'

/-- At the end of input a list of statements is done, however many turns it has left. -/
theorem statements_at_end {closes : TokenKind → Bool} (hend : closes .endOfInput = true)
    (p : Parse Statement) (m : Nat) {s : ParseState} (hs : s.Ended) (h : s.stream.remaining ≤ 0) :
    statements closes p m s = (some [], s) := by
  cases m with
  | zero => rfl
  | succ m =>
    show (if closes s.stream.current.kind then _ else _ : Parse Block) s = _
    rw [kind_current_of_remaining hs h, if_pos hend]
    rfl

/-- So two lists that start there are alike with any turns and any statements. -/
theorem statements_alikeAt_end {closes : TokenKind → Bool} (hend : closes .endOfInput = true)
    (p q : Parse Statement) (m m' : Nat) {s t : ParseState} (hst : s.Alike R t) (hs : s.Ended)
    (h : s.stream.remaining ≤ 0) :
    AlikeAt R (statements closes p m) (statements closes q m') s t := by
  have ht : t.Ended := hst.stream.stop.kind.trans hs
  have h' : t.stream.remaining ≤ 0 := hst.stream.remaining_eq ▸ h
  exact (AlikeAt.pure [] hst).congr (statements_at_end hend p m hs h)
    (statements_at_end hend q m' ht h')

/-- **How many turns there are does not matter**, if there are as many as tokens. -/
theorem statements_alikeAt {closes : TokenKind → Bool} (hend : closes .endOfInput = true)
    {p q : Parse Statement} (h : Alike R n p q) {m m' : Nat} {s t : ParseState}
    (hst : s.Alike R t) (hs : s.Ended) (hn : s.stream.remaining ≤ n)
    (hm : s.stream.remaining ≤ m) (hm' : s.stream.remaining ≤ m') :
    AlikeAt R (statements closes p m) (statements closes q m') s t := by
  induction m generalizing m' s t with
  | zero => exact statements_alikeAt_end hend p q _ _ hst hs hm
  | succ m ih =>
    cases m' with
    | zero => exact statements_alikeAt_end hend p q _ _ hst hs hm'
    | succ m' =>
      refine .current ?_
      rw [hst.stream.current.kind]
      split
      · exact .pure [] hst
      · have hfirst := (h s t hst hs hn).attempt
        have hle := hfirst.remaining_le
        refine hfirst.bind fun first hbehind =>
          .advance (.bind (ih ⟨hbehind.stream.advance, hbehind.errors⟩ ?_ ?_ ?_ ?_)
            fun others hlast => .pure _ hlast)
        · exact hfirst.ended hs
        · exact Nat.le_trans (remaining_advance_le (Nat.le_succ_of_le hle)) hn
        · exact remaining_advance_le (Nat.le_trans hle hm)
        · exact remaining_advance_le (Nat.le_trans hle hm')

/-- A program takes its turns and levels from its stream, and streams that are alike have equally
many. -/
theorem program_alike {s t : ParseState} (hst : s.Alike R t) (hs : s.Ended) :
    AlikeAt R program program s t := by
  have hlen : s.stream.remaining ≤ t.stream.remaining := Nat.le_of_eq hst.stream.remaining_eq.symm
  have hphrases : (phrases (s.stream.remaining + 1)).Alike R s.stream.remaining
      (phrases (t.stream.remaining + 1)) :=
    phrases_alike (Nat.lt_succ_self _) (Nat.lt_succ_of_le hlen)
  have hrun : AlikeAt R
      (statements endsProgram (phrases (s.stream.remaining + 1)).statement s.stream.remaining)
      (statements endsProgram (phrases (t.stream.remaining + 1)).statement t.stream.remaining)
      s t :=
    statements_alikeAt rfl hphrases.statement hst hs (Nat.le_refl _) (Nat.le_refl _) hlen
  exact hrun.congr rfl rfl

end Parse

/-- **Streams that differ in places only are the same program**, with the same errors at places that
correspond. -/
theorem parseStream_alike {s t : TokenStream} (hst : s.Alike R t)
    (hs : s.stop.kind = .endOfInput) : (parseStream t).program = (parseStream s).program ∧
      List.Forall₂ (ParseError.Alike R) (parseStream s).errors (parseStream t).errors := by
  have hrun : Parse.AlikeAt R Parse.program Parse.program (.start s) (.start t) :=
    Parse.program_alike ⟨hst, .nil⟩ hs
  exact ⟨congrArg (Option.getD · []) hrun.result, hrun.state.errors⟩

end Scriptlet
