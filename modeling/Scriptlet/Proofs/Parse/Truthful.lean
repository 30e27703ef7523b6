import Scriptlet.Proofs.Parse.Diagnostics
import Scriptlet.Proofs.Parse.Termination
import Scriptlet.Proofs.Syntax.WellFormed

/-!
# Proofs/Parse/Truthful — every error is true, and every tree is well formed

A parser that has gone wrong carries on: it leaves statements out, takes nothing for a body and goes
on in the middle of a phrase.  But it only ever looks at tokens of the source, and asks each what it
is before it complains of it; and trees are made of such tokens and of the trees within them.

`Upholds` says both of a parser at once, and of the token that is current when it is done.  One rule
relies on that: the first clause of a loop is no block because it ends at a semicolon, and a block
does not.
-/

namespace Scriptlet

variable {source : String}

/-! ## Truthful readers

Two things go along with a reader: that it stands in the source, so that every token it sees is one
of the source, and that all it has complained of is true. -/

/-- The reader stands somewhere in the source, and all its errors are true. -/
structure ParseState.Truthful (source : String) (s : ParseState) : Prop where
  suffix : s.stream.pending ++ [s.stream.stop] <:+ sourceLine source
  errors : ∀ e ∈ s.errors, e.TrueIn source

namespace ParseState.Truthful

variable {s : ParseState} {e : ParseError}

/-- A reader starts at the first token, and has complained of nothing. -/
theorem start (source : String) : (ParseState.start (.ofSource source)).Truthful source :=
  ⟨List.suffix_refl _, List.forall_mem_nil _⟩

/-- Behind the tokens of a source stands the end of input. -/
theorem ended (h : s.Truthful source) : s.Ended := by
  obtain ⟨before, hline⟩ := h.suffix
  rw [← List.append_assoc] at hline
  have hstop : s.stream.stop = .endAt source.utf8ByteSize :=
    List.singleton_inj.mp (List.append_inj_right' hline rfl)
  exact congrArg Token.kind hstop

/-- The current token is one of the source, or the end of input behind it. -/
theorem current_mem (h : s.Truthful source) : s.stream.current ∈ sourceLine source := by
  refine h.suffix.subset ?_
  unfold TokenStream.current
  cases s.stream.pending with
  | nil => exact List.mem_singleton_self _
  | cons t pending => exact List.mem_cons_self

/-- To pass a token leaves the reader in the source. -/
theorem next (h : s.Truthful source) : s.next.Truthful source :=
  ⟨next_suffix h.suffix, h.errors⟩

theorem upcoming_mem (h : s.Truthful source) : s.stream.upcoming ∈ sourceLine source :=
  h.next.current_mem

/-- A true error may be added. -/
theorem report (h : s.Truthful source) (he : e.TrueIn source) : (s.report e).Truthful source where
  suffix := h.suffix
  errors e' he' := by
    obtain he' | rfl := mem_errors_report he'
    · exact h.errors e' he'
    · exact he

end ParseState.Truthful

/-- A complaint about a token of the source, of the kind that it has. -/
theorem ParseError.TrueIn.of_token {fault : ParseFault} {t : Token} (ht : t ∈ sourceLine source)
    (hkind : t.kind = fault.found) (hfault : fault.HoldsAt source t.span) :
    ParseError.TrueIn source ⟨fault, t.span⟩ :=
  ⟨⟨t, ht, rfl, hkind⟩, hfault⟩

namespace Parse

variable {α β : Type} {s : ParseState} {p q : Parse α} {f : α → Parse β}
  {R : α → Token → Prop} {T : β → Token → Prop}

/-- From `s` on, the parser ends truthful, and `R` relates its result, if it has one, to the token
that is current then. -/
structure UpholdsAt (source : String) (p : Parse α) (R : α → Token → Prop) (s : ParseState) :
    Prop where
  state : (p s).2.Truthful source
  result : ∀ a ∈ (p s).1, R a (p s).2.stream.current

/-- From any truthful state on, the parser upholds `R`. -/
def Upholds (source : String) (p : Parse α) (R : α → Token → Prop) : Prop :=
  ∀ s : ParseState, s.Truthful source → UpholdsAt source p R s

/-! ### From one state -/

namespace UpholdsAt

/-- **One parser after another.** -/
theorem bind (hp : UpholdsAt source p R s)
    (hf : ∀ a, R a (p s).2.stream.current → UpholdsAt source (f a) T (p s).2) :
    UpholdsAt source (p >>= f) T s := by
  obtain ⟨hstate, hresult⟩ := hp
  rcases hps : p s with ⟨_ | a, s₁⟩
  all_goals rw [hps] at hstate hresult hf
  · have hrun : (p >>= f) s = (none, s₁) := by rw [bind_apply, hps]
    exact ⟨hrun ▸ hstate, hrun ▸ fun b hb => by cases hb⟩
  · have hrun : (p >>= f) s = f a s₁ := by rw [bind_apply, hps]
    obtain ⟨hstate', hresult'⟩ := hf a (hresult a rfl)
    exact ⟨hrun ▸ hstate', hrun ▸ hresult'⟩

/-! A look at a token does not move the reader; what follows may use that the token is one of the
source. -/

theorem pure {a : α} (hs : s.Truthful source) (ha : R a s.stream.current) :
    UpholdsAt source (pure a) R s :=
  ⟨hs, fun _ hb => Option.some.inj hb ▸ ha⟩

theorem current {f : Token → Parse β} (hf : UpholdsAt source (f s.stream.current) T s) :
    UpholdsAt source (Parse.current >>= f) T s :=
  ⟨hf.state, hf.result⟩

theorem upcoming {f : Token → Parse β} (hf : UpholdsAt source (f s.stream.upcoming) T s) :
    UpholdsAt source (Parse.upcoming >>= f) T s :=
  ⟨hf.state, hf.result⟩

theorem advance {f : Unit → Parse β} (hf : UpholdsAt source (f ()) T s.next) :
    UpholdsAt source (Parse.advance >>= f) T s :=
  ⟨hf.state, hf.result⟩

end UpholdsAt

/-! ### From all states -/

namespace Upholds

theorem bind (hp : Upholds source p R) (hf : ∀ a t, R a t → Upholds source (f a) T) :
    Upholds source (p >>= f) T := by
  intro s hs
  have hfirst := hp s hs
  exact hfirst.bind fun a ha => hf a _ ha _ hfirst.state

/-- A result of the parser's own making has to be right whatever token is current. -/
theorem pure {a : α} (ha : ∀ t, R a t) : Upholds source (pure a) R :=
  fun _ hs => .pure hs (ha _)

theorem mono {R' : α → Token → Prop} (h : Upholds source p R) (hR : ∀ a t, R a t → R' a t) :
    Upholds source p R' :=
  fun s hs => ⟨(h s hs).state, fun a ha => hR a _ ((h s hs).result a ha)⟩

theorem fail : Upholds source (fail : Parse α) R := fun _ hs => ⟨hs, fun _ ha => by cases ha⟩

/-- The relation holds of a result just if there is one. -/
theorem attempt (h : Upholds source p R) :
    Upholds source (attempt p) fun o t => ∀ a ∈ o, R a t :=
  fun s hs => ⟨(h s hs).state, fun _ ho => Option.some.inj ho ▸ (h s hs).result⟩

/-- A branch may use that its condition held, which is a fact about a token. -/
theorem ite {c : Prop} [Decidable c] (hp : c → Upholds source p R)
    (hq : ¬ c → Upholds source q R) : Upholds source (if c then p else q) R := by
  split
  · next hc => exact hp hc
  · next hc => exact hq hc

theorem map {g : α → β} (h : Upholds source p R) (hg : ∀ a t, R a t → T (g a) t) :
    Upholds source (p >>= fun a => Pure.pure (g a)) T :=
  fun s hs => (h s hs).bind fun a ha => .pure (h s hs).state (hg a _ ha)

/-- The token that is looked at is one of the source. -/
theorem current {f : Token → Parse β} (hf : ∀ t ∈ sourceLine source, Upholds source (f t) T) :
    Upholds source (Parse.current >>= f) T :=
  fun s hs => .current (hf _ hs.current_mem s hs)

theorem upcoming {f : Token → Parse β} (hf : ∀ t ∈ sourceLine source, Upholds source (f t) T) :
    Upholds source (Parse.upcoming >>= f) T :=
  fun s hs => .upcoming (hf _ hs.upcoming_mem s hs)

/-- The token that is looked at behind a parser is the one that it ends at. -/
theorem bind_current {f : α → Token → Parse β} (hp : Upholds source p R)
    (hf : ∀ a, ∀ t ∈ sourceLine source, R a t → Upholds source (f a t) T) :
    Upholds source (p >>= fun a => Parse.current >>= f a) T := by
  intro s hs
  have hfirst := hp s hs
  exact hfirst.bind fun a ha => .current (hf a _ hfirst.state.current_mem ha _ hfirst.state)

/-- How many tokens there are is of no importance here. -/
theorem remaining {f : Nat → Parse β} (hf : ∀ n, Upholds source (f n) T) :
    Upholds source (Parse.remaining >>= f) T := by
  intro s hs
  have hrun := hf s.stream.remaining s hs
  exact ⟨hrun.state, hrun.result⟩

theorem advance {f : Unit → Parse β} (hf : Upholds source (f ()) T) :
    Upholds source (Parse.advance >>= f) T :=
  fun _ hs => .advance (hf _ hs.next)

/-- A complaint is made of a token that was looked at, with the kind it has. -/
theorem report {fault : ParseFault} {t : Token} (ht : t ∈ sourceLine source)
    (hkind : t.kind = fault.found) (hfault : fault.HoldsAt source t.span) :
    Upholds source (report fault t.span) fun _ _ => True :=
  fun _ hs => ⟨hs.report (.of_token ht hkind hfault), fun _ _ => trivial⟩

theorem reject {fault : ParseFault} {t : Token} (ht : t ∈ sourceLine source)
    (hkind : t.kind = fault.found) (hfault : fault.HoldsAt source t.span) :
    Upholds source (reject fault t.span : Parse α) R :=
  (report ht hkind hfault).bind fun _ _ _ => fail

/-- What was required is current. -/
theorem expect (kind : TokenKind) :
    Upholds source (expect kind) fun _ t => t.kind = kind := by
  intro s hs
  refine .upcoming ?_
  split
  · next hkind => exact ⟨hs.next, fun _ _ => hkind⟩
  · next hkind =>
    refine reject hs.upcoming_mem rfl ?_ s hs
    exact Ne.symm hkind

/-- Nothing is claimed of the token that is current behind it. -/
theorem skip (kind : TokenKind) : Upholds source (skip kind) fun _ _ => True :=
  .upcoming fun _ _ => .ite (fun _ => .advance (.pure fun _ => trivial))
    fun _ => .pure fun _ => trivial

end Upholds

end Parse

/-- The phrases uphold the well-formedness of trees, and go forward; a statement that ends at a
semicolon is no block. -/
structure Phrases.Upholds (source : String) (inner : Phrases) : Prop where
  expression (limit : Precedence) :
    Parse.Upholds source (inner.expression limit) fun e _ => e.WellFormed
  statement : Parse.Upholds source inner.statement fun st t =>
    st.WellFormed ∧ (t.kind = .semicolon → ∀ b, st ≠ .block b)
  forward (n : Nat) : Parse.Alike Eq n inner.statement inner.statement

namespace Parse

variable {inner : Phrases}

/-! ## Blocks

Statements that could not be read are left out, and those that were are well formed. -/

/-- What is left out of a list is not in the tree, so the tree is well formed without it. -/
theorem statements_upholds (closes : TokenKind → Bool) {p : Parse Statement}
    (hp : Upholds source p fun st _ => st.WellFormed) (n : Nat) :
    Upholds source (statements closes p n) fun b _ => b.WellFormed := by
  induction n with
  | zero => exact .pure fun _ => List.forall_mem_nil _
  | succ n ih =>
    refine .current fun _ _ => .ite (fun _ => .pure fun _ => List.forall_mem_nil _) fun _ =>
      .bind (.attempt hp) fun _ _ hfirst => .advance
        (.bind ih fun _ _ hothers => .pure fun _ => ?_)
    exact List.forall_mem_append.mpr ⟨fun st hst => hfirst st (Option.mem_toList.mp hst), hothers⟩

/-- The end of input is where a block was not closed. -/
theorem blockEnd_upholds (hs : s.Truthful source) :
    UpholdsAt source blockEnd (fun _ t => t = s.stream.current) s := by
  refine .current ?_
  split
  · next hend =>
    have hspan := span_of_end hs.current_mem hend
    exact ⟨hs.report (.of_token hs.current_mem hend hspan), fun _ _ => rfl⟩
  · exact .pure hs rfl

/-- **A block does not end at a semicolon.** -/
theorem block_upholds (h : inner.Upholds source) : Upholds source (block inner) fun b t =>
    b.WellFormed ∧ t.kind ≠ .semicolon := by
  intro s hs
  -- the statements end at a brace or at the end of input, and `blockEnd` stays there
  have hbody := statements_upholds endsBlock (h.statement.mono fun _ _ hst => hst.1)
    s.next.stream.remaining s.next hs.next
  have hcloses : endsBlock (statements endsBlock inner.statement s.next.stream.remaining
      s.next).2.stream.current.kind :=
    closes_of_statements rfl (h.forward _) hs.next.ended (Nat.le_refl _) (Nat.le_refl _)
  have hbody' : UpholdsAt source
      (advance >>= fun _ => remaining >>= statements endsBlock inner.statement)
      (fun b t => b.WellFormed ∧ endsBlock t.kind) s :=
    ⟨hbody.state, fun b hb => ⟨hbody.result b hb, hcloses⟩⟩
  rw [block_eq]
  refine hbody'.bind fun b ⟨hb, hend⟩ => (blockEnd_upholds hbody'.state).bind fun _ hcurrent =>
    .pure (blockEnd_upholds hbody'.state).state ⟨hb, fun hsemicolon => ?_⟩
  rw [← hcurrent, hsemicolon] at hend
  cases hend

/-- A body that could not be read is empty. -/
theorem body_upholds (h : inner.Upholds source) :
    Upholds source (body inner) fun b _ => b.WellFormed := by
  refine .current fun _ _ => .ite (fun _ => (block_upholds h).mono fun _ _ hb => hb.1) fun _ =>
    .bind (.attempt h.statement) fun o _ ho => .pure fun _ st hst => ?_
  exact (ho st (Option.mem_toList.mp hst)).1

/-! ## Lists between delimiters

A list is well formed if its items are. -/

/-- All items are well formed, since each is. -/
theorem moreItems_upholds (h : inner.Upholds source) (n : Nat) :
    Upholds source (moreItems inner n) fun es _ => ∀ e ∈ es, e.WellFormed := by
  induction n with
  | zero => exact .pure fun _ => List.forall_mem_nil _
  | succ n ih =>
    exact .bind (.skip .comma) fun _ _ _ => .ite
      (fun _ => .advance (.bind (h.expression .lowest) fun _ _ hfirst =>
        .bind ih fun _ _ hothers => .pure fun _ =>
          List.forall_mem_cons.mpr ⟨hfirst, hothers⟩))
      fun _ => .pure fun _ => List.forall_mem_nil _

theorem items_upholds (h : inner.Upholds source) (close : TokenKind) :
    Upholds source (items inner close) fun es _ => ∀ e ∈ es, e.WellFormed :=
  .bind (.skip close) fun _ _ _ => .ite (fun _ => .pure fun _ => List.forall_mem_nil _)
    fun _ => .advance (.bind (h.expression .lowest) fun _ _ hfirst => .remaining fun n =>
      .bind (moreItems_upholds h n) fun _ _ hothers => .bind (.expect close) fun _ _ _ =>
        .pure fun _ => List.forall_mem_cons.mpr ⟨hfirst, hothers⟩)

/-- The token that is behind a pair is looked at twice, and has not moved in between. -/
theorem pairEnd_upholds : Upholds source pairEnd fun _ _ => True := by
  intro s hs
  unfold pairEnd skip
  rw [bind_assoc]
  refine .upcoming ?_
  split
  · exact .advance (.pure hs.next trivial)
  · next hcomma =>
    rw [pure_bind]
    refine .upcoming ?_
    split
    · exact .pure hs trivial
    · next hbrace =>
      refine Upholds.reject hs.upcoming_mem rfl ?_ s hs
      exact ⟨hcomma, hbrace⟩

/-- Keys and values alike. -/
theorem pairs_upholds (h : inner.Upholds source) (n : Nat) :
    Upholds source (pairs inner n) fun ps _ =>
      ∀ p ∈ ps, p.1.WellFormed ∧ p.2.WellFormed := by
  induction n with
  | zero => exact .pure fun _ => List.forall_mem_nil _
  | succ n ih =>
    exact .upcoming fun _ _ => .ite (fun _ => .pure fun _ => List.forall_mem_nil _) fun _ =>
      .advance (.bind (h.expression .lowest) fun key _ hkey => .bind (.expect .colon) fun _ _ _ =>
        .advance (.bind (h.expression .lowest) fun value _ hvalue =>
          .bind pairEnd_upholds fun _ _ _ => .bind ih fun _ _ hothers => .pure fun _ =>
            List.forall_mem_cons.mpr ⟨⟨hkey, hvalue⟩, hothers⟩))

/-- The text of an identifier token is a name, and no keyword. -/
theorem param_upholds : Upholds source param fun p _ => IsName p.name := by
  have hellipsis : Upholds source ellipsis fun _ _ => True :=
    .current fun _ _ => .ite (fun _ => .advance (.pure fun _ => trivial))
      fun _ => .pure fun _ => trivial
  exact .bind hellipsis fun _ _ _ => .current fun t ht => .ite
    (fun hkind => .pure fun _ => isName_of_identifier ht hkind)
    fun hkind => .reject ht rfl (Ne.symm hkind)

theorem moreParams_upholds (n : Nat) :
    Upholds source (moreParams n) fun ps _ => ∀ p ∈ ps, IsName p.name := by
  induction n with
  | zero => exact .pure fun _ => List.forall_mem_nil _
  | succ n ih =>
    exact .bind (.skip .comma) fun _ _ _ => .ite
      (fun _ => .advance (.bind param_upholds fun _ _ hfirst =>
        .bind ih fun _ _ hothers => .pure fun _ =>
          List.forall_mem_cons.mpr ⟨hfirst, hothers⟩))
      fun _ => .pure fun _ => List.forall_mem_nil _

theorem params_upholds : Upholds source params fun ps _ => ∀ p ∈ ps, IsName p.name :=
  .bind (.skip .rightParen) fun _ _ _ => .ite (fun _ => .pure fun _ => List.forall_mem_nil _)
    fun _ => .advance (.bind param_upholds fun _ _ hfirst => .remaining fun n =>
      .bind (moreParams_upholds n) fun _ _ hothers => .bind (.expect .rightParen) fun _ _ _ =>
        .pure fun _ => List.forall_mem_cons.mpr ⟨hfirst, hothers⟩)

/-! ## Expressions

Every expression that is given is well formed, whatever was left out around it. -/

/-- **A numeral that is too large is one, and what is read of the others is its value.** -/
theorem integer_upholds {t : Token} (ht : t ∈ sourceLine source) (hkind : t.kind = .integer) :
    Upholds source (integer t) fun e _ => e.WellFormed := by
  obtain ⟨hliteral, hnumeral⟩ := isNumeral_of_integer ht hkind
  refine .ite (fun hlt => .pure fun _ => ?_) fun hge => .reject ht hkind ?_
  · have hvalue : (Int64.ofNat (decimal t.literal)).toInt = decimal t.literal :=
      Int64.toInt_ofNat_of_lt hlt
    refine .integer ?_ ?_
    · rw [hvalue]
      exact Int.natCast_nonneg _
    · rw [hvalue]
      exact Int.ofNat_lt.mpr hlt
  · exact ⟨hliteral, hnumeral, _, hnumeral.toNat?, Nat.le_of_not_lt hge⟩

theorem unary_upholds (h : inner.Upholds source) (op : PrefixOp) :
    Upholds source (unary inner op) fun e _ => e.WellFormed :=
  .advance (.bind (h.expression .unary) fun _ _ he => .pure fun _ => .unary op he)

/-- Parentheses leave no node, so nothing new is to be checked. -/
theorem grouped_upholds (h : inner.Upholds source) :
    Upholds source (grouped inner) fun e _ => e.WellFormed :=
  .advance (.bind (h.expression .lowest) fun _ _ he => .bind (.expect .rightParen) fun _ _ _ =>
    .pure fun _ => he)

theorem hash_upholds (h : inner.Upholds source) :
    Upholds source (hash inner) fun e _ => e.WellFormed :=
  .remaining fun n => .bind (pairs_upholds h n) fun _ _ hps =>
    .bind (.expect .rightBrace) fun _ _ _ => .pure fun _ =>
      .hash (fun p hp => (hps p hp).1) fun p hp => (hps p hp).2

theorem function_upholds (h : inner.Upholds source) :
    Upholds source (function inner) fun e _ => e.WellFormed :=
  .bind (.expect .leftParen) fun _ _ _ => .bind params_upholds fun _ _ hps =>
    .bind (.expect .leftBrace) fun _ _ _ => .bind (block_upholds h) fun _ _ hb =>
      .pure fun _ => .function hps hb.1

/-- A condition and its branch. -/
theorem clause_upholds (h : inner.Upholds source) :
    Upholds source (clause inner) fun c _ => c.1.WellFormed ∧ Block.WellFormed c.2 :=
  .bind (.expect .leftParen) fun _ _ _ => .advance
    (.bind (h.expression .lowest) fun _ _ he => .bind (.expect .rightParen) fun _ _ _ =>
      .advance (.bind (body_upholds h) fun _ _ hb => .pure fun _ => ⟨he, hb⟩))

/-- All further clauses, and the last branch if there is one. -/
theorem alternatives_upholds (h : inner.Upholds source) (n : Nat) :
    Upholds source (alternatives inner n) fun r _ =>
      (∀ c ∈ r.1, c.1.WellFormed ∧ Block.WellFormed c.2) ∧ ∀ b ∈ r.2, Block.WellFormed b := by
  have hnone : ∀ b ∈ (none : Option Block), b.WellFormed := fun b hb => by cases hb
  induction n with
  | zero => exact .pure fun _ => ⟨List.forall_mem_nil _, hnone⟩
  | succ n ih =>
    refine .bind (.skip .elseWord) fun _ _ _ => .ite (fun _ => .bind (.skip .ifWord) fun _ _ _ =>
      .ite (fun _ => ?_) fun _ => ?_) fun _ => .pure fun _ => ⟨List.forall_mem_nil _, hnone⟩
    · exact .bind (clause_upholds h) fun _ _ hfirst => .bind ih fun _ _ hothers =>
        .pure fun _ => ⟨List.forall_mem_cons.mpr ⟨hfirst, hothers.1⟩, hothers.2⟩
    · exact .advance (.bind (body_upholds h) fun b _ hb => .pure fun _ =>
        ⟨List.forall_mem_nil _, fun _ hb' => Option.some.inj hb' ▸ hb⟩)

/-- A conditional has at least one clause, the first. -/
theorem conditional_upholds (h : inner.Upholds source) :
    Upholds source (conditional inner) fun e _ => e.WellFormed := by
  refine .bind (clause_upholds h) fun first _ hfirst => .remaining fun n =>
    .bind (alternatives_upholds h n) fun others _ hothers => .pure fun _ => ?_
  have hclauses : ∀ c ∈ first :: others.1, c.1.WellFormed ∧ Block.WellFormed c.2 :=
    List.forall_mem_cons.mpr ⟨hfirst, hothers.1⟩
  exact .conditional (List.cons_ne_nil _ _) (fun c hc => (hclauses c hc).1)
    (fun c hc => (hclauses c hc).2) hothers.2

/-- **What an expression starts with** is well formed, by the kind of the token. -/
theorem leading_upholds (h : inner.Upholds source) :
    Upholds source (leading inner) fun e _ => e.WellFormed := by
  refine .current fun t ht => ?_
  split
  · next hkind => exact .pure fun _ => .ident (isName_of_identifier ht hkind)
  · next hkind => exact integer_upholds ht hkind
  · exact .pure fun _ => .string _
  · exact .pure fun _ => .boolean _
  · exact .pure fun _ => .boolean _
  · exact unary_upholds h .not
  · exact unary_upholds h .neg
  · exact grouped_upholds h
  · exact .bind (items_upholds h _) fun _ _ hes => .pure fun _ => .array hes
  · exact hash_upholds h
  · exact conditional_upholds h
  · exact function_upholds h
  · refine .reject ht rfl fun hbegins => ?_
    have hstarts := beginsExpression_iff.mp hbegins
    unfold startsExpression at hstarts
    split at hstarts
    all_goals contradiction

/-- An operator puts an operand beside one that is well formed. -/
theorem extension_upholds (h : inner.Upholds source) {left : Expr} (hleft : left.WellFormed)
    (strength : Precedence) (how : Extension) :
    Upholds source (extension inner left strength how) fun e _ => e.WellFormed := by
  cases how with
  | binary op =>
    exact .advance (.bind (h.expression _) fun _ _ hright => .pure fun _ => .binary op hleft hright)
  | call =>
    exact .bind (items_upholds h .rightParen) fun _ _ hargs => .pure fun _ => .call hleft hargs
  | index =>
    exact .advance (.bind (h.expression .lowest) fun _ _ hkey =>
      .bind (.expect .rightBracket) fun _ _ _ => .pure fun _ => .index hleft hkey)

/-- By induction on the turns, for every left operand that is well formed. -/
theorem extend_upholds (h : inner.Upholds source) (limit : Precedence) (n : Nat) {left : Expr}
    (hleft : left.WellFormed) :
    Upholds source (extend inner limit n left) fun e _ => e.WellFormed := by
  induction n generalizing left with
  | zero => exact .pure fun _ => hleft
  | succ n ih =>
    refine .upcoming fun t _ => ?_
    rcases Extension.of t.kind with _ | ⟨strength, how⟩
    · exact .pure fun _ => hleft
    · exact .ite (fun _ => .advance (.bind (extension_upholds h hleft strength how)
        fun _ _ hlonger => ih hlonger)) fun _ => .pure fun _ => hleft

/-- An expression is well formed wherever it ends. -/
theorem expression_upholds (h : inner.Upholds source) (limit : Precedence) :
    Upholds source (expression inner limit) fun e _ => e.WellFormed :=
  .bind (leading_upholds h) fun _ _ hleft => .remaining fun n => extend_upholds h limit n hleft

/-! ## Statements

What is given for a body in want of one is nothing, and that is well formed. -/

theorem optionalSemicolon_upholds : Upholds source optionalSemicolon fun _ _ => True :=
  .bind (.skip .semicolon) fun _ _ _ => .pure fun _ => trivial

/-- What every statement but a block upholds: there is no token it may not end at. -/
theorem Upholds.no_block {p : Parse Statement}
    (h : Upholds source p fun st _ => st.WellFormed ∧ ∀ b, st ≠ .block b) :
    Upholds source p fun st t => st.WellFormed ∧ (t.kind = .semicolon → ∀ b, st ≠ .block b) :=
  h.mono fun _ _ hst => ⟨hst.1, fun _ => hst.2⟩

/-- The name that is bound is the text of an identifier token. -/
theorem binding_upholds (h : inner.Upholds source) :
    Upholds source (binding inner) fun st _ => st.WellFormed ∧ ∀ b, st ≠ .block b :=
  .bind_current (.expect .identifier) fun _ _ ht hkind => .bind (.expect .assign) fun _ _ _ =>
    .advance (.bind (h.expression .lowest) fun _ _ he => .bind optionalSemicolon_upholds
      fun _ _ _ => .pure fun _ =>
        ⟨.bind (isName_of_identifier ht hkind) he, fun _ => Statement.noConfusion⟩)

theorem returning_upholds (h : inner.Upholds source) :
    Upholds source (returning inner) fun st _ => st.WellFormed ∧ ∀ b, st ≠ .block b :=
  .advance (.bind (h.expression .lowest) fun _ _ he => .bind optionalSemicolon_upholds
    fun _ _ _ => .pure fun _ => ⟨.ret he, fun _ => Statement.noConfusion⟩)

/-- **The first clause of a loop is no block**, for it ends at the semicolon. -/
theorem loopInit_upholds (h : inner.Upholds source) :
    Upholds source (loopInit inner) fun o _ =>
      ∀ st ∈ o, st.WellFormed ∧ ∀ b, st ≠ .block b := by
  refine .current fun _ _ => .ite (fun _ => .pure fun _ st hst => by cases hst) fun _ =>
    .bind_current h.statement fun _ _ ht hinit => .ite (fun hkind => .pure fun _ => ?_)
      fun hkind => .reject ht rfl hkind
  rintro _ ⟨⟩
  exact ⟨hinit.1, hinit.2 hkind⟩

/-- The other two clauses of a header are expressions or missing. -/
theorem loopClause_upholds (h : inner.Upholds source) (close : TokenKind) :
    Upholds source (loopClause inner close) fun o _ => ∀ e ∈ o, e.WellFormed :=
  .current fun _ _ => .ite (fun _ => .pure fun _ e he => by cases he) fun _ =>
    .bind (h.expression .lowest) fun _ _ he => .bind (.expect close) fun _ _ _ =>
      .pure fun _ _ he' => Option.some.inj he' ▸ he

/-- A loop is well formed because its first clause is no block. -/
theorem loop_upholds (h : inner.Upholds source) :
    Upholds source (loop inner) fun st _ => st.WellFormed ∧ ∀ b, st ≠ .block b := by
  refine .bind (.expect .leftParen) fun _ _ _ => .advance (.bind (loopInit_upholds h)
    fun _ _ hinit => .advance (.bind (loopClause_upholds h .semicolon) fun _ _ hcondition =>
      .advance (.bind (loopClause_upholds h .rightParen) fun _ _ hstep =>
        .advance (.bind (body_upholds h) fun _ _ hbody => .pure fun _ =>
          ⟨?_, fun _ => Statement.noConfusion⟩))))
  exact .loop (fun st hst => (hinit st hst).1) (fun st hst => (hinit st hst).2) hcondition hstep
    hbody

theorem expressionStatement_upholds (h : inner.Upholds source) :
    Upholds source (expressionStatement inner) fun st _ =>
      st.WellFormed ∧ ∀ b, st ≠ .block b :=
  .bind (expression_upholds h .lowest) fun _ _ he => .bind optionalSemicolon_upholds
    fun _ _ _ => .pure fun _ => ⟨.expr he, fun _ => Statement.noConfusion⟩

/-- **Statements**, by the kind of their first token. -/
theorem statement_upholds (h : inner.Upholds source) :
    Upholds source (statement inner) fun st t =>
      st.WellFormed ∧ (t.kind = .semicolon → ∀ b, st ≠ .block b) := by
  refine .current fun _ _ => ?_
  split
  · exact (binding_upholds h).no_block
  · exact (returning_upholds h).no_block
  · exact (loop_upholds h).no_block
  · refine .upcoming fun _ _ => .ite (fun _ => ?_) fun _ =>
      (expressionStatement_upholds h).no_block
    exact (block_upholds h).map fun _ _ hb => ⟨.block hb.1, fun hkind => absurd hkind hb.2⟩
  · exact (expressionStatement_upholds h).no_block

/-- By induction on the levels. -/
theorem phrases_upholds (source : String) (n : Nat) : (phrases n).Upholds source := by
  induction n with
  | zero => exact ⟨fun _ => .fail, .fail, fun _ => .fail⟩
  | succ n ih =>
    exact ⟨expression_upholds ih, statement_upholds ih,
      fun m => (phrases_alike_self m (n + 1)).statement⟩

/-- Programs are statements up to the end of input. -/
theorem program_upholds : Upholds source program fun b _ => Block.WellFormed b :=
  .remaining fun n => statements_upholds endsProgram
    ((phrases_upholds source (n + 1)).statement.mono fun _ _ hst => hst.1) n

end Parse

/-! ## Sources

All together, for every source: all errors are true, and the program is well formed. -/

/-- **Every error is true of the token it points at**, wherever the parser was when it noticed it: a
token of this kind stands there in the source or is its end, and it is not what it should have been.
So no number that fits is ever called too large, with any zeros in front. -/
theorem parse_errors_true (source : String) :
    (∀ e ∈ (parse source).errors, e.TrueIn source) ∧
      ∀ t ∈ tokenize source, t.kind = .integer → ∃ n, t.literal.toNat? = some n ∧
        (n < Parse.integerLimit → ∀ e ∈ (parse source).errors, e.span = t.span →
          ∀ text, e.fault ≠ .integerTooLarge text) := by
  have htrue := (Parse.program_upholds _ (.start source)).state.errors
  refine ⟨htrue, fun t ht hkind => ?_⟩
  obtain ⟨hliteral, hnumeral⟩ := isNumeral_of_integer (List.mem_append_left _ ht) hkind
  refine ⟨_, hnumeral.toNat?, fun hlt e he hspan text hfault => ?_⟩
  have hholds := (htrue e he).fault
  rw [hfault, hspan] at hholds
  obtain ⟨rfl, -, n, hn, hge⟩ := hholds
  rw [← hliteral, hnumeral.toNat?] at hn
  exact absurd hlt (Nat.not_lt.mpr (Option.some.inj hn ▸ hge))

/-- The greatest number there is, with zeros in front, and the next one. -/
example : (parse "009223372036854775807").errors = [] ∧ (parse "9223372036854775808").errors =
    [⟨.integerTooLarge "9223372036854775808", ⟨0, 19⟩⟩] := by decide +kernel

/-- **Every tree is well formed**, whatever was wrong in the source and left out of the tree. -/
theorem parse_wellFormed (source : String) : Block.WellFormed (parse source).program := by
  have hresult := (Parse.program_upholds _ (.start source)).result
  show Block.WellFormed (((Parse.program (.start (.ofSource source))).1).getD [])
  rcases hprogram : (Parse.program (.start (.ofSource source))).1 with _ | b
  · exact List.forall_mem_nil _
  · exact hresult b hprogram

end Scriptlet
