import Scriptlet.Proofs.Parse.Obeys

/-!
# Proofs/Parse/Sound — a parse without errors is a reading

Each rule of the parser obeys a rule of `Reads`, given that the phrases inside it do.  A rule passes
a word before it goes further in, so it may be run on one word more than the phrases inside it;
hence `phrases n` obeys on streams of less than `n` words, and a whole program has enough of them.
-/

namespace Scriptlet

/-- On streams of at most `k` words, the phrases are read as `Reads` says. -/
structure Phrases.Sound (k : Nat) (inner : Phrases) : Prop where
  expression (limit : Precedence) :
    (inner.expression limit).Obeys k fun ws e ws' => Reads (.expression limit e) ws ws'
  statement : inner.statement.Obeys k fun ws s ws' => Reads (.statement s) ws ws'

namespace Parse

variable {k : Nat} {inner : Phrases}

/-! ## Blocks

A block is read to its closing brace, and a body is a block or a single statement. -/

/-! What a rule is to obey is said for all numbers of turns, with the premise that there are as many
as words: this is what carries the inductions over turns. A loop without turns is at the end of
input then, where the readings have no further item either. -/

/-- Statements up to a word that closes the list.  A statement takes a word at least, so the turns
last. -/
theorem statements_obeys {closes : TokenKind → Bool} (hend : closes .endOfInput = true)
    {st : Parse Statement} (hst : st.Obeys k fun ws s ws' => Reads (.statement s) ws ws')
    (n : Nat) :
    (statements closes st n).Obeys k fun ws b ws' => ws.length ≤ n →
      closes (firstKind ws') = true ∧ Reads (.statements (firstKind ws') b) ws ws' := by
  -- On the turns.  Each statement passes a word, so the turns last as long as there are words.
  induction n with
  | zero =>
    refine (Obeys.pure []).weaken ?_
    rintro ws b ws' ⟨rfl, rfl⟩ hlen
    obtain rfl := List.length_eq_zero_iff.mp (Nat.le_zero.mp hlen)
    exact ⟨hend, .noStatements rfl⟩
  | succ n ih =>
    rw [statements]
    refine .current fun t => ?_
    split
    · next hc =>
      refine (Obeys.pure []).weaken ?_
      rintro ws b ws' ⟨rfl, rfl⟩ ht - -
      exact ⟨ht ▸ hc, .noStatements rfl⟩
    · next hc =>
      refine (hst.attempt.bind fun first =>
        .pass (ih.bind fun others => .pure _)).weaken ?_
      rintro ws b ws' ⟨_, w, ⟨s, rfl, hs⟩, others, w', hothers, rfl, rfl⟩ ht - hlen
      have hne : ws ≠ [] := by
        rintro rfl
        exact hc (ht ▸ hend)
      have hw : w.tail.length ≤ n := by
        have := hs.length_le
        have := List.length_pos_iff.mpr hne
        rw [List.length_tail]
        omega
      obtain ⟨hclose, hreads⟩ := hothers hw
      exact ⟨hclose, .statements hs hreads⟩

/-- Behind a block that is read without errors stands its brace. -/
theorem blockEnd_obeys :
    blockEnd.Obeys k fun ws _ ws' => firstKind ws ≠ .endOfInput ∧ ws' = ws := by
  refine .current fun t => ?_
  split
  · exact (Obeys.report _ _).weaken fun _ _ _ => False.elim
  · next hne =>
    exact (Obeys.pure ()).weaken fun ws _ ws' h ht _ => ⟨ht ▸ hne, h.2⟩

/-- A block obeys on one word more than its statements, for its opening brace. -/
theorem block_obeys (h : inner.Sound k) :
    (block inner).Obeys (k + 1) fun ws b ws' => Reads (.block b) ws ws' := by
  refine (Obeys.advance (.remaining fun n => (statements_obeys rfl h.statement n).bind fun b =>
    blockEnd_obeys.bind fun _ => .pure b)).weaken ?_
  rintro ws b ws' ⟨_, w, hstmts, -, _, ⟨hne, rfl⟩, rfl, rfl⟩
  obtain ⟨hclose, hreads⟩ := hstmts (Nat.le_refl _)
  have hbrace : firstKind ws' = .rightBrace := by
    simp only [endsBlock, Bool.or_eq_true, decide_eq_true_eq] at hclose
    exact hclose.resolve_right hne
  rw [hbrace] at hreads
  exact .block hreads

/-- A body starts with its first statement or with the brace of a block, so it gains nothing. -/
theorem body_obeys (h : inner.Sound k) :
    (body inner).Obeys k fun ws b ws' => Reads (.body b) ws ws' := by
  refine .current fun t => ?_
  split
  · next hb =>
    exact ((block_obeys h).mono (Nat.le_succ k)).weaken fun ws b ws' hr ht _ =>
      .braced (ht ▸ hb) hr
  · next hb =>
    refine (h.statement.attempt.bind fun _ => .pure _).weaken ?_
    rintro ws b ws' ⟨_, w, ⟨s, rfl, hs⟩, rfl, rfl⟩ ht -
    exact .single (ht ▸ hb) hs

/-! ## Lists between delimiters

Items with commas between them, up to the closing delimiter, which is left for the rule around the
list. -/

/-- What a loop over commas has left: one item takes at least one word. -/
theorem length_le_of_tail_tail {ws w : List Word} {n : Nat} (hc : firstKind ws.tail ≠ .endOfInput)
    (hw : w.length ≤ ws.tail.tail.length) (hlen : ws.length ≤ n + 1) : w.length ≤ n := by
  have := List.length_pos_iff.mpr (ne_nil_of_firstKind hc)
  simp only [List.length_tail] at this hw
  omega

/-- Items behind commas; the loop ends where there is no comma. -/
theorem moreItems_obeys (h : inner.Sound k) (n : Nat) :
    (moreItems inner n).Obeys (k + 1) fun ws es ws' =>
      ws.length ≤ n → Reads (.moreItems es) ws ws' := by
  induction n with
  | zero =>
    refine (Obeys.pure []).weaken ?_
    rintro ws es ws' ⟨rfl, rfl⟩ hlen
    obtain rfl := List.length_eq_zero_iff.mp (Nat.le_zero.mp hlen)
    exact .noMoreItems nofun
  | succ n ih =>
    refine (Obeys.skip (.advance ((h.expression .lowest).bind fun e =>
      (ih.mono (Nat.le_succ k)).bind fun es => .pure _)) (.pure [])).weaken ?_
    rintro ws es ws' (⟨hc, e, w, he, es, w', hes, rfl, rfl⟩ | ⟨hc, rfl, rfl⟩) hlen
    · have hw := length_le_of_tail_tail (hc ▸ nofun) he.length_le hlen
      exact .moreItems hc he (hes hw)
    · exact .noMoreItems hc

/-- Both forms of a list: closed at once, or with a first item. -/
theorem items_obeys (h : inner.Sound k) (close : TokenKind) :
    (items inner close).Obeys (k + 1) fun ws es ws' => Reads (.items close es) ws ws' := by
  refine (Obeys.skip (.pure []) (.advance ((h.expression .lowest).bind fun e =>
    .remaining fun n => ((moreItems_obeys h n).mono (Nat.le_succ k)).bind fun es =>
      .expect (.pure (e :: es))))).weaken ?_
  rintro ws es ws' (⟨hc, rfl, rfl⟩ | ⟨hc, e, w, he, es, w', hes, hclose, rfl, rfl⟩)
  · exact .noItems hc
  · exact .items hc he (hes (Nat.le_refl _)) hclose

/-- What is behind a pair decides whether a further key is asked for, and is passed only if it is a
comma. -/
theorem pairEnd_obeys :
    pairEnd.Obeys k fun ws _ ws' =>
      (firstKind ws.tail = .comma ∧ ws' = ws.tail) ∨
        (firstKind ws.tail = .rightBrace ∧ ws' = ws) := by
  have hlast : (do
      let next ← upcoming
      if next.kind = .rightBrace then return ()
      else reject (.missingPairSeparator next.kind) next.span : Parse Unit).Obeys k
        fun ws _ ws' => firstKind ws.tail = .rightBrace ∧ ws' = ws := by
    refine .upcoming fun t => ?_
    split
    · next h =>
      exact (Obeys.pure ()).weaken fun ws _ ws' hp ht => ⟨ht ▸ h, hp.2⟩
    · exact .reject _ _
  refine (Obeys.skip (.pure ()) hlast).weaken ?_
  rintro ws b ws' (⟨hc, -, hw⟩ | ⟨-, hb⟩)
  · exact .inl ⟨hc, hw⟩
  · exact .inr hb

/-- **Pairs of a hash literal.**  That the brace is next is known only to the rule for the whole
literal, so it is a premise here. -/
theorem pairs_obeys (h : inner.Sound k) (n : Nat) :
    (pairs inner n).Obeys (k + 1) fun ws ps ws' =>
      ws.length ≤ n → firstKind ws'.tail = .rightBrace → Reads (.pairs ps) ws ws' := by
  induction n with
  | zero =>
    refine (Obeys.pure []).weaken ?_
    rintro ws es ws' ⟨rfl, rfl⟩ hlen hb
    exact .noPairs hb
  | succ n ih =>
    refine .upcoming fun t => ?_
    split
    · next hb =>
      refine (Obeys.pure []).weaken ?_
      rintro ws ps ws' ⟨rfl, rfl⟩ ht - -
      exact .noPairs (ht ▸ hb)
    · next hb =>
      refine (Obeys.advance ((h.expression .lowest).bind fun key => .expect (.pass
        ((h.expression .lowest).bind fun v => pairEnd_obeys.bind fun _ =>
          (ih.mono (Nat.le_succ k)).bind fun ps => .pure _)))).weaken ?_
      rintro ws ps ws' ⟨key, w₁, hk, hcolon, v, w₂, hv, -, w₃, hend, ps, w₄, hps, rfl, rfl⟩ ht hlen
        hclose
      have hne : firstKind ws.tail ≠ .rightBrace := ht ▸ hb
      have hw : w₂.length ≤ n := by
        have hk := hk.length_le
        have hv := hv.length_le
        simp only [List.length_tail] at hk hv
        omega
      -- With a comma another pair may follow; with a brace the loop over further pairs sees the
      -- same brace and ends.
      rcases hend with ⟨hcomma, rfl⟩ | ⟨hbrace, rfl⟩
      · have hw' : w₂.tail.length ≤ n := Nat.le_trans (by simp) hw
        exact .pair hne hk hcolon hv hcomma (hps hw' hclose)
      · cases hps hw hclose with
        | noPairs => exact .lastPair hne hk hcolon hv hbrace
        | lastPair h => exact absurd hbrace h
        | pair h => exact absurd hbrace h

/-- The dots are passed just if they are there. -/
theorem ellipsis_obeys :
    ellipsis.Obeys k fun ws variadic ws' =>
      (variadic = true ∧ firstKind ws = .ellipsis ∧ ws' = ws.tail) ∨
        (variadic = false ∧ ws' = ws) := by
  refine .current fun t => ?_
  split
  · next h =>
    refine (Obeys.pass (.pure true)).weaken ?_
    rintro ws b ws' ⟨rfl, rfl⟩ ht -
    exact .inl ⟨rfl, ht ▸ h, rfl⟩
  · exact (Obeys.pure false).weaken fun ws b ws' h _ _ => .inr h

/-- A name, with dots in front of it or without. -/
theorem param_obeys :
    param.Obeys k fun ws p ws' => Reads (.param p) ws ws' := by
  have hname (variadic : Bool) : (do
      let t ← current
      if t.kind = .identifier then return ⟨t.literal, variadic⟩
      else reject (.unexpectedToken .identifier t.kind) t.span : Parse Param).Obeys k
        fun ws p ws' => ws' = ws ∧ ∃ x w, ws = .name x :: w ∧ p = ⟨x, variadic⟩ := by
    refine .current fun t => ?_
    split
    · next h =>
      refine (Obeys.pure _).weaken ?_
      rintro ws p ws' ⟨rfl, rfl⟩ - hw
      exact ⟨rfl, t.literal, _, t.word_of_identifier h ▸ hw (h ▸ nofun), rfl⟩
    · exact .reject _ _
  refine (ellipsis_obeys.bind hname).weaken ?_
  rintro ws p ws' ⟨variadic, w, ⟨rfl, h, rfl⟩ | ⟨rfl, rfl⟩, rfl, x, w', hw, rfl⟩
  · exact .variadic h hw
  · rw [hw]
    exact .param

theorem moreParams_obeys (n : Nat) :
    (moreParams n).Obeys k fun ws ps ws' =>
      ws.length ≤ n → Reads (.moreParams ps) ws ws' := by
  induction n with
  | zero =>
    refine (Obeys.pure []).weaken ?_
    rintro ws ps ws' ⟨rfl, rfl⟩ hlen
    obtain rfl := List.length_eq_zero_iff.mp (Nat.le_zero.mp hlen)
    exact .noMoreParams nofun
  | succ n ih =>
    refine (Obeys.skip (.pass (param_obeys.bind fun p => ih.bind fun ps => .pure _))
      (.pure [])).weaken ?_
    rintro ws ps ws' (⟨hc, p, w, hp, ps, w', hps, rfl, rfl⟩ | ⟨hc, rfl, rfl⟩) hlen
    · have hw := length_le_of_tail_tail (hc ▸ nofun) hp.length_le hlen
      exact .moreParams hc hp (hps hw)
    · exact .noMoreParams hc

/-- Both forms of a parameter list, like those of a list of expressions. -/
theorem params_obeys : params.Obeys k fun ws ps ws' => Reads (.params ps) ws ws' := by
  refine (Obeys.skip (.pure []) (.pass (param_obeys.bind fun p => .remaining fun n =>
    (moreParams_obeys n).bind fun ps => .expect (.pure (p :: ps))))).weaken ?_
  rintro ws ps ws' (⟨hc, rfl, rfl⟩ | ⟨hc, p, w, hp, ps, w', hps, hclose, rfl, rfl⟩)
  · exact .noParams hc
  · exact .params hc hp (hps (Nat.le_refl _)) hclose

/-! ## Expressions

What stands at the front decides the rule; then operators are read as long as they bind tighter than
the limit. -/

/-- A literal that is read is one that is in range. -/
theorem integer_obeys (t : Token) :
    (integer t).Obeys k fun ws e ws' => t.kind = .integer → ws = t.word :: ws.tail →
      Reads (.leading e) ws ws' := by
  unfold integer
  dsimp only
  split
  · next hn =>
    refine (Obeys.pure _).weaken ?_
    rintro ws e ws' ⟨rfl, rfl⟩ h hw
    rw [hw, t.word_of_integer h]
    exact .integer hn
  · exact .reject _ _

/-! The rules below are run by `leading` on a token that has been looked at, so the kind of the
first word is a premise of theirs. -/

theorem unary_obeys (h : inner.Sound k) (op : PrefixOp) :
    (unary inner op).Obeys (k + 1) fun ws e ws' => firstKind ws = op.kind →
      Reads (.leading e) ws ws' := by
  refine (Obeys.advance ((h.expression .unary).bind fun e => .pure (Expr.unary op e))).weaken ?_
  rintro ws e ws' ⟨e, w, he, rfl, rfl⟩ hop
  exact .unary hop he

/-- Parentheses around an expression leave no trace in the tree, but in the reading. -/
theorem grouped_obeys (h : inner.Sound k) :
    (grouped inner).Obeys (k + 1) fun ws e ws' => firstKind ws = .leftParen →
      Reads (.leading e) ws ws' := by
  refine (Obeys.advance ((h.expression .lowest).bind fun e => .expect (.pure e))).weaken ?_
  rintro ws e ws' ⟨e, w, he, hclose, rfl, rfl⟩ hopen
  exact .grouped hopen he hclose

/-- The brace that the rule requires is the premise of `pairs_obeys`. -/
theorem hash_obeys (h : inner.Sound k) :
    (hash inner).Obeys (k + 1) fun ws e ws' => firstKind ws = .leftBrace →
      Reads (.leading e) ws ws' := by
  refine (Obeys.remaining fun n => (pairs_obeys h n).bind fun ps =>
    .expect (.pure (Expr.hash ps))).weaken ?_
  rintro ws e ws' ⟨ps, w, hps, hclose, rfl, rfl⟩ hopen
  exact .hash hopen (hps (Nat.le_refl _) hclose) hclose

theorem function_obeys (h : inner.Sound k) :
    (function inner).Obeys (k + 1) fun ws e ws' => firstKind ws = .functionWord →
      Reads (.leading e) ws ws' := by
  refine (Obeys.expect (params_obeys.bind fun ps => .expect ((block_obeys h).bind fun b =>
    .pure (Expr.function ps b)))).weaken ?_
  rintro ws e ws' ⟨hparen, ps, w, hps, hbrace, b, w', hb, rfl, rfl⟩ hfn
  exact .function hfn hparen hps hbrace hb

/-- Two parentheses around the condition, and a body behind them. -/
theorem clause_obeys (h : inner.Sound k) :
    (clause inner).Obeys (k + 1) fun ws c ws' => Reads (.clause c) ws ws' := by
  refine (Obeys.expect (.advance ((h.expression .lowest).bind fun c => .expect (.pass
    ((body_obeys h).bind fun b => .pure (c, b)))))).weaken ?_
  rintro ws c ws' ⟨hopen, c, w, hc, hclose, b, w', hb, rfl, rfl⟩
  exact .clause hopen hc hclose hb

/-- A further clause, the last branch or nothing, as the words behind the branch say. -/
theorem alternatives_obeys (h : inner.Sound k) (n : Nat) :
    (alternatives inner n).Obeys (k + 1) fun ws a ws' =>
      ws.length ≤ n → Reads (.alternatives a.1 a.2) ws ws' := by
  induction n with
  | zero =>
    refine (Obeys.pure _).weaken ?_
    rintro ws a ws' ⟨rfl, rfl⟩ hlen
    obtain rfl := List.length_eq_zero_iff.mp (Nat.le_zero.mp hlen)
    exact .noAlternative nofun
  | succ n ih =>
    refine (Obeys.skip (.skip ((clause_obeys h).bind fun c => ih.bind fun a =>
      .pure (c :: a.1, a.2)) (.advance ((body_obeys h).bind fun b => .pure ([], some b))))
      (.pure ([], none))).weaken ?_
    rintro ws a ws' (⟨helse, ⟨hif, c, w, hc, a, w', ha, rfl, rfl⟩ | ⟨hif, b, w, hb, rfl, rfl⟩⟩ |
      ⟨helse, rfl, rfl⟩) hlen
    · have hw := length_le_of_tail_tail (helse ▸ nofun) hc.length_le hlen
      exact .elseIf helse hif hc (ha hw)
    · exact .otherwise helse hif hb
    · exact .noAlternative helse

theorem conditional_obeys (h : inner.Sound k) :
    (conditional inner).Obeys (k + 1) fun ws e ws' => firstKind ws = .ifWord →
      Reads (.leading e) ws ws' := by
  refine (Obeys.bind (clause_obeys h) fun c => .remaining fun n => (alternatives_obeys h n).bind
    fun a => .pure (Expr.conditional (c :: a.1) a.2)).weaken ?_
  rintro ws e ws' ⟨c, w, hc, a, w', ha, rfl, rfl⟩ hif
  exact .conditional hif hc (ha (Nat.le_refl _))

/-- **What an expression starts with**, by the kind of its first word. -/
theorem leading_obeys (h : inner.Sound k) :
    (leading inner).Obeys (k + 1) fun ws e ws' => Reads (.leading e) ws ws' := by
  refine .current fun t => ?_
  -- One case for each kind of token that an expression may begin with, in the order of the rules.
  split
  · next ht =>
    refine (Obeys.pure _).weaken ?_
    rintro ws e ws' ⟨rfl, rfl⟩ - hw
    rw [hw (ht ▸ nofun), t.word_of_identifier ht]
    exact .ident
  · next ht =>
    exact (integer_obeys t).weaken fun ws e ws' he _ hw => he ht (hw (ht ▸ nofun))
  · next ht =>
    refine (Obeys.pure _).weaken ?_
    rintro ws e ws' ⟨rfl, rfl⟩ - hw
    rw [hw (ht ▸ nofun), t.word_of_string ht]
    exact .string
  · next ht =>
    refine (Obeys.pure _).weaken ?_
    rintro ws e ws' ⟨rfl, rfl⟩ hk -
    exact .trueWord (hk ▸ ht)
  · next ht =>
    refine (Obeys.pure _).weaken ?_
    rintro ws e ws' ⟨rfl, rfl⟩ hk -
    exact .falseWord (hk ▸ ht)
  · next ht => exact (unary_obeys h .not).weaken fun ws e ws' he hk _ => he (hk ▸ ht)
  · next ht => exact (unary_obeys h .neg).weaken fun ws e ws' he hk _ => he (hk ▸ ht)
  · next ht => exact (grouped_obeys h).weaken fun ws e ws' he hk _ => he (hk ▸ ht)
  · next ht =>
    refine ((items_obeys h .rightBracket).bind fun es => .pure _).weaken ?_
    rintro ws e ws' ⟨es, w, hes, rfl, rfl⟩ hk -
    exact .array (hk ▸ ht) hes
  · next ht => exact (hash_obeys h).weaken fun ws e ws' he hk _ => he (hk ▸ ht)
  · next ht => exact (conditional_obeys h).weaken fun ws e ws' he hk _ => he (hk ▸ ht)
  · next ht => exact (function_obeys h).weaken fun ws e ws' he hk _ => he (hk ▸ ht)
  · exact .reject _ _

/-- One more operator leaves fewer words for those after it. -/
theorem length_le_of_extension {ws w : List Word} {n : Nat} {how : Precedence × Extension}
    (hof : Extension.of (firstKind ws.tail) = some how) (hw : w.length ≤ ws.tail.length)
    (hlen : ws.length ≤ n + 1) : w.length ≤ n := by
  have hne : firstKind ws.tail ≠ .endOfInput := fun h => by
    rw [h] at hof
    cases hof
  have := List.length_pos_iff.mpr (ne_nil_of_firstKind hne)
  simp only [List.length_tail] at this hw
  omega

/-- After one operator, what is read on from there carries on `left`. -/
theorem extension_obeys (h : inner.Sound k) (left : Expr) (strength : Precedence)
    (how : Extension) :
    (extension inner left strength how).Obeys (k + 1) fun ws longer ws' =>
      ws'.length ≤ ws.length ∧ ∀ limit w e w', limit < strength →
        Extension.of (firstKind w.tail) = some (strength, how) → w.tail = ws →
        Reads (.extended limit longer e) ws' w' → Reads (.extended limit left e) w w' := by
  cases how with
  | binary op =>
    refine (Obeys.advance ((h.expression _).bind fun r => .pure (Expr.binary op left r))).weaken ?_
    rintro ws _ ws' ⟨r, w, hr, rfl, rfl⟩
    refine ⟨Nat.le_trans hr.length_le (by simp), ?_⟩
    rintro limit w e w' hlt hof rfl he
    exact .binary hof hlt hr he
  | call =>
    refine ((items_obeys h .rightParen).bind fun as => .pure (Expr.call left as)).weaken ?_
    rintro ws _ ws' ⟨as, w, has, rfl, rfl⟩
    refine ⟨has.length_le, ?_⟩
    rintro limit w e w' hlt hof rfl he
    exact .call hof hlt has he
  | index =>
    refine (Obeys.advance ((h.expression .lowest).bind fun key => .expect (.pure
      (Expr.index left key)))).weaken ?_
    rintro ws _ ws' ⟨key, w, hkey, hclose, rfl, rfl⟩
    refine ⟨Nat.le_trans (by simp) (Nat.le_trans hkey.length_le (by simp)), ?_⟩
    rintro limit w e w' hlt hof rfl he
    exact .index hof hlt hkey hclose he

/-- By induction on the turns, for every left operand: with each operator the operand gets longer.
-/
theorem extend_obeys (h : inner.Sound k) (limit : Precedence) (n : Nat) (left : Expr) :
    (extend inner limit n left).Obeys (k + 1) fun ws e ws' =>
      ws.length ≤ n → Reads (.extended limit left e) ws ws' := by
  induction n generalizing left with
  | zero =>
    refine (Obeys.pure _).weaken ?_
    rintro ws e ws' ⟨rfl, rfl⟩ hlen
    obtain rfl := List.length_eq_zero_iff.mp (Nat.le_zero.mp hlen)
    exact .stop fun _ _ hof => by cases hof
  | succ n ih =>
    refine .upcoming fun t => ?_
    rcases hof : Extension.of t.kind with _ | ⟨strength, how⟩
    · refine (Obeys.pure _).weaken ?_
      rintro ws e ws' ⟨rfl, rfl⟩ ht -
      refine .stop fun strength how hof' => ?_
      rw [← ht, hof] at hof'
      cases hof'
    -- An operator carries `left` on only if it binds tighter than the limit.
    · dsimp only
      split
      · next hlt =>
        refine (Obeys.pass ((extension_obeys h left strength how).bind ih)).weaken ?_
        rintro ws e ws' ⟨longer, w, ⟨hle, hlonger⟩, he⟩ ht hlen
        rw [ht] at hof
        exact hlonger limit ws e ws' hlt hof rfl (he (length_le_of_extension hof hle hlen))
      · next hlt =>
        refine (Obeys.pure _).weaken ?_
        rintro ws e ws' ⟨rfl, rfl⟩ ht -
        refine .stop fun strength' how' hof' => ?_
        rw [← ht, hof] at hof'
        obtain ⟨rfl, rfl⟩ := Prod.mk.inj (Option.some.inj hof')
        exact hlt

/-- An expression obeys on one word more than what is nested in it, since its first word is passed.
-/
theorem expression_obeys (h : inner.Sound k) (limit : Precedence) :
    (expression inner limit).Obeys (k + 1) fun ws e ws' => Reads (.expression limit e) ws ws' := by
  refine ((leading_obeys h).bind fun left => .remaining fun n =>
    extend_obeys h limit n left).weaken ?_
  rintro ws e ws' ⟨left, w, hleft, he⟩
  exact .expression hleft (he (Nat.le_refl _))

/-! ## Statements

A statement is known by its first word, and is an expression if that is none of the words that begin
other statements. -/

theorem optionalSemicolon_obeys :
    optionalSemicolon.Obeys k fun ws _ ws' => ws' = pastSemicolon ws := by
  refine (Obeys.skip (.pure ()) (.pure ())).weaken ?_
  rintro ws _ ws' (⟨h, -, rfl⟩ | ⟨h, -, rfl⟩)
  · rw [pastSemicolon, if_pos h]
  · rw [pastSemicolon, if_neg h]

/-- A name and an equals sign are required, a semicolon is not. -/
theorem binding_obeys (h : inner.Sound k) :
    (binding inner).Obeys (k + 1) fun ws s ws' => firstKind ws = .letWord →
      Reads (.statement s) ws ws' := by
  refine (Obeys.expect (.seeing fun t => .expect (.advance ((h.expression .lowest).bind fun e =>
    optionalSemicolon_obeys.bind fun _ => .pure (Statement.bind t.literal e))))).weaken ?_
  rintro ws s ws' ⟨hname, t, ht, hw, hassign, e, w, he, -, w', rfl, rfl, rfl⟩ hlet
  have hkind : t.kind = .identifier := ht.trans hname
  rw [t.word_of_identifier hkind] at hw
  exact .bind hlet (hw (hkind ▸ nofun)) hassign he

theorem returning_obeys (h : inner.Sound k) :
    (returning inner).Obeys (k + 1) fun ws s ws' => firstKind ws = .returnWord →
      Reads (.statement s) ws ws' := by
  refine (Obeys.advance ((h.expression .lowest).bind fun e => optionalSemicolon_obeys.bind fun _ =>
    .pure (Statement.ret e))).weaken ?_
  rintro ws s ws' ⟨e, w, he, -, w', rfl, rfl, rfl⟩ hret
  exact .ret hret he

/-- The semicolon behind the first clause may have been passed by its statement, but then it is
current. -/
theorem loopInit_obeys (h : inner.Sound k) :
    (loopInit inner).Obeys k fun ws init ws' => Reads (.loopInit init) ws ws' := by
  refine .current fun t => ?_
  split
  · next ht =>
    refine (Obeys.pure none).weaken ?_
    rintro ws init ws' ⟨rfl, rfl⟩ hk -
    exact .noInit (hk ▸ ht)
  · next ht =>
    have hend (s : Statement) : (do
        let t ← current
        if t.kind = .semicolon then return some s
        else reject (.missingLoopSemicolon t.kind) t.span : Parse (Option Statement)).Obeys k
          fun ws init ws' => firstKind ws = .semicolon ∧ init = some s ∧ ws' = ws := by
      refine .current fun t => ?_
      split
      · next ht => exact (Obeys.pure _).weaken fun ws init ws' hp hk _ => ⟨hk ▸ ht, hp⟩
      · exact .reject _ _
    refine (h.statement.bind hend).weaken ?_
    rintro ws init ws' ⟨s, w, hs, hsemi, rfl, rfl⟩ hk -
    exact .init (hk ▸ ht) hs hsemi

/-- A clause that is left out has its closing word in the first place. -/
theorem loopClause_obeys (h : inner.Sound k) (close : TokenKind) :
    (loopClause inner close).Obeys k fun ws e ws' => Reads (.loopClause close e) ws ws' := by
  refine .current fun t => ?_
  split
  · next ht =>
    refine (Obeys.pure none).weaken ?_
    rintro ws e ws' ⟨rfl, rfl⟩ hk -
    exact .noClause (hk ▸ ht)
  · next ht =>
    refine ((h.expression .lowest).bind fun e => .expect (.pure (some e))).weaken ?_
    rintro ws e ws' ⟨e, w, he, hclose, rfl, rfl⟩ hk -
    exact .loopClause (hk ▸ ht) he hclose

/-- All three clauses and the body, each behind a word that is passed. -/
theorem loop_obeys (h : inner.Sound k) :
    (loop inner).Obeys (k + 1) fun ws s ws' => firstKind ws = .forWord →
      Reads (.statement s) ws ws' := by
  refine (Obeys.expect (.advance ((loopInit_obeys h).bind fun init => .pass
    ((loopClause_obeys h .semicolon).bind fun c => .pass ((loopClause_obeys h .rightParen).bind
      fun st => .pass ((body_obeys h).bind fun b =>
        .pure (Statement.loop init c st b))))))).weaken ?_
  rintro ws s ws' ⟨hopen, init, w₁, hinit, c, w₂, hc, st, w₃, hst, b, w₄, hb, rfl, rfl⟩ hfor
  exact .loop hfor hopen hinit hc hst hb

/-- A statement that starts with a brace is read as an expression only if the brace opens no block.
-/
theorem expressionStatement_obeys (h : inner.Sound k) :
    (expressionStatement inner).Obeys (k + 1) fun ws s ws' => OpensNoBlock ws →
      Reads (.statement s) ws ws' := by
  refine ((expression_obeys h .lowest).bind fun e => optionalSemicolon_obeys.bind fun _ =>
    .pure (Statement.expr e)).weaken ?_
  rintro ws s ws' ⟨e, w, he, -, w', rfl, rfl, rfl⟩ hno
  exact .expr hno he

/-- **Statements**, by the kind of their first word and, for a brace, of the second. -/
theorem statement_obeys (h : inner.Sound k) :
    (statement inner).Obeys (k + 1) fun ws s ws' => Reads (.statement s) ws ws' := by
  refine .current fun t => ?_
  split
  · next ht => exact (binding_obeys h).weaken fun ws s ws' hs hk _ => hs (hk ▸ ht)
  · next ht => exact (returning_obeys h).weaken fun ws s ws' hs hk _ => hs (hk ▸ ht)
  · next ht => exact (loop_obeys h).weaken fun ws s ws' hs hk _ => hs (hk ▸ ht)
  · next ht =>
    refine .upcoming fun u => ?_
    split
    · next hu =>
      refine ((block_obeys h).bind fun b => .pure (Statement.block b)).weaken ?_
      rintro ws s ws' ⟨b, w, hb, rfl, rfl⟩ hk₁ hk -
      exact .blockStatement (hk ▸ ht) (hk₁ ▸ hu) hb
    · next hu =>
      refine (expressionStatement_obeys h).weaken fun ws s ws' hs hk₁ hk _ => hs fun _ => ?_
      rw [← hk₁]
      exact Bool.eq_false_iff.mpr hu
  · next ht =>
    exact (expressionStatement_obeys h).weaken fun ws s ws' hs hk _ => hs fun hbrace =>
      absurd (hk.trans hbrace) ht

/-! ## Programs

All together, by induction on how deep phrases may be nested. -/

section Nil

variable {α : Type} {R : List Word → α → List Word → Prop}

/-- At the end of input no expression starts, so nothing further in is asked for. -/
theorem leading_bind_obeys_nil (inner : Phrases) (f : Expr → Parse α) :
    (leading inner >>= f).Obeys 0 R := by
  intro s hs hlen
  have hw : s.words = [] := List.length_eq_zero_iff.mp (Nat.le_zero.mp hlen)
  have hk : s.stream.current.kind = .endOfInput := (s.kind_current hs).trans (by rw [hw]; rfl)
  have hreject : leading inner s = reject (.noExpression s.stream.current.kind)
      s.stream.current.span s := by
    unfold leading
    rw [bind_apply]
    simp only [current, hk]
  rw [bind_apply, hreject]
  exact Obeys.reject (.noExpression _) _ s hs hlen

/-- On no words there is no expression, so every relation is obeyed. -/
theorem expression_obeys_nil (inner : Phrases) (limit : Precedence)
    {R : List Word → Expr → List Word → Prop} : (expression inner limit).Obeys 0 R :=
  leading_bind_obeys_nil inner _

theorem statement_obeys_nil (inner : Phrases) {R : List Word → Statement → List Word → Prop} :
    (statement inner).Obeys 0 R := by
  intro s hs hlen
  have hw : s.words = [] := List.length_eq_zero_iff.mp (Nat.le_zero.mp hlen)
  have hk : s.stream.current.kind = .endOfInput := (s.kind_current hs).trans (by rw [hw]; rfl)
  have hexpr : statement inner s = expressionStatement inner s := by
    unfold statement
    rw [bind_apply]
    simp only [current, hk]
  rw [hexpr]
  unfold expressionStatement expression
  rw [bind_assoc]
  exact leading_bind_obeys_nil inner _ s hs hlen

end Nil

/-- **Phrases nested less than `n + 1` levels deep are readings on streams of at most `n` words.**
-/
theorem phrases_sound (n : Nat) : (phrases (n + 1)).Sound n := by
  induction n with
  | zero => exact ⟨fun limit => expression_obeys_nil _ limit, statement_obeys_nil _⟩
  | succ n ih => exact ⟨expression_obeys ih, statement_obeys ih⟩

/-- A whole program is read with as many levels as there are words, and one more. -/
theorem program_obeys (k : Nat) :
    program.Obeys k fun ws p ws' => Reads (.statements .endOfInput p) ws ws' := by
  intro s hs _
  have hlen : s.words.length ≤ s.stream.remaining := Nat.le_of_eq s.length_words
  have hend : endsProgram .endOfInput = true := rfl
  obtain ⟨hstop, hle, faults, herr, hok⟩ :=
    statements_obeys hend (phrases_sound s.stream.remaining).statement s.stream.remaining s hs hlen
  refine ⟨hstop, hle, faults, herr, fun hf => ?_⟩
  obtain ⟨p, hp, hreads⟩ := hok hf
  obtain ⟨hclose, hreads⟩ := hreads hlen
  exact ⟨p, hp, of_decide_eq_true hclose ▸ hreads⟩

end Parse

/-- **A program that is read without errors has a reading.** -/
theorem reads_of_parseStream {stream : TokenStream} (hstop : stream.stop.kind = .endOfInput)
    (herrors : (parseStream stream).errors = []) :
    ∃ ws', Reads (.statements .endOfInput (parseStream stream).program)
      (stream.pending.map Token.word) ws' := by
  obtain ⟨-, -, faults, herr, hok⟩ :=
    Parse.program_obeys _ (.start stream) hstop (Nat.le_refl _)
  have hparsed : parseStream stream = ⟨(Parse.program (.start stream)).1.getD [],
    (Parse.program (.start stream)).2.errors⟩ := rfl
  rw [hparsed] at herrors ⊢
  have hfaults : faults = [] := herr.symm.trans herrors
  obtain ⟨p, hp, hreads⟩ := hok hfaults
  rw [hp]
  exact ⟨_, hreads⟩

end Scriptlet
