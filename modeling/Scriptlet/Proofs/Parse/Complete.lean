import Scriptlet.Proofs.Parse.Gives
import Scriptlet.Proofs.Parse.Sound

/-!
# Proofs/Parse/Complete — a reading is a parse without errors

Each rule of the parser follows the rules of `Reads` for it.  What bounds the parser is in
`Phrase.Given`: as many levels as there are words, and one more for a phrase that is further in, and
as many turns of a loop as there are words.  With soundness, `parseStream_iff` says that the parser
and the readings agree.
-/

namespace Scriptlet

namespace Parse

variable {inner : Phrases} {ws w w₁ w₂ ws' : List Word}

/-! ## Rules

What a reading says, the rule does.  Each rule is followed along the reading with the tokens that
its words stand for. -/

/-! Each of these runs one rule of the parser on words that a rule of `Reads` describes. A loop that
has no further item needs no turn to see it, so those cases hold for every number of turns; one that
has an item uses a turn for it. -/

/-- Before a word that closes the list there is no statement, with any number of turns. -/
theorem statements_gives_nil {closes : TokenKind → Bool} (st : Parse Statement) (n : Nat)
    (h : closes (firstKind ws) = true) : (statements closes st n).Gives ws [] ws := by
  cases n with
  | zero => exact .pure _ _
  | succ n =>
    refine .current fun t ht => ?_
    rw [ht, if_pos h]
    exact .pure _ _

/-- A statement, the word behind it passed, and the statements that are left with one turn less. -/
theorem statements_gives_cons {closes : TokenKind → Bool} {st : Parse Statement} {n : Nat}
    {s : Statement} {b : Block} (h : closes (firstKind ws) = false) (hs : st.Gives ws s w)
    (hb : (statements closes st n).Gives w.tail b ws') :
    (statements closes st (n + 1)).Gives ws (s :: b) ws' := by
  refine .current fun t ht => ?_
  rw [ht, if_neg (Bool.eq_false_iff.mp h)]
  exact .bind hs.attempt (.advance (.bind hb (.pure _ _)))

/-- The end of a block is looked at and not passed. -/
theorem blockEnd_gives (h : firstKind ws = .rightBrace) : blockEnd.Gives ws () ws := by
  refine .current fun t ht => ?_
  rw [if_neg (by rw [ht, h]; decide)]
  exact .pure _ _

/-- The braces around the statements: the first is passed at once, the other one is where the
statements end. -/
theorem block_gives {b : Block}
    (hb : (statements endsBlock inner.statement ws.tail.length).Gives ws.tail b ws')
    (hend : firstKind ws' = .rightBrace) : (block inner).Gives ws b ws' :=
  .advance (.remaining (.bind hb (.bind (blockEnd_gives hend) (.pure _ _))))

/-- Behind a condition or header, a brace opens a block, never a hash literal. -/
theorem body_gives_block {b : Block} (h : firstKind ws = .leftBrace)
    (hb : (block inner).Gives ws b ws') : (body inner).Gives ws b ws' := by
  refine .current fun t ht => ?_
  rw [if_pos (ht.trans h)]
  exact hb

/-- Any other body is one statement. -/
theorem body_gives_statement {s : Statement} (h : firstKind ws ≠ .leftBrace)
    (hs : inner.statement.Gives ws s ws') : (body inner).Gives ws [s] ws' := by
  refine .current fun t ht => ?_
  rw [if_neg (ht ▸ h)]
  exact .bind hs.attempt (.pure _ _)

/-- No comma, no further item. -/
theorem moreItems_gives_nil (inner : Phrases) (n : Nat) (h : firstKind ws.tail ≠ .comma) :
    (moreItems inner n).Gives ws [] ws := by
  cases n with
  | zero => exact .pure _ _
  | succ n => exact .skip_not h (.pure _ _)

/-- A closing brace ends the pairs, also behind a comma. -/
theorem pairs_gives_nil (inner : Phrases) (n : Nat) (h : firstKind ws.tail = .rightBrace) :
    (pairs inner n).Gives ws [] ws := by
  cases n with
  | zero => exact .pure _ _
  | succ n =>
    refine .upcoming fun t ht => ?_
    rw [if_pos (ht.trans h)]
    exact .pure _ _

/-- A comma behind a pair is passed, so it is current when the next key is asked for. -/
theorem pairEnd_gives_comma (h : firstKind ws.tail = .comma) : pairEnd.Gives ws () ws.tail :=
  .skip h (.pure _ _)

/-- A closing brace is left to the rule for the whole literal. -/
theorem pairEnd_gives_brace (h : firstKind ws.tail = .rightBrace) : pairEnd.Gives ws () ws := by
  refine .skip_not (by rw [h]; decide) (.upcoming fun t ht => ?_)
  rw [if_pos (ht.trans h)]
  exact .pure _ _

/-- Key, colon, value and what is behind a pair, each given by its own rule. -/
theorem pairs_gives_cons {n : Nat} {k v : Expr} {ps : List (Expr × Expr)}
    (h : firstKind ws.tail ≠ .rightBrace) (hk : (inner.expression .lowest).Gives ws.tail k w₁)
    (h₁ : firstKind w₁.tail = .colon)
    (hv : (inner.expression .lowest).Gives w₁.tail.tail v w₂) (hend : pairEnd.Gives w₂ () w)
    (hps : (pairs inner n).Gives w ps ws') :
    (pairs inner (n + 1)).Gives ws ((k, v) :: ps) ws' := by
  refine .upcoming fun t ht => ?_
  rw [if_neg (ht ▸ h)]
  exact .advance (.bind hk (.expect h₁ (.advance (.bind hv (.bind hend (.bind hps (.pure _ _)))))))

/-- A parameter without dots is its name, which stays current. -/
theorem param_gives (x : String) (ws : List Word) :
    param.Gives (.name x :: ws) ⟨x, false⟩ (.name x :: ws) := by
  have hno : ellipsis.Gives (.name x :: ws) false (.name x :: ws) := by
    refine .current fun t ht => ?_
    rw [if_neg (by rw [ht]; nofun)]
    exact .pure _ _
  refine .bind hno (.current_cons nofun fun t ht => ?_)
  obtain ⟨hkind, rfl⟩ := t.of_word_name ht
  rw [if_pos hkind]
  exact .pure _ _

/-- The dots of a variadic one are passed. -/
theorem param_gives_variadic {x : String} (h : firstKind ws = .ellipsis)
    (h₁ : ws.tail = .name x :: w) : param.Gives ws ⟨x, true⟩ ws.tail := by
  have hyes : ellipsis.Gives ws true ws.tail := by
    refine .current fun t ht => ?_
    rw [if_pos (ht.trans h)]
    exact .advance (.pure _ _)
  rw [h₁] at hyes ⊢
  refine .bind hyes (.current_cons nofun fun t ht => ?_)
  obtain ⟨hkind, rfl⟩ := t.of_word_name ht
  rw [if_pos hkind]
  exact .pure _ _

theorem moreParams_gives_nil (n : Nat) (h : firstKind ws.tail ≠ .comma) :
    (moreParams n).Gives ws [] ws := by
  cases n with
  | zero => exact .pure _ _
  | succ n => exact .skip_not h (.pure _ _)

/-- A conditional ends where no `else` follows. -/
theorem alternatives_gives_nil (inner : Phrases) (n : Nat) (h : firstKind ws.tail ≠ .elseWord) :
    (alternatives inner n).Gives ws ([], none) ws := by
  cases n with
  | zero => exact .pure _ _
  | succ n => exact .skip_not h (.pure _ _)

/-- A literal in range is the number its digits stand for, so it is no negative one. -/
theorem integer_gives {t : Token} (h : decimal t.literal < integerLimit) (ws : List Word) :
    (integer t).Gives ws (.integer (Int64.ofNat (decimal t.literal))) ws := by
  unfold integer
  rw [if_pos h]
  exact .pure _ _

/-- Both prefix operators are read by one rule. -/
theorem leading_gives_unary {op : PrefixOp} {e : Expr} (h : firstKind ws = op.kind)
    (he : (inner.expression .unary).Gives ws.tail e ws') :
    (leading inner).Gives ws (.unary op e) ws' := by
  refine .current fun t ht => ?_
  rw [ht, h]
  cases op with
  | neg | not => exact .advance (.bind he (.pure _ _))

/-- The end of input is no operator. -/
theorem extension_ne_end {how : Precedence × Extension}
    (h : Extension.of (firstKind ws.tail) = some how) : firstKind ws.tail ≠ .endOfInput :=
  fun hend => by
    rw [hend] at h
    cases h

/-- An operator that does not bind tighter than the limit is left to whoever set the limit. -/
theorem extend_gives_stop (inner : Phrases) (n : Nat) (left : Expr) {limit : Precedence}
    (h : StopsAt limit ws) : (extend inner limit n left).Gives ws left ws := by
  cases n with
  | zero => exact .pure _ _
  | succ n =>
    refine .upcoming fun t ht => ?_
    rcases hof : Extension.of t.kind with _ | ⟨strength, how⟩
    · exact .pure _ _
    · dsimp only
      rw [if_neg (h strength how (ht ▸ hof))]
      exact .pure _ _

/-- One operator more: what is read with it becomes the left operand of those that follow. -/
theorem extend_gives {n : Nat} {left longer e : Expr} {limit strength : Precedence}
    {how : Extension} (h : Extension.of (firstKind ws.tail) = some (strength, how))
    (hlt : limit < strength) (hlonger : (extension inner left strength how).Gives ws.tail longer w)
    (he : (extend inner limit n longer).Gives w e ws') :
    (extend inner limit (n + 1) left).Gives ws e ws' := by
  refine .upcoming fun t ht => ?_
  rw [ht, h]
  dsimp only
  rw [if_pos hlt]
  exact .advance (.bind hlonger he)

/-- What starts an expression starts no other statement, but for a brace, which must open no block
here. -/
theorem statement_gives_expr {s : Statement} (hstart : startsExpression (firstKind ws))
    (hno : OpensNoBlock ws) (hs : (expressionStatement inner).Gives ws s ws') :
    (statement inner).Gives ws s ws' := by
  refine .current fun t ht => ?_
  split
  · next hk => rw [← ht, hk] at hstart; cases hstart
  · next hk => rw [← ht, hk] at hstart; cases hstart
  · next hk => rw [← ht, hk] at hstart; cases hstart
  · next hk =>
    refine .upcoming fun u hu => ?_
    rw [hu, hno (ht.symm.trans hk)]
    exact hs
  · exact hs

/-- A semicolon is passed if it is there. -/
theorem optionalSemicolon_gives (ws : List Word) :
    optionalSemicolon.Gives ws () (pastSemicolon ws) := by
  unfold pastSemicolon
  split
  · next h => exact .skip h (.pure _ _)
  · next h => exact .skip_not h (.pure _ _)

/-- The four words of a binding, and a semicolon that may be missing. -/
theorem binding_gives {x : String} {e : Expr} (h : firstKind ws = .letWord)
    (h₁ : ws.tail = .name x :: w) (h₂ : firstKind w = .assign)
    (he : (inner.expression .lowest).Gives w.tail e w₁) :
    (statement inner).Gives ws (.bind x e) (pastSemicolon w₁) := by
  refine .current fun t ht => ?_
  rw [ht, h]
  refine .expect (by rw [h₁]; rfl) ?_
  rw [h₁]
  refine .current_cons nofun fun u hu => ?_
  obtain ⟨-, rfl⟩ := u.of_word_name hu
  exact .expect h₂ (.advance (.bind he (.bind (optionalSemicolon_gives _) (.pure _ _))))

/-- No word that starts a statement ends a block. -/
theorem endsBlock_starts (kind : TokenKind) (h : startsStatement kind) :
    endsBlock kind = false := by
  cases kind <;> first | rfl | cases h

theorem endsProgram_starts (kind : TokenKind) (h : startsStatement kind) :
    endsProgram kind = false := by
  cases kind <;> first | rfl | cases h

/-! ## Levels and turns

A reading can be nested no deeper, and go on no longer, than there are words in it. -/

/-- What the parser does with a phrase, on `n` levels.  One that is further in needs a level more
than there are words. -/
def Given (n : Nat) (ws ws' : List Word) : Phrase → Prop
  | .expression limit e => ws.length < n → ((phrases n).expression limit).Gives ws e ws'
  | .leading e => ws.length ≤ n → (leading (phrases n)).Gives ws e ws'
  | .extended limit left e =>
    ws.length ≤ n → ∀ m ≥ ws.length, (extend (phrases n) limit m left).Gives ws e ws'
  | .moreItems es => ws.length ≤ n → ∀ m ≥ ws.length, (moreItems (phrases n) m).Gives ws es ws'
  | .items close es => ws.length ≤ n → (items (phrases n) close).Gives ws es ws'
  | .pairs ps => ws.length ≤ n → ∀ m ≥ ws.length, (pairs (phrases n) m).Gives ws ps ws'
  | .param p => param.Gives ws p ws'
  | .moreParams ps => ∀ m ≥ ws.length, (moreParams m).Gives ws ps ws'
  | .params ps => params.Gives ws ps ws'
  | .clause c => ws.length ≤ n → (clause (phrases n)).Gives ws c ws'
  | .alternatives cs alternative =>
    ws.length ≤ n → ∀ m ≥ ws.length, (alternatives (phrases n) m).Gives ws (cs, alternative) ws'
  | .body b => ws.length < n → (body (phrases n)).Gives ws b ws'
  | .block b => ws.length ≤ n → (block (phrases n)).Gives ws b ws'
  | .statements close b => ws.length < n → ∀ m ≥ ws.length, ∀ closes : TokenKind → Bool,
    closes close = true → (∀ kind, startsStatement kind → closes kind = false) →
      (statements closes (phrases n).statement m).Gives ws b ws'
  | .statement s => ws.length < n → (phrases n).statement.Gives ws s ws'
  | .loopInit init => ws.length < n → (loopInit (phrases n)).Gives ws init ws'
  | .loopClause close e => ws.length < n → (loopClause (phrases n) close).Gives ws e ws'

/-- Past a word that another one follows, fewer words are left. -/
theorem tail_lt {n : Nat} (h : firstKind ws.tail ≠ .endOfInput) (hn : ws.length ≤ n) :
    ws.tail.length < n := by
  have := List.length_pos_iff.mpr (ne_nil_of_firstKind h)
  rw [List.length_tail] at this ⊢
  omega

/-- Past a word, there are no more words than before. -/
theorem tail_le {n : Nat} (hn : ws.length ≤ n) : ws.tail.length ≤ n :=
  Nat.le_trans (by simp) hn

/-- A loop that has passed a word has turns left for the others. -/
theorem turns_left {m : Nat} (h : firstKind ws.tail ≠ .endOfInput) (hw : w.length ≤ ws.tail.length)
    (hm : m ≥ ws.length) : ∃ m', m = m' + 1 ∧ m' ≥ w.length := by
  have := List.length_pos_iff.mpr (ne_nil_of_firstKind h)
  rw [List.length_tail] at this hw
  exact ⟨m - 1, by omega, by omega⟩

end Parse

open Parse

variable {ws w w₁ w₂ ws' : List Word}

/-- **A reading is what the parser does**, on enough levels. -/
theorem Reads.given {p : Phrase} (h : Reads p ws ws') : ∀ n, Given n ws ws' p := by
  induction h with
  -- The induction is on the reading.  Every case runs its rule of the parser word by word; what is
  -- left to show is that levels and turns suffice, from the words that have been passed.
  | ident =>
    intro n _
    refine .current_cons nofun fun t ht => ?_
    obtain ⟨hkind, rfl⟩ := t.of_word_name ht
    rw [hkind]
    exact .pure _ _
  | integer hk =>
    intro n _
    refine .current_cons nofun fun t ht => ?_
    obtain ⟨hkind, rfl⟩ := t.of_word_integer ht
    rw [hkind]
    exact integer_gives hk _
  | string =>
    intro n _
    refine .current_cons nofun fun t ht => ?_
    obtain ⟨hkind, rfl⟩ := t.of_word_string ht
    rw [hkind]
    exact .pure _ _
  | trueWord h | falseWord h =>
    intro n _
    refine .current fun t ht => ?_
    rw [ht, h]
    exact .pure _ _
  | unary h he ih =>
    intro n hn
    exact leading_gives_unary h (ih n (tail_lt he.expression_ne_end hn))
  | grouped h he h₁ ih =>
    intro n hn
    have hlt := tail_lt he.expression_ne_end hn
    refine .current fun t ht => ?_
    rw [ht, h]
    exact .advance (.bind (ih n hlt) (.expect h₁ (.pure _ _)))
  | array h hes ih =>
    intro n hn
    refine .current fun t ht => ?_
    rw [ht, h]
    exact .bind (ih n hn) (.pure _ _)
  | hash h hps h₁ ih =>
    intro n hn
    refine .current fun t ht => ?_
    rw [ht, h]
    exact .remaining (.bind (ih n hn _ (Nat.le_refl _)) (.expect h₁ (.pure _ _)))
  | function h h₁ hps h₂ hb ihps ihb =>
    intro n hn
    have hlen := Nat.le_trans (tail_le hps.length_le) (tail_le hn)
    refine .current fun t ht => ?_
    rw [ht, h]
    exact .expect h₁ (.bind (ihps n) (.expect h₂ (.bind (ihb n hlen) (.pure _ _))))
  | conditional h hc hcs ihc ihcs =>
    intro n hn
    have hlen := Nat.le_trans hc.length_le hn
    refine .current fun t ht => ?_
    rw [ht, h]
    exact .bind (ihc n hn) (.remaining (.bind (ihcs n hlen _ (Nat.le_refl _)) (.pure _ _)))
  | stop h =>
    intro n _ m _
    exact extend_gives_stop _ _ _ h
  -- From here on the loops: the words that an item takes leave a turn for each word behind it.
  | binary h hlt hr he ihr ihe =>
    intro n hn m hm
    have hne := extension_ne_end h
    have hw := Nat.le_trans hr.length_le (tail_le (Nat.le_refl _))
    obtain ⟨m, rfl, hm'⟩ := turns_left hne hw hm
    refine extend_gives h hlt (.advance (.bind (ihr n ?_) (.pure _ _))) (ihe n ?_ m hm')
    · exact tail_lt hr.expression_ne_end (tail_le hn)
    · exact Nat.le_trans hw (tail_le hn)
  | call h hlt has he ihas ihe =>
    intro n hn m hm
    obtain ⟨m, rfl, hm'⟩ := turns_left (extension_ne_end h) has.length_le hm
    have hlen := Nat.le_trans has.length_le (tail_le hn)
    exact extend_gives h hlt (.bind (ihas n (tail_le hn)) (.pure _ _)) (ihe n hlen m hm')
  | index h hlt hk h₁ he ihk ihe =>
    intro n hn m hm
    have hw := tail_le (Nat.le_trans hk.length_le (tail_le (Nat.le_refl _)))
    obtain ⟨m, rfl, hm'⟩ := turns_left (extension_ne_end h) hw hm
    refine extend_gives h hlt (.advance (.bind (ihk n ?_) (.expect h₁ (.pure _ _))))
      (ihe n ?_ m hm')
    · exact tail_lt hk.expression_ne_end (tail_le hn)
    · exact Nat.le_trans hw (tail_le hn)
  -- The rules for whole phrases go a level further in.  With no level there could be no word
  -- either.
  | expression hl he ihl ihe =>
    rintro (_ | n) hn
    · cases hn
    · have hlen := Nat.le_of_lt_succ hn
      have hw := Nat.le_trans hl.length_le hlen
      exact .bind (ihl n hlen) (.remaining (ihe n hw _ (Nat.le_refl _)))
  | noMoreItems h =>
    intro n _ m _
    exact moreItems_gives_nil _ _ h
  | moreItems h he hes ihe ihes =>
    intro n hn m hm
    have hw := Nat.le_trans he.length_le (tail_le (Nat.le_refl _))
    obtain ⟨m, rfl, hm'⟩ := turns_left (h ▸ nofun) hw hm
    have hlt := tail_lt he.expression_ne_end (tail_le hn)
    have hlen := Nat.le_trans hw (tail_le hn)
    exact .skip h (.advance (.bind (ihe n hlt) (.bind (ihes n hlen m hm') (.pure _ _))))
  | noItems h =>
    intro n _
    exact .skip h (.pure _ _)
  | items h he hes h₂ ihe ihes =>
    intro n hn
    have hlt := tail_lt he.expression_ne_end hn
    have hlen := Nat.le_trans he.length_le (tail_le hn)
    exact .skip_not h (.advance (.bind (ihe n hlt) (.remaining
      (.bind (ihes n hlen _ (Nat.le_refl _)) (.expect h₂ (.pure _ _))))))
  | noPairs h =>
    intro n _ m _
    exact pairs_gives_nil _ _ h
  -- A comma may stand behind the last pair, so the loop sees the brace with a turn of its own.
  | lastPair h hk h₁ hv h₂ ihk ihv =>
    intro n hn m hm
    obtain ⟨m, rfl, -⟩ := turns_left hk.expression_ne_end (Nat.le_refl _) hm
    have hlen := Nat.le_trans hk.length_le (tail_le hn)
    refine pairs_gives_cons h (ihk n ?_) h₁ (ihv n ?_) (pairEnd_gives_brace h₂)
      (pairs_gives_nil _ _ h₂)
    · exact tail_lt hk.expression_ne_end hn
    · exact tail_lt hv.expression_ne_end (tail_le hlen)
  | pair h hk h₁ hv h₂ hps ihk ihv ihps =>
    intro n hn m hm
    have hw := tail_le (Nat.le_trans hv.length_le (tail_le (tail_le hk.length_le)))
    obtain ⟨m, rfl, hm'⟩ := turns_left hk.expression_ne_end hw hm
    have hlen := Nat.le_trans hk.length_le (tail_le hn)
    refine pairs_gives_cons h (ihk n ?_) h₁ (ihv n ?_) (pairEnd_gives_comma h₂) (ihps n ?_ m hm')
    · exact tail_lt hk.expression_ne_end hn
    · exact tail_lt hv.expression_ne_end (tail_le hlen)
    · exact Nat.le_trans hw (tail_le hn)
  | param =>
    intro n
    exact param_gives _ _
  | variadic h h₁ =>
    intro n
    exact param_gives_variadic h h₁
  | noMoreParams h =>
    intro n m _
    exact moreParams_gives_nil _ h
  | moreParams h hp hps ihp ihps =>
    intro n m hm
    have hw := Nat.le_trans hp.length_le (tail_le (Nat.le_refl _))
    obtain ⟨m, rfl, hm'⟩ := turns_left (h ▸ nofun) hw hm
    exact .skip h (.advance (.bind (ihp n) (.bind (ihps n m hm') (.pure _ _))))
  | noParams h =>
    intro n
    exact .skip h (.pure _ _)
  | params h hp hps h₂ ihp ihps =>
    intro n
    exact .skip_not h (.advance (.bind (ihp n) (.remaining
      (.bind (ihps n _ (Nat.le_refl _)) (.expect h₂ (.pure _ _))))))
  | clause h hc h₁ hb ihc ihb =>
    intro n hn
    have hlen := Nat.le_trans hc.length_le (tail_le (tail_le hn))
    have hltc := tail_lt hc.expression_ne_end (tail_le hn)
    have hltb := tail_lt hb.body_ne_end (tail_le hlen)
    exact .expect h (.advance (.bind (ihc n hltc) (.expect h₁ (.advance
      (.bind (ihb n hltb) (.pure _ _))))))
  | noAlternative h =>
    intro n _ m _
    exact alternatives_gives_nil _ _ h
  | elseIf h h₁ hc hcs ihc ihcs =>
    intro n hn m hm
    have hw := Nat.le_trans hc.length_le (tail_le (Nat.le_refl _))
    obtain ⟨m, rfl, hm'⟩ := turns_left (h ▸ nofun) hw hm
    have hlen := Nat.le_trans hw (tail_le hn)
    exact .skip h (.skip h₁ (.bind (ihc n (tail_le (tail_le hn)))
      (.bind (ihcs n hlen m hm') (.pure _ _))))
  | otherwise h h₁ hb ihb =>
    intro n hn m hm
    obtain ⟨m, rfl, -⟩ := turns_left (h ▸ nofun) (Nat.le_refl _) hm
    have hlt := tail_lt hb.body_ne_end (tail_le hn)
    exact .skip h (.skip_not h₁ (.advance (.bind (ihb n hlt) (.pure _ _))))
  | braced h hb ih =>
    intro n hn
    exact body_gives_block h (ih n (Nat.le_of_lt hn))
  | single h hs ih =>
    intro n hn
    exact body_gives_statement h (ih n hn)
  | block hb ih =>
    intro n hn
    have hlt := tail_lt (hb.statements_ne_end nofun) hn
    exact block_gives (ih n hlt _ (Nat.le_refl _) _ rfl endsBlock_starts) hb.closed
  | noStatements h =>
    intro n _ m _ closes hclose _
    exact statements_gives_nil _ _ (h ▸ hclose)
  -- A statement may end before the word behind it, which the loop passes.
  | statements hs hb ihs ihb =>
    intro n hn m hm closes hclose hstart
    have hend := hs.statement_ne_end
    have hw := hs.length_le
    have hlen := List.length_pos_iff.mpr (ne_nil_of_firstKind hend)
    obtain ⟨m, rfl⟩ : ∃ m', m = m' + 1 := ⟨m - 1, by omega⟩
    refine statements_gives_cons (hstart _ hs.starts_statement) (ihs n hn)
      (ihb n ?_ m ?_ closes hclose hstart)
    · exact Nat.lt_of_le_of_lt (tail_le hw) hn
    · rw [List.length_tail]; omega
  | bind h h₁ h₂ he ihe =>
    rintro (_ | n) hn
    · cases hn
    · have hlt := tail_lt (by rw [h₁]; nofun) (Nat.le_of_lt_succ hn)
      rw [h₁, List.length_cons] at hlt
      have hlen := Nat.lt_of_le_of_lt (tail_le (Nat.le_succ _)) hlt
      exact binding_gives h h₁ h₂ (ihe n hlen)
  | ret h he ihe =>
    rintro (_ | n) hn
    · cases hn
    · have hlt := tail_lt he.expression_ne_end (Nat.le_of_lt_succ hn)
      refine .current fun t ht => ?_
      rw [ht, h]
      exact .advance (.bind (ihe n hlt) (.bind (optionalSemicolon_gives _) (.pure _ _)))
  | expr h he ihe =>
    rintro (_ | n) hn
    · cases hn
    · refine statement_gives_expr he.starts_expression h ?_
      exact .bind (ihe (n + 1) hn) (.bind (optionalSemicolon_gives _) (.pure _ _))
  | blockStatement h h₁ hb ihb =>
    rintro (_ | n) hn
    · cases hn
    · refine .current fun t ht => ?_
      rw [ht, h]
      refine .upcoming fun u hu => ?_
      rw [if_pos (hu ▸ h₁)]
      exact .bind (ihb n (Nat.le_of_lt_succ hn)) (.pure _ _)
  -- The header is read from left to right; each of its parts starts on fewer words than the one
  -- before.
  | loop h h₁ hi hc hs hb ihi ihc ihs ihb =>
    rintro (_ | n) hn
    · cases hn
    · have hopen := tail_lt (by rw [h₁]; nofun) (Nat.le_of_lt_succ hn)
      have hlti := Nat.lt_of_le_of_lt (tail_le (Nat.le_refl _)) hopen
      have hltc := Nat.lt_of_le_of_lt (tail_le hi.length_le) hlti
      have hlts := Nat.lt_of_le_of_lt (tail_le hc.length_le) hltc
      have hltb := Nat.lt_of_le_of_lt (tail_le hs.length_le) hlts
      refine .current fun t ht => ?_
      rw [ht, h]
      exact .expect h₁ (.advance (.bind (ihi n hlti) (.advance (.bind (ihc n hltc) (.advance
        (.bind (ihs n hlts) (.advance (.bind (ihb n hltb) (.pure _ _)))))))))
  | noInit h =>
    intro n _
    refine .current fun t ht => ?_
    rw [if_pos (ht.trans h)]
    exact .pure _ _
  | init h hs h₁ ih =>
    intro n hn
    refine .current fun t ht => ?_
    rw [if_neg (ht ▸ h)]
    refine .bind (ih n hn) (.current fun u hu => ?_)
    rw [if_pos (hu.trans h₁)]
    exact .pure _ _
  | noClause h =>
    intro n _
    refine .current fun t ht => ?_
    rw [if_pos (ht.trans h)]
    exact .pure _ _
  | loopClause h he h₁ ih =>
    intro n hn
    refine .current fun t ht => ?_
    rw [if_neg (ht ▸ h)]
    exact .bind (ih n hn) (.expect h₁ (.pure _ _))

/-- The first clause of a loop header is read in one way. -/
theorem Reads.loopInit_unique {init init' : Option Statement}
    (h : Reads (.loopInit init) ws w₁) (h' : Reads (.loopInit init') ws w₂) (hws : OfTokens ws) :
    init = init' ∧ w₁ = w₂ :=
  (h.given _ (Nat.lt_succ_self _)).unique (h'.given _ (Nat.lt_succ_self _)) hws

@[inherit_doc Reads.loopInit_unique]
theorem Reads.loopClause_unique {close : TokenKind} {e e' : Option Expr}
    (h : Reads (.loopClause close e) ws w₁) (h' : Reads (.loopClause close e') ws w₂)
    (hws : OfTokens ws) : e = e' ∧ w₁ = w₂ :=
  (h.given _ (Nat.lt_succ_self _)).unique (h'.given _ (Nat.lt_succ_self _)) hws

/-- An expression is read in one way. -/
theorem Reads.expression_unique {limit : Precedence} {e e' : Expr}
    (h : Reads (.expression limit e) ws w₁) (h' : Reads (.expression limit e') ws w₂)
    (hws : OfTokens ws) : e = e' ∧ w₁ = w₂ :=
  (h.given _ (Nat.lt_succ_self _)).unique (h'.given _ (Nat.lt_succ_self _)) hws

/-- **The parser and the readings agree**: a program is read without errors just if it has a
reading. -/
theorem parseStream_iff {stream : TokenStream} {p : Program}
    (hstop : stream.stop.kind = .endOfInput) :
    parseStream stream = ⟨p, []⟩ ↔
      ∃ ws', Reads (.statements .endOfInput p) (stream.pending.map Token.word) ws' := by
  constructor
  · intro h
    have hreads := reads_of_parseStream hstop (by rw [h])
    rwa [h] at hreads
  · rintro ⟨ws', h⟩
    have hgives : program.Gives (stream.pending.map Token.word) p ws' :=
      .remaining (h.given _ (Nat.lt_succ_self _) _ (Nat.le_refl _) endsProgram rfl
        endsProgram_starts)
    obtain ⟨s, hs, -, -, herrors⟩ := hgives (.start stream) hstop rfl
    have hparsed : parseStream stream = ⟨(program (.start stream)).1.getD [],
      (program (.start stream)).2.errors⟩ := rfl
    rw [hparsed, hs, herrors]
    rfl

end Scriptlet
