import Scriptlet.Proofs.Parse.Lookahead
import Mathlib.Data.List.Infix

/-!
# Proofs/Parse/Braced — a statement behind whose semicolon nothing is carried on

A statement without a brace may stand after `if` and `else`, and its semicolon then does not end the
conditional: an operator or another `else` may follow.  In words whose **branches are braced**, an
expression never ends with a semicolon, so a semicolon ends a statement for good.
-/

namespace Scriptlet

variable {ws ws' w₁ more : List Word} {kind : TokenKind}

/-! ## Matching parentheses

Parentheses are counted along the words, with nothing else of the syntax. -/

/-- The words behind the parenthesis that closes the one that stood in front of these words, with
`n` more to be closed before it. -/
def afterParen : (n : Nat) → List Word → List Word
  | _, [] => []
  | n, w :: ws =>
    if w.kind = .leftParen then afterParen (n + 1) ws
    else if w.kind = .rightParen then
      match n with
      | 0 => ws
      | n + 1 => afterParen n ws
    else afterParen n ws

/-! Word by word: a parenthesis that is opened has to be closed before the one that is looked for;
any other word is of no importance. -/

/-- One more has to be closed. -/
theorem afterParen_open (h : firstKind ws = .leftParen) (n : Nat) :
    afterParen n ws = afterParen (n + 1) ws.tail := by
  cases ws with
  | nil => cases h
  | cons w ws => exact if_pos h

/-- One less has to be closed. -/
theorem afterParen_close (h : firstKind ws = .rightParen) (n : Nat) :
    afterParen (n + 1) ws = afterParen n ws.tail := by
  cases ws with
  | nil => cases h
  | cons w ws =>
    obtain h : w.kind = .rightParen := h
    simp [afterParen, h]

/-- With none left to close, this is the parenthesis that was looked for. -/
theorem afterParen_zero (h : firstKind ws = .rightParen) : afterParen 0 ws = ws.tail := by
  cases ws with
  | nil => cases h
  | cons w ws =>
    obtain h : w.kind = .rightParen := h
    simp [afterParen, h]

/-- A word that counts. -/
def TokenKind.isParen : TokenKind → Bool
  | .leftParen | .rightParen => true
  | _ => false

/-- A word that is no parenthesis is passed. -/
theorem afterParen_skip (h : firstKind ws = kind) (hkind : kind.isParen = false) (n : Nat) :
    afterParen n ws = afterParen n ws.tail := by
  cases ws with
  | nil => rfl
  | cons w ws =>
    obtain rfl : w.kind = kind := h
    have hopen : w.kind ≠ .leftParen := fun h => by rw [h] at hkind; cases hkind
    have hclose : w.kind ≠ .rightParen := fun h => by rw [h] at hkind; cases hkind
    exact (if_neg hopen).trans (if_neg hclose)

/-- A semicolon at the end of a statement is no parenthesis. -/
theorem afterParen_pastSemicolon (ws : List Word) (n : Nat) :
    afterParen n (pastSemicolon ws).tail = afterParen n ws.tail := by
  unfold pastSemicolon
  split
  · next h => exact (afterParen_skip h rfl n).symm
  · rfl

/-- Nor is an operator, although a call is told from its operand by one. -/
theorem PrefixOp.isParen_kind (op : PrefixOp) : op.kind.isParen = false := by
  cases op <;> rfl

theorem InfixOp.isParen_kind (op : InfixOp) : op.kind.isParen = false := by
  cases op <;> rfl

/-- Between the first position and the second, as many parentheses are closed as are opened. -/
def Balances (ws ws' : List Word) : Phrase → Prop
  | .expression .. | .leading _ | .param _ | .body _ | .statement _ =>
    ∀ n, afterParen n ws = afterParen n ws'.tail
  | .extended .. | .moreItems _ | .pairs _ | .moreParams _ | .clause _ | .alternatives ..
  | .block _ =>
    ∀ n, afterParen n ws.tail = afterParen n ws'.tail
  | .params _ => ∀ n, afterParen (n + 1) ws.tail = afterParen n ws'.tail
  | .items close _ => firstKind ws' = close ∧ ∀ n, afterParen n ws.tail = afterParen n ws'
  | .statements .. => ∀ n, afterParen n ws = afterParen n ws'
  | .loopInit _ => firstKind ws' = .semicolon ∧ ∀ n, afterParen n ws = afterParen n ws'
  | .loopClause close _ => firstKind ws' = close ∧ ∀ n, afterParen n ws = afterParen n ws'

/-- **The words of a phrase close every parenthesis they open.** -/
theorem Reads.balances {p : Phrase} (h : Reads p ws ws') : Balances ws ws' p := by
  induction h with
  -- The induction is on the reading: each rule passes its own words in turn, and its parentheses
  -- come in pairs around a phrase.
  | ident | integer | string | param => intro n; rfl
  | trueWord h | falseWord h => exact afterParen_skip h rfl
  | unary h he ih =>
    intro n
    rw [afterParen_skip h (PrefixOp.isParen_kind _), ih]
  | grouped h he h₁ ih =>
    intro n
    rw [afterParen_open h, ih, afterParen_close h₁]
  | array h hes ih =>
    intro n
    rw [afterParen_skip h rfl, ih.2, afterParen_skip ih.1 rfl]
  | hash h hps h₁ ih =>
    intro n
    rw [afterParen_skip h rfl, ih, afterParen_skip h₁ rfl]
  | function h h₁ hps h₂ hb ihps ihb =>
    intro n
    rw [afterParen_skip h rfl, afterParen_open h₁, ihps, afterParen_skip h₂ rfl, ihb]
  | conditional h hc hcs ihc ihcs =>
    intro n
    rw [afterParen_skip h rfl, ihc, ihcs]
  | binary h hlt hr he ihr ihe =>
    intro n
    rw [afterParen_skip (InfixOp.kind_of_extension h) (InfixOp.isParen_kind _), ihr, ihe]
  | call h hlt has he ihas ihe =>
    intro n
    rw [afterParen_open (kind_of_call h), ihas.2, afterParen_close ihas.1, ihe]
  | index h hlt hk h₁ he ihk ihe =>
    intro n
    rw [afterParen_skip (kind_of_index h) rfl, ihk, afterParen_skip h₁ rfl, ihe]
  | expression hl he ihl ihe => exact fun n => (ihl n).trans (ihe n)
  | stop | noMoreItems | noPairs | noMoreParams | noAlternative | noStatements =>
    intro n
    rfl
  | moreItems h he hes ihe ihes | moreParams h he hes ihe ihes =>
    intro n
    rw [afterParen_skip h rfl, ihe, ihes]
  | noItems h | noInit h | noClause h => exact ⟨h, fun n => rfl⟩
  | items h he hes h₂ ihe ihes => exact ⟨h₂, fun n => (ihe n).trans (ihes n)⟩
  | lastPair h hk h₁ hv h₂ ihk ihv =>
    intro n
    rw [ihk, afterParen_skip h₁ rfl, ihv]
  | pair h hk h₁ hv h₂ hps ihk ihv ihps =>
    intro n
    rw [ihk, afterParen_skip h₁ rfl, ihv, afterParen_skip h₂ rfl, ihps]
  | variadic h h₁ =>
    intro n
    rw [afterParen_skip h rfl, h₁]
    rfl
  | noParams h => exact afterParen_close h
  | params h hp hps h₂ ihp ihps =>
    intro n
    rw [ihp, ihps, afterParen_close h₂]
  | clause h hc h₁ hb ihc ihb =>
    intro n
    rw [afterParen_open h, ihc, afterParen_close h₁, ihb]
  | elseIf h h₁ hc hcs ihc ihcs =>
    intro n
    rw [afterParen_skip h rfl, afterParen_skip h₁ rfl, ihc, ihcs]
  | otherwise h h₁ hb ihb =>
    intro n
    rw [afterParen_skip h rfl, ihb]
  | braced h hb ih =>
    intro n
    rw [afterParen_skip h rfl, ih]
  | single h hs ih => exact ih
  | block hb ih =>
    intro n
    rw [ih, afterParen_skip hb.closed rfl]
  | statements hs hb ihs ihb => exact fun n => (ihs n).trans (ihb n)
  | bind h h₁ h₂ he ih =>
    intro n
    rw [afterParen_skip h rfl, h₁, afterParen_pastSemicolon, ← ih, ← afterParen_skip h₂ rfl]
    rfl
  | ret h he ih =>
    intro n
    rw [afterParen_skip h rfl, ih, afterParen_pastSemicolon]
  | expr h he ih =>
    intro n
    rw [ih, afterParen_pastSemicolon]
  | blockStatement h h₁ hb ih =>
    intro n
    rw [afterParen_skip h rfl, ih]
  | loop h h₁ hi hc hs hb ihi ihc ihs ihb =>
    intro n
    rw [afterParen_skip h rfl, afterParen_open h₁, ihi.2, afterParen_skip ihi.1 rfl, ihc.2,
      afterParen_skip ihc.1 rfl, ihs.2, afterParen_close ihs.1, ihb]
  | init h hs h₁ ih => exact ⟨h₁, fun n => (ih n).trans (afterParen_skip h₁ rfl n).symm⟩
  | loopClause h he h₁ ih => exact ⟨h₁, ih⟩

/-! ## Braced branches

Whether all branches are in braces is asked of the words, so it can be asked of any source, with or
without errors. -/

/-- If the first word is `if`, a brace follows the condition between parentheses; if it is `else`, a
brace or another `if` follows it. -/
def BracedAt (ws : List Word) : Prop :=
  (firstKind ws = .ifWord → firstKind (afterParen 0 ws.tail.tail) = .leftBrace) ∧
    (firstKind ws = .elseWord → firstKind ws.tail = .ifWord ∨ firstKind ws.tail = .leftBrace)

/-- What stands behind any `if` and `else` of the words is between braces. -/
def BracedBranches (ws : List Word) : Prop := ∀ vs, vs <:+ ws → BracedAt vs

instance (ws : List Word) : Decidable (BracedAt ws) :=
  inferInstanceAs (Decidable (_ ∧ _))

instance (ws : List Word) : Decidable (BracedBranches ws) :=
  decidable_of_iff (∀ vs ∈ ws.tails, BracedAt vs) (by simp only [List.mem_tails, BracedBranches])

/-- What is behind some words has its branches braced if they have. -/
theorem BracedBranches.suffix (h : BracedBranches ws) (hws : ws' <:+ ws) : BracedBranches ws' :=
  fun vs hvs => h vs (hvs.trans hws)

theorem BracedBranches.tail (h : BracedBranches ws) : BracedBranches ws.tail :=
  h.suffix (List.tail_suffix ws)

/-- **A clause that is braced has a brace behind its condition.** -/
theorem BracedAt.of_clause {e : Expr} (h : BracedAt ws) (hif : firstKind ws = .ifWord)
    (hc : Reads (.expression .lowest e) ws.tail.tail w₁) (h₁ : firstKind w₁.tail = .rightParen) :
    firstKind w₁.tail.tail = .leftBrace := by
  have hbalance := hc.balances 0
  rw [afterParen_zero h₁] at hbalance
  rw [← hbalance]
  exact h.1 hif

/-! ## Last words

Expressions and statements end with words of a few kinds; a branch without braces would be the
exception, as it may end with any statement. -/

/-- An expression, its branches braced, may end with a word of this kind. -/
def endsExpression : TokenKind → Bool
  | .identifier | .integer | .string | .trueWord | .falseWord => true
  | .rightParen | .rightBracket | .rightBrace => true
  | _ => false

/-- The same, for a statement. -/
def endsStatement : TokenKind → Bool
  | .semicolon => true
  | kind => endsExpression kind

/-- For words whose first one is known by a premise. -/
theorem endsExpression_of_kind (h : firstKind ws = kind) (hkind : endsExpression kind) :
    endsExpression (firstKind ws) :=
  h ▸ hkind

/-- A statement may end with its expression. -/
theorem endsStatement_of_endsExpression (h : endsExpression kind) : endsStatement kind := by
  unfold endsStatement
  split
  · rfl
  · exact h

/-- Or with the semicolon behind it. -/
theorem endsStatement_pastSemicolon (h : endsExpression (firstKind ws)) :
    endsStatement (firstKind (pastSemicolon ws)) := by
  unfold pastSemicolon
  split
  · next hsemi =>
    rw [hsemi]
    rfl
  · exact endsStatement_of_endsExpression h

/-- The end of input ends no statement, so there is a word. -/
theorem ne_nil_of_endsStatement (h : endsStatement (firstKind ws)) : ws ≠ [] := by
  rintro rfl
  cases h

/-- What the last word of a phrase is. -/
def LastWord (ws ws' : List Word) : Phrase → Prop
  | .expression .. | .leading _ => endsExpression (firstKind ws')
  | .extended .. | .alternatives .. =>
    endsExpression (firstKind ws) → endsExpression (firstKind ws')
  | .items close _ => firstKind ws' = close
  | .block _ => firstKind ws' = .rightBrace
  | .clause _ => firstKind ws = .ifWord → firstKind ws' = .rightBrace
  | .body _ => (firstKind ws = .leftBrace → firstKind ws' = .rightBrace) ∧
      endsStatement (firstKind ws')
  | .statement _ => endsStatement (firstKind ws')
  | _ => True

/-- **With its branches braced, an expression does not end with a semicolon.** -/
theorem Reads.lastWord {p : Phrase} (h : Reads p ws ws') (hws : BracedBranches ws) :
    LastWord ws ws' p := by
  induction h with
  | ident | integer | string => rfl
  | trueWord h | falseWord h => exact endsExpression_of_kind h rfl
  | unary h he ih => exact ih hws.tail
  | grouped h he h₁ ih | hash h he h₁ ih => exact endsExpression_of_kind h₁ rfl
  | array h hes ih => exact endsExpression_of_kind (ih hws) rfl
  | function h h₁ hps h₂ hb ihps ihb =>
    exact endsExpression_of_kind (ihb (hws.tail.suffix hps.suffix).tail) rfl
  | conditional h hc hcs ihc ihcs =>
    exact ihcs (hws.suffix hc.suffix) (endsExpression_of_kind (ihc hws h) rfl)
  | stop | noAlternative => exact id
  | binary h hlt hr he ihr ihe =>
    exact fun _ => ihe (hws.tail.tail.suffix hr.suffix) (ihr hws.tail.tail)
  | call h hlt has he ihas ihe =>
    exact fun _ => ihe (hws.tail.suffix has.suffix) (endsExpression_of_kind (ihas hws.tail) rfl)
  | index h hlt hk h₁ he ihk ihe =>
    exact fun _ => ihe (hws.tail.tail.suffix hk.suffix).tail (endsExpression_of_kind h₁ rfl)
  | expression hl he ihl ihe => exact ihe (hws.suffix hl.suffix) (ihl hws)
  | noItems h => exact h
  | items h he hes h₂ => exact h₂
  | clause h hc h₁ hb ihc ihb =>
    intro hif
    have hbrace := (hws _ (List.suffix_refl _)).of_clause hif hc h₁
    exact (ihb (hws.tail.tail.suffix hc.suffix).tail.tail).1 hbrace
  | elseIf h h₁ hc hcs ihc ihcs =>
    have hbrace := ihc hws.tail.tail h₁
    exact fun _ => ihcs (hws.tail.tail.suffix hc.suffix) (endsExpression_of_kind hbrace rfl)
  | otherwise h h₁ hb ihb =>
    have hbrace := ((hws.tail _ (List.suffix_refl _)).2 h).resolve_left h₁
    exact fun _ => endsExpression_of_kind ((ihb hws.tail.tail).1 hbrace) rfl
  | braced h hb ih =>
    have hend : firstKind _ = .rightBrace := ih hws
    exact ⟨fun _ => hend, endsStatement_of_endsExpression (endsExpression_of_kind hend rfl)⟩
  -- A body without a brace ends as its statement does, perhaps with a semicolon.  Behind `if` and
  -- `else` the premise excludes it; it is left for loops, which are statements.
  | single h hs ih => exact ⟨fun hbrace => absurd hbrace h, ih hws⟩
  | block hb ih => exact hb.closed
  | bind h h₁ h₂ he ih =>
    have hws := hws.tail
    rw [h₁] at hws
    exact endsStatement_pastSemicolon (ih hws.tail.tail)
  | ret h he ih => exact endsStatement_pastSemicolon (ih hws.tail)
  | expr h he ih => exact endsStatement_pastSemicolon (ih hws)
  | blockStatement h h₁ hb ih =>
    exact endsStatement_of_endsExpression (endsExpression_of_kind (ih hws) rfl)
  | loop h h₁ hi hc hs hb ihi ihc ihs ihb =>
    have hw₁ := hws.tail.tail.suffix hi.suffix
    have hw₃ := (hw₁.tail.suffix hc.suffix).tail.suffix hs.suffix
    exact (ihb hw₃.tail).2
  | _ => trivial

/-! ## Semicolons

A semicolon at the end of a statement is passed as part of it, so nothing behind it can carry the
statement on. -/

/-- The last word, if there is one, is a semicolon. -/
def SemicolonLast (ws : List Word) : Prop := ∀ w ∈ ws.getLast?, w.kind = .semicolon

/-- If words are left, the last one of them is the last one of all. -/
theorem SemicolonLast.suffix (h : SemicolonLast ws) (hws : ws' <:+ ws) : SemicolonLast ws' := by
  intro w hw
  obtain ⟨vs, rfl⟩ := hws
  refine h w ?_
  rw [List.getLast?_append, Option.mem_def.mp hw]
  rfl

/-- A semicolon that is passed at the end of a statement is a word behind its expression. -/
theorem one_lt_length_of_semicolon (h : firstKind (pastSemicolon ws) = .semicolon)
    (hlast : endsExpression (firstKind ws)) : 1 < ws.length := by
  unfold pastSemicolon at h
  split at h
  · have hne : 0 < ws.tail.length := List.length_pos_iff.mpr (ne_nil_of_firstKind (h ▸ nofun))
    rw [List.length_tail] at hne
    exact Nat.lt_of_sub_pos hne
  · rw [h] at hlast
    cases hlast

/-- What a semicolon at the end of a phrase is for the words behind it. -/
def Sealed (more ws ws' : List Word) : Phrase → Prop
  | .statement s => firstKind ws' = .semicolon → Reads (.statement s) (ws ++ more) (ws' ++ more)
  | .body b => firstKind ws' = .semicolon → Reads (.body b) (ws ++ more) (ws' ++ more)
  | _ => True

/-- **A semicolon seals the statement in front of it**: whatever follows, the statement is read as
if nothing did. -/
theorem Reads.sealed {p : Phrase} (h : Reads p ws ws') (hws : BracedBranches ws)
    (more : List Word) : Sealed more ws ws' p := by
  -- A statement whose last word is a semicolon has passed it behind its expression, so the
  -- expression has a word behind it and is read alike with more words at the end.
  induction h with
  | bind h h₁ h₂ he ih =>
    intro hsemi
    have hws := hws.tail
    rw [h₁] at hws
    have hlast := one_lt_length_of_semicolon hsemi (he.lastWord hws.tail.tail)
    exact .bind_append h h₁ h₂ he (he.append more hlast) hlast
  | ret h he ih =>
    intro hsemi
    have hlast := one_lt_length_of_semicolon hsemi (he.lastWord hws.tail)
    exact .ret_append h he (he.append more hlast) hlast
  | expr h he ih =>
    intro hsemi
    have hlast := one_lt_length_of_semicolon hsemi (he.lastWord hws)
    exact .expr_append h he (he.append more hlast) hlast
  | blockStatement h h₁ hb ih =>
    intro hsemi
    have hbrace : firstKind _ = .rightBrace := hb.lastWord hws
    rw [hsemi] at hbrace
    cases hbrace
  | loop h h₁ hi hc hs hb ihi ihc ihs ihb =>
    intro hsemi
    have hw₁ := hws.tail.tail.suffix hi.suffix
    have hw₃ := (hw₁.tail.suffix hc.suffix).tail.suffix hs.suffix
    have hb' := ihb hw₃.tail hsemi
    have hpos := List.length_pos_iff.mpr (ne_nil_of_firstKind hb.body_ne_end)
    rw [List.length_tail] at hpos
    have hl₃ := Nat.lt_of_sub_pos hpos
    have hl₂ := hs.lt_length hl₃
    have hl₁ := hc.lt_length (lt_length_of_tail hl₂)
    obtain ⟨a, b, c, vs, rfl⟩ :=
      exists_three (lt_length_of_tail (hi.lt_length (lt_length_of_tail hl₁)))
    have hi' := hi.append more (lt_length_of_tail hl₁)
    have hc' := hc.append more (lt_length_of_tail hl₂)
    have hs' := hs.append more hl₃
    obtain ⟨a, b, c, us, rfl⟩ := exists_three hl₁
    obtain ⟨a, b, c, ts, rfl⟩ := exists_three hl₂
    obtain ⟨a, b, rs, rfl⟩ := exists_two hl₃
    exact .loop h h₁ hi' hc' hs' hb'
  | braced h hb ih =>
    intro hsemi
    have hbrace : firstKind _ = .rightBrace := hb.lastWord hws
    rw [hsemi] at hbrace
    cases hbrace
  | single h hs ih =>
    intro hsemi
    obtain ⟨a, vs, rfl⟩ := List.exists_cons_of_ne_nil (ne_nil_of_firstKind hs.statement_ne_end)
    exact .single h (ih hws hsemi)
  | _ => trivial

/-- **A program that ends with a semicolon can be carried on**: its statements are read from longer
words, up to what was added. -/
theorem Reads.statements_append {b : Program} (h : Reads (.statements .endOfInput b) ws [])
    (hws : BracedBranches ws) (hlast : SemicolonLast ws) (more : List Word) :
    Reads (.statements (firstKind more) b) (ws ++ more) more := by
  induction b generalizing ws with
  | nil =>
    cases h with
    | noStatements => exact .noStatements rfl
  | cons s b ih =>
    cases h with
    | @statements _ _ w₁ _ _ _ hs hb =>
      obtain ⟨w, vs, rfl⟩ := List.exists_cons_of_ne_nil (ne_nil_of_endsStatement (hs.lastWord hws))
      have hstatement : Reads (.statement s) (ws ++ more) (w :: vs ++ more) := by
        cases vs with
        | nil => exact hs.sealed hws more (hlast.suffix hs.suffix w rfl)
        | cons v vs => exact hs.append more (Nat.succ_lt_succ (Nat.zero_lt_succ _))
      have hrest := ih hb (hws.suffix hs.suffix).tail
        (hlast.suffix ((List.tail_suffix _).trans hs.suffix))
      exact .statements hstatement hrest

end Scriptlet
