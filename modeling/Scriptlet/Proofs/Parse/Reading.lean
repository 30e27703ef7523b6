import Scriptlet.Proofs.Parse.Word

/-!
# Proofs/Parse/Reading — the readings of a word sequence

`Reads p ws ws'` says that the phrase `p` is read from `ws` on without an error, and that the reader
stands at `ws'` afterwards.  There is one rule for each way a parser can go, so a property of all
error-free parses is an induction over readings, free of states, fuel and faults.

A reader stops *at* the last word of what it has read, hence a phrase leaves its last word in front.
A phrase that carries on another one, or stands between delimiters, is read from the word before it.
-/

namespace Scriptlet

/-- A syntactic form together with the tree it is read as. -/
inductive Phrase where
  /-- An expression whose operators bind tighter than the limit. -/
  | expression (limit : Precedence) (e : Expr)
  /-- What an expression starts with. -/
  | leading (e : Expr)
  /-- What operators after `left` make of it; read from the last word of `left`. -/
  | extended (limit : Precedence) (left e : Expr)
  /-- Items after the first one; read from the last word of the item before. -/
  | moreItems (es : List Expr)
  /-- A list of items; read from its opening delimiter to `close`. -/
  | items (close : TokenKind) (es : List Expr)
  /-- The pairs of a hash literal; read from the opening brace or a comma. -/
  | pairs (ps : List (Expr × Expr))
  | param (p : Param)
  /-- Parameters after the first one; read from the last word of the one before. -/
  | moreParams (ps : List Param)
  /-- A parameter list; read from its opening parenthesis to the closing one. -/
  | params (ps : List Param)
  | clause (c : Clause)
  /-- The clauses after the first one; read from the last word of the clause before. -/
  | alternatives (cs : List Clause) (alternative : Option Block)
  | body (b : Block)
  | block (b : Block)
  /-- Statements up to a word of kind `close`, which is not passed. -/
  | statements (close : TokenKind) (b : Block)
  | statement (s : Statement)
  /-- The first clause of a loop header; it ends at the semicolon. -/
  | loopInit (init : Option Statement)
  /-- A later clause of a loop header; it ends at the word of kind `close`. -/
  | loopClause (close : TokenKind) (e : Option Expr)

/-- The position after a semicolon, if one follows the last word read. -/
def pastSemicolon (ws : List Word) : List Word :=
  if firstKind ws.tail = .semicolon then ws.tail else ws

/-- The words, the first of which starts a statement, are not those of a block. -/
def OpensNoBlock (ws : List Word) : Prop :=
  firstKind ws = .leftBrace → Parse.opensBlock (firstKind ws.tail) = false

/-- No operator after the first word binds tighter than the limit. -/
def StopsAt (limit : Precedence) (ws : List Word) : Prop :=
  ∀ strength how, Extension.of (firstKind ws.tail) = some (strength, how) → ¬ limit < strength

/-- **The readings**, one rule for each way that a parser can go without an error. -/
inductive Reads : Phrase → List Word → List Word → Prop
  -- What an expression starts with.
  | ident : Reads (.leading (.ident x)) (.name x :: ws) (.name x :: ws)
  | integer (hn : n < Parse.integerLimit) :
    Reads (.leading (.integer (Int64.ofNat n))) (.integer n :: ws) (.integer n :: ws)
  | string : Reads (.leading (.string x)) (.string x :: ws) (.string x :: ws)
  | trueWord (h : firstKind ws = .trueWord) : Reads (.leading (.boolean true)) ws ws
  | falseWord (h : firstKind ws = .falseWord) : Reads (.leading (.boolean false)) ws ws
  | unary (h : firstKind ws = op.kind) (he : Reads (.expression .unary e) ws.tail ws') :
    Reads (.leading (.unary op e)) ws ws'
  | grouped (h : firstKind ws = .leftParen) (he : Reads (.expression .lowest e) ws.tail w₁)
    (h₁ : firstKind w₁.tail = .rightParen) : Reads (.leading e) ws w₁.tail
  | array (h : firstKind ws = .leftBracket) (hes : Reads (.items .rightBracket es) ws ws') :
    Reads (.leading (.array es)) ws ws'
  | hash (h : firstKind ws = .leftBrace) (hps : Reads (.pairs ps) ws w₁)
    (h₁ : firstKind w₁.tail = .rightBrace) : Reads (.leading (.hash ps)) ws w₁.tail
  | function (h : firstKind ws = .functionWord) (h₁ : firstKind ws.tail = .leftParen)
    (hps : Reads (.params ps) ws.tail w₁) (h₂ : firstKind w₁.tail = .leftBrace)
    (hb : Reads (.block b) w₁.tail ws') : Reads (.leading (.function ps b)) ws ws'
  | conditional (h : firstKind ws = .ifWord) (hc : Reads (.clause c) ws w₁)
    (hcs : Reads (.alternatives cs alt) w₁ ws') :
    Reads (.leading (.conditional (c :: cs) alt)) ws ws'
  -- Operators, and expressions as a whole.
  | stop (h : StopsAt limit ws) : Reads (.extended limit left left) ws ws
  | binary (h : Extension.of (firstKind ws.tail) = some (strength, .binary op))
    (hlt : limit < strength)
    (hr : Reads (.expression (op.rightLimit strength) right) ws.tail.tail w₁)
    (he : Reads (.extended limit (.binary op left right) e) w₁ ws') :
    Reads (.extended limit left e) ws ws'
  | call (h : Extension.of (firstKind ws.tail) = some (strength, .call)) (hlt : limit < strength)
    (has : Reads (.items .rightParen as) ws.tail w₁)
    (he : Reads (.extended limit (.call left as) e) w₁ ws') : Reads (.extended limit left e) ws ws'
  | index (h : Extension.of (firstKind ws.tail) = some (strength, .index)) (hlt : limit < strength)
    (hk : Reads (.expression .lowest key) ws.tail.tail w₁)
    (h₁ : firstKind w₁.tail = .rightBracket)
    (he : Reads (.extended limit (.index left key) e) w₁.tail ws') :
    Reads (.extended limit left e) ws ws'
  | expression (hl : Reads (.leading left) ws w₁) (he : Reads (.extended limit left e) w₁ ws') :
    Reads (.expression limit e) ws ws'
  -- Lists between delimiters.
  | noMoreItems (h : firstKind ws.tail ≠ .comma) : Reads (.moreItems []) ws ws
  | moreItems (h : firstKind ws.tail = .comma) (he : Reads (.expression .lowest e) ws.tail.tail w₁)
    (hes : Reads (.moreItems es) w₁ ws') : Reads (.moreItems (e :: es)) ws ws'
  | noItems (h : firstKind ws.tail = close) : Reads (.items close []) ws ws.tail
  | items (h : firstKind ws.tail ≠ close) (he : Reads (.expression .lowest e) ws.tail w₁)
    (hes : Reads (.moreItems es) w₁ w₂) (h₂ : firstKind w₂.tail = close) :
    Reads (.items close (e :: es)) ws w₂.tail
  | noPairs (h : firstKind ws.tail = .rightBrace) : Reads (.pairs []) ws ws
  | lastPair (h : firstKind ws.tail ≠ .rightBrace) (hk : Reads (.expression .lowest k) ws.tail w₁)
    (h₁ : firstKind w₁.tail = .colon) (hv : Reads (.expression .lowest v) w₁.tail.tail ws')
    (h₂ : firstKind ws'.tail = .rightBrace) : Reads (.pairs [(k, v)]) ws ws'
  | pair (h : firstKind ws.tail ≠ .rightBrace) (hk : Reads (.expression .lowest k) ws.tail w₁)
    (h₁ : firstKind w₁.tail = .colon) (hv : Reads (.expression .lowest v) w₁.tail.tail w₂)
    (h₂ : firstKind w₂.tail = .comma) (hps : Reads (.pairs ps) w₂.tail ws') :
    Reads (.pairs ((k, v) :: ps)) ws ws'
  | param : Reads (.param ⟨x, false⟩) (.name x :: ws) (.name x :: ws)
  | variadic (h : firstKind ws = .ellipsis) (h₁ : ws.tail = .name x :: w₁) :
    Reads (.param ⟨x, true⟩) ws ws.tail
  | noMoreParams (h : firstKind ws.tail ≠ .comma) : Reads (.moreParams []) ws ws
  | moreParams (h : firstKind ws.tail = .comma) (hp : Reads (.param p) ws.tail.tail w₁)
    (hps : Reads (.moreParams ps) w₁ ws') : Reads (.moreParams (p :: ps)) ws ws'
  | noParams (h : firstKind ws.tail = .rightParen) : Reads (.params []) ws ws.tail
  | params (h : firstKind ws.tail ≠ .rightParen) (hp : Reads (.param p) ws.tail w₁)
    (hps : Reads (.moreParams ps) w₁ w₂) (h₂ : firstKind w₂.tail = .rightParen) :
    Reads (.params (p :: ps)) ws w₂.tail
  -- Conditionals.
  | clause (h : firstKind ws.tail = .leftParen)
    (hc : Reads (.expression .lowest c) ws.tail.tail w₁) (h₁ : firstKind w₁.tail = .rightParen)
    (hb : Reads (.body b) w₁.tail.tail ws') : Reads (.clause (c, b)) ws ws'
  | noAlternative (h : firstKind ws.tail ≠ .elseWord) : Reads (.alternatives [] none) ws ws
  | elseIf (h : firstKind ws.tail = .elseWord) (h₁ : firstKind ws.tail.tail = .ifWord)
    (hc : Reads (.clause c) ws.tail.tail w₁) (hcs : Reads (.alternatives cs alt) w₁ ws') :
    Reads (.alternatives (c :: cs) alt) ws ws'
  | otherwise (h : firstKind ws.tail = .elseWord) (h₁ : firstKind ws.tail.tail ≠ .ifWord)
    (hb : Reads (.body b) ws.tail.tail ws') : Reads (.alternatives [] (some b)) ws ws'
  -- Blocks.
  | braced (h : firstKind ws = .leftBrace) (hb : Reads (.block b) ws ws') : Reads (.body b) ws ws'
  | single (h : firstKind ws ≠ .leftBrace) (hs : Reads (.statement s) ws ws') :
    Reads (.body [s]) ws ws'
  | block (hb : Reads (.statements .rightBrace b) ws.tail ws') : Reads (.block b) ws ws'
  | noStatements (h : firstKind ws = close) : Reads (.statements close []) ws ws
  | statements (hs : Reads (.statement s) ws w₁) (hb : Reads (.statements close b) w₁.tail ws') :
    Reads (.statements close (s :: b)) ws ws'
  -- Statements.
  | bind (h : firstKind ws = .letWord) (h₁ : ws.tail = .name x :: w₁)
    (h₂ : firstKind w₁ = .assign) (he : Reads (.expression .lowest e) w₁.tail w₂) :
    Reads (.statement (.bind x e)) ws (pastSemicolon w₂)
  | ret (h : firstKind ws = .returnWord) (he : Reads (.expression .lowest e) ws.tail w₁) :
    Reads (.statement (.ret e)) ws (pastSemicolon w₁)
  | expr (h : OpensNoBlock ws) (he : Reads (.expression .lowest e) ws w₁) :
    Reads (.statement (.expr e)) ws (pastSemicolon w₁)
  | blockStatement (h : firstKind ws = .leftBrace)
    (h₁ : Parse.opensBlock (firstKind ws.tail) = true) (hb : Reads (.block b) ws ws') :
    Reads (.statement (.block b)) ws ws'
  | loop (h : firstKind ws = .forWord) (h₁ : firstKind ws.tail = .leftParen)
    (hi : Reads (.loopInit init) ws.tail.tail w₁)
    (hc : Reads (.loopClause .semicolon condition) w₁.tail w₂)
    (hs : Reads (.loopClause .rightParen step) w₂.tail w₃) (hb : Reads (.body b) w₃.tail ws') :
    Reads (.statement (.loop init condition step b)) ws ws'
  | noInit (h : firstKind ws = .semicolon) : Reads (.loopInit none) ws ws
  | init (h : firstKind ws ≠ .semicolon) (hs : Reads (.statement s) ws ws')
    (h₁ : firstKind ws' = .semicolon) : Reads (.loopInit (some s)) ws ws'
  | noClause (h : firstKind ws = close) : Reads (.loopClause close none) ws ws
  | loopClause (h : firstKind ws ≠ close) (he : Reads (.expression .lowest e) ws w₁)
    (h₁ : firstKind w₁.tail = close) : Reads (.loopClause close (some e)) ws w₁.tail

/-- A semicolon is passed or not; nothing else is. -/
theorem pastSemicolon_suffix (ws : List Word) : pastSemicolon ws <:+ ws := by
  unfold pastSemicolon
  split
  · exact List.tail_suffix ws
  · exact List.suffix_refl ws

/-- What is behind the second word is behind the first. -/
theorem suffix_of_tail {ws ws' : List Word} (h : ws' <:+ ws.tail) : ws' <:+ ws :=
  h.trans (List.tail_suffix ws)

/-- **A reader leaves the end of the words before it.** -/
theorem Reads.suffix {p : Phrase} {ws ws' : List Word} (h : Reads p ws ws') : ws' <:+ ws := by
  induction h with
  | bind h h₁ h₂ he ih =>
    refine (pastSemicolon_suffix _).trans (suffix_of_tail ((suffix_of_tail ih).trans ?_))
    rw [h₁]
    exact List.suffix_cons _ _
  | ret h he ih => exact (pastSemicolon_suffix _).trans (suffix_of_tail ih)
  | expr h he ih => exact (pastSemicolon_suffix _).trans ih
  | _ => grind [List.IsSuffix.trans, List.tail_suffix]

/-- A reader never has more words before it than it had. -/
theorem Reads.length_le {p : Phrase} {ws ws' : List Word} (h : Reads p ws ws') :
    ws'.length ≤ ws.length :=
  h.suffix.length_le

/-- A word that is no operator stops any expression. -/
theorem stopsAt_of_none {limit : Precedence} {ws : List Word}
    (h : Extension.of (firstKind ws.tail) = none) : StopsAt limit ws := by
  intro strength how hof
  rw [h] at hof
  cases hof

/-- Operators are read as long as they bind tighter than the limit. -/
theorem Reads.stopsAt_extended {limit : Precedence} {left e : Expr} {ws ws' : List Word}
    (h : Reads (.extended limit left e) ws ws') : StopsAt limit ws' := by
  generalize hp : Phrase.extended limit left e = p at h
  induction h generalizing left with
  | stop h =>
    cases hp
    exact h
  | binary _ _ _ _ _ ih =>
    cases hp
    exact ih rfl
  | call _ _ _ _ _ ih =>
    cases hp
    exact ih rfl
  | index _ _ _ _ _ _ ih =>
    cases hp
    exact ih rfl
  | _ => cases hp

/-- **An expression goes on as far as its limit lets it**, so what is behind it does not carry it
on. -/
theorem Reads.stopsAt {limit : Precedence} {e : Expr} {ws ws' : List Word}
    (h : Reads (.expression limit e) ws ws') : StopsAt limit ws' := by
  cases h with
  | expression hl he => exact he.stopsAt_extended

/-! ## First words

Expressions and statements begin with words of a few kinds, and the first word tells the rule. -/

/-- An expression may start with a word of this kind. -/
def startsExpression : TokenKind → Bool
  | .identifier | .integer | .string | .trueWord | .falseWord | .minus | .bang => true
  | .leftParen | .leftBracket | .leftBrace | .functionWord | .ifWord => true
  | _ => false

theorem startsExpression_prefixOp (op : PrefixOp) : startsExpression op.kind = true := by
  cases op <;> rfl

/-- What an expression starts with is told by the first word. -/
theorem Reads.starts_leading {e : Expr} {ws ws' : List Word} (h : Reads (.leading e) ws ws') :
    startsExpression (firstKind ws) := by
  cases h with
  | unary h =>
    rw [h]
    exact startsExpression_prefixOp _
  | ident | integer | string => rfl
  | trueWord h | falseWord h | grouped h | array h | hash h | function h | conditional h =>
    rw [h]
    rfl

/-- The operators behind it do not change how it starts. -/
theorem Reads.starts_expression {limit : Precedence} {e : Expr} {ws ws' : List Word}
    (h : Reads (.expression limit e) ws ws') : startsExpression (firstKind ws) := by
  cases h with
  | expression hl he => exact hl.starts_leading

/-- A statement may start with a word of this kind. -/
def startsStatement : TokenKind → Bool
  | .letWord | .returnWord | .forWord => true
  | kind => startsExpression kind

/-- A statement may be an expression. -/
theorem startsStatement_of_startsExpression {kind : TokenKind} (h : startsExpression kind) :
    startsStatement kind := by
  unfold startsStatement
  split
  · rfl
  · rfl
  · rfl
  · exact h

/-- Whatever a statement is, it is told by its first word. -/
theorem Reads.starts_statement {s : Statement} {ws ws' : List Word}
    (h : Reads (.statement s) ws ws') : startsStatement (firstKind ws) := by
  cases h with
  | expr h he => exact startsStatement_of_startsExpression he.starts_expression
  | bind h | ret h | blockStatement h | loop h =>
    rw [h]
    rfl

/-- At the end of input there is no expression to be read. -/
theorem Reads.expression_ne_end {limit : Precedence} {e : Expr} {ws ws' : List Word}
    (h : Reads (.expression limit e) ws ws') : firstKind ws ≠ .endOfInput := by
  intro hend
  have hstart := h.starts_expression
  rw [hend] at hstart
  cases hstart

theorem Reads.statement_ne_end {s : Statement} {ws ws' : List Word}
    (h : Reads (.statement s) ws ws') : firstKind ws ≠ .endOfInput := by
  intro hend
  have hstart := h.starts_statement
  rw [hend] at hstart
  cases hstart

/-- Statements are read up to a word that closes them. -/
theorem Reads.closed {close : TokenKind} {b : Block} {ws ws' : List Word}
    (h : Reads (.statements close b) ws ws') : firstKind ws' = close := by
  induction b generalizing ws with
  | nil =>
    cases h with
    | noStatements h => exact h
  | cons s b ih =>
    cases h with
    | statements hs hb => exact ih hb

/-- No statements are read just where the list is closed. -/
theorem Reads.statements_nil {close : TokenKind} {ws ws' : List Word}
    (h : Reads (.statements close []) ws ws') : firstKind ws = close := by
  cases h with
  | noStatements h => exact h

/-- Statements up to a brace have that brace behind them. -/
theorem Reads.statements_ne_end {close : TokenKind} {b : Block} {ws ws' : List Word}
    (h : Reads (.statements close b) ws ws') (hclose : close ≠ .endOfInput) :
    firstKind ws ≠ .endOfInput := by
  cases h with
  | noStatements h => exact h ▸ hclose
  | statements hs => exact hs.statement_ne_end

/-- A body has at least a word, its brace or its statement. -/
theorem Reads.body_ne_end {b : Block} {ws ws' : List Word} (h : Reads (.body b) ws ws') :
    firstKind ws ≠ .endOfInput := by
  cases h with
  | braced h hb => rw [h]; nofun
  | single h hs => exact hs.statement_ne_end

/-! ## Last words

What closes a list begins no expression and is no operator, so it ends what stands in front of it.
-/

/-- A word of this kind closes a list. -/
def TokenKind.closes : TokenKind → Bool
  | .rightParen | .rightBracket | .rightBrace => true
  | _ => false

/-- An expression does not start with what closes a list. -/
theorem Reads.ne_close {limit : Precedence} {e : Expr} {close : TokenKind} {ws ws' : List Word}
    (h : Reads (.expression limit e) ws ws') (hclose : close.closes) : firstKind ws ≠ close := by
  rintro rfl
  have hstart := h.starts_expression
  revert hstart hclose
  cases firstKind ws <;> decide

/-- What closes a list is no operator, so it ends the last item. -/
theorem none_of_closes {close : TokenKind} (h : close.closes) : Extension.of close = none := by
  cases close <;> first | rfl | cases h

theorem ne_comma_of_closes {close : TokenKind} (h : close.closes) : close ≠ .comma := by
  rintro rfl
  cases h

end Scriptlet
