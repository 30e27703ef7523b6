import Scriptlet.Proofs.Lex.Words
import Scriptlet.Proofs.Parse.Sound

/-!
# Proofs/Parse/Flatten — a parse without errors loses nothing

Parentheses, braces, semicolons and commas only tell how the other words belong together.  All the
other words of a program that is read without errors are in its tree, each once and in their order:
`flatten` reads them off the tree again.
-/

namespace Scriptlet

/-! ## The words of a tree

The words of a tree are put down in the order of the source, with the delimiters that the tree tells
of. -/

/-- The dots, if there are any, and the name. -/
def Param.flatten (p : Param) : List Word :=
  if p.variadic then [.sign .ellipsis, .name p.name] else [.name p.name]

mutual

/-- The words of an expression from left to right, those left out that only group. -/
def Expr.flatten : Expr → List Word
  | .ident x => [.name x]
  | .integer n => [.integer n.toNatClampNeg]
  | .string x => [.string x]
  | .boolean b => [.sign (if b then .trueWord else .falseWord)]
  | .unary op e => .sign op.kind :: e.flatten
  | .binary op l r => l.flatten ++ .sign op.kind :: r.flatten
  | .call f args => f.flatten ++ flattenExprs args
  | .index e k => e.flatten ++ .sign .leftBracket :: (k.flatten ++ [.sign .rightBracket])
  | .array es => .sign .leftBracket :: (flattenExprs es ++ [.sign .rightBracket])
  | .hash ps => flattenPairs ps
  | .function ps b => .sign .functionWord :: (ps.flatMap Param.flatten ++ flattenStatements b)
  | .conditional cs alternative => flattenClauses [] cs ++ flattenAlternative alternative

def flattenExprs : List Expr → List Word
  | [] => []
  | e :: es => e.flatten ++ flattenExprs es

/-- The colon between key and value stays, the commas do not. -/
def flattenPairs : List (Expr × Expr) → List Word
  | [] => []
  | (k, v) :: ps => k.flatten ++ .sign .colon :: v.flatten ++ flattenPairs ps

/-- Clauses with `before` before the first one and an `else` before each later one. -/
def flattenClauses (before : List Word) : List (Expr × List Statement) → List Word
  | [] => []
  | (c, b) :: cs => before ++ .sign .ifWord :: (c.flatten ++ flattenStatements b) ++
      flattenClauses [.sign .elseWord] cs

/-- The `else` before the last branch, which is part of it here. -/
def flattenAlternative : Option (List Statement) → List Word
  | none => []
  | some b => .sign .elseWord :: flattenStatements b

def flattenOption : Option Expr → List Word
  | none => []
  | some e => e.flatten

def flattenInit : Option Statement → List Word
  | none => []
  | some s => s.flatten

/-- Statements one behind the other, without what separates them. -/
def flattenStatements : List Statement → List Word
  | [] => []
  | s :: ss => s.flatten ++ flattenStatements ss

/-- The words of a statement; the keyword in front stays, the semicolons do not. -/
def Statement.flatten : Statement → List Word
  | .bind x e => .sign .letWord :: .name x :: .sign .assign :: e.flatten
  | .ret e => .sign .returnWord :: e.flatten
  | .expr e => e.flatten
  | .block b => flattenStatements b
  | .loop init condition step b =>
    .sign .forWord :: (flattenInit init ++ flattenOption condition ++ flattenOption step ++
      flattenStatements b)

end

/-- The words of a program. -/
def Program.flatten (p : Program) : List Word := flattenStatements p

/-! ## The words that a tree keeps

Parentheses, braces, commas and semicolons only tell how other words belong together, which the tree
does by its shape; so they are left out on both sides. -/

/-- Words of this kind only tell how others belong together. -/
def TokenKind.isGrouping : TokenKind → Bool
  | .leftParen | .rightParen | .leftBrace | .rightBrace | .semicolon | .comma => true
  | _ => false

/-- The words that do not only group. -/
def kept (ws : List Word) : List Word := ws.filter fun w => !w.kind.isGrouping

variable {ws ws' : List Word} {kind : TokenKind}

/-- A word that groups is left out. -/
theorem kept_tail (h : firstKind ws = kind) (hkind : kind.isGrouping) : kept ws = kept ws.tail := by
  cases ws with
  | nil => rfl
  | cons w ws =>
    obtain rfl : w.kind = kind := h
    simp [kept, hkind]

/-- Any other word stays; one without a text is known by its kind. -/
theorem kept_sign (h : firstKind ws = kind) (hsign : kind.isSign)
    (hkind : kind.isGrouping = false) : kept ws = .sign kind :: kept ws.tail := by
  have hkept : kept (.sign kind :: ws.tail) = .sign kind :: kept ws.tail := by simp [kept, hkind]
  rwa [← sign_cons h hsign] at hkept

theorem kept_name (x : String) (ws : List Word) : kept (.name x :: ws) = .name x :: kept ws := rfl

/-- A semicolon behind a statement is left out, so it makes no difference whether it was there. -/
theorem kept_pastSemicolon (ws : List Word) : kept (pastSemicolon ws).tail = kept ws.tail := by
  unfold pastSemicolon
  split
  · next h => exact (kept_tail h rfl).symm
  · rfl

theorem PrefixOp.isGrouping_kind (op : PrefixOp) : op.kind.isGrouping = false := by
  cases op <;> rfl

/-- Operators between operands stay, the parenthesis of a call and the comma are none. -/
theorem InfixOp.isGrouping_kind (op : InfixOp) : op.kind.isGrouping = false := by
  cases op <;> rfl

/-! ## What a reading keeps

Each rule passes the words it requires, and keeps all but the grouping ones in its tree. -/

/-- Between the first position and the second, the words of the phrase are kept. -/
def Keeps (ws ws' : List Word) : Phrase → Prop
  | .expression _ e | .leading e => kept ws = e.flatten ++ kept ws'.tail
  | .extended _ left e => left.flatten ++ kept ws.tail = e.flatten ++ kept ws'.tail
  | .moreItems es => kept ws.tail = flattenExprs es ++ kept ws'.tail
  | .items close es => firstKind ws' = close ∧ kept ws.tail = flattenExprs es ++ kept ws'
  | .pairs ps => kept ws.tail = flattenPairs ps ++ kept ws'.tail
  | .param p => kept ws = p.flatten ++ kept ws'.tail
  | .moreParams ps | .params ps => kept ws.tail = ps.flatMap Param.flatten ++ kept ws'.tail
  | .clause c => kept ws.tail = c.1.flatten ++ flattenStatements c.2 ++ kept ws'.tail
  | .alternatives cs alternative =>
    kept ws.tail = flattenClauses [.sign .elseWord] cs ++ flattenAlternative alternative ++
      kept ws'.tail
  | .body b => kept ws = flattenStatements b ++ kept ws'.tail
  | .block b => kept ws.tail = flattenStatements b ++ kept ws'.tail
  | .statements _ b => kept ws = flattenStatements b ++ kept ws'
  | .statement s => kept ws = s.flatten ++ kept ws'.tail
  | .loopInit init => kept ws = flattenInit init ++ kept ws'.tail
  | .loopClause close e => close.isGrouping → kept ws = flattenOption e ++ kept ws'.tail

/-- **A reading keeps every word that does not only group.** -/
theorem Reads.keeps {p : Phrase} (h : Reads p ws ws') : Keeps ws ws' p := by
  induction h with
  -- The induction is on the reading: what a rule passes itself groups or is in the tree, and what
  -- is within is kept by hypothesis.
  | ident => exact kept_name _ _
  | integer hn =>
    show kept _ = _
    rw [Expr.flatten, Int64.toNatClampNeg_ofNat_of_lt hn]
    rfl
  | string => rfl
  | trueWord h => exact kept_sign h rfl rfl
  | falseWord h => exact kept_sign h rfl rfl
  | unary h he ih =>
    show kept _ = _
    rw [kept_sign h (PrefixOp.isSign_kind _) (PrefixOp.isGrouping_kind _), ih, Expr.flatten,
      List.cons_append]
  | grouped h he h₁ ih =>
    show kept _ = _
    rw [kept_tail h rfl, ih, kept_tail h₁ rfl]
  | array h hes ih =>
    obtain ⟨hclose, ih⟩ := ih
    show kept _ = _
    rw [kept_sign h rfl rfl, ih, kept_sign hclose rfl rfl, Expr.flatten]
    simp
  | hash h hps h₁ ih =>
    show kept _ = _
    rw [kept_tail h rfl, ih, kept_tail h₁ rfl, Expr.flatten]
  | function h h₁ hps h₂ hb ihps ihb =>
    show kept _ = _
    rw [kept_sign h rfl rfl, kept_tail h₁ rfl, ihps, kept_tail h₂ rfl, ihb, Expr.flatten]
    simp
  | conditional h hc hcs ihc ihcs =>
    show kept _ = _
    rw [kept_sign h rfl rfl, ihc, ihcs, Expr.flatten, flattenClauses]
    simp
  | stop => rfl
  | binary h hlt hr he ihr ihe =>
    show _ ++ kept _ = _
    rw [← ihe, kept_sign (InfixOp.kind_of_extension h) (InfixOp.isSign_kind _)
      (InfixOp.isGrouping_kind _), ihr, Expr.flatten]
    simp
  | call h hlt has he ihas ihe =>
    obtain ⟨hclose, ihas⟩ := ihas
    show _ ++ kept _ = _
    rw [← ihe, kept_tail (kind_of_call h) rfl, ihas, kept_tail hclose rfl, Expr.flatten]
    simp
  | index h hlt hk h₁ he ihk ihe =>
    show _ ++ kept _ = _
    rw [← ihe, kept_sign (kind_of_index h) rfl rfl, ihk, kept_sign h₁ rfl rfl, Expr.flatten]
    simp
  | expression hl he ihl ihe => exact ihl.trans ihe
  | noMoreItems => rfl
  | moreItems h he hes ihe ihes =>
    show kept _ = _
    rw [kept_tail h rfl, ihe, ihes, flattenExprs, List.append_assoc]
  | noItems h => exact ⟨h, rfl⟩
  | items h he hes h₂ ihe ihes =>
    refine ⟨h₂, ?_⟩
    rw [ihe, ihes, flattenExprs, List.append_assoc]
  | noPairs => rfl
  | lastPair h hk h₁ hv h₂ ihk ihv =>
    show kept _ = _
    rw [ihk, kept_sign h₁ rfl rfl, ihv, flattenPairs, flattenPairs]
    simp
  | pair h hk h₁ hv h₂ hps ihk ihv ihps =>
    show kept _ = _
    rw [ihk, kept_sign h₁ rfl rfl, ihv, kept_tail h₂ rfl, ihps, flattenPairs]
    simp
  | param => exact kept_name _ _
  | variadic h h₁ =>
    show kept _ = _
    rw [kept_sign h rfl rfl, h₁]
    rfl
  | noMoreParams => rfl
  | moreParams h hp hps ihp ihps =>
    show kept _ = _
    rw [kept_tail h rfl, ihp, ihps, List.flatMap_cons, List.append_assoc]
  | noParams h => exact kept_tail h rfl
  | params h hp hps h₂ ihp ihps =>
    show kept _ = _
    rw [ihp, ihps, kept_tail h₂ rfl, List.flatMap_cons, List.append_assoc]
  | clause h hc h₁ hb ihc ihb =>
    show kept _ = _
    rw [kept_tail h rfl, ihc, kept_tail h₁ rfl, ihb, List.append_assoc]
  | noAlternative => rfl
  | elseIf h h₁ hc hcs ihc ihcs =>
    show kept _ = _
    rw [kept_sign h rfl rfl, kept_sign h₁ rfl rfl, ihc, ihcs, flattenClauses]
    simp
  | otherwise h h₁ hb ih =>
    show kept _ = _
    rw [kept_sign h rfl rfl, ih]
    rfl
  | braced h hb ih =>
    show kept _ = _
    rw [kept_tail h rfl, ih]
  | single h hs ih =>
    show kept _ = _
    rw [ih, flattenStatements, flattenStatements, List.append_nil]
  | block hb ih =>
    show kept _ = _
    rw [ih, kept_tail hb.closed rfl]
  | noStatements => rfl
  | statements hs hb ihs ihb =>
    show kept _ = _
    rw [ihs, ihb, flattenStatements, List.append_assoc]
  | bind h h₁ h₂ he ih =>
    show kept _ = _
    rw [kept_sign h rfl rfl, h₁, kept_name, kept_sign h₂ rfl rfl, ih, kept_pastSemicolon]
    rfl
  | ret h he ih =>
    show kept _ = _
    rw [kept_sign h rfl rfl, ih, kept_pastSemicolon]
    rfl
  | expr h he ih =>
    show kept _ = _
    rw [ih, kept_pastSemicolon]
    rfl
  | blockStatement h h₁ hb ih =>
    show kept _ = _
    rw [kept_tail h rfl, ih]
    rfl
  | loop h h₁ hi hc hs hb ihi ihc ihs ihb =>
    show kept _ = _
    rw [kept_sign h rfl rfl, kept_tail h₁ rfl, ihi, ihc rfl, ihs rfl, ihb, Statement.flatten]
    simp
  | noInit h => exact kept_tail h rfl
  | init h hs h₁ ih => exact ih
  | noClause h => exact fun hclose => kept_tail h hclose
  | loopClause h he h₁ ih =>
    intro hclose
    rw [ih, kept_tail h₁ hclose]
    rfl

/-! ## Programs

Without an error, every statement of the source is in the program. -/

/-- In the words of a source, the end of input is only found behind them all. -/
theorem eq_nil_of_suffix_words {source : String}
    (hws : ws <:+ (tokenize source).map Token.word) (hend : firstKind ws = .endOfInput) :
    ws = [] := by
  cases ws with
  | nil => rfl
  | cons w ws =>
    obtain ⟨t, ht, rfl⟩ := List.mem_map.mp (hws.subset (List.mem_cons_self ..))
    have hkind : t.kind = .endOfInput := t.kind_word.symm.trans hend
    exact absurd hkind (tokensFrom_ne_end 0 source.toList t ht)

/-- **A parse without errors loses, doubles and reorders nothing.**  The words of the source that do
not only group are the words of the tree. -/
theorem kept_words_of_parse (source : String) (herrors : (parse source).errors = []) :
    kept ((tokenize source).map Token.word) = (parse source).program.flatten := by
  obtain ⟨ws', hreads⟩ := reads_of_parseStream rfl herrors
  have hnil : ws' = [] := eq_nil_of_suffix_words hreads.suffix hreads.closed
  have hkeeps : kept ((tokenize source).map Token.word) =
      flattenStatements (parse source).program ++ kept ws' := hreads.keeps
  rw [hkeeps, hnil]
  exact List.append_nil _

/-- A source with every kind of statement and expression. -/
def tour : String :=
  "let f = fn(a, ...b) \x7b return a[0] + -b; \x7d for (let i = 0; i < 3; i = i + 1) f(i);
    if (true) \x7b f(1, \x7b\"k\": [2, 3],\x7d) \x7d else if (!f) 4 else \x7b let x = (5); \x7d"

/-- Nothing of the tour is lost. -/
theorem kept_words_of_tour : (parse tour).errors = [] ∧
    kept ((tokenize tour).map Token.word) = (parse tour).program.flatten := by
  have herrors : (parse tour).errors = [] := by decide +kernel
  exact ⟨herrors, kept_words_of_parse tour herrors⟩

end Scriptlet
