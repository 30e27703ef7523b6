import Scriptlet.Proofs.Parse.Complete
import Scriptlet.Proofs.Render.Resuming
import Scriptlet.Proofs.Render.Spelling

/-!
# Proofs/Render/RoundTrip — parsing undoes printing

The words of a printable tree are read as that tree.  A statement is read up to its last word if
what follows is no part of it, and statements that are separate follow each other in this way.  -/

namespace Scriptlet

variable {rest : List Word}

/-! ## Blocks

A block is its statements in a row, each of which has to end where the next one begins.  Statements
with a semicolon end there; one without is an expression, and ends where the next statement cannot
carry it on. -/

/-- What follows a statement is not read as a part of it. -/
def Ends : Statement → List Word → Prop
  | .expr _, rest => (firstKind rest).ends ∧ firstKind rest ≠ .semicolon
  | _, _ => True

/-- The words of the statement are read as it, also at the beginning of a loop header. -/
structure Rereads (s : Statement) : Prop where
  statement : s.isPrintable → ∀ rest, Ends s rest →
    ∃ w, w.tail = rest ∧ Reads (.statement s) (s.words ++ rest) w
  init : printableInit (some s) → ∀ rest,
    Reads (.loopInit (some s)) (initWords (some s) ++ rest) (.sign .semicolon :: rest)

/-- The first word does not change with what is behind. -/
theorem firstKind_append {ws ws' : List Word} (h : firstKind ws ≠ .endOfInput) :
    firstKind (ws ++ ws') = firstKind ws := by
  cases ws with
  | nil => exact absurd rfl h
  | cons w ws => rfl

/-- The text of an expression is not empty. -/
theorem Expr.words_ne_end {e : Expr} (h : e.isPrintable) : firstKind e.words ≠ .endOfInput := by
  intro hend
  have hstarts := (e.begins h).starts
  rw [hend] at hstarts
  cases hstarts

/-- It begins with a word that starts an expression. -/
theorem Expr.starts_words {e : Expr} (h : e.isPrintable) (rest : List Word) :
    startsExpression (firstKind (e.words ++ rest)) := by
  rw [firstKind_append (Expr.words_ne_end h)]
  exact (e.begins h).starts

/-- An expression whose text begins with a parenthesis or bracket would carry on one in front of it.
-/
theorem runsOn_of_head {e : Expr}
    (h : e.render.toList.head? = some '(' ∨ e.render.toList.head? = some '[') :
    (Statement.expr e).runsOn := by
  rw [Statement.runsOn, Expr.beginsWith, Expr.beginsWith]
  cases hcs : e.render.toList with
  | nil => rw [hcs] at h; rcases h with h | h <;> cases h
  | cons c cs =>
    rw [hcs] at h
    rcases h with h | h
    · obtain rfl := Option.some.inj h
      simp
    · obtain rfl := Option.some.inj h
      simp

/-- What starts an expression and is no operator ends one. -/
theorem ends_of_startsExpression {kind : TokenKind} (h : startsExpression kind)
    (hnone : Extension.of kind = none) : kind.ends ∧ kind ≠ .semicolon := by
  cases kind <;> first
    | exact absurd h (by decide)
    | exact absurd hnone (by decide)
    | exact ⟨rfl, by decide⟩

/-- A statement that would not be read on into leaves an expression before it alone. -/
theorem ends_of_not_runsOn {s : Statement} (h : s.isPrintable) (hruns : s.runsOn = false)
    (rest : List Word) : (firstKind (s.words ++ rest)).ends ∧
      firstKind (s.words ++ rest) ≠ .semicolon := by
  cases s with
  | bind | ret | block | loop => exact ⟨rfl, nofun⟩
  | expr e =>
    rw [Statement.isPrintable, Bool.and_eq_true] at h
    refine ends_of_startsExpression (Expr.starts_words h.1 rest) ?_
    rw [Statement.words, firstKind_append (Expr.words_ne_end h.1)]
    refine Decidable.byContradiction fun hext => ?_
    rw [runsOn_of_head ((e.begins h.1).extension hext)] at hruns
    cases hruns

/-- Statements that are separate end each where the next one begins. -/
theorem ends_of_separate {s : Statement} {b : List Statement} (h : separate (s :: b))
    (hb : ∀ s ∈ b, s.isPrintable) (rest : List Word) :
    Ends s (statementsWords b ++ .sign .rightBrace :: rest) := by
  cases s with
  | bind | ret | block | loop => trivial
  | expr e =>
    cases b with
    | nil => exact ⟨rfl, nofun⟩
    | cons s b =>
      simp only [separate, Bool.and_eq_true, Bool.not_eq_true'] at h
      rw [statementsWords, List.append_assoc]
      exact ends_of_not_runsOn (hb s (List.mem_cons_self ..)) h.1 _

/-- Statements that are separate stay so without the first. -/
theorem separate_tail {s : Statement} {b : List Statement} (h : separate (s :: b)) :
    separate b := by
  cases s with
  | bind | ret | block | loop => exact h
  | expr e =>
    cases b with
    | nil => rfl
    | cons s b =>
      rw [separate, Bool.and_eq_true] at h
      exact h.2

/-- **Statements up to a closing brace.** -/
theorem reads_statements {b : List Statement} (hb : ∀ s ∈ b, s.isPrintable)
    (hseparate : separate b) (h : ∀ s ∈ b, Rereads s) (rest : List Word) :
    Reads (.statements .rightBrace b) (statementsWords b ++ .sign .rightBrace :: rest)
      (.sign .rightBrace :: rest) := by
  induction b with
  | nil => exact .noStatements rfl
  | cons s b ih =>
    obtain ⟨hs, hb⟩ := List.forall_mem_cons.mp hb
    obtain ⟨hrereads, h⟩ := List.forall_mem_cons.mp h
    have hmore := ih hb (separate_tail hseparate) h
    obtain ⟨w, hw, hread⟩ := hrereads.statement hs _ (ends_of_separate hseparate hb rest)
    rw [statementsWords, List.append_assoc]
    rw [← hw] at hmore
    exact .statements hread hmore

/-- A block of printable statements, each of which is read back. -/
structure RereadsBlock (b : List Statement) : Prop where
  printable : ∀ s ∈ b, s.isPrintable
  separate : separate b
  rereads : ∀ s ∈ b, Rereads s

/-- **A block**, from its brace to its brace. -/
theorem reads_block {b : List Statement} (h : RereadsBlock b) (w : List Word)
    (hw : w.tail = statementsWords b ++ .sign .rightBrace :: rest) :
    Reads (.block b) w (.sign .rightBrace :: rest) := by
  have hstatements := reads_statements h.printable h.separate h.rereads rest
  rw [← hw] at hstatements
  exact .block hstatements

/-- **A body** is printed with braces, and so is read as a block. -/
theorem reads_body {b : List Statement} (h : RereadsBlock b) (rest : List Word) :
    Reads (.body b) (bracedWords (statementsWords b) ++ rest) (.sign .rightBrace :: rest) := by
  refine .braced rfl (reads_block h _ ?_)
  simp [bracedWords]

/-! ## Functions and conditionals

The bodies of functions and of branches are printed in braces, whatever they were in the source, so
they are read as blocks. -/

/-- A function literal can be carried on, with a call for one. -/
theorem resumes_function {ps : List Param} {b : List Statement} (h : RereadsBlock b) :
    Resumes (.function ps b) := by
  refine resumes_leading fun rest _ => ⟨.sign .rightBrace :: rest, rfl, ?_⟩
  have hclose : firstKind (.sign .rightParen :: (bracedWords (statementsWords b) ++ rest)) =
      .rightParen := rfl
  have hparams := reads_params hclose (.sign .leftParen :: (commas (ps.map Param.words) ++
    .sign .rightParen :: (bracedWords (statementsWords b) ++ rest))) rfl
  have hblock : Reads (.block b) (bracedWords (statementsWords b) ++ rest)
      (.sign .rightBrace :: rest) := reads_block h _ (by simp [bracedWords])
  have hfunction : Reads (.leading (.function ps b)) (.sign .functionWord :: .sign .leftParen ::
      (commas (ps.map Param.words) ++ .sign .rightParen ::
        (bracedWords (statementsWords b) ++ rest))) (.sign .rightBrace :: rest) :=
    .function rfl rfl hparams rfl hblock
  simpa [Expr.words] using hfunction

/-- A clause ends with the brace of its branch. -/
theorem reads_clause {c : Clause} (hc : Resumes c.1) (hb : RereadsBlock c.2) (w : List Word)
    (hw : w.tail = (clauseWords c).tail ++ rest) :
    Reads (.clause c) w (.sign .rightBrace :: rest) := by
  obtain ⟨w₁, hw₁, hread⟩ := hc.reads_lowest
    (.sign .rightParen :: (bracedWords (statementsWords c.2) ++ rest)) rfl
  have hwords : w.tail = .sign .leftParen :: (c.1.words ++
      .sign .rightParen :: (bracedWords (statementsWords c.2) ++ rest)) := by
    rw [hw]
    simp [clauseWords]
  have hcondition : Reads (.expression .lowest c.1) w.tail.tail w₁ := by
    rw [hwords]
    exact hread
  have hbody : Reads (.body c.2) w₁.tail.tail (.sign .rightBrace :: rest) := by
    rw [hw₁]
    exact reads_body hb rest
  exact .clause (by rw [hwords]; rfl) hcondition (by rw [hw₁]; rfl) hbody

/-- The clauses after the first one, and the alternative. -/
theorem reads_alternatives {cs : List Clause} {alternative : Option Block}
    (hcs : ∀ c ∈ cs, Resumes c.1 ∧ RereadsBlock c.2) (hb : ∀ b ∈ alternative, RereadsBlock b)
    (helse : firstKind rest ≠ .elseWord) (w : List Word)
    (hw : w.tail = (cs.map clauseWords).flatMap ([.sign .elseWord] ++ ·) ++
      (alternativeWords alternative ++ rest)) :
    ∃ w', w'.tail = rest ∧ Reads (.alternatives cs alternative) w w' := by
  -- Along the choices; behind each branch stands the `else` of the next one, or what follows the
  -- whole.
  induction cs generalizing w with
  | nil =>
    cases alternative with
    | none =>
      obtain rfl : w.tail = rest := hw
      exact ⟨w, rfl, .noAlternative helse⟩
    | some b =>
      have hwords : w.tail = .sign .elseWord :: (bracedWords (statementsWords b) ++ rest) := hw
      have hbody : Reads (.body b) w.tail.tail (.sign .rightBrace :: rest) := by
        rw [hwords]
        exact reads_body (hb b rfl) rest
      exact ⟨_, rfl, .otherwise (by rw [hwords]; rfl) (by rw [hwords]; simp [bracedWords]) hbody⟩
  | cons c cs ih =>
    obtain ⟨⟨hc, hbody⟩, hcs⟩ := List.forall_mem_cons.mp hcs
    obtain ⟨w', hw', hmore⟩ := ih hcs (.sign .rightBrace ::
      ((cs.map clauseWords).flatMap ([.sign .elseWord] ++ ·) ++
        (alternativeWords alternative ++ rest))) rfl
    have hwords : w.tail = .sign .elseWord :: (clauseWords c ++
        ((cs.map clauseWords).flatMap ([.sign .elseWord] ++ ·) ++
          (alternativeWords alternative ++ rest))) := by
      rw [hw]
      simp
    have hclause := reads_clause hc hbody w.tail.tail (by rw [hwords]; rfl)
    exact ⟨w', hw', .elseIf (by rw [hwords]; rfl) (by rw [hwords]; rfl) hclause hmore⟩

/-- **A conditional can be carried on** behind its last brace. -/
theorem resumes_conditional {cs : List Clause} {alternative : Option Block} (hne : cs ≠ [])
    (hcs : ∀ c ∈ cs, Resumes c.1 ∧ RereadsBlock c.2) (hb : ∀ b ∈ alternative, RereadsBlock b) :
    Resumes (.conditional cs alternative) := by
  refine resumes_leading fun rest helse => ?_
  obtain ⟨c, cs, rfl⟩ := List.exists_cons_of_ne_nil hne
  obtain ⟨⟨hc, hbody⟩, hcs⟩ := List.forall_mem_cons.mp hcs
  obtain ⟨w, hw, hmore⟩ := reads_alternatives hcs hb helse (.sign .rightBrace ::
    ((cs.map clauseWords).flatMap ([.sign .elseWord] ++ ·) ++
      (alternativeWords alternative ++ rest))) rfl
  have hwords : (Expr.conditional (c :: cs) alternative).words ++ rest = clauseWords c ++
      ((cs.map clauseWords).flatMap ([.sign .elseWord] ++ ·) ++
        (alternativeWords alternative ++ rest)) := by
    rw [Expr.words, clausesWords_eq_map, List.map_cons, intercalate_cons]
    simp
  have hclause := reads_clause hc hbody (clauseWords c ++
    ((cs.map clauseWords).flatMap ([.sign .elseWord] ++ ·) ++
      (alternativeWords alternative ++ rest))) rfl
  refine ⟨w, hw, ?_⟩
  rw [hwords]
  exact .conditional rfl hclause hmore

/-! ## Statements

Where the printer writes a semicolon, the parser passes it; and where it writes none, there is none
in what follows that it could pass. -/

theorem pastSemicolon_of_semicolon {w : List Word} (hw : w.tail = .sign .semicolon :: rest) :
    pastSemicolon w = .sign .semicolon :: rest := by
  rw [pastSemicolon, if_pos (by rw [hw]; rfl), hw]

theorem pastSemicolon_of_ne {w : List Word} (hw : firstKind w.tail ≠ .semicolon) :
    pastSemicolon w = w := by
  rw [pastSemicolon, if_neg hw]

/-- **A binding** is read with its semicolon. -/
theorem reads_bind {x : String} {e : Expr} (h : Resumes e) (rest : List Word) :
    Reads (.statement (.bind x e)) ((Statement.bind x e).words ++ rest)
      (.sign .semicolon :: rest) := by
  obtain ⟨w, hw, he⟩ := h.reads_lowest (.sign .semicolon :: rest) rfl
  have hread : Reads (.statement (.bind x e)) (.sign .letWord :: .name x :: .sign .assign ::
      (e.words ++ .sign .semicolon :: rest)) (pastSemicolon w) := .bind rfl rfl rfl he
  rw [pastSemicolon_of_semicolon hw] at hread
  simpa [Statement.words] using hread

/-- **A return** is read with its semicolon. -/
theorem reads_ret {e : Expr} (h : Resumes e) (rest : List Word) :
    Reads (.statement (.ret e)) ((Statement.ret e).words ++ rest) (.sign .semicolon :: rest) := by
  obtain ⟨w, hw, he⟩ := h.reads_lowest (.sign .semicolon :: rest) rfl
  have hread : Reads (.statement (.ret e)) (.sign .returnWord ::
      (e.words ++ .sign .semicolon :: rest)) (pastSemicolon w) := .ret rfl he
  rw [pastSemicolon_of_semicolon hw] at hread
  simpa [Statement.words] using hread

/-- A call begins as what it calls. -/
theorem beginsWith_call {f : Expr} {args : List Expr} {cs : String}
    (h : (Expr.call f args).beginsWith cs = false) : f.beginsWith cs = false := by
  rw [← Bool.not_eq_true] at h ⊢
  intro hf
  apply h
  rw [Expr.beginsWith, List.isPrefixOf_iff_prefix] at hf ⊢
  rw [Expr.render]
  simp only [String.toList_append, List.append_assoc]
  exact hf.trans (List.prefix_append _ _)

theorem beginsWith_hash_nil : (Expr.hash []).beginsWith "\x7b\x7d" = true := by
  simp [Expr.beginsWith, Expr.render, renderPairs, separated]

/-- Behind a brace, what starts an expression opens no block. -/
theorem opensBlock_of_startsExpression {kind : TokenKind} (h : startsExpression kind) :
    Parse.opensBlock kind = false := by
  cases kind <;> first | rfl | cases h

/-- Without a brace there is no question of a block. -/
theorem opensNoBlock_of_ne {ws : List Word} (h : firstKind ws ≠ .leftBrace) : OpensNoBlock ws :=
  fun hbrace => absurd hbrace h

/-- A hash literal with a pair is none, as its first key shows. -/
theorem opensNoBlock_hash {p : Expr × Expr} (ps : List (Expr × Expr)) (h : p.1.isPrintable)
    (rest : List Word) : OpensNoBlock ((Expr.hash (p :: ps)).words ++ rest) := by
  have hstarts := Expr.starts_words h
    (.sign .colon :: (p.2.words ++ (moreWords (ps.map pairWords) ++ .sign .rightBrace :: rest)))
  have hwords : (Expr.hash (p :: ps)).words ++ rest = .sign .leftBrace :: (p.1.words ++
      .sign .colon :: (p.2.words ++
        (moreWords (ps.map pairWords) ++ .sign .rightBrace :: rest))) := by
    rw [Expr.words, pairsWords_eq_map, List.map_cons, commas, intercalate_cons]
    simp [bracedWords, pairWords, moreWords]
  rw [hwords]
  exact fun _ => opensBlock_of_startsExpression hstarts

/-- An expression whose text does not begin with empty braces is not taken for a block. -/
theorem Expr.opensNoBlock (e : Expr) (h : e.isPrintable) (hempty : e.beginsWith "\x7b\x7d" = false)
    (rest : List Word) : OpensNoBlock (e.words ++ rest) := by
  cases e with
  | ident | integer | string | unary | binary | index | array | function =>
    exact opensNoBlock_of_ne (by simp [Expr.words, Word.kind])
  | boolean b => exact opensNoBlock_of_ne (by cases b <;> simp [Expr.words])
  | conditional cs alternative =>
    rw [Expr.words, clausesWords_eq_map]
    cases cs with
    | nil => cases h
    | cons c cs =>
      rw [List.map_cons, intercalate_cons]
      exact opensNoBlock_of_ne (by simp [clauseWords])
  | hash ps =>
    cases ps with
    | nil =>
      rw [beginsWith_hash_nil] at hempty
      cases hempty
    | cons p ps =>
      rw [Expr.isPrintable, printablePairs_iff] at h
      exact opensNoBlock_hash ps (h p (List.mem_cons_self ..)).1 rest
  | call f args =>
    rw [Expr.isPrintable, Bool.and_eq_true] at h
    rw [Expr.words, List.append_assoc]
    exact f.opensNoBlock h.1 (beginsWith_call hempty) _

/-- A binding is read whatever follows it. -/
theorem rereads_bind {x : String} {e : Expr} (h : e.isPrintable → Resumes e) :
    Rereads (.bind x e) where
  statement hprintable rest _ := by
    rw [Statement.isPrintable, Bool.and_eq_true] at hprintable
    exact ⟨_, rfl, reads_bind (h hprintable.2) rest⟩
  init hprintable rest := by
    rw [printableInit, Bool.and_eq_true] at hprintable
    exact .init (by simp [initWords]) (reads_bind (h hprintable.2) rest) rfl

/-- So is a return, which is no first clause of a loop. -/
theorem rereads_ret {e : Expr} (h : e.isPrintable → Resumes e) : Rereads (.ret e) where
  statement hprintable rest _ := ⟨_, rfl, reads_ret (h hprintable) rest⟩
  init hprintable := by cases hprintable

/-- An expression is read up to where the next statement begins. -/
theorem rereads_expr {e : Expr} (h : e.isPrintable → Resumes e) : Rereads (.expr e) where
  statement hprintable rest hends := by
    obtain ⟨hends, hsemicolon⟩ := hends
    rw [Statement.isPrintable, Bool.and_eq_true, Bool.not_eq_true'] at hprintable
    obtain ⟨hprintable, hempty⟩ := hprintable
    obtain ⟨w, hw, he⟩ := (h hprintable).reads_lowest rest hends
    have hread := Reads.expr (e.opensNoBlock hprintable hempty rest) he
    rw [pastSemicolon_of_ne (by rwa [hw])] at hread
    exact ⟨w, hw, hread⟩
  init hprintable rest := by
    rw [printableInit, Bool.and_eq_true, Bool.not_eq_true'] at hprintable
    obtain ⟨hprintable, hempty⟩ := hprintable
    obtain ⟨w, hw, he⟩ := (h hprintable).reads_lowest (.sign .semicolon :: rest) rfl
    have hread := Reads.expr (e.opensNoBlock hprintable hempty _) he
    rw [pastSemicolon_of_semicolon hw] at hread
    have hfirst : firstKind (e.words ++ .sign .semicolon :: rest) ≠ .semicolon := fun hsemi => by
      have hstarts := Expr.starts_words hprintable (.sign .semicolon :: rest)
      rw [hsemi] at hstarts
      cases hstarts
    have hinit := Reads.init hfirst hread rfl
    simpa [initWords, Statement.words] using hinit

/-- A block whose first statement begins with a keyword is told from a hash literal by that. -/
theorem opensBlock_of_looksLikeBlock {b : List Statement} (h : looksLikeBlock b)
    (rest : List Word) :
    Parse.opensBlock (firstKind (statementsWords b ++ .sign .rightBrace :: rest)) := by
  cases b with
  | nil => rfl
  | cons s b =>
    cases s with
    | bind | ret | loop => rfl
    | expr | block => cases h

/-- A nested block is read as one. -/
theorem rereads_block {b : List Statement} (h : ∀ s ∈ b, Rereads s) : Rereads (.block b) where
  statement hprintable rest _ := by
    simp only [Statement.isPrintable, Bool.and_eq_true, printableStatements_iff] at hprintable
    obtain ⟨⟨hlooks, hseparate⟩, hprintable⟩ := hprintable
    have hwords : (Statement.block b).words ++ rest =
        .sign .leftBrace :: (statementsWords b ++ .sign .rightBrace :: rest) := by
      simp [Statement.words, bracedWords]
    have hblock := reads_block ⟨hprintable, hseparate, h⟩
      (.sign .leftBrace :: (statementsWords b ++ .sign .rightBrace :: rest)) rfl
    rw [hwords]
    exact ⟨_, rfl, .blockStatement rfl (opensBlock_of_looksLikeBlock hlooks rest) hblock⟩
  init hprintable := by cases hprintable

/-- The first clause is read with the semicolon that the header has for it. -/
theorem reads_loopInit {init : Option Statement} (hprintable : printableInit init)
    (h : ∀ s ∈ init, Rereads s) (rest : List Word) :
    Reads (.loopInit init) (initWords init ++ rest) (.sign .semicolon :: rest) := by
  cases init with
  | none => exact .noInit rfl
  | some s => exact (h s rfl).init hprintable rest

/-- The other clauses are read up to what closes them. -/
theorem reads_loopClause {e : Option Expr} {close : TokenKind} (hprintable : printableOption e)
    (h : ∀ e' ∈ e, e'.isPrintable → Resumes e') (hends : close.ends)
    (hstarts : startsExpression close = false) (hrest : firstKind rest = close) :
    Reads (.loopClause close e) (optionWords e ++ rest) rest := by
  cases e with
  | none => exact .noClause hrest
  | some e =>
    obtain ⟨w, rfl, he⟩ := (h e rfl hprintable).reads_lowest rest (hrest ▸ hends)
    refine .loopClause (fun hfirst => ?_) he hrest
    have hstart := he.starts_expression
    have hcontra : startsExpression close := hfirst ▸ hstart
    rw [hstarts] at hcontra
    cases hcontra

/-- **A loop** is read clause by clause. -/
theorem rereads_loop {init : Option Statement} {condition step : Option Expr} {b : List Statement}
    (hinit : ∀ s ∈ init, Rereads s) (hcondition : ∀ e ∈ condition, e.isPrintable → Resumes e)
    (hstep : ∀ e ∈ step, e.isPrintable → Resumes e) (hb : ∀ s ∈ b, Rereads s) :
    Rereads (.loop init condition step b) where
  statement hprintable rest _ := by
    simp only [Statement.isPrintable, Bool.and_eq_true, printableStatements_iff] at hprintable
    obtain ⟨⟨⟨⟨hpinit, hpcondition⟩, hpstep⟩, hseparate⟩, hpb⟩ := hprintable
    have hbody := reads_body ⟨hpb, hseparate, hb⟩ rest
    have hclose : firstKind (.sign .rightParen :: (bracedWords (statementsWords b) ++ rest)) =
        .rightParen := rfl
    have hthird := reads_loopClause hpstep hstep rfl rfl hclose
    have hsemicolon : firstKind (.sign .semicolon :: (optionWords step ++
        .sign .rightParen :: (bracedWords (statementsWords b) ++ rest))) = .semicolon := rfl
    have hsecond := reads_loopClause hpcondition hcondition rfl rfl hsemicolon
    have hfirst := reads_loopInit hpinit hinit (optionWords condition ++ .sign .semicolon ::
      (optionWords step ++ .sign .rightParen :: (bracedWords (statementsWords b) ++ rest)))
    refine ⟨.sign .rightBrace :: rest, rfl, ?_⟩
    rw [Statement.words]
    simp only [List.cons_append, List.append_assoc]
    exact .loop rfl rfl hfirst hsecond hthird hbody
  init hprintable := by cases hprintable

/-! ## Trees

All together, by induction on the tree, with one case for each constructor. -/

/-- A number that is not negative is found again from its digits. -/
theorem ofNat_toNat {n : Int64} (h : 0 ≤ n) : Int64.ofNat n.toInt.toNat = n :=
  Int64.ofNat_toNatClampNeg n h

/-- Every number is in range of the literals. -/
theorem toNat_lt (n : Int64) : n.toInt.toNat < Parse.integerLimit := by
  unfold Parse.integerLimit
  have hlt := Int64.toInt_lt n
  omega

/-- **The words of a printable tree are read as it.** -/
theorem rereads_words : Inductive (fun e => e.isPrintable → Resumes e) Rereads where
  ident x _ := resumes_leading fun rest _ => ⟨_, rfl, .ident⟩
  integer n h := by
    refine resumes_leading fun rest _ => ⟨.integer n.toInt.toNat :: rest, rfl, ?_⟩
    have hread : Reads (.leading (.integer (Int64.ofNat n.toInt.toNat)))
        (.integer n.toInt.toNat :: rest) (.integer n.toInt.toNat :: rest) := .integer (toNat_lt n)
    rwa [ofNat_toNat (isPrintable_integer.mp h)] at hread
  string x _ := resumes_leading fun rest _ => ⟨_, rfl, .string⟩
  boolean b _ := by
    cases b with
    | true => exact resumes_leading fun rest _ => ⟨.sign .trueWord :: rest, rfl, .trueWord rfl⟩
    | false => exact resumes_leading fun rest _ => ⟨.sign .falseWord :: rest, rfl, .falseWord rfl⟩
  unary op e ih h := resumes_unary (ih h)
  binary op l r ihl ihr h := by
    rw [Expr.isPrintable, Bool.and_eq_true] at h
    exact resumes_binary (ihl h.1) (ihr h.2)
  call f args ihf ihargs h := by
    rw [Expr.isPrintable, Bool.and_eq_true, printableExprs_iff] at h
    exact resumes_call (ihf h.1) fun e he => ihargs e he (h.2 e he)
  index e k ihe ihk h := by
    rw [Expr.isPrintable, Bool.and_eq_true] at h
    exact resumes_index (ihe h.1) (ihk h.2)
  array es ih h := by
    rw [Expr.isPrintable, printableExprs_iff] at h
    exact resumes_array fun e he => ih e he (h e he)
  hash ps ih h := by
    rw [Expr.isPrintable, printablePairs_iff] at h
    exact resumes_hash fun p hp => ⟨(ih p hp).1 (h p hp).1, (ih p hp).2 (h p hp).2⟩
  function ps b ih h := by
    simp only [Expr.isPrintable, Bool.and_eq_true, printableStatements_iff] at h
    exact resumes_function ⟨h.2, h.1.2, ih⟩
  conditional cs alternative ihcs ihalternative h := by
    simp only [Expr.isPrintable, Bool.and_eq_true, printableClauses_iff] at h
    obtain ⟨⟨hne, hcs⟩, halternative⟩ := h
    refine resumes_conditional (by rintro rfl; cases hne) (fun c hc => ?_) fun b hb => ?_
    · obtain ⟨hcondition, hseparate, hbody⟩ := hcs c hc
      exact ⟨(ihcs c hc).1 hcondition, hbody, hseparate, (ihcs c hc).2⟩
    · obtain rfl := Option.mem_def.mp hb
      simp only [printableAlternative, Bool.and_eq_true, printableStatements_iff] at halternative
      exact ⟨halternative.2, halternative.1, ihalternative b rfl⟩
  bind x e ih := rereads_bind ih
  ret e ih := rereads_ret ih
  expr e ih := rereads_expr ih
  block b ih := rereads_block ih
  loop init condition step b ihinit ihcondition ihstep ihb :=
    rereads_loop ihinit ihcondition ihstep ihb

/-- The text of a printable statement is read without errors as the program of that statement. -/
theorem parse_render_statement {s : Statement} (h : s.isPrintable) :
    parse s.render = ⟨[s], []⟩ := by
  have hwords : wordsOf s.render.toList = s.words := by
    have hspells := spells_render.statement s h [] rfl
    rwa [List.append_nil, wordsOf_nil, List.append_nil] at hspells
  have hends : Ends s [] := by
    cases s with
    | expr => exact ⟨rfl, nofun⟩
    | bind | ret | block | loop => trivial
  obtain ⟨w, hw, hread⟩ := (rereads_words.statement s).statement h [] hends
  have hprogram : Reads (.statements .endOfInput [s]) s.words w.tail := by
    rw [List.append_nil] at hread
    exact .statements hread (.noStatements (by rw [hw]; rfl))
  rw [← hwords] at hprogram
  exact (parseStream_iff rfl).mpr ⟨w.tail, hprogram⟩

/-- **Parsing undoes printing.**  The text of a printable expression, where it may stand as a
statement, is read without errors as the program of that one expression. -/
theorem parse_render (e : Expr) (h : (Statement.expr e).isPrintable) :
    parse e.render = ⟨[.expr e], []⟩ := by
  have hparse := parse_render_statement h
  rwa [Statement.render] at hparse

/-- A call of a function that holds a statement of each kind. -/
def sampler : Expr :=
  .call
    (.function [⟨"x", false⟩, ⟨"rest", true⟩]
      [.loop (some (.bind "i" (.integer 0))) (some (.binary .less (.ident "i") (.ident "x"))) none
          [.expr (.binary .assign (.ident "i") (.binary .add (.ident "i") (.integer 1)))],
        .block [.ret (.index (.ident "rest") (.unary .neg (.integer 1)))],
        .expr (.conditional [(.unary .not (.boolean true), []), (.ident "x", [.block []])]
          (some [.expr (.hash [(.string "a\n\"b\"", .array [.ident "x", .string ""])])]))])
    [.integer 9223372036854775807]

/-- The sampler is read back. -/
theorem parse_render_sampler : (Statement.expr sampler).isPrintable ∧
    parse sampler.render = ⟨[.expr sampler], []⟩ := by
  have hprintable : (Statement.expr sampler).isPrintable := by decide +kernel
  exact ⟨hprintable, parse_render sampler hprintable⟩

end Scriptlet
