import Scriptlet.Proofs.Render.Words

/-!
# Proofs/Render/Spelling — the text of a tree is lexed into its words

Lexing the text of a printable tree gives the words of the tree, and goes on with whatever stands
behind it, if that keeps apart.
-/

namespace Scriptlet

/-! ## Texts

A text spells words if it is lexed into them wherever it stands, as long as nothing behind it runs
on into its last token. -/

/-- The text is lexed into the words, and what keeps apart from it is lexed by itself. -/
def Spells (text : String) (ws : List Word) : Prop :=
  ∀ rest, Apart rest → wordsOf (text.toList ++ rest) = ws ++ wordsOf rest

variable {α : Type}

/-- What is between texts separates them. -/
structure Between (separator : String) (between : List Word) : Prop where
  spells : ∀ rest, wordsOf (separator.toList ++ rest) = between ++ wordsOf rest
  apart : ∀ rest, Apart (separator.toList ++ rest)

/-- Texts in a row are lexed one by one, with what is between them. -/
theorem spells_separated {separator : String} {between : List Word}
    (hsep : Between separator between) {text : α → String} {ws : α → List Word} {as : List α}
    (h : ∀ a ∈ as, Spells (text a) (ws a)) :
    Spells (separated separator (as.map text)) (between.intercalate (as.map ws)) := by
  induction as with
  | nil => exact fun rest _ => rfl
  | cons a as ih =>
    obtain ⟨ha, has⟩ := List.forall_mem_cons.mp h
    have hrest := ih has
    cases as with
    | nil => simpa [separated] using ha
    | cons a' as =>
      intro rest hapart
      have htext : (separated separator ((a :: a' :: as).map text)).toList ++ rest =
          (text a).toList ++ (separator.toList ++
            ((separated separator ((a' :: as).map text)).toList ++ rest)) := by
        simp [separated]
      rw [htext, ha _ (hsep.apart _), hsep.spells, hrest _ hapart]
      simp [List.intercalate_cons_cons]

theorem between_comma : Between ", " [.sign .comma] :=
  ⟨fun rest => by simp, fun rest => rfl⟩

theorem between_else : Between " else " [.sign .elseWord] :=
  ⟨fun rest => by simp, fun rest => rfl⟩

theorem between_space : Between " " [] :=
  ⟨fun rest => by simp, fun rest => rfl⟩

/-- A block; the blanks inside the braces keep its statements apart from them. -/
theorem spells_braced {b : List Statement} (h : ∀ s ∈ b, Spells s.render s.words) :
    Spells (braced (renderStatements b)) (bracedWords (statementsWords b)) := by
  intro rest _
  rw [renderStatements_eq_map]
  cases b with
  | nil => simp [braced, bracedWords, statementsWords]
  | cons s b =>
    have hspells := spells_separated between_space h
    rw [← statementsWords_eq_intercalate] at hspells
    have htext : (braced ((s :: b).map Statement.render)).toList ++ rest =
        '\x7b' :: ' ' :: ((separated " " ((s :: b).map Statement.render)).toList ++
          ' ' :: '\x7d' :: rest) := by
      simp [braced]
    rw [htext, wordsOf_leftBrace, wordsOf_space, hspells _ rfl, wordsOf_space, wordsOf_rightBrace]
    simp [bracedWords]

/-- A parameter; the dots end where the name begins. -/
theorem spells_param {p : Param} (h : IsName p.name) : Spells p.render p.words := by
  intro rest hapart
  obtain ⟨name, variadic⟩ := p
  cases variadic with
  | false => simp [Param.render, Param.words, wordsOf_name h hapart]
  | true => simp [Param.render, Param.words, wordsOf_name h hapart]

/-- A key and a value. -/
theorem spells_colon {key value : String} {ks vs : List Word} (hk : Spells key ks)
    (hv : Spells value vs) : Spells (key ++ ": " ++ value) (ks ++ .sign .colon :: vs) := by
  intro rest hapart
  have htext : (key ++ ": " ++ value).toList ++ rest =
      key.toList ++ ':' :: ' ' :: (value.toList ++ rest) := by
    simp
  rw [htext, hk _ rfl, wordsOf_colon, wordsOf_space, hv _ hapart]
  simp

theorem spells_pair {p : Expr × Expr} (hk : Spells p.1.render p.1.words)
    (hv : Spells p.2.render p.2.words) : Spells (pairText p) (pairWords p) :=
  spells_colon hk hv

/-- A clause of a conditional. -/
theorem spells_clause {c : Clause} (hc : Spells c.1.render c.1.words)
    (hb : ∀ s ∈ c.2, Spells s.render s.words) : Spells (clauseText c) (clauseWords c) := by
  intro rest hapart
  have htext : (clauseText c).toList ++ rest = 'i' :: 'f' :: ' ' :: '(' :: (c.1.render.toList ++
      ')' :: ' ' :: ((braced (renderStatements c.2)).toList ++ rest)) := by
    simp [clauseText]
  rw [htext, wordsOf_if, wordsOf_space, wordsOf_leftParen, hc _ rfl, wordsOf_rightParen,
    wordsOf_space, spells_braced hb _ hapart]
  simp [clauseWords]

/-! ## Trees

By induction on the tree: the text of each form is put together from the texts of its parts with
delimiters between them, and a delimiter keeps its neighbours apart. -/

/-- The words of a list between delimiters. -/
theorem spells_commas {text : α → String} {ws : α → List Word} {as : List α}
    (h : ∀ a ∈ as, Spells (text a) (ws a)) :
    Spells (separated ", " (as.map text)) (commas (as.map ws)) :=
  spells_separated between_comma h

/-- A list between brackets. -/
theorem spells_bracketed {text : α → String} {ws : α → List Word} {as : List α}
    (h : ∀ a ∈ as, Spells (text a) (ws a)) :
    Spells ("[" ++ separated ", " (as.map text) ++ "]")
      (.sign .leftBracket :: (commas (as.map ws) ++ [.sign .rightBracket])) := by
  intro rest _
  have htext : ("[" ++ separated ", " (as.map text) ++ "]").toList ++ rest =
      '[' :: ((separated ", " (as.map text)).toList ++ ']' :: rest) := by
    simp
  rw [htext, wordsOf_leftBracket, spells_commas h _ rfl, wordsOf_rightBracket]
  simp

/-- A list between braces. -/
theorem spells_bracedCommas {text : α → String} {ws : α → List Word} {as : List α}
    (h : ∀ a ∈ as, Spells (text a) (ws a)) :
    Spells ("\x7b" ++ separated ", " (as.map text) ++ "\x7d")
      (bracedWords (commas (as.map ws))) := by
  intro rest _
  have htext : ("\x7b" ++ separated ", " (as.map text) ++ "\x7d").toList ++ rest =
      '\x7b' :: ((separated ", " (as.map text)).toList ++ '\x7d' :: rest) := by
    simp
  rw [htext, wordsOf_leftBrace, spells_commas h _ rfl, wordsOf_rightBrace]
  simp [bracedWords]

/-- An operator right before its operand. -/
theorem Spells.prefixed {text : String} {ws : List Word} (h : Spells text ws) (op : PrefixOp)
    (hbegins : Begins text.toList ws) : Spells (op.symbol ++ text) (.sign op.kind :: ws) := by
  intro rest hapart
  obtain ⟨c, cs, hcs⟩ := List.exists_cons_of_ne_nil hbegins.ne_nil
  have hc : c ≠ '=' := by
    rintro rfl
    exact hbegins.ne_equals (by rw [hcs]; rfl)
  have hop : wordsOf (op.symbol.toList ++ (text.toList ++ rest)) =
      .sign op.kind :: wordsOf (text.toList ++ rest) := by
    rw [hcs]
    exact wordsOf_prefixOp op hc
  rw [String.toList_append, List.append_assoc, hop, h _ hapart, List.cons_append]

/-- A prefix operator; an operand never begins with an equals sign, which would be lexed along with
`!`. -/
theorem spells_unary {op : PrefixOp} {e : Expr} (hbegins : Begins e.render.toList e.words)
    (he : Spells e.render e.words) : Spells (Expr.unary op e).render (Expr.unary op e).words := by
  intro rest _
  have htext : (Expr.unary op e).render.toList ++ rest =
      '(' :: ((op.symbol ++ e.render).toList ++ ')' :: rest) := by
    simp [Expr.render]
  rw [htext, wordsOf_leftParen, he.prefixed op hbegins _ rfl, wordsOf_rightParen]
  simp [Expr.words]

/-- An operator between blanks. -/
theorem spells_binary {op : InfixOp} {l r : Expr} (hl : Spells l.render l.words)
    (hr : Spells r.render r.words) :
    Spells (Expr.binary op l r).render (Expr.binary op l r).words := by
  intro rest _
  have htext : (Expr.binary op l r).render.toList ++ rest = '(' :: (l.render.toList ++
      ' ' :: (op.symbol.toList ++ ' ' :: (r.render.toList ++ ')' :: rest))) := by
    simp [Expr.render]
  rw [htext, wordsOf_leftParen, hl _ rfl, wordsOf_space, wordsOf_infixOp, hr _ rfl,
    wordsOf_rightParen]
  simp [Expr.words]

/-- A call; nothing stands between the callee and the parenthesis. -/
theorem spells_call {f : Expr} {args : List Expr} (hf : Spells f.render f.words)
    (hargs : ∀ e ∈ args, Spells e.render e.words) :
    Spells (Expr.call f args).render (Expr.call f args).words := by
  intro rest _
  have htext : (Expr.call f args).render.toList ++ rest = f.render.toList ++
      '(' :: ((separated ", " (args.map Expr.render)).toList ++ ')' :: rest) := by
    simp [Expr.render, renderExprs_eq_map]
  rw [htext, hf _ rfl, wordsOf_leftParen, spells_commas hargs _ rfl, wordsOf_rightParen]
  simp [Expr.words, exprsWords_eq_map]

/-- An index, between its parentheses. -/
theorem spells_index {e k : Expr} (he : Spells e.render e.words) (hk : Spells k.render k.words) :
    Spells (Expr.index e k).render (Expr.index e k).words := by
  intro rest _
  have htext : (Expr.index e k).render.toList ++ rest =
      '(' :: (e.render.toList ++ '[' :: (k.render.toList ++ ']' :: ')' :: rest)) := by
    simp [Expr.render]
  rw [htext, wordsOf_leftParen, he _ rfl, wordsOf_leftBracket, hk _ rfl, wordsOf_rightBracket,
    wordsOf_rightParen]
  simp [Expr.words]

/-- An array literal. -/
theorem spells_array {es : List Expr} (h : ∀ e ∈ es, Spells e.render e.words) :
    Spells (Expr.array es).render (Expr.array es).words := by
  rw [Expr.render, Expr.words, renderExprs_eq_map, exprsWords_eq_map]
  exact spells_bracketed h

/-- A hash literal. -/
theorem spells_hash {ps : List (Expr × Expr)} (h : ∀ p ∈ ps, Spells (pairText p) (pairWords p)) :
    Spells (Expr.hash ps).render (Expr.hash ps).words := by
  rw [Expr.render, Expr.words, renderPairs_eq_map, pairsWords_eq_map]
  exact spells_bracedCommas h

/-- A function literal; the keyword runs up to the parenthesis. -/
theorem spells_function {ps : List Param} {b : List Statement} (hps : ∀ p ∈ ps, IsName p.name)
    (hb : ∀ s ∈ b, Spells s.render s.words) :
    Spells (Expr.function ps b).render (Expr.function ps b).words := by
  intro rest hapart
  have htext : (Expr.function ps b).render.toList ++ rest =
      'f' :: 'n' :: '(' :: ((separated ", " (ps.map Param.render)).toList ++
        ')' :: ' ' :: ((braced (renderStatements b)).toList ++ rest)) := by
    simp [Expr.render]
  rw [htext, wordsOf_fn, wordsOf_leftParen,
    spells_commas (fun p hp => spells_param (hps p hp)) _ rfl,
    wordsOf_rightParen, wordsOf_space, spells_braced hb _ hapart]
  simp [Expr.words]

/-- The last branch, if there is one. -/
theorem spells_alternative {alternative : Option (List Statement)}
    (h : ∀ b ∈ alternative, ∀ s ∈ b, Spells s.render s.words) :
    Spells (renderAlternative alternative) (alternativeWords alternative) := by
  intro rest hapart
  cases alternative with
  | none => rfl
  | some b =>
    have htext : (renderAlternative (some b)).toList ++ rest =
        ' ' :: 'e' :: 'l' :: 's' :: 'e' :: ' ' :: ((braced (renderStatements b)).toList ++
          rest) := by
      simp [renderAlternative]
    rw [htext, wordsOf_space, wordsOf_else, wordsOf_space, spells_braced (h b rfl) _ hapart]
    rfl

/-- The last branch keeps apart from what is in front of it. -/
theorem apart_alternative {alternative : Option (List Statement)} {rest : List Char}
    (h : Apart rest) : Apart ((renderAlternative alternative).toList ++ rest) := by
  cases alternative with
  | none => exact h
  | some b => simp [renderAlternative]

/-- A conditional, with `else` between its clauses. -/
theorem spells_conditional {cs : List Clause} {alternative : Option (List Statement)}
    (hcs : ∀ c ∈ cs, Spells (clauseText c) (clauseWords c))
    (halternative : ∀ b ∈ alternative, ∀ s ∈ b, Spells s.render s.words) :
    Spells (Expr.conditional cs alternative).render (Expr.conditional cs alternative).words := by
  intro rest hapart
  have htext : (Expr.conditional cs alternative).render.toList ++ rest =
      (separated " else " (cs.map clauseText)).toList ++
        ((renderAlternative alternative).toList ++ rest) := by
    simp [Expr.render, renderClauses_eq_map]
  rw [htext, spells_separated between_else hcs _ (apart_alternative hapart),
    spells_alternative halternative _ hapart]
  simp [Expr.words, clausesWords_eq_map]

/-- The first clause of a loop header, with the semicolon and the blank after it. -/
theorem wordsOf_init {init : Option Statement} (h : ∀ s ∈ init, Spells s.render s.words)
    (rest : List Char) :
    wordsOf ((renderInit init).toList ++ rest) = initWords init ++ wordsOf rest := by
  cases init with
  | none => simp [renderInit, initWords]
  | some s =>
    have hs := h s rfl
    by_cases hbind : ∃ x e, s = .bind x e
    · obtain ⟨x, e, rfl⟩ := hbind
      have htext : (renderInit (some (.bind x e))).toList ++ rest =
          (Statement.bind x e).render.toList ++ ' ' :: rest := by
        simp [renderInit, Statement.render]
      rw [htext, hs _ rfl, wordsOf_space, Statement.words, initWords]
    · have hne : ∀ x e, s = .bind x e → False := fun x e h => hbind ⟨x, e, h⟩
      have htext : (renderInit (some s)).toList ++ rest =
          s.render.toList ++ ';' :: ' ' :: rest := by
        rw [renderInit]
        · simp
        · exact hne
      rw [htext, hs _ rfl, wordsOf_semicolon, wordsOf_space, initWords]
      · simp
      · exact hne

/-- A clause of a loop header that may be left out. -/
theorem spells_option {e : Option Expr} (h : ∀ e' ∈ e, Spells e'.render e'.words) :
    Spells (renderOption e) (optionWords e) := by
  cases e with
  | none => exact fun rest _ => rfl
  | some e => exact h e rfl

/-- A binding, with its semicolon. -/
theorem spells_bind {x : String} {e : Expr} (hx : IsName x) (he : Spells e.render e.words) :
    Spells (Statement.bind x e).render (Statement.bind x e).words := by
  intro rest _
  have htext : (Statement.bind x e).render.toList ++ rest = 'l' :: 'e' :: 't' :: ' ' ::
      (x.toList ++ ' ' :: (InfixOp.assign.symbol.toList ++ ' ' :: (e.render.toList ++
        ';' :: rest))) := by
    simp [Statement.render, InfixOp.symbol]
  rw [htext, wordsOf_let, wordsOf_space, wordsOf_name hx rfl, wordsOf_space, wordsOf_infixOp,
    he _ rfl, wordsOf_semicolon]
  simp [Statement.words, InfixOp.kind]

/-- A return, with its semicolon. -/
theorem spells_ret {e : Expr} (he : Spells e.render e.words) :
    Spells (Statement.ret e).render (Statement.ret e).words := by
  intro rest _
  have htext : (Statement.ret e).render.toList ++ rest =
      'r' :: 'e' :: 't' :: 'u' :: 'r' :: 'n' :: ' ' :: (e.render.toList ++ ';' :: rest) := by
    simp [Statement.render]
  rw [htext, wordsOf_return, wordsOf_space, he _ rfl, wordsOf_semicolon]
  simp [Statement.words]

/-- A loop. -/
theorem spells_loop {init : Option Statement} {condition step : Option Expr} {b : List Statement}
    (hinit : ∀ s ∈ init, Spells s.render s.words)
    (hcondition : ∀ e ∈ condition, Spells e.render e.words)
    (hstep : ∀ e ∈ step, Spells e.render e.words) (hb : ∀ s ∈ b, Spells s.render s.words) :
    Spells (Statement.loop init condition step b).render
      (Statement.loop init condition step b).words := by
  intro rest hapart
  have htext : (Statement.loop init condition step b).render.toList ++ rest =
      'f' :: 'o' :: 'r' :: ' ' :: '(' :: ((renderInit init).toList ++
        ((renderOption condition).toList ++ ';' :: ' ' :: ((renderOption step).toList ++
          ')' :: ' ' :: ((braced (renderStatements b)).toList ++ rest)))) := by
    simp [Statement.render]
  rw [htext, wordsOf_for, wordsOf_space, wordsOf_leftParen, wordsOf_init hinit,
    spells_option hcondition _ rfl, wordsOf_semicolon, wordsOf_space, spells_option hstep _ rfl,
    wordsOf_rightParen, wordsOf_space, spells_braced hb _ hapart]
  simp [Statement.words]

/-- **The text of a printable tree is lexed into its words.** -/
theorem spells_render : Inductive (fun e => e.isPrintable → Spells e.render e.words)
    (fun s => s.isPrintable → Spells s.render s.words) where
  -- Each form of tree has its lemma above; what is left is that the parts of a printable tree are
  -- printable.
  ident x h := fun rest hapart => wordsOf_name (isPrintable_ident.mp h) hapart
  integer n h := by
    intro rest hapart
    rw [Expr.render, toString_toInt (isPrintable_integer.mp h)]
    exact wordsOf_toString _ hapart
  string x h := fun rest _ => wordsOf_quote (isPrintable_string.mp h) rest
  boolean b _ := by
    intro rest hapart
    cases b with
    | true => simpa [Expr.render, Expr.words] using wordsOf_true hapart
    | false => simpa [Expr.render, Expr.words] using wordsOf_false hapart
  unary op e ih h := spells_unary (e.begins h) (ih h)
  binary op l r ihl ihr h := by
    rw [Expr.isPrintable, Bool.and_eq_true] at h
    exact spells_binary (ihl h.1) (ihr h.2)
  call f args ihf ihargs h := by
    rw [Expr.isPrintable, Bool.and_eq_true, printableExprs_iff] at h
    exact spells_call (ihf h.1) fun e he => ihargs e he (h.2 e he)
  index e k ihe ihk h := by
    rw [Expr.isPrintable, Bool.and_eq_true] at h
    exact spells_index (ihe h.1) (ihk h.2)
  array es ih h := by
    rw [Expr.isPrintable, printableExprs_iff] at h
    exact spells_array fun e he => ih e he (h e he)
  hash ps ih h := by
    rw [Expr.isPrintable, printablePairs_iff] at h
    exact spells_hash fun p hp => spells_pair ((ih p hp).1 (h p hp).1) ((ih p hp).2 (h p hp).2)
  function ps b ih h := by
    simp only [Expr.isPrintable, Bool.and_eq_true, List.all_eq_true, decide_eq_true_eq,
      printableStatements_iff] at h
    exact spells_function h.1.1 fun s hs => ih s hs (h.2 s hs)
  conditional cs alternative ihcs ihalternative h := by
    simp only [Expr.isPrintable, Bool.and_eq_true, printableClauses_iff] at h
    obtain ⟨⟨-, hcs⟩, halternative⟩ := h
    refine spells_conditional (fun c hc => ?_) fun b hb s hs => ?_
    · obtain ⟨hcondition, -, hbody⟩ := hcs c hc
      exact spells_clause ((ihcs c hc).1 hcondition) fun s hs => (ihcs c hc).2 s hs (hbody s hs)
    · obtain rfl := Option.mem_def.mp hb
      simp only [printableAlternative, Bool.and_eq_true, printableStatements_iff] at halternative
      exact ihalternative b rfl s hs (halternative.2 s hs)
  bind x e ih h := by
    simp only [Statement.isPrintable, Bool.and_eq_true, decide_eq_true_eq] at h
    exact spells_bind h.1 (ih h.2)
  ret e ih h := spells_ret (ih h)
  expr e ih h := by
    rw [Statement.isPrintable, Bool.and_eq_true] at h
    exact ih h.1
  block b ih h := by
    simp only [Statement.isPrintable, Bool.and_eq_true, printableStatements_iff] at h
    exact spells_braced fun s hs => ih s hs (h.2 s hs)
  loop init condition step b ihinit ihcondition ihstep ihb h := by
    simp only [Statement.isPrintable, Bool.and_eq_true, printableStatements_iff] at h
    obtain ⟨⟨⟨⟨hinit, hcondition⟩, hstep⟩, -⟩, hb⟩ := h
    refine spells_loop (fun s hs => ?_) (fun e he => ?_) (fun e he => ?_) fun s hs => ?_
    · exact ihinit s hs (isPrintable_of_printableInit hinit s hs)
    · obtain rfl := Option.mem_def.mp he
      exact ihcondition e rfl hcondition
    · obtain rfl := Option.mem_def.mp he
      exact ihstep e rfl hstep
    · exact ihb s hs (hb s hs)

end Scriptlet
