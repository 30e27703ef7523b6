import Scriptlet.Proofs.Parse.Reading
import Scriptlet.Proofs.Render.Printable

/-!
# Proofs/Render/Words — the words of a printed tree

`words` is the printer over words instead of characters, without the blanks.  That an expression's
text begins with a character no token runs on into, and with a bracket only if its words do, is all
that is ever asked about two trees side by side.
-/

namespace Scriptlet

/-! ## The words of a tree

The words are defined by recursion along the tree, like the text, but without blanks and without a
look at characters; that the text is lexed into them is shown elsewhere. -/

/-- Words between commas. -/
def commas (wss : List (List Word)) : List Word := [.sign .comma].intercalate wss

/-- Words between braces. -/
def bracedWords (ws : List Word) : List Word := .sign .leftBrace :: (ws ++ [.sign .rightBrace])

/-- The dots in front of a variadic one are a word of their own. -/
def Param.words (p : Param) : List Word :=
  if p.variadic then [.sign .ellipsis, .name p.name] else [.name p.name]

mutual

/-- The words that the text of the expression consists of. -/
def Expr.words : Expr → List Word
  | .ident x => [.name x]
  | .integer n => [.integer n.toInt.toNat]
  | .string x => [.string x]
  | .boolean b => [.sign (if b then .trueWord else .falseWord)]
  | .unary op e => .sign .leftParen :: .sign op.kind :: (e.words ++ [.sign .rightParen])
  | .binary op l r =>
    .sign .leftParen :: (l.words ++ .sign op.kind :: (r.words ++ [.sign .rightParen]))
  | .call f args => f.words ++ .sign .leftParen :: (commas (exprsWords args) ++ [.sign .rightParen])
  | .index e k =>
    .sign .leftParen ::
      (e.words ++ .sign .leftBracket :: (k.words ++ [.sign .rightBracket, .sign .rightParen]))
  | .array es => .sign .leftBracket :: (commas (exprsWords es) ++ [.sign .rightBracket])
  | .hash ps => bracedWords (commas (pairsWords ps))
  | .function ps b =>
    .sign .functionWord :: .sign .leftParen ::
      (commas (ps.map Param.words) ++ .sign .rightParen :: bracedWords (statementsWords b))
  | .conditional cs alternative =>
    [.sign .elseWord].intercalate (clausesWords cs) ++ alternativeWords alternative

/-- One list of words for each expression, for commas to be put between. -/
def exprsWords : List Expr → List (List Word)
  | [] => []
  | e :: es => e.words :: exprsWords es

/-- Key, colon and value. -/
def pairsWords : List (Expr × Expr) → List (List Word)
  | [] => []
  | (k, v) :: ps => (k.words ++ .sign .colon :: v.words) :: pairsWords ps

/-- Each clause by itself, without the `else` before it. -/
def clausesWords : List (Expr × List Statement) → List (List Word)
  | [] => []
  | (c, b) :: cs =>
    (.sign .ifWord :: .sign .leftParen ::
      (c.words ++ .sign .rightParen :: bracedWords (statementsWords b))) :: clausesWords cs

/-- The last branch has its `else` with it. -/
def alternativeWords : Option (List Statement) → List Word
  | none => []
  | some b => .sign .elseWord :: bracedWords (statementsWords b)

/-- A clause that is left out has no words. -/
def optionWords : Option Expr → List Word
  | none => []
  | some e => e.words

/-- The first clause of a loop header, with its semicolon. -/
def initWords : Option Statement → List Word
  | none => [.sign .semicolon]
  | some (.bind x e) =>
    .sign .letWord :: .name x :: .sign .assign :: (e.words ++ [.sign .semicolon])
  | some s => s.words ++ [.sign .semicolon]

/-- Statements of a block one behind the other. -/
def statementsWords : List Statement → List Word
  | [] => []
  | s :: b => s.words ++ statementsWords b

/-- The words that the text of the statement consists of. -/
def Statement.words : Statement → List Word
  | .bind x e => .sign .letWord :: .name x :: .sign .assign :: (e.words ++ [.sign .semicolon])
  | .ret e => .sign .returnWord :: (e.words ++ [.sign .semicolon])
  | .expr e => e.words
  | .block b => bracedWords (statementsWords b)
  | .loop init condition step b =>
    .sign .forWord :: .sign .leftParen ::
      (initWords init ++ (optionWords condition ++ .sign .semicolon ::
        (optionWords step ++ .sign .rightParen :: bracedWords (statementsWords b))))

end

/-! ## Lists of trees -/

/-! The printer goes through lists by recursions of its own; as maps, the lists can be taken element
by element. -/

theorem renderExprs_eq_map (es : List Expr) : renderExprs es = es.map Expr.render := by
  induction es with
  | nil => rfl
  | cons e es ih => rw [renderExprs, ih, List.map_cons]

theorem exprsWords_eq_map (es : List Expr) : exprsWords es = es.map Expr.words := by
  induction es with
  | nil => rfl
  | cons e es ih => rw [exprsWords, ih, List.map_cons]

/-- The text of a pair of a hash literal. -/
def pairText (p : Expr × Expr) : String := p.1.render ++ ": " ++ p.2.render

/-- The words of that text. -/
def pairWords (p : Expr × Expr) : List Word := p.1.words ++ .sign .colon :: p.2.words

theorem renderPairs_eq_map (ps : List (Expr × Expr)) : renderPairs ps = ps.map pairText := by
  induction ps with
  | nil => rfl
  | cons p ps ih => rw [renderPairs, ih, List.map_cons, pairText]

theorem pairsWords_eq_map (ps : List (Expr × Expr)) : pairsWords ps = ps.map pairWords := by
  induction ps with
  | nil => rfl
  | cons p ps ih => rw [pairsWords, ih, List.map_cons, pairWords]

/-- The text of a clause of a conditional. -/
def clauseText (c : Clause) : String :=
  "if (" ++ c.1.render ++ ") " ++ braced (renderStatements c.2)

/-- The words of that clause. -/
def clauseWords (c : Clause) : List Word :=
  .sign .ifWord :: .sign .leftParen ::
    (c.1.words ++ .sign .rightParen :: bracedWords (statementsWords c.2))

theorem renderClauses_eq_map (cs : List Clause) : renderClauses cs = cs.map clauseText := by
  induction cs with
  | nil => rfl
  | cons c cs ih => rw [renderClauses, ih, List.map_cons, clauseText]

theorem clausesWords_eq_map (cs : List Clause) : clausesWords cs = cs.map clauseWords := by
  induction cs with
  | nil => rfl
  | cons c cs ih => rw [clausesWords, ih, List.map_cons, clauseWords]

theorem renderStatements_eq_map (b : List Statement) :
    renderStatements b = b.map Statement.render := by
  induction b with
  | nil => rfl
  | cons s b ih => rw [renderStatements, ih, List.map_cons]

theorem intercalate_nil_cons {α : Type} (x : List α) (xs : List (List α)) :
    [].intercalate (x :: xs) = x ++ [].intercalate xs := by
  cases xs with
  | nil => simp
  | cons y ys => rw [List.intercalate_cons_cons, List.append_nil]

/-- Statements have nothing between them, which is put between them here. -/
theorem statementsWords_eq_intercalate (b : List Statement) :
    statementsWords b = [].intercalate (b.map Statement.words) := by
  induction b with
  | nil => rfl
  | cons s b ih => rw [statementsWords, ih, List.map_cons, intercalate_nil_cons]

/-! ## First characters

Where a statement begins with a brace, it is read as a block or a hash literal, depending on where
it stands.  So it matters with which character the text of a tree begins. -/

/-- What an expression's text and words begin with. -/
structure Begins (text : List Char) (ws : List Word) : Prop where
  ne_nil : text ≠ []
  ne_equals : text.head? ≠ some '='
  starts : startsExpression (firstKind ws)
  extension : Extension.of (firstKind ws) ≠ none → text.head? = some '(' ∨ text.head? = some '['

/-- What a text and its words begin with does not change with what is behind them. -/
theorem Begins.append {text rest : List Char} {ws ws' : List Word} (h : Begins text ws) :
    Begins (text ++ rest) (ws ++ ws') := by
  obtain ⟨hne, hequals, hstarts, hext⟩ := h
  cases text with
  | nil => exact absurd rfl hne
  | cons c text =>
    cases ws with
    | nil => cases hstarts
    | cons w ws => exact ⟨List.cons_ne_nil _ _, hequals, hstarts, hext⟩

/-! Every form of expression begins with a name, a number, a quote, a keyword or a bracket; the ones
that begin with an expression begin as that does. -/

theorem begins_name {x : String} (h : IsName x) : Begins x.toList [.name x] := by
  obtain ⟨hne, hchars, -⟩ := h
  have hnil : x.toList ≠ [] := fun h => hne (String.toList_eq_nil_iff.mp h)
  refine ⟨hnil, fun hequals => ?_, rfl, fun h => absurd rfl h⟩
  have hword := List.all_eq_true.mp hchars _ (List.mem_of_mem_head? hequals)
  cases hword

/-- The digits of a number that is not negative. -/
theorem begins_toString (n : Nat) : Begins (toString n).toList [.integer n] := by
  have hdigits : (toString n).toList = Nat.toDigits 10 n := Nat.toList_repr
  rw [hdigits]
  refine ⟨Nat.toDigits_ne_nil, fun hequals => ?_, rfl, fun h => absurd rfl h⟩
  have hdigit := Nat.isDigit_of_mem_toDigits (by decide) (by decide) (List.mem_of_mem_head? hequals)
  cases hdigit

/-- A number that is not negative is printed by its digits alone. -/
theorem toString_toInt {n : Int64} (h : 0 ≤ n) : toString n.toInt = toString n.toInt.toNat := by
  have hn : 0 ≤ n.toInt := Int64.le_iff_toInt_le.mp h
  obtain ⟨m, hm⟩ := Int.eq_ofNat_of_zero_le hn
  rw [hm]
  rfl

theorem begins_boolean (b : Bool) :
    Begins (Expr.boolean b).render.toList (Expr.boolean b).words := by
  cases b with
  | true => exact ⟨by decide, by decide, rfl, fun h => absurd rfl h⟩
  | false => exact ⟨by decide, by decide, rfl, fun h => absurd rfl h⟩

theorem begins_leftParen : Begins "(".toList [.sign .leftParen] :=
  ⟨by decide, by decide, rfl, fun _ => .inl rfl⟩

theorem begins_leftBracket : Begins "[".toList [.sign .leftBracket] :=
  ⟨by decide, by decide, rfl, fun _ => .inr rfl⟩

theorem begins_leftBrace : Begins "\x7b".toList [.sign .leftBrace] :=
  ⟨by decide, by decide, rfl, fun h => absurd rfl h⟩

theorem begins_fn : Begins "fn(".toList [.sign .functionWord] :=
  ⟨by decide, by decide, rfl, fun h => absurd rfl h⟩

theorem begins_if : Begins "if (".toList [.sign .ifWord] :=
  ⟨by decide, by decide, rfl, fun h => absurd rfl h⟩

/-- The first of several texts stands in front. -/
theorem separated_cons (separator x : String) (xs : List String) :
    ∃ rest, separated separator (x :: xs) = x ++ rest := by
  cases xs with
  | nil => exact ⟨"", (String.append_empty).symm⟩
  | cons y ys => exact ⟨_, String.append_assoc ..⟩

theorem intercalate_cons {α : Type} (between x : List α) (xs : List (List α)) :
    between.intercalate (x :: xs) = x ++ xs.flatMap (between ++ ·) := by
  induction xs generalizing x with
  | nil => simp
  | cons y ys ih => rw [List.intercalate_cons_cons, ih]; simp

/-- **An expression begins with a character that no token runs on into.** -/
theorem Expr.begins : ∀ e : Expr, e.isPrintable → Begins e.render.toList e.words
  | .ident x, h => begins_name (isPrintable_ident.mp h)
  | .integer n, h => by
    rw [Expr.render, Expr.words, toString_toInt (isPrintable_integer.mp h)]
    exact begins_toString _
  | .string x, _ => by
    rw [Expr.render, Text.quote, Text.quoteChars, String.toList_ofList]
    exact ⟨List.cons_ne_nil _ _, by simp, rfl, fun h => absurd rfl h⟩
  | .boolean b, _ => begins_boolean b
  -- Operations and indexes are printed in parentheses, and only a call begins with another
  -- expression.
  | .unary op e, _ => by
    simp only [Expr.render, String.toList_append, List.append_assoc]
    exact begins_leftParen.append
  | .binary op l r, _ => by
    simp only [Expr.render, String.toList_append, List.append_assoc]
    exact begins_leftParen.append
  | .call f args, h => by
    rw [Expr.isPrintable, Bool.and_eq_true] at h
    simp only [Expr.render, String.toList_append, List.append_assoc]
    exact (f.begins h.1).append
  | .index e k, _ => by
    simp only [Expr.render, String.toList_append, List.append_assoc]
    exact begins_leftParen.append
  | .array es, _ => by
    simp only [Expr.render, String.toList_append, List.append_assoc]
    exact begins_leftBracket.append
  | .hash ps, _ => by
    simp only [Expr.render, String.toList_append, List.append_assoc]
    exact begins_leftBrace.append
  | .function ps b, _ => by
    simp only [Expr.render, String.toList_append, List.append_assoc]
    exact begins_fn.append
  | .conditional [] _, h => by cases h
  | .conditional (c :: cs) alternative, _ => by
    obtain ⟨rest, hrest⟩ := separated_cons " else " (clauseText c) (cs.map clauseText)
    rw [Expr.render, Expr.words, renderClauses_eq_map, clausesWords_eq_map, List.map_cons,
      List.map_cons, hrest, intercalate_cons]
    simp only [clauseText, String.toList_append, List.append_assoc]
    exact begins_if.append

end Scriptlet
