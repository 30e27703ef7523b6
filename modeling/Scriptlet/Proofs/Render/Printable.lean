import Scriptlet.Syntax.Printer
import Scriptlet.Proofs.Lex.Pieces
import Scriptlet.Proofs.Syntax.Induction

/-!
# Proofs/Render/Printable — the trees that their text is read back as

The printer writes every tree, and not every text it writes is read back as that tree.  A name may
be a keyword, a number may be negative, a string may need an escape that reading does not know, and
a statement may look like the rest of the one before it or like a block.  `isPrintable` leaves these
out.  -/

namespace Scriptlet

/-- The text of the expression begins with these characters. -/
def Expr.beginsWith (e : Expr) (cs : String) : Bool := cs.toList.isPrefixOf e.render.toList

/-- After an expression, the statement would be read as arguments or an index of it. -/
def Statement.runsOn : Statement → Bool
  | .expr e => e.beginsWith "(" || e.beginsWith "["
  | _ => false

/-- No statement would be read as the rest of an expression before it. -/
def separate : List Statement → Bool
  | .expr _ :: s :: b => !s.runsOn && separate (s :: b)
  | _ :: b => separate b
  | [] => true

/-- Between braces where a statement may stand, the statements are taken for those of a block. -/
def looksLikeBlock : List Statement → Bool
  | [] | .bind _ _ :: _ | .ret _ :: _ | .loop _ _ _ _ :: _ => true
  | _ => false

mutual

/-- The trees that their text is read back as, if they are not taken for a block. -/
def Expr.isPrintable : Expr → Bool
  | .ident x => IsName x
  | .integer n => 0 ≤ n
  | .string x => x.toList.all fun c => Text.IsPlain c
  | .boolean _ => true
  | .unary _ e => e.isPrintable
  | .binary _ l r => l.isPrintable && r.isPrintable
  | .call f args => f.isPrintable && printableExprs args
  | .index e k => e.isPrintable && k.isPrintable
  | .array es => printableExprs es
  | .hash ps => printablePairs ps
  | .function ps b => ps.all (fun p => IsName p.name) && separate b && printableStatements b
  | .conditional cs alternative =>
    !cs.isEmpty && printableClauses cs && printableAlternative alternative

/-- Elements or arguments. -/
def printableExprs : List Expr → Bool
  | [] => true
  | e :: es => e.isPrintable && printableExprs es

/-- Pairs of a hash literal. -/
def printablePairs : List (Expr × Expr) → Bool
  | [] => true
  | (k, v) :: ps => k.isPrintable && v.isPrintable && printablePairs ps

/-- Clauses of a conditional; the statements of a branch must not run into each other. -/
def printableClauses : List (Expr × List Statement) → Bool
  | [] => true
  | (c, b) :: cs => c.isPrintable && separate b && printableStatements b && printableClauses cs

/-- The last branch. -/
def printableAlternative : Option (List Statement) → Bool
  | none => true
  | some b => separate b && printableStatements b

/-- A clause of a loop header that is an expression. -/
def printableOption : Option Expr → Bool
  | none => true
  | some e => e.isPrintable

/-- A loop begins with a binding or an expression, if with anything. -/
def printableInit : Option Statement → Bool
  | none => true
  | some (.bind x e) => IsName x && e.isPrintable
  | some (.expr e) => e.isPrintable && !e.beginsWith "\x7b\x7d"
  | some _ => false

/-- Statements by themselves; whether they run into each other is asked for where they stand side by
side. -/
def printableStatements : List Statement → Bool
  | [] => true
  | s :: b => s.isPrintable && printableStatements b

/-- The statements that their text is read back as. -/
def Statement.isPrintable : Statement → Bool
  | .bind x e => IsName x && e.isPrintable
  | .ret e => e.isPrintable
  | .expr e => e.isPrintable && !e.beginsWith "\x7b\x7d"
  | .block b => looksLikeBlock b && separate b && printableStatements b
  | .loop init condition step b =>
    printableInit init && printableOption condition && printableOption step && separate b &&
      printableStatements b

end

/-! ## Names, numbers and texts

What is printed as one token has to be lexed as that token again: a name must be no keyword, a
number must not be negative, and a string must come back from its quotes. -/

/-- A name has to be one that the lexer knows as a name. -/
theorem isPrintable_ident {x : String} : (Expr.ident x).isPrintable ↔ IsName x := by
  rw [Expr.isPrintable, decide_eq_true_eq]

/-- A number must not be negative: there are no negative literals. -/
theorem isPrintable_integer {n : Int64} : (Expr.integer n).isPrintable ↔ 0 ≤ n := by
  rw [Expr.isPrintable, decide_eq_true_eq]

/-- A string must not need an escape that reading does not know. -/
theorem isPrintable_string {x : String} :
    (Expr.string x).isPrintable ↔ ∀ c ∈ x.toList, Text.IsPlain c := by
  simp only [Expr.isPrintable, List.all_eq_true, decide_eq_true_eq]

/-! ## Lists -/

/-! The printable trees are defined by recursion along the tree; the lists in it are taken element
by element from here on. -/

theorem printableExprs_iff {es : List Expr} : printableExprs es ↔ ∀ e ∈ es, e.isPrintable := by
  induction es with
  | nil => simp [printableExprs]
  | cons e es ih => simp [printableExprs, ih]

theorem printableOption_iff {e : Option Expr} :
    printableOption e ↔ ∀ e' ∈ e, e'.isPrintable := by
  cases e with
  | none => simp [printableOption]
  | some e => simp [printableOption]

theorem printablePairs_iff {ps : List (Expr × Expr)} :
    printablePairs ps ↔ ∀ p ∈ ps, p.1.isPrintable ∧ p.2.isPrintable := by
  induction ps with
  | nil => simp [printablePairs]
  | cons p ps ih => simp [printablePairs, ih]

theorem printableStatements_iff {b : List Statement} :
    printableStatements b ↔ ∀ s ∈ b, s.isPrintable := by
  induction b with
  | nil => simp [printableStatements]
  | cons s b ih => simp [printableStatements, ih]

theorem printableClauses_iff {cs : List Clause} :
    printableClauses cs ↔ ∀ c ∈ cs, c.1.isPrintable ∧ separate c.2 ∧ ∀ s ∈ c.2, s.isPrintable := by
  induction cs with
  | nil => simp [printableClauses]
  | cons c cs ih => simp [printableClauses, ih, printableStatements_iff, and_assoc]

theorem isPrintable_of_printableInit {init : Option Statement} (h : printableInit init) :
    ∀ s ∈ init, s.isPrintable := by
  cases init with
  | none => simp
  | some s =>
    intro s' hs
    obtain rfl := Option.some.inj hs
    cases s with
    | bind | expr => exact h
    | ret | block | loop => cases h

end Scriptlet
