import Scriptlet.Eval.Basic

/-!
# Proofs/Syntax/Relabel — other names in a program tree

Every name in a tree is replaced by its image under a function: variables, parameters, and what is
bound or assigned.  Nothing else changes, so a tree keeps its form.
-/

namespace Scriptlet

variable (r : String → String)

/-- The parameter under another name; that it is variadic stays. -/
def Param.relabel (p : Param) : Param := { p with name := r p.name }

mutual

/-- The expression with its names replaced. -/
def Expr.relabel : Expr → Expr
  | .ident x => .ident (r x)
  | .integer n => .integer n
  | .string s => .string s
  | .boolean b => .boolean b
  | .unary op e => .unary op e.relabel
  | .binary op left right => .binary op left.relabel right.relabel
  | .call f args => .call f.relabel (relabelExprs args)
  | .index e k => .index e.relabel k.relabel
  | .array es => .array (relabelExprs es)
  | .hash ps => .hash (relabelPairs ps)
  | .function params body => .function (params.map (Param.relabel r)) (relabelStatements body)
  | .conditional cs alternative =>
    .conditional (relabelClauses cs) (relabelAlternative alternative)

/-- Elements or arguments. -/
def relabelExprs : List Expr → List Expr
  | [] => []
  | e :: es => e.relabel :: relabelExprs es

/-- Keys and values of a hash literal. -/
def relabelPairs : List (Expr × Expr) → List (Expr × Expr)
  | [] => []
  | (k, v) :: ps => (k.relabel, v.relabel) :: relabelPairs ps

/-- Conditions and branches. -/
def relabelClauses : List (Expr × List Statement) → List (Expr × List Statement)
  | [] => []
  | (c, b) :: cs => (c.relabel, relabelStatements b) :: relabelClauses cs

def relabelAlternative : Option (List Statement) → Option (List Statement)
  | none => none
  | some b => some (relabelStatements b)

def relabelOption : Option Expr → Option Expr
  | none => none
  | some e => some e.relabel

/-- The first clause of a loop header may bind a name. -/
def relabelInit : Option Statement → Option Statement
  | none => none
  | some s => some s.relabel

def relabelStatements : List Statement → List Statement
  | [] => []
  | s :: ss => s.relabel :: relabelStatements ss

/-- The statement with its names replaced. -/
def Statement.relabel : Statement → Statement
  | .bind x e => .bind (r x) e.relabel
  | .ret e => .ret e.relabel
  | .expr e => .expr e.relabel
  | .block b => .block (relabelStatements b)
  | .loop init condition step body =>
    .loop (relabelInit init) (relabelOption condition) (relabelOption step)
      (relabelStatements body)

end

/-- All statements of the block. -/
def Block.relabel (b : Block) : Block := b.map (Statement.relabel r)

def Clause.relabel (c : Clause) : Clause := (c.1.relabel r, c.2.relabel r)

/-- All statements of the program. -/
def Program.relabel (p : Program) : Program := p.map (Statement.relabel r)

/-! ## Lists of parts

The recursion goes through lists of parts by functions of its own, which are the maps over these
lists. -/

/-! As maps the recursions above can be taken element by element. -/

theorem relabelExprs_eq (es : List Expr) : relabelExprs r es = es.map (Expr.relabel r) := by
  induction es with
  | nil => rfl
  | cons e es ih => rw [relabelExprs, ih, List.map_cons]

theorem relabelPairs_eq (ps : List (Expr × Expr)) :
    relabelPairs r ps = ps.map (Prod.map (Expr.relabel r) (Expr.relabel r)) := by
  induction ps with
  | nil => rfl
  | cons p ps ih => rw [relabelPairs, ih, List.map_cons, Prod.map]

theorem relabelStatements_eq (b : Block) : relabelStatements r b = Block.relabel r b := by
  induction b with
  | nil => rfl
  | cons s b ih => rw [relabelStatements, ih, Block.relabel, Block.relabel, List.map_cons]

theorem relabelClauses_eq (cs : List Clause) :
    relabelClauses r cs = cs.map (Clause.relabel r) := by
  induction cs with
  | nil => rfl
  | cons c cs ih => rw [relabelClauses, ih, List.map_cons, Clause.relabel, relabelStatements_eq]

theorem relabelAlternative_eq (alternative : Option Block) :
    relabelAlternative r alternative = alternative.map (Block.relabel r) := by
  cases alternative with
  | none => rfl
  | some b => rw [relabelAlternative, relabelStatements_eq, Option.map_some]

theorem relabelOption_eq (e : Option Expr) : relabelOption r e = e.map (Expr.relabel r) := by
  cases e <;> rfl

/-! ## Parameters keep their number and their kind -/

/-- That only the last parameter is variadic does not depend on names. -/
theorem variadicLast_relabel (ps : List Param) :
    variadicLast (ps.map (Param.relabel r)) = variadicLast ps := by
  simp only [variadicLast, ← List.map_dropLast, List.any_map]
  rfl

theorem accepts_relabel (ps : List Param) (count : Nat) :
    Eval.accepts (ps.map (Param.relabel r)) count = Eval.accepts ps count := by
  simp only [Eval.accepts, List.getLast?_map, List.length_map, Option.any_map]
  rfl

end Scriptlet
