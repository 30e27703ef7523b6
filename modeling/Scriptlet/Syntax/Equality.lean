import Scriptlet.Syntax.Basic

/-!
# Syntax/Equality — equality of program trees is decidable

Two trees are compared node by node; `Expr.beq_iff` and `Statement.beq_iff` say that the comparison
is equality.
-/

namespace Scriptlet

/-! The comparison follows the constructors, with one function for each kind of list in a tree, so
that it is structural. Trees of different forms are different whatever they hold. -/

mutual

def Expr.beq : Expr → Expr → Bool
  | .ident x, .ident y => x == y
  | .integer m, .integer n => m == n
  | .string s, .string t => s == t
  | .boolean a, .boolean b => a == b
  | .unary o e, .unary o' e' => o == o' && e.beq e'
  | .binary o l r, .binary o' l' r' => o == o' && l.beq l' && r.beq r'
  | .call f as, .call f' as' => f.beq f' && beqExprs as as'
  | .index e k, .index e' k' => e.beq e' && k.beq k'
  | .array es, .array es' => beqExprs es es'
  | .hash ps, .hash ps' => beqPairs ps ps'
  | .function ps b, .function ps' b' => ps == ps' && beqBlocks b b'
  | .conditional cs alt, .conditional cs' alt' => beqClauses cs cs' && beqAlternatives alt alt'
  | _, _ => false

/-- Elements or arguments, pairwise and equally many. -/
def beqExprs : List Expr → List Expr → Bool
  | [], [] => true
  | e :: es, e' :: es' => e.beq e' && beqExprs es es'
  | _, _ => false

/-- Pairs of a hash literal, in their order. -/
def beqPairs : List (Expr × Expr) → List (Expr × Expr) → Bool
  | [], [] => true
  | (k, v) :: ps, (k', v') :: ps' => k.beq k' && v.beq v' && beqPairs ps ps'
  | _, _ => false

/-- Clauses of a conditional: conditions and blocks. -/
def beqClauses : List (Expr × List Statement) → List (Expr × List Statement) → Bool
  | [], [] => true
  | (c, b) :: cs, (c', b') :: cs' => c.beq c' && beqBlocks b b' && beqClauses cs cs'
  | _, _ => false

/-- No `else` at all is different from an empty one. -/
def beqAlternatives : Option (List Statement) → Option (List Statement) → Bool
  | none, none => true
  | some b, some b' => beqBlocks b b'
  | _, _ => false

/-- Clauses of a loop header that are expressions. -/
def beqOptions : Option Expr → Option Expr → Bool
  | none, none => true
  | some e, some e' => e.beq e'
  | _, _ => false

/-- First clauses of loop headers. -/
def beqInits : Option Statement → Option Statement → Bool
  | none, none => true
  | some s, some s' => s.beq s'
  | _, _ => false

def beqBlocks : List Statement → List Statement → Bool
  | [], [] => true
  | s :: ss, s' :: ss' => s.beq s' && beqBlocks ss ss'
  | _, _ => false

def Statement.beq : Statement → Statement → Bool
  | .bind x e, .bind x' e' => x == x' && e.beq e'
  | .ret e, .ret e' => e.beq e'
  | .expr e, .expr e' => e.beq e'
  | .block b, .block b' => beqBlocks b b'
  | .loop i c s b, .loop i' c' s' b' =>
    beqInits i i' && beqOptions c c' && beqOptions s s' && beqBlocks b b'
  | _, _ => false

end

/-! The comparison is equality, by mutual recursion along it: each case splits the second tree, and
trees of another form are told apart by `simp`. -/

mutual

theorem Expr.beq_iff : ∀ a b : Expr, a.beq b = true ↔ a = b
  | .ident _, b | .integer _, b | .string _, b | .boolean _, b => by cases b <;> simp [Expr.beq]
  | .unary _ e, b => by cases b <;> simp [Expr.beq, e.beq_iff]
  | .binary _ l r, b => by cases b <;> simp [Expr.beq, l.beq_iff, r.beq_iff, and_assoc]
  | .call f as, b => by cases b <;> simp [Expr.beq, f.beq_iff, beqExprs_iff as]
  | .index e k, b => by cases b <;> simp [Expr.beq, e.beq_iff, k.beq_iff]
  | .array es, b => by cases b <;> simp [Expr.beq, beqExprs_iff es]
  | .hash ps, b => by cases b <;> simp [Expr.beq, beqPairs_iff ps]
  | .function _ body, b => by cases b <;> simp [Expr.beq, beqBlocks_iff body]
  | .conditional cs alt, b => by
    cases b <;> simp [Expr.beq, beqClauses_iff cs, beqAlternatives_iff alt]

theorem beqExprs_iff : ∀ a b : List Expr, beqExprs a b = true ↔ a = b
  | [], b => by cases b <;> simp [beqExprs]
  | e :: es, b => by cases b <;> simp [beqExprs, e.beq_iff, beqExprs_iff es]

theorem beqPairs_iff : ∀ a b : List (Expr × Expr), beqPairs a b = true ↔ a = b
  | [], b => by cases b <;> simp [beqPairs]
  | (k, v) :: ps, b => by
    rcases b with _ | ⟨⟨k', v'⟩, ps'⟩ <;> simp [beqPairs, k.beq_iff, v.beq_iff, beqPairs_iff ps]

theorem beqClauses_iff : ∀ a b : List (Expr × List Statement), beqClauses a b = true ↔ a = b
  | [], b => by cases b <;> simp [beqClauses]
  | (c, body) :: cs, b => by
    rcases b with _ | ⟨⟨c', b'⟩, cs'⟩ <;>
      simp [beqClauses, c.beq_iff, beqBlocks_iff body, beqClauses_iff cs]

theorem beqAlternatives_iff : ∀ a b : Option (List Statement), beqAlternatives a b = true ↔ a = b
  | none, b => by cases b <;> simp [beqAlternatives]
  | some body, b => by cases b <;> simp [beqAlternatives, beqBlocks_iff body]

theorem beqOptions_iff : ∀ a b : Option Expr, beqOptions a b = true ↔ a = b
  | none, b => by cases b <;> simp [beqOptions]
  | some e, b => by cases b <;> simp [beqOptions, e.beq_iff]

theorem beqInits_iff : ∀ a b : Option Statement, beqInits a b = true ↔ a = b
  | none, b => by cases b <;> simp [beqInits]
  | some s, b => by cases b <;> simp [beqInits, s.beq_iff]

theorem beqBlocks_iff : ∀ a b : List Statement, beqBlocks a b = true ↔ a = b
  | [], b => by cases b <;> simp [beqBlocks]
  | s :: ss, b => by cases b <;> simp [beqBlocks, s.beq_iff, beqBlocks_iff ss]

theorem Statement.beq_iff : ∀ a b : Statement, a.beq b = true ↔ a = b
  | .bind _ e, b => by cases b <;> simp [Statement.beq, e.beq_iff]
  | .ret e, b => by cases b <;> simp [Statement.beq, e.beq_iff]
  | .expr e, b => by cases b <;> simp [Statement.beq, e.beq_iff]
  | .block body, b => by cases b <;> simp [Statement.beq, beqBlocks_iff body]
  | .loop i c s body, b => by
    cases b <;>
      simp [Statement.beq, beqInits_iff i, beqOptions_iff c, beqOptions_iff s, beqBlocks_iff body,
        and_assoc]

end

instance : DecidableEq Expr := fun a b => decidable_of_iff _ (a.beq_iff b)

instance : DecidableEq Statement := fun a b => decidable_of_iff _ (a.beq_iff b)

end Scriptlet
