import Scriptlet.Proofs.Lex.Pieces

/-!
# Proofs/Syntax/WellFormed — trees that a text can have been read as

Trees are a larger type than what a parser makes: a name may be any text, an integer may be
negative, an `if` may be without a condition, and a loop may begin with a block.  Those that come
out of reading are well formed, at every node.  -/

namespace Scriptlet

mutual

/-- Names in the tree are words that are not reserved, integers are not negative, conditionals have
a clause, and loops do not begin with a block. -/
inductive Expr.WellFormed : Expr → Prop
  | ident {x : String} : IsName x → Expr.WellFormed (.ident x)
  | integer {n : Int64} : 0 ≤ n.toInt → n.toInt < Parse.integerLimit →
    Expr.WellFormed (.integer n)
  | string (x : String) : Expr.WellFormed (.string x)
  | boolean (b : Bool) : Expr.WellFormed (.boolean b)
  | unary (op : PrefixOp) {e : Expr} : Expr.WellFormed e → Expr.WellFormed (.unary op e)
  | binary (op : InfixOp) {l r : Expr} : Expr.WellFormed l → Expr.WellFormed r →
    Expr.WellFormed (.binary op l r)
  | call {f : Expr} {args : List Expr} : Expr.WellFormed f → (∀ e ∈ args, Expr.WellFormed e) →
    Expr.WellFormed (.call f args)
  | index {e k : Expr} : Expr.WellFormed e → Expr.WellFormed k → Expr.WellFormed (.index e k)
  | array {es : List Expr} : (∀ e ∈ es, Expr.WellFormed e) → Expr.WellFormed (.array es)
  | hash {ps : List (Expr × Expr)} : (∀ p ∈ ps, Expr.WellFormed p.1) →
    (∀ p ∈ ps, Expr.WellFormed p.2) → Expr.WellFormed (.hash ps)
  | function {ps : List Param} {b : Block} : (∀ p ∈ ps, IsName p.name) →
    (∀ s ∈ b, Statement.WellFormed s) → Expr.WellFormed (.function ps b)
  | conditional {cs : List Clause} {alternative : Option Block} : cs ≠ [] →
    (∀ c ∈ cs, Expr.WellFormed c.1) → (∀ c ∈ cs, ∀ s ∈ c.2, Statement.WellFormed s) →
    (∀ b ∈ alternative, ∀ s ∈ b, Statement.WellFormed s) →
    Expr.WellFormed (.conditional cs alternative)

/-- The same of statements; that a loop does not begin with a block is asked for here. -/
inductive Statement.WellFormed : Statement → Prop
  | bind {x : String} {e : Expr} : IsName x → Expr.WellFormed e →
    Statement.WellFormed (.bind x e)
  | ret {e : Expr} : Expr.WellFormed e → Statement.WellFormed (.ret e)
  | expr {e : Expr} : Expr.WellFormed e → Statement.WellFormed (.expr e)
  | block {b : Block} : (∀ s ∈ b, Statement.WellFormed s) → Statement.WellFormed (.block b)
  | loop {init : Option Statement} {condition step : Option Expr} {b : Block} :
    (∀ s ∈ init, Statement.WellFormed s) → (∀ s ∈ init, ∀ body, s ≠ .block body) →
    (∀ e ∈ condition, Expr.WellFormed e) → (∀ e ∈ step, Expr.WellFormed e) →
    (∀ s ∈ b, Statement.WellFormed s) → Statement.WellFormed (.loop init condition step b)

end

/-- All statements of the block are well formed. -/
def Block.WellFormed (b : Block) : Prop := ∀ s ∈ b, s.WellFormed

end Scriptlet
