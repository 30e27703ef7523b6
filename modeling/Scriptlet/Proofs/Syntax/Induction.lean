import Scriptlet.Syntax.Basic

/-!
# Proofs/Syntax/Induction — induction over program trees

Expressions and statements contain each other, through lists of several shapes.  `Inductive` says of
a property of expressions and one of statements that each tree has its own if its parts do, the
parts taken as members of the lists; then all trees have them.  -/

namespace Scriptlet

/-- A tree has the property if its parts have theirs. -/
structure Inductive (P : Expr → Prop) (Q : Statement → Prop) : Prop where
  ident : ∀ x, P (.ident x)
  integer : ∀ n, P (.integer n)
  string : ∀ x, P (.string x)
  boolean : ∀ b, P (.boolean b)
  unary : ∀ op e, P e → P (.unary op e)
  binary : ∀ op l r, P l → P r → P (.binary op l r)
  call : ∀ f args, P f → (∀ e ∈ args, P e) → P (.call f args)
  index : ∀ e k, P e → P k → P (.index e k)
  array : ∀ es, (∀ e ∈ es, P e) → P (.array es)
  hash : ∀ ps, (∀ p ∈ ps, P p.1 ∧ P p.2) → P (.hash ps)
  function : ∀ ps b, (∀ s ∈ b, Q s) → P (.function ps b)
  conditional : ∀ cs alternative, (∀ c ∈ cs, P c.1 ∧ ∀ s ∈ c.2, Q s) →
    (∀ b ∈ alternative, ∀ s ∈ b, Q s) → P (.conditional cs alternative)
  bind : ∀ x e, P e → Q (.bind x e)
  ret : ∀ e, P e → Q (.ret e)
  expr : ∀ e, P e → Q (.expr e)
  block : ∀ b, (∀ s ∈ b, Q s) → Q (.block b)
  loop : ∀ init condition step b, (∀ s ∈ init, Q s) → (∀ e ∈ condition, P e) →
    (∀ e ∈ step, P e) → (∀ s ∈ b, Q s) → Q (.loop init condition step b)

namespace Inductive

variable {P : Expr → Prop} {Q : Statement → Prop}

/-! The recursion goes through the lists of a tree; each list has a statement about its members, and
no property of its own has to be thought of for it. -/

mutual

/-- **All expressions have an inductive property.** -/
theorem expression (h : Inductive P Q) : ∀ e, P e
  | .ident x => h.ident x
  | .integer n => h.integer n
  | .string x => h.string x
  | .boolean b => h.boolean b
  | .unary op e => h.unary op e (h.expression e)
  | .binary op l r => h.binary op l r (h.expression l) (h.expression r)
  | .call f args => h.call f args (h.expression f) (h.expressions args)
  | .index e k => h.index e k (h.expression e) (h.expression k)
  | .array es => h.array es (h.expressions es)
  | .hash ps => h.hash ps (h.pairs ps)
  | .function ps b => h.function ps b (h.statements b)
  | .conditional cs alternative =>
    h.conditional cs alternative (h.clauses cs) (h.alternatives alternative)

theorem expressions (h : Inductive P Q) : ∀ es : List Expr, ∀ e ∈ es, P e
  | [] => nofun
  | e :: es => List.forall_mem_cons.mpr ⟨h.expression e, h.expressions es⟩

theorem pairs (h : Inductive P Q) : ∀ ps : List (Expr × Expr), ∀ p ∈ ps, P p.1 ∧ P p.2
  | [] => nofun
  | (k, v) :: ps => List.forall_mem_cons.mpr ⟨⟨h.expression k, h.expression v⟩, h.pairs ps⟩

theorem clauses (h : Inductive P Q) :
    ∀ cs : List (Expr × List Statement), ∀ c ∈ cs, P c.1 ∧ ∀ s ∈ c.2, Q s
  | [] => nofun
  | (c, b) :: cs => List.forall_mem_cons.mpr ⟨⟨h.expression c, h.statements b⟩, h.clauses cs⟩

theorem alternatives (h : Inductive P Q) :
    ∀ alternative : Option (List Statement), ∀ b ∈ alternative, ∀ s ∈ b, Q s
  | none => nofun
  | some b => fun _ hb => Option.some.inj hb ▸ h.statements b

theorem options (h : Inductive P Q) : ∀ o : Option Expr, ∀ e ∈ o, P e
  | none => nofun
  | some e => fun _ he => Option.some.inj he ▸ h.expression e

theorem inits (h : Inductive P Q) : ∀ init : Option Statement, ∀ s ∈ init, Q s
  | none => nofun
  | some s => fun _ hs => Option.some.inj hs ▸ h.statement s

theorem statements (h : Inductive P Q) : ∀ b : List Statement, ∀ s ∈ b, Q s
  | [] => nofun
  | s :: b => List.forall_mem_cons.mpr ⟨h.statement s, h.statements b⟩

/-- **All statements have an inductive property.** -/
theorem statement (h : Inductive P Q) : ∀ s, Q s
  | .bind x e => h.bind x e (h.expression e)
  | .ret e => h.ret e (h.expression e)
  | .expr e => h.expr e (h.expression e)
  | .block b => h.block b (h.statements b)
  | .loop init condition step b =>
    h.loop init condition step b (h.inits init) (h.options condition) (h.options step)
      (h.statements b)

end

end Inductive

end Scriptlet
