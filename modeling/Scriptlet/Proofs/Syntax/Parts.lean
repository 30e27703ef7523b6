import Mathlib.Logic.Relation
import Scriptlet.Proofs.Syntax.WellFormed

/-!
# Proofs/Syntax/Parts — what occurs in a program

Expressions hold statements and statements expressions, so what occurs in a program is found by
going down from part to part, through both kinds of trees.  A part of a well-formed tree is well
formed.  -/

namespace Scriptlet

/-- An expression or a statement. -/
inductive Tree where
  | expr (e : Expr)
  | statement (s : Statement)

namespace Tree

/-- The trees right below the root. -/
def parts : Tree → List Tree
  | expr (.ident _) | expr (.integer _) | expr (.string _) | expr (.boolean _) => []
  | expr (.unary _ e) => [expr e]
  | expr (.binary _ l r) => [expr l, expr r]
  | expr (.call f args) => expr f :: args.map expr
  | expr (.index e k) => [expr e, expr k]
  | expr (.array es) => es.map expr
  | expr (.hash ps) => ps.flatMap fun p => [expr p.1, expr p.2]
  | expr (.function _ b) => b.map statement
  | expr (.conditional cs alternative) =>
    cs.flatMap (fun c => expr c.1 :: c.2.map statement) ++
      alternative.toList.flatMap fun b => b.map statement
  | statement (.bind _ e) | statement (.ret e) | statement (.expr e) => [expr e]
  | statement (.block b) => b.map statement
  | statement (.loop init condition step b) =>
    init.toList.map statement ++ (condition.toList ++ step.toList).map expr ++ b.map statement

/-- The tree `u` stands in `t`, at the root or anywhere below it. -/
def Contains (t u : Tree) : Prop := Relation.ReflTransGen (fun t u => u ∈ t.parts) t u

/-- A tree of either kind is well formed. -/
def WellFormed : Tree → Prop
  | expr e => e.WellFormed
  | statement s => s.WellFormed

variable {t u : Tree}

open List in
/-- The parts of a well-formed tree are well formed. -/
theorem WellFormed.parts (h : t.WellFormed) : ∀ u ∈ t.parts, u.WellFormed := by
  cases t with
  | expr e =>
    cases (h : e.WellFormed) with
    | ident | integer | string | boolean => exact forall_mem_nil _
    | unary op he => exact forall_mem_singleton.mpr he
    | binary op hl hr => exact forall_mem_cons.mpr ⟨hl, forall_mem_singleton.mpr hr⟩
    | call hf hargs => exact forall_mem_cons.mpr ⟨hf, forall_mem_map.mpr hargs⟩
    | index he hk => exact forall_mem_cons.mpr ⟨he, forall_mem_singleton.mpr hk⟩
    | array hes => exact forall_mem_map.mpr hes
    | hash hks hvs =>
      refine forall_mem_flatMap.mpr fun p hp => ?_
      exact forall_mem_cons.mpr ⟨hks p hp, forall_mem_singleton.mpr (hvs p hp)⟩
    | function hps hb => exact forall_mem_map.mpr hb
    | conditional hne hconditions hbodies halternative =>
      refine forall_mem_append.mpr ⟨forall_mem_flatMap.mpr fun c hc => ?_,
        forall_mem_flatMap.mpr fun b hb => ?_⟩
      · exact forall_mem_cons.mpr ⟨hconditions c hc, forall_mem_map.mpr (hbodies c hc)⟩
      · exact forall_mem_map.mpr (halternative b (Option.mem_toList.mp hb))
  | statement s =>
    cases (h : s.WellFormed) with
    | bind hx he => exact forall_mem_singleton.mpr he
    | ret he | expr he => exact forall_mem_singleton.mpr he
    | block hb => exact forall_mem_map.mpr hb
    | loop hinit hblock hcondition hstep hb =>
      refine forall_mem_append.mpr ⟨forall_mem_append.mpr ⟨?_, ?_⟩, forall_mem_map.mpr hb⟩
      · exact forall_mem_map.mpr fun s hs => hinit s (Option.mem_toList.mp hs)
      · refine forall_mem_map.mpr (forall_mem_append.mpr ⟨fun e he => ?_, fun e he => ?_⟩)
        · exact hcondition e (Option.mem_toList.mp he)
        · exact hstep e (Option.mem_toList.mp he)

/-- **What stands in a well-formed tree is well formed.** -/
theorem WellFormed.of_contains (h : t.WellFormed) (hu : t.Contains u) : u.WellFormed := by
  induction hu with
  | refl => exact h
  | tail _ hpart ih => exact ih.parts _ hpart

end Tree

/-- The statement occurs in the program, at any depth. -/
def Program.Contains (p : Program) (s : Statement) : Prop :=
  ∃ r ∈ p, (Tree.statement r).Contains (.statement s)

/-- **A statement that occurs in a well-formed program is well formed.** -/
theorem Program.Contains.wellFormed {p : Program} {s : Statement} (h : p.Contains s)
    (hp : Block.WellFormed p) : s.WellFormed := by
  obtain ⟨r, hr, hs⟩ := h
  have hroot : (Tree.statement r).WellFormed := hp r hr
  exact hroot.of_contains hs

end Scriptlet
