import Scriptlet.Proofs.Eval.Giving
import Scriptlet.Proofs.Value.Data

/-!
# Proofs/Eval/Literals — what literals of data are evaluated to

Under all limits, in every scope and on every machine, the literal of a piece of data gives that
data anew: it makes arrays and hashes and does nothing else.  So its parts can be evaluated one
after another, on the machine that each one leaves, and still each gives its own data.  -/

namespace Scriptlet

open Eval

/-- From `m` to `m'` values were made, and nothing else was done. -/
structure Machine.OnlyMade (m m' : Machine) : Prop where
  scopes : m'.store.scopes = m.store.scopes
  depth : m'.depth = m.depth

namespace Machine.OnlyMade

/-! What was made can only be told by its identity: scopes, bindings and active calls are as before.
-/

theorem refl (m : Machine) : m.OnlyMade m := ⟨rfl, rfl⟩

/-- Making some values and then others is making them all. -/
theorem trans {m₁ m₂ m₃ : Machine} (h : m₁.OnlyMade m₂) (h' : m₂.OnlyMade m₃) : m₁.OnlyMade m₃ :=
  ⟨h'.scopes.trans h.scopes, h'.depth.trans h.depth⟩

/-- An identity that is given out is all that a new value takes. -/
theorem spent (m : Machine) : m.OnlyMade m.spent := ⟨rfl, rfl⟩

end Machine.OnlyMade

/-- Wherever it is evaluated, the expression gives the data `v` and does nothing but make it. -/
def Expr.Evaluates (e : Expr) (v : Value) : Prop :=
  ∀ (limits : Limits) (i : ScopeId) (m : Machine), ∃ v' m',
    (Task.expr i e).Gives limits m (some v') m' ∧ v.Equal v' ∧ m.OnlyMade m'

variable {limits : Limits} {i : ScopeId} {m : Machine}

/-! ## Integers, booleans and strings -/

theorem evaluates_integer (n : Int64) : (Expr.integer n).Evaluates (.integer n) :=
  fun _ _ m => ⟨_, m, settles_succ.mp (.const rfl rfl), .integer n, .refl m⟩

theorem evaluates_boolean (b : Bool) : (Expr.boolean b).Evaluates (.boolean b) :=
  fun _ _ m => ⟨_, m, settles_succ.mp (.const rfl rfl), .boolean b, .refl m⟩

theorem evaluates_string (s : String) : (Expr.string s).Evaluates (.string s) :=
  fun _ _ m => ⟨_, m, settles_succ.mp (.const rfl rfl), .string s, .refl m⟩

/-- A negative number is written with a minus sign before a number that gives its opposite. -/
theorem evaluates_neg {e : Expr} {n : Int64} (h : e.Evaluates (.integer n)) :
    (Expr.unary .neg e).Evaluates (.integer (-n)) := by
  intro limits i m
  obtain ⟨v, m', hv, hequal, hmade⟩ := h limits i m
  cases hequal
  refine ⟨.integer (-n), m', settles_succ.mp ?_, .integer (-n), hmade⟩
  simp only [Task.eval, Expr.eval]
  exact hv.operand.bind (.const rfl rfl)

/-! ## Arrays

The elements are evaluated one after another, each to a copy of its own; the array is made of the
copies. -/

/-- A list of literals gives the data that they are literals of, in their order. -/
theorem values_evaluate {es : List Value} {literal : Value → Expr}
    (h : ∀ v ∈ es, (literal v).Evaluates v) (limits : Limits) (i : ScopeId) (m : Machine) :
    ∃ (vs : List Value) (m' : Machine), (Task.values i (es.map literal)).Gives limits m vs m' ∧
      List.Forall₂ Value.Equal es vs ∧ m.OnlyMade m' := by
  induction es generalizing m with
  | nil => exact ⟨[], m, .const rfl rfl, .nil, .refl m⟩
  | cons e es ih =>
    obtain ⟨he, hes⟩ := List.forall_mem_cons.mp h
    obtain ⟨v, m₁, hv, hequal, hmade⟩ := he limits i m
    obtain ⟨vs, m₂, hvs, hequals, hmade'⟩ := ih hes m₁
    exact ⟨v :: vs, m₂, hv.operand.bind (hvs.bind (.const rfl rfl)), .cons hequal hequals,
      hmade.trans hmade'⟩

/-- **The literal of an array gives that array anew**, if the literals of its elements do so. -/
theorem evaluates_array {es : List Value} {literal : Value → Expr}
    (h : ∀ v ∈ es, (literal v).Evaluates v) (id : Identity) :
    (Expr.array (es.map literal)).Evaluates (.array id es) := by
  intro limits i m
  obtain ⟨vs, m', hvs, hequals, hmade⟩ := values_evaluate h limits i m
  refine ⟨.array m'.store.nextId vs, m'.spent, settles_succ.mp ?_, .array hequals,
    hmade.trans (.spent m')⟩
  simp only [Task.eval, Expr.eval]
  exact hvs.bind (.const rfl rfl)

/-! ## Hashes

The entries are written in some order and inserted one by one.  As their keys are different, none
replaces another, so the hash has them all, whatever the order. -/

/-- With keys that are all different, the entries are put one behind the other. -/
theorem entries_evaluate {ps done : List HashEntry} {literal : HashEntry → Expr × Expr}
    (h : ∀ p ∈ ps, (literal p).1.Evaluates p.2.key ∧ (literal p).2.Evaluates p.2.value)
    (hnamed : ∀ p ∈ ps, p.2.key.hashKey? = some p.1)
    (hnodup : ((done ++ ps).map Prod.fst).Nodup) (limits : Limits) (i : ScopeId) (m : Machine) :
    ∃ (qs : List HashEntry) (m' : Machine),
      (Task.entries i (ps.map literal) done).Gives limits m (done ++ qs) m' ∧
        List.Forall₂ (EntryRel (HashPair.Rel Value.Equal)) ps qs ∧ m.OnlyMade m' := by
  induction ps generalizing m done with
  | nil => exact ⟨[], m, .const (by rw [List.append_nil]; rfl) rfl, .nil, .refl m⟩
  | cons p ps ih =>
    obtain ⟨⟨hkey, hvalue⟩, hps⟩ := List.forall_mem_cons.mp h
    obtain ⟨hp, hnamed⟩ := List.forall_mem_cons.mp hnamed
    obtain ⟨k, m₁, hk, hequal, hmade₁⟩ := hkey limits i m
    obtain ⟨v, m₂, hv, hequalv, hmade₂⟩ := hvalue limits i m₁
    obtain rfl := hequal.of_hashKey? hp
    have hkeys : ((done.map Prod.fst) ++ p.1 :: ps.map Prod.fst).Nodup := by
      rwa [List.map_append] at hnodup
    have hnew : p.1 ∉ done.map Prod.fst := fun hmem =>
      (List.nodup_append.mp hkeys).2.2 p.1 hmem p.1 List.mem_cons_self rfl
    have hkeys' : ((done ++ [((p.1, ⟨p.2.key, v⟩) : HashEntry)] ++ ps).map Prod.fst).Nodup := by
      simpa using hkeys
    obtain ⟨qs, m₃, hqs, hequals, hmade₃⟩ := ih hps hnamed hkeys' m₂
    rw [List.append_assoc, List.singleton_append, ← insertPair_of_notMem hnew] at hqs
    refine ⟨(p.1, ⟨p.2.key, v⟩) :: qs, m₃, ?_, .cons ⟨rfl, .intro hequal hequalv⟩ hequals,
      (hmade₁.trans hmade₂).trans hmade₃⟩
    have hsettles : Settles (fun _ => ofExcept p.2.key.toHashKey) m₁ (.done p.1 m₁) :=
      .ofExcept (Value.toHashKey_eq_ok_iff.mpr hp)
    exact hk.operand.bind (hsettles.bind (hv.operand.bind hqs))

/-- **The literal of a hash gives that hash anew**, with its entries written in any order. -/
theorem evaluates_hash {ps qs : List HashEntry} {literal : HashEntry → Expr × Expr}
    (h : ∀ p ∈ ps, (literal p).1.Evaluates p.2.key ∧ (literal p).2.Evaluates p.2.value)
    (hkeyed : WellKeyed ps) (hperm : ps.Perm qs) (id : Identity) :
    (Expr.hash (ps.map literal)).Evaluates (.hash id qs) := by
  intro limits i m
  have hnodup : (([] ++ ps).map Prod.fst).Nodup := hkeyed.nodup
  obtain ⟨rs, m', hrs, hequals, hmade⟩ := entries_evaluate h hkeyed.named hnodup limits i m
  refine ⟨.hash m'.store.nextId rs, m'.spent, settles_succ.mp ?_, .hash fun key => ?_,
    hmade.trans (.spent m')⟩
  · simp only [Task.eval, Expr.eval]
    exact hrs.bind (.const rfl rfl)
  · rw [← lookup_eq_of_perm hperm hkeyed.nodup]
    exact rel_lookup hequals key

/-! ## Programs

A program that is one expression ends as the expression does, and null stands in if that gives
nothing. -/

/-- A program ends as its statements in a row do. -/
theorem Program.Ends.of_row {b : Block} {o : Outcome (Option Value)}
    (h : Settles (fun n => (Task.row i b none).eval limits n) m o) :
    Program.Ends limits i b m o := by
  obtain ⟨hfinished, fuel, hrun⟩ := h
  exact ⟨hfinished, fuel, hrun fuel (Nat.le_refl fuel)⟩

/-- The program that is one expression ends with what the expression gives. -/
theorem Program.Ends.of_expr {e : Expr} {m' : Machine} {r : Option Value}
    (h : (Task.expr i e).Gives limits m r m') : Program.Ends limits i [.expr e] m (.done r m') := by
  have hstatement : Settles (fun n => Statement.eval limits n i (.expr e)) m (.done r m') := by
    refine settles_succ.mp ?_
    simp only [Statement.eval]
    exact h
  exact .of_row (hstatement.bind (.const rfl rfl))

end Scriptlet
