import Scriptlet.Eval.Basic

/-!
# Proofs/Eval/CutOff — two computations that differ only where one of them is cut off

Fuel and limits end a run; nothing else about a run depends on them.  So one computation is *within*
another when, on every machine, it is cut off or ends exactly as the other one does.  Every way of
putting computations together keeps this (`Within.bind`, `Within.call`, …), hence evaluation with
less fuel and tighter limits is within evaluation with more (`eval_within`).

What counts as cut off is a parameter `cut`: with no error in it, only fuel differs between the two;
with the errors of limits in it, the limits may differ too.
-/

namespace Scriptlet

variable {α β : Type} {cut : RuntimeError → Prop}

/-- The error says that a limit of the host was reached. -/
def RuntimeError.isLimit : RuntimeError → Bool
  | .stackOverflow _ => true
  | .iterationLimit _ => true
  | _ => false

/-- The run was **cut off**: the fuel did not suffice, or an error in `cut` ended it. -/
def Outcome.CutOff (cut : RuntimeError → Prop) : Outcome α → Prop
  | .outOfFuel => True
  | .unwound (.failed e) _ => cut e
  | _ => False

/-- The looser limits allow at least as deep calls, and at least as many rounds or any number. -/
instance : LE Limits where
  le tight loose := tight.maxDepth ≤ loose.maxDepth ∧
    ∀ most ∈ loose.maxIterations, ∃ fewer ∈ tight.maxIterations, fewer ≤ most

theorem Limits.le_refl (limits : Limits) : limits ≤ limits :=
  ⟨Nat.le_refl _, fun most h => ⟨most, h, Nat.le_refl _⟩⟩

namespace Eval

/-- On every machine `x` is cut off, or else `y` ends exactly as `x` does. -/
def Within (cut : RuntimeError → Prop) (x y : Eval α) : Prop :=
  ∀ m, (x m).CutOff cut ∨ x m = y m

namespace Within

theorem refl (x : Eval α) : Within cut x x := fun _ => .inr rfl

/-- Without fuel a run is cut off, whatever the other one does. -/
theorem outOfFuel (y : Eval α) : Within cut Eval.outOfFuel y := fun _ => .inl trivial

theorem fail {e : RuntimeError} (h : cut e) (y : Eval α) : Within cut (Eval.fail e) y :=
  fun _ => .inl h

/-- **A row of two computations is cut off where one of the two is.** -/
theorem bind {x y : Eval α} {f g : α → Eval β} (hxy : Within cut x y)
    (hfg : ∀ a, Within cut (f a) (g a)) : Within cut (x >>= f) (y >>= g) := by
  intro m
  rw [bind_apply, bind_apply]
  rcases hxy m with h | h
  · left
    rcases hx : x m with ⟨a, m'⟩ | ⟨v | e, m'⟩ | _
    all_goals rw [hx] at h
    · exact h.elim
    · exact h.elim
    · exact h
    · trivial
  · rw [← h]
    rcases x m with ⟨a, m'⟩ | ⟨why, m'⟩ | _
    · exact hfg a m'
    · exact .inr rfl
    · exact .inl trivial

/-- What ends alike is required alike. -/
theorem required {x y : Eval (Option Value)} (h : Within cut x y) :
    Within cut (required x) (required y) := by
  refine bind h fun a => ?_
  cases a <;> exact refl _

theorem operand {x y : Eval (Option Value)} (h : Within cut x y) :
    Within cut (operand x) (operand y) :=
  bind h fun _ => refl _

/-! ## Calls

With a looser limit, or with more fuel, a call that was entered is entered still; a call that
overflowed may be entered now. -/

/-- That one more call is active does not matter to how a run ends. -/
theorem nested {x y : Eval α} (h : Within cut x y) : Within cut (nested x) (nested y) := by
  intro m
  unfold Eval.nested
  rcases h { m with depth := m.depth + 1 } with hx | hx
  · left
    rcases hxm : x { m with depth := m.depth + 1 } with ⟨a, m'⟩ | ⟨v | e, m'⟩ | _
    all_goals rw [hxm] at hx
    · exact hx.elim
    · exact hx.elim
    · exact hx
    · trivial
  · rw [hx]
    exact .inr rfl

/-- A return is caught on both sides, or the one run is cut off. -/
theorem catchReturn {x y : Eval (Option Value)} (h : Within cut x y) :
    Within cut (catchReturn x) (catchReturn y) := by
  intro m
  unfold Eval.catchReturn
  rcases h m with hx | hx
  · left
    rcases hxm : x m with ⟨a, m'⟩ | ⟨v | e, m'⟩ | _
    all_goals rw [hxm] at hx
    · exact hx.elim
    · exact hx.elim
    · exact hx
    · trivial
  · rw [hx]
    exact .inr rfl

/-- **A call under tighter limits.**  Where only the tighter limit strikes, the run is cut off. -/
theorem call {tight loose : Limits} (hle : tight ≤ loose)
    (hcut : tight = loose ∨ ∀ e, e.isLimit → cut e)
    {run run' : ScopeId → Block → Eval (Option Value)}
    (hrun : ∀ scope b, Within cut (run scope b) (run' scope b)) (callee : Value)
    (args : List Value) :
      Within cut (call tight run callee args) (call loose run' callee args) := by
  cases callee with
  | function id params body captured =>
    refine bind (refl _) fun d => ?_
    by_cases hd : tight.maxDepth ≤ d
    · rcases hcut with rfl | hcut
      · simp only [if_pos hd]
        exact refl _
      · rw [if_pos hd]
        exact fail (hcut (.stackOverflow _) rfl) _
    · have hd' : ¬ loose.maxDepth ≤ d := fun h => hd (Nat.le_trans hle.1 h)
      rw [if_neg hd, if_neg hd']
      exact bind (refl _) fun scope => catchReturn (nested (hrun scope body))
  | _ => exact refl _

/-! ## Statements in a row, choices and loops

What ends in the same way is followed by the same; only where the first computation was cut off may
the two differ. -/

/-- Statements in a row, by induction on the row. -/
theorem sequence {run run' : Statement → Eval (Option Value)}
    (h : ∀ s, Within cut (run s) (run' s)) (b : Block) (last : Option Value) :
    Within cut (sequence run b last) (sequence run' b last) := by
  induction b generalizing last with
  | nil => exact refl _
  | cons s ss ih => exact bind (h s) ih

/-- A condition that is evaluated on both sides chooses the same branch. -/
theorem choose {test test' : Expr → Eval Value} {run run' : Block → Eval (Option Value)}
    (htest : ∀ e, Within cut (test e) (test' e)) (hrun : ∀ b, Within cut (run b) (run' b))
    (clauses : List Clause) (alternative : Option Block) :
    Within cut (choose test run clauses alternative) (choose test' run' clauses alternative) := by
  induction clauses with
  | nil =>
    cases alternative with
    | none => exact refl _
    | some b => exact hrun b
  | cons c cs ih =>
    refine bind (htest c.1) fun v => ?_
    split
    · exact hrun c.2
    · exact ih

/-- Under a tighter limit a round is cut off, or allowed by both limits. -/
theorem allowRound {tight loose : Limits} (hle : tight ≤ loose)
    (hcut : tight = loose ∨ ∀ e, e.isLimit → cut e) (finished : Nat) :
    Within cut (allowRound tight.maxIterations finished)
      (allowRound loose.maxIterations finished) := by
  rcases hcut with rfl | hcut
  · exact refl _
  unfold Eval.allowRound
  rcases hloose : loose.maxIterations with _ | most
  · split
    · split
      · exact fail (hcut (.iterationLimit _) rfl) _
      · exact refl _
    · exact refl _
  · obtain ⟨fewer, htight, hmost⟩ := hle.2 most hloose
    rw [Option.mem_def.mp htight]
    dsimp only
    by_cases hf : fewer ≤ finished
    · rw [if_pos hf]
      exact fail (hcut (.iterationLimit _) rfl) _
    · have hm : ¬ most ≤ finished := fun h => hf (Nat.le_trans hmost h)
      rw [if_neg hf, if_neg hm]
      exact refl _

/-- **A loop with less fuel and a tighter limit.** -/
theorem repeatWhile {tight loose : Limits} (hle : tight ≤ loose)
    (hcut : tight = loose ∨ ∀ e, e.isLimit → cut e) {test test' : Eval Bool}
    {body body' step step' : Eval (Option Value)} (htest : Within cut test test')
    (hbody : Within cut body body') (hstep : Within cut step step') {n n' : Nat} (hn : n ≤ n')
    (finished : Nat) :
    Within cut (repeatWhile tight.maxIterations test body step n finished)
      (repeatWhile loose.maxIterations test' body' step' n' finished) := by
  induction n generalizing n' finished with
  | zero => exact outOfFuel _
  | succ n ih =>
    obtain ⟨k, rfl⟩ : ∃ k, n' = k + 1 := ⟨n' - 1, by omega⟩
    refine bind htest fun holds => ?_
    split
    · exact bind (allowRound hle hcut finished) fun _ => bind hbody fun _ => bind hstep fun _ =>
        ih (Nat.le_of_succ_le_succ hn) (finished + 1)
    · exact refl _

/-- A clause of a loop header, and what stands in for it if it is not there. -/
theorem clause {clause clause' : Expr → Eval α} (h : ∀ e, Within cut (clause e) (clause' e))
    (absent : Eval α) (e : Option Expr) :
    Within cut (match e with | some e => clause e | none => absent)
      (match e with | some e => clause' e | none => absent) := by
  cases e with
  | none => exact refl _
  | some e => exact h e

/-! ## Literals -/

/-- Elements, by induction on the list. -/
theorem values {value value' : Expr → Eval Value} (h : ∀ e, Within cut (value e) (value' e))
    (es : List Expr) : Within cut (values value es) (values value' es) := by
  induction es with
  | nil => exact refl _
  | cons e es ih => exact bind (h e) fun _ => bind ih fun _ => refl _

/-- Entries, by induction on the list: an entry comes from a key and a value that both runs
evaluated alike. -/
theorem entries {value value' : Expr → Eval Value} (h : ∀ e, Within cut (value e) (value' e))
    (ps : List (Expr × Expr)) (done : List HashEntry) :
    Within cut (entries value ps done) (entries value' ps done) := by
  induction ps generalizing done with
  | nil => exact refl _
  | cons p ps ih =>
    exact bind (h p.1) fun _ => bind (refl _) fun _ => bind (h p.2) fun _ => ih _

end Within

end Eval

/-! ## Evaluation

By induction on the smaller fuel: every part of an expression or a statement is evaluated with one
unit less of either fuel. -/

open Eval

/-- **Less fuel and tighter limits only cut evaluation off**, of expressions and statements alike.
-/
theorem eval_within {tight loose : Limits} (hle : tight ≤ loose)
    (hcut : tight = loose ∨ ∀ e, e.isLimit → cut e) {n n' : Nat} (hn : n ≤ n') :
    (∀ scope e, Within cut (Expr.eval tight n scope e) (Expr.eval loose n' scope e)) ∧
      ∀ scope s, Within cut (Statement.eval tight n scope s) (Statement.eval loose n' scope s) := by
  induction n generalizing n' with
  | zero =>
    refine ⟨fun scope e => ?_, fun scope s => ?_⟩
    · rw [Expr.eval]
      exact .outOfFuel _
    · rw [Statement.eval]
      exact .outOfFuel _
  | succ n ih =>
    -- The larger fuel is not used up either, so its parts have one unit less as well.
    obtain ⟨k, rfl⟩ : ∃ k, n' = k + 1 := ⟨n' - 1, by omega⟩
    obtain ⟨hexpr, hstmt⟩ := ih (Nat.le_of_succ_le_succ hn)
    have hval : ∀ scope e, Within cut (operand (Expr.eval tight n scope e))
        (operand (Expr.eval loose k scope e)) := fun scope e => (hexpr scope e).operand
    have hblock : ∀ scope b, Within cut
        (sequence (fun s => Statement.eval tight n scope s) b none)
        (sequence (fun s => Statement.eval loose k scope s) b none) :=
      fun scope b => .sequence (hstmt scope) b none
    refine ⟨fun scope e => ?_, fun scope s => ?_⟩
    -- Each form puts its parts together in the same way under both limits; only calls and loops
    -- look at them.
    · cases e with
      | ident | integer | string | boolean =>
        simp only [Expr.eval]
        exact .refl _
      | unary op e =>
        simp only [Expr.eval]
        exact .bind (hval scope e) fun _ => .refl _
      | binary op l r =>
        by_cases hop : op = .assign
        · subst hop
          cases l with
          | ident x =>
            simp only [Expr.eval]
            exact .bind (hexpr scope r).required fun _ => .refl _
          | _ =>
            simp only [Expr.eval]
            exact .refl _
        · simp only [Expr.eval]
          exact .bind (hval scope l) fun _ => .bind (hval scope r) fun _ => .refl _
      | conditional cs alt =>
        simp only [Expr.eval]
        exact .choose (hval scope) (fun b => .bind (.refl _) fun inner => hblock inner b) cs alt
      | function ps b =>
        simp only [Expr.eval]
        exact .refl _
      | call f args =>
        simp only [Expr.eval]
        exact .bind (hval scope f) fun callee => .bind (.values (hval scope) args) fun vs =>
          .call hle hcut hblock callee vs
      | array es =>
        simp only [Expr.eval]
        exact .bind (.values (hval scope) es) fun _ => .refl _
      | hash ps =>
        simp only [Expr.eval]
        exact .bind (.entries (hval scope) ps []) fun _ => .refl _
      | index e key =>
        simp only [Expr.eval]
        exact .bind (hval scope e) fun _ => .bind (hval scope key) fun _ => .refl _
    · cases s with
      | bind x e =>
        simp only [Statement.eval]
        exact .bind (hexpr scope e).required fun _ => .refl _
      | ret e =>
        simp only [Statement.eval]
        exact .bind (hval scope e) fun _ => .refl _
      | expr e =>
        simp only [Statement.eval]
        exact hexpr scope e
      | block b =>
        simp only [Statement.eval]
        exact .bind (.refl _) fun inner => hblock inner b
      | loop init condition step body =>
        have htest : ∀ c, Within cut (do return (← operand (Expr.eval tight n scope c)).truthy)
            (do return (← operand (Expr.eval loose k scope c)).truthy) :=
          fun c => .bind (hval scope c) fun _ => .refl _
        have hbody := Within.bind (.refl (enclose scope)) fun inner => hblock inner body
        have hloop := Within.repeatWhile hle hcut (.clause htest (return true) condition) hbody
          (.clause (hexpr scope) (return none) step) (Nat.le_of_succ_le_succ hn) 0
        simp only [Statement.eval]
        cases init with
        | none => exact .bind hloop fun _ => .refl _
        | some s => exact .bind (hstmt scope s) fun _ => .bind hloop fun _ => .refl _

end Scriptlet
