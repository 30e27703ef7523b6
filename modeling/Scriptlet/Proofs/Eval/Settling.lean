import Scriptlet.Proofs.Eval.Limits

/-!
# Proofs/Eval/Settling — computations with fuel enough

A computation that takes fuel **settles** on a machine when from some amount of fuel on it ends in
one and the same way; it **halts** when it settles at all.  A row of two halts if the first one does
and, wherever that ends with a value, the second one does; how much fuel either takes is no longer
asked.
-/

namespace Scriptlet

/-- The machine with a new scope inside `scope`, at the place that was next. -/
def Machine.enclosed (m : Machine) (scope : ScopeId) : Machine :=
  { m with store := m.store.addScope (some scope) }

namespace Eval

variable {α β : Type} {m : Machine}

/-- From some amount of fuel on, the computation ends with the outcome. -/
def Settles (x : Nat → Eval α) (m : Machine) (o : Outcome α) : Prop :=
  o.finished ∧ ∃ fuel, ∀ n, fuel ≤ n → x n m = o

/-- The computation ends if given fuel enough. -/
def Halts (x : Nat → Eval α) (m : Machine) : Prop := ∃ o, Settles x m o

/-- One unit of fuel more or less does not matter to how a computation settles. -/
theorem settles_succ {x : Nat → Eval α} {o : Outcome α} :
    Settles (fun n => x (n + 1)) m o ↔ Settles x m o := by
  constructor
  · rintro ⟨ho, fuel, h⟩
    refine ⟨ho, fuel + 1, fun n hn => ?_⟩
    obtain ⟨k, rfl⟩ : ∃ k, n = k + 1 := ⟨n - 1, by omega⟩
    exact h k (Nat.le_of_succ_le_succ hn)
  · rintro ⟨ho, fuel, h⟩
    exact ⟨ho, fuel, fun n hn => h (n + 1) (Nat.le_succ_of_le hn)⟩

/-- A row of two settles as the second one, if the first one settles with a value. -/
theorem Settles.bind {x : Nat → Eval α} {f : Nat → α → Eval β} {a : α} {m' : Machine}
    {o : Outcome β} (hx : Settles x m (.done a m')) (hf : Settles (fun n => f n a) m' o) :
    Settles (fun n => x n >>= f n) m o := by
  obtain ⟨-, k, hx⟩ := hx
  obtain ⟨ho, l, hf⟩ := hf
  refine ⟨ho, max k l, fun n hn => ?_⟩
  show (x n >>= f n) m = o
  rw [bind_apply, hx n (Nat.le_trans (Nat.le_max_left k l) hn)]
  exact hf n (Nat.le_trans (Nat.le_max_right k l) hn)

/-- If the first one is unwound, so is the row. -/
theorem Settles.bind_unwound {x : Nat → Eval α} {f : Nat → α → Eval β} {why : Unwind}
    {m' : Machine} (hx : Settles x m (.unwound why m')) :
    Settles (fun n => x n >>= f n) m (.unwound why m') := by
  obtain ⟨-, k, hx⟩ := hx
  refine ⟨rfl, k, fun n hn => ?_⟩
  show (x n >>= f n) m = .unwound why m'
  rw [bind_apply, hx n hn]

/-- What is cut off no more than `x` settles as `x` does. -/
theorem Settles.within {x y : Nat → Eval α} {o : Outcome α} (hx : Settles x m o)
    (h : ∀ n, Within (fun _ => False) (x n) (y n)) : Settles y m o := by
  obtain ⟨ho, k, hk⟩ := hx
  refine ⟨ho, k, fun n hn => ?_⟩
  rw [(h n).eq_of_finished ((hk n hn).symm ▸ ho), hk n hn]

/-- What does not depend on the fuel settles at once. -/
theorem Settles.of_forall {x : Nat → Eval α} {o : Outcome α} (h : ∀ n, x n m = o)
    (ho : o.finished) : Settles x m o :=
  ⟨ho, 0, fun n _ => h n⟩

/-! ## Rows of two

Evaluation is built from rows of two, so a statement about how these end goes a long way. -/

/-- A row of two is done when both are done. -/
theorem done_bind {x : Eval α} {f : α → Eval β} {b : β} {m' : Machine}
    (h : (x >>= f) m = .done b m') : ∃ a m₁, x m = .done a m₁ ∧ f a m₁ = .done b m' := by
  rw [bind_apply] at h
  cases hx : x m with
  | done a m₁ =>
    rw [hx] at h
    exact ⟨a, m₁, rfl, h⟩
  | unwound why m₁ =>
    rw [hx] at h
    cases h
  | outOfFuel =>
    rw [hx] at h
    cases h

/-- A row of two is unwound by the first one or, when that is done, by the second one. -/
theorem unwound_bind {x : Eval α} {f : α → Eval β} {why : Unwind} {m' : Machine}
    (h : (x >>= f) m = .unwound why m') :
    x m = .unwound why m' ∨ ∃ a m₁, x m = .done a m₁ ∧ f a m₁ = .unwound why m' := by
  rw [bind_apply] at h
  cases hx : x m with
  | done a m₁ =>
    rw [hx] at h
    exact .inr ⟨a, m₁, rfl, h⟩
  | unwound why' m₁ =>
    rw [hx] at h
    cases h
    exact .inl rfl
  | outOfFuel =>
    rw [hx] at h
    cases h

/-! ## More fuel

A steady computation has at most one end: what it gives with some fuel it gives with more. -/

/-- More fuel makes no difference other than to suffice. -/
def Steady (x : Nat → Eval α) : Prop := ∀ n n', n ≤ n' → Within (fun _ => False) (x n) (x n')

namespace Steady

variable {x : Nat → Eval α}

/-- It settles on what it gives with some fuel, once it is finished. -/
theorem settles_iff (hx : Steady x) {o : Outcome α} :
    Settles x m o ↔ o.finished ∧ ∃ n, x n m = o := by
  constructor
  · rintro ⟨ho, fuel, h⟩
    exact ⟨ho, fuel, h fuel (Nat.le_refl fuel)⟩
  · rintro ⟨ho, fuel, rfl⟩
    exact ⟨ho, fuel, fun n hn => (hx fuel n hn).eq_of_finished ho⟩

theorem bind {f : Nat → α → Eval β} (hx : Steady x) (hf : ∀ a, Steady fun n => f n a) :
    Steady fun n => x n >>= f n :=
  fun n n' hn => (hx n n' hn).bind fun a => hf a n n' hn

end Steady

/-- **How a row of two ends**: as the second one, where the first one ends with a value, and else as
the first one. -/
theorem Settles.of_bind {x : Nat → Eval α} {f : Nat → α → Eval β} {o : Outcome β}
    (h : Settles (fun n => x n >>= f n) m o) (hx : Steady x) (hf : ∀ a, Steady fun n => f n a) :
    (∃ a m', Settles x m (.done a m') ∧ Settles (fun n => f n a) m' o) ∨
      ∃ why m', Settles x m (.unwound why m') ∧ o = .unwound why m' := by
  obtain ⟨ho, fuel, heq⟩ := (hx.bind hf).settles_iff.mp h
  rw [bind_apply] at heq
  cases hxm : x fuel m with
  | done a m' =>
    rw [hxm] at heq
    exact .inl ⟨a, m', hx.settles_iff.mpr ⟨rfl, fuel, hxm⟩, (hf a).settles_iff.mpr ⟨ho, fuel, heq⟩⟩
  | unwound why m' =>
    rw [hxm] at heq
    exact .inr ⟨why, m', hx.settles_iff.mpr ⟨rfl, fuel, hxm⟩, heq.symm⟩
  | outOfFuel =>
    rw [hxm] at heq
    rw [← heq] at ho
    cases ho

/-- **How a row of two settles**, with the two ways it can go. -/
theorem settles_bind_iff {x : Nat → Eval α} {f : Nat → α → Eval β} {o : Outcome β} (hx : Steady x)
    (hf : ∀ a, Steady fun n => f n a) :
    Settles (fun n => x n >>= f n) m o ↔
      (∃ a m', Settles x m (.done a m') ∧ Settles (fun n => f n a) m' o) ∨
        ∃ why m', Settles x m (.unwound why m') ∧ o = .unwound why m' := by
  refine ⟨fun h => h.of_bind hx hf, ?_⟩
  rintro (⟨a, m', ha, ho⟩ | ⟨why, m', hwhy, rfl⟩)
  · exact ha.bind ho
  · exact hwhy.bind_unwound

/-- A row that gives something had a first part that gave something. -/
theorem Settles.of_bind_done {x : Nat → Eval α} {f : Nat → α → Eval β} {b : β} {m' : Machine}
    (h : Settles (fun n => x n >>= f n) m (.done b m')) (hx : Steady x)
    (hf : ∀ a, Steady fun n => f n a) :
    ∃ a m₁, Settles x m (.done a m₁) ∧ Settles (fun n => f n a) m₁ (.done b m') := by
  rcases h.of_bind hx hf with h | ⟨_, _, -, heq⟩
  · exact h
  · cases heq

/-- A computation settles on one outcome at most. -/
theorem Settles.unique {x : Nat → Eval α} {o o' : Outcome α} (h : Settles x m o)
    (h' : Settles x m o') : o = o' := by
  obtain ⟨-, k, h⟩ := h
  obtain ⟨-, l, h'⟩ := h'
  exact (h _ (Nat.le_max_left k l)).symm.trans (h' _ (Nat.le_max_right k l))

/-! ## Computations that take no fuel

Where no recursion is behind a computation, it ends on its own, and with any fuel in the same way.
-/

theorem Steady.const (x : Eval α) : Steady fun _ => x := fun _ _ _ => .refl x

theorem Settles.of_const {x : Eval α} {o : Outcome α} (h : Settles (fun _ => x) m o) : x m = o := by
  obtain ⟨-, k, h⟩ := h
  exact h k (Nat.le_refl k)

theorem Settles.const {x : Eval α} {o : Outcome α} (h : x m = o) (ho : o.finished) :
    Settles (fun _ => x) m o :=
  .of_forall (fun _ => h) ho

/-- An operation on values that does not fail gives its result. -/
theorem Settles.ofExcept {r : Except RuntimeError α} {a : α} (h : r = .ok a) :
    Settles (fun _ => ofExcept r) m (.done a m) :=
  .const (by rw [h]; rfl) rfl

/-- An operand is what the expression gives, null for nothing. -/
theorem Settles.operand {x : Nat → Eval (Option Value)} {m' : Machine} {r : Option Value}
    (h : Settles x m (.done r m')) :
    Settles (fun n => Eval.operand (x n)) m (.done (r.getD .null) m') :=
  h.bind (.const rfl rfl)

/-- The computation takes no fuel: it ends on every machine. -/
def Prompt (x : Eval α) : Prop := ∀ m, (x m).finished

namespace Prompt

/-! No part of these asks for fuel: results, errors and returns, new scopes and identities, names
and parameters. -/

theorem pure (a : α) : Prompt (pure a) := fun _ => rfl

theorem fail (e : RuntimeError) : Prompt (fail e : Eval α) := fun _ => rfl

theorem ret (v : Value) : Prompt (ret v : Eval α) := fun _ => rfl

theorem fresh : Prompt fresh := fun _ => rfl

theorem enclose (scope : ScopeId) : Prompt (enclose scope) := fun _ => rfl

/-- A row of two that take no fuel takes none. -/
theorem bind {x : Eval α} {f : α → Eval β} (hx : Prompt x) (hf : ∀ a, Prompt (f a)) :
    Prompt (x >>= f) := by
  intro m
  have h := hx m
  rw [bind_apply]
  cases hxm : x m with
  | done a m' => exact hf a m'
  | unwound why m' => rfl
  | outOfFuel =>
    rw [hxm] at h
    exact h

theorem ofExcept (r : Except RuntimeError α) : Prompt (ofExcept r) := by
  intro m
  cases r <;> rfl

theorem lookup (scope : ScopeId) (x : String) : Prompt (lookup scope x) := by
  intro m
  unfold Eval.lookup
  split
  · rfl
  · split <;> rfl

theorem define (scope : ScopeId) (x : String) (v : Value) : Prompt (define scope x v) := by
  intro m
  unfold Eval.define
  split <;> rfl

theorem assign (scope : ScopeId) (x : String) (v : Value) : Prompt (assign scope x v) := by
  intro m
  unfold Eval.assign
  split <;> rfl

/-- Parameters are bound one after another. -/
theorem bindParams (scope : ScopeId) (params : List Param) (args : List Value) :
    Prompt (bindParams scope params args) := by
  induction params generalizing args with
  | nil => exact pure ()
  | cons p ps ih =>
    unfold Eval.bindParams
    split
    · exact bind fresh fun _ => define _ _ _
    · exact bind (define _ _ _) fun _ => ih _

theorem callScope (params : List Param) (captured : ScopeId) (args : List Value) :
    Prompt (callScope params captured args) := by
  unfold Eval.callScope
  split
  · exact bind (enclose _) fun _ => bind (bindParams _ _ _) fun _ => pure _
  · exact fail _

end Prompt

/-! ## Rounds -/

/-- A round is allowed. -/
theorem allowRound_eq_pure {limit : Option Nat} {finished : Nat}
    (h : ∀ most ∈ limit, finished < most) : allowRound limit finished = pure () := by
  cases limit with
  | none => rfl
  | some most => exact if_neg (Nat.not_le.mpr (h most rfl))

/-- A round is one too many. -/
theorem allowRound_eq_fail {limit : Option Nat} {finished most : Nat} (hlimit : limit = some most)
    (h : most ≤ finished) : allowRound limit finished = fail (.iterationLimit most) := by
  subst hlimit
  exact if_pos h

/-! ## Computations that halt

For each way that evaluation combines computations: the whole halts, if its parts do.  A part is
asked only on machines that it can be entered with. -/

namespace Halts

theorem succ {x : Nat → Eval α} : Halts (fun n => x (n + 1)) m ↔ Halts x m :=
  exists_congr fun _ => settles_succ

theorem prompt {x : Eval α} (h : Prompt x) : Halts (fun _ => x) m :=
  ⟨x m, h m, 0, fun _ _ => rfl⟩

/-- **A row of two halts** if the second one halts wherever the first one ends with a value. -/
theorem bind {x : Nat → Eval α} {f : Nat → α → Eval β} (hx : Halts x m)
    (hf : ∀ a m', Settles x m (.done a m') → Halts (fun n => f n a) m') :
    Halts (fun n => x n >>= f n) m := by
  obtain ⟨o, ho⟩ := hx
  rcases o with ⟨a, m'⟩ | ⟨why, m'⟩ | _
  · obtain ⟨o', ho'⟩ := hf a m' ho
    exact ⟨o', ho.bind ho'⟩
  · exact ⟨_, ho.bind_unwound⟩
  · cases ho.1

/-- A row that begins with a computation that takes no fuel. -/
theorem prompt_bind {x : Eval α} {f : Nat → α → Eval β} (hx : Prompt x)
    (hf : ∀ a m', x m = .done a m' → Halts (fun n => f n a) m') :
    Halts (fun n => x >>= f n) m := by
  refine bind (prompt hx) fun a m' ha => hf a m' ?_
  obtain ⟨-, k, h⟩ := ha
  exact h k (Nat.le_refl k)

theorem enclose_bind {scope : ScopeId} {f : Nat → ScopeId → Eval β}
    (hf : Halts (fun n => f n m.store.nextScope) (m.enclosed scope)) :
    Halts (fun n => enclose scope >>= f n) m := hf

/-- An operation on values, and then the rest if it does not fail. -/
theorem ofExcept_bind {r : Except RuntimeError α} {f : Nat → α → Eval β}
    (hf : ∀ a, r = .ok a → Halts (fun n => f n a) m) : Halts (fun n => ofExcept r >>= f n) m := by
  cases r with
  | ok a => exact hf a rfl
  | error e => exact prompt (.fail e)

/-- The look at the limit, and then the round if it is allowed. -/
theorem allowRound_bind {limit : Option Nat} {finished : Nat} {f : Nat → Unit → Eval β}
    (hf : (∀ most ∈ limit, finished < most) → Halts (fun n => f n ()) m) :
    Halts (fun n => allowRound limit finished >>= f n) m := by
  by_cases hmost : ∀ most ∈ limit, finished < most
  · simp only [allowRound_eq_pure hmost, pure_bind]
    exact hf hmost
  · obtain ⟨most, hlimit, hfinished⟩ : ∃ most ∈ limit, most ≤ finished := by simpa using hmost
    simp only [allowRound_eq_fail hlimit hfinished]
    exact prompt (.fail _)

/-- An operand, and then the rest with its value, null for none. -/
theorem operand {x : Nat → Eval (Option Value)} {f : Nat → Value → Eval β} (hx : Halts x m)
    (hf : ∀ r m', Settles x m (.done r m') → Halts (fun n => f n (r.getD .null)) m') :
    Halts (fun n => operand (x n) >>= f n) m := by
  have h := hx.bind (f := fun n r => f n (r.getD .null)) hf
  simpa only [Eval.operand, bind_assoc, pure_bind] using h

/-- An operand that has to give something, and then the rest if it does. -/
theorem required {x : Nat → Eval (Option Value)} {f : Nat → Value → Eval β} (hx : Halts x m)
    (hf : ∀ v m', Settles x m (.done (some v) m') → Halts (fun n => f n v) m') :
    Halts (fun n => required (x n) >>= f n) m := by
  have h := hx.bind (f := fun n r => Eval.required (Pure.pure r) >>= f n) fun r m' hr => ?_
  · simpa only [Eval.required, bind_assoc, pure_bind] using h
  · cases r with
    | none => exact prompt (.fail _)
    | some v => exact hf v m' hr

/-- Nothing is cut off in `y` that is not cut off in `x`. -/
theorem within {x y : Nat → Eval α} (hx : Halts x m)
    (h : ∀ n, Within (fun _ => False) (x n) (y n)) : Halts y m :=
  hx.imp fun _ ho => ho.within h

/-- **A loop halts** if its condition, and then its body and its step, and then the rounds that are
left halt, each on the machine that the one before leaves. -/
theorem repeatWhile {limit : Option Nat} {test : Nat → Eval Bool}
    {body step : Nat → Eval (Option Value)} {finished : Nat} (htest : Halts test m)
    (hbody : ∀ m₁, Settles test m (.done true m₁) → (∀ most ∈ limit, finished < most) →
      Halts body m₁ ∧ ∀ v m₂, Settles body m₁ (.done v m₂) →
        Halts step m₂ ∧ ∀ v' m₃, Settles step m₂ (.done v' m₃) → Halts (fun n =>
          repeatWhile limit (test n) (body n) (step n) n (finished + 1)) m₃)
    (hmono : ∀ n, Within (fun _ => False)
      (repeatWhile limit (test n) (body n) (step n) n (finished + 1))
      (repeatWhile limit (test (n + 1)) (body (n + 1)) (step (n + 1)) n (finished + 1))) :
    Halts (fun n => repeatWhile limit (test n) (body n) (step n) n finished) m := by
  refine succ.mp (bind (succ.mpr htest) fun goesOn m₁ hgoesOn => ?_)
  cases goesOn with
  | false => exact prompt (.pure ())
  | true =>
    refine allowRound_bind fun hmost => ?_
    obtain ⟨hbody, hstep⟩ := hbody m₁ (settles_succ.mp hgoesOn) hmost
    refine bind (succ.mpr hbody) fun v m₂ hv => ?_
    obtain ⟨hstep, hothers⟩ := hstep v m₂ (settles_succ.mp hv)
    refine bind (succ.mpr hstep) fun v' m₃ hv' => ?_
    exact (hothers v' m₃ (settles_succ.mp hv')).within hmono

/-- What is made of the outcome of a computation, by a change that keeps ends. -/
theorem map {x : Nat → Eval α} {y : Nat → Eval β} {m' : Machine} (hx : Halts x m)
    (g : Outcome α → Outcome β) (hg : ∀ o, o.finished → (g o).finished)
    (h : ∀ n, y n m' = g (x n m)) : Halts y m' := by
  obtain ⟨o, ho, k, hk⟩ := hx
  exact ⟨g o, hg o ho, k, fun n hn => by rw [h, hk n hn]⟩

/-- What is run as a call halts if it does with one more call active. -/
theorem nested {x : Nat → Eval α} (hx : Halts x { m with depth := m.depth + 1 }) :
    Halts (fun n => nested (x n)) m := by
  refine hx.map (fun o => Eval.nested (fun _ => o) m) ?_ fun _ => rfl
  rintro (_ | _ | _) ho <;> exact ho

/-- Whether a return is caught does not matter for that. -/
theorem catchReturn {x : Nat → Eval (Option Value)} (hx : Halts x m) :
    Halts (fun n => catchReturn (x n)) m := by
  refine hx.map (fun o => Eval.catchReturn (fun _ => o) m) ?_ fun _ => rfl
  rintro (_ | ⟨_ | _, _⟩ | _) ho <;> exact ho

end Halts

end Eval

open Eval

theorem Expr.steady (limits : Limits) (i : ScopeId) (e : Expr) :
    Steady fun n => Expr.eval limits n i e :=
  fun _ _ hn => (eval_within limits.le_refl (.inl rfl) hn).1 i e

end Scriptlet
