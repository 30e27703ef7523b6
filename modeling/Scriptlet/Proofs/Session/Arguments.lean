import Scriptlet.Proofs.Eval.Arguments
import Scriptlet.Proofs.Eval.Exact
import Scriptlet.Proofs.Session.Throughout

/-!
# Proofs/Session/Arguments — every call there is conserves its arguments

A function literal with a variadic parameter before the last one fails, so no function that
evaluation makes has one.  Hence in all that a host can come to, each function that is bound, held
by a value or called conserves the arguments of every call.  What stops the binding of the arguments
stops the call, and otherwise the body is evaluated in the scope that took them in.
-/

namespace Scriptlet

open Eval

/-- If the value is a function, no parameter of it but the last is variadic. -/
def Value.RestLast (v : Value) : Prop :=
  ∀ id params body captured, v = .function id params body captured → Scriptlet.RestLast params

/-- A function literal is checked for that when it is evaluated, and no other function is made. -/
theorem inborn_restLast : Inborn Value.RestLast where
  plain v hv id params body captured h := by
    subst h
    cases hv
  error _ := nofun
  array _ _ := nofun
  hash _ _ _ := nofun
  function _ _ _ _ hlast _ _ _ _ h := by
    cases h
    exact restLast_of_variadicLast hlast

section

variable {limits : Limits} {q : Task × Machine} {id : Identity} {params : List Param} {b : Block}
  {captured : ScopeId} {vs : List Value} {m m' : Machine}

/-- What stops the binding of arguments stops the call. -/
theorem Applies.unwinds {why : Unwind} (h : Applies limits q (.function id params b captured) vs m)
    (hlt : m.depth < limits.maxDepth) (hscope : callScope params captured vs m = .unwound why m') :
    q.1.Unwinds limits q.2 why m' := by
  cases h with
  | intro hf hcallee hargs =>
    refine settles_succ.mp ?_
    simp only [Task.eval, Expr.eval]
    refine hf.operand.bind (hargs.bind ⟨rfl, 0, fun n _ => ?_⟩)
    rw [hcallee]
    refine (call_apply hlt).trans ?_
    rw [bind_apply, hscope]
    rfl

/-- The call **takes in its arguments** or fails where they are bound. -/
structure TakesArguments (limits : Limits) (q : Task × Machine) (params : List Param) (b : Block)
    (captured : ScopeId) (vs : List Value) (m : Machine) : Prop where
  miscounted : Miscounted params vs.length →
    q.1.Unwinds limits q.2 (.failed (.wrongArgumentCount params.length vs.length)) m
  repeated : ∀ x, ¬ Miscounted params vs.length → FirstRepeated params x →
    ∃ m', q.1.Unwinds limits q.2 (.failed (.alreadyDefined x)) m'
  enters : ¬ Miscounted params vs.length → (params.map (·.name)).Nodup →
    ∃ m', m.Enters m' m.store.nextScope params captured vs ∧
      Enters limits q (.row m.store.nextScope b none, { m' with depth := m'.depth + 1 })

/-- With calls left, the application takes in its arguments or fails where they are bound. -/
theorem Applies.takesArguments (h : Applies limits q (.function id params b captured) vs m)
    (hlt : m.depth < limits.maxDepth) (hrest : RestLast params) :
    TakesArguments limits q params b captured vs m := by
  refine ⟨fun hwrong => ?_, fun x hright hx => ?_, fun hright hnodup => ?_⟩
  · exact h.unwinds hlt (hrest.callScope_miscounted captured vs m hwrong)
  · obtain ⟨m', hm'⟩ := callScope_of_repeated ((accepts_iff hrest).mpr hright) hx
    exact ⟨m', h.unwinds hlt hm'⟩
  · obtain ⟨m', hm', henters⟩ := callScope_of_nodup hrest ((accepts_iff hrest).mpr hright) hnodup
    exact ⟨m', henters, (h.enters hlt hm').1⟩

/-- What is called has been given by the callee expression. -/
theorem Store.Assures.restLast {s : Store} (hs : s.Assures Value.RestLast) {i : ScopeId}
    {p : Program} (hq : Relation.ReflTransGen (Enters limits) (.row i p none, ⟨s, 0⟩) q)
    (h : Applies limits q (.function id params b captured) vs m) : RestLast params := by
  cases h with
  | @intro _ _ _ _ r _ _ _ _ hf hcallee _ =>
    cases r with
    | none => cases hcallee
    | some v =>
      obtain rfl : v = .function id params b captured := hcallee
      exact ((hs.entered (hq.tail .callee)).2 _ _ hf _ rfl).self id params b captured rfl

end

/-- **Binding conserves the arguments**, of every call of every function there is.  Let a host
evaluate any programs and give away no function of its own with a variadic parameter before the last
one.  Then no function that is bound, held or given anywhere has one; the arguments of a call to a
function that has none are conserved; and a call that is evaluated on the way, with calls left,
takes in its arguments or fails where they are bound.  On the way is all that evaluation works on,
and nothing is left out of it. -/
theorem Store.arguments_conserved {s : Store} (hs : s.Reached (Value.Throughout Value.RestLast)) :
    s.Assures Value.RestLast ∧
      (∀ id params body captured, Value.RestLast (.function id params body captured) →
        ∀ args m, ConservesArguments params captured args m) ∧
      (∀ limits, EntersAll limits) ∧
      ∀ (limits : Limits) (i : ScopeId) (p : Program) (q : Task × Machine),
        Relation.ReflTransGen (Enters limits) (.row i p none, ⟨s, 0⟩) q →
          ∀ id params b captured vs m, Applies limits q (.function id params b captured) vs m →
            m.depth < limits.maxDepth → TakesArguments limits q params b captured vs m := by
  have hassures := hs.assures inborn_restLast
  refine ⟨hassures, fun id params body captured hrest args m => ?_, entersAll, ?_⟩
  · exact (hrest id params body captured rfl).conservesArguments captured args m
  · intro limits i p q hq id params b captured vs m happlies hlt
    exact happlies.takesArguments hlt (hassures.restLast hq happlies)

/-- The parameters of a function. -/
def Value.parameters? : Value → Option (List Param)
  | .function _ params _ _ => some params
  | _ => none

/-- Only a function has parameters. -/
theorem Value.eq_of_parameters? {v : Value} {params : List Param}
    (h : v.parameters? = some params) :
    ∃ id body captured, v = .function id params body captured := by
  cases v with
  | function id ps body captured =>
    obtain rfl : ps = params := Option.some.inj h
    exact ⟨id, body, captured, rfl⟩
  | _ => cases h

/-- A program in a new session gives a function with a variadic parameter.  It is called with an
argument for the other one, and with no argument at all. -/
theorem Store.arguments_conserved_of_variadic :
    let params : List Param := [⟨"x", false⟩, ⟨"more", true⟩]
    let program := (parse "fn(x, ...more) \x7b more \x7d").program
    let s := Session.new {}
    s.store.Reached (Value.Throughout Value.RestLast) ∧ ∃ id body captured m,
      Program.eval {} 20 s.globals program ⟨s.store, 0⟩ =
          some (.function id params body captured, m) ∧
        (∃ inner m', callScope params captured [.integer 1] m = .done inner m' ∧
          m.Enters m' inner params captured [.integer 1]) ∧
        ∃ m', callScope params captured [] m = .unwound (.failed (.wrongArgumentCount 2 0)) m' := by
  intro params program s
  have hreached : s.store.Reached (Value.Throughout Value.RestLast) := Session.new_reached {}
  have hparameters : ((Program.eval {} 20 s.globals program ⟨s.store, 0⟩).bind fun r =>
      r.1.parameters?) = some params := by
    decide +kernel
  obtain ⟨⟨v, m⟩, heval, hv⟩ := Option.bind_eq_some_iff.mp hparameters
  obtain ⟨id, body, captured, rfl⟩ := Value.eq_of_parameters? hv
  obtain ⟨hassures, hconserves, -⟩ := arguments_conserved hreached
  have hfunction := hconserves id params body captured (hassures.result heval).self
  refine ⟨hreached, id, body, captured, m, heval, ?_, ?_⟩
  · have hright : ¬ Miscounted params 1 := by
      simp [Miscounted, params]
    obtain ⟨inner, m', hdone⟩ := (hfunction [.integer 1] m).done_iff.mpr ⟨hright, by decide⟩
    exact ⟨inner, m', hdone, (hfunction [.integer 1] m).enters inner m' hdone⟩
  · have hwrong : Miscounted params 0 := .inr ⟨⟨_, List.mem_cons_of_mem _ List.mem_cons_self, rfl⟩,
      by decide⟩
    exact ((hfunction [] m).fails_iff _).mpr (.inl ⟨rfl, hwrong⟩)

end Scriptlet
