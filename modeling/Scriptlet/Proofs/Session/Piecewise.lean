import Scriptlet.Proofs.Eval.Depth
import Scriptlet.Proofs.Parse.Append
import Scriptlet.Session

/-!
# Proofs/Session/Piecewise — a session fed piece by piece

`Session.Evaluates` leaves the fuel out of `Session.eval`: there is at most one outcome.  A session
that is given two sources one after the other ends as one that is given both at once, if the first
one is complete: it ends with a semicolon and is evaluated to its end.

Nothing is lost in between: reading does not look back past the semicolon, each source starts with
no call active, which is how the one before has ended, and the store is handed on.
-/

namespace Scriptlet

variable {limits : Limits} {scope : ScopeId} {p q : Program} {m m' : Machine} {v : Option Value}
  {o : Outcome (Option Value)}

/-! ## Programs

A program is evaluated as its statements in a row, and then a return at the top is taken for its
value.  For the first of two programs this has to be told apart from coming to the end: after a
return, the second one would not be run. -/

/-- The result of a program that is run on its own, and the machine it leaves. -/
def Outcome.answer : Outcome (Option Value) → Option (Value × Machine)
  | .done v m => some (v.getD .null, m)
  | .unwound (.returned v) m => some (v, m)
  | .unwound (.failed e) m => some (.error e.message, m)
  | .outOfFuel => none

/-- The program came to its end. -/
def Outcome.isDone : Outcome (Option Value) → Bool
  | .done .. => true
  | _ => false

/-- It ended with the value of its last statement. -/
theorem Outcome.isDone_iff : o.isDone ↔ ∃ v m, o = .done v m := by
  rcases o with ⟨v, m⟩ | ⟨why, m⟩ | _
  · exact ⟨fun _ => ⟨v, m, rfl⟩, fun _ => rfl⟩
  · exact ⟨nofun, nofun⟩
  · exact ⟨nofun, nofun⟩

/-- The result of a program is that of its statements in a row. -/
theorem Program.eval_eq_answer (limits : Limits) (fuel : Nat) (scope : ScopeId) (p : Program)
    (m : Machine) :
    Program.eval limits fuel scope p m = (Program.run limits fuel scope p m).answer :=
  rfl

/-- A program with a result has ended. -/
theorem Outcome.finished_of_answer {r : Value × Machine} (h : o.answer = some r) : o.finished := by
  rcases o with ⟨v, m⟩ | ⟨v | e, m⟩ | _
  · rfl
  · rfl
  · rfl
  · cases h

/-- **Statements in two rows are statements in one.** -/
theorem Eval.sequence_append (run : Statement → Eval (Option Value)) (p q : Block)
    (last : Option Value) :
    Eval.sequence run (p ++ q) last = Eval.sequence run p last >>= Eval.sequence run q := by
  induction p generalizing last with
  | nil => rfl
  | cons s p ih =>
    rw [List.cons_append, Eval.sequence, Eval.sequence, bind_assoc]
    exact congrArg _ (funext ih)

/-- What was there before is of no matter to a row of at least one statement. -/
theorem Eval.sequence_of_ne_nil (run : Statement → Eval (Option Value)) (hq : q ≠ [])
    (last : Option Value) : Eval.sequence run q last = Eval.sequence run q none := by
  obtain ⟨s, q, rfl⟩ := List.exists_cons_of_ne_nil hq
  rfl

/-- After a program that was run to its end, another one runs as it would alone. -/
theorem Program.run_append {fuel : Nat} (hp : Program.run limits fuel scope p m = .done v m')
    (hq : q ≠ []) :
    Program.run limits fuel scope (p ++ q) m = Program.run limits fuel scope q m' := by
  unfold Program.run at hp ⊢
  rw [Eval.sequence_append, Eval.bind_apply, hp]
  exact congrFun (Eval.sequence_of_ne_nil _ hq v) m'

/-- If both end in a row, the first one ends. -/
theorem Program.finished_of_append {fuel : Nat}
    (h : (Program.run limits fuel scope (p ++ q) m).finished) :
    (Program.run limits fuel scope p m).finished := by
  unfold Program.run at h ⊢
  rw [Eval.sequence_append, Eval.bind_apply] at h
  rcases hp : Eval.sequence (Statement.eval limits fuel scope) p none m with _ | _ | _
  · rfl
  · rfl
  · rw [hp] at h
    cases h

/-- **Two programs in one end as the second one does after the first.** -/
theorem Program.ends_append_iff (hp : Program.Ends limits scope p m (.done v m')) (hq : q ≠ []) :
    Program.Ends limits scope (p ++ q) m o ↔ Program.Ends limits scope q m' o := by
  constructor
  · rintro ⟨hfinished, n, rfl⟩
    have hrun := hp.unique ⟨Program.finished_of_append hfinished, n, rfl⟩
    exact ⟨hfinished, n, (Program.run_append hrun hq).symm⟩
  · rintro ⟨hfinished, n, rfl⟩
    obtain ⟨hdone, k, hk⟩ := hp
    have hp' : Program.run limits (max n k) scope p m = .done v m' := by
      rw [Program.run_mono (Nat.le_max_right n k) (hk ▸ hdone), hk]
    have hq' := Program.run_mono (Nat.le_max_left n k) hfinished
    exact ⟨hfinished, max n k, (Program.run_append hp' hq).trans hq'⟩

/-! ## Sessions

A session keeps its store and its one scope.  Whether two sources are fed to it one by one or in one
piece, the statements are evaluated in that scope and in the same order. -/

namespace Session

variable {s t : Session} {source more : String} {result : Except (List ParseError) Value}

/-- With some amount of fuel, evaluating the source gives the result and leaves the session `t`. -/
def Evaluates (s : Session) (source : String) (result : Except (List ParseError) Value)
    (t : Session) : Prop :=
  ∃ fuel, s.eval fuel source = some (result, t)

/-- **A source without errors is evaluated as its program ends.** -/
theorem evaluates_iff (herrors : (parse source).errors = []) : s.Evaluates source result t ↔
    ∃ o v m, Program.Ends s.limits s.globals (parse source).program ⟨s.store, 0⟩ o ∧
      o.answer = some (v, m) ∧ result = .ok v ∧ t = { s with store := m.store } := by
  have heval : ∀ fuel, s.eval fuel source =
      (Program.run s.limits fuel s.globals (parse source).program ⟨s.store, 0⟩).answer.map
        fun r => (.ok r.1, { s with store := r.2.store }) := by
    intro fuel
    rw [Session.eval, evalSource_of_read herrors, Option.map_map, Program.eval_eq_answer]
    rfl
  constructor
  · rintro ⟨fuel, h⟩
    rw [heval] at h
    obtain ⟨⟨v, m⟩, hanswer, h⟩ := Option.map_eq_some_iff.mp h
    cases h
    exact ⟨_, v, m, ⟨Outcome.finished_of_answer hanswer, fuel, rfl⟩, hanswer, rfl, rfl⟩
  · rintro ⟨_, v, m, ⟨-, fuel, rfl⟩, hanswer, rfl, rfl⟩
    exact ⟨fuel, by rw [heval, hanswer]; rfl⟩

/-- A source with errors is not evaluated. -/
theorem eval_of_errors (herrors : (parse source).errors ≠ []) (fuel : Nat) :
    s.eval fuel source = some (.error (parse source).errors, s) := by
  rw [Session.eval, evalSource_of_errors herrors]
  rfl

/-- **There is at most one outcome.** -/
theorem Evaluates.unique {result' : Except (List ParseError) Value} {t' : Session}
    (h : s.Evaluates source result t) (h' : s.Evaluates source result' t') :
    result' = result ∧ t' = t := by
  by_cases herrors : (parse source).errors = []
  · obtain ⟨o, v, m, hends, hanswer, rfl, rfl⟩ := (evaluates_iff herrors).mp h
    obtain ⟨o', v', m', hends', hanswer', rfl, rfl⟩ := (evaluates_iff herrors).mp h'
    rw [hends.unique hends', hanswer] at hanswer'
    cases hanswer'
    exact ⟨rfl, rfl⟩
  · obtain ⟨n, h⟩ := h
    obtain ⟨n', h'⟩ := h'
    rw [eval_of_errors herrors] at h h'
    cases h
    cases h'
    exact ⟨rfl, rfl⟩

/-- **Feeding a session piece by piece is feeding it at once.**  Let two sources be read without
errors, the first one ending with a semicolon and with its branches braced, the second one with a
statement in it; and let the first one be evaluated to its end, without an error and without a
return outside of all functions.  Then one source after the other ends just if both in one do, with
the same result and the same store. -/
theorem evaluates_append (herrors : (parse source).errors = [])
    (hlast : EndsInSemicolon (tokenize source))
    (hbraced : BracedBranches ((tokenize source).map Token.word))
    (hmore : (parse more).errors = []) (hne : (parse more).program ≠ [])
    (hdone : Program.Ends s.limits s.globals (parse source).program ⟨s.store, 0⟩ (.done v m))
    (result : Except (List ParseError) Value) (t : Session) :
    (∃ first s', s.Evaluates source first s' ∧ s'.Evaluates more result t) ↔
      s.Evaluates (source ++ more) result t := by
  have hboth : parse (source ++ more) = ⟨(parse source).program ++ (parse more).program, []⟩ := by
    rw [parse_append_of_reads (reads_of_parse herrors) hlast hbraced, hmore, List.map_nil]
  -- no call is active after the first source, as after any
  obtain ⟨fuel, hrun⟩ := hdone.2
  have hdepth : m.depth = 0 :=
    Program.eval_depth (by rw [Program.eval_eq_answer, hrun]; rfl)
  have hmachine : m = ⟨m.store, 0⟩ := by rw [← hdepth]
  have hfirst : s.Evaluates source (.ok (v.getD .null)) { s with store := m.store } :=
    (evaluates_iff herrors).mpr ⟨_, _, m, hdone, rfl, rfl, rfl⟩
  have hsecond : Session.Evaluates { s with store := m.store } more result t ↔
      s.Evaluates (source ++ more) result t := by
    rw [evaluates_iff hmore, evaluates_iff (by rw [hboth]), hboth]
    simp only [Program.ends_append_iff hdone hne, ← hmachine]
  constructor
  · rintro ⟨first, s', h, h'⟩
    obtain ⟨rfl, rfl⟩ := hfirst.unique h
    exact hsecond.mp h'
  · exact fun h => ⟨_, _, hfirst, hsecond.mpr h⟩

/-- A function that changes a global name is made by the first source and called by the second. -/
theorem evaluates_append_counter :
    let s := Session.new {}
    let source := "let n = 1; let f = fn() \x7b if (n < 9) \x7b n = n + 1 \x7d \x7d; f();"
    let more := "f() + n"
    (parse source).errors = [] ∧ EndsInSemicolon (tokenize source) ∧
      BracedBranches ((tokenize source).map Token.word) ∧
      (parse more).errors = [] ∧ (parse more).program ≠ [] ∧
      (∃ v m, Program.Ends s.limits s.globals (parse source).program ⟨s.store, 0⟩ (.done v m)) ∧
      ∀ result t, (∃ first s', s.Evaluates source first s' ∧ s'.Evaluates more result t) ↔
        s.Evaluates (source ++ more) result t := by
  intro s source more
  have herrors : (parse source).errors = [] := by decide +kernel
  have hlast : EndsInSemicolon (tokenize source) := by decide +kernel
  have hbraced : BracedBranches ((tokenize source).map Token.word) := by decide +kernel
  have hmore : (parse more).errors = [] := by decide +kernel
  have hne : (parse more).program ≠ [] := by decide +kernel
  have hdone : ∃ v m, Program.Ends s.limits s.globals (parse source).program ⟨s.store, 0⟩
      (.done v m) := by
    have hrun : (Program.run s.limits 40 s.globals (parse source).program ⟨s.store, 0⟩).isDone := by
      decide +kernel
    obtain ⟨v, m, hrun⟩ := Outcome.isDone_iff.mp hrun
    exact ⟨v, m, rfl, 40, hrun⟩
  obtain ⟨v, m, hdone⟩ := hdone
  exact ⟨herrors, hlast, hbraced, hmore, hne, ⟨v, m, hdone⟩,
    evaluates_append herrors hlast hbraced hmore hne hdone⟩

end Session

end Scriptlet
