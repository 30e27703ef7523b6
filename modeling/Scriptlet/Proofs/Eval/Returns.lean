import Scriptlet.Proofs.Eval.Origin
import Scriptlet.Proofs.Eval.Succession

/-!
# Proofs/Eval/Returns — a return belongs to the call that it is in

A return may stand in a branch of an `if`, and so in the middle of any expression.  It ends all that
is going on in the innermost call, which then gives what was returned, and it ends nothing else: no
call ever ends with a return, and without a return in the text, but for those of functions, no
evaluation does.
-/

namespace Scriptlet

open Eval

/-! ## Trees without a return

The body of a function literal is not evaluated where the literal is, so a return in it does not
count: it belongs to the calls of that function. -/

mutual

/-- No `return` stands in the expression, except in literals of functions. -/
inductive Expr.ReturnFree : Expr → Prop
  | ident (x : String) : Expr.ReturnFree (.ident x)
  | integer (n : Int64) : Expr.ReturnFree (.integer n)
  | string (x : String) : Expr.ReturnFree (.string x)
  | boolean (b : Bool) : Expr.ReturnFree (.boolean b)
  | unary (op : PrefixOp) {e : Expr} : Expr.ReturnFree e → Expr.ReturnFree (.unary op e)
  | binary (op : InfixOp) {l r : Expr} : Expr.ReturnFree l → Expr.ReturnFree r →
    Expr.ReturnFree (.binary op l r)
  | call {f : Expr} {args : List Expr} : Expr.ReturnFree f → (∀ e ∈ args, Expr.ReturnFree e) →
    Expr.ReturnFree (.call f args)
  | index {e k : Expr} : Expr.ReturnFree e → Expr.ReturnFree k → Expr.ReturnFree (.index e k)
  | array {es : List Expr} : (∀ e ∈ es, Expr.ReturnFree e) → Expr.ReturnFree (.array es)
  | hash {ps : List (Expr × Expr)} : (∀ p ∈ ps, Expr.ReturnFree p.1) →
    (∀ p ∈ ps, Expr.ReturnFree p.2) → Expr.ReturnFree (.hash ps)
  | function (ps : List Param) (b : Block) : Expr.ReturnFree (.function ps b)
  | conditional {cs : List Clause} {alternative : Option Block} :
    (∀ c ∈ cs, Expr.ReturnFree c.1) → (∀ c ∈ cs, ∀ s ∈ c.2, Statement.ReturnFree s) →
    (∀ b ∈ alternative, ∀ s ∈ b, Statement.ReturnFree s) →
    Expr.ReturnFree (.conditional cs alternative)

/-- No `return` stands in the statement, except in literals of functions. -/
inductive Statement.ReturnFree : Statement → Prop
  | bind (x : String) {e : Expr} : Expr.ReturnFree e → Statement.ReturnFree (.bind x e)
  | expr {e : Expr} : Expr.ReturnFree e → Statement.ReturnFree (.expr e)
  | block {b : Block} : (∀ s ∈ b, Statement.ReturnFree s) → Statement.ReturnFree (.block b)
  | loop {init : Option Statement} {condition step : Option Expr} {b : Block} :
    (∀ s ∈ init, Statement.ReturnFree s) → (∀ e ∈ condition, Expr.ReturnFree e) →
    (∀ e ∈ step, Expr.ReturnFree e) → (∀ s ∈ b, Statement.ReturnFree s) →
    Statement.ReturnFree (.loop init condition step b)

end

/-- No `return` stands in what the task evaluates, except in literals of functions. -/
inductive Task.ReturnFree : Task → Prop
  | expr {scope e} : e.ReturnFree → ReturnFree (.expr scope e)
  | statement {scope s} : s.ReturnFree → ReturnFree (.statement scope s)
  | row {scope b last} : (∀ s ∈ b, s.ReturnFree) → ReturnFree (.row scope b last)
  | choice {scope cs alternative} : (∀ c ∈ cs, c.1.ReturnFree) →
    (∀ c ∈ cs, ∀ s ∈ c.2, s.ReturnFree) → (∀ b ∈ alternative, ∀ s ∈ b, s.ReturnFree) →
    ReturnFree (.choice scope cs alternative)
  | rounds {scope condition step b finished} : (∀ e ∈ condition, e.ReturnFree) →
    (∀ e ∈ step, e.ReturnFree) → (∀ s ∈ b, s.ReturnFree) →
    ReturnFree (.rounds scope condition step b finished)
  | values {scope es} : (∀ e ∈ es, e.ReturnFree) → ReturnFree (.values scope es)
  | entries {scope ps done} : (∀ p ∈ ps, p.1.ReturnFree) → (∀ p ∈ ps, p.2.ReturnFree) →
    ReturnFree (.entries scope ps done)

variable {limits : Limits} {p q : Task × Machine} {m m' : Machine} {v : Value}

/-- **One step within a call** does not come upon a return. -/
theorem Inside.returnFree (h : Inside limits p q) (hp : p.1.ReturnFree) : q.1.ReturnFree := by
  obtain ⟨h, hcalls⟩ := h
  obtain ⟨t, m⟩ := p
  -- The cases are the ways to enter a task; the body of a function, which may hold a return, is
  -- entered by a call only.
  cases hp with
  | expr he =>
    cases he with
    | unary _ he =>
      cases h
      exact .expr he
    | binary _ hl hr =>
      cases h with
      | assigned | right => exact .expr hr
      | left => exact .expr hl
    | call hf hargs =>
      cases h with
      | callee => exact .expr hf
      | arguments => exact .values hargs
      | body => cases hcalls
    | index he hk =>
      cases h with
      | container => exact .expr he
      | key => exact .expr hk
    | array hes =>
      cases h
      exact .values hes
    | hash hkeys hvalues =>
      cases h
      exact .entries hkeys hvalues
    | conditional hcs hblocks halternative =>
      cases h
      exact .choice hcs hblocks halternative
    | _ => cases h
  | statement hs =>
    cases hs with
    | bind _ he | expr he =>
      cases h
      exact .expr he
    | block hb =>
      cases h
      exact .row hb
    | loop hinit hcondition hstep hb =>
      cases h with
      | start => exact .statement (hinit _ rfl)
      | started | loop => exact .rounds hcondition hstep hb
  | row hb =>
    cases h with
    | first => exact .statement (hb _ List.mem_cons_self)
    | others => exact .row fun s hs => hb s (List.mem_cons_of_mem _ hs)
  | choice hcs hblocks halternative =>
    cases h with
    | test => exact .expr (hcs _ List.mem_cons_self)
    | taken => exact .row (hblocks _ List.mem_cons_self)
    | otherClauses =>
      exact .choice (fun c hc => hcs c (List.mem_cons_of_mem _ hc))
        (fun c hc => hblocks c (List.mem_cons_of_mem _ hc)) halternative
    | alternative => exact .row (halternative _ rfl)
  | rounds hcondition hstep hb =>
    cases h with
    | condition => exact .expr (hcondition _ rfl)
    | round => exact .row hb
    | step => exact .expr (hstep _ rfl)
    | otherRounds => exact .rounds hcondition hstep hb
  | values hes =>
    cases h with
    | value => exact .expr (hes _ List.mem_cons_self)
    | otherValues => exact .values fun e he => hes e (List.mem_cons_of_mem _ he)
  | entries hkeys hvalues =>
    cases h with
    | entryKey => exact .expr (hkeys _ List.mem_cons_self)
    | entryValue => exact .expr (hvalues _ List.mem_cons_self)
    | otherEntries =>
      exact .entries (fun p hp => hkeys p (List.mem_cons_of_mem _ hp))
        fun p hp => hvalues p (List.mem_cons_of_mem _ hp)

theorem returnFree_of_inside (h : Relation.ReflTransGen (Inside limits) p q)
    (hp : p.1.ReturnFree) : q.1.ReturnFree := by
  induction h with
  | refl => exact hp
  | tail _ hstep ih => exact hstep.returnFree ih

/-- **Without a return in the text, no evaluation ends with a return**, whatever it calls. -/
theorem Task.ReturnFree.not_unwinds {t : Task} (ht : t.ReturnFree) :
    ¬ t.Unwinds limits m (.returned v) m' := by
  intro h
  obtain ⟨q, hpath, hraises⟩ := Task.unwinds_returned_iff.mp h
  have hq := returnFree_of_inside hpath ht
  cases hraises with
  | ret =>
    cases hq with
    | statement hs => cases hs

/-- With any fuel, too, such a task does not end with a return. -/
theorem Task.ReturnFree.eval_ne {t : Task} (ht : t.ReturnFree) (n : Nat) :
    t.eval limits n m ≠ .unwound (.returned v) m' :=
  fun h => ht.not_unwinds ((Task.steady limits t).settles_iff.mpr ⟨rfl, n, h⟩)

/-! ## Calls

A call catches what its body returns, and what ends a call otherwise is an error. -/

/-- Behind the place where returns are caught there are none. -/
theorem catchReturn_ne_returned (x : Eval (Option Value)) :
    catchReturn x m ≠ .unwound (.returned v) m' := by
  unfold catchReturn
  split
  · exact nofun
  · rename_i hother
    exact fun h => hother v m' h

/-- **No call ends with a return**, of whatever, and whatever the body does. -/
theorem call_ne_returned (limits : Limits) (run : ScopeId → Block → Eval (Option Value))
    (callee : Value) (args : List Value) :
    call limits run callee args m ≠ .unwound (.returned v) m' := by
  intro h
  cases callee with
  | function id params b captured =>
    by_cases hfull : limits.maxDepth ≤ m.depth
    · cases (call_overflow hfull).symm.trans h
    have hrest := (call_apply (Nat.lt_of_not_le hfull)).symm.trans h
    rcases unwound_bind hrest with hscope | ⟨inner, m₁, -, hbody⟩
    · exact (Calm.callScope _ _ _).elim hscope rfl
    · exact catchReturn_ne_returned _ hbody
  | builtin b =>
    exact (Calm.bind .fresh fun _ => Calm.operation fun _ => Builtin.call_error).elim h rfl
  | _ => exact (Calm.fail rfl).elim h rfl

/-! ## What a return ends

Between the call and its return, all tasks are entered within the call, each from the one before; by
`Inside` the return goes up along them, and by `entered_comparable` nothing is entered after it. -/

/-- With as many calls active at the end as at the start, no call is on the way. -/
theorem inside_of_entered (h : Relation.ReflTransGen (Enters limits) p q)
    (hdepth : q.2.depth ≤ p.2.depth) : Relation.ReflTransGen (Inside limits) p q := by
  induction h using Relation.ReflTransGen.head_induction_on with
  | refl => exact .refl
  | head hstep hrest ih =>
    have hle := le_depth_of_entered hrest
    rcases hstep.depth_cases with ⟨-, hsucc, -⟩ | ⟨hcalls, hsame, -⟩
    · omega
    · exact .head ⟨hstep, hcalls⟩ (ih (hsame ▸ hdepth))

/-- Within a call, as many calls are active everywhere. -/
theorem depth_eq_of_inside (h : Relation.ReflTransGen (Inside limits) p q) :
    q.2.depth = p.2.depth := by
  induction h with
  | refl => rfl
  | tail _ hstep ih =>
    rcases hstep.1.depth_cases with ⟨hcalls, -⟩ | ⟨-, hsame, -⟩
    · rw [hstep.2] at hcalls
      cases hcalls
    · exact hsame.trans ih

/-- **Nothing comes after a return** in the course of the call: what comes before something gives
something, and does not end with a return. -/
theorem not_precedes_of_raises {root ret : Task × Machine}
    (hpath : Relation.ReflTransGen (Inside limits) root ret)
    (hraises : Raises limits ret (.returned v) m') : ¬ Precedes limits root ret q := by
  rintro ⟨p, a, b, hp, hlater, ha, -⟩
  have hdepth : ret.2.depth ≤ a.2.depth := by
    rw [depth_eq_of_inside hpath]
    exact le_depth_of_entered (hp.tail hlater.enters.1)
  obtain ⟨r, m₁, hgives⟩ := hlater.gives
  cases hgives.unique (unwinds_of_inside (inside_of_entered ha hdepth) hraises.unwinds)

/-- **A return never crosses its function.**  No call ends with a return, nor does the evaluation of
an expression, or of statements in a row, without a return in its text.  When a return is executed
in the body of a function, however deep inside statements and expressions but in no other call, the
call gives its operand, null for nothing; and all that is entered in the body is on the way to the
return, or in its operand, or was over before. -/
theorem return_stays_in_its_call (limits : Limits) :
    (∀ run callee args m v m', call limits run callee args m ≠ .unwound (.returned v) m') ∧
    (∀ fuel scope m v m',
      (∀ e : Expr, e.ReturnFree → Expr.eval limits fuel scope e m ≠ .unwound (.returned v) m') ∧
      ∀ (b : Block) last, (∀ s ∈ b, s.ReturnFree) →
        sequence (Statement.eval limits fuel scope) b last m ≠ .unwound (.returned v) m') ∧
    ∀ (scope i : ScopeId) (f e : Expr) (args : List Expr) (m m₁ m₂ : Machine)
      (body ret : Task × Machine) (r : Option Value),
      Enters limits (.expr scope (.call f args), m) body →
      (Task.expr scope (.call f args)).calls body.1 →
      Relation.ReflTransGen (Inside limits) body ret → ret = (.statement i (.ret e), m₁) →
      (Task.expr i e).Gives limits m₁ r m₂ →
        (Task.expr scope (.call f args)).Gives limits m (some (r.getD .null))
          { m₂ with depth := m.depth } ∧
        ∀ q, Relation.ReflTransGen (Enters limits) body q →
          ¬ Precedes limits body ret q ∧
            (Relation.ReflTransGen (Enters limits) q ret ∨
              Relation.ReflTransGen (Enters limits) ret q ∨ Precedes limits body q ret) := by
  -- The first two parts are about text without a return, the others about a return that is
  -- executed.
  refine ⟨fun run callee args m v m' => call_ne_returned limits run callee args,
    fun fuel scope m v m' => ⟨fun e he => ?_, fun b last hb => ?_⟩, ?_⟩
  · exact Task.ReturnFree.eval_ne (.expr he) fuel
  · exact Task.ReturnFree.eval_ne (.row hb) fuel
  · rintro scope i f e args m m₁ m₂ ⟨body, m₀⟩ _ r henters hcalls hpath rfl he
    have hraises : Raises limits (.statement i (.ret e), m₁) (.returned (r.getD .null)) m₂ :=
      .ret he
    have hbody := unwinds_of_inside hpath hraises.unwinds
    have hdepth : m₂.depth - 1 = m.depth := by
      have hm₂ : m₂.depth = m₀.depth := hbody.depth_eq
      rcases henters.depth_cases with ⟨-, hsucc, -⟩ | ⟨hpart, -⟩
      · have hm₀ : m₀.depth = m.depth + 1 := hsucc
        omega
      · exact absurd hcalls (Bool.eq_false_iff.mp hpart)
    refine ⟨hdepth ▸ henters.gives_call hcalls hbody, fun q hq => ?_⟩
    have hnot := fun q => not_precedes_of_raises (q := q) hpath hraises
    have hret : Relation.ReflTransGen (Enters limits) (body, m₀) (.statement i (.ret e), m₁) :=
      Relation.ReflTransGen.mono (fun _ _ h => h.1) _ _ hpath
    refine ⟨hnot q, ?_⟩
    rcases entered_comparable hq hret with h | h | h | h
    · exact .inl h
    · exact .inr (.inl h)
    · exact .inr (.inr h)
    · exact absurd h (hnot q)

/-- A call of a function that returns in the middle of an array, before a name that is not bound. -/
def early : Expr :=
  .call (.function [] [
    .expr (.array [.integer 1, .conditional [(.boolean true, [.ret (.integer 7)])] none]),
    .expr (.ident "x")]) []

/-- No return crosses that call: it gives what is returned. -/
theorem return_stays_in_its_call_early :
    let limits : Limits := ⟨1, none⟩
    let m : Machine := ⟨Store.empty.addScope none, 0⟩
    let m₁ : Machine := ⟨(m.store.spendId.addScope (some 0)).addScope (some 1), 1⟩
    early.ReturnFree ∧
    (∀ fuel v m', Expr.eval limits fuel 0 early m ≠ .unwound (.returned v) m') ∧
    (Task.expr 0 early).Gives limits m (some (.integer 7)) { m₁ with depth := 0 } := by
  intro limits m m₁
  have hfree : early.ReturnFree := .call (.function _ _) (List.forall_mem_nil _)
  have hintegers : ∀ (i : ScopeId) (n : Int64) (m : Machine),
      (Task.expr i (.integer n)).Gives limits m (some (.integer n)) m :=
    fun _ _ _ => settles_succ.mp (.const rfl rfl)
  have hboolean : ∀ m : Machine,
      (Task.expr 1 (.boolean true)).Gives limits m (some (.boolean true)) m :=
    fun _ => settles_succ.mp (.const rfl rfl)
  have hcallee : (Task.expr 0 (.function [] [
      .expr (.array [.integer 1, .conditional [(.boolean true, [.ret (.integer 7)])] none]),
      .expr (.ident "x")])).Gives limits m (some (.function 0 [] _ 0)) m.spent :=
    settles_succ.mp (.const rfl rfl)
  have hargs : (Task.values 0 []).Gives limits m.spent [] m.spent := .const rfl rfl
  have hbody := Enters.body hcallee hargs Nat.zero_lt_one rfl
  refine ⟨hfree, fun fuel v m' =>
    ((return_stays_in_its_call limits).2.1 fuel 0 m v m').1 _ hfree, ?_⟩
  refine ((return_stays_in_its_call limits).2.2 0 2 _ (.integer 7) [] m m₁ m₁ _ _ _ hbody rfl ?_ rfl
    (hintegers 2 7 m₁)).1
  refine .head ⟨.first, rfl⟩ (.head ⟨.alone, rfl⟩ (.head ⟨.elements, rfl⟩ ?_))
  refine .head ⟨.otherValues (hintegers 1 1 _), rfl⟩
    (.head ⟨.value, rfl⟩ (.head ⟨.clauses, rfl⟩ ?_))
  exact .head ⟨.taken (hboolean _) rfl, rfl⟩ (.single ⟨.first, rfl⟩)

end Scriptlet
