import Scriptlet.Proofs.Eval.Coupling

/-!
# Proofs/Eval/Discipline — what every run keeps

A `Discipline` is a property of values, of scopes to evaluate in and of the store, such that what
evaluation makes out of values with the property has it too, and each change to the store keeps it.
Then evaluation as a whole keeps it, however it ends, and leaves as many calls active as there were.

It needs no induction of its own: a run that keeps a discipline is a run coupled with itself.
-/

namespace Scriptlet

/-- The machine on which a run ended. -/
def Outcome.machine? {α : Type} : Outcome α → Option Machine
  | .done _ m => some m
  | .unwound _ m => some m
  | .outOfFuel => none

/-- The machine that a program leaves is the one on which its run ended. -/
theorem Program.machine?_of_eval {limits : Limits} {n : Nat} {scope : ScopeId} {p : Program}
    {m m' : Machine} {v : Value} (h : Program.eval limits n scope p m = some (v, m')) :
    (Program.run limits n scope p m).machine? = some m' := by
  unfold Program.eval at h
  split at h <;> cases h <;> simp only [Outcome.machine?, *]

/-- A property of values and of stores that evaluation keeps. -/
structure Discipline where
  value : Value → Prop
  /-- Evaluation may go on in the scope. -/
  scope : ScopeId → Prop
  /-- The name may be bound in the scope. -/
  own : ScopeId → String → Prop
  store : Store → Prop
  plain : ∀ {v}, v.isPlain → value v
  array : ∀ {i es}, value (.array i es) ↔ ∀ e ∈ es, value e
  hash : ∀ {i ps}, WellKeyed ps → (∀ p ∈ ps, p.2.All value) → value (.hash i ps)
  entries : ∀ {i ps}, value (.hash i ps) → ∀ p ∈ ps, p.2.All value
  function : ∀ {i params body s}, variadicLast params → scope s →
    value (.function i params body s)
  captured : ∀ {i params body s}, value (.function i params body s) → scope s
  lookup : ∀ {s i x v}, store s → scope i → s.get? i x = some v → value v
  spendId : ∀ {s}, store s → store s.spendId
  addScope : ∀ {s i}, store s → scope i →
    store (s.addScope (some i)) ∧ scope s.nextScope ∧ ∀ x, own s.nextScope x
  bind : ∀ {s i x v}, store s → own i x → value v → s.owns i x = false → store (s.bind i x v)
  assign : ∀ {s i x v home}, store s → scope i → value v → s.resolve i x = some home →
    store (s.set home x v)

namespace Discipline

variable {D : Discipline}

/-- A discipline that asks for nothing but a property of stores. -/
def ofStore (own : ScopeId → String → Prop) (store : Store → Prop)
    (spendId : ∀ s, store s → store s.spendId)
    (addScope : ∀ s i, store s → store (s.addScope (some i)) ∧ ∀ x, own s.nextScope x)
    (bind : ∀ s i x v, store s → own i x → store (s.bind i x v))
    (assign : ∀ s home x v, store s → store (s.set home x v)) : Discipline where
  value _ := True
  scope _ := True
  own := own
  store := store
  plain _ := trivial
  array := ⟨fun _ _ _ => trivial, fun _ => trivial⟩
  hash _ _ := trivial
  entries _ _ _ := ⟨trivial, trivial⟩
  function _ _ := trivial
  captured _ := trivial
  lookup _ _ _ := trivial
  spendId hs := spendId _ hs
  addScope {s i} hs _ := ⟨(addScope s i hs).1, trivial, (addScope s i hs).2⟩
  bind hs hown _ _ := bind _ _ _ _ hs hown
  assign hs _ _ _ := assign _ _ _ _ hs

/-- The discipline that asks for nothing. -/
def anything : Discipline :=
  ofStore (fun _ _ => True) (fun _ => True) (fun _ _ => trivial)
    (fun _ _ _ => ⟨trivial, fun _ => trivial⟩) (fun _ _ _ _ _ _ => trivial)
    fun _ _ _ _ _ => trivial

/-- A relation that holds on the diagonal only, between values with the property. -/
theorem forall₂_diagonal {α : Type} {R : α → α → Prop} {P : α → Prop}
    (hR : ∀ a b, R a b ↔ a = b ∧ P a) {as bs : List α} :
    List.Forall₂ R as bs ↔ as = bs ∧ ∀ a ∈ as, P a := by
  constructor
  · intro h
    induction h with
    | nil => exact ⟨rfl, nofun⟩
    | @cons a b as bs hab _ ih =>
      obtain ⟨rfl, ha⟩ := (hR _ _).mp hab
      obtain ⟨rfl, has⟩ := ih
      exact ⟨rfl, List.forall_mem_cons.mpr ⟨ha, has⟩⟩
  · rintro ⟨rfl, h⟩
    exact List.forall₂_same.mpr fun a ha => (hR a a).mpr ⟨rfl, h a ha⟩

/-- The same for entries, of which both values have the property. -/
theorem entryRel_diagonal {P : Value → Prop} (p q : HashEntry) :
    EntryRel (HashPair.Rel fun v v' => v = v' ∧ P v) p q ↔ p = q ∧ p.2.All P := by
  obtain ⟨k, u, v⟩ := p
  obtain ⟨l, u', v'⟩ := q
  constructor
  · rintro ⟨rfl, ⟨rfl, hu⟩, rfl, hv⟩
    exact ⟨rfl, hu, hv⟩
  · rintro ⟨h, hu, hv⟩
    cases h
    exact ⟨rfl, ⟨rfl, hu⟩, rfl, hv⟩

/-- A run that keeps the discipline, beside itself. -/
def coupling (D : Discipline) : Coupling where
  World := Unit
  le _ _ := True
  value _ v v' := v = v' ∧ D.value v
  scope _ i j := i = j ∧ D.scope i
  own _ i j x := i = j ∧ D.own i x
  store _ s t := s = t ∧ D.store s
  le_refl _ := trivial
  le_trans _ _ := trivial
  value_mono _ h := h
  scope_mono _ h := h
  own_mono _ h := h
  shaped := by
    rintro _ v _ ⟨rfl, hv⟩
    cases v with
    | array i es =>
      exact .array i i ((forall₂_diagonal fun _ _ => Iff.rfl).mpr ⟨rfl, D.array.mp hv⟩)
    | hash i ps =>
      exact .hash i i ((forall₂_diagonal entryRel_diagonal).mpr ⟨rfl, D.entries hv⟩)
    | function i params body s => exact .function i i params body ⟨rfl, D.captured hv⟩
    | error message => exact .error message
    | _ => exact .plain rfl
  same := by
    rintro _ _ _ _ _ ⟨rfl, _⟩ ⟨rfl, _⟩
    rfl
  plain h := ⟨rfl, D.plain h⟩
  lookup := by
    rintro _ s _ i _ ⟨rfl, hs⟩ ⟨rfl, hi⟩ x
    cases hv : s.get? i x with
    | none => exact .none
    | some v => exact .some ⟨rfl, D.lookup hs hi hv⟩
  make := by
    rintro _ s _ v v' ⟨rfl, hs⟩ hmade
    refine ⟨(), trivial, ⟨rfl, D.spendId hs⟩, ?_⟩
    cases hmade with
    | array h =>
      obtain ⟨rfl, hes⟩ := (forall₂_diagonal fun _ _ => Iff.rfl).mp h
      exact ⟨rfl, D.array.mpr hes⟩
    | hash hkeyed h =>
      obtain ⟨rfl, hps⟩ := (forall₂_diagonal entryRel_diagonal).mp h
      exact ⟨rfl, D.hash hkeyed hps⟩
    | function body hlast h =>
      obtain ⟨rfl, hs⟩ := h
      exact ⟨rfl, D.function hlast hs⟩
  addScope := by
    rintro _ s _ i _ ⟨rfl, hs⟩ ⟨rfl, hi⟩
    obtain ⟨hs', hscope, hown⟩ := D.addScope hs hi
    exact ⟨(), trivial, ⟨rfl, hs'⟩, ⟨rfl, hscope⟩, fun x => ⟨rfl, hown x⟩⟩
  owns := by
    rintro _ _ _ _ _ _ ⟨rfl, _⟩ ⟨rfl, _⟩
    rfl
  bind := by
    rintro _ _ _ _ _ _ _ _ ⟨rfl, hs⟩ ⟨rfl, hx⟩ ⟨rfl, hv⟩ howns
    exact ⟨rfl, D.bind hs hx hv howns⟩
  assign := by
    rintro _ s _ i _ x _ _ ⟨rfl, hs⟩ ⟨rfl, hi⟩ ⟨rfl, hv⟩
    cases hhome : s.resolve i x with
    | none => exact .none
    | some home => exact .some ⟨rfl, D.assign hs hi hv hhome⟩

/-- **A run coupled with itself** keeps the discipline and the number of active calls. -/
theorem of_lockstep {α : Type} {φ : Unit → α → α → Prop} {x : Eval α}
    (h : D.coupling.Lockstep φ () x x) {m m' : Machine} (hm : D.store m.store)
    (hend : (x m).machine? = some m') : D.store m'.store ∧ m'.depth = m.depth := by
  have hx := h m.store m.store m.depth ⟨rfl, hm⟩
  generalize ho : x ⟨m.store, m.depth⟩ = o at hx
  rw [show x m = o from ho] at hend
  cases hx with
  | done _ hst _ | returned _ hst _ | failed _ hst =>
    cases hend
    exact ⟨hst.2, rfl⟩
  | outOfFuel => cases hend

/-- **Evaluation of an expression keeps every discipline.** -/
theorem of_expr (D : Discipline) {limits : Limits} {n : Nat} {i : ScopeId} (hi : D.scope i)
    {e : Expr} {m m' : Machine} (hm : D.store m.store)
    (hend : (Expr.eval limits n i e m).machine? = some m') :
    D.store m'.store ∧ m'.depth = m.depth :=
  of_lockstep ((D.coupling.inStep limits n () i i ⟨rfl, hi⟩).1 e) hm hend

/-- **So does a program**, if the names it binds in its own scope may be bound there. -/
theorem of_program (D : Discipline) {limits : Limits} {n : Nat} {i : ScopeId} (hi : D.scope i)
    {p : Program} (hown : ∀ s ∈ p, ∀ x ∈ s.ownNames, D.own i x) {m m' : Machine}
    (hm : D.store m.store) (hend : (Program.run limits n i p m).machine? = some m') :
    D.store m'.store ∧ m'.depth = m.depth :=
  of_lockstep ((D.coupling.inStep limits n).row ⟨rfl, hi⟩
    (fun s hs x hx => ⟨rfl, hown s hs x hx⟩) .none) hm hend

end Discipline

end Scriptlet
