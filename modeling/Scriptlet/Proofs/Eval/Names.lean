import Scriptlet.Proofs.Store.Scopes
import Scriptlet.Proofs.Eval.Discipline

/-!
# Proofs/Eval/Names — which names a scope can gain

Only a `let` adds a name to a scope that is there already, and only to the scope it is evaluated in:
blocks, branches, bodies of loops and calls have new scopes of their own.  So an expression adds no
name to any scope that was there before, and a list of statements adds to its own scope the names of
its own `let`s at most, those at the start of its loops included.
-/

namespace Scriptlet

/-- The scope has kept its outer scope and its names since it was `c`, and has gained only names
that it `may` gain. -/
def Scope.Grown (may : String → Prop) (c c' : Scope) : Prop :=
  c'.outer = c.outer ∧ ∃ gained, c'.names = gained ++ c.names ∧ ∀ x ∈ gained, may x

/-! `Grown` is about one scope between two times, and `Store.GrownSince` about all scopes of a store
since it was `s₀`.  A scope that is made later may gain what it likes. -/

/-- A scope that is as it was has gained nothing. -/
theorem Scope.Grown.refl (may : String → Prop) (c : Scope) : c.Grown may c :=
  ⟨rfl, [], rfl, nofun⟩

theorem Scope.Grown.add {may : String → Prop} {c c' : Scope} (h : c.Grown may c') {x : String}
    (hx : may x) (v : Value) : c.Grown may (c'.add x v) := by
  obtain ⟨houter, gained, hnames, hmay⟩ := h
  refine ⟨houter, x :: gained, ?_, List.forall_mem_cons.mpr ⟨hx, hmay⟩⟩
  rw [Scope.names_add, hnames, List.cons_append]

theorem Scope.Grown.set {may : String → Prop} {c c' : Scope} (h : c.Grown may c') (x : String)
    (v : Value) : c.Grown may (c'.set x v) := by
  rwa [Scope.Grown, Scope.outer_set, Scope.names_set]

/-- Since the store was `s₀`, the scope at `home` may have gained some of `names`, and no other
scope has gained any. -/
def Store.GrownSince (s₀ : Store) (home : ScopeId) (names : List String) (s : Store) : Prop :=
  s₀.nextScope ≤ s.nextScope ∧ ∀ (i : ScopeId) (c : Scope), s₀.scopes[i]? = some c →
    ∃ c' : Scope, s.scopes[i]? = some c' ∧ c.Grown (fun x => i = home ∧ x ∈ names) c'

namespace Store.GrownSince

variable {s₀ s : Store} {home : ScopeId} {names : List String}

/-- A store that is as it was has gained nothing. -/
theorem refl (s₀ : Store) (home : ScopeId) (names : List String) : s₀.GrownSince home names s₀ :=
  ⟨Nat.le_refl _, fun _ c hc => ⟨c, hc, .refl _ c⟩⟩

/-- A new scope adds no name to an old one. -/
theorem addScope (h : s₀.GrownSince home names s) (outer : Option ScopeId) :
    s₀.GrownSince home names (s.addScope outer) := by
  refine ⟨?_, fun k c hc => ?_⟩
  · rw [nextScope_addScope]
    exact Nat.le_succ_of_le h.1
  · obtain ⟨c', hc', hgrown⟩ := h.2 k c hc
    exact ⟨c', by rw [addScope_old outer (lt_nextScope hc'), hc'], hgrown⟩

/-- A change of one scope is a matter of that scope alone. -/
theorem change (h : s₀.GrownSince home names s) {t : Store} {i : ScopeId} {f : Scope → Scope}
    (hchanged : s.Changed t i f)
    (hf : i < s₀.nextScope → ∀ c c' : Scope, c.Grown (fun x => i = home ∧ x ∈ names) c' →
      c.Grown (fun x => i = home ∧ x ∈ names) (f c')) : s₀.GrownSince home names t := by
  refine ⟨hchanged.nextScope ▸ h.1, fun k c hc => ?_⟩
  obtain ⟨c', hc', hgrown⟩ := h.2 k c hc
  by_cases hik : i = k
  · subst hik
    exact ⟨f c', hchanged.at_home hc', hf (lt_nextScope hc) c c' hgrown⟩
  · exact ⟨c', by rw [hchanged.elsewhere hik, hc'], hgrown⟩

/-- A `let` adds its name to its scope, which is new since then or may gain the name. -/
theorem bind (h : s₀.GrownSince home names s) {i : ScopeId} {x : String}
    (hown : s₀.nextScope ≤ i ∨ i = home ∧ x ∈ names) (v : Value) :
    s₀.GrownSince home names (s.bind i x v) :=
  h.change (s.changed_bind i x v) fun hi _ _ hgrown =>
    hgrown.add (hown.resolve_left (Nat.not_le_of_lt hi)) v

theorem set (h : s₀.GrownSince home names s) (i : ScopeId) (x : String) (v : Value) :
    s₀.GrownSince home names (s.set i x v) :=
  h.change (s.changed_set i x v) fun _ _ _ hgrown => hgrown.set x v

end Store.GrownSince

/-- Among the scopes of `s₀`, only the one at `home` gains names, and only some of `names`. -/
def growth (s₀ : Store) (home : ScopeId) (names : List String) : Discipline :=
  .ofStore (fun i x => s₀.nextScope ≤ i ∨ i = home ∧ x ∈ names) (s₀.GrownSince home names)
    (fun _ hs => hs) (fun _ i hs => ⟨hs.addScope (some i), fun _ => .inl hs.1⟩)
    (fun _ _ _ v hs hown => hs.bind hown v) fun _ i x v hs => hs.set i x v

/-- **Scopes that were there before keep exactly their names** and their outer scopes, when an
expression is evaluated.  When statements are evaluated, their own scope may gain names, of their
own `let`s and of those that start their loops; it loses none, and all other scopes keep exactly
theirs. -/
theorem evaluation_keeps_names (limits : Limits) (fuel : Nat) (scope : ScopeId) (m m' : Machine) :
    (∀ e, (Expr.eval limits fuel scope e m).machine? = some m' →
      ∀ (i : ScopeId) (c : Scope), m.store.scopes[i]? = some c →
        ∃ c' : Scope, m'.store.scopes[i]? = some c' ∧ c'.outer = c.outer ∧ c'.names = c.names) ∧
    ∀ b, (Program.run limits fuel scope b m).machine? = some m' →
      ∀ (i : ScopeId) (c : Scope), m.store.scopes[i]? = some c →
        ∃ c' : Scope, m'.store.scopes[i]? = some c' ∧ c'.outer = c.outer ∧
          (i ≠ scope → c'.names = c.names) ∧
          ∃ gained, c'.names = gained ++ c.names ∧ gained ⊆ b.flatMap Statement.ownNames := by
  refine ⟨fun e hend i c hc => ?_, fun b hend i c hc => ?_⟩
  · have hkept := (growth m.store scope []).of_expr trivial (.refl _ _ _) hend
    obtain ⟨c', hc', houter, gained, hnames, hmay⟩ := hkept.1.2 i c hc
    have hnone : gained = [] := List.eq_nil_iff_forall_not_mem.mpr fun x hx => nomatch (hmay x hx).2
    exact ⟨c', hc', houter, by rw [hnames, hnone, List.nil_append]⟩
  · have hown : ∀ s ∈ b, ∀ x ∈ s.ownNames,
        (growth m.store scope (b.flatMap Statement.ownNames)).own scope x :=
      fun s hs x hx => .inr ⟨rfl, List.mem_flatMap.mpr ⟨s, hs, hx⟩⟩
    have hkept := (growth m.store scope (b.flatMap Statement.ownNames)).of_program trivial hown
      (.refl _ _ _) hend
    obtain ⟨c', hc', houter, gained, hnames, hmay⟩ := hkept.1.2 i c hc
    refine ⟨c', hc', houter, fun hi => ?_, gained, hnames, fun x hx => (hmay x hx).2⟩
    have hnone : gained = [] := List.eq_nil_iff_forall_not_mem.mpr fun x hx => hi (hmay x hx).1
    rw [hnames, hnone, List.nil_append]

/-- `let a = 1; for (let go = true; go; go = false) { let inside = a } fn() { let local = a }()` -/
def binder : Program :=
  [.bind "a" (.integer 1),
    .loop (some (.bind "go" (.boolean true))) (some (.ident "go"))
      (some (.binary .assign (.ident "go") (.boolean false))) [.bind "inside" (.ident "a")],
    .expr (.call (.function [] [.bind "local" (.ident "a")]) [])]

/-- The scope it runs in keeps the name that it had, and may gain two. -/
theorem binder_keeps_names :
    let m : Machine := ⟨(Store.empty.addScope none).bind 0 "old" .null, 0⟩
    ∃ m', (Program.run {} 20 0 binder m).machine? = some m' ∧
      ∃ c' : Scope, m'.store.scopes[0]? = some c' ∧
        ∃ gained, c'.names = gained ++ ["old"] ∧ gained ⊆ ["a", "go"] := by
  intro m
  obtain ⟨m', hm'⟩ : ∃ m', (Program.run {} 20 0 binder m).machine? = some m' :=
    Option.isSome_iff_exists.mp (by decide +kernel)
  obtain ⟨c', hc', -, -, gained, hnames, hgained⟩ :=
    (evaluation_keeps_names {} 20 0 m m').2 binder hm' 0 ⟨none, [("old", .null)]⟩ rfl
  exact ⟨m', hm', c', hc', gained, hnames, hgained⟩

end Scriptlet
