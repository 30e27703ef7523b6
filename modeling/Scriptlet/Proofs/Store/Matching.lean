import Scriptlet.Proofs.Value.Alike

/-!
# Proofs/Store/Matching — stores up to renaming

Two stores **match** under a renaming when scopes that stand for each other bind the same names to
values that are alike.  Other scopes do not matter: either store may have any number of them.

Names are then looked up alike, and what is done to both stores alike keeps them matching; for a new
scope or a new identity on both sides, the renaming gains a pair.
-/

namespace Scriptlet

/-! ## One scope

Bindings correspond one by one, in their order.  So a name that is looked up in both scopes is found
at the same place in both. -/

/-- Two scopes are alike: they are in scopes that stand for each other, if in any, and bind the same
names, in the same order, to values that are alike. -/
structure Scope.Alike (r : Renaming) (c c' : Scope) : Prop where
  outer : Option.Rel r.scope c.outer c'.outer
  bindings : List.Forall₂ (EntryRel (Value.Alike r)) c.bindings c'.bindings

namespace Scope.Alike

variable {r r' : Renaming} {c c' : Scope} {v v' : Value}

/-- With a larger renaming they are still alike. -/
theorem mono (hle : r ≤ r') (h : c.Alike r c') : c.Alike r' c' := by
  refine ⟨?_, h.bindings.imp fun _ _ hb => ⟨hb.1, hb.2.mono hle⟩⟩
  rcases rel_cases h.outer with ⟨ho, ho'⟩ | ⟨o, o', ho, ho', hoo⟩
  · rw [ho, ho']
    exact .none
  · rw [ho, ho']
    exact .some (hle.1 o o' hoo)

/-- A name of theirs stands for values that are alike. -/
theorem get? (h : c.Alike r c') (x : String) : Option.Rel (Value.Alike r) (c.get? x) (c'.get? x) :=
  rel_lookup h.bindings x

theorem binds_eq (h : c.Alike r c') (x : String) : c.binds x = c'.binds x := by
  unfold Scope.binds
  rcases rel_cases (h.get? x) with ⟨hc, hc'⟩ | ⟨v, v', hc, hc', -⟩
  · rw [hc, hc']
  · rw [hc, hc']
    rfl

theorem add (h : c.Alike r c') (x : String) (hv : v.Alike r v') :
    (c.add x v).Alike r (c'.add x v') :=
  ⟨h.outer, .cons ⟨rfl, hv⟩ h.bindings⟩

theorem set (h : c.Alike r c') (x : String) (hv : v.Alike r v') :
    (c.set x v).Alike r (c'.set x v') := by
  refine ⟨h.outer, List.rel_map (fun b b' hb => ?_) h.bindings⟩
  rw [← hb.1]
  split
  · exact ⟨rfl, hv⟩
  · exact hb

end Scope.Alike

/-! ## Older scopes

An outer scope is made before those inside it, so following outer scopes leads down to lower places.
-/

/-- Every outer scope is older than the scopes inside it. -/
def Store.Ordered (s : Store) : Prop :=
  ∀ (i : ScopeId) (c : Scope) (o : ScopeId), s.scopes[i]? = some c → c.outer = some o → o < i

namespace Store.Ordered

variable {s : Store}

theorem addScope (hs : s.Ordered) {i : ScopeId} (hi : i < s.nextScope) :
    (s.addScope (some i)).Ordered := by
  intro k c o hc ho
  rcases addScope_cases hc with hc | ⟨rfl, rfl⟩
  · exact hs k c o hc ho
  · cases ho
    exact hi

theorem addRoot (hs : s.Ordered) : (s.addScope none).Ordered := by
  intro k c o hc ho
  rcases addScope_cases hc with hc | ⟨-, rfl⟩
  · exact hs k c o hc ho
  · cases ho

/-- The order is a matter of outer scopes, which do not change. -/
theorem change (hs : s.Ordered) {t : Store} {home : ScopeId} {f : Scope → Scope}
    (h : s.Changed t home f) : t.Ordered := by
  intro k c o hc ho
  obtain ⟨c₀, hc₀, rfl | rfl⟩ := h.scope_cases hc
  · exact hs k c o hc₀ ho
  · exact hs k c₀ o hc₀ (h.outer c₀ ▸ ho)

end Store.Ordered

/-! ## Whole stores

Matching is asked only of scopes that stand for others.  Two stores with no such scopes match,
whatever is in them. -/

/-- Under the renaming, the stores **match**. -/
structure Store.Matches (r : Renaming) (s t : Store) : Prop where
  scope : ∀ {i j : ScopeId}, r.scope i j →
    ∃ c c' : Scope, s.scopes[i]? = some c ∧ t.scopes[j]? = some c' ∧ c.Alike r c'
  identity : ∀ {i j : Identity}, r.identity i j → i < s.nextId ∧ j < t.nextId
  left : s.Ordered
  right : t.Ordered

namespace Store.Matches

variable {r : Renaming} {s t : Store} {i j : ScopeId} {v v' : Value}

/-- Only scopes that are there stand for each other. -/
theorem lt_nextScope (h : s.Matches r t) (hij : r.scope i j) : i < s.nextScope ∧ j < t.nextScope :=
  let ⟨_, _, hc, hc', _⟩ := h.scope hij
  ⟨Store.lt_nextScope hc, Store.lt_nextScope hc'⟩

/-- Only the scopes and identities that stand for others matter. -/
theorem congr (h : s.Matches r t) {s' : Store} (hordered : s'.Ordered)
    (hscopes : ∀ i j, r.scope i j → s'.scopes[i]? = s.scopes[i]?) (hid : s.nextId ≤ s'.nextId) :
    s'.Matches r t := by
  refine ⟨fun hij => ?_, fun hij => ?_, hordered, h.right⟩
  · rw [hscopes _ _ hij]
    exact h.scope hij
  · exact ⟨Nat.lt_of_lt_of_le (h.identity hij).1 hid, (h.identity hij).2⟩

/-- The scopes that stand for others refer to such scopes only. -/
theorem closed (h : s.Matches r t) : s.Closed fun i => ∃ j, r.scope i j := by
  constructor
  · rintro i c o ⟨j, hij⟩ hc ho
    obtain ⟨c₁, c', hc₁, -, hcc⟩ := h.scope hij
    obtain rfl : c₁ = c := Option.some.inj (hc₁.symm.trans hc)
    rcases rel_cases hcc.outer with ⟨hnone, -⟩ | ⟨o₁, o', ho₁, -, hoo⟩
    · exact absurd (hnone.symm.trans ho) (Option.some_ne_none o).symm
    · obtain rfl : o₁ = o := Option.some.inj (ho₁.symm.trans ho)
      exact ⟨o', hoo⟩
  · rintro i c b ⟨j, hij⟩ hc hb k ⟨id, params, body, hk⟩
    obtain ⟨c₁, c', hc₁, -, hcc⟩ := h.scope hij
    obtain rfl : c₁ = c := Option.some.inj (hc₁.symm.trans hc)
    obtain ⟨b', hbb⟩ := rel_exists hcc.bindings hb
    obtain ⟨u', hu'⟩ := hbb.2.held hk
    cases hu' with
    | plain hplain => cases hplain
    | function _ _ _ hkl => exact ⟨_, hkl⟩

/-! ### Looking up

A search goes through scopes that stand for each other on both sides.  The two stores may have
different numbers of scopes, so the bounds on the steps differ, but neither is met. -/

/-- Looking up goes through scopes that stand for each other.  They may have different places, so it
may take fewer steps on one side; on neither side it takes more than the place of the first scope.
-/
theorem resolveWithin (h : s.Matches r t) (x : String) {m n : Nat} (hij : r.scope i j) (hm : i < m)
    (hn : j < n) : Option.Rel r.scope (s.resolveWithin x m i) (t.resolveWithin x n j) := by
  -- On the number of steps; the outer scopes of scopes that stand for each other do so, too.
  induction m generalizing i j n with
  | zero => cases hm
  | succ m ih =>
    obtain ⟨n, rfl⟩ := Nat.exists_eq_add_one_of_ne_zero (Nat.ne_zero_of_lt hn)
    obtain ⟨c, c', hc, hc', hcc⟩ := h.scope hij
    simp only [Store.resolveWithin, hc, hc', hcc.binds_eq x]
    split
    · exact .some hij
    · rcases rel_cases hcc.outer with ⟨ho, ho'⟩ | ⟨o, o', ho, ho', hoo⟩
      · rw [ho, ho']
        exact .none
      · rw [ho, ho']
        have hlt := h.left i c o hc ho
        have hlt' := h.right j c' o' hc' ho'
        exact ih hoo (Nat.lt_of_lt_of_le hlt (Nat.le_of_lt_succ hm))
          (Nat.lt_of_lt_of_le hlt' (Nat.le_of_lt_succ hn))

/-- A name is found in scopes that stand for each other, or in neither. -/
theorem resolve (h : s.Matches r t) (hij : r.scope i j) (x : String) :
    Option.Rel r.scope (s.resolve i x) (t.resolve j x) :=
  h.resolveWithin x hij (Nat.lt_succ_self i) (Nat.lt_succ_self j)

theorem get? (h : s.Matches r t) (hij : r.scope i j) (x : String) :
    Option.Rel (Value.Alike r) (s.get? i x) (t.get? j x) := by
  unfold Store.get?
  rcases rel_cases (h.resolve hij x) with ⟨hs, ht⟩ | ⟨k, l, hs, ht, hkl⟩
  · rw [hs, ht]
    exact .none
  · obtain ⟨c, c', hc, hc', hcc⟩ := h.scope hkl
    rw [hs, ht]
    simpa only [Option.bind_eq_bind, Option.bind_some, hc, hc'] using hcc.get? x

theorem owns_eq (h : s.Matches r t) (hij : r.scope i j) (x : String) : s.owns i x = t.owns j x := by
  obtain ⟨c, c', hc, hc', hcc⟩ := h.scope hij
  simpa only [Store.owns, hc, hc'] using hcc.binds_eq x

/-! ### Changes -/

/-- One change to two scopes that stand for each other. -/
theorem change (h : s.Matches r t) (hij : r.scope i j) {f g : Scope → Scope} {s' t' : Store}
    (hs : s.Changed s' i f) (ht : t.Changed t' j g)
    (hfg : ∀ c c', c.Alike r c' → (f c).Alike r (g c')) : s'.Matches r t' := by
  refine ⟨fun {k l} hkl => ?_, fun hkl => hs.nextId ▸ ht.nextId ▸ h.identity hkl,
    h.left.change hs, h.right.change ht⟩
  obtain ⟨c, c', hc, hc', hcc⟩ := h.scope hkl
  by_cases hik : i = k
  · subst hik
    obtain rfl := r.scope_unique.2 hij hkl
    exact ⟨f c, g c', hs.at_home hc, ht.at_home hc', hfg c c' hcc⟩
  · have hjl : j ≠ l := fun hjl => hik (r.scope_unique.1 hij (hjl ▸ hkl))
    exact ⟨c, c', by rw [hs.elsewhere hik, hc], by rw [ht.elsewhere hjl, hc'], hcc⟩

/-! What is done to scopes that stand for each other, with values that are alike, keeps the stores
matching. -/

theorem bind (h : s.Matches r t) (hij : r.scope i j) (x : String) (hv : v.Alike r v') :
    (s.bind i x v).Matches r (t.bind j x v') :=
  h.change hij (s.changed_bind i x v) (t.changed_bind j x v') fun _ _ hcc => hcc.add x hv

theorem set (h : s.Matches r t) (hij : r.scope i j) (x : String) (hv : v.Alike r v') :
    (s.set i x v).Matches r (t.set j x v') :=
  h.change hij (s.changed_set i x v) (t.changed_set j x v') fun _ _ hcc => hcc.set x hv

/-! ### New scopes and new identities

What is made on both sides is new on both sides, and the renaming is extended by the pair; no pair
that is there already is touched. -/

/-- A new identity on either side: the two may stand for each other. -/
theorem spendId (h : s.Matches r t) :
    ∃ hi hj, s.spendId.Matches (r.addIdentity s.nextId t.nextId hi hj) t.spendId := by
  have hi : ∀ l, ¬ r.identity s.nextId l := fun l hl => Nat.lt_irrefl _ (h.identity hl).1
  have hj : ∀ k, ¬ r.identity k t.nextId := fun k hk => Nat.lt_irrefl _ (h.identity hk).2
  refine ⟨hi, hj, fun hkl => ?_, ?_, h.left, h.right⟩
  · obtain ⟨c, c', hc, hc', hcc⟩ := h.scope hkl
    exact ⟨c, c', hc, hc', hcc.mono (Renaming.le_addIdentity hi hj)⟩
  · rintro k l (hkl | ⟨rfl, rfl⟩)
    · exact ⟨Nat.lt_succ_of_lt (h.identity hkl).1, Nat.lt_succ_of_lt (h.identity hkl).2⟩
    · exact ⟨Nat.lt_succ_self _, Nat.lt_succ_self _⟩

/-- A new scope on either side, inside scopes that stand for each other: so may these two. -/
theorem addScope (h : s.Matches r t) (hij : r.scope i j) :
    ∃ hi hj, (s.addScope (some i)).Matches (r.addScope s.nextScope t.nextScope hi hj)
      (t.addScope (some j)) := by
  have hi : ∀ l, ¬ r.scope s.nextScope l := fun l hl => Nat.lt_irrefl _ (h.lt_nextScope hl).1
  have hj : ∀ k, ¬ r.scope k t.nextScope := fun k hk => Nat.lt_irrefl _ (h.lt_nextScope hk).2
  refine ⟨hi, hj, ?_, h.identity, h.left.addScope (h.lt_nextScope hij).1,
    h.right.addScope (h.lt_nextScope hij).2⟩
  rintro k l (hkl | ⟨rfl, rfl⟩)
  · obtain ⟨c, c', hc, hc', hcc⟩ := h.scope hkl
    refine ⟨c, c', ?_, ?_, hcc.mono (Renaming.le_addScope hi hj)⟩
    · rw [addScope_old _ (Store.lt_nextScope hc), hc]
    · rw [addScope_old _ (Store.lt_nextScope hc'), hc']
  · exact ⟨⟨some i, []⟩, ⟨some j, []⟩, addScope_new s _, addScope_new t _, .some (.inl hij), .nil⟩

end Store.Matches

/-! ## Sound stores

A store that was built by adding scopes and binding values made along the way refers to nothing that
is not there. -/

/-- Outer scopes are older; functions are made in scopes that are there, and identities are given
out. -/
structure Store.Sound (s : Store) : Prop where
  ordered : s.Ordered
  captured : ∀ (i : ScopeId) (c : Scope) (b : String × Value) (k : ScopeId),
    s.scopes[i]? = some c → b ∈ c.bindings → b.2.Captures k → k < s.nextScope
  identity : ∀ (i : ScopeId) (c : Scope) (b : String × Value) (u : Value) (n : Identity),
    s.scopes[i]? = some c → b ∈ c.bindings → Value.Holds u b.2 → u.identity? = some n → n < s.nextId

/-- The scopes in `A` stand for themselves, and so do the identities below `n`. -/
def Renaming.unchanged (A : ScopeId → Prop) (n : Identity) : Renaming where
  scope i j := i = j ∧ A i
  identity i j := i = j ∧ i < n
  scope_unique := ⟨fun _ _ _ h h' => h.1.trans h'.1.symm, fun _ _ _ h h' => h.1.symm.trans h'.1⟩
  identity_unique := ⟨fun _ _ _ h h' => h.1.trans h'.1.symm, fun _ _ _ h h' => h.1.symm.trans h'.1⟩

namespace Store.Sound

variable {s t : Store} {r : Renaming} {A : ScopeId → Prop}

/-- All scopes that are there are closed under reaching. -/
theorem closed (hs : s.Sound) : s.Closed (· < s.nextScope) :=
  ⟨fun hi hc ho => Nat.lt_trans (hs.ordered _ _ _ hc ho) hi,
    fun _ hc hb k hk => hs.captured _ _ _ k hc hb hk⟩

theorem lt_of_reaches (hs : s.Sound) {i j : ScopeId} (hi : i < s.nextScope) (h : s.Reaches i j) :
    j < s.nextScope :=
  hs.closed.of_reaches hi h

/-- **A sound store matches itself**, in any part of it that is closed. -/
theorem matches_self (hs : s.Sound) (hA : s.Closed A) (hlt : ∀ i, A i → i < s.nextScope) :
    s.Matches (.unchanged A s.nextId) s := by
  refine ⟨?_, ?_, hs.ordered, hs.ordered⟩
  · rintro i _ ⟨rfl, hi⟩
    obtain ⟨c, hc⟩ : ∃ c, s.scopes[i]? = some c := ⟨_, Array.getElem?_eq_getElem (hlt i hi)⟩
    refine ⟨c, c, hc, hc, ?_, List.forall₂_same.mpr fun b hb => ⟨rfl, .refl b.2 ?_ ?_⟩⟩
    · cases ho : c.outer with
      | none => exact .none
      | some o => exact .some ⟨rfl, hA.outer hi hc ho⟩
    · exact fun k hk => ⟨rfl, hA.bindings hi hc hb k hk⟩
    · exact fun u n hu hn => ⟨rfl, hs.identity i c b u n hc hb hu hn⟩
  · rintro i _ ⟨rfl, hi⟩
    exact ⟨hi, hi⟩

/-- A store is sound if every scope of it has its like in a store that matches it. -/
theorem of_matches (h : s.Matches r t) (hall : ∀ i, i < s.nextScope → ∃ j, r.scope i j) :
    s.Sound := by
  -- each value that is bound is like some value
  have hlike : ∀ {i : ScopeId} {c : Scope} {b : String × Value}, s.scopes[i]? = some c →
      b ∈ c.bindings → ∃ v, b.2.Alike r v := by
    intro i c b hc hb
    obtain ⟨j, hij⟩ := hall i (Store.lt_nextScope hc)
    obtain ⟨c₁, c', hc₁, -, hcc⟩ := h.scope hij
    obtain rfl : c₁ = c := Option.some.inj (hc₁.symm.trans hc)
    obtain ⟨b', hb'⟩ := rel_exists hcc.bindings hb
    exact ⟨b'.2, hb'.2⟩
  refine ⟨h.left, fun i c b k hc hb hk => ?_, fun i c b u n hc hb hu hn => ?_⟩
  · obtain ⟨v, hv⟩ := hlike hc hb
    obtain ⟨id, params, body, hk⟩ := hk
    obtain ⟨u', hu'⟩ := hv.held hk
    cases hu' with
    | plain hplain => cases hplain
    | function _ _ _ hkl => exact (h.lt_nextScope hkl).1
  · obtain ⟨v, hv⟩ := hlike hc hb
    obtain ⟨u', hu'⟩ := hv.held hu
    obtain ⟨j, hij⟩ := hu'.identity_of hn
    exact (h.identity hij).1

/-! ### Roots

A sound store matches itself under the renaming that keeps all its scopes. -/

/-- With no scope at all, nothing is missing. -/
theorem empty : Store.empty.Sound :=
  ⟨fun _ _ _ hc => absurd hc (by simp [Store.empty]),
    fun _ _ _ _ hc => absurd hc (by simp [Store.empty]),
    fun _ _ _ _ _ hc => absurd hc (by simp [Store.empty])⟩

/-- A scope that is in no other reaches only itself. -/
theorem addRoot (hs : s.Sound) : (s.addScope none).Sound := by
  refine ⟨hs.ordered.addRoot, fun i c b k hc hb hk => ?_, fun i c b u n hc hb hu hn => ?_⟩
  · rcases addScope_cases hc with hc | ⟨-, rfl⟩
    · rw [nextScope_addScope]
      exact Nat.lt_succ_of_lt (hs.captured i c b k hc hb hk)
    · cases hb
  · rcases addScope_cases hc with hc | ⟨-, rfl⟩
    · exact hs.identity i c b u n hc hb hu hn
    · cases hb

/-- **A new root shares no scope** with the scopes that were there before. -/
theorem root_apart (hs : s.Sound) {i : ScopeId} (hi : i < s.nextScope) (k : ScopeId)
    (hk : (s.addScope none).Reaches i k) : ¬ (s.addScope none).Reaches s.nextScope k := by
  have hold : (s.addScope none).Closed (· < s.nextScope) := hs.closed.congr fun k hk =>
    addScope_old none hk
  have hnew : (s.addScope none).Closed (· = s.nextScope) := by
    constructor
    · rintro k c o rfl hc ho
      rw [addScope_new] at hc
      cases hc
      cases ho
    · rintro k c b rfl hc hb
      rw [addScope_new] at hc
      cases hc
      cases hb
  intro hk'
  exact Nat.ne_of_lt (hold.of_reaches hi hk) (hnew.of_reaches rfl hk')

end Store.Sound

end Scriptlet
