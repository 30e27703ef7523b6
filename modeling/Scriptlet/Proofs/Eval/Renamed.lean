import Scriptlet.Proofs.Store.Matching
import Scriptlet.Proofs.Eval.Discipline

/-!
# Proofs/Eval/Renamed — evaluation up to renaming

Evaluation in two scopes that stand for each other, of two stores that match, ends alike: the places
and identities it gives out differ, but the renaming grows with them.  Whatever else the first store
holds is left as it is.
-/

namespace Scriptlet

/-- Since the store was `s₀`, under `r₀`, all new scopes stand for others, no other scope has begun
to, and scopes that stood for none are as they were. -/
structure Since (r₀ : Renaming) (s₀ : Store) (r : Renaming) (s : Store) : Prop where
  nextScope : s₀.nextScope ≤ s.nextScope
  nextId : s₀.nextId ≤ s.nextId
  new : ∀ i : ScopeId, s₀.nextScope ≤ i → i < s.nextScope → ∃ j, r.scope i j
  old : ∀ i j : ScopeId, r.scope i j → i < s₀.nextScope → r₀.scope i j
  kept : ∀ i : ScopeId, i < s₀.nextScope → (∀ j, ¬ r₀.scope i j) → s.scopes[i]? = s₀.scopes[i]?

namespace Since

variable {r₀ r : Renaming} {s₀ s : Store}

/-! While two runs go on side by side, places and identities are given out on both sides, and the
renaming is extended by each pair of them.  `Since` says what that leaves alone: a scope that stood
for none before does not begin to, and is not changed. -/

theorem refl (r : Renaming) (s : Store) : Since r s r s :=
  ⟨Nat.le_refl _, Nat.le_refl _, fun _ h h' => absurd h' (Nat.not_lt_of_le h), fun _ _ h _ => h,
    fun _ _ _ => rfl⟩

theorem spendId (h : Since r₀ s₀ r s) {j : Identity} (hi : ∀ l, ¬ r.identity s.nextId l)
    (hj : ∀ k, ¬ r.identity k j) : Since r₀ s₀ (r.addIdentity s.nextId j hi hj) s.spendId :=
  ⟨h.nextScope, Nat.le_succ_of_le h.nextId, h.new, h.old, h.kept⟩

/-- A scope is made on both sides, and the two stand for each other. -/
theorem addScope (h : Since r₀ s₀ r s) (outer : Option ScopeId) {j : ScopeId}
    (hi : ∀ l, ¬ r.scope s.nextScope l) (hj : ∀ k, ¬ r.scope k j) :
    Since r₀ s₀ (r.addScope s.nextScope j hi hj) (s.addScope outer) := by
  refine ⟨?_, h.nextId, fun k hk hk' => ?_, fun k l hkl hk => ?_, fun k hk hnone => ?_⟩
  · rw [Store.nextScope_addScope]
    exact Nat.le_succ_of_le h.nextScope
  · rw [Store.nextScope_addScope] at hk'
    rcases Nat.lt_or_eq_of_le (Nat.le_of_lt_succ hk') with hlt | rfl
    · obtain ⟨l, hl⟩ := h.new k hk hlt
      exact ⟨l, .inl hl⟩
    · exact ⟨j, .inr ⟨rfl, rfl⟩⟩
  · rcases hkl with hkl | ⟨rfl, -⟩
    · exact h.old k l hkl hk
    · exact absurd hk (Nat.not_lt_of_le h.nextScope)
  · rw [Store.addScope_old outer (Nat.lt_of_lt_of_le hk h.nextScope), h.kept k hk hnone]

/-- A change of a scope that stands for another leaves those alone that stand for none. -/
theorem change (h : Since r₀ s₀ r s) {i j : ScopeId} (hij : r.scope i j) {f : Scope → Scope}
    {t : Store} (hchanged : s.Changed t i f) : Since r₀ s₀ r t := by
  refine ⟨hchanged.nextScope ▸ h.nextScope, hchanged.nextId ▸ h.nextId,
    fun k hk hk' => h.new k hk (hchanged.nextScope ▸ hk'), h.old, fun k hk hnone => ?_⟩
  have hik : i ≠ k := fun hik => hnone j (h.old k j (hik ▸ hij) hk)
  rw [hchanged.elsewhere hik, h.kept k hk hnone]

end Since

/-- Two runs up to renaming, since the first store was `s₀` under `r₀`. -/
def renamed (r₀ : Renaming) (s₀ : Store) : Coupling where
  World := Renaming
  le := (· ≤ ·)
  value := Value.Alike
  scope := Renaming.scope
  own r i j _ := r.scope i j
  store r s t := s.Matches r t ∧ Since r₀ s₀ r s
  le_refl := Renaming.le_refl
  le_trans := Renaming.le_trans
  value_mono := Value.Alike.mono
  scope_mono hle := hle.1 _ _
  own_mono hle := hle.1 _ _
  shaped := Value.Alike.shaped
  same := Value.Alike.same_eq
  plain := .plain
  lookup hst hij x := hst.1.get? hij x
  make := by
    rintro r s t v v' ⟨hmatch, hsince⟩ hmade
    obtain ⟨hi, hj, hmatch'⟩ := hmatch.spendId
    have hle := Renaming.le_addIdentity hi hj
    have hid : (r.addIdentity s.nextId t.nextId hi hj).identity s.nextId t.nextId :=
      .inr ⟨rfl, rfl⟩
    refine ⟨_, hle, ⟨hmatch', hsince.spendId hi hj⟩, ?_⟩
    cases hmade with
    | array hes => exact .of_elements hid (hes.imp fun _ _ he => he.mono hle)
    | hash _ hps =>
      exact .of_entries hid (hps.imp fun _ _ hp => ⟨hp.1, hp.2.imp fun _ _ => .mono hle⟩)
    | function body _ hst => exact .function _ body hid hst
  addScope := by
    rintro r s t i j ⟨hmatch, hsince⟩ hij
    obtain ⟨hi, hj, hmatch'⟩ := hmatch.addScope hij
    exact ⟨_, Renaming.le_addScope hi hj, ⟨hmatch', hsince.addScope _ hi hj⟩, .inr ⟨rfl, rfl⟩,
      fun _ => .inr ⟨rfl, rfl⟩⟩
  owns hst hij := hst.1.owns_eq hij _
  bind hst hij hv _ := ⟨hst.1.bind hij _ hv, hst.2.change hij (Store.changed_bind _ _ _ _)⟩
  assign := by
    rintro r s t i j x v v' ⟨hmatch, hsince⟩ hij hv
    rcases rel_cases (hmatch.resolve hij x) with ⟨hs, ht⟩ | ⟨k, l, hs, ht, hkl⟩
    · rw [hs, ht]
      exact .none
    · rw [hs, ht]
      exact .some ⟨hmatch.set hkl x hv, hsince.change hkl (Store.changed_set _ _ _ _)⟩

/-- **A program ends alike in scopes that stand for each other**, or in neither within the fuel. -/
theorem Program.eval_renamed (limits : Limits) (n : Nat) (p : Program) {r : Renaming} {s t : Store}
    (hst : s.Matches r t) {i j : ScopeId} (hij : r.scope i j) (d : Nat) :
    Program.eval limits n i p ⟨s, d⟩ = none ∧ Program.eval limits n j p ⟨t, d⟩ = none ∨
      ∃ r' v v' s' t', Program.eval limits n i p ⟨s, d⟩ = some (v, ⟨s', d⟩) ∧
        Program.eval limits n j p ⟨t, d⟩ = some (v', ⟨t', d⟩) ∧ r ≤ r' ∧ v.Alike r' v' ∧
        s'.Matches r' t' ∧ Since r s r' s' := by
  have hrun : (renamed r s).Lockstep (renamed r s).result r (Program.run limits n i p)
      (Program.run limits n j p) :=
    ((renamed r s).inStep limits n).row hij (fun _ _ _ _ => hij) .none
  have hend := hrun s t d ⟨hst, .refl r s⟩
  unfold Program.eval
  generalize Program.run limits n i p ⟨s, d⟩ = o, Program.run limits n j p ⟨t, d⟩ = o' at hend ⊢
  cases hend with
  | done hle hst' hv =>
    refine .inr ⟨_, _, _, _, _, rfl, rfl, hle, ?_, hst'.1, hst'.2⟩
    cases hv with
    | none => exact .plain rfl
    | some hv => exact hv
  | returned hle hst' hv => exact .inr ⟨_, _, _, _, _, rfl, rfl, hle, hv, hst'.1, hst'.2⟩
  | failed hle hst' => exact .inr ⟨_, _, _, _, _, rfl, rfl, hle, .error _, hst'.1, hst'.2⟩
  | outOfFuel => exact .inl ⟨rfl, rfl⟩

/-- **Evaluation keeps stores sound**, and scopes stay. -/
theorem Program.eval_sound_grown {limits : Limits} {n : Nat} {scope : ScopeId} {p : Program}
    {m m' : Machine} {v : Value} (hs : m.store.Sound) (hscope : scope < m.store.nextScope)
    (h : Program.eval limits n scope p m = some (v, m')) :
    m'.store.Sound ∧ m.store.nextScope ≤ m'.store.nextScope := by
  have hself := hs.matches_self hs.closed fun _ hi => hi
  rcases Program.eval_renamed limits n p hself ⟨rfl, hscope⟩ m.depth with
    ⟨hnone, -⟩ | ⟨r', v', -, s', t', hrun, -, hle, -, hmatch, hsince⟩
  · exact absurd (hnone.symm.trans h) nofun
  · obtain ⟨-, rfl⟩ := Prod.mk.inj (Option.some.inj (hrun.symm.trans h))
    refine ⟨.of_matches hmatch fun i hi => ?_, hsince.nextScope⟩
    rcases Nat.lt_or_ge i m.store.nextScope with hold | hnew
    · exact ⟨i, hle.1 i i ⟨rfl, hold⟩⟩
    · exact hsince.new i hnew hi

end Scriptlet
