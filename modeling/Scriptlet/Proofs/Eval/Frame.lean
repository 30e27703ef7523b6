import Scriptlet.Proofs.Store.Reach
import Scriptlet.Proofs.Eval.Discipline

/-!
# Proofs/Eval/Frame — evaluation stays within reach

Let the scopes in `A` refer to scopes in `A` only.  Evaluation that starts in `A` meets no values
but those bound there and those it makes, so it changes no scope outside `A` and puts nothing into
`A` that refers to one.  New scopes are counted among `A` from the start.
-/

namespace Scriptlet

/-- Nothing outside `A` is touched, and `A` stays closed; all new scopes are in `A`. -/
def frame (s₀ : Store) (A : ScopeId → Prop) (hnew : ∀ i, s₀.nextScope ≤ i → A i) : Discipline where
  value := Value.Within A
  scope := A
  own i _ := A i
  store s := s₀.nextScope ≤ s.nextScope ∧
    (∀ i : ScopeId, ¬ A i → s.scopes[i]? = s₀.scopes[i]?) ∧ s.Closed A
  plain := by
    rintro v hv k ⟨i, params, body, h⟩
    cases h <;> cases hv
  array := Value.within_array
  hash _ := Value.within_hash.mpr
  entries := Value.within_hash.mp
  function _ hs := Value.within_function.mpr hs
  captured := Value.within_function.mp
  lookup hs hi h := hs.2.2.get? hi h
  spendId := by
    rintro s ⟨hsize, hout, hclosed⟩
    exact ⟨hsize, hout, hclosed.congr fun _ _ => rfl⟩
  addScope := by
    rintro s i ⟨hsize, hout, hclosed⟩ hi
    refine ⟨⟨?_, fun k hk => ?_, hclosed.addScope hi⟩, hnew _ hsize, fun _ => hnew _ hsize⟩
    · rw [Store.nextScope_addScope]
      exact Nat.le_succ_of_le hsize
    · have hlt : k < s.nextScope :=
        Nat.lt_of_lt_of_le (Nat.lt_of_not_le fun h => hk (hnew k h)) hsize
      rw [Store.addScope_old (some i) hlt, hout k hk]
  bind := by
    rintro s i x v ⟨hsize, hout, hclosed⟩ hi hv -
    have hchanged := s.changed_bind i x v
    refine ⟨hchanged.nextScope ▸ hsize, fun k hk => ?_, hclosed.bind hv i x⟩
    have hne : i ≠ k := fun h => hk (h ▸ hi)
    rw [hchanged.elsewhere hne, hout k hk]
  assign := by
    rintro s i x v home ⟨hsize, hout, hclosed⟩ hi hv hhome
    have hchanged := s.changed_set home x v
    refine ⟨hchanged.nextScope ▸ hsize, fun k hk => ?_, hclosed.set hv home x⟩
    have hne : home ≠ k := fun h => hk (h ▸ hclosed.resolve hi hhome)
    rw [hchanged.elsewhere hne, hout k hk]

/-- **Evaluation touches only what its scope can reach.**  A scope that was out of reach before is
as it was, and still out of reach. -/
theorem Program.unreached_kept {limits : Limits} {fuel : Nat} {scope : ScopeId} {p : Program}
    {m m' : Machine} (hend : (Program.run limits fuel scope p m).machine? = some m') {i : ScopeId}
    (hi : i < m.store.nextScope) (hout : ¬ m.store.Reaches scope i) :
    m'.store.scopes[i]? = m.store.scopes[i]? ∧ ¬ m'.store.Reaches scope i := by
  -- what is in reach, and everything new
  let A := fun k => m.store.nextScope ≤ k ∨ m.store.Reaches scope k
  have hold : ∀ {k : ScopeId} {c : Scope}, A k → m.store.scopes[k]? = some c →
      m.store.Reaches scope k :=
    fun hk hc => hk.resolve_left (Nat.not_le_of_lt (Store.lt_nextScope hc))
  have hclosed := m.store.closed_reaches scope
  have hA : m.store.Closed A :=
    ⟨fun hk hc ho => .inr (hclosed.outer (hold hk hc) hc ho), fun hk hc hb k' hk' =>
      .inr (hclosed.bindings (hold hk hc) hc hb k' hk')⟩
  have hkept := (frame m.store A fun _ => .inl).of_program (.inr .self) (fun _ _ _ _ => .inr .self)
    ⟨Nat.le_refl _, fun _ _ => rfl, hA⟩ hend
  obtain ⟨-, hsame, hclosed'⟩ := hkept.1
  have hnot : ¬ A i := fun h => h.elim (Nat.not_le_of_lt hi) hout
  exact ⟨hsame i hnot, fun h => hnot (hclosed'.of_reaches (.inr .self) h)⟩

end Scriptlet
