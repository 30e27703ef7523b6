import Scriptlet.Proofs.Eval.Unwinding
import Scriptlet.Proofs.Value.Data
import Scriptlet.Proofs.Value.Keys

/-!
# Proofs/Eval/Hashes — what a hash literal makes of its pairs

A hash literal evaluates its pairs from left to right, the key of each before its value.  If all of
them give a key, it makes a hash in which the last pair with a key counts.  At the first pair that
gives none it fails at once: neither the value of that pair nor any later pair is evaluated, so what
these are does not matter (`makesMap`).
-/

namespace Scriptlet

open Eval

/-- The pair `p` **gives no key**, and is the first that does not: the pairs before it do, and leave
the machine `m₁`; there its key is evaluated to `k`, which leaves `m₂`. -/
structure GivesNoKey (limits : Limits) (i : ScopeId) (before : List (Expr × Expr)) (p : Expr × Expr)
    (m m₁ : Machine) (k : Option Value) (m₂ : Machine) : Prop where
  before : ∃ kvs, PairsGive limits i before m kvs m₁ ∧ ∀ q ∈ kvs, q.1.IsKey
  key : (Task.expr i p.1).Gives limits m₁ k m₂
  unusable : ¬ (k.getD .null).IsKey

/-- Work on the pairs that are left, of those of a hash literal. -/
def Task.onPairs : Task → Bool
  | entries .. => true
  | _ => false

/-- Work on a hash literal **comes to** pairs that are left, going on from one pair to the next. -/
def ComesTo (limits : Limits) : Task × Machine → Task × Machine → Prop :=
  Relation.ReflTransGen fun q r => Enters limits q r ∧ r.1.onPairs

/-- A literal with the pairs `before`, `p` and `after` **stops at the key** `p.1`.  It fails there,
and leaves the machine that the key leaves; it does not come past that pair, and of the pair it
enters the key only. -/
structure StopsAtKey (limits : Limits) (i : ScopeId) (before : List (Expr × Expr)) (p : Expr × Expr)
    (after : List (Expr × Expr)) (m m₁ : Machine) (k : Value) (m₂ : Machine) : Prop where
  fails : (Task.expr i (.hash (before ++ p :: after))).Unwinds limits m
    (.failed (.unusableHashKey k.kind)) m₂
  stops : ∀ j qs done m', ComesTo limits (.expr i (.hash (before ++ p :: after)), m)
      (.entries j qs done, m') → p :: after <:+ qs
  enters : ∀ done m', ComesTo limits (.expr i (.hash (before ++ p :: after)), m)
      (.entries i (p :: after) done, m') →
    m' = m₁ ∧ ∀ q, Enters limits (.entries i (p :: after) done, m') q → q = (.expr i p.1, m₁)

/-- A hash literal **makes a map** of what its pairs give, or stops at the first that gives no key;
one of the two is the case if all keys and values give something. -/
structure MakesMap (limits : Limits) (i : ScopeId) (ps : List (Expr × Expr)) (m : Machine) :
    Prop where
  gives : ∀ kvs m', PairsGive limits i ps m kvs m' → (∀ q ∈ kvs, q.1.IsKey) →
    ∃ es, (Task.expr i (.hash ps)).Gives limits m (some (.hash m'.store.nextId es)) m'.spent ∧
      LastCounts kvs es
  stops : ∀ before p after m₁ k m₂, ps = before ++ p :: after →
    GivesNoKey limits i before p m m₁ k m₂ →
    StopsAtKey limits i before p after m m₁ (k.getD .null) m₂
  ends : ∀ kvs m', PairsGive limits i ps m kvs m' → (∀ q ∈ kvs, q.1.IsKey) ∨
    ∃ before p after m₁ k m₂, ps = before ++ p :: after ∧ GivesNoKey limits i before p m m₁ k m₂

variable {limits : Limits} {i : ScopeId} {ps before after : List (Expr × Expr)} {p : Expr × Expr}
  {kvs : List (Value × Value)} {m m₁ m₂ m' : Machine} {k : Option Value}

/-! ## Going on from pair to pair

That a pair is come to is a matter of the pairs before it: if all of them give keys and values, work
goes on behind them, and if one of them gives no key, it does not. -/

/-- The next pair is come to when the key and the value of this one are known. -/
theorem enters_otherPairs {key : HashKey} {v : Option Value} {done : List HashEntry}
    (hk : (Task.expr i p.1).Gives limits m k m₁) (hkey : (k.getD .null).hashKey? = some key)
    (hv : (Task.expr i p.2).Gives limits m₁ v m₂) :
    Enters limits (.entries i (p :: ps) done, m)
      (.entries i ps (insertPair key ⟨k.getD .null, v.getD .null⟩ done), m₂) :=
  .otherEntries hk (Value.toHashKey_eq_ok_iff.mpr hkey) hv

/-- **Behind pairs that give keys** work goes on with the pairs that are left. -/
theorem PairsGive.comesTo (h : PairsGive limits i before m kvs m') (hkeys : ∀ q ∈ kvs, q.1.IsKey)
    (after : List (Expr × Expr)) (done : List HashEntry) :
    ComesTo limits (.entries i (before ++ after) done, m)
      (.entries i after (putPairs kvs done), m') := by
  induction h generalizing done with
  | nil => exact .refl
  | @cons p ps m k m₁ v m₂ kvs m' hk hv _ ih =>
    obtain ⟨hfirst, hothers⟩ := List.forall_mem_cons.mp hkeys
    obtain ⟨key, hkey⟩ := Value.isKey_iff_hashKey?.mp hfirst
    rw [putPairs_cons hkey]
    exact .head ⟨enters_otherPairs hk hkey hv, rfl⟩ (ih hothers _)

/-- Going on to other pairs is not a call. -/
theorem Task.calls_of_onPairs (t : Task) {t' : Task} (h : t'.onPairs) : t.calls t' = false := by
  cases t' with
  | entries => cases t with
    | expr _ e => cases e <;> rfl
    | _ => rfl
  | _ => cases h

/-- What ends the work on the pairs that are left ends that on all of them. -/
theorem ComesTo.unwinds {q r : Task × Machine} {why : Unwind} (h : ComesTo limits q r)
    (hr : r.1.Unwinds limits r.2 why m') : q.1.Unwinds limits q.2 why m' := by
  have hinside : Relation.ReflTransGen (Inside limits) q r :=
    Relation.ReflTransGen.mono (fun a b hab => ⟨hab.1, a.1.calls_of_onPairs hab.2⟩) q r h
  exact unwinds_of_inside hinside hr

/-- A literal begins with all of its pairs. -/
theorem ComesTo.of_literal {j : ScopeId} {qs : List (Expr × Expr)} {done : List HashEntry}
    (h : ComesTo limits (.expr i (.hash ps), m) (.entries j qs done, m')) :
    ComesTo limits (.entries i ps [], m) (.entries j qs done, m') := by
  rcases h.cases_head with heq | ⟨q, ⟨henters, -⟩, h⟩
  · cases heq
  · cases henters
    exact h

/-! ## A key that is none

An array, a hash, a function, a built-in and null are no keys.  The check comes between the key and
the value of a pair, so the value is not evaluated when it fails. -/

section

variable {done : List HashEntry} {q : Task × Machine}

/-- The work on the pairs fails with the error that names the kind of the key. -/
theorem unwinds_of_unusable (hk : (Task.expr i p.1).Gives limits m k m')
    (h : ¬ (k.getD .null).IsKey) : (Task.entries i (p :: after) done).Unwinds limits m
      (.failed (.unusableHashKey (k.getD .null).kind)) m' :=
  hk.operand.bind (Settles.bind_unwound (.const (by rw [Value.toHashKey_of_not_isKey h]; rfl) rfl))

/-- Of a pair whose key is none, the key is all that is entered. -/
theorem enters_of_unusable (hk : (Task.expr i p.1).Gives limits m k m')
    (h : ¬ (k.getD .null).IsKey) (hq : Enters limits (.entries i (p :: after) done, m) q) :
    q = (.expr i p.1, m) := by
  have hnone : ∀ key, (k.getD .null).toHashKey ≠ .ok key := by
    rw [Value.toHashKey_of_not_isKey h]
    exact fun _ => nofun
  cases hq with
  | entryKey => rfl
  | entryValue hk' hkey | otherEntries hk' hkey =>
    cases hk.unique hk'
    exact absurd hkey (hnone _)

/-- **A pair whose key is none is the last** that is come to, and on one machine only. -/
theorem PairsGive.last (h : PairsGive limits i before m kvs m₁)
    (hk : (Task.expr i p.1).Gives limits m₁ k m₂) (hnot : ¬ (k.getD .null).IsKey) {j : ScopeId}
    {qs : List (Expr × Expr)} {done' : List HashEntry}
    (hcomes : ComesTo limits (.entries i (before ++ p :: after) done, m)
      (.entries j qs done', m')) :
    p :: after <:+ qs ∧ (qs = p :: after → m' = m₁) := by
  induction h generalizing done with
  | nil =>
    rcases hcomes.cases_head with heq | ⟨q, ⟨henters, honPairs⟩, -⟩
    · cases heq
      exact ⟨List.suffix_rfl, fun _ => rfl⟩
    · obtain rfl := enters_of_unusable hk hnot henters
      cases honPairs
  | @cons p' ps m k' m₁' v m₂' kvs m' hk' hv' _ ih =>
    rcases hcomes.cases_head with heq | ⟨q, ⟨henters, honPairs⟩, hcomes⟩
    · cases heq
      refine ⟨(List.suffix_append _ _).trans (List.suffix_cons _ _), fun hshort => ?_⟩
      have hlength := congrArg List.length hshort
      simp at hlength
      omega
    · cases henters with
      | otherEntries hk'' hkey hv'' =>
        cases hk'.unique hk''
        cases hv'.unique hv''
        exact ih hk hcomes
      | _ => cases honPairs

end

/-! ## Literals

Along the pairs of a literal, either all of them give keys or there is a first one that does not,
and each case decides how the literal ends. -/

/-- The first pair that gives no key is still the first behind a pair that gives one. -/
theorem GivesNoKey.cons {p' : Expr × Expr} {k' v : Option Value} {m₀ m₁' : Machine}
    (h : GivesNoKey limits i before p m m₁ k m₂) (hk : (Task.expr i p'.1).Gives limits m₀ k' m₁')
    (hkey : (k'.getD .null).IsKey) (hv : (Task.expr i p'.2).Gives limits m₁' v m) :
    GivesNoKey limits i (p' :: before) p m₀ m₁ k m₂ := by
  obtain ⟨⟨kvs, hbefore, hkeys⟩, hlast, hnot⟩ := h
  exact ⟨⟨_, .cons hk hv hbefore, List.forall_mem_cons.mpr ⟨hkey, hkeys⟩⟩, hlast, hnot⟩

/-- Either all pairs give keys, or there is a first one that does not. -/
theorem PairsGive.keys_or_first (h : PairsGive limits i ps m kvs m') :
    (∀ q ∈ kvs, q.1.IsKey) ∨ ∃ before p after m₁ k m₂, ps = before ++ p :: after ∧
      GivesNoKey limits i before p m m₁ k m₂ := by
  induction h with
  | nil => exact .inl nofun
  | @cons p ps m k m₁ v m₂ kvs m' hk hv _ ih =>
    by_cases hkey : (k.getD .null).IsKey
    · rcases ih with hothers | ⟨before, p', after, m₁', k', m₂', rfl, hfirst⟩
      · exact .inl (List.forall_mem_cons.mpr ⟨hkey, hothers⟩)
      · exact .inr ⟨p :: before, p', after, m₁', k', m₂', rfl, hfirst.cons hk hkey hv⟩
    · exact .inr ⟨[], p, ps, m, k, m₁, rfl, ⟨[], .nil, nofun⟩, hk, hkey⟩

/-- **A hash literal makes a map of its pairs**, or stops at the first key that is none. -/
theorem makesMap (limits : Limits) (i : ScopeId) (ps : List (Expr × Expr)) (m : Machine) :
    MakesMap limits i ps m where
  gives kvs m' h hkeys := by
    refine ⟨putPairs kvs [], settles_succ.mp ?_, lastCounts_putPairs hkeys⟩
    simp only [Task.eval, Expr.eval]
    exact Settles.bind (Task.entries_gives_iff.mpr ⟨kvs, h, hkeys, rfl⟩) (.const rfl rfl)
  stops before p after m₁ k m₂ hps h := by
    obtain ⟨⟨kvs, hbefore, hkeys⟩, hk, hnot⟩ := h
    subst hps
    refine ⟨?_, fun j qs done m' hcomes => ?_, fun done m' hcomes => ?_⟩
    · have hpairs := (hbefore.comesTo hkeys (p :: after) []).unwinds (unwinds_of_unusable hk hnot)
      exact Enters.pairs.unwinds rfl hpairs
    · exact (hbefore.last hk hnot hcomes.of_literal).1
    · obtain rfl := (hbefore.last hk hnot hcomes.of_literal).2 rfl
      exact ⟨rfl, fun q hq => enters_of_unusable hk hnot hq⟩
  ends _ _ h := h.keys_or_first

end Scriptlet
