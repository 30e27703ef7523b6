import Scriptlet.Proofs.Value.Entries
import Scriptlet.Value.Operators

/-!
# Proofs/Value/Keys — hashes are maps under equality

There are two ways to compare keys.  An entry is found by its `HashKey`, and a program that compares
two values uses `==`, which is an error between values of different kinds.  On keys the two agree: a
value names one key, a key is named by one value (`hashKey?_eq_some_iff`), and two keys are one if
the values are of one kind and `==` finds them equal (`matches_toValue`).

Hence a hash with well-keyed entries is a finite map under `==` (`finiteMap_of_wellKeyed`): what an
entry keeps as its key is what it is found by.  When pairs of a key and a value are put into one,
the last pair with a key counts, and is the one that is kept (`lastCounts_putPairs`).  -/

namespace Scriptlet

namespace Value

variable {u v : Value} {k : HashKey}

/-- The value is an integer, a boolean or a string. -/
def IsKey (v : Value) : Prop := v.kind = .integer ∨ v.kind = .boolean ∨ v.kind = .string

/-- The values are of one kind, and a program that compares them with `==` gets `true`. -/
def Matches (u v : Value) : Prop :=
  u.kind = v.kind ∧ InfixOp.equal.apply u v = .ok (.boolean true)

/-- **A key is named by one value.** -/
theorem hashKey?_eq_some_iff : v.hashKey? = some k ↔ v = k.toValue := by
  cases v <;> cases k <;> simp [hashKey?, HashKey.toValue]

/-- The key that a value is put in under is the one that it names. -/
theorem toHashKey_eq_ok_iff : v.toHashKey = .ok k ↔ v.hashKey? = some k := by
  cases v <;> simp [toHashKey, hashKey?]

/-- The kinds that a hash takes as keys are those of the values that name a key. -/
theorem isKey_iff_hashKey? : v.IsKey ↔ ∃ k, v.hashKey? = some k := by
  cases v <;> simp [IsKey, kind, hashKey?]

/-- Any other value is refused, with its kind. -/
theorem toHashKey_of_not_isKey (h : ¬ v.IsKey) :
    v.toHashKey = .error (.unusableHashKey v.kind) := by
  cases v with
  | integer | boolean | string => simp [IsKey, kind] at h
  | _ => rfl

/-- **Two keys are one if `==` finds them equal**; of different kinds, they are two. -/
theorem matches_toValue {l : HashKey} : k.toValue.Matches l.toValue ↔ k = l := by
  cases k <;> cases l <;>
    simp [Matches, kind, HashKey.toValue, InfixOp.apply, InfixOp.applyIntegers,
      InfixOp.applyStrings, same]

theorem Matches.isKey (h : u.Matches v) (hu : u.IsKey) : v.IsKey := by
  rwa [IsKey, ← h.1]

/-- Of two keys, the same said of the values that have them. -/
theorem matches_iff {l : HashKey} (hu : u.hashKey? = some k) (hv : v.hashKey? = some l) :
    u.Matches v ↔ k = l := by
  rw [hashKey?_eq_some_iff.mp hu, hashKey?_eq_some_iff.mp hv, matches_toValue]

/-! ## Looking into a hash

A hash is looked into with the key that the value names, and what is found is what the last pair
with that key had. -/

/-- To index a hash by a key is to look it up, with null for what is not there. -/
theorem index_of_hashKey? (i : Identity) (ps : List HashEntry) (h : v.hashKey? = some k) :
    (hash i ps).index v = .ok (((ps.lookup k).map HashPair.value).getD .null) := by
  obtain rfl := hashKey?_eq_some_iff.mp h
  cases k <;> rfl

/-- To index it by anything else fails. -/
theorem index_of_not_isKey (i : Identity) (ps : List HashEntry) (h : ¬ v.IsKey) :
    (hash i ps).index v = .error (.unusableHashKey v.kind) := by
  have hindex : (hash i ps).index v =
      v.toHashKey.map fun k => ((ps.lookup k).map HashPair.value).getD .null := by
    cases v <;> rfl
  rw [hindex, toHashKey_of_not_isKey h]
  rfl

end Value

/-- The entries are **a finite map under equality**.  The key object that an entry keeps has the key
of the entry, no two entries keep key objects that match, and indexing by a value gives the value of
the entry whose key object matches it, or null if there is none. -/
structure FiniteMap (ps : List HashEntry) : Prop where
  named : ∀ p ∈ ps, p.2.key.hashKey? = some p.1
  apart : ∀ p ∈ ps, ∀ q ∈ ps, p.2.key.Matches q.2.key → p = q
  found : ∀ p ∈ ps, ∀ i k, p.2.key.Matches k → (Value.hash i ps).index k = .ok p.2.value
  missing : ∀ i k, k.IsKey → (∀ p ∈ ps, ¬ p.2.key.Matches k) →
    (Value.hash i ps).index k = .ok .null
  unusable : ∀ i k, ¬ k.IsKey → (Value.hash i ps).index k = .error (.unusableHashKey k.kind)

/-- **A hash with well-keyed entries is a finite map.** -/
theorem finiteMap_of_wellKeyed {ps : List HashEntry} (h : WellKeyed ps) : FiniteMap ps where
  named := h.named
  apart p hp q hq hmatches :=
    List.inj_on_of_nodup_map h.nodup hp hq
      ((Value.matches_iff (h.named p hp) (h.named q hq)).mp hmatches)
  found p hp i k hmatches := by
    have hkey := Value.isKey_iff_hashKey?.mpr ⟨p.1, h.named p hp⟩
    obtain ⟨l, hl⟩ := Value.isKey_iff_hashKey?.mp (hmatches.isKey hkey)
    obtain rfl := (Value.matches_iff (h.named p hp) hl).mp hmatches
    rw [Value.index_of_hashKey? i ps hl, (lookup_eq_some_iff_mem h.nodup).mpr hp]
    rfl
  missing i k hk hnone := by
    obtain ⟨l, hl⟩ := Value.isKey_iff_hashKey?.mp hk
    have hlookup : ps.lookup l = none := by
      refine Option.eq_none_iff_forall_ne_some.mpr fun p hp => ?_
      have hmem : (l, p) ∈ ps := (lookup_eq_some_iff_mem h.nodup).mp hp
      exact hnone _ hmem ((Value.matches_iff (h.named _ hmem) hl).mpr rfl)
    rw [Value.index_of_hashKey? i ps hl, hlookup]
    rfl
  unusable i k hk := Value.index_of_not_isKey i ps hk

/-! ## Pairs one after another

Of the pairs with one key the last one counts: those before it are replaced, and those after it have
other keys. -/

/-- `q` is the last in the list that has the property. -/
def IsLast {α : Type} (P : α → Prop) (q : α) (qs : List α) : Prop :=
  ∃ before after, qs = before ++ q :: after ∧ P q ∧ ∀ r ∈ after, ¬ P r

/-- Where one has the property there is a last one. -/
theorem exists_isLast {α : Type} {P : α → Prop} {qs : List α} (h : ∃ q ∈ qs, P q) :
    ∃ q, IsLast P q qs := by
  induction qs with
  | nil => simp at h
  | cons q qs ih =>
    by_cases hlater : ∃ r ∈ qs, P r
    · obtain ⟨r, before, after, rfl, hr⟩ := ih hlater
      exact ⟨r, q :: before, after, rfl, hr⟩
    · obtain ⟨r, hr, hP⟩ := h
      rcases List.mem_cons.mp hr with rfl | hr
      · exact ⟨r, [], qs, rfl, hP, fun r hr hP => hlater ⟨r, hr, hP⟩⟩
      · exact absurd ⟨r, hr, hP⟩ hlater

/-- Put pairs of a key and a value into the entries, one after another. -/
def putPairs : List (Value × Value) → List HashEntry → List HashEntry
  | [], es => es
  | (u, v) :: kvs, es =>
    putPairs kvs (match u.hashKey? with
      | some k => insertPair k ⟨u, v⟩ es
      | none => es)

section

variable {kvs : List (Value × Value)} {es : List HashEntry} {k : HashKey} {u v : Value}

/-- The first pair is put in before the others, so those may replace it. -/
theorem putPairs_cons (hu : u.hashKey? = some k) (v : Value) (kvs : List (Value × Value))
    (es : List HashEntry) :
    putPairs ((u, v) :: kvs) es = putPairs kvs (insertPair k ⟨u, v⟩ es) := by
  rw [putPairs, hu]

/-- Pairs with other keys do not matter to a key. -/
theorem lookup_putPairs_of_none (hkeys : ∀ q ∈ kvs, q.1.IsKey)
    (h : ∀ q ∈ kvs, q.1.hashKey? ≠ some k) : (putPairs kvs es).lookup k = es.lookup k := by
  induction kvs generalizing es with
  | nil => rfl
  | cons q kvs ih =>
    obtain ⟨hq, hkvs⟩ := List.forall_mem_cons.mp hkeys
    obtain ⟨hne, hnone⟩ := List.forall_mem_cons.mp h
    obtain ⟨u, v⟩ := q
    obtain ⟨l, hl⟩ := Value.isKey_iff_hashKey?.mp hq
    have hkl : k ≠ l := fun heq => hne (heq ▸ hl)
    rw [putPairs_cons hl, ih hkvs hnone, lookup_insertPair, if_neg hkl]

/-- **The last pair with a key counts**, its key object included. -/
theorem lookup_putPairs_of_last {before after : List (Value × Value)}
    (hu : u.hashKey? = some k) (hkeys : ∀ q ∈ before ++ (u, v) :: after, q.1.IsKey)
    (h : ∀ q ∈ after, q.1.hashKey? ≠ some k) :
    (putPairs (before ++ (u, v) :: after) es).lookup k = some ⟨u, v⟩ := by
  induction before generalizing es with
  | nil =>
    have hafter : ∀ q ∈ after, q.1.IsKey := (List.forall_mem_cons.mp hkeys).2
    rw [List.nil_append, putPairs_cons hu, lookup_putPairs_of_none hafter h, lookup_insertPair,
      if_pos rfl]
  | cons q before ih =>
    obtain ⟨hq, hothers⟩ := List.forall_mem_cons.mp hkeys
    obtain ⟨u', w⟩ := q
    obtain ⟨l, hl⟩ := Value.isKey_iff_hashKey?.mp hq
    rw [List.cons_append, putPairs_cons hl]
    exact ih hothers

/-- **What pairs make of well-keyed entries is well keyed.** -/
theorem wellKeyed_putPairs (h : WellKeyed es) (kvs : List (Value × Value)) :
    WellKeyed (putPairs kvs es) := by
  induction kvs generalizing es with
  | nil => exact h
  | cons q kvs ih =>
    obtain ⟨u, v⟩ := q
    rw [putPairs]
    cases hu : u.hashKey? with
    | none => exact ih h
    | some k => exact ih (h.insertPair hu)

end

/-- Of the pairs of a key and a value, **the last one with a key counts**: indexing by a value gives
that of the last pair whose key it matches, or null if there is none.  Each entry keeps both values
of the last pair whose key names that of the entry. -/
structure LastCounts (kvs : List (Value × Value)) (es : List HashEntry) : Prop where
  last : ∀ i k q, IsLast (fun p => p.1.Matches k) q kvs → (Value.hash i es).index k = .ok q.2
  missing : ∀ i k, k.IsKey → (∀ p ∈ kvs, ¬ p.1.Matches k) → (Value.hash i es).index k = .ok .null
  unusable : ∀ i k, ¬ k.IsKey → (Value.hash i es).index k = .error (.unusableHashKey k.kind)
  stored : ∀ p ∈ es, IsLast (fun q => q.1.hashKey? = some p.1) (p.2.key, p.2.value) kvs
  map : FiniteMap es

/-- An entry that pairs make keeps the last pair with its key. -/
theorem isLast_of_mem_putPairs {kvs : List (Value × Value)} (hkeys : ∀ q ∈ kvs, q.1.IsKey)
    {p : HashEntry} (hp : p ∈ putPairs kvs []) :
    IsLast (fun q => q.1.hashKey? = some p.1) (p.2.key, p.2.value) kvs := by
  have hlookup : (putPairs kvs []).lookup p.1 = some p.2 :=
    (lookup_eq_some_iff_mem (wellKeyed_putPairs .nil kvs).nodup).mpr hp
  have hsome : ∃ q ∈ kvs, q.1.hashKey? = some p.1 := by
    by_contra hnone
    rw [lookup_putPairs_of_none hkeys fun q hq hkey => hnone ⟨q, hq, hkey⟩] at hlookup
    cases hlookup
  obtain ⟨⟨u, v⟩, before, after, rfl, hu, hafter⟩ := exists_isLast hsome
  rw [lookup_putPairs_of_last hu hkeys hafter] at hlookup
  rw [← Option.some.inj hlookup]
  exact ⟨before, after, rfl, hu, hafter⟩

/-- **Of pairs that are put in one after another, the last with a key counts.** -/
theorem lastCounts_putPairs {kvs : List (Value × Value)} (hkeys : ∀ q ∈ kvs, q.1.IsKey) :
    LastCounts kvs (putPairs kvs []) where
  last i k q hlast := by
    obtain ⟨before, after, rfl, hq, hafter⟩ := hlast
    obtain ⟨u, v⟩ := q
    have hu : u.IsKey := hkeys (u, v) (by simp)
    obtain ⟨l, hl⟩ := Value.isKey_iff_hashKey?.mp hu
    obtain ⟨l', hk⟩ := Value.isKey_iff_hashKey?.mp (hq.isKey hu)
    obtain rfl := (Value.matches_iff hl hk).mp hq
    have hne : ∀ r ∈ after, r.1.hashKey? ≠ some l := fun r hr heq =>
      hafter r hr ((Value.matches_iff heq hk).mpr rfl)
    rw [Value.index_of_hashKey? i _ hk, lookup_putPairs_of_last hl hkeys hne]
    rfl
  missing i k hk hnone := by
    obtain ⟨l, hl⟩ := Value.isKey_iff_hashKey?.mp hk
    have hne : ∀ p ∈ kvs, p.1.hashKey? ≠ some l := fun p hp heq =>
      hnone p hp ((Value.matches_iff heq hl).mpr rfl)
    rw [Value.index_of_hashKey? i _ hl, lookup_putPairs_of_none hkeys hne]
    rfl
  unusable i k hk := Value.index_of_not_isKey i _ hk
  stored _ hp := isLast_of_mem_putPairs hkeys hp
  map := finiteMap_of_wellKeyed (wellKeyed_putPairs .nil kvs)

end Scriptlet
