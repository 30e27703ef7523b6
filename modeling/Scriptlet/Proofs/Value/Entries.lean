import Mathlib.Data.List.Nodup
import Scriptlet.Value.Basic

/-!
# Proofs/Value/Entries — entries are a finite map

The entries of a hash are looked up by key, and are put in one at a time.  An entry that is put in
takes the place of the one with its key and leaves all others alone.  So no key ever stands twice,
and then the order of the entries does not matter to a lookup.

An entry keeps the value that was given as its key.  Nothing in an entry says that this value has
the key that the entry stands under; it does in entries that are **well keyed** (`WellKeyed`), and
these stay so when a pair is put in under the key of its own key object (`WellKeyed.insertPair`).
-/

namespace Scriptlet

/-! ## Pairs -/

namespace HashPair

variable {α β γ : Type}

/-- The pair with both of its values replaced. -/
def map (f : α → β) (p : HashPair α) : HashPair β := ⟨f p.key, f p.value⟩

/-- The property is true of both values of the pair. -/
structure All (P : α → Prop) (p : HashPair α) : Prop where
  key : P p.key
  value : P p.value

/-- The keys of the two pairs are related, and so are their values. -/
inductive Rel (R : α → β → Prop) : HashPair α → HashPair β → Prop
  -- the pairs are taken apart here, so that a relation between values can be defined by this one
  | intro {k v : α} {l w : β} : R k l → R v w → Rel R ⟨k, v⟩ ⟨l, w⟩

/-- The keys of related pairs are related. -/
theorem Rel.key {R : α → β → Prop} {p : HashPair α} {q : HashPair β} (h : Rel R p q) :
    R p.key q.key := by
  cases h with
  | intro hkey _ => exact hkey

theorem Rel.value {R : α → β → Prop} {p : HashPair α} {q : HashPair β} (h : Rel R p q) :
    R p.value q.value := by
  cases h with
  | intro _ hvalue => exact hvalue

/-- The two values of the pair, the key first. -/
def both (p : HashPair α) : List α := [p.key, p.value]

/-- To say it of both values of a pair, as a list or as a property. -/
theorem forall_mem_both {P : α → Prop} {p : HashPair α} : (∀ v ∈ p.both, P v) ↔ p.All P :=
  ⟨fun h => ⟨h _ (by simp [both]), h _ (by simp [both])⟩, fun h => by simp [both, h.key, h.value]⟩

theorem Rel.imp {R S : α → β → Prop} {p : HashPair α} {q : HashPair β} (h : p.Rel R q)
    (hRS : ∀ a b, R a b → S a b) : p.Rel S q :=
  ⟨hRS _ _ h.key, hRS _ _ h.value⟩

end HashPair

/-! ## Looking up

With no key twice, an entry is found under its key just if it is among the entries. -/

section

variable {κ β : Type} [BEq κ] [LawfulBEq κ] {ps : List (κ × β)} {key : κ} {v : β}

/-- What is found stands there. -/
theorem isSome_lookup_iff : (ps.lookup key).isSome ↔ key ∈ ps.map Prod.fst := by
  induction ps with
  | nil => simp
  | cons p ps ih =>
    rw [List.lookup_cons, List.map_cons, List.mem_cons]
    by_cases hkey : key = p.1
    · simp [hkey]
    · simp [hkey, beq_false_of_ne hkey, ih]

/-- Where no key stands twice, what is found under a key is what stands there. -/
theorem lookup_eq_some_iff_mem (h : (ps.map Prod.fst).Nodup) :
    ps.lookup key = some v ↔ (key, v) ∈ ps := by
  induction ps with
  | nil => simp
  | cons p ps ih =>
    obtain ⟨k, u⟩ := p
    obtain ⟨hk, hps⟩ := List.nodup_cons.mp h
    rw [List.lookup_cons]
    by_cases hkey : key = k
    · subst hkey
      have hnot : (key, v) ∉ ps := fun hmem => hk (List.mem_map.mpr ⟨_, hmem, rfl⟩)
      simp [hnot, eq_comm]
    · rw [beq_false_of_ne hkey]
      simp [ih hps, hkey]

end

/-- A lookup among values that are all replaced finds what the value found becomes. -/
theorem lookup_map {κ α β : Type} [BEq κ] (f : α → β) (ps : List (κ × α)) (key : κ) :
    (ps.map (Prod.map id f)).lookup key = (ps.lookup key).map f := by
  induction ps with
  | nil => rfl
  | cons p ps ih =>
    obtain ⟨k, v⟩ := p
    rw [List.map_cons, Prod.map_apply, id, List.lookup_cons, List.lookup_cons]
    cases key == k with
    | true => rfl
    | false => exact ih

variable {ps qs : List HashEntry} {key : HashKey} {pair : HashPair Value}

/-- **The order of the entries does not matter** to a hash. -/
theorem lookup_eq_of_perm (h : ps.Perm qs) (hnodup : (ps.map Prod.fst).Nodup) (key : HashKey) :
    ps.lookup key = qs.lookup key := by
  refine Option.ext fun v => ?_
  rw [lookup_eq_some_iff_mem hnodup, lookup_eq_some_iff_mem ((h.map Prod.fst).nodup_iff.mp hnodup),
    h.mem_iff]

/-! ## Putting in

A pair with a new key goes to the end, and one with a key that is there takes the place of the old
one. -/

/-- Nothing comes in but the pair that is put in. -/
theorem mem_insertPair {q : HashEntry} (hq : q ∈ insertPair key pair ps) :
    q ∈ ps ∨ q = (key, pair) := by
  induction ps with
  | nil => exact .inr (List.mem_singleton.mp hq)
  | cons p ps ih =>
    unfold insertPair at hq
    split at hq
    · rcases List.mem_cons.mp hq with rfl | hq
      · exact .inr rfl
      · exact .inl (List.mem_cons_of_mem p hq)
    · rcases List.mem_cons.mp hq with rfl | hq
      · exact .inl List.mem_cons_self
      · exact (ih hq).imp_left (List.mem_cons_of_mem p)

/-- What is true of all pairs and of the one that is put in is true of all pairs after it. -/
theorem forall_insertPair {P : HashKey → HashPair Value → Prop} (hps : ∀ p ∈ ps, P p.1 p.2)
    (h : P key pair) : ∀ p ∈ insertPair key pair ps, P p.1 p.2 := by
  intro p hp
  rcases mem_insertPair hp with hp | rfl
  · exact hps p hp
  · exact h

/-- A new key goes to the end. -/
theorem insertPair_of_notMem (h : key ∉ ps.map Prod.fst) (pair : HashPair Value) :
    insertPair key pair ps = ps ++ [(key, pair)] := by
  induction ps with
  | nil => rfl
  | cons p ps ih =>
    rw [List.map_cons, List.mem_cons, not_or] at h
    rw [insertPair, if_neg (Ne.symm h.1), ih h.2, List.cons_append]

/-- **A pair that is put in is found, and all others are as they were.** -/
theorem lookup_insertPair (key : HashKey) (pair : HashPair Value) (ps : List HashEntry)
    (k : HashKey) :
    (insertPair key pair ps).lookup k = if k = key then some pair else ps.lookup k := by
  induction ps with
  | nil =>
    rw [insertPair, List.lookup_cons]
    by_cases hk : k = key
    · rw [if_pos hk, hk, beq_self_eq_true]
    · rw [if_neg hk, beq_false_of_ne hk]
  | cons p ps ih =>
    obtain ⟨l, u⟩ := p
    unfold insertPair
    split
    · next hl =>
      subst hl
      rw [List.lookup_cons, List.lookup_cons]
      by_cases hk : k = l
      · rw [if_pos hk, hk, beq_self_eq_true]
      · rw [if_neg hk, beq_false_of_ne hk]
    · next hl =>
      rw [List.lookup_cons, List.lookup_cons, ih]
      by_cases hk : k = l
      · rw [hk, beq_self_eq_true]
        exact (if_neg hl).symm
      · rw [beq_false_of_ne hk]

/-- A key that is there keeps its place. -/
theorem keys_insertPair_of_mem (h : key ∈ ps.map Prod.fst) (pair : HashPair Value) :
    (insertPair key pair ps).map Prod.fst = ps.map Prod.fst := by
  induction ps with
  | nil => cases h
  | cons p ps ih =>
    unfold insertPair
    split
    · next hp => rw [List.map_cons, List.map_cons, hp]
    · next hp =>
      have hmore : key ∈ ps.map Prod.fst := (List.mem_cons.mp h).resolve_left (Ne.symm hp)
      rw [List.map_cons, List.map_cons, ih hmore]

/-- **No key stands twice** when a pair is put in. -/
theorem nodup_insertPair (h : (ps.map Prod.fst).Nodup) (key : HashKey) (pair : HashPair Value) :
    ((insertPair key pair ps).map Prod.fst).Nodup := by
  by_cases hmem : key ∈ ps.map Prod.fst
  · rw [keys_insertPair_of_mem hmem]
    exact h
  · rw [insertPair_of_notMem hmem, List.map_append]
    exact List.nodup_append'.mpr ⟨h, List.nodup_singleton _, by simpa using hmem⟩

/-! ## Well-keyed entries

The keys are all different and each entry keeps the key object that it stands under.  Putting in a
pair under the key that its own key object names keeps both. -/

/-- The entries are **well keyed**: no key stands twice, and the value that an entry keeps as its
key is one that has the key of the entry. -/
structure WellKeyed (ps : List HashEntry) : Prop where
  nodup : (ps.map Prod.fst).Nodup
  named : ∀ p ∈ ps, p.2.key.hashKey? = some p.1

theorem WellKeyed.nil : WellKeyed [] := ⟨List.nodup_nil, nofun⟩

/-- **Entries stay well keyed** when a pair is put in under the key of its key object. -/
theorem WellKeyed.insertPair (h : WellKeyed ps) (hkey : pair.key.hashKey? = some key) :
    WellKeyed (insertPair key pair ps) where
  nodup := nodup_insertPair h.nodup key pair
  named := forall_insertPair (P := fun k p => p.key.hashKey? = some k) h.named hkey

theorem hashKey?_toValue (key : HashKey) : key.toValue.hashKey? = some key := by
  cases key <;> rfl

/-- A key that is kept as the value that it is stands under itself. -/
theorem WellKeyed.setEntry (h : WellKeyed ps) (key : HashKey) (v : Value) :
    WellKeyed (setEntry key v ps) :=
  h.insertPair (hashKey?_toValue key)

/-- The order of the entries does not matter to that either. -/
theorem WellKeyed.perm (h : WellKeyed ps) (hperm : ps.Perm qs) : WellKeyed qs :=
  ⟨(hperm.map Prod.fst).nodup_iff.mp h.nodup, fun p hp => h.named p (hperm.mem_iff.mpr hp)⟩

end Scriptlet
