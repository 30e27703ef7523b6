import Mathlib.Data.List.Forall2
import Scriptlet.Proofs.Value.Entries
import Scriptlet.Value.Builtin
import Scriptlet.Value.Operators

/-!
# Proofs/Value/Shape — operators see the shape of a value and nothing else

Two values have one *shape* when they are the same plain value, or are put together in the same way
from parts that correspond to each other, functions being tied to corresponding scopes.  Which parts
and which scopes correspond is left open.

Identities show only in `Value.same`.  So where corresponding values are the same in pairs, every
operator, index and built-in gives corresponding results or the same error.
-/

namespace Scriptlet

/-- The value has no parts, belongs to no scope and is no error: this is what operators give. -/
def Value.isPlain : Value → Bool
  | .integer _ | .boolean _ | .string _ | .null | .builtin _ => true
  | _ => false

/-- Corresponding entries have one key, or one name, and what stands there corresponds. -/
def EntryRel {κ α β : Type} (R : α → β → Prop) (p : κ × α) (q : κ × β) : Prop :=
  p.1 = q.1 ∧ R p.2 q.2

/-- The values have one **shape**, up to parts related by `R` and scopes related by `S`. -/
inductive Value.Shaped (R : Value → Value → Prop) (S : ScopeId → ScopeId → Prop) :
    Value → Value → Prop
  | plain {v : Value} : v.isPlain → Shaped R S v v
  | error (message : String) : Shaped R S (.error message) (.error message)
  | array (i j : Identity) {es fs : List Value} :
    List.Forall₂ R es fs → Shaped R S (.array i es) (.array j fs)
  | hash (i j : Identity) {ps qs : List HashEntry} :
    List.Forall₂ (EntryRel (HashPair.Rel R)) ps qs → Shaped R S (.hash i ps) (.hash j qs)
  | function (i j : Identity) (params : List Param) (body : Block) {s t : ScopeId} :
    S s t → Shaped R S (.function i params body s) (.function j params body t)

/-- Two operations give related results or fail with one error. -/
inductive Agrees {α β : Type} (R : α → β → Prop) :
    Except RuntimeError α → Except RuntimeError β → Prop
  | ok {a : α} {b : β} : R a b → Agrees R (.ok a) (.ok b)
  | error (e : RuntimeError) : Agrees R (.error e) (.error e)

/-- Every operation agrees with itself. -/
theorem Agrees.refl {α : Type} (r : Except RuntimeError α) : Agrees Eq r r := by
  cases r with
  | ok a => exact .ok rfl
  | error e => exact .error e

variable {R : Value → Value → Prop} {S : ScopeId → ScopeId → Prop}

/-! ## Lists of values

Whatever looks at places of a list only, does on the one side what it does on the other. -/

section Lists

/-! Options and lists whose members correspond: whatever looks into one finds what corresponds in
the other, or nothing in both. -/

theorem rel_cases {α β : Type} {R : α → β → Prop} {a : Option α} {b : Option β}
    (h : Option.Rel R a b) :
    (a = none ∧ b = none) ∨ ∃ v w, a = some v ∧ b = some w ∧ R v w := by
  cases h with
  | none => exact .inl ⟨rfl, rfl⟩
  | some hv => exact .inr ⟨_, _, rfl, rfl, hv⟩

/-- What is in the one list has its counterpart in the other. -/
theorem rel_exists {α β : Type} {R : α → β → Prop} {as : List α} {bs : List β}
    (h : List.Forall₂ R as bs) {a : α} (ha : a ∈ as) : ∃ b, R a b := by
  induction h with
  | nil => cases ha
  | cons hab _ ih =>
    rcases List.mem_cons.mp ha with rfl | ha
    · exact ⟨_, hab⟩
    · exact ih ha

variable {es fs : List Value} {ps qs : List HashEntry}

theorem rel_getElem? (h : List.Forall₂ R es fs) (n : Nat) : Option.Rel R es[n]? fs[n]? := by
  induction h generalizing n with
  | nil => exact .none
  | cons hv _ ih =>
    cases n with
    | zero => exact .some hv
    | succ n => exact ih n

theorem rel_head? (h : List.Forall₂ R es fs) : Option.Rel R es.head? fs.head? := by
  cases h with
  | nil => exact .none
  | cons hv _ => exact .some hv

theorem rel_getLast? (h : List.Forall₂ R es fs) : Option.Rel R es.getLast? fs.getLast? := by
  rw [List.getLast?_eq_head?_reverse, List.getLast?_eq_head?_reverse]
  exact rel_head? (List.forall₂_reverse_iff.mpr h)

theorem rel_tail (h : List.Forall₂ R es fs) : List.Forall₂ R es.tail fs.tail := by
  cases h with
  | nil => exact .nil
  | cons _ h => exact h

theorem rel_dropLast (h : List.Forall₂ R es fs) : List.Forall₂ R es.dropLast fs.dropLast := by
  rw [List.dropLast_eq_take, List.dropLast_eq_take, h.length_eq]
  exact List.forall₂_take _ h

theorem isEmpty_eq (h : List.Forall₂ R es fs) : es.isEmpty = fs.isEmpty := by
  cases h <;> rfl

/-- What is found under a key corresponds to what is found under it on the other side. -/
theorem rel_lookup {κ α β : Type} [BEq κ] {R : α → β → Prop} {ps : List (κ × α)}
    {qs : List (κ × β)} (h : List.Forall₂ (EntryRel R) ps qs) (key : κ) :
    Option.Rel R (ps.lookup key) (qs.lookup key) := by
  induction h with
  | nil => exact .none
  | @cons p q ps qs hpq _ ih =>
    rw [List.lookup_cons, List.lookup_cons, ← hpq.1]
    cases key == p.1 with
    | true => exact .some hpq.2
    | false => exact ih

/-- Corresponding pairs put in under one key leave corresponding entries. -/
theorem rel_insertPair {key : HashKey} {u v : HashPair Value} (huv : u.Rel R v)
    (h : List.Forall₂ (EntryRel (HashPair.Rel R)) ps qs) :
    List.Forall₂ (EntryRel (HashPair.Rel R)) (insertPair key u ps) (insertPair key v qs) := by
  induction h with
  | nil => exact .cons ⟨rfl, huv⟩ .nil
  | @cons p q ps qs hpq h ih =>
    simp only [insertPair, ← hpq.1]
    split
    · exact .cons ⟨rfl, huv⟩ h
    · exact .cons ⟨rfl, hpq.2⟩ ih

end Lists

/-! ## What a value shows

Kind, truth and the key it names are told from the shape alone. -/

namespace Value.Shaped

variable {v w : Value}

theorem kind_eq (h : Shaped R S v w) : v.kind = w.kind := by
  cases h <;> rfl

theorem truthy_eq (h : Shaped R S v w) : v.truthy = w.truthy := by
  cases h <;> rfl

theorem toHashKey_eq (h : Shaped R S v w) : v.toHashKey = w.toHashKey := by
  cases h <;> rfl

end Value.Shaped

/-! ## Operators

Operators look at integers, booleans and strings, which are the same on both sides, and compare what
is neither by identity. -/

/-- What a prefix operator gives is plain. -/
theorem PrefixOp.apply_isPlain {op : PrefixOp} {v u : Value} (h : op.apply v = .ok u) :
    u.isPlain := by
  unfold PrefixOp.apply at h
  split at h <;> cases h <;> rfl

/-- So is what an operator between operands gives: no operator makes an array, a hash or a function.
-/
theorem InfixOp.apply_isPlain {op : InfixOp} {l r u : Value} (h : op.apply l r = .ok u) :
    u.isPlain := by
  unfold InfixOp.apply at h
  split at h
  · cases op <;> simp only [InfixOp.applyIntegers] at h
    case div =>
      split at h <;> cases h
      rfl
    all_goals cases h <;> rfl
  · cases op <;> simp only [InfixOp.applyStrings] at h <;> cases h <;> rfl
  · split at h
    · cases h
    · split at h <;> cases h <;> rfl

/-- **Prefix operators see the shape only.** -/
theorem PrefixOp.apply_eq (op : PrefixOp) {v w : Value} (h : v.Shaped R S w) :
    op.apply v = op.apply w := by
  cases h <;> cases op <;> rfl

/-- Operators on other values than two integers or two strings. -/
theorem InfixOp.apply_eq_of_kind (op : InfixOp) {l r : Value}
    (hint : ¬ (l.kind = .integer ∧ r.kind = .integer))
    (hstr : ¬ (l.kind = .string ∧ r.kind = .string)) :
    op.apply l r = if l.kind ≠ r.kind then .error (.typeMismatch l.kind op r.kind)
      else match op with
        | .equal => .ok (.boolean (l.same r))
        | .notEqual => .ok (.boolean !l.same r)
        | _ => .error (.unknownInfixOperator l.kind op r.kind) := by
  unfold InfixOp.apply
  split
  · exact absurd ⟨rfl, rfl⟩ hint
  · exact absurd ⟨rfl, rfl⟩ hstr
  · rfl

/-- Integers and strings have their own shape only. -/
theorem Value.Shaped.eq_of_kind {v w : Value} (h : v.Shaped R S w)
    (hkind : v.kind = .integer ∨ v.kind = .string) : v = w := by
  cases h with
  | plain | error => rfl
  | array | hash | function => rcases hkind with hkind | hkind <;> cases hkind

/-- **Operators between operands see the shapes**, and whether the two are the same. -/
theorem InfixOp.apply_eq (op : InfixOp) {l l' r r' : Value} (hl : l.Shaped R S l')
    (hr : r.Shaped R S r') (hsame : l.same r = l'.same r') : op.apply l r = op.apply l' r' := by
  by_cases hint : l.kind = .integer ∧ r.kind = .integer
  · rw [hl.eq_of_kind (.inl hint.1), hr.eq_of_kind (.inl hint.2)]
  by_cases hstr : l.kind = .string ∧ r.kind = .string
  · rw [hl.eq_of_kind (.inr hstr.1), hr.eq_of_kind (.inr hstr.2)]
  rw [op.apply_eq_of_kind hint hstr, hsame, hl.kind_eq, hr.kind_eq]
  rw [hl.kind_eq, hr.kind_eq] at hint hstr
  exact (op.apply_eq_of_kind hint hstr).symm

/-! ## Indexes and built-ins

What these hand out was inside the value on both sides, at the same place. -/

/-- **Indexing gives what corresponds**, or fails on both sides. -/
theorem Value.index_agrees (hnull : R .null .null) {c c' k k' : Value} (hc : c.Shaped R S c')
    (hk : k.Shaped R S k') : Agrees R (c.index k) (c'.index k') := by
  -- Only arrays and hashes can be indexed; everything else fails with its kind, which both sides
  -- share.
  cases hc with
  | @plain c hc =>
    cases c with
    | array | hash => cases hc
    | _ => exact .error _
  | error | function => exact .error _
  | array i j hes =>
    cases hk with
    | @plain k hk =>
      cases k with
      | integer n =>
        simp only [Value.index]
        split
        · exact .error _
        · rcases rel_cases (rel_getElem? hes n.toInt.toNat) with ⟨he, hf⟩ | ⟨v, w, he, hf, hv⟩
          · rw [he, hf]
            exact .error _
          · rw [he, hf]
            exact .ok hv
      | _ => exact .error _
    | _ => exact .error _
  | hash i j hps =>
    simp only [Value.index, hk.toHashKey_eq]
    cases k'.toHashKey with
    | error e => exact .error e
    | ok key =>
      refine .ok ?_
      dsimp only
      rcases rel_cases (rel_lookup hps key) with ⟨hp, hq⟩ | ⟨v, w, hp, hq, hv⟩
      · rw [hp, hq]
        exact hnull
      · rw [hp, hq]
        exact hv.value

variable {R' : Value → Value → Prop}

/-- To hand out an element. -/
theorem Builtin.element_agrees (hR : ∀ {v w}, R v w → R' v w) {a b : Option Value}
    (h : Option.Rel R a b) : Agrees R' (Builtin.element a) (Builtin.element b) := by
  cases h with
  | none => exact .error _
  | some hv => exact .ok (hR hv)

/-- To make an array with one element less. -/
theorem Builtin.shortened_agrees {i j : Identity} {es fs es' fs' : List Value}
    (hes : List.Forall₂ R es fs) (h : R' (.array i es') (.array j fs')) :
    Agrees R' (Builtin.shortened i es es') (Builtin.shortened j fs fs') := by
  unfold Builtin.shortened
  rw [isEmpty_eq hes]
  split
  · exact .error _
  · exact .ok h

/-- **Built-ins give corresponding results**: what corresponded before (`R`), or a new array under
the identities `i` and `j`. -/
theorem Builtin.call_agrees (b : Builtin) {i j : Identity}
    (hplain : ∀ {v}, v.isPlain → R' v v)
    (harray : ∀ {es fs}, List.Forall₂ R es fs → R' (.array i es) (.array j fs))
    (hR : ∀ {v w}, R v w → R' v w)
    (hshape : ∀ {v w}, R v w → v.Shaped R S w) {args args' : List Value}
    (hargs : List.Forall₂ R args args') : Agrees R' (b.call i args) (b.call j args') := by
  -- The number of arguments is looked at first, and then the kind of the first one.
  unfold Builtin.call
  rw [hargs.length_eq]
  split
  · exact .error _
  · cases hargs with
    | nil => cases b <;> exact .error _
    | @cons v w vs ws hv hvs =>
      cases hshape hv with
      | @plain v hp =>
        cases v with
        | string s =>
          cases b with
          | len => exact .ok (hplain rfl)
          | _ => exact .error _
        | array | hash | function => cases hp
        | _ => cases b <;> exact .error _
      | error | hash | function => cases b <;> exact .error _
      | array k l hes =>
        cases b with
        | len =>
          dsimp only
          rw [hes.length_eq]
          exact .ok (hplain rfl)
        | first => exact Builtin.element_agrees hR (rel_head? hes)
        | last => exact Builtin.element_agrees hR (rel_getLast? hes)
        | rest => exact Builtin.shortened_agrees hes (harray (rel_tail hes))
        | pop => exact Builtin.shortened_agrees hes (harray (rel_dropLast hes))
        | push => exact .ok (harray (List.rel_append hes hvs))

end Scriptlet
