import Mathlib.Logic.Relator
import Scriptlet.Proofs.Value.Induction
import Scriptlet.Proofs.Store.Reach

/-!
# Proofs/Value/Alike — values up to renaming

Which place a scope has, and which identity an array, a hash or a function carries, depends on how
many were made before.  A `Renaming` says which places and which identities stand for each other;
two values are **alike** when they are built alike from places and identities that do.

Renamings grow, one pair at a time, and are one-to-one at every time.  So values that are alike are
the same in pairs (`Value.Alike.same_eq`).
-/

namespace Scriptlet

/-- Which scopes and which identities stand for each other, one for one. -/
structure Renaming where
  scope : ScopeId → ScopeId → Prop
  identity : Identity → Identity → Prop
  scope_unique : Relator.BiUnique scope
  identity_unique : Relator.BiUnique identity

namespace Renaming

instance : LE Renaming where
  le r r' := (∀ i j, r.scope i j → r'.scope i j) ∧ ∀ i j, r.identity i j → r'.identity i j

theorem le_refl (r : Renaming) : r ≤ r := ⟨fun _ _ h => h, fun _ _ h => h⟩

theorem le_trans {r r' r'' : Renaming} (h : r ≤ r') (h' : r' ≤ r'') : r ≤ r'' :=
  ⟨fun i j hij => h'.1 i j (h.1 i j hij), fun i j hij => h'.2 i j (h.2 i j hij)⟩

/-- One pair more. -/
def Adjoin (R : Nat → Nat → Prop) (i j : Nat) (k l : Nat) : Prop := R k l ∨ k = i ∧ l = j

/-- A pair of two that had no like yet keeps a renaming one-to-one. -/
theorem adjoin_unique {R : Nat → Nat → Prop} (h : Relator.BiUnique R) {i j : Nat}
    (hi : ∀ l, ¬ R i l) (hj : ∀ k, ¬ R k j) : Relator.BiUnique (Adjoin R i j) := by
  constructor
  · rintro k k' l (hk | ⟨rfl, rfl⟩) (hk' | ⟨rfl, hl⟩)
    · exact h.1 hk hk'
    · exact absurd (hl ▸ hk) (hj _)
    · exact absurd hk' (hj _)
    · rfl
  · rintro k l l' (hl | ⟨rfl, rfl⟩) (hl' | ⟨hk, rfl⟩)
    · exact h.2 hl hl'
    · exact absurd (hk ▸ hl) (hi _)
    · exact absurd hl' (hi _)
    · rfl

/-- Two scopes more that stand for each other, and for no other. -/
def addScope (r : Renaming) (i j : ScopeId) (hi : ∀ l, ¬ r.scope i l) (hj : ∀ k, ¬ r.scope k j) :
    Renaming :=
  { r with scope := Adjoin r.scope i j, scope_unique := adjoin_unique r.scope_unique hi hj }

/-- Two identities more. -/
def addIdentity (r : Renaming) (i j : Identity) (hi : ∀ l, ¬ r.identity i l)
    (hj : ∀ k, ¬ r.identity k j) : Renaming :=
  { r with
    identity := Adjoin r.identity i j
    identity_unique := adjoin_unique r.identity_unique hi hj }

theorem le_addScope {r : Renaming} {i j : ScopeId} (hi : ∀ l, ¬ r.scope i l)
    (hj : ∀ k, ¬ r.scope k j) : r ≤ r.addScope i j hi hj :=
  ⟨fun _ _ => .inl, fun _ _ h => h⟩

theorem le_addIdentity {r : Renaming} {i j : Identity} (hi : ∀ l, ¬ r.identity i l)
    (hj : ∀ k, ¬ r.identity k j) : r ≤ r.addIdentity i j hi hj :=
  ⟨fun _ _ h => h, fun _ _ => .inl⟩

/-- Identities are compared alike on both sides. -/
theorem identity_beq {r : Renaming} {i i' j j' : Identity} (hi : r.identity i i')
    (hj : r.identity j j') : (i == j) = (i' == j') := by
  rw [Bool.eq_iff_iff, beq_iff_eq, beq_iff_eq]
  constructor
  · rintro rfl
    exact r.identity_unique.2 hi hj
  · rintro rfl
    exact r.identity_unique.1 hi hj

end Renaming

namespace Value

/-- The identity that a value carries. -/
def identity? : Value → Option Identity
  | array i _ | hash i _ | function i .. => some i
  | _ => none

/-- The values are **alike**, up to the renaming. -/
inductive Alike (r : Renaming) : Value → Value → Prop
  | plain {v : Value} : v.isPlain → Alike r v v
  | error (message : String) : Alike r (.error message) (.error message)
  | array {i j : Identity} {es fs : List Value} : r.identity i j → es.length = fs.length →
    (∀ {e f}, (e, f) ∈ es.zip fs → Alike r e f) → Alike r (.array i es) (.array j fs)
  | hash {i j : Identity} {ps qs : List HashEntry} : r.identity i j →
    ps.length = qs.length → (∀ {p q}, (p, q) ∈ ps.zip qs → p.1 = q.1) →
    (∀ {p q}, (p, q) ∈ ps.zip qs → Alike r p.2.key q.2.key) →
    (∀ {p q}, (p, q) ∈ ps.zip qs → Alike r p.2.value q.2.value) → Alike r (.hash i ps) (.hash j qs)
  | function {i j : Identity} {s t : ScopeId} (params : List Param) (body : Block) :
    r.identity i j → r.scope s t →
    Alike r (.function i params body s) (.function j params body t)

namespace Alike

variable {r r' : Renaming} {u v u' v' : Value}

/-- Arrays are alike if they stand for each other and hold what is alike. -/
theorem of_elements {i j : Identity} {es fs : List Value} (hij : r.identity i j)
    (h : List.Forall₂ (Alike r) es fs) : Alike r (.array i es) (.array j fs) :=
  .array hij h.length_eq fun hef => (List.forall₂_iff_zip.mp h).2 hef

theorem of_entries {i j : Identity} {ps qs : List HashEntry} (hij : r.identity i j)
    (h : List.Forall₂ (EntryRel (HashPair.Rel (Alike r))) ps qs) :
    Alike r (.hash i ps) (.hash j qs) :=
  .hash hij h.length_eq (fun hpq => ((List.forall₂_iff_zip.mp h).2 hpq).1)
    (fun hpq => ((List.forall₂_iff_zip.mp h).2 hpq).2.key)
    fun hpq => ((List.forall₂_iff_zip.mp h).2 hpq).2.value

/-- Values that are alike have one shape. -/
theorem shaped (h : Alike r v v') : v.Shaped (Alike r) r.scope v' := by
  cases h with
  | plain hv => exact .plain hv
  | error message => exact .error message
  | array _ hlength hes => exact .array _ _ (List.forall₂_iff_zip.mpr ⟨hlength, hes⟩)
  | hash _ hlength hnames hkeys hvalues =>
    exact .hash _ _ (List.forall₂_iff_zip.mpr
      ⟨hlength, fun hpq => ⟨hnames hpq, hkeys hpq, hvalues hpq⟩⟩)
  | function params body _ hst => exact .function _ _ params body hst

/-- **Values that are alike are the same in pairs.** -/
theorem same_eq (hu : Alike r u u') (hv : Alike r v v') : u.same v = u'.same v' := by
  cases hu with
  | @plain u hplain =>
    cases hv with
    | plain | error => rfl
    | array | hash | function => cases u <;> first | rfl | cases hplain
  | error => rfl
  | array hid hlength hes =>
    cases hv with
    | @plain v hplain => cases v <;> first | rfl | cases hplain
    | array hid' hlength' hes' =>
      have hempty := isEmpty_eq (List.forall₂_iff_zip.mpr ⟨hlength, hes⟩)
      have hempty' := isEmpty_eq (List.forall₂_iff_zip.mpr ⟨hlength', hes'⟩)
      simp only [same, hempty, hempty', Renaming.identity_beq hid hid']
    | _ => rfl
  | hash hid =>
    cases hv with
    | @plain v hplain => cases v <;> first | rfl | cases hplain
    | hash hid' => exact Renaming.identity_beq hid hid'
    | _ => rfl
  | function _ _ hid =>
    cases hv with
    | @plain v hplain => cases v <;> first | rfl | cases hplain
    | function _ _ hid' => exact Renaming.identity_beq hid hid'
    | _ => rfl

/-- A renaming that keeps all that shows in the value will do as well. -/
theorem imp (h : Alike r v v') (hid : ∀ i j, r.identity i j → r'.identity i j)
    (hscope : ∀ k l, v.Captures k → r.scope k l → r'.scope k l) : Alike r' v v' := by
  induction h with
  | plain hv => exact .plain hv
  | error message => exact .error message
  | array hij hlength _ ih =>
    exact .array (hid _ _ hij) hlength fun hef => ih hef fun k l hk =>
      hscope k l (captures_array.mpr ⟨_, List.of_mem_zip hef |>.1, hk⟩)
  | hash hij hlength hnames _ _ ihkey ihvalue =>
    refine .hash (hid _ _ hij) hlength hnames (fun hpq => ihkey hpq fun k l hk => ?_)
      fun hpq => ihvalue hpq fun k l hk => ?_
    · exact hscope k l (captures_hash.mpr ⟨_, List.of_mem_zip hpq |>.1, .inl hk⟩)
    · exact hscope k l (captures_hash.mpr ⟨_, List.of_mem_zip hpq |>.1, .inr hk⟩)
  | function params body hij hst =>
    exact .function params body (hid _ _ hij) (hscope _ _ (captures_function.mpr rfl) hst)

/-- Values that are alike stay so when the renaming grows. -/
theorem mono (hle : r ≤ r') (h : Alike r v v') : Alike r' v v' :=
  h.imp hle.2 fun k l _ => hle.1 k l

/-- An identity that shows in the value has its like. -/
theorem identity_of (h : Alike r v v') {i : Identity} (hi : v.identity? = some i) :
    ∃ j, r.identity i j := by
  cases h with
  | @plain v hv =>
    cases v with
    | array | hash | function => cases hv
    | _ => cases hi
  | error => cases hi
  | array hij | hash hij | function _ _ hij =>
    cases hi
    exact ⟨_, hij⟩

/-- What the value holds has its like, too. -/
theorem held (h : Alike r v v') (hu : Holds u v) : ∃ u', Alike r u u' := by
  induction hu generalizing v' with
  | self => exact ⟨v', h⟩
  | element he _ ih =>
    cases h.shaped with
    | plain hv => cases hv
    | array _ _ hes =>
      obtain ⟨f, hf⟩ := rel_exists hes he
      exact ih hf
  | key hp _ ih =>
    cases h.shaped with
    | plain hv => cases hv
    | hash _ _ hps =>
      obtain ⟨q, hq⟩ := rel_exists hps hp
      exact ih hq.2.key
  | entry hp _ ih =>
    cases h.shaped with
    | plain hv => cases hv
    | hash _ _ hps =>
      obtain ⟨q, hq⟩ := rel_exists hps hp
      exact ih hq.2.value

/-- A value is like itself if all that shows in it stands for itself. -/
theorem refl {r : Renaming} (v : Value) (hscope : ∀ k, v.Captures k → r.scope k k)
    (hid : ∀ u i, Holds u v → u.identity? = some i → r.identity i i) : Alike r v v := by
  induction v using induct with
  | plain v hv => exact .plain hv
  | error message => exact .error message
  | array i es ih =>
    refine .of_elements (hid _ i .self rfl) (List.forall₂_same.mpr fun e he => ih e he ?_ ?_)
    · exact fun k hk => hscope k (captures_array.mpr ⟨e, he, hk⟩)
    · exact fun u i hu => hid u i (.element he hu)
  | hash i ps ih =>
    refine .of_entries (hid _ i .self rfl) (List.forall₂_same.mpr fun p hp => ⟨rfl, ?_, ?_⟩)
    · exact (ih p hp).key (fun k hk => hscope k (captures_hash.mpr ⟨p, hp, .inl hk⟩))
        fun u i hu => hid u i (.key hp hu)
    · exact (ih p hp).value (fun k hk => hscope k (captures_hash.mpr ⟨p, hp, .inr hk⟩))
        fun u i hu => hid u i (.entry hp hu)
  | function i params body s =>
    exact .function params body (hid _ i .self rfl) (hscope s (captures_function.mpr rfl))

end Alike

end Value

end Scriptlet
