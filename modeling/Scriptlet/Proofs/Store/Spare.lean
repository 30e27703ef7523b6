import Scriptlet.Proofs.Store.Matching
import Scriptlet.Proofs.Value.Text

/-!
# Proofs/Store/Spare — an empty scope can be left out

A scope that binds nothing is **spare**: looking a name up from it goes on at once with the scope
around it.  `Store.without` takes such a scope out of a store.  The scopes after it move up by one
place, and what referred to it refers to the scope around it.

As long as nothing is bound in the spare scope itself, each operation on the store does without it
what it does with it.
-/

namespace Scriptlet

variable {e i k : Nat}

/-! ## Other places

`collapse` is what a place becomes when the scope at `e` is taken out, and `expand` goes back.  Only
at `e` itself is something lost, since `e` becomes the place of the scope around it. -/

/-- The places when the scope at `e`, which is inside the scope at `i`, is left out. -/
def collapse (e i k : Nat) : Nat := if k < e then k else if k = e then i else k - 1

theorem collapse_of_lt (h : k < e) : collapse e i k = k := if_pos h

/-- The place of the scope becomes that of the scope around it. -/
@[simp]
theorem collapse_self : collapse e i e = i := by
  rw [collapse, if_neg (Nat.lt_irrefl e), if_pos rfl]

theorem collapse_of_gt (h : e < k) : collapse e i k = k - 1 := by
  rw [collapse, if_neg (Nat.not_lt_of_gt h), if_neg (Nat.ne_of_gt h)]

/-- Older scopes stay older, the scope that is left out apart. -/
theorem collapse_lt {o : Nat} (hi : i < e) (ho : o < k) (hk : k ≠ e) :
    collapse e i o < collapse e i k := by
  unfold collapse
  split_ifs <;> omega

/-- The place before the scope at `e` was left out. -/
def expand (e l : Nat) : Nat := if l < e then l else l + 1

/-- Apart from `e`, going there and back leads to the same place. -/
theorem collapse_eq_iff {l : Nat} (hk : k ≠ e) : collapse e i k = l ↔ k = expand e l := by
  unfold collapse expand
  split_ifs <;> omega

theorem last_iff {l n : Nat} (he : e < n) : l = n - 1 ↔ expand e l = n := by
  unfold expand
  split_ifs <;> omega

/-- What does not move is as it was. -/
theorem Value.rescope_eq_self {f : ScopeId → ScopeId} {v : Value}
    (h : ∀ k, v.Captures k → f k = k) : v.rescope f = v := by
  induction v using Value.induct with
  | plain v hv => exact recast_of_isPlain _ hv
  | error message => rfl
  | array i es ih =>
    rw [rescope_array]
    refine congrArg (array i) ((List.map_congr_left fun e he => ?_).trans (List.map_id es))
    exact ih e he fun k hk => h k (captures_array.mpr ⟨e, he, hk⟩)
  | hash i ps ih =>
    rw [rescope_hash]
    refine congrArg (hash i) ((List.map_congr_left fun p hp => ?_).trans (List.map_id ps))
    have hkey := (ih p hp).key fun k hk => h k (captures_hash.mpr ⟨p, hp, .inl hk⟩)
    have hvalue := (ih p hp).value fun k hk => h k (captures_hash.mpr ⟨p, hp, .inr hk⟩)
    exact Prod.ext rfl (congrArg₂ HashPair.mk hkey hvalue)
  | function i params body scope =>
    rw [rescope_function, h scope (captures_function.mpr rfl)]

/-- The scope when another one is left out. -/
def Scope.rescope (f : ScopeId → ScopeId) (c : Scope) : Scope := c.recast (.rescope f)

/-- The names of a scope do not depend on places. -/
theorem Scope.binds_rescope (f : ScopeId → ScopeId) (c : Scope) (x : String) :
    (c.rescope f).binds x = c.binds x :=
  c.binds_recast x Function.injective_id

/-- A name stands for the same value, at other places. -/
theorem Scope.get?_rescope (f : ScopeId → ScopeId) (c : Scope) (x : String) :
    (c.rescope f).get? x = (c.get? x).map (Value.rescope f) :=
  c.get?_recast x Function.injective_id

theorem Scope.outer_rescope (f : ScopeId → ScopeId) (c : Scope) :
    (c.rescope f).outer = c.outer.map f := rfl

namespace Store

/-- A store is its scopes, place by place, and the next identity. -/
theorem ext_scopes {s t : Store} (h : ∀ l : ScopeId, s.scopes[l]? = t.scopes[l]?)
    (hid : s.nextId = t.nextId) : s = t := by
  obtain ⟨scopes, nextId⟩ := s
  obtain ⟨scopes', nextId'⟩ := t
  obtain rfl : nextId = nextId' := hid
  exact congrArg (Store.mk · nextId) (Array.ext_getElem? h)

/-! ## A store without one of its scopes

Each operation commutes with taking the scope out, if it does not work on that scope itself. -/

/-- The store without the scope at `e`, which is inside the scope at `i`. -/
def without (e i : ScopeId) (s : Store) : Store :=
  { s with scopes := (s.scopes.eraseIdxIfInBounds e).map (Scope.rescope (collapse e i)) }

variable {s t t' : Store}

/-- What is at each place now. -/
theorem without_at (e i l : ScopeId) (s : Store) :
    (s.without e i).scopes[l]? =
      s.scopes[expand e l]?.map (Scope.rescope (collapse e i)) := by
  rw [without, Array.getElem?_map, ← Array.getElem?_toList, Array.toList_eraseIdxIfInBounds,
    List.getElem?_eraseIdx, Array.getElem?_toList, Array.getElem?_toList, expand]
  split <;> rfl

/-- The scope at another place has moved. -/
theorem scopes_without (hk : k ≠ e) :
    (s.without e i).scopes[collapse e i k]? =
      s.scopes[k]?.map (Scope.rescope (collapse e i)) := by
  rw [without_at, ← (collapse_eq_iff hk).mp rfl]

/-- One scope less is left. -/
theorem nextScope_without (he : e < s.nextScope) :
    (s.without e i).nextScope = s.nextScope - 1 := by
  rw [nextScope, without, Array.size_map, ← Array.length_toList, Array.toList_eraseIdxIfInBounds,
    List.length_eraseIdx_of_lt he]
  rfl

/-- Other scopes own what they owned. -/
theorem owns_without (hk : k ≠ e) (x : String) :
    (s.without e i).owns (collapse e i k) x = s.owns k x := by
  rw [owns, owns, scopes_without hk]
  cases s.scopes[k]? with
  | none => rfl
  | some c => exact c.binds_rescope _ x

/-- A new scope, made before or after taking out the other one. -/
theorem addScope_without (he : e < s.nextScope) (outer : Option ScopeId) :
    (s.without e i).addScope (outer.map (collapse e i)) = (s.addScope outer).without e i := by
  refine ext_scopes (fun l => ?_) rfl
  have hl : l = s.nextScope - 1 ↔ expand e l = s.nextScope := last_iff he
  rw [scopes_addScope, without_at, without_at, scopes_addScope, nextScope_without he]
  simp only [hl]
  split <;> rfl

/-- The same change to one scope, in the store with and without the other scope. -/
theorem change_without (hk : k ≠ e) {g g' : Scope → Scope} (ht : s.Changed t k g)
    (ht' : (s.without e i).Changed t' (collapse e i k) g')
    (hg : ∀ c : Scope, g' (c.rescope (collapse e i)) = (g c).rescope (collapse e i)) :
    t' = t.without e i := by
  refine ext_scopes (fun l => ?_) (ht'.nextId.trans ht.nextId.symm)
  rw [ht'.scopes, without_at, without_at, ht.scopes]
  simp only [collapse_eq_iff hk]
  split
  · simp only [Option.map_map, Function.comp_def, hg]
  · rfl

theorem bind_without (hk : k ≠ e) (x : String) (v : Value) :
    (s.without e i).bind (collapse e i k) x (v.rescope (collapse e i)) =
      (s.bind k x v).without e i :=
  change_without hk (s.changed_bind k x v) ((s.without e i).changed_bind _ x _) fun c =>
    c.add_recast _ x v

theorem set_without (hk : k ≠ e) (x : String) (v : Value) :
    (s.without e i).set (collapse e i k) x (v.rescope (collapse e i)) =
      (s.set k x v).without e i :=
  change_without hk (s.changed_set k x v) ((s.without e i).changed_set _ x _) fun c =>
    c.set_recast x v Function.injective_id

/-! ## Spare scopes

A spare scope stays empty as long as nothing is bound in it.  A search that comes to it goes on at
once, so the search without it is a step shorter and finds the same. -/

/-- The scope at `e` is **spare**: it is inside the scope at `i` and binds nothing. -/
structure Spare (e i : ScopeId) (s : Store) : Prop where
  scope : s.scopes[e]? = some ⟨some i, []⟩
  ordered : s.Ordered
  closed : s.Closed (· < s.nextScope)

namespace Spare

theorem lt_nextScope (h : s.Spare e i) : e < s.nextScope := Store.lt_nextScope h.scope

theorem outer_lt (h : s.Spare e i) : i < e := h.ordered e _ i h.scope rfl

/-- All functions of a store belong to scopes of the store, also after a scope was added. -/
theorem closed_addScope (hs : s.Closed (· < s.nextScope)) (hk : k < s.nextScope) :
    (s.addScope (some k)).Closed (· < (s.addScope (some k)).nextScope) := by
  rw [nextScope_addScope]
  constructor
  · intro l c o _ hc ho
    rcases addScope_cases hc with hc | ⟨-, rfl⟩
    · exact Nat.lt_succ_of_lt (hs.outer (Store.lt_nextScope hc) hc ho)
    · cases ho
      exact Nat.lt_succ_of_lt hk
  · intro l c b _ hc hb n hn
    rcases addScope_cases hc with hc | ⟨-, rfl⟩
    · exact Nat.lt_succ_of_lt (hs.bindings (Store.lt_nextScope hc) hc hb n hn)
    · cases hb

theorem new (hs : s.Ordered) (hclosed : s.Closed (· < s.nextScope)) (hi : i < s.nextScope) :
    (s.addScope (some i)).Spare s.nextScope i :=
  ⟨addScope_new s _, hs.addScope hi, closed_addScope hclosed hi⟩

/-- A new scope, inside any other one or the spare one itself, leaves it spare. -/
theorem addScope (h : s.Spare e i) (hk : k < s.nextScope) : (s.addScope (some k)).Spare e i :=
  ⟨(addScope_old _ h.lt_nextScope).trans h.scope, h.ordered.addScope hk,
    closed_addScope h.closed hk⟩

/-- A scope stays spare while something is bound in others. -/
theorem change (h : s.Spare e i) (hk : k ≠ e) {g : Scope → Scope} (ht : s.Changed t k g) {v : Value}
    (hv : v.Within (· < s.nextScope))
    (hbindings : ∀ c b, b ∈ (g c).bindings → b ∈ c.bindings ∨ b.2 = v) : t.Spare e i := by
  refine ⟨(ht.elsewhere hk).trans h.scope, h.ordered.change ht, ?_⟩
  rw [ht.nextScope]
  exact h.closed.change ht hv hbindings

/-! ### Looking up -/

/-- Looking up from the spare scope goes on with the scope around it, which takes one step less
without it. -/
theorem resolveWithin (h : s.Spare e i) (x : String) {m n : Nat} (hm : k < m)
    (hn : collapse e i k < n) :
    (s.without e i).resolveWithin x n (collapse e i k) =
      (s.resolveWithin x m k).map (collapse e i) := by
  -- On the number of steps.  A step that comes to the spare scope has no counterpart, so the bounds
  -- differ by one for scopes behind it.
  induction m generalizing k n with
  | zero => cases hm
  | succ m ih =>
    by_cases hk : k = e
    · subst hk
      have hi := collapse_of_lt (i := i) h.outer_lt
      rw [collapse_self] at hn ⊢
      have hrest := ih (Nat.lt_of_lt_of_le h.outer_lt (Nat.le_of_lt_succ hm)) (hi.symm ▸ hn)
      rw [hi] at hrest
      simp only [Store.resolveWithin, h.scope]
      exact hrest
    · obtain ⟨n, rfl⟩ := Nat.exists_eq_add_one_of_ne_zero (Nat.ne_zero_of_lt hn)
      rw [Store.resolveWithin, Store.resolveWithin, scopes_without hk]
      cases hc : s.scopes[k]? with
      | none => rfl
      | some c =>
        simp only [Option.map_some, Scope.binds_rescope, Scope.outer_rescope]
        split
        · rfl
        · cases ho : c.outer with
          | none => rfl
          | some o =>
            have hlt := h.ordered k c o hc ho
            have hlt' := collapse_lt h.outer_lt hlt hk
            exact ih (Nat.lt_of_lt_of_le hlt (Nat.le_of_lt_succ hm))
              (Nat.lt_of_lt_of_le hlt' (Nat.le_of_lt_succ hn))

/-- **A name is found where it was.** -/
theorem resolve (h : s.Spare e i) (k : ScopeId) (x : String) :
    (s.without e i).resolve (collapse e i k) x = (s.resolve k x).map (collapse e i) :=
  h.resolveWithin x (Nat.lt_succ_self k) (Nat.lt_succ_self _)

/-- Nothing is found in the spare scope itself. -/
theorem home_ne (h : s.Spare e i) {x : String} {home : ScopeId}
    (hhome : s.resolve k x = some home) :
    home ≠ e := by
  rintro rfl
  have howns := owns_of_resolveWithin hhome
  rw [owns, h.scope] at howns
  cases howns

/-- A name stands for the same value without the spare scope. -/
theorem get? (h : s.Spare e i) (k : ScopeId) (x : String) :
    (s.without e i).get? (collapse e i k) x =
      (s.get? k x).map (Value.rescope (collapse e i)) := by
  rw [Store.get?, Store.get?, h.resolve]
  cases hhome : s.resolve k x with
  | none => rfl
  | some home =>
    simp only [Option.map_some, Option.bind_eq_bind, Option.bind_some,
      scopes_without (h.home_ne hhome)]
    cases s.scopes[home]? with
    | none => rfl
    | some c => exact c.get?_rescope _ x

end Spare

/-! ## A new scope, left out again

When a scope was just made, it is spare, and leaving it out gives the store that was there before.
-/

/-- **A new scope is left out again**, and the store is as it was. -/
theorem without_addScope (hs : s.Closed (· < s.nextScope)) (i : ScopeId) :
    (s.addScope (some i)).without s.nextScope i = s := by
  refine ext_scopes (fun l => ?_) rfl
  rw [without_at, scopes_addScope]
  rcases Nat.lt_or_ge l s.nextScope with hl | hl
  · rw [expand, if_pos hl, if_neg (Nat.ne_of_lt hl)]
    cases hc : s.scopes[l]? with
    | none => rfl
    | some c =>
      have houter : c.outer.map (collapse s.nextScope i) = c.outer := by
        cases ho : c.outer with
        | none => rfl
        | some o => exact congrArg some (collapse_of_lt (hs.outer hl hc ho))
      have hbindings : (c.bindings.map fun b =>
          (b.1, b.2.rescope (collapse s.nextScope i))) = c.bindings := by
        refine (List.map_congr_left fun b hb => ?_).trans (List.map_id _)
        exact Prod.ext rfl (Value.rescope_eq_self fun k hk =>
          collapse_of_lt (hs.bindings hl hc hb k hk))
      exact congrArg some (congrArg₂ Scope.mk houter hbindings)
  · have hnone : s.scopes[l]? = none := Array.getElem?_eq_none hl
    have hnone' : s.scopes[l + 1]? = none := Array.getElem?_eq_none (Nat.le_succ_of_le hl)
    rw [expand, if_neg (Nat.not_lt_of_le hl), if_neg (Nat.ne_of_gt (Nat.lt_succ_of_le hl)), hnone,
      hnone', Option.map_none]

end Store

end Scriptlet
