import Scriptlet.Proofs.Store.Chain

/-!
# Proofs/Store/Handles — the laws of scopes, as those who hold them see them

A handle stands for one scope.  Handles are made for new scopes, with or without an outer scope, or
as clones of other handles, and any number of them may stand for one scope.  `Handles` is what a
sequence of requests has made of an empty store.

Seen through the handles, a store that was reached in this way is **lawful**: what a request
answers, and what it changes of any name seen through any handle, is settled by the chains of the
scopes.  -/

namespace Scriptlet

/-! ## Requests

A request that names a handle which was never made has no answer at all; all others have one, which
may be a failure. -/

/-- What can be asked for, handles being numbered in the order in which they were made. -/
inductive Request
  | new
  | enclosed (outer : Nat)
  | clone (handle : Nat)
  | define (handle : Nat) (name : String) (value : Value)
  | assign (handle : Nat) (name : String) (value : Value)
  | get (handle : Nat) (name : String)

/-- What a request is answered with. -/
inductive Answer
  /-- The number of the handle that was made. -/
  | handle (n : Nat)
  | done
  | failed (error : RuntimeError)
  | value (v : Option Value)

/-- A store, and the scope that each handle stands for. -/
structure Handles where
  store : Store
  places : List ScopeId

namespace Handles

/-- At the beginning there is no scope and no handle. -/
def start : Handles := ⟨.empty, []⟩

/-- Make a handle for the scope at a place. -/
def hold (w : Handles) (store : Store) (place : ScopeId) : Answer × Handles :=
  (.handle w.places.length, ⟨store, w.places ++ [place]⟩)

/-- A changed store, or the error for which it was left alone. -/
def change (w : Handles) : Except RuntimeError Store → Answer × Handles
  | .ok store => (.done, { w with store })
  | .error e => (.failed e, w)

/-- The value of a name, seen through a handle. -/
def get? (w : Handles) (h : Nat) (x : String) : Option Value :=
  w.places[h]?.bind (w.store.get? · x)

/-- Answer one request; only a handle that was made can be used. -/
def step (w : Handles) : Request → Option (Answer × Handles)
  | .new => some (w.hold (w.store.addScope none) w.store.nextScope)
  | .enclosed h => w.places[h]?.map fun i => w.hold (w.store.addScope (some i)) w.store.nextScope
  | .clone h => w.places[h]?.map fun i => w.hold w.store i
  | .define h x v => w.places[h]?.map fun i => w.change (w.store.define i x v)
  | .assign h x v => w.places[h]?.map fun i => w.change (w.store.assign i x v)
  | .get h x => w.places[h]?.map fun i => (.value (w.store.get? i x), w)

/-- What a sequence of requests makes of the handles. -/
def after (w : Handles) : List Request → Option Handles
  | [] => some w
  | q :: qs => (w.step q).bind fun r => r.2.after qs

/-! ## What one request does

Whatever the request, the store only gains a scope or has one scope changed, and the handles only
gain one.  `Moves` says so once, and what all requests keep follows from it. -/

variable {w w' : Handles} {q : Request} {a : Answer} {h n : Nat} {i : ScopeId} {x : String}
  {v : Value}

/-- From `w` to `w'`, handles keep their scopes: a handle is made for a new scope or for one that is
held, the bindings of one scope change, or nothing does. -/
inductive Moves (w : Handles) : Handles → Prop
  | root : Moves w ⟨w.store.addScope none, w.places ++ [w.store.nextScope]⟩
  | inside {i : ScopeId} : i ∈ w.places →
      Moves w ⟨w.store.addScope (some i), w.places ++ [w.store.nextScope]⟩
  | clone {i : ScopeId} : i ∈ w.places → Moves w ⟨w.store, w.places ++ [i]⟩
  | change {t : Store} {home : ScopeId} {f : Scope → Scope} :
      w.store.Changed t home f → Moves w ⟨t, w.places⟩
  | stay : Moves w w

/-! A definition fails if its scope owns the name already, and an assignment if no scope of the
chain does. -/

theorem change_define (w : Handles) (i : ScopeId) (x : String) (v : Value) :
    w.change (w.store.define i x v) =
      if w.store.owns i x then (.failed (.alreadyDefined x), w)
      else (.done, { w with store := w.store.bind i x v }) := by
  unfold Store.define
  split <;> rfl

theorem change_assign (w : Handles) (i : ScopeId) (x : String) (v : Value) :
    w.change (w.store.assign i x v) =
      match w.store.resolve i x with
      | none => (.failed (.unknownIdentifier x), w)
      | some home => (.done, { w with store := w.store.set home x v }) := by
  unfold Store.assign
  cases w.store.resolve i x <;> rfl

/-- **Each request is one of these moves.** -/
theorem step_moves (hq : w.step q = some (a, w')) : w.Moves w' := by
  -- One case for each form of request; the failing ones move nothing.
  cases q with
  | new =>
    cases hq
    exact .root
  | enclosed h =>
    obtain ⟨i, hi, hq⟩ := Option.map_eq_some_iff.mp hq
    cases hq
    exact .inside (List.mem_of_getElem? hi)
  | clone h =>
    obtain ⟨i, hi, hq⟩ := Option.map_eq_some_iff.mp hq
    cases hq
    exact .clone (List.mem_of_getElem? hi)
  | define h x v =>
    obtain ⟨i, -, hq⟩ := Option.map_eq_some_iff.mp hq
    rw [change_define] at hq
    split at hq
    · cases hq
      exact .stay
    · cases hq
      exact .change (w.store.changed_bind i x v)
  | assign h x v =>
    obtain ⟨i, -, hq⟩ := Option.map_eq_some_iff.mp hq
    rw [change_assign] at hq
    split at hq
    · cases hq
      exact .stay
    · next home _ =>
      cases hq
      exact .change (w.store.changed_set home x v)
  | get h x =>
    obtain ⟨i, -, hq⟩ := Option.map_eq_some_iff.mp hq
    cases hq
    exact .stay

/-- What fails leaves everything alone. -/
theorem eq_of_failed {e : RuntimeError} (hq : w.step q = some (.failed e, w')) : w' = w := by
  cases q with
  | new => cases hq
  | enclosed h | clone h | get h x =>
    obtain ⟨i, -, hq⟩ := Option.map_eq_some_iff.mp hq
    cases hq
  | define h x v =>
    obtain ⟨i, -, hq⟩ := Option.map_eq_some_iff.mp hq
    rw [change_define] at hq
    split at hq
    · cases hq
      rfl
    · cases hq
  | assign h x v =>
    obtain ⟨i, -, hq⟩ := Option.map_eq_some_iff.mp hq
    rw [change_assign] at hq
    split at hq
    · cases hq
      rfl
    · cases hq

/-! ### What every request keeps

Handles stand for scopes of the store, and outer scopes are older.  Each of the moves keeps that. -/

/-- The scopes that handles stand for are there, and outer scopes are older. -/
structure Sound (w : Handles) : Prop where
  ordered : w.store.Ordered
  held : ∀ i ∈ w.places, i < w.store.nextScope

theorem sound_start : start.Sound :=
  ⟨Store.Sound.empty.ordered, fun _ hi => absurd hi List.not_mem_nil⟩

/-- A move keeps handles sound. -/
theorem Sound.moves (hw : w.Sound) (h : w.Moves w') : w'.Sound := by
  have held_new : ∀ outer, ∀ j ∈ w.places ++ [w.store.nextScope],
      j < (w.store.addScope outer).nextScope := by
    intro outer j hj
    rw [Store.nextScope_addScope]
    rcases List.mem_append.mp hj with hj | hj
    · exact Nat.lt_succ_of_lt (hw.held j hj)
    · exact Nat.lt_succ_of_le (Nat.le_of_eq (List.mem_singleton.mp hj))
  cases h with
  | root => exact ⟨hw.ordered.addRoot, held_new _⟩
  | inside hi => exact ⟨hw.ordered.addScope (hw.held _ hi), held_new _⟩
  | clone hi =>
    refine ⟨hw.ordered, fun j hj => ?_⟩
    rcases List.mem_append.mp hj with hj | hj
    · exact hw.held j hj
    · rw [List.mem_singleton.mp hj]
      exact hw.held _ hi
  | change ht =>
    refine ⟨hw.ordered.change ht, fun j hj => ?_⟩
    rw [ht.nextScope]
    exact hw.held j hj
  | stay => exact hw

/-- A handle stands for one scope for ever. -/
theorem Moves.place (hm : w.Moves w') (hi : w.places[h]? = some i) : w'.places[h]? = some i := by
  have hlt : h < w.places.length := (List.getElem?_eq_some_iff.mp hi).1
  cases hm with
  | root | inside | clone => rwa [List.getElem?_append_left hlt]
  | change | stay => exact hi

/-! ### Any number of requests

By induction on the requests, with what one request keeps. -/

/-- From one request to a sequence: what every step keeps holds after all of them. -/
theorem after_induction {P : Handles → Prop} (hstep : ∀ {w w'}, w.Moves w' → P w → P w')
    {qs : List Request} (hqs : w.after qs = some w') (hw : P w) : P w' := by
  induction qs generalizing w with
  | nil =>
    cases hqs
    exact hw
  | cons q qs ih =>
    obtain ⟨⟨a, u⟩, hq, hqs⟩ := Option.bind_eq_some_iff.mp hqs
    exact ih hqs (hstep (step_moves hq) hw)

theorem Sound.after (hw : w.Sound) {qs : List Request} (hqs : w.after qs = some w') : w'.Sound :=
  after_induction (fun h hw => hw.moves h) hqs hw

theorem place_after {qs : List Request} (hqs : w.after qs = some w') (hi : w.places[h]? = some i) :
    w'.places[h]? = some i :=
  after_induction (P := fun u => u.places[h]? = some i) (fun hm hu => hm.place hu) hqs hi

/-! ## Lookups through handles

To look a name up through a handle is to look it up from the scope that it stands for. -/

/-- A lookup through the handle starts at its scope. -/
theorem get?_of_place {s : Store} {places : List ScopeId} (hi : places[h]? = some i) (y : String) :
    get? ⟨s, places⟩ h y = s.get? i y := by
  unfold get?
  rw [hi, Option.bind_some]

/-- Handles that stand for one scope see the same. -/
theorem get?_eq_of_places_eq {h h' : Nat} (hw : w.places[h]? = w.places[h']?) (y : String) :
    w.get? h y = w.get? h' y := by
  unfold get?
  rw [hw]

theorem Sound.exists_chain (hw : w.Sound) (hi : w.places[h]? = some i) :
    ∃ l, w.store.Chain i l :=
  hw.ordered.exists_chain i (hw.held i (List.mem_of_getElem? hi))

/-! ## The laws

Each law is about one request in a store that requests have led to.  What is seen through another
handle afterwards is settled by the two chains. -/

/-- What a request answers, and what it changes of any name seen through any handle. -/
structure Lawful (w : Handles) : Prop where
  /-- The outer scopes of a handle come to an end, and a lookup searches all of them: the value is
  the first that one of them has, and the scope is the first that has one. -/
  chain : ∀ {h i}, w.places[h]? = some i → ∃ l, w.store.Chain i l ∧
    ∀ y, w.get? h y = l.findSome? (w.store.own? · y) ∧
      w.store.resolve i y = l.find? (w.store.owns · y)
  get_answer : ∀ {h i}, w.places[h]? = some i → ∀ y,
    w.step (.get h y) = some (.value (w.get? h y), w)
  /-- A definition is answered, and fails if and only if the handle's own scope binds the name. -/
  define_answer : ∀ {h i}, w.places[h]? = some i → ∀ x v, ∃ w', w.step (.define h x v) =
    some (if w.store.owns i x then .failed (.alreadyDefined x) else .done, w')
  /-- An assignment is answered, and fails if and only if the handle sees no value of the name. -/
  assign_answer : ∀ {h i}, w.places[h]? = some i → ∀ x v, ∃ w', w.step (.assign h x v) =
    some (if (w.get? h x).isNone then .failed (.unknownIdentifier x) else .done, w')
  /-- What fails changes nothing, for any handle. -/
  failed : ∀ {q e w'}, w.step q = some (.failed e, w') → ∀ h y, w'.get? h y = w.get? h y
  /-- What was defined is seen where the first scope of the chain that binds the name or is the
  handle's is the handle's; otherwise everything is seen as before. -/
  defined : ∀ {h i x v w'}, w.places[h]? = some i → w.step (.define h x v) = some (.done, w') →
    ∀ {h' j l}, w.places[h']? = some j → w.store.Chain j l → ∀ y, w'.get? h' y =
      if y = x ∧ l.find? (fun k => w.store.owns k x || k == i) = some i then some v
      else w.get? h' y
  /-- What was assigned is seen where the name stands for the scope that it stands for through the
  handle; otherwise everything is seen as before. -/
  assigned : ∀ {h i x v w'}, w.places[h]? = some i → w.step (.assign h x v) = some (.done, w') →
    ∀ {h' j}, w.places[h']? = some j → ∀ y, w'.get? h' y =
      if y = x ∧ w.store.resolve j x = w.store.resolve i x then some v else w.get? h' y
  /-- A handle and its clone see the same, whatever is asked for later. -/
  cloned : ∀ {h n w'}, w.step (.clone h) = some (.handle n, w') →
    ∀ {qs w''}, w'.after qs = some w'' → ∀ y, w''.get? n y = w''.get? h y

namespace Sound

/-- A lookup gives nothing just if no scope of the chain binds the name. -/
theorem isNone_get? (hw : w.Sound) (hi : w.places[h]? = some i) (x : String) :
    (w.get? h x).isNone = (w.store.resolve i x).isNone := by
  obtain ⟨l, hl⟩ := hw.exists_chain hi
  rw [get?_of_place hi, Store.get?_eq_bind, hl.resolve_eq hw.ordered]
  rcases hfind : l.find? (w.store.owns · x) with _ | home
  · rfl
  · have howns := hl.owns_of_resolve hw.ordered ((hl.resolve_eq hw.ordered x).trans hfind)
    rw [Store.owns_eq_isSome] at howns
    rw [Option.bind_some, Option.isNone_some, ← Option.not_isSome, howns, Bool.not_true]

/-- A definition is seen where its scope is the first of the chain that binds the name. -/
theorem defined (hw : w.Sound) (hi : w.places[h]? = some i)
    (hq : w.step (.define h x v) = some (.done, w')) {h' : Nat} {j : ScopeId} {l : List ScopeId}
    (hj : w.places[h']? = some j) (hl : w.store.Chain j l) (y : String) :
    w'.get? h' y =
      if y = x ∧ l.find? (fun k => w.store.owns k x || k == i) = some i then some v
      else w.get? h' y := by
  simp only [step, hi, Option.map_some, change_define] at hq
  split at hq
  · cases hq
  · cases hq
    have hchanged := w.store.changed_bind i x v
    rw [get?_of_place hj, get?_of_place hj]
    exact hl.get?_written (hl.change hchanged) hw.ordered (hw.ordered.change hchanged)
      (Store.written_bind (hw.held i (List.mem_of_getElem? hi)) x v) y

/-- An assignment is seen wherever the name was found in the same scope. -/
theorem assigned (hw : w.Sound) (hi : w.places[h]? = some i)
    (hq : w.step (.assign h x v) = some (.done, w')) {h' : Nat} {j : ScopeId}
    (hj : w.places[h']? = some j) (y : String) :
    w'.get? h' y =
      if y = x ∧ w.store.resolve j x = w.store.resolve i x then some v else w.get? h' y := by
  simp only [step, hi, Option.map_some, change_assign] at hq
  split at hq
  · cases hq
  · next home hhome =>
    cases hq
    have hchanged := w.store.changed_set home x v
    obtain ⟨k, hk⟩ := hw.exists_chain hi
    have howns := hk.owns_of_resolve hw.ordered hhome
    obtain ⟨l, hl⟩ := hw.exists_chain hj
    rw [get?_of_place hj, get?_of_place hj, hhome]
    exact hl.get?_overwritten (hl.change hchanged) hw.ordered (hw.ordered.change hchanged)
      (Store.written_set howns v) howns y

end Sound

/-- A clone is made at the end, for the scope of the handle, and both keep it. -/
theorem places_of_clone (hq : w.step (.clone h) = some (.handle n, w')) {qs : List Request}
    {w'' : Handles} (hqs : w'.after qs = some w'') : w''.places[n]? = w''.places[h]? := by
  obtain ⟨i, hi, hq⟩ := Option.map_eq_some_iff.mp hq
  cases hq
  have hclone : (w.places ++ [i])[w.places.length]? = some i := List.getElem?_concat_length
  have hold := (Moves.clone (List.mem_of_getElem? hi)).place hi
  exact (place_after hqs hclone).trans (place_after hqs hold).symm

/-- **A store reached by any sequence of requests is lawful.** -/
theorem lawful_of_after {qs : List Request} (hqs : start.after qs = some w) : w.Lawful := by
  -- All laws are about a sound state, and requests lead to no other.
  have hw : w.Sound := sound_start.after hqs
  constructor
  case chain =>
    intro h i hi
    obtain ⟨l, hl⟩ := hw.exists_chain hi
    refine ⟨l, hl, fun y => ⟨?_, hl.resolve_eq hw.ordered y⟩⟩
    rw [get?_of_place hi]
    exact hl.get?_eq hw.ordered y
  case get_answer =>
    intro h i hi y
    simp only [step, hi, Option.map_some, get?_of_place hi]
  case define_answer =>
    intro h i hi x v
    simp only [step, hi, Option.map_some, change_define]
    split
    · exact ⟨_, rfl⟩
    · exact ⟨_, rfl⟩
  case assign_answer =>
    intro h i hi x v
    rw [hw.isNone_get? hi]
    simp only [step, hi, Option.map_some, change_assign]
    rcases w.store.resolve i x with _ | home
    · exact ⟨_, rfl⟩
    · exact ⟨_, rfl⟩
  case failed =>
    intro q e w' hq h y
    rw [eq_of_failed hq]
  case defined => exact fun hi hq _ _ _ hj hl y => hw.defined hi hq hj hl y
  case assigned => exact fun hi hq _ _ hj y => hw.assigned hi hq hj y
  case cloned => exact fun hq _ _ hqs y => get?_eq_of_places_eq (places_of_clone hq hqs) y

/-- A name is shadowed in an inner scope, and then assigned through a clone of the inner handle. -/
theorem lawful_after_shadowing :
    ∃ w, start.after [.new, .define 0 "x" (.integer 1), .enclosed 0, .clone 1,
        .define 1 "x" (.integer 2), .define 2 "x" .null, .assign 2 "x" (.integer 3)] = some w ∧
      w.Lawful ∧ w.get? 0 "x" = some (.integer 1) ∧ w.get? 1 "x" = some (.integer 3) := by
  have hw : start.after [.new, .define 0 "x" (.integer 1), .enclosed 0, .clone 1,
      .define 1 "x" (.integer 2), .define 2 "x" .null, .assign 2 "x" (.integer 3)] =
      some ⟨⟨#[⟨none, [("x", .integer 1)]⟩, ⟨some 0, [("x", .integer 3)]⟩], 0⟩, [0, 1, 1]⟩ := by
    rfl
  exact ⟨_, hw, lawful_of_after hw, rfl, rfl⟩

end Handles

end Scriptlet
