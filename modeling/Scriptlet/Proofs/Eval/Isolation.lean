import Scriptlet.Proofs.Eval.Frame
import Scriptlet.Proofs.Eval.Renamed
import Scriptlet.Proofs.Eval.Depth

/-!
# Proofs/Eval/Isolation — scopes that share nothing do not notice each other

Let two scopes reach no scope in common, and let programs be evaluated in the two of them by turns.
Each of the two then sees what it would see if the programs of the other one had not been there: its
programs give the values that they would give, and its bindings are those that it would have, up to
the places and identities that the other one has taken up (`evaluation_within_reach`).

The two runs by themselves are kept beside the common one.  A program that is evaluated in its part
of the common store, and in its own store, leaves the other part alone, so the two parts stay apart.
-/

namespace Scriptlet

/-- What belongs to one scope. -/
def inScope {α : Type} (scope : ScopeId) (jobs : List (ScopeId × α)) : List (ScopeId × α) :=
  jobs.filter (·.1 == scope)

section

variable {α : Type} {i j : ScopeId} {x : α} {jobs : List (ScopeId × α)}

/-! Taking out the jobs of one scope keeps them in their order. -/

@[simp] theorem inScope_cons_self : inScope i ((i, x) :: jobs) = (i, x) :: inScope i jobs :=
  List.filter_cons_of_pos (beq_self_eq_true i)

theorem inScope_cons_of_ne (h : j ≠ i) : inScope i ((j, x) :: jobs) = inScope i jobs :=
  List.filter_cons_of_neg (by simpa using h)

end

/-- The store `s` has two parts that share no scope; the one is as `u`, the other as `t`. -/
structure Parted (q r : Renaming) (s u t : Store) : Prop where
  first : s.Matches q u
  second : s.Matches r t
  apart : ∀ i j k, q.scope i j → ¬ r.scope i k

namespace Parted

variable {q r : Renaming} {s u t : Store} {a b : ScopeId}

theorem symm (h : Parted q r s u t) : Parted r q s t u :=
  ⟨h.second, h.first, fun i j k hr hq => h.apart i k j hq hr⟩

/-- Two scopes that reach none in common have parts of their own. -/
theorem of_disjoint (hs : s.Sound) (ha : a < s.nextScope) (hb : b < s.nextScope)
    (hdisjoint : ∀ k, s.Reaches a k → ¬ s.Reaches b k) :
    Parted (.unchanged (s.Reaches a) s.nextId) (.unchanged (s.Reaches b) s.nextId) s s s :=
  ⟨hs.matches_self (s.closed_reaches a) fun _ => hs.lt_of_reaches ha,
    hs.matches_self (s.closed_reaches b) fun _ => hs.lt_of_reaches hb,
    fun i _ _ hia hib => hdisjoint i hia.2 hib.2⟩

/-- No scope is in reach of both parts. -/
theorem disjoint (h : Parted q r s u t) {a' b' : ScopeId} (ha : q.scope a a') (hb : r.scope b b')
    (k : ScopeId) (hk : s.Reaches a k) : ¬ s.Reaches b k := by
  intro hk'
  obtain ⟨i, hi⟩ := h.first.closed.of_reaches ⟨a', ha⟩ hk
  obtain ⟨j, hj⟩ := h.second.closed.of_reaches ⟨b', hb⟩ hk'
  exact h.apart k i j hi hj

/-! A program in the first part is evaluated on the common store and on the store of that part
alone, which match.  What it adds to the common store stands for what it adds to the other one, and
is in the first part; what was in the second part is out of its reach, so it is as it was. -/

/-- **One turn**: a program in the first part does to it what it does to a store that is like it,
and does nothing to the second part. -/
theorem turn (h : Parted q r s u t) {i j : ScopeId} (hij : q.scope i j) (limits : Limits) (n : Nat)
    (p : Program) :
    Program.eval limits n i p ⟨s, 0⟩ = none ∧ Program.eval limits n j p ⟨u, 0⟩ = none ∨
      ∃ q' v v' s' u', Program.eval limits n i p ⟨s, 0⟩ = some (v, ⟨s', 0⟩) ∧
        Program.eval limits n j p ⟨u, 0⟩ = some (v', ⟨u', 0⟩) ∧ q ≤ q' ∧ v.Alike q' v' ∧
        Parted q' r s' u' t := by
  rcases Program.eval_renamed limits n p h.first hij 0 with
    hnone | ⟨q', v, v', s', u', hs, hu, hle, hv, hmatch, hsince⟩
  · exact .inl hnone
  · refine .inr ⟨q', v, v', s', u', hs, hu, hle, hv, hmatch, ?_, fun k l l' hq' hr => ?_⟩
    · exact h.second.congr hmatch.left (fun k l hkl => hsince.kept k (h.second.lt_nextScope hkl).1
        fun l' hl' => h.apart k l' l hl' hkl) hsince.nextId
    · exact h.apart k l l' (hsince.old k l hq' (h.second.lt_nextScope hr).1) hr

end Parted

/-- The jobs of two scopes, by turns on `s`, **beside** the jobs of each of them alone, on `u` and
on `t`: they end together, with the same values, up to renaming, and in stores that correspond. -/
inductive Beside (limits : Limits) (n : Nat) (a b : ScopeId) (jobs : List (ScopeId × Program))
    (q r : Renaming) (s u t : Store) : Prop
  | endless : evalEach limits n jobs s = none →
    evalEach limits n (inScope a jobs) u = none ∨ evalEach limits n (inScope b jobs) t = none →
    Beside limits n a b jobs q r s u t
  | ends {q' r' : Renaming} {vs us ts : List (ScopeId × Value)} {s' u' t' : Store} :
    evalEach limits n jobs s = some (vs, s') →
    evalEach limits n (inScope a jobs) u = some (us, u') →
    evalEach limits n (inScope b jobs) t = some (ts, t') →
    q ≤ q' → r ≤ r' →
    List.Forall₂ (EntryRel (Value.Alike q')) (inScope a vs) us →
    List.Forall₂ (EntryRel (Value.Alike r')) (inScope b vs) ts →
    Parted q' r' s' u' t' →
    Beside limits n a b jobs q r s u t

namespace Beside

variable {limits : Limits} {n : Nat} {a b : ScopeId} {jobs : List (ScopeId × Program)}
  {q r : Renaming} {s u t : Store}

/-- The two scopes may change places. -/
theorem symm (h : Beside limits n a b jobs q r s u t) : Beside limits n b a jobs r q s t u := by
  cases h with
  | endless h hor => exact .endless h hor.symm
  | ends h hu ht hq hr hus hts hparted => exact .ends h ht hu hr hq hts hus hparted.symm

/-- A job of the first scope, and then the others. -/
theorem cons (hab : a ≠ b) (h : Parted q r s u t) (ha : q.scope a a) {p : Program}
    (hjobs : ∀ q' s' u', q ≤ q' → Parted q' r s' u' t → Beside limits n a b jobs q' r s' u' t) :
    Beside limits n a b ((a, p) :: jobs) q r s u t := by
  rcases h.turn ha limits n p with ⟨hs, hu⟩ | ⟨q', v, v', s', u', hs, hu, hle, hv, hparted⟩
  · refine .endless (evalEach_none hs) (.inl ?_)
    rw [inScope_cons_self, evalEach_none hu]
  · cases hjobs q' s' u' hle hparted with
    | endless hnone hor =>
      refine .endless (by rw [evalEach_some hs, hnone]; rfl) ?_
      rw [inScope_cons_self, inScope_cons_of_ne hab, evalEach_some hu]
      exact hor.imp_left fun hnone => by rw [hnone]; rfl
    | @ends q'' r'' vs us ts s'' u'' t'' hs' hu' ht' hq' hr' hus hts hparted' =>
      have hall : evalEach limits n ((a, p) :: jobs) s = some ((a, v) :: vs, s'') := by
        rw [evalEach_some hs, hs']
        rfl
      have hfirst :
          evalEach limits n (inScope a ((a, p) :: jobs)) u = some ((a, v') :: us, u'') := by
        rw [inScope_cons_self, evalEach_some hu, hu']
        rfl
      have hsecond : evalEach limits n (inScope b ((a, p) :: jobs)) t = some (ts, t'') := by
        rw [inScope_cons_of_ne hab, ht']
      refine .ends hall hfirst hsecond (Renaming.le_trans hle hq') hr' ?_ ?_ hparted'
      · rw [inScope_cons_self]
        exact .cons ⟨rfl, hv.mono hq'⟩ hus
      · rw [inScope_cons_of_ne hab]
        exact hts

/-- **By turns is as good as alone.** -/
theorem of_parted (hab : a ≠ b) (h : Parted q r s u t) (ha : q.scope a a) (hb : r.scope b b)
    (hjobs : ∀ job ∈ jobs, job.1 = a ∨ job.1 = b) : Beside limits n a b jobs q r s u t := by
  -- Along the jobs: each is of the one scope or of the other, and in both cases its turn keeps the
  -- parts apart.
  induction jobs generalizing q r s u t with
  | nil => exact .ends rfl rfl rfl (Renaming.le_refl q) (Renaming.le_refl r) .nil .nil h
  | cons job jobs ih =>
    obtain ⟨i, p⟩ := job
    obtain ⟨hi, hjobs⟩ := List.forall_mem_cons.mp hjobs
    rcases hi with rfl | rfl
    · exact .cons hab h ha fun q' s' u' hle h' => ih h' (hle.1 _ _ ha) hb hjobs
    · exact (Beside.cons hab.symm h.symm hb fun r' s' t' hle h' =>
        (ih h'.symm ha (hle.1 _ _ hb) hjobs).symm).symm

end Beside

/-- To the scope `c`, a run of all jobs from the store `s`, with the values `vs` and the store `s'`
at its end, is **as if its own jobs had run alone**: they give the same values, and what it reached
at the start is bound to the same, up to renaming. -/
def AsAlone (limits : Limits) (n : Nat) (jobs : List (ScopeId × Program)) (s : Store)
    (vs : List (ScopeId × Value)) (s' : Store) (c : ScopeId) : Prop :=
  ∃ alone t r, evalEach limits n (inScope c jobs) s = some (alone, t) ∧
    List.Forall₂ (EntryRel (Value.Alike r)) (inScope c vs) alone ∧ s'.Matches r t ∧
    (∀ k, s.Reaches c k → r.scope k k) ∧ ∀ i, i < s.nextId → r.identity i i

/-- **Evaluation touches only what its scope can reach.**  A scope that is out of reach stays as it
is, and out of reach.  So when two scopes reach none in common, and programs are evaluated in the
two of them, in any order, then for each of the two it is as if its own programs had run alone, and
the two still reach no scope in common. -/
theorem evaluation_within_reach (limits : Limits) (fuel : Nat) :
    (∀ (scope : ScopeId) (p : Program) (m m' : Machine),
      (Program.run limits fuel scope p m).machine? = some m' →
        ∀ i, i < m.store.nextScope → ¬ m.store.Reaches scope i →
          m'.store.scopes[i]? = m.store.scopes[i]? ∧ ¬ m'.store.Reaches scope i) ∧
    ∀ (s : Store) (a b : ScopeId), s.Sound → a < s.nextScope → b < s.nextScope →
      (∀ k, s.Reaches a k → ¬ s.Reaches b k) →
        ∀ jobs : List (ScopeId × Program), (∀ job ∈ jobs, job.1 = a ∨ job.1 = b) →
          ((evalEach limits fuel jobs s).isSome ↔
            (evalEach limits fuel (inScope a jobs) s).isSome ∧
              (evalEach limits fuel (inScope b jobs) s).isSome) ∧
          ∀ vs s', evalEach limits fuel jobs s = some (vs, s') →
            AsAlone limits fuel jobs s vs s' a ∧ AsAlone limits fuel jobs s vs s' b ∧
              ∀ k, s'.Reaches a k → ¬ s'.Reaches b k := by
  refine ⟨fun scope p m m' hend i hi hout => Program.unreached_kept hend hi hout, ?_⟩
  intro s a b hs ha hb hdisjoint jobs hjobs
  have hab : a ≠ b := fun h => hdisjoint a .self (h ▸ .self)
  have hparted := Parted.of_disjoint hs ha hb hdisjoint
  -- Each of the two is its own run beside the common one, so both are kept beside it together.
  have hbeside : Beside limits fuel a b jobs _ _ s s s :=
    .of_parted hab hparted ⟨rfl, .self⟩ ⟨rfl, .self⟩ hjobs
  cases hbeside with
  | endless hnone hor =>
    refine ⟨?_, fun vs s' h => absurd (hnone.symm.trans h) nofun⟩
    rcases hor with h | h <;> simp [hnone, h]
  | @ends q r vs us ts s' u t hs' hu ht hq hr hus hts hparted' =>
    refine ⟨by simp [hs', hu, ht], fun vs' s'' h => ?_⟩
    obtain ⟨rfl, rfl⟩ := Prod.mk.inj (Option.some.inj (hs'.symm.trans h))
    exact ⟨⟨us, u, q, hu, hus, hparted'.first, fun k hk => hq.1 k k ⟨rfl, hk⟩,
        fun i hi => hq.2 i i ⟨rfl, hi⟩⟩,
      ⟨ts, t, r, ht, hts, hparted'.second, fun k hk => hr.1 k k ⟨rfl, hk⟩,
        fun i hi => hr.2 i i ⟨rfl, hi⟩⟩,
      hparted'.disjoint (hq.1 a a ⟨rfl, .self⟩) (hr.1 b b ⟨rfl, .self⟩)⟩

/-- Two roots by turns: each binds a function under the same name, and then uses its own one. -/
def turns : List (ScopeId × Program) :=
  [(0, [.bind "f" (.function [] [.expr (.array [])])]), (1, [.bind "f" (.function [] [])]),
    (0, [.expr (.call (.ident "f") [])]), (1, [.expr (.ident "f")])]

/-- Both find their own function, and the binding of the one leaves the scope of the other as it
was. -/
theorem turns_within_reach :
    let s := (Store.empty.addScope none).addScope none
    (∃ m', (Program.run {} 9 0 [.bind "x" (.integer 1)] ⟨s, 0⟩).machine? = some m' ∧
      m'.store.scopes[1]? = s.scopes[1]?) ∧
    ∃ vs s', evalEach {} 9 turns s = some (vs, s') ∧ AsAlone {} 9 turns s vs s' 0 ∧
      AsAlone {} 9 turns s vs s' 1 := by
  intro s
  have hroot := Store.Sound.empty.addRoot
  have hapart := hroot.root_apart (i := 0) Nat.zero_lt_one
  obtain ⟨m', hm'⟩ :
      ∃ m', (Program.run {} 9 0 [.bind "x" (.integer 1)] ⟨s, 0⟩).machine? = some m' :=
    Option.isSome_iff_exists.mp (by decide +kernel)
  obtain ⟨⟨vs, s'⟩, hvs⟩ : ∃ result, evalEach {} 9 turns s = some result :=
    Option.isSome_iff_exists.mp (by decide +kernel)
  have hturns := ((evaluation_within_reach {} 9).2 s 0 1 hroot.addRoot Nat.zero_lt_two
    Nat.one_lt_two hapart turns (by decide +kernel)).2 vs s' hvs
  exact ⟨⟨m', hm', ((evaluation_within_reach {} 9).1 0 _ ⟨s, 0⟩ m' hm' 1 Nat.one_lt_two
    fun h => hapart 1 h .self).1⟩, vs, s', hvs, hturns.1, hturns.2.1⟩

end Scriptlet
