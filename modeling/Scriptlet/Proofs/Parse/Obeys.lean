import Scriptlet.Proofs.Parse.Reading

/-!
# Proofs/Parse/Obeys — what a parser does when no error comes up

`Obeys` says of a parser that it moves forward, that it fails only with an error, and that without
an error it relates the words before it, its result and the words after it.  This is closed under
sequence, so what a rule does can be read off its steps.
-/

namespace Scriptlet

namespace Parse

variable {α β : Type} {k k' : Nat}

/-- What a parse was like: it left the end of the stream in place, went forward, and added to the
errors; without an error it has a result, and `R` relates it to the words before and after. -/
def Step (R : List Word → α → List Word → Prop) (s : ParseState) (r : Option α) (s' : ParseState) :
    Prop :=
  s'.stream.stop = s.stream.stop ∧ s'.words.length ≤ s.words.length ∧
    ∃ faults, s'.errors = s.errors ++ faults ∧
      (faults = [] → ∃ a, r = some a ∧ R s.words a s'.words)

/-- On streams of at most `k` words, the parser does what `R` says. -/
def Obeys (k : Nat) (p : Parse α) (R : List Word → α → List Word → Prop) : Prop :=
  ∀ s : ParseState, s.Ended → s.words.length ≤ k → Step R s (p s).1 (p s).2

namespace Obeys

variable {p : Parse α} {f : α → Parse β} {R : List Word → α → List Word → Prop}
  {T : α → List Word → β → List Word → Prop}

/-- What is obeyed on long streams is obeyed on short ones. -/
theorem mono (h : p.Obeys k R) (hk : k' ≤ k) : p.Obeys k' R :=
  fun s hs hlen => h s hs (Nat.le_trans hlen hk)

/-- What a rule does is read off its steps as a big conjunction; this is where it is put in the
words of `Reads`. -/
theorem weaken {R' : List Word → α → List Word → Prop} (h : p.Obeys k R)
    (hR : ∀ ws a ws', R ws a ws' → R' ws a ws') : p.Obeys k R' := by
  intro s hs hlen
  obtain ⟨hstop, hle, faults, herr, hok⟩ := h s hs hlen
  refine ⟨hstop, hle, faults, herr, fun hf => ?_⟩
  obtain ⟨a, ha, haR⟩ := hok hf
  exact ⟨a, ha, hR _ _ _ haR⟩

/-- **One parser after another.** -/
theorem bind (hp : p.Obeys k R) (hf : ∀ a, (f a).Obeys k (T a)) :
    (p >>= f).Obeys k fun ws b ws' => ∃ a w, R ws a w ∧ T a w b ws' := by
  intro s hs hlen
  rw [bind_apply]
  obtain ⟨hstop, hle, faults, herr, hok⟩ := hp s hs hlen
  rcases hps : p s with ⟨_ | a, s₁⟩
  all_goals rw [hps] at hstop hle herr hok
  · refine ⟨hstop, hle, faults, herr, fun hf => ?_⟩
    obtain ⟨a, ha, -⟩ := hok hf
    cases ha
  · have hs₁ : s₁.Ended := (congrArg Token.kind hstop).trans hs
    obtain ⟨hstop', hle', faults', herr', hok'⟩ := hf a s₁ hs₁ (Nat.le_trans hle hlen)
    refine ⟨hstop'.trans hstop, Nat.le_trans hle' hle, faults ++ faults', ?_, fun hnone => ?_⟩
    · rw [herr', herr, List.append_assoc]
    · obtain ⟨rfl, rfl⟩ := List.append_eq_nil_iff.mp hnone
      obtain ⟨a', ha, haR⟩ := hok rfl
      obtain rfl := Option.some.inj ha
      obtain ⟨b, hb, hbT⟩ := hok' rfl
      exact ⟨b, hb, _, _, haR, hbT⟩

theorem pure (a : α) : (pure a : Parse α).Obeys k fun ws b ws' => b = a ∧ ws' = ws :=
  fun _ _ _ => ⟨rfl, Nat.le_refl _, [], (List.append_nil _).symm, fun _ => ⟨a, rfl, rfl, rfl⟩⟩

theorem report (fault : ParseFault) (span : Span) :
    (report fault span).Obeys k fun _ _ _ => False :=
  fun _ _ _ => ⟨rfl, Nat.le_refl _, [⟨fault, span⟩], rfl, fun h => by cases h⟩

/-- Nor is there for a parser that gives up, whatever the relation. -/
theorem reject (fault : ParseFault) (span : Span) {R : List Word → α → List Word → Prop} :
    (reject fault span : Parse α).Obeys k R :=
  fun _ _ _ => ⟨rfl, Nat.le_refl _, [⟨fault, span⟩], rfl, fun h => by cases h⟩

theorem reject_bind (fault : ParseFault) (span : Span) {f : α → Parse β}
    {R : List Word → β → List Word → Prop} : (Parse.reject fault span >>= f).Obeys k R :=
  fun _ _ _ => ⟨rfl, Nat.le_refl _, [⟨fault, span⟩], rfl, fun h => by cases h⟩

/-- Without an error an attempt has a result, and it is that of the parser. -/
theorem attempt (h : p.Obeys k R) :
    (attempt p).Obeys k fun ws o ws' => ∃ a, o = some a ∧ R ws a ws' := by
  intro s hs hlen
  obtain ⟨hstop, hle, faults, herr, hok⟩ := h s hs hlen
  refine ⟨hstop, hle, faults, herr, fun hf => ?_⟩
  obtain ⟨a, ha, haR⟩ := hok hf
  exact ⟨_, rfl, a, ha, haR⟩

/-! ### Looking at the stream -/

/-- What a parser does that looks at the current token, whose word comes first. -/
theorem current {f : Token → Parse β} {T : List Word → β → List Word → Prop}
    (hf : ∀ t, (f t).Obeys k fun ws b ws' =>
      t.kind = firstKind ws → (t.kind ≠ .endOfInput → ws = t.word :: ws.tail) → T ws b ws') :
    (Parse.current >>= f).Obeys k T := by
  intro s hs hlen
  rw [bind_apply]
  obtain ⟨hstop, hle, faults, herr, hok⟩ := hf s.stream.current s hs hlen
  refine ⟨hstop, hle, faults, herr, fun h => ?_⟩
  obtain ⟨b, hb, hbT⟩ := hok h
  exact ⟨b, hb, hbT (s.kind_current hs) (s.words_eq_cons hs)⟩

/-- The same, for a token that is looked at on the way. -/
theorem seeing {f : Token → Parse β} {T : Token → List Word → β → List Word → Prop}
    (hf : ∀ t, (f t).Obeys k (T t)) :
    (Parse.current >>= f).Obeys k fun ws b ws' => ∃ t, t.kind = firstKind ws ∧
      (t.kind ≠ .endOfInput → ws = t.word :: ws.tail) ∧ T t ws b ws' :=
  current fun t => (hf t).weaken fun _ _ _ hT hk hw => ⟨t, hk, hw, hT⟩

/-- The kind of the token that is looked ahead at is that of the second word. -/
theorem upcoming {f : Token → Parse β} {T : List Word → β → List Word → Prop}
    (hf : ∀ t, (f t).Obeys k fun ws b ws' => t.kind = firstKind ws.tail → T ws b ws') :
    (Parse.upcoming >>= f).Obeys k T := by
  intro s hs hlen
  rw [bind_apply]
  obtain ⟨hstop, hle, faults, herr, hok⟩ := hf s.stream.upcoming s hs hlen
  refine ⟨hstop, hle, faults, herr, fun h => ?_⟩
  obtain ⟨b, hb, hbT⟩ := hok h
  exact ⟨b, hb, hbT (s.kind_upcoming hs)⟩

/-- Turns and levels are given as the number of words. -/
theorem remaining {f : Nat → Parse β} {T : Nat → List Word → β → List Word → Prop}
    (hf : ∀ n, (f n).Obeys k (T n)) :
    (Parse.remaining >>= f).Obeys k fun ws b ws' => T ws.length ws b ws' := by
  intro s hs hlen
  rw [bind_apply]
  obtain ⟨hstop, hle, faults, herr, hok⟩ := hf s.stream.remaining s hs hlen
  refine ⟨hstop, hle, faults, herr, fun h => ?_⟩
  obtain ⟨b, hb, hbT⟩ := hok h
  have hlength : T s.words.length s.words b (f s.stream.remaining s).2.words := by
    rwa [s.length_words]
  exact ⟨b, hb, hlength⟩

/-! ### Moving -/

/-- **Past a word there is one word less.** -/
theorem advance {f : Unit → Parse β} {T : List Word → β → List Word → Prop}
    (hf : (f ()).Obeys k T) :
    (Parse.advance >>= f).Obeys (k + 1) fun ws b ws' => T ws.tail b ws' := by
  intro s hs hlen
  rw [bind_apply]
  have hwords : ({ s with stream := s.stream.advance } : ParseState).words = s.words.tail :=
    List.map_tail
  obtain ⟨hstop, hle, faults, herr, hok⟩ := hf { s with stream := s.stream.advance } hs
    (by rw [hwords, List.length_tail]; omega)
  rw [hwords] at hle hok
  exact ⟨hstop, Nat.le_trans hle (by simp), faults, herr, hok⟩

/-- Where the bound is not to go down, a word may be passed for nothing. -/
theorem pass {f : Unit → Parse β} {T : List Word → β → List Word → Prop}
    (hf : (f ()).Obeys k T) :
    (Parse.advance >>= f).Obeys k fun ws b ws' => T ws.tail b ws' :=
  (advance hf).mono (Nat.le_succ k)

/-- Without an error, what was required stood there. -/
theorem expect {f : Unit → Parse β} {kind : TokenKind} {T : List Word → β → List Word → Prop}
    (hf : (f ()).Obeys k T) :
    (Parse.expect kind >>= f).Obeys k fun ws b ws' =>
      firstKind ws.tail = kind ∧ T ws.tail b ws' := by
  unfold Parse.expect
  rw [bind_assoc]
  refine upcoming fun t => ?_
  split
  · next h =>
    exact (pass hf).weaken fun ws b ws' hT ht => ⟨ht.symm.trans h, hT⟩
  · exact reject_bind _ _

/-- The word tells which of the two continuations is taken. -/
theorem skip {f : Bool → Parse β} {kind : TokenKind} {T T' : List Word → β → List Word → Prop}
    (ht : (f true).Obeys k T) (hf : (f false).Obeys k T') :
    (Parse.skip kind >>= f).Obeys k fun ws b ws' =>
      (firstKind ws.tail = kind ∧ T ws.tail b ws') ∨ (firstKind ws.tail ≠ kind ∧ T' ws b ws') := by
  unfold Parse.skip
  rw [bind_assoc]
  refine upcoming fun t => ?_
  split
  · next h =>
    rw [bind_assoc]
    exact (pass ht).weaken fun ws b ws' hT ht => .inl ⟨ht.symm.trans h, hT⟩
  · next h =>
    exact hf.weaken fun ws b ws' hT ht => .inr ⟨ht ▸ h, hT⟩

end Obeys

end Parse

end Scriptlet
