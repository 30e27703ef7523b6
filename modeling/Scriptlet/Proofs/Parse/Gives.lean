import Scriptlet.Proofs.Parse.Word

/-!
# Proofs/Parse/Gives — what a parser does with the right words before it

`Gives` says of a parser that, from certain words on, it ends with a certain result at certain words
and without an error.  A rule gives what its steps give one after another, so what is proved of the
phrases inside a rule is carried over to the rule by the lemmas here.
-/

namespace Scriptlet

/-- The words are those of some tokens. -/
def OfTokens (ws : List Word) : Prop := ∃ ts : List Token, ts.map Token.word = ws

/-- Words that are left over belong to the tokens that are left over. -/
theorem OfTokens.suffix {ws ws' : List Word} (h : OfTokens ws) (hws : ws' <:+ ws) :
    OfTokens ws' := by
  obtain ⟨ts, rfl⟩ := h
  obtain ⟨before, hbefore⟩ := hws
  obtain ⟨-, ts', -, -, rfl⟩ := List.append_eq_map_iff.mp hbefore
  exact ⟨ts', rfl⟩

namespace Parse

variable {α β : Type}

/-- From the words `ws` on, the parser has the result `a`, stands at `ws'` and notes no error. -/
def Gives (p : Parse α) (ws : List Word) (a : α) (ws' : List Word) : Prop :=
  ∀ s : ParseState, s.Ended → s.words = ws →
    ∃ s' : ParseState, p s = (some a, s') ∧ s'.Ended ∧ s'.words = ws' ∧ s'.errors = s.errors

namespace Gives

variable {p : Parse α} {f : α → Parse β} {a : α} {b : β} {ws w ws' : List Word}

theorem pure (a : α) (ws : List Word) : (pure a : Parse α).Gives ws a ws :=
  fun s hs hws => ⟨s, rfl, hs, hws, rfl⟩

/-- **One parser after another**: the second reads on where the first ended. -/
theorem bind (hp : p.Gives ws a w) (hf : (f a).Gives w b ws') : (p >>= f).Gives ws b ws' := by
  intro s hs hws
  obtain ⟨s₁, hps, hs₁, hw, herr⟩ := hp s hs hws
  obtain ⟨s₂, hfs, hs₂, hws', herr'⟩ := hf s₁ hs₁ hw
  refine ⟨s₂, ?_, hs₂, hws', herr'.trans herr⟩
  rw [bind_apply, hps]
  exact hfs

/-- **A parser gives one result**, from words that tokens have. -/
theorem unique {a' : α} {w' : List Word} (h : p.Gives ws a w) (h' : p.Gives ws a' w')
    (hws : OfTokens ws) : a = a' ∧ w = w' := by
  obtain ⟨ts, rfl⟩ := hws
  obtain ⟨s, hs, -, rfl, -⟩ := h (.start ⟨ts, .endAt 0⟩) rfl rfl
  obtain ⟨s', hs', -, rfl, -⟩ := h' (.start ⟨ts, .endAt 0⟩) rfl rfl
  obtain ⟨ha, rfl⟩ := Prod.mk.inj (hs.symm.trans hs')
  exact ⟨Option.some.inj ha, rfl⟩

/-- A parser that has a result has it when attempted. -/
theorem attempt (hp : p.Gives ws a ws') : (attempt p).Gives ws (some a) ws' := by
  intro s hs hws
  obtain ⟨s₁, hps, hs₁, hw, herr⟩ := hp s hs hws
  refine ⟨s₁, ?_, hs₁, hw, herr⟩
  rw [Parse.attempt, hps]

/-! ### Looking at the stream -/

section Look

variable {f : Token → Parse β}

/-- What is done at the current token is given for every token of its kind; the place of the token
does not show in words. -/
theorem current (hf : ∀ t, t.kind = firstKind ws → (f t).Gives ws b ws') :
    (Parse.current >>= f).Gives ws b ws' := by
  intro s hs hws
  have hk : s.stream.current.kind = firstKind ws := (s.kind_current hs).trans (by rw [hws])
  exact hf _ hk s hs hws

/-- A word that is there is that of the current token, so its text is known too. -/
theorem current_cons {x : Word} (hx : x.kind ≠ .endOfInput)
    (hf : ∀ t, t.word = x → (f t).Gives (x :: ws) b ws') :
    (Parse.current >>= f).Gives (x :: ws) b ws' := by
  intro s hs hws
  have hk : s.stream.current.kind = x.kind := (s.kind_current hs).trans (by rw [hws]; rfl)
  have hcons := s.words_eq_cons hs (hk ▸ hx)
  rw [hws] at hcons
  exact hf _ (List.cons.inj hcons).1.symm s hs hws

/-- The token that is looked ahead at has the kind of the second word. -/
theorem upcoming (hf : ∀ t, t.kind = firstKind ws.tail → (f t).Gives ws b ws') :
    (Parse.upcoming >>= f).Gives ws b ws' := by
  intro s hs hws
  have hk : s.stream.upcoming.kind = firstKind ws.tail := (s.kind_upcoming hs).trans (by rw [hws])
  exact hf _ hk s hs hws

end Look

/-- The number of tokens is that of words. -/
theorem remaining {f : Nat → Parse β} (hf : (f ws.length).Gives ws b ws') :
    (Parse.remaining >>= f).Gives ws b ws' := by
  intro s hs hws
  have hlen : s.stream.remaining = ws.length := by rw [← s.length_words, hws]
  rw [bind_apply, Parse.remaining]
  dsimp only
  rw [hlen]
  exact hf s hs hws

/-! ### Moving -/

/-- The first word is passed. -/
theorem advance {f : Unit → Parse β} (hf : (f ()).Gives ws.tail b ws') :
    (Parse.advance >>= f).Gives ws b ws' := by
  intro s hs hws
  have hwords : ({ s with stream := s.stream.advance } : ParseState).words = ws.tail := by
    rw [← hws]
    exact List.map_tail
  exact hf { s with stream := s.stream.advance } hs hwords

/-- What is required and stands there is passed. -/
theorem expect {f : Unit → Parse β} {kind : TokenKind} (h : firstKind ws.tail = kind)
    (hf : (f ()).Gives ws.tail b ws') : (Parse.expect kind >>= f).Gives ws b ws' := by
  unfold Parse.expect
  rw [bind_assoc]
  refine upcoming fun t ht => ?_
  rw [if_pos (ht.trans h)]
  exact advance hf

theorem skip {f : Bool → Parse β} {kind : TokenKind} (h : firstKind ws.tail = kind)
    (hf : (f true).Gives ws.tail b ws') : (Parse.skip kind >>= f).Gives ws b ws' := by
  unfold Parse.skip
  rw [bind_assoc]
  refine upcoming fun t ht => ?_
  rw [if_pos (ht.trans h), bind_assoc]
  exact advance hf

/-- What does not stand there is not passed. -/
theorem skip_not {f : Bool → Parse β} {kind : TokenKind} (h : firstKind ws.tail ≠ kind)
    (hf : (f false).Gives ws b ws') : (Parse.skip kind >>= f).Gives ws b ws' := by
  unfold Parse.skip
  rw [bind_assoc]
  refine upcoming fun t ht => ?_
  rw [if_neg (ht ▸ h)]
  exact hf

end Gives

end Parse

end Scriptlet
