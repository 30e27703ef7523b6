import Scriptlet.Proofs.Lex.Pieces
import Scriptlet.Proofs.Lex.Tiling

/-!
# Proofs/Lex/Layout — blanks between tokens may be other blanks

No token runs on into a blank, so a token text with a blank behind it is read as the same token
wherever it stands.  A text that is written with the token texts of a source and with blanks of its
own has the same tokens at other places, unless the source has an illegal token: these may run on.
-/

namespace Scriptlet

open Text

/-! ## Layouts

A layout is texts of tokens with blanks between them, at least one. -/

/-- The texts one behind the other, with blanks behind each of them, and not without if another text
follows. -/
inductive LaidOut : List (List Char) → List Char → Prop
  | nil : LaidOut [] []
  | cons {text gap rest : List Char} {texts : List (List Char)} :
    (∀ c ∈ gap, isBlank c) → (texts ≠ [] → gap ≠ []) → LaidOut texts rest →
    LaidOut (text :: texts) (text ++ gap ++ rest)

/-- `respaced` consists of blanks and the token texts of `source`, laid out behind them. -/
def Respaces (respaced source : String) : Prop :=
  ∃ gap rest, (∀ c ∈ gap, isBlank c) ∧ respaced.toList = gap ++ rest ∧
    LaidOut ((tokenize source).map fun t => (t.span.textIn source).toList) rest

/-! ## A blank ends a token

Whatever the token, it does not go on behind a blank, except for a string, which has its end in its
own text. -/

/-- If a character comes next, it is a blank. -/
def BlankNext (cs : List Char) : Prop := ∀ c ∈ cs.head?, isBlank c

variable {c : Char} {rest text more body : List Char}

/-- Blanks are behind a text, or another text does not follow. -/
theorem LaidOut.blankNext {gap : List Char} {texts : List (List Char)}
    (hgap : ∀ c ∈ gap, isBlank c) (hnext : texts ≠ [] → gap ≠ []) (h : LaidOut texts rest) :
    BlankNext (gap ++ rest) := by
  intro c hc
  cases gap with
  | nil =>
    cases h with
    | nil => cases hc
    | cons => exact absurd rfl (hnext (List.cons_ne_nil _ _))
  | cons d gap =>
    obtain rfl : d = c := Option.some.inj hc
    exact hgap d List.mem_cons_self

/-- A run of characters that are no blanks ends where it ended, if a blank is next. -/
theorem takeWhile_append_blankNext {p : Char → Bool} (hp : ∀ c, p c → isBlank c = false)
    (hmore : BlankNext more) : (rest.takeWhile p ++ more).takeWhile p = rest.takeWhile p := by
  have hrun : ∀ c ∈ rest.takeWhile p, p c := List.all_eq_true.mp List.all_takeWhile
  refine takeWhile_append_of_head hrun fun c hc => Bool.eq_false_iff.mpr fun hpc => ?_
  exact Bool.eq_false_iff.mp (hp c hpc) (hmore c hc)

theorem eq_of_isBlank (h : isBlank c) : c = ' ' ∨ c = '\t' ∨ c = '\r' ∨ c = '\n' := by
  simpa [isBlank, or_assoc] using h

/-- A symbol that is read from its own text and a blank is the same, since no symbol has a blank in
it. -/
theorem symbol_of_text (hkind : (symbol c rest).kind ≠ .illegal)
    (htext : (symbol c rest).text = c :: text) (hmore : BlankNext more) :
    symbol c (text ++ more) = symbol c rest := by
  revert hkind htext
  unfold symbol
  split <;> intro hkind htext
  all_goals first
    | exact absurd rfl hkind
    | obtain rfl := (List.cons.inj htext).2
  -- a symbol of several characters is there in full
  all_goals try rfl
  -- a symbol of one character is carried on by no blank
  all_goals
    cases more with
    | nil => rfl
    | cons d more =>
      obtain rfl | rfl | rfl | rfl := eq_of_isBlank (hmore d rfl) <;> rfl

/-- **A token text with a blank behind it is the same token again.** -/
theorem lexeme_of_text (hkind : (lexeme c rest).kind ≠ .illegal)
    (htext : (lexeme c rest).text = c :: text) (hmore : BlankNext more) :
    lexeme c (text ++ more) = lexeme c rest := by
  revert hkind htext
  unfold lexeme
  split
  · intro _ htext
    obtain rfl := (List.cons.inj htext).2
    rw [takeWhile_append_blankNext (fun _ => not_blank_of_wordChar) hmore]
  split
  · intro _ htext
    obtain rfl := (List.cons.inj htext).2
    rw [takeWhile_append_blankNext (fun _ => not_blank_of_digit) hmore]
  split
  · split
    · next body hbody =>
      intro _ htext
      obtain rfl : body ++ ['"'] = text := (List.cons.inj htext).2
      rw [List.append_assoc, List.singleton_append, quotedBody_closed hbody]
    · exact fun hkind _ => absurd rfl hkind
  · exact fun hkind htext => symbol_of_text hkind htext hmore

/-- Blanks in front of a text move its tokens on. -/
theorem tokensFrom_blanks {gap : List Char} (hgap : ∀ c ∈ gap, isBlank c) (start : Nat)
    (cs : List Char) : tokensFrom start (gap ++ cs) = tokensFrom (start + byteLength gap) cs := by
  induction gap generalizing start with
  | nil => rfl
  | cons c gap ih =>
    obtain ⟨hc, hgap⟩ := List.forall_mem_cons.mp hgap
    rw [List.cons_append, tokensFrom, if_pos hc, ih hgap, Nat.add_assoc]
    rfl

/-! ## The tokens of a layout

So each text is lexed on its own, and the tokens differ from those of the source in their places
only. -/

/-- The same token, wherever it stands. -/
structure Token.SameWord (t u : Token) : Prop where
  kind : u.kind = t.kind
  literal : u.literal = t.literal

/-- The text of a lexeme, with a blank or nothing behind it, begins with that lexeme. -/
theorem tokensFrom_text (hc : isBlank c = false) (hkind : (lexeme c rest).kind ≠ .illegal)
    (hmore : BlankNext more) (start : Nat) : tokensFrom start ((lexeme c rest).text ++ more) =
      (lexeme c rest).token start ::
        tokensFrom (start + byteLength (lexeme c rest).text) more := by
  obtain ⟨text, htext⟩ : ∃ text, (lexeme c rest).text = c :: text := by
    obtain ⟨d, text, htext⟩ := List.exists_cons_of_ne_nil (lexeme_text_ne_nil c rest)
    obtain ⟨rfl, -⟩ := List.cons_prefix_cons.mp (htext ▸ lexeme_text_prefix c rest)
    exact ⟨text, htext⟩
  have hagain := lexeme_of_text hkind htext hmore
  have hdrop : (c :: (text ++ more)).drop (lexeme c rest).text.length = more := by
    rw [← List.cons_append, ← htext, List.drop_left]
  rw [congrArg (· ++ more) htext, List.cons_append, tokensFrom_cons hc, hagain, hdrop]

/-- **A layout has the tokens of the source whose token texts it consists of.** -/
theorem Cut.sameWords {source : String} {before cs cs' : List Char} {ts : List Token}
    (h : Cut (byteLength before) cs ts) (hsource : source.toList = before ++ cs)
    (hlegal : ∀ t ∈ ts, t.kind ≠ .illegal)
    (hlaid : LaidOut (ts.map fun t => (t.span.textIn source).toList) cs') (start : Nat) :
    List.Forall₂ Token.SameWord ts (tokensFrom start cs') := by
  -- on the cut of the source: each lexeme is taken off the front of the layout with its blanks
  generalize hplace : byteLength before = place at h
  induction h generalizing before cs' start with
  | nil =>
    cases hlaid
    rw [tokensFrom]
    exact .nil
  | @cons _ gap c rest ts hgap hc hrest ih =>
    subst hplace
    obtain ⟨hfirst, hlegal⟩ := List.forall_mem_cons.mp hlegal
    have hsplit := split_source hsource
    rw [List.map_cons, ← byteLength_append, textIn_token hsplit, String.toList_ofList] at hlaid
    cases hlaid with
    | @cons _ gap' rest' _ hgap' hnext hlaid =>
      rw [List.append_assoc,
        tokensFrom_text hc hfirst (hlaid.blankNext hgap' hnext), tokensFrom_blanks hgap']
      refine .cons ⟨rfl, rfl⟩ (ih hsplit hlegal hlaid _ ?_)
      rw [byteLength_append, byteLength_append]

/-- **A source that is spaced out anew has the same tokens**, unless it has an illegal one. -/
theorem Respaces.sameWords {source respaced : String} (h : Respaces respaced source)
    (hlegal : ∀ t ∈ tokenize source, t.kind ≠ .illegal) :
    List.Forall₂ Token.SameWord (tokenize source) (tokenize respaced) := by
  obtain ⟨gap, rest, hgap, hrespaced, hlaid⟩ := h
  have hcut : Cut (byteLength []) source.toList (tokenize source) := .of_tokensFrom 0 source.toList
  have hskip : tokenize respaced = tokensFrom (0 + byteLength gap) rest := by
    rw [tokenize, hrespaced, tokensFrom_blanks hgap]
  exact hskip ▸ hcut.sameWords rfl hlegal hlaid _

end Scriptlet
