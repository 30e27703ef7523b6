import Scriptlet.Proofs.Lex.Append
import Scriptlet.Token.Stream
import Mathlib.Data.String.Basic

/-!
# Proofs/Lex/Tiling — every character of a source is in a token or is a blank

`Cut` is how a text falls into blanks, a lexeme, blanks, and so on to the end, with the byte at
which each lexeme begins; the tokens of a text are such a cut of it.  Read as spans of a whole
source, a cut is a tiling: tokens stand behind one another on character boundaries, they read what
they cover, and what they leave uncovered is blank.  -/

namespace Scriptlet

open Text

/-! ## Cuts

The lexer goes through the text once, passing blanks and taking lexemes.  A cut keeps what it saw:
which blanks, and which lexemes, from where on. -/

/-- The text that begins at byte `place` falls into blanks and the lexemes of the tokens, in turns.
-/
inductive Cut : (place : Nat) → List Char → List Token → Prop
  | nil {place : Nat} {gap : List Char} : (∀ c ∈ gap, isBlank c) → Cut place gap []
  | cons {place : Nat} {gap : List Char} {c : Char} {rest : List Char} {ts : List Token} :
    (∀ c ∈ gap, isBlank c) → isBlank c = false →
    Cut (place + byteLength gap + byteLength (lexeme c rest).text)
      ((c :: rest).drop (lexeme c rest).text.length) ts →
    Cut place (gap ++ c :: rest) ((lexeme c rest).token (place + byteLength gap) :: ts)

namespace Cut

variable {place : Nat} {cs : List Char} {ts : List Token}

/-- A blank in front of a cut is part of the gap before its first lexeme. -/
theorem blank {c : Char} (hc : isBlank c) (h : Cut (place + c.utf8Size) cs ts) :
    Cut place (c :: cs) ts := by
  cases h with
  | nil hgap => exact .nil (List.forall_mem_cons.mpr ⟨hc, hgap⟩)
  | @cons _ gap d rest ts hgap hd hrest =>
    rw [Nat.add_assoc place c.utf8Size (byteLength gap)] at hrest ⊢
    have hgap' : ∀ d ∈ c :: gap, isBlank d := List.forall_mem_cons.mpr ⟨hc, hgap⟩
    exact .cons hgap' hd hrest

/-- **The tokens of a text are a cut of it**, by the recursion of the lexer. -/
theorem of_tokensFrom (place : Nat) (cs : List Char) : Cut place cs (tokensFrom place cs) := by
  fun_induction tokensFrom place cs with
  | case1 place => exact .nil (List.forall_mem_nil _)
  | case2 place c rest hc ih => exact .blank hc ih
  | case3 place c rest hc l ih =>
    have hgap : ∀ d ∈ ([] : List Char), isBlank d := List.forall_mem_nil _
    exact .cons hgap (Bool.eq_false_iff.mpr hc) ih

/-- What is behind the first lexeme. -/
theorem split_lexeme (c : Char) (rest : List Char) :
    c :: rest = (lexeme c rest).text ++ (c :: rest).drop (lexeme c rest).text.length :=
  have hprefix := lexeme_text_prefix c rest
  (List.prefix_iff_eq_append.mp hprefix).symm

/-- **There are at most as many tokens as characters.** -/
theorem length_le (h : Cut place cs ts) : ts.length ≤ cs.length := by
  induction h with
  | nil => exact Nat.zero_le _
  | @cons _ gap c rest ts hgap hc hrest ih =>
    have hpos := List.length_pos_iff.mpr (lexeme_text_ne_nil c rest)
    rw [List.length_drop] at ih
    simp only [List.length_append, List.length_cons] at ih ⊢
    omega

end Cut

/-! ## Spans of a source

A span is a pair of byte offsets.  It is of use only if both are at boundaries of characters, which
is why bytes in front of a place are counted by the characters there. -/

/-- The source text at the span. -/
def Span.textIn (span : Span) (source : String) : String :=
  String.Pos.Raw.extract source ⟨span.start⟩ ⟨span.stop⟩

/-- The span begins and ends on character boundaries of the source, and not at the same one. -/
structure Span.Within (span : Span) (source : String) : Prop where
  nonempty : span.start < span.stop
  start : String.Pos.Raw.IsValid source ⟨span.start⟩
  stop : String.Pos.Raw.IsValid source ⟨span.stop⟩

/-- The literal is the text, or for a string what the text between the quotes stands for. -/
def Token.LiteralOf (t : Token) (text : String) : Prop :=
  if t.kind = .string then
    ∃ body, text = String.ofList ('"' :: body ++ ['"']) ∧ t.literal = String.ofList (unescape body)
  else t.literal = text

/-- What tokens leave uncovered between the bytes `place` and `size`: a span before each of them,
and one behind the last. -/
def gaps (place size : Nat) : List Token → List Span
  | [] => [⟨place, size⟩]
  | t :: ts => ⟨place, t.span.start⟩ :: gaps t.span.stop size ts

/-- The tokens stand in the source one behind the other, read what they cover, and leave nothing
uncovered but blanks. -/
structure Tiles (source : String) (ts : List Token) : Prop where
  within : ∀ t ∈ ts, t.span.Within source
  literal : ∀ t ∈ ts, t.LiteralOf (t.span.textIn source)
  gaps : ∀ gap ∈ gaps 0 source.utf8ByteSize ts,
    gap.start ≤ gap.stop ∧ ∀ c ∈ (gap.textIn source).toList, isBlank c

section

variable {source : String} {before text after : List Char}

theorem byteLength_eq_utf8Len (cs : List Char) : byteLength cs = String.utf8Len cs := by
  rw [byteLength_ofList, String.utf8ByteSize_ofList]

/-- A text is cut out of the source at the bytes before it. -/
theorem textIn_eq (h : source.toList = before ++ text ++ after) :
    (⟨byteLength before, byteLength before + byteLength text⟩ : Span).textIn source =
      String.ofList text := by
  rw [← source.ofList_toList, h]
  unfold Span.textIn
  rw [byteLength_eq_utf8Len, byteLength_eq_utf8Len, String.extract_of_valid]

theorem textIn_token {l : Lexeme} (h : source.toList = before ++ l.text ++ after) :
    (l.token (byteLength before)).span.textIn source = String.ofList l.text :=
  textIn_eq h

/-- The byte behind some characters is a character boundary. -/
theorem isValid_byteLength (h : source.toList = before ++ after) :
    String.Pos.Raw.IsValid source ⟨byteLength before⟩ := by
  refine String.Pos.Raw.isValid_iff_exists_append.mpr ⟨.ofList before, .ofList after, ?_, ?_⟩
  · rw [← String.ofList_append, ← h, String.ofList_toList]
  · rw [byteLength_ofList]
    rfl

theorem byteLength_pos (h : text ≠ []) : 0 < byteLength text := by
  obtain ⟨c, cs, rfl⟩ := List.exists_cons_of_ne_nil h
  exact Nat.add_pos_left c.utf8Size_pos _

/-- A text that stands in the source covers a span of it. -/
theorem within_of_split (h : source.toList = before ++ text ++ after) (htext : text ≠ []) :
    (⟨byteLength before, byteLength before + byteLength text⟩ : Span).Within source where
  nonempty := Nat.lt_add_of_pos_right (byteLength_pos htext)
  start := by
    rw [List.append_assoc] at h
    exact isValid_byteLength h
  stop := by
    rw [← byteLength_append]
    exact isValid_byteLength h

end

/-! ## Tokens read what they cover

A token keeps its text, without the quotes if it is a string.  So its literal can be told from the
source by its span. -/

theorem TokenKind.ofWord_ne_string (word : String) : ofWord word ≠ .string := by
  unfold ofWord
  split <;> decide

theorem symbol_ne_string (c : Char) (rest : List Char) : (symbol c rest).kind ≠ .string := by
  unfold symbol
  split <;> simp

/-- A string lexeme is a text between quotes. -/
theorem exists_body_of_string {c : Char} {rest : List Char} (h : (lexeme c rest).kind = .string) :
    ∃ body, (lexeme c rest).text = '"' :: body ++ ['"'] := by
  revert h
  unfold lexeme
  split
  · exact fun h => absurd h (TokenKind.ofWord_ne_string _)
  split
  · nofun
  split
  · split
    · next body _ => exact fun _ => ⟨body, rfl⟩
    · nofun
  · exact fun h => absurd h (symbol_ne_string c rest)

/-- **A token reads what it covers.** -/
theorem lexeme_literalOf (c : Char) (rest : List Char) (start : Nat) :
    ((lexeme c rest).token start).LiteralOf (String.ofList (lexeme c rest).text) := by
  unfold Token.LiteralOf
  split
  · next hstring =>
    have hkind : (lexeme c rest).kind = .string := hstring
    obtain ⟨body, hbody⟩ := exists_body_of_string hkind
    refine ⟨body, by rw [hbody], ?_⟩
    show (lexeme c rest).literal = _
    unfold Lexeme.literal
    rw [hkind, hbody, List.cons_append, List.tail_cons, List.dropLast_concat]
  · next hstring =>
    have hkind : (lexeme c rest).kind ≠ .string := hstring
    show (lexeme c rest).literal = _
    unfold Lexeme.literal
    split
    · contradiction
    · rfl

/-! ## A cut is a tiling

From a cut to the statement about spans, by induction on the cut, with the text that has been passed
in front. -/

namespace Cut

variable {source : String} {before cs : List Char} {ts : List Token}

/-- The source around the lexeme behind a gap. -/
theorem split_source {gap rest : List Char} {c : Char}
    (h : source.toList = before ++ (gap ++ c :: rest)) :
    source.toList = before ++ gap ++ (lexeme c rest).text ++
      (c :: rest).drop (lexeme c rest).text.length := by
  rw [List.append_assoc, ← split_lexeme, List.append_assoc, h]

/-- What a cut of the rest of a source says of the token's own spans. -/
theorem covers (h : Cut (byteLength before) cs ts) (hsource : source.toList = before ++ cs) :
    ∀ t ∈ ts, t.span.Within source ∧ t.LiteralOf (t.span.textIn source) := by
  -- on the cut; each gap and lexeme that is passed goes over to `before`
  generalize hplace : byteLength before = place at h
  induction h generalizing before with
  | nil => exact List.forall_mem_nil _
  | @cons _ gap c rest ts hgap hc hrest ih =>
    subst hplace
    have hsplit := split_source hsource
    refine List.forall_mem_cons.mpr ⟨?_, ih hsplit ?_⟩
    · rw [← byteLength_append, textIn_token hsplit]
      exact ⟨within_of_split hsplit (lexeme_text_ne_nil c rest), lexeme_literalOf c rest _⟩
    · rw [byteLength_append, byteLength_append]

/-- **What is between tokens is blank**, also before the first one and behind the last. -/
theorem gaps_blank (h : Cut (byteLength before) cs ts) (hsource : source.toList = before ++ cs) :
    ∀ gap ∈ gaps (byteLength before) source.utf8ByteSize ts,
      gap.start ≤ gap.stop ∧ ∀ c ∈ (gap.textIn source).toList, isBlank c := by
  generalize hplace : byteLength before = place at h
  induction h generalizing before with
  | @nil _ gap hgap =>
    subst hplace
    have hsize : source.utf8ByteSize = byteLength before + byteLength gap := by
      rw [← byteLength_toList, hsource, byteLength_append]
    have hsplit : source.toList = before ++ gap ++ [] := by rw [List.append_nil, hsource]
    refine List.forall_mem_singleton.mpr ?_
    rw [hsize, textIn_eq hsplit, String.toList_ofList]
    exact ⟨Nat.le_add_right _ _, hgap⟩
  | @cons _ gap c rest ts hgap hc hrest ih =>
    subst hplace
    have hsplit := split_source hsource
    have hbefore : source.toList = before ++ gap ++ c :: rest := by rw [List.append_assoc, hsource]
    refine List.forall_mem_cons.mpr ⟨⟨Nat.le_add_right _ _, ?_⟩, ih hsplit ?_⟩
    · show ∀ c ∈ ((⟨byteLength before, byteLength before + byteLength gap⟩ : Span).textIn
        source).toList, isBlank c
      rw [textIn_eq hbefore, String.toList_ofList]
      exact hgap
    · rw [byteLength_append, byteLength_append]

end Cut

/-! ## Reading past the end

A stream that has no tokens left goes on giving the end of input, at the end of the source. -/

/-- Past its tokens a stream reads as the end of input, again and again. -/
theorem TokenStream.take_past_end (ts : List Token) (stop : Token) (n : Nat) :
    TokenStream.take (ts.length + n) ⟨ts, stop⟩ = ts ++ List.replicate n stop := by
  induction ts with
  | nil =>
    rw [List.length_nil, Nat.zero_add, List.nil_append]
    induction n with
    | zero => rfl
    | succ n ih => rw [List.replicate_succ, ← ih]; rfl
  | cons t ts ih =>
    rw [List.length_cons, Nat.add_right_comm, List.cons_append, ← ih]
    rfl

/-- **The tokens of a source tile it.** -/
theorem tiles_tokenize (source : String) : Tiles source (tokenize source) := by
  have hcut : Cut (byteLength []) source.toList (tokenize source) := .of_tokensFrom 0 source.toList
  have hsource : source.toList = [] ++ source.toList := rfl
  have hcovers := hcut.covers hsource
  exact ⟨fun t ht => (hcovers t ht).1, fun t ht => (hcovers t ht).2, hcut.gaps_blank hsource⟩

/-- There are at most as many tokens as characters. -/
theorem length_tokenize_le (source : String) : (tokenize source).length ≤ source.length :=
  String.length_toList ▸ (Cut.of_tokensFrom 0 source.toList).length_le

/-- **The tokens of a source tile it.**  Each has a span of its own in the source, behind that of
the token before it and on character boundaries, and its literal is the text there, unescaped for a
string; what stands between tokens is blank.  There are at most as many as characters, none of them
is the end of input, and whatever is read behind them is the end of input, at the last byte. -/
theorem tokenize_tiles (source : String) :
    Tiles source (tokenize source) ∧ (tokenize source).length ≤ source.length ∧
      (∀ t ∈ tokenize source, t.kind ≠ .endOfInput) ∧
      ∀ n, (TokenStream.ofSource source).take ((tokenize source).length + n) =
        tokenize source ++ List.replicate n (.endAt source.utf8ByteSize) :=
  ⟨tiles_tokenize source, length_tokenize_le source, tokensFrom_ne_end 0 source.toList,
    TokenStream.take_past_end (tokenize source) (.endAt source.utf8ByteSize)⟩

end Scriptlet
