import Scriptlet.Proofs.Parse.Braced
import Scriptlet.Proofs.Parse.Complete
import Scriptlet.Proofs.Parse.Flatten
import Scriptlet.Proofs.Parse.Shift

/-!
# Proofs/Parse/Append — a program can be read piece by piece

A source without errors that ends with a semicolon, and whose branches are braced, is read in the
same way whatever text follows it, and that text is read as if it stood alone: a reader that has
passed the first source has the tokens of the other one before it, further on by the bytes of the
first.
-/

namespace Scriptlet

variable {ws ws' : List Word} {close : TokenKind} {b : Program}

/-! ## Statements that are followed by others

A statement that ends with a semicolon is over there, whatever is behind it. -/

/-- Each statement has at least one word. -/
theorem Reads.length_add_le (h : Reads (.statements close b) ws ws') :
    b.length + ws'.length ≤ ws.length := by
  induction b generalizing ws with
  | nil =>
    cases h with
    | noStatements => rw [List.length_nil, Nat.zero_add]
  | cons s b ih =>
    cases h with
    | @statements _ _ w _ _ _ hs hb =>
      have hrest := ih hb
      have hle := hs.length_le
      have hpos := List.length_pos_iff.mpr (ne_nil_of_firstKind hs.statement_ne_end)
      simp only [List.length_tail, List.length_cons] at hrest ⊢
      omega

namespace Parse

variable {s : ParseState}

/-- Where the statements that were read end, reading goes on. -/
theorem statements_resume {N : Nat} (h : Reads (.statements close b) ws ws') (hN : ws.length < N)
    (m : Nat) (hs : s.Ended) (hws : s.words = ws) :
    ∃ s' : ParseState, s'.words = ws' ∧ s'.errors = s.errors ∧
      s'.stream.stop = s.stream.stop ∧ s'.stream.pending <:+ s.stream.pending ∧
      statements endsProgram (phrases N).statement (b.length + m) s =
        Prod.map (Option.map (b ++ ·)) id (statements endsProgram (phrases N).statement m s') := by
  induction b generalizing s ws with
  | nil =>
    cases h with
    | noStatements =>
      refine ⟨s, hws, rfl, rfl, List.suffix_refl _, ?_⟩
      simp
  | cons st b ih =>
    cases h with
    | @statements _ _ w _ _ _ hst hb =>
      obtain ⟨s₁, hrun, hs₁, hw, herrors⟩ := hst.given N hN s hs hws
      -- the statement leaves the end in place and goes forward
      obtain ⟨-, hstop, hforward⟩ := (phrases_shifts 0 ws.length hN hN).statement s hs
        (Nat.le_of_eq (hws ▸ s.length_words).symm)
      rw [hrun] at hstop hforward
      have hopen : endsProgram s.stream.current.kind = false := by
        rw [s.kind_current hs, hws]
        exact endsProgram_starts _ hst.starts_statement
      have hs₂ : s₁.next.Ended := hs₁
      have hw₂ : s₁.next.words = w.tail := by
        rw [← hw]
        exact List.map_tail
      have hlen : w.tail.length < N := Nat.lt_of_le_of_lt (tail_le hst.length_le) hN
      obtain ⟨s', hws', herrors', hstop', hforward', hrest⟩ := ih hb hlen hs₂ hw₂
      refine ⟨s', hws', herrors'.trans herrors, hstop'.trans hstop,
        (hforward'.trans (List.tail_suffix _)).trans hforward, ?_⟩
      rw [List.length_cons, Nat.add_right_comm, statements_of_open hopen, hrun, hrest]
      rcases statements endsProgram (phrases N).statement m s' with ⟨_ | b', s''⟩ <;> rfl

end Parse

/-! ## One stream after another

When the first stream is read up to its end, the reader stands at the first token of the second one,
which is the state that a reader of the second one starts in, but for its place. -/

/-- What a parser makes of a stream, from a run that is known. -/
theorem parseStream_of_run {stream : TokenStream} {s : ParseState}
    (h : Parse.statements Parse.endsProgram (Parse.phrases (stream.remaining + 1)).statement
      stream.remaining (.start stream) = (some b, s)) : parseStream stream = ⟨b, s.errors⟩ := by
  have hprogram : Parse.program (.start stream) = (some b, s) := h
  exact congrArg (fun r : Option Program × ParseState => (⟨r.1.getD [], r.2.errors⟩ : Parsed))
    hprogram

/-- The state with the tokens of the second stream before it, the first being read. -/
theorem eq_shift_start {k : Nat} {ts us : List Token} {stop : Token} {s : ParseState}
    (hwords : s.words = us.map Token.word) (herrors : s.errors = [])
    (hstop : s.stream.stop = stop.shift k)
    (hforward : s.stream.pending <:+ ts ++ us.map (Token.shift k)) :
    s = (ParseState.start ⟨us, stop⟩).shift k := by
  have hlen : s.stream.pending.length = (us.map (Token.shift k)).length := by
    have hlen := congrArg List.length hwords
    rw [ParseState.words, List.length_map, List.length_map] at hlen
    rw [hlen, List.length_map]
  have hpending : s.stream.pending = us.map (Token.shift k) :=
    (List.suffix_of_suffix_length_le hforward (List.suffix_append _ _)
      (Nat.le_of_eq hlen)).eq_of_length hlen
  obtain ⟨⟨pending, stop'⟩, errors⟩ := s
  obtain rfl : pending = _ := hpending
  obtain rfl : stop' = _ := hstop
  obtain rfl : errors = _ := herrors
  rfl

/-- **Behind a program that ends with a semicolon, tokens are read as if they stood alone.** -/
theorem parseStream_append {ts us : List Token} {stop : Token} (hstop : stop.kind = .endOfInput)
    (h : Reads (.statements .endOfInput b) (ts.map Token.word) [])
    (hbraced : BracedBranches (ts.map Token.word)) (hlast : SemicolonLast (ts.map Token.word))
    (k : Nat) :
    parseStream ⟨ts ++ us.map (Token.shift k), stop.shift k⟩ =
      ⟨b ++ (parseStream ⟨us, stop⟩).program,
        (parseStream ⟨us, stop⟩).errors.map (ParseError.shift k)⟩ := by
  have hreads := h.statements_append hbraced hlast (us.map Token.word)
  -- the statements of the first stream leave turns enough for the second one
  have hturns := h.length_add_le
  rw [List.length_map] at hturns
  obtain ⟨m, hm⟩ : ∃ m, ts.length + us.length = b.length + m :=
    ⟨ts.length + us.length - b.length, by omega⟩
  have hremaining : TokenStream.remaining ⟨ts ++ us.map (Token.shift k), stop.shift k⟩ =
      ts.length + us.length := by
    rw [TokenStream.remaining, List.length_append, List.length_map]
  have hwords : (ParseState.start ⟨ts ++ us.map (Token.shift k), stop.shift k⟩).words =
      ts.map Token.word ++ us.map Token.word := by
    simp only [ParseState.words, ParseState.start, List.map_append, List.map_map]
    rfl
  have hlevels : (ts.map Token.word ++ us.map Token.word).length < ts.length + us.length + 1 := by
    simp only [List.length_append, List.length_map, Nat.lt_succ_self]
  obtain ⟨s, hs, herrors, hstop', hforward, hrun⟩ := Parse.statements_resume hreads hlevels m
    (s := .start ⟨ts ++ us.map (Token.shift k), stop.shift k⟩) hstop hwords
  obtain rfl := eq_shift_start hs herrors hstop' hforward
  -- the statements of the second one are read as they are alone
  have hphrases := Parse.phrases_shifts k us.length (Nat.lt_succ_self us.length)
    (Nat.lt_succ_of_le (Nat.le_add_left us.length ts.length))
  have hshift : Parse.ShiftsAt k
      (Parse.statements Parse.endsProgram (Parse.phrases (us.length + 1)).statement us.length)
      (Parse.statements Parse.endsProgram (Parse.phrases (ts.length + us.length + 1)).statement m)
      (.start ⟨us, stop⟩) :=
    Parse.statements_shiftsAt rfl hphrases.statement hstop (Nat.le_refl us.length)
      (Nat.le_refl us.length) (show us.length ≤ m by omega)
  obtain ⟨c, hc⟩ := Option.isSome_iff_exists.mp (Parse.statements_isSome Parse.endsProgram
    (Parse.phrases (us.length + 1)).statement us.length (.start ⟨us, stop⟩))
  rw [← hm, hshift.moved, hc, ← hremaining] at hrun
  have hsecond : parseStream ⟨us, stop⟩ = ⟨c, _⟩ := parseStream_of_run (Prod.ext hc rfl)
  rw [parseStream_of_run hrun, hsecond]
  rfl

/-! ## One source after another

Tokens of a source that ends with a semicolon are not carried on by those of the next one, so the
stream of both is one stream after the other. -/

variable {source : String}

/-- Without errors the whole source is read, so no word is left. -/
theorem reads_of_parse (herrors : (parse source).errors = []) :
    Reads (.statements .endOfInput (parse source).program) ((tokenize source).map Token.word)
      [] := by
  obtain ⟨ws', hreads⟩ := reads_of_parseStream rfl herrors
  have hnil : ws' = [] := eq_nil_of_suffix_words hreads.suffix hreads.closed
  rwa [hnil] at hreads

/-- The last word is that of the last token. -/
theorem EndsInSemicolon.words {ts : List Token} (h : EndsInSemicolon ts) :
    SemicolonLast (ts.map Token.word) := by
  intro w hw
  rw [List.getLast?_map] at hw
  obtain ⟨t, ht, rfl⟩ := Option.map_eq_some_iff.mp hw
  exact t.kind_word.trans (h t ht)

/-- The statement of `parse_append`, from a reading; that there is one is what a source without
errors gives. -/
theorem parse_append_of_reads
    (h : Reads (.statements .endOfInput b) ((tokenize source).map Token.word) [])
    (hlast : EndsInSemicolon (tokenize source))
    (hbraced : BracedBranches ((tokenize source).map Token.word)) (more : String) :
    parse (source ++ more) = ⟨b ++ (parse more).program,
      (parse more).errors.map (ParseError.shift source.utf8ByteSize)⟩ := by
  have hstream : TokenStream.ofSource (source ++ more) =
      ⟨tokenize source ++ (tokenize more).map (Token.shift source.utf8ByteSize),
        (Token.endAt more.utf8ByteSize).shift source.utf8ByteSize⟩ := by
    rw [TokenStream.ofSource, tokenize_append hlast, String.utf8ByteSize_append]
    rfl
  unfold parse
  rw [hstream]
  exact parseStream_append rfl h hbraced hlast.words source.utf8ByteSize

/-- **A source is read piece by piece.**  Let a source be read without errors, let its last token be
a semicolon and let its branches be braced.  With any text behind it, its statements are read, then
those of the text, with the errors of the text at the places where it stands now. -/
theorem parse_append (herrors : (parse source).errors = [])
    (hlast : EndsInSemicolon (tokenize source))
    (hbraced : BracedBranches ((tokenize source).map Token.word)) (more : String) :
    parse (source ++ more) = ⟨(parse source).program ++ (parse more).program,
      (parse more).errors.map (ParseError.shift source.utf8ByteSize)⟩ :=
  parse_append_of_reads (reads_of_parse herrors) hlast hbraced more

/-- Behind a conditional and its semicolon stands what would carry it on, and errors of all
sorts. -/
theorem parse_append_broken :
    let source := "for (;;) if (f(1)) \x7b a \x7d else if (b) \x7b 2; \x7d; "
    let more := "else (3) + ; \x7b let \"open"
    (parse source).errors = [] ∧ EndsInSemicolon (tokenize source) ∧
      BracedBranches ((tokenize source).map Token.word) ∧ (parse more).errors ≠ [] ∧
      parse (source ++ more) = ⟨(parse source).program ++ (parse more).program,
        (parse more).errors.map (ParseError.shift source.utf8ByteSize)⟩ := by
  intro source more
  have herrors : (parse source).errors = [] := by decide +kernel
  have hlast : EndsInSemicolon (tokenize source) := by decide +kernel
  have hbraced : BracedBranches ((tokenize source).map Token.word) := by decide +kernel
  exact ⟨herrors, hlast, hbraced, by decide +kernel, parse_append herrors hlast hbraced more⟩

end Scriptlet
