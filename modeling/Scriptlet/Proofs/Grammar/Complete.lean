import Scriptlet.Proofs.Grammar.Sound
import Scriptlet.Proofs.Parse.Complete

/-!
# Proofs/Grammar/Complete — the parser is the layered grammar

What the grammar derives is read, whatever fits after it.  An expression is read *up to* its last
word: operators behind it may still carry it on, if the limit lets them, and so the reading of a
left operand becomes a reading of the whole.  `parseStream_iff_derives` puts both directions
together.  -/

namespace Scriptlet

variable {c ls rs rest : List Word} {e l r : Expr}

/-- The words can be read as the form, before words that fit after them. -/
def Readable (c : List Word) : Form → Prop
  | .expression level e => ∀ limit rest, limit.rank ≤ Precedence.unary.rank →
    limit.level.rank ≤ level.rank → Follows level rest →
      ∃ w, w.tail = rest ∧ ∀ e' ws', Reads (.extended limit e e') w ws' →
        Reads (.expression limit e') (c ++ rest) ws'
  | .items es => ∀ close w rest, close.closes → w.tail = c ++ rest → firstKind rest = close →
    Reads (.items close es) w rest
  | .pairs ps => ∀ w rest, w.tail = c ++ rest → firstKind rest = .rightBrace →
    ∃ w', w'.tail = rest ∧ Reads (.pairs ps) w w'

/-! ## Expressions as a whole

A derivation says that a phrase is an expression of some level.  The parser may read more than the
phrase if an operator follows it, so what is shown by induction is that it can get that far and go
on from there. -/

/-- An expression is over where no operator binds tighter than the limit. -/
theorem Readable.reads {level : Level} {limit : Precedence}
    (h : Readable c (.expression level e)) (hlimit : limit.rank ≤ Precedence.unary.rank)
    (hlevel : limit.level.rank ≤ level.rank) (hf : Follows level rest)
    (hstop : ∀ w, w.tail = rest → StopsAt limit w) :
    ∃ w, w.tail = rest ∧ Reads (.expression limit e) (c ++ rest) w := by
  obtain ⟨w, hw, hreads⟩ := h limit rest hlimit hlevel hf
  exact ⟨w, hw, hreads e w (.stop (hstop w hw))⟩

/-- No operator fits after a whole assignment. -/
theorem none_of_follows (h : Follows .assignment rest) : Extension.of (firstKind rest) = none := by
  rcases hof : Extension.of (firstKind rest) with _ | ⟨strength, how⟩
  · rfl
  · have hle : strength.leftLevel.rank ≤ 1 := h strength how hof
    have hrank := strength.rank_leftLevel
    omega

/-- At the lowest limit: an expression before a word that is no operator. -/
theorem Readable.reads_lowest (h : Readable c (.expression .assignment e))
    (rest : List Word) (hnone : Extension.of (firstKind rest) = none) :
    ∃ w, w.tail = rest ∧ Reads (.expression .lowest e) (c ++ rest) w :=
  h.reads (by decide) (by decide) (follows_of_none hnone) fun w hw => stopsAt_of_none (by rwa [hw])

/-- What follows a level stops there. -/
theorem stopsAt_unary {w : List Word} (h : Follows .unary w.tail) : StopsAt .unary w := by
  intro strength how hof hlt
  have hle : strength.leftLevel.rank ≤ 6 := h strength how hof
  have hgt : 6 < strength.rank := hlt
  have hrank := strength.rank_leftLevel
  omega

/-- The same, for the level that an operator makes. -/
theorem stopsAt_of_operator {op : InfixOp} {w : List Word} (h : Follows op.level w.tail) :
    StopsAt op.strength w := by
  intro strength how hof hlt
  have hle := h strength how hof
  have hrank := strength.rank_leftLevel
  have hfive := op.rank_strength_le
  rw [op.rank_level] at hle
  rw [Precedence.lt_iff] at hlt
  omega

/-! ## Steps

One lemma for each rule of the grammar, which reads the first operand, passes the operator and reads
the second operand with the limit of the operator. -/

/-- A word that starts an expression, and all the rest of it, before operators. -/
theorem readable_leading {level : Level}
    (h : ∀ rest, ∃ w, w.tail = rest ∧ Reads (.leading e) (c ++ rest) w) :
    Readable c (.expression level e) := by
  intro limit rest _ _ _
  obtain ⟨w, hw, hl⟩ := h rest
  exact ⟨w, hw, fun e' ws' he => .expression hl he⟩

/-- **The left operand is read on**, past the operator and its right operand. -/
theorem readable_operator (op : InfixOp) (hl : Readable ls (.expression op.strength.leftLevel l))
    (hr : ∀ rest, Follows op.level rest → ∃ w, w.tail = rest ∧
      Reads (.expression (op.rightLimit op.strength) r) (rs ++ rest) w) :
    Readable (ls ++ .sign op.kind :: rs) (.expression op.level (.binary op l r)) := by
  intro limit rest hlimit hlevel hf
  have hof := op.extension_of_kind
  have hfive := op.rank_strength_le
  have hrank := op.strength.rank_leftLevel
  -- The limit admits the level of the operator, so it admits the operator itself and, behind it, an
  -- operand of the level to its left.
  have hlt : limit < op.strength := by
    rw [limit.rank_level, op.rank_level] at hlevel
    rw [Precedence.lt_iff]
    omega
  have hleft : limit.level.rank ≤ op.strength.leftLevel.rank := by
    rw [op.rank_level] at hlevel
    omega
  have hfits : Follows op.strength.leftLevel (.sign op.kind :: (rs ++ rest)) := by
    intro strength how hof'
    obtain ⟨rfl, -⟩ := Prod.mk.inj (Option.some.inj (hof.symm.trans hof'))
    exact Nat.le_refl _
  obtain ⟨wl, hwl, hreadl⟩ := hl limit _ hlimit hleft hfits
  obtain ⟨wr, hwr, hreadr⟩ := hr rest hf
  refine ⟨wr, hwr, fun e' ws' he => ?_⟩
  have hext : Reads (.extended limit l e') wl ws' := by
    refine .binary ?_ hlt ?_ he
    · rw [hwl]
      exact hof
    · rw [hwl]
      exact hreadr
  rw [List.append_assoc]
  exact hreadl e' ws' hext

/-- The items after the first one, as they are read behind it. -/
theorem reads_moreItems {close : TokenKind} {e : Expr} {es : List Expr} {w w₂ : List Word}
    (hw : firstKind w.tail = .comma) (h : Reads (.items close (e :: es)) w.tail w₂) :
    ∃ w₁, w₁.tail = w₂ ∧ firstKind w₁.tail = close ∧ Reads (.moreItems (e :: es)) w w₁ := by
  cases h with
  | items h he hes h₂ => exact ⟨_, rfl, h₂, .moreItems hw he hes⟩

/-- A right operand ends where the next operator binds no tighter than the one before it. -/
theorem Readable.reads_right {op : InfixOp} (hop : op ≠ .assign)
    (h : Readable rs (.expression op.level.tighter r)) (hf : Follows op.level rest) :
    ∃ w, w.tail = rest ∧ Reads (.expression (op.rightLimit op.strength) r) (rs ++ rest) w := by
  have hlimit : op.strength.rank ≤ 6 := Nat.le_succ_of_le op.rank_strength_le
  have hlevel : op.strength.level.rank ≤ op.level.tighter.rank :=
    Nat.le_of_eq (congrArg Level.rank op.level_strength)
  rw [InfixOp.rightLimit_of_ne hop]
  exact h.reads hlimit hlevel (hf.mono (Level.rank_le_tighter _)) fun w hw =>
    stopsAt_of_operator (by rwa [hw])

/-- **What the grammar derives is read.** -/
theorem Derives.readable {form : Form} {c : List Word} (h : Derives form c) : Readable c form := by
  -- The induction is on the derivation.  For an operator, the reading of the left operand is taken
  -- up where it ended and carried on.
  induction h with
  | tighter h ih =>
    intro limit rest hlimit hlevel hf
    exact ih limit rest hlimit (Nat.le_trans hlevel (Level.rank_le_tighter _))
      (hf.mono (Level.rank_le_tighter _))
  | assign hl hr ihl ihr =>
    exact readable_operator .assign ihl fun rest hf => ihr.reads_lowest rest (none_of_follows hf)
  | binary hop hl hr ihl ihr =>
    refine readable_operator _ ?_ fun rest hf => ihr.reads_right hop hf
    rwa [InfixOp.leftLevel_strength hop]
  | unary h ih =>
    intro limit rest hlimit hlevel hf
    obtain ⟨w, hw, hreads⟩ := ih.reads (by decide) (by decide) hf fun w hw =>
      stopsAt_unary (by rwa [hw])
    exact ⟨w, hw, fun e' ws' he => .expression (.unary rfl hreads) he⟩
  | call hf hes ihf ihes =>
    intro limit rest hlimit hlevel _
    obtain ⟨wf, hwf, hreadf⟩ := ihf limit (.sign .leftParen :: (_ ++ .sign .rightParen :: rest))
      hlimit hlevel (follows_suffixed _)
    have hitems := ihes .rightParen wf.tail (.sign .rightParen :: rest) rfl
      (by rw [hwf]; rfl) rfl
    refine ⟨.sign .rightParen :: rest, rfl, fun e' ws' he => ?_⟩
    have hread := hreadf e' ws' (.call (by rw [hwf]; rfl) (Nat.lt_succ_of_le hlimit) hitems he)
    simpa using hread
  | index he hk ihe ihk =>
    intro limit rest hlimit hlevel _
    obtain ⟨we, hwe, hreade⟩ := ihe limit (.sign .leftBracket :: (_ ++ .sign .rightBracket :: rest))
      hlimit hlevel (follows_suffixed _)
    obtain ⟨wk, hwk, hkey⟩ := ihk.reads_lowest (.sign .rightBracket :: rest) rfl
    refine ⟨wk.tail, by rw [hwk]; rfl, fun e' ws' he => ?_⟩
    have hread := hreade e' ws' (.index (by rw [hwe]; rfl)
      (Nat.lt_succ_of_le (Nat.le_succ_of_le hlimit)) (by rw [hwe]; exact hkey)
      (by rw [hwk]; rfl) he)
    simpa using hread
  | ident => exact readable_leading fun rest => ⟨_, rfl, .ident⟩
  | integer hn => exact readable_leading fun rest => ⟨_, rfl, .integer hn⟩
  | string => exact readable_leading fun rest => ⟨_, rfl, .string⟩
  | trueWord => exact readable_leading fun rest => ⟨_, rfl, .trueWord rfl⟩
  | falseWord => exact readable_leading fun rest => ⟨_, rfl, .falseWord rfl⟩
  | grouped h ih =>
    refine readable_leading fun rest => ?_
    obtain ⟨w, hw, he⟩ := ih.reads_lowest (.sign .rightParen :: rest) rfl
    refine ⟨w.tail, by rw [hw]; rfl, ?_⟩
    rw [List.cons_append, List.append_assoc]
    exact .grouped rfl he (by rw [hw]; rfl)
  | array h ih =>
    refine readable_leading fun rest => ⟨.sign .rightBracket :: rest, rfl, ?_⟩
    rw [List.cons_append, List.append_assoc]
    exact .array rfl (ih .rightBracket _ _ rfl rfl rfl)
  | hash h ih =>
    refine readable_leading fun rest => ?_
    rw [List.cons_append, List.append_assoc]
    obtain ⟨w, hw, hps⟩ := ih (.sign .leftBrace :: (_ ++ .sign .rightBrace :: rest)) _ rfl rfl
    exact ⟨w.tail, by rw [hw]; rfl, .hash rfl hps (by rw [hw]; rfl)⟩
  | noItems =>
    intro close w rest _ hw hrest
    obtain rfl : w.tail = rest := hw
    exact .noItems hrest
  | lastItem h ih =>
    intro close w rest hclose hw hrest
    obtain ⟨w₁, rfl, he⟩ := ih.reads_lowest rest (by rw [hrest]; exact none_of_closes hclose)
    rw [← hw] at he
    refine .items (he.ne_close hclose) he (.noMoreItems ?_) hrest
    rw [hrest]
    exact ne_comma_of_closes hclose
  | item h hes ih ihes =>
    intro close w rest hclose hw hrest
    obtain ⟨w₁, hw₁, he⟩ := ih.reads_lowest (.sign .comma :: (_ ++ rest)) rfl
    obtain ⟨w₂, rfl, hlast, hmore⟩ := reads_moreItems (by rw [hw₁]; rfl)
      (ihes close w₁.tail rest hclose (by rw [hw₁]; rfl) hrest)
    rw [List.append_assoc, List.cons_append] at hw
    rw [← hw] at he
    exact .items (he.ne_close hclose) he hmore hlast
  | noPairs =>
    intro w rest hw hrest
    obtain rfl : w.tail = rest := hw
    exact ⟨w, rfl, .noPairs hrest⟩
  | lastPair hk hv ihk ihv =>
    intro w rest hw hrest
    obtain ⟨w₂, rfl, hvalue⟩ := ihv.reads_lowest rest (by rw [hrest]; rfl)
    obtain ⟨w₁, hw₁, hkey⟩ := ihk.reads_lowest (.sign .colon :: (_ ++ w₂.tail)) rfl
    rw [List.append_assoc, List.cons_append] at hw
    rw [← hw] at hkey
    refine ⟨w₂, rfl, .lastPair (hkey.ne_close rfl) hkey (by rw [hw₁]; rfl) ?_ hrest⟩
    rw [hw₁]
    exact hvalue
  | pair hk hv hps ihk ihv ihps =>
    intro w rest hw hrest
    obtain ⟨w₂, hw₂, hvalue⟩ := ihv.reads_lowest (.sign .comma :: (_ ++ rest)) rfl
    obtain ⟨w₁, hw₁, hkey⟩ :=
      ihk.reads_lowest (.sign .colon :: (_ ++ .sign .comma :: (_ ++ rest))) rfl
    obtain ⟨w', hw', hpairs⟩ := ihps w₂.tail rest (by rw [hw₂]; rfl) hrest
    rw [List.append_assoc, List.cons_append, List.append_assoc, List.cons_append] at hw
    rw [← hw] at hkey
    refine ⟨w', hw', .pair (hkey.ne_close rfl) hkey (by rw [hw₁]; rfl) ?_ (by rw [hw₂]; rfl)
      hpairs⟩
    rw [hw₁]
    exact hvalue

/-! ## Programs

A program is a row of expressions with semicolons, so the two readings agree statement by statement.
-/

/-- The end of input is no word of the grammar. -/
theorem InGrammar.eq_nil {ws : List Word} (h : InGrammar ws) (hend : firstKind ws = .endOfInput) :
    ws = [] := by
  cases ws with
  | nil => rfl
  | cons w ws =>
    have hw := h w (List.mem_cons_self ..)
    rw [show w.kind = .endOfInput from hend] at hw
    cases hw

theorem InGrammar.pastSemicolon_eq {ws : List Word} (h : InGrammar ws) : pastSemicolon ws = ws := by
  unfold pastSemicolon
  split
  · next hsemi =>
    have hfirst := h.tail.first (by rw [hsemi]; decide)
    rw [hsemi] at hfirst
    cases hfirst
  · rfl

/-- What the grammar derives is read as a program of one expression, unless it is taken for a
block. -/
theorem Derives.reads_program {ws : List Word} (h : Derives (.expression .assignment e) ws)
    (hfirst : firstKind ws ≠ .leftBrace) :
    ∃ ws', Reads (.statements .endOfInput [.expr e]) ws ws' := by
  obtain ⟨w, hw, he⟩ := h.readable.reads_lowest [] rfl
  rw [List.append_nil] at he
  have hpast : pastSemicolon w = w := by
    rw [pastSemicolon, if_neg (by rw [hw]; decide)]
  have hstatement := Reads.expr (fun hbrace => absurd hbrace hfirst) he
  rw [hpast] at hstatement
  exact ⟨_, .statements hstatement (.noStatements (by rw [hw]; rfl))⟩

/-- A single expression is read of the grammar's words just if the grammar derives it. -/
theorem reads_program_iff_derives {ws : List Word} (hin : InGrammar ws)
    (hfirst : firstKind ws ≠ .leftBrace) :
    (∃ ws', Reads (.statements .endOfInput [.expr e]) ws ws') ↔
      Derives (.expression .assignment e) ws := by
  constructor
  · rintro ⟨ws', h⟩
    obtain ⟨w, he, hend⟩ : ∃ w, Reads (.expression .lowest e) ws w ∧
        firstKind (pastSemicolon w).tail = .endOfInput := by
      cases h with
      | statements hs hb =>
        cases hs with
        | expr _ he => exact ⟨_, he, hb.statements_nil⟩
    have hinw := hin.suffix he.suffix
    rw [hinw.pastSemicolon_eq] at hend
    obtain ⟨c, hc, hd⟩ := he.derived hin
    rw [hinw.tail.eq_nil hend, List.append_nil] at hc
    rwa [hc]
  · exact fun h => h.reads_program hfirst

/-- **The parser is the layered grammar.**  On tokens of the grammar, of which the first is no
brace, the parser has one expression and no error just if the grammar derives that expression. -/
theorem parseStream_iff_derives (ts : List Token) (size : Nat) (e : Expr)
    (hin : ∀ t ∈ ts, t.kind.inGrammar) (hfirst : ts.head?.map Token.kind ≠ some .leftBrace) :
    parseStream ⟨ts, .endAt size⟩ = ⟨[.expr e], []⟩ ↔
      Derives (.expression .assignment e) (ts.map Token.word) := by
  have hinw : InGrammar (ts.map Token.word) := by
    intro w hw
    obtain ⟨t, ht, rfl⟩ := List.mem_map.mp hw
    rw [t.kind_word]
    exact hin t ht
  have hfirstw : firstKind (ts.map Token.word) ≠ .leftBrace := by
    cases ts with
    | nil => nofun
    | cons t ts =>
      intro hbrace
      refine hfirst (congrArg some ?_)
      rw [← t.kind_word]
      exact hbrace
  have hstop : (Token.endAt size).kind = .endOfInput := rfl
  exact (parseStream_iff hstop).trans (reads_program_iff_derives hinw hfirstw)

/-- Operators of every level, the tight ones inside the loose ones and the other way round. -/
def ladder : String := "a = b == !c(1, [x])[0] * \x7b2: (d = y),\x7d[2] - z < 3"

/-- The premises hold of the ladder. -/
theorem parse_ladder_iff_derives :
    (∀ t ∈ tokenize ladder, t.kind.inGrammar) ∧
      (tokenize ladder).head?.map Token.kind ≠ some .leftBrace ∧
      ∀ e, parseStream ⟨tokenize ladder, .endAt 50⟩ = ⟨[.expr e], []⟩ ↔
        Derives (.expression .assignment e) ((tokenize ladder).map Token.word) := by
  have hin : ∀ t ∈ tokenize ladder, t.kind.inGrammar := by decide +kernel
  have hfirst : (tokenize ladder).head?.map Token.kind ≠ some .leftBrace := by decide +kernel
  exact ⟨hin, hfirst, fun e => parseStream_iff_derives _ _ e hin hfirst⟩

end Scriptlet
