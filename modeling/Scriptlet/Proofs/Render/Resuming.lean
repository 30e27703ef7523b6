import Scriptlet.Proofs.Render.Words

/-!
# Proofs/Render/Resuming — the words of a printed expression are read as it

An expression is read up to its last word, and operators behind it may carry it on.  The printer
puts parentheses around every operator but the call, so an expression is carried on whatever the
limit is that it is read with; that is what makes an operand, a callee or a list item of it.  -/

namespace Scriptlet

/-- A word of this kind behind an expression is no part of it. -/
def TokenKind.ends (kind : TokenKind) : Bool := (Extension.of kind).isNone && kind ≠ .elseWord

theorem TokenKind.ends_iff {kind : TokenKind} :
    kind.ends ↔ Extension.of kind = none ∧ kind ≠ .elseWord := by
  simp [TokenKind.ends]

theorem ends_of_closes {kind : TokenKind} (h : kind.closes) : kind.ends := by
  cases kind <;> first | rfl | cases h

variable {rest : List Word}

/-! ## Expressions

A text that is put around an expression may carry it on: an operator after it, an index, a call.  So
it is not enough that its words are read as it; it has to be possible to carry the reading on from
there with any limit below that of a call. -/

/-- The words of the expression are read as it, and it may be carried on from there. -/
def Resumes (e : Expr) : Prop :=
  ∀ limit rest, limit < .call → firstKind rest ≠ .elseWord →
    ∃ w, w.tail = rest ∧ ∀ e' ws', Reads (.extended limit e e') w ws' →
      Reads (.expression limit e') (e.words ++ rest) ws'

/-- An expression is over where nothing follows that is part of it. -/
theorem Resumes.reads {e : Expr} {limit : Precedence} (h : Resumes e) (hlimit : limit < .call)
    (rest : List Word) (hrest : (firstKind rest).ends) :
    ∃ w, w.tail = rest ∧ Reads (.expression limit e) (e.words ++ rest) w := by
  obtain ⟨hnone, helse⟩ := TokenKind.ends_iff.mp hrest
  obtain ⟨w, hw, hreads⟩ := h limit rest hlimit helse
  exact ⟨w, hw, hreads e w (.stop (stopsAt_of_none (by rwa [hw])))⟩

/-- In a list or between delimiters, where every operator would carry the expression on. -/
theorem Resumes.reads_lowest {e : Expr} (h : Resumes e) (rest : List Word)
    (hrest : (firstKind rest).ends) :
    ∃ w, w.tail = rest ∧ Reads (.expression .lowest e) (e.words ++ rest) w :=
  h.reads (by decide) rest hrest

/-- What is read as the beginning of an expression may be carried on if no `else` follows; only a
conditional minds. -/
theorem resumes_leading {e : Expr} (h : ∀ rest, firstKind rest ≠ .elseWord →
    ∃ w, w.tail = rest ∧ Reads (.leading e) (e.words ++ rest) w) : Resumes e := by
  intro limit rest _ helse
  obtain ⟨w, hw, hl⟩ := h rest helse
  exact ⟨w, hw, fun e' ws' he => .expression hl he⟩

/-- **Between parentheses** an expression is over before the closing one. -/
theorem resumes_grouped {e : Expr} {c : List Word}
    (hc : e.words = .sign .leftParen :: (c ++ [.sign .rightParen]))
    (h : ∀ rest, ∃ w, w.tail = .sign .rightParen :: rest ∧
      Reads (.expression .lowest e) (c ++ .sign .rightParen :: rest) w) : Resumes e := by
  refine resumes_leading fun rest _ => ?_
  obtain ⟨w, hw, he⟩ := h rest
  refine ⟨w.tail, by rw [hw]; rfl, ?_⟩
  rw [hc, List.cons_append, List.append_assoc]
  exact .grouped rfl he (by rw [hw]; rfl)

theorem stopsAt_paren {limit : Precedence} {w : List Word}
    (hw : w.tail = .sign .rightParen :: rest) : StopsAt limit w :=
  stopsAt_of_none (by rw [hw]; rfl)

/-- A prefix operator is printed between parentheses with its operand. -/
theorem resumes_unary {op : PrefixOp} {e : Expr} (h : Resumes e) : Resumes (.unary op e) := by
  refine resumes_grouped (c := .sign op.kind :: e.words) (by simp [Expr.words]) fun rest => ?_
  have hlimit : Precedence.unary < .call := by decide
  obtain ⟨w, hw, he⟩ := h.reads hlimit (.sign .rightParen :: rest) rfl
  exact ⟨w, hw, .expression (.unary rfl he) (.stop (stopsAt_paren hw))⟩

/-- Every operator may stand at the lowest limit. -/
theorem lowest_lt_strength (op : InfixOp) : .lowest < op.strength := by
  cases op <;> decide

/-- Whatever the limit behind an operator, a call binds tighter. -/
theorem rightLimit_lt_call (op : InfixOp) : op.rightLimit op.strength < .call := by
  cases op <;> decide

/-- **An operator between operands**: the left one is carried on by it, and the right one ends at
the parenthesis. -/
theorem resumes_binary {op : InfixOp} {l r : Expr} (hl : Resumes l) (hr : Resumes r) :
    Resumes (.binary op l r) := by
  refine resumes_grouped (c := l.words ++ .sign op.kind :: r.words) (by simp [Expr.words])
    fun rest => ?_
  obtain ⟨wr, hwr, hreadr⟩ := hr.reads (rightLimit_lt_call op) (.sign .rightParen :: rest) rfl
  obtain ⟨wl, hwl, hreadl⟩ := hl .lowest
    (.sign op.kind :: (r.words ++ .sign .rightParen :: rest)) (by decide) op.kind_ne_else
  refine ⟨wr, hwr, ?_⟩
  rw [List.append_assoc]
  refine hreadl _ _ (.binary ?_ (lowest_lt_strength op) ?_ (.stop (stopsAt_paren hwr)))
  · rw [hwl]
    exact op.extension_of_kind
  · rw [hwl]
    exact hreadr

/-- An index is printed between parentheses with what it looks into. -/
theorem resumes_index {e k : Expr} (he : Resumes e) (hk : Resumes k) : Resumes (.index e k) := by
  refine resumes_grouped (c := e.words ++ .sign .leftBracket :: (k.words ++ [.sign .rightBracket]))
    (by simp [Expr.words]) fun rest => ?_
  obtain ⟨wk, hwk, hreadk⟩ :=
    hk.reads_lowest (.sign .rightBracket :: .sign .rightParen :: rest) rfl
  obtain ⟨we, hwe, hreade⟩ := he .lowest (.sign .leftBracket ::
    (k.words ++ .sign .rightBracket :: .sign .rightParen :: rest)) (by decide) (by simp)
  have hlast : wk.tail.tail = .sign .rightParen :: rest := by rw [hwk]; rfl
  refine ⟨wk.tail, hlast, ?_⟩
  have hof : Extension.of (firstKind we.tail) = some (.index, .index) := by rw [hwe]; rfl
  have hkey : Reads (.expression .lowest k) we.tail.tail wk := by rw [hwe]; exact hreadk
  have hread := hreade _ _ (.index hof (by decide) hkey (by rw [hwk]; rfl)
    (.stop (stopsAt_paren hlast)))
  simpa using hread

/-! ## Lists

The items of a list are read with the lowest limit, and each is ended by a comma or by the closing
delimiter, neither of which is an operator. -/

/-- Items after the first one, each with a comma before it. -/
def moreWords (wss : List (List Word)) : List Word := wss.flatMap ([.sign .comma] ++ ·)

/-- A comma or the closing delimiter ends an item. -/
theorem ends_moreWords (wss : List (List Word)) (hrest : (firstKind rest).closes) :
    (firstKind (moreWords wss ++ rest)).ends := by
  cases wss with
  | nil => exact ends_of_closes hrest
  | cons ws wss => rfl

/-- Items behind commas, up to the delimiter. -/
theorem reads_moreItems_words {es : List Expr} (h : ∀ e ∈ es, Resumes e)
    (hrest : (firstKind rest).closes) (w : List Word)
    (hw : w.tail = moreWords (es.map Expr.words) ++ rest) :
    ∃ w', w'.tail = rest ∧ Reads (.moreItems es) w w' := by
  induction es generalizing w with
  | nil =>
    obtain rfl : w.tail = rest := hw
    exact ⟨w, rfl, .noMoreItems (ne_comma_of_closes hrest)⟩
  | cons e es ih =>
    obtain ⟨he, hes⟩ := List.forall_mem_cons.mp h
    obtain ⟨w₁, hw₁, hread⟩ := he.reads_lowest _ (ends_moreWords (es.map Expr.words) hrest)
    obtain ⟨w', hw', hmore⟩ := ih hes w₁ hw₁
    have hwords : w.tail =
      .sign .comma :: (e.words ++ (moreWords (es.map Expr.words) ++ rest)) := by
      rw [hw]
      simp [moreWords]
    refine ⟨w', hw', .moreItems (by rw [hwords]; rfl) ?_ hmore⟩
    rw [hwords]
    exact hread

/-- **Items between delimiters.** -/
theorem reads_items {es : List Expr} {close : TokenKind} (h : ∀ e ∈ es, Resumes e)
    (hclose : close.closes) (hrest : firstKind rest = close) (w : List Word)
    (hw : w.tail = commas (es.map Expr.words) ++ rest) : Reads (.items close es) w rest := by
  cases es with
  | nil =>
    obtain rfl : w.tail = rest := hw
    exact .noItems hrest
  | cons e es =>
    obtain ⟨he, hes⟩ := List.forall_mem_cons.mp h
    rw [← hrest] at hclose
    rw [commas, List.map_cons, intercalate_cons, List.append_assoc] at hw
    obtain ⟨w₁, hw₁, hread⟩ := he.reads_lowest _ (ends_moreWords (es.map Expr.words) hclose)
    obtain ⟨w₂, rfl, hmore⟩ := reads_moreItems_words hes hclose w₁ hw₁
    have hfirst : Reads (.expression .lowest e) w.tail w₁ := by
      rw [hw]
      exact hread
    exact .items (hrest ▸ hfirst.ne_close hclose) hfirst hmore hrest

/-- **Pairs between braces.** -/
theorem reads_pairs {ps : List (Expr × Expr)} (h : ∀ p ∈ ps, Resumes p.1 ∧ Resumes p.2)
    (hrest : firstKind rest = .rightBrace) (w : List Word)
    (hw : w.tail = commas (ps.map pairWords) ++ rest) :
    ∃ w', w'.tail = rest ∧ Reads (.pairs ps) w w' := by
  induction ps generalizing w with
  | nil =>
    obtain rfl : w.tail = rest := hw
    exact ⟨w, rfl, .noPairs hrest⟩
  | cons p ps ih =>
    obtain ⟨⟨hk, hv⟩, hps⟩ := List.forall_mem_cons.mp h
    have hends : (firstKind (moreWords (ps.map pairWords) ++ rest)).ends :=
      ends_moreWords _ (by rw [hrest]; rfl)
    obtain ⟨w₂, hw₂, hreadv⟩ := hv.reads_lowest _ hends
    obtain ⟨w₁, hw₁, hreadk⟩ := hk.reads_lowest
      (.sign .colon :: (p.2.words ++ (moreWords (ps.map pairWords) ++ rest))) rfl
    rw [commas, List.map_cons, intercalate_cons, pairWords, List.append_assoc, List.append_assoc,
      List.cons_append] at hw
    have hkey : Reads (.expression .lowest p.1) w.tail w₁ := by
      rw [hw]
      exact hreadk
    have hvalue : Reads (.expression .lowest p.2) w₁.tail.tail w₂ := by
      rw [hw₁]
      exact hreadv
    have hcolon : firstKind w₁.tail = .colon := by rw [hw₁]; rfl
    -- What follows the value tells whether this is the last pair.
    cases ps with
    | nil =>
      obtain rfl : w₂.tail = rest := hw₂
      exact ⟨w₂, rfl, .lastPair (hkey.ne_close rfl) hkey hcolon hvalue hrest⟩
    | cons q ps =>
      have hcomma : w₂.tail = .sign .comma :: (commas ((q :: ps).map pairWords) ++ rest) := by
        rw [hw₂, commas, List.map_cons, intercalate_cons]
        simp [moreWords]
      obtain ⟨w', hw', hmore⟩ := ih hps w₂.tail (by rw [hcomma]; rfl)
      exact ⟨w', hw', .pair (hkey.ne_close rfl) hkey hcolon hvalue (by rw [hcomma]; rfl) hmore⟩

/-- A parameter is read from its words. -/
theorem reads_param (p : Param) (rest : List Word) :
    Reads (.param p) (p.words ++ rest) (.name p.name :: rest) := by
  obtain ⟨name, variadic⟩ := p
  cases variadic with
  | false => exact .param
  | true => exact .variadic rfl rfl

/-- Parameters behind commas. -/
theorem reads_moreParams {ps : List Param} (hrest : (firstKind rest).closes) (w : List Word)
    (hw : w.tail = moreWords (ps.map Param.words) ++ rest) :
    ∃ w', w'.tail = rest ∧ Reads (.moreParams ps) w w' := by
  induction ps generalizing w with
  | nil =>
    obtain rfl : w.tail = rest := hw
    exact ⟨w, rfl, .noMoreParams (ne_comma_of_closes hrest)⟩
  | cons p ps ih =>
    have hread := reads_param p (moreWords (ps.map Param.words) ++ rest)
    obtain ⟨w', hw', hmore⟩ := ih (.name p.name :: (moreWords (ps.map Param.words) ++ rest)) rfl
    have hwords : w.tail =
      .sign .comma :: (p.words ++ (moreWords (ps.map Param.words) ++ rest)) := by
      rw [hw]
      simp [moreWords]
    refine ⟨w', hw', .moreParams (by rw [hwords]; rfl) ?_ hmore⟩
    rw [hwords]
    exact hread

/-- **Parameters between parentheses.** -/
theorem reads_params {ps : List Param} (hrest : firstKind rest = .rightParen) (w : List Word)
    (hw : w.tail = commas (ps.map Param.words) ++ rest) : Reads (.params ps) w rest := by
  cases ps with
  | nil =>
    obtain rfl : w.tail = rest := hw
    exact .noParams hrest
  | cons p ps =>
    rw [commas, List.map_cons, intercalate_cons, List.append_assoc] at hw
    have hread := reads_param p (moreWords (ps.map Param.words) ++ rest)
    obtain ⟨w', rfl, hmore⟩ := reads_moreParams (by rw [hrest]; rfl)
      (.name p.name :: (moreWords (ps.map Param.words) ++ rest)) rfl
    refine .params ?_ ?_ hmore hrest
    · rw [hw]
      obtain ⟨name, variadic⟩ := p
      cases variadic <;> simp [Param.words, Word.kind]
    · rw [hw]
      exact hread

/-! ## Literals, calls and conditionals

Between delimiters an expression is over at the closing one.  A conditional is the exception among
expressions, since an `else` behind it would carry it on. -/

/-- **A call** is the only operator that is printed without parentheses, so what it calls is carried
on by it. -/
theorem resumes_call {f : Expr} {args : List Expr} (hf : Resumes f)
    (hargs : ∀ e ∈ args, Resumes e) : Resumes (.call f args) := by
  intro limit rest hlimit _
  obtain ⟨wf, hwf, hread⟩ := hf limit (.sign .leftParen ::
    (commas (args.map Expr.words) ++ .sign .rightParen :: rest)) hlimit (by simp)
  have hof : Extension.of (firstKind wf.tail) = some (.call, .call) := by rw [hwf]; rfl
  have hclose : firstKind (.sign .rightParen :: rest) = .rightParen := rfl
  have hitems := reads_items hargs rfl hclose wf.tail (by rw [hwf]; rfl)
  refine ⟨.sign .rightParen :: rest, rfl, fun e' ws' he => ?_⟩
  have hcall := hread e' ws' (.call hof hlimit hitems he)
  simpa [Expr.words, exprsWords_eq_map] using hcall

/-- An array literal can be carried on behind its bracket. -/
theorem resumes_array {es : List Expr} (h : ∀ e ∈ es, Resumes e) : Resumes (.array es) := by
  refine resumes_leading fun rest _ => ⟨.sign .rightBracket :: rest, rfl, ?_⟩
  have hclose : firstKind (.sign .rightBracket :: rest) = .rightBracket := rfl
  have hitems := reads_items h rfl hclose
    (.sign .leftBracket :: (commas (es.map Expr.words) ++ .sign .rightBracket :: rest)) rfl
  have harray := Reads.array rfl hitems
  simpa [Expr.words, exprsWords_eq_map] using harray

/-- A hash literal can be carried on behind its brace. -/
theorem resumes_hash {ps : List (Expr × Expr)} (h : ∀ p ∈ ps, Resumes p.1 ∧ Resumes p.2) :
    Resumes (.hash ps) := by
  refine resumes_leading fun rest _ => ?_
  have hclose : firstKind (.sign .rightBrace :: rest) = .rightBrace := rfl
  obtain ⟨w, hw, hpairs⟩ := reads_pairs h hclose (.sign .leftBrace ::
    (commas (ps.map pairWords) ++ .sign .rightBrace :: rest)) rfl
  have hhash := Reads.hash rfl hpairs (by rw [hw]; rfl)
  refine ⟨w.tail, by rw [hw]; rfl, ?_⟩
  simpa [Expr.words, pairsWords_eq_map, bracedWords] using hhash

end Scriptlet
