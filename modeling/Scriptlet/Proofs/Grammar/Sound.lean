import Scriptlet.Proofs.Grammar.Basic

/-!
# Proofs/Grammar/Sound — what is read of the grammar's words, the grammar derives

An expression read with a limit is of the loosest level that the limit admits.  While operators are
read, what stands on their left is of some level, and what follows fits that level; this is the
invariant that ties the limits to the levels.
-/

namespace Scriptlet

/-- All the words are among those of the grammar. -/
def InGrammar (ws : List Word) : Prop := ∀ w ∈ ws, w.kind.inGrammar

/-- What is left of the grammar's words is of the grammar. -/
theorem InGrammar.suffix {ws ws' : List Word} (h : InGrammar ws) (hws : ws' <:+ ws) :
    InGrammar ws' :=
  fun w hw => h w (hws.subset hw)

theorem InGrammar.tail {ws : List Word} (h : InGrammar ws) : InGrammar ws.tail :=
  h.suffix (List.tail_suffix ws)

/-- A word of no other kind comes first. -/
theorem InGrammar.first {ws : List Word} (h : InGrammar ws) (hne : firstKind ws ≠ .endOfInput) :
    (firstKind ws).inGrammar := by
  cases ws with
  | nil => exact absurd rfl hne
  | cons w ws => exact h w (List.mem_cons_self ..)

/-- The words between the positions are derived as the phrase. -/
def Derived (ws ws' : List Word) : Phrase → Prop
  | .expression limit e =>
    ∃ c, ws = c ++ ws'.tail ∧ Derives (.expression limit.level e) c
  | .leading e =>
    ∃ level c, ws = c ++ ws'.tail ∧ Derives (.expression level e) c ∧ 6 ≤ level.rank ∧
      Follows level ws'.tail
  | .extended limit left e =>
    ∀ level c, limit.level.rank ≤ level.rank → Derives (.expression level left) c →
      Follows level ws.tail →
        ∃ c', ws.tail = c' ++ ws'.tail ∧ Derives (.expression limit.level e) (c ++ c')
  | .moreItems es =>
    (es = [] ∧ ws.tail = ws'.tail) ∨
      (es ≠ [] ∧ ∃ c, ws.tail = .sign .comma :: (c ++ ws'.tail) ∧ Derives (.items es) c)
  | .items close es => firstKind ws' = close ∧ ∃ c, ws.tail = c ++ ws' ∧ Derives (.items es) c
  | .pairs ps => ∃ c, ws.tail = c ++ ws'.tail ∧ Derives (.pairs ps) c
  | _ => True

/-! ## Steps

Each rule of the parser is answered by one of the grammar, with the level that is due at that point.
-/

/-- Words between two delimiters. -/
theorem enclosed {first last : Word} {ws w c : List Word} (hfirst : ws = first :: ws.tail)
    (hc : ws.tail = c ++ w) (hlast : w = last :: w.tail) :
    ws = first :: (c ++ [last]) ++ w.tail :=
  calc ws = first :: (c ++ w) := by rw [← hc]; exact hfirst
    _ = first :: (c ++ last :: w.tail) := by rw [← hlast]
    _ = first :: (c ++ [last]) ++ w.tail := by simp

/-- An operator between operands of the levels that the limits admit. -/
theorem Derives.operator {op : InfixOp} {level : Level} {l r : Expr} {ls rs : List Word}
    (hl : Derives (.expression level l) ls) (hlevel : op.strength.leftLevel.rank ≤ level.rank)
    (hr : Derives (.expression (op.rightLimit op.strength).level r) rs) :
    Derives (.expression op.level (.binary op l r)) (ls ++ .sign op.kind :: rs) := by
  have hleft := hl.loosen hlevel
  by_cases hop : op = .assign
  · subst hop
    exact .assign hleft hr
  · rw [InfixOp.leftLevel_strength hop] at hleft
    rw [InfixOp.rightLimit_of_ne hop, InfixOp.level_strength] at hr
    exact .binary hop hleft hr

/-- An item before others, which have a comma before the first of them. -/
theorem Derives.items_cons {e : Expr} {es : List Expr} {c r r' : List Word}
    (he : Derives (.expression .assignment e) c)
    (hes : (es = [] ∧ r = r') ∨
      (es ≠ [] ∧ ∃ c', r = .sign .comma :: (c' ++ r') ∧ Derives (.items es) c')) :
    ∃ c', c ++ r = c' ++ r' ∧ Derives (.items (e :: es)) c' := by
  rcases hes with ⟨rfl, rfl⟩ | ⟨hne, c', rfl, hes⟩
  · exact ⟨c, rfl, .lastItem he⟩
  · obtain ⟨e', es, rfl⟩ := List.exists_cons_of_ne_nil hne
    exact ⟨c ++ .sign .comma :: c', by simp, .item he hes⟩

/-- **What is read of the grammar's words, the grammar derives.** -/
theorem Reads.derived {p : Phrase} {ws ws' : List Word} (h : Reads p ws ws') :
    InGrammar ws → Derived ws ws' p := by
  -- The induction is on the reading; the words of a phrase are put together from those it passes
  -- and those of the phrases in it.
  induction h with
  | ident =>
    intro _
    exact ⟨.primary, [.name _], rfl, .ident, by decide, follows_primary _⟩
  | integer hn =>
    intro _
    exact ⟨.primary, [.integer _], rfl, .integer hn, by decide, follows_primary _⟩
  | string =>
    intro _
    exact ⟨.primary, [.string _], rfl, .string, by decide, follows_primary _⟩
  | trueWord h =>
    intro _
    exact ⟨.primary, [.sign .trueWord], sign_cons h rfl, .trueWord, by decide, follows_primary _⟩
  | falseWord h =>
    intro _
    exact ⟨.primary, [.sign .falseWord], sign_cons h rfl, .falseWord, by decide,
      follows_primary _⟩
  | unary h he ih =>
    intro hin
    obtain ⟨c, hc, hd⟩ := ih hin.tail
    refine ⟨.unary, _ :: c, ?_, .unary hd, by decide, follows_unary he.stopsAt⟩
    rw [List.cons_append, ← hc]
    exact sign_cons h (PrefixOp.isSign_kind _)
  | grouped h he h₁ ih =>
    intro hin
    obtain ⟨c, hc, hd⟩ := ih hin.tail
    exact ⟨.primary, _, enclosed (sign_cons h rfl) hc (sign_cons h₁ rfl), .grouped hd, by decide,
      follows_primary _⟩
  | array h hes ih =>
    intro hin
    obtain ⟨hclose, c, hc, hd⟩ := ih hin
    exact ⟨.primary, _, enclosed (sign_cons h rfl) hc (sign_cons hclose rfl), .array hd, by decide,
      follows_primary _⟩
  | hash h hps h₁ ih =>
    intro hin
    obtain ⟨c, hc, hd⟩ := ih hin
    exact ⟨.primary, _, enclosed (sign_cons h rfl) hc (sign_cons h₁ rfl), .hash hd, by decide,
      follows_primary _⟩
  | function h | conditional h =>
    intro hin
    have hfirst := hin.first (by rw [h]; nofun)
    rw [h] at hfirst
    cases hfirst
  | stop h =>
    intro _ level c hle hd _
    refine ⟨[], rfl, ?_⟩
    rw [List.append_nil]
    exact hd.loosen hle
  | binary h hlt hr he ihr ihe =>
    intro hin level c hle hd hf
    have hkind := InfixOp.kind_of_extension h
    obtain rfl := InfixOp.strength_of_extension h
    obtain ⟨cr, hcr, hdr⟩ := ihr hin.tail.tail
    have hlevel := le_rank_of_lt hlt
    obtain ⟨c', hc', hd'⟩ := ihe (hin.tail.tail.suffix hr.suffix) _ _ hlevel
      (hd.operator (hf _ _ h) hdr) (follows_of_right hr.stopsAt)
    refine ⟨.sign _ :: cr ++ c', ?_, by simpa using hd'⟩
    rw [sign_cons hkind (InfixOp.isSign_kind _), hcr, hc']
    simp
  | call h hlt has he ihas ihe =>
    intro hin level c hle hd hf
    obtain rfl := strength_of_call h
    obtain ⟨hclose, cs, hcs, hds⟩ := ihas hin.tail
    obtain ⟨c', hc', hd'⟩ := ihe (hin.tail.suffix has.suffix) _ _ (rank_level_le_suffixed _)
      (.call (hd.loosen (hf _ _ h)) hds) (follows_suffixed _)
    refine ⟨_ :: (cs ++ [_]) ++ c', ?_, by simpa using hd'⟩
    rw [List.append_assoc, ← hc']
    exact enclosed (sign_cons (kind_of_call h) rfl) hcs (sign_cons hclose rfl)
  | index h hlt hk h₁ he ihk ihe =>
    intro hin level c hle hd hf
    obtain rfl := strength_of_index h
    obtain ⟨ck, hck, hdk⟩ := ihk hin.tail.tail
    obtain ⟨c', hc', hd'⟩ := ihe (hin.tail.tail.suffix hk.suffix).tail _ _
      (rank_level_le_suffixed _) (.index (hd.loosen (hf _ _ h)) hdk) (follows_suffixed _)
    refine ⟨_ :: (ck ++ [_]) ++ c', ?_, by simpa using hd'⟩
    rw [List.append_assoc, ← hc']
    exact enclosed (sign_cons (kind_of_index h) rfl) hck (sign_cons h₁ rfl)
  | expression hl he ihl ihe =>
    intro hin
    obtain ⟨level, c, hc, hd, hsix, hf⟩ := ihl hin
    obtain ⟨c', hc', hd'⟩ := ihe (hin.suffix hl.suffix) level c
      (Nat.le_trans (rank_level_le_unary _) hsix) hd hf
    refine ⟨c ++ c', ?_, hd'⟩
    rw [hc, hc', List.append_assoc]
  | noMoreItems h =>
    intro _
    exact .inl ⟨rfl, rfl⟩
  | moreItems h he hes ihe ihes =>
    intro hin
    obtain ⟨c, hc, hd⟩ := ihe hin.tail.tail
    obtain ⟨c', hc', hd'⟩ := hd.items_cons (ihes (hin.tail.tail.suffix he.suffix))
    refine .inr ⟨List.cons_ne_nil _ _, c', ?_, hd'⟩
    rw [← hc', ← hc]
    exact sign_cons h rfl
  | noItems h =>
    intro _
    exact ⟨h, [], rfl, .noItems⟩
  | items h he hes h₂ ihe ihes =>
    intro hin
    obtain ⟨c, hc, hd⟩ := ihe hin.tail
    obtain ⟨c', hc', hd'⟩ := hd.items_cons (ihes (hin.tail.suffix he.suffix))
    exact ⟨h₂, c', hc.trans hc', hd'⟩
  | noPairs h =>
    intro _
    exact ⟨[], rfl, .noPairs⟩
  | lastPair h hk h₁ hv h₂ ihk ihv =>
    intro hin
    obtain ⟨ck, hck, hdk⟩ := ihk hin.tail
    obtain ⟨cv, hcv, hdv⟩ := ihv (hin.tail.suffix hk.suffix).tail.tail
    refine ⟨ck ++ .sign .colon :: cv, ?_, .lastPair hdk hdv⟩
    rw [hck, sign_cons h₁ rfl, hcv]
    simp
  | pair h hk h₁ hv h₂ hps ihk ihv ihps =>
    intro hin
    have hin₁ := (hin.tail.suffix hk.suffix).tail.tail
    obtain ⟨ck, hck, hdk⟩ := ihk hin.tail
    obtain ⟨cv, hcv, hdv⟩ := ihv hin₁
    obtain ⟨c, hc, hd⟩ := ihps (hin₁.suffix hv.suffix).tail
    refine ⟨ck ++ .sign .colon :: (cv ++ .sign .comma :: c), ?_, .pair hdk hdv hd⟩
    rw [hck, sign_cons h₁ rfl, hcv, sign_cons h₂ rfl, hc]
    simp
  | _ => exact fun _ => trivial

end Scriptlet
