import Scriptlet.Proofs.Parse.Reading

/-!
# Proofs/Grammar/Basic — the layered grammar of expressions

The grammar has a level for each operator strength.  A level is made of the next tighter one, and of
its own operators between operands; that an operator associates to the left is seen from its left
operand, which may be of the level itself.

Nothing here knows of limits or positions: a derivation is of a form and of exactly its words.
-/

namespace Scriptlet

/-- The levels of the grammar, loosest first. -/
inductive Level where
  | assignment
  | equality
  | comparison
  | sum
  | product
  | unary
  /-- Calls and indexes. -/
  | suffixed
  | primary
  deriving DecidableEq, Repr

namespace Level

/-- The place of a level in the order, from 1. -/
def rank : Level → Nat
  | assignment => 1
  | equality => 2
  | comparison => 3
  | sum => 4
  | product => 5
  | unary => 6
  | suffixed => 7
  | primary => 8

/-- The level that this one is made of. -/
def tighter : Level → Level
  | assignment => equality
  | equality => comparison
  | comparison => sum
  | sum => product
  | product => unary
  | unary => suffixed
  | suffixed => primary
  | primary => primary

theorem eq_of_rank {level level' : Level} (h : level.rank = level'.rank) : level = level' := by
  cases level <;> cases level' <;> first | rfl | cases h

/-- The next tighter level comes later, but for the tightest one. -/
theorem rank_le_tighter (level : Level) : level.rank ≤ level.tighter.rank := by
  cases level <;> decide

/-- Where there is a tighter level, the next one is one place later. -/
theorem rank_tighter {level level' : Level} (h : level.rank < level'.rank) :
    level.tighter.rank = level.rank + 1 := by
  cases level with
  | primary => cases level' <;> cases h <;> contradiction
  | _ => rfl

end Level

/-- The level that an operator makes. -/
def InfixOp.level : InfixOp → Level
  | assign => .assignment
  | add | sub => .sum
  | mul | div => .product
  | less | greater => .comparison
  | equal | notEqual => .equality

/-- What the grammar derives. -/
inductive Form where
  | expression (level : Level) (e : Expr)
  /-- Arguments or elements, with commas between them. -/
  | items (es : List Expr)
  /-- The pairs of a hash literal, with commas between them and perhaps one after the last. -/
  | pairs (ps : List (Expr × Expr))

/-- The grammar derives the form from the words. -/
inductive Derives : Form → List Word → Prop
  | tighter (h : Derives (.expression level.tighter e) ws) : Derives (.expression level e) ws
  | assign (hl : Derives (.expression .equality l) ls)
      (hr : Derives (.expression .assignment r) rs) :
    Derives (.expression .assignment (.binary .assign l r)) (ls ++ .sign .assign :: rs)
  | binary (hop : op ≠ .assign) (hl : Derives (.expression op.level l) ls)
    (hr : Derives (.expression op.level.tighter r) rs) :
    Derives (.expression op.level (.binary op l r)) (ls ++ .sign op.kind :: rs)
  | unary (h : Derives (.expression .unary e) ws) :
    Derives (.expression .unary (.unary op e)) (.sign op.kind :: ws)
  | call (hf : Derives (.expression .suffixed f) fs) (hes : Derives (.items es) ws) :
    Derives (.expression .suffixed (.call f es))
      (fs ++ .sign .leftParen :: (ws ++ [.sign .rightParen]))
  | index (he : Derives (.expression .suffixed e) ws)
      (hk : Derives (.expression .assignment k) ks) :
    Derives (.expression .suffixed (.index e k))
      (ws ++ .sign .leftBracket :: (ks ++ [.sign .rightBracket]))
  | ident : Derives (.expression .primary (.ident x)) [.name x]
  | integer (hn : n < Parse.integerLimit) :
    Derives (.expression .primary (.integer (Int64.ofNat n))) [.integer n]
  | string : Derives (.expression .primary (.string x)) [.string x]
  | trueWord : Derives (.expression .primary (.boolean true)) [.sign .trueWord]
  | falseWord : Derives (.expression .primary (.boolean false)) [.sign .falseWord]
  | grouped (h : Derives (.expression .assignment e) ws) :
    Derives (.expression .primary e) (.sign .leftParen :: (ws ++ [.sign .rightParen]))
  | array (h : Derives (.items es) ws) :
    Derives (.expression .primary (.array es))
      (.sign .leftBracket :: (ws ++ [.sign .rightBracket]))
  | hash (h : Derives (.pairs ps) ws) :
    Derives (.expression .primary (.hash ps)) (.sign .leftBrace :: (ws ++ [.sign .rightBrace]))
  | noItems : Derives (.items []) []
  | lastItem (h : Derives (.expression .assignment e) ws) : Derives (.items [e]) ws
  | item (h : Derives (.expression .assignment e) ws) (hes : Derives (.items (e' :: es)) ws') :
    Derives (.items (e :: e' :: es)) (ws ++ .sign .comma :: ws')
  | noPairs : Derives (.pairs []) []
  | lastPair (hk : Derives (.expression .assignment k) ks)
    (hv : Derives (.expression .assignment v) vs) :
    Derives (.pairs [(k, v)]) (ks ++ .sign .colon :: vs)
  | pair (hk : Derives (.expression .assignment k) ks)
    (hv : Derives (.expression .assignment v) vs) (hps : Derives (.pairs ps) ws) :
    Derives (.pairs ((k, v) :: ps)) (ks ++ .sign .colon :: (vs ++ .sign .comma :: ws))

/-- The grammar is about words of this kind. -/
def TokenKind.inGrammar : TokenKind → Bool
  | .identifier | .integer | .string | .trueWord | .falseWord => true
  | .assign | .equal | .notEqual | .less | .greater => true
  | .plus | .minus | .asterisk | .slash | .bang => true
  | .leftParen | .rightParen | .leftBracket | .rightBracket | .leftBrace | .rightBrace => true
  | .comma | .colon => true
  | _ => false

/-! ## Levels and limits

The grammar has levels and the parser has limits.  Both are ranked by numbers, so that to compare a
level with a limit is to compare two numbers. -/

/-- **What is tight enough for a level is so for the looser ones.** -/
theorem Derives.loosen {level level' : Level} {e : Expr} {ws : List Word}
    (h : Derives (.expression level' e) ws) (hle : level.rank ≤ level'.rank) :
    Derives (.expression level e) ws := by
  rcases Nat.eq_or_lt_of_le hle with heq | hlt
  · rwa [Level.eq_of_rank heq]
  · have hrank := Level.rank_tighter hlt
    exact .tighter (h.loosen (by omega))
termination_by level'.rank - level.rank

/-- The loosest level that a limit admits. -/
def Precedence.level : Precedence → Level
  | lowest => .assignment
  | assign => .equality
  | equality => .comparison
  | comparison => .sum
  | sum => .product
  | _ => .unary

/-- The level that an operator needs on its left. -/
def Precedence.leftLevel : Precedence → Level
  | lowest | assign | equality => .equality
  | comparison => .comparison
  | sum => .sum
  | product => .product
  | unary => .unary
  | call | index => .suffixed

/-- The words go on with nothing that would be part of the level. -/
def Follows (level : Level) (ws : List Word) : Prop :=
  ∀ strength how, Extension.of (firstKind ws) = some (strength, how) →
    strength.leftLevel.rank ≤ level.rank

namespace Precedence

/-! Limits and levels are two ways to say how tightly an expression binds; in numbers the one is the
other up to the ends of the scales, so the facts below are facts about places. -/

theorem lt_iff {p q : Precedence} : p < q ↔ p.rank < q.rank := Iff.rfl

/-- The level of a limit, in places: assignments come in only at the lowest limit, and nothing is
tighter than a suffixed expression. -/
theorem rank_level (limit : Precedence) : limit.level.rank = min (limit.rank + 1) 6 := by
  cases limit <;> rfl

/-- The level on the left of an operator, in places. -/
theorem rank_leftLevel (strength : Precedence) :
    strength.leftLevel.rank = max 2 (min strength.rank 7) := by
  cases strength <;> rfl

end Precedence

namespace InfixOp

variable {op : InfixOp}

theorem rank_level (op : InfixOp) : op.level.rank = op.strength.rank := by
  cases op <;> rfl

/-- Operators between operands bind less tightly than a prefix. -/
theorem rank_strength_le (op : InfixOp) : op.strength.rank ≤ 5 := by
  cases op <;> decide

theorem two_le_rank_strength (hop : op ≠ .assign) : 2 ≤ op.strength.rank := by
  cases op <;> first | decide | exact absurd rfl hop

/-- **Operators but assignment associate to the left**: a left operand may be of the level itself.
-/
theorem leftLevel_strength (hop : op ≠ .assign) : op.strength.leftLevel = op.level := by
  cases op <;> first | rfl | exact absurd rfl hop

theorem level_strength (op : InfixOp) : op.strength.level = op.level.tighter := by
  cases op <;> rfl

/-- What is read behind an operator ends where the next one binds no tighter. -/
theorem rightLimit_of_ne (hop : op ≠ .assign) (strength : Precedence) :
    op.rightLimit strength = strength := by
  cases op <;> first | rfl | exact absurd rfl hop

end InfixOp

theorem lowest_lt_of_extension {kind : TokenKind} {strength : Precedence} {how : Extension}
    (h : Extension.of kind = some (strength, how)) : .lowest < strength := by
  cases kind <;> cases h <;> decide

/-- A prefix expression is tight enough for every limit. -/
theorem rank_level_le_unary (limit : Precedence) : limit.level.rank ≤ Level.unary.rank := by
  rw [limit.rank_level]
  exact Nat.min_le_right _ _

theorem rank_level_le_suffixed (limit : Precedence) : limit.level.rank ≤ Level.suffixed.rank :=
  Nat.le_succ_of_le (rank_level_le_unary limit)

/-- What an operator makes is tight enough for a limit that it binds tighter than. -/
theorem le_rank_of_lt {limit : Precedence} {op : InfixOp} (h : limit < op.strength) :
    limit.level.rank ≤ op.level.rank := by
  rw [limit.rank_level, op.rank_level]
  rw [Precedence.lt_iff] at h
  omega

/-! ## What may follow

A phrase of a level ends where the next word is no operator of that level or a tighter one. -/

section Follows

variable {ws : List Word} {op : InfixOp}

/-- What may follow a loose level may follow a tight one. -/
theorem Follows.mono {level level' : Level} (h : Follows level ws)
    (hle : level.rank ≤ level'.rank) : Follows level' ws :=
  fun strength how hof => Nat.le_trans (h strength how hof) hle

/-- What is no operator may follow anything. -/
theorem follows_of_none {level : Level} (h : Extension.of (firstKind ws) = none) :
    Follows level ws := by
  intro strength how hof
  rw [h] at hof
  cases hof

/-- Any operator may follow a call or an index. -/
theorem follows_suffixed (ws : List Word) : Follows .suffixed ws := by
  intro strength how _
  have hrank := strength.rank_leftLevel
  have hgoal : strength.leftLevel.rank ≤ 7 := by omega
  exact hgoal

/-- Any operator may follow a primary expression. -/
theorem follows_primary (ws : List Word) : Follows .primary ws :=
  (follows_suffixed ws).mono (by decide)

/-- What stops an operand of a prefix may follow it. -/
theorem follows_unary (h : StopsAt .unary ws) : Follows .unary ws.tail := by
  intro strength how hof
  have hle : ¬ 6 < strength.rank := h strength how hof
  have hrank := strength.rank_leftLevel
  have hgoal : strength.leftLevel.rank ≤ 6 := by omega
  exact hgoal

/-- What an operator of the same strength stops may follow its level. -/
theorem follows_of_operator (hop : op ≠ .assign) (h : StopsAt op.strength ws) :
    Follows op.level ws.tail := by
  intro strength how hof
  have hle := h strength how hof
  have hrank := strength.rank_leftLevel
  have htwo := InfixOp.two_le_rank_strength hop
  rw [Precedence.lt_iff] at hle
  rw [op.rank_level]
  omega

/-- What stops at the lowest limit is no operator at all. -/
theorem follows_assignment (h : StopsAt .lowest ws) : Follows .assignment ws.tail :=
  fun strength how hof => absurd (lowest_lt_of_extension hof) (h strength how hof)

/-- At the end of a right operand, what follows may stand after the operator. -/
theorem follows_of_right (h : StopsAt (op.rightLimit op.strength) ws) :
    Follows op.level ws.tail := by
  by_cases hop : op = .assign
  · subst hop
    exact follows_assignment h
  · rw [InfixOp.rightLimit_of_ne hop] at h
    exact follows_of_operator hop h

end Follows

end Scriptlet
