import Scriptlet.Proofs.Eval.Literals
import Scriptlet.Proofs.Grammar.Complete
import Scriptlet.Proofs.Render.RoundTrip

/-!
# Proofs/Render/Data — displayed data evaluates back to itself

The text that shows a piece of data inside another one is the literal of it.  A negative integer is
written as a minus sign before a number and read as the negation of that number, and the entries of
a hash are written in the order of their texts; still the literal is evaluated to the same data.

The parentheses around the text are there for hashes: at the beginning of a statement, braces may be
those of a block.
-/

namespace Scriptlet

variable {α : Type} {as : List α}

/-- The text is lexed into the words, and the grammar makes the expression of them. -/
structure ReadAs (text : String) (e : Expr) (ws : List Word) : Prop where
  spells : Spells text ws
  derives : Derives (.expression .assignment e) ws

/-! ## Integers, booleans and strings

A plain value is written as its literal; a negative integer is written with a minus sign, which is
an operator before a literal. -/

/-- A primary expression stands wherever an expression may. -/
theorem derives_of_primary {e : Expr} {ws : List Word} (h : Derives (.expression .primary e) ws) :
    Derives (.expression .assignment e) ws :=
  h.loosen (by decide)

/-- A truth value is its own literal. -/
theorem readAs_boolean (b : Bool) :
    ReadAs (Value.boolean b).inspect (.boolean b) (Expr.boolean b).words := by
  cases b with
  | true => exact ⟨fun _ hapart => wordsOf_true hapart, derives_of_primary .trueWord⟩
  | false => exact ⟨fun _ hapart => wordsOf_false hapart, derives_of_primary .falseWord⟩

/-- So is a string of characters that reading knows. -/
theorem readAs_string {s : String} (h : ∀ c ∈ s.toList, Text.IsPlain c) :
    ReadAs (Value.string s).inspect (.string s) [.string s] :=
  ⟨fun rest _ => wordsOf_quote h rest, derives_of_primary .string⟩

section Integers

variable {k : Nat} (hk : k < Parse.integerLimit)
include hk

/-- A number that is not negative is its own literal. -/
theorem readAs_natural : ReadAs (toString k) (.integer (Int64.ofNat k)) [.integer k] :=
  ⟨fun _ hapart => wordsOf_toString k hapart, derives_of_primary (.integer hk)⟩

/-- A negative one is written as a negation. -/
theorem readAs_negative :
    ReadAs ("-" ++ toString k) (.unary .neg (.integer (Int64.ofNat k)))
      [.sign .minus, .integer k] := by
  have hnumber : Derives (.expression .unary (.integer (Int64.ofNat k))) [.integer k] :=
    (Derives.integer hk).loosen (by decide)
  have hnegation : Derives (.expression .unary (.unary .neg (.integer (Int64.ofNat k))))
      [.sign .minus, .integer k] := .unary hnumber
  exact ⟨(readAs_natural hk).spells.prefixed .neg (begins_toString k),
    hnegation.loosen (by decide)⟩

end Integers

/-- A negative integer is the negation of a number, unless it is the smallest one. -/
theorem exists_neg_ofNat {n : Int64} (h : n ≠ Int64.minValue) (hneg : ¬ 0 ≤ n) :
    ∃ k, k < Parse.integerLimit ∧ n = -Int64.ofNat k ∧ toString n.toInt = "-" ++ toString k := by
  have hlt : n.toInt < 0 := by
    rwa [Int64.le_iff_toInt_le, Int64.toInt_zero, Int.not_le] at hneg
  obtain ⟨j, hj⟩ := Int.eq_negSucc_of_lt_zero hlt
  have hmin : n.toInt ≠ Int64.minValue.toInt := fun heq => h (Int64.toInt_inj.mp heq)
  have hk : j + 1 < Parse.integerLimit := by
    have hle := Int64.le_toInt n
    have hvalue : Int64.minValue.toInt = -2 ^ 63 := rfl
    unfold Parse.integerLimit
    omega
  -- The digits of a negative integer are those of its absolute value, which is a number too.
  refine ⟨j + 1, hk, ?_, by rw [hj]; rfl⟩
  calc n = Int64.ofInt n.toInt := (Int64.ofInt_toInt n).symm
    _ = Int64.ofInt (-(j + 1 : Nat)) := by rw [hj]; rfl
    _ = -Int64.ofNat (j + 1) := by rw [Int64.ofInt_neg, Int64.ofInt_eq_ofNat]

/-- **The text of an integer** is read as a number or the negation of one. -/
theorem integer_readAs {n : Int64} (h : n ≠ Int64.minValue) :
    ∃ e ws, ReadAs (Value.integer n).inspect e ws ∧ e.Evaluates (.integer n) := by
  rw [Value.inspect_integer]
  by_cases hn : 0 ≤ n
  · rw [toString_toInt hn]
    refine ⟨_, _, readAs_natural (toNat_lt n), ?_⟩
    rw [ofNat_toNat hn]
    exact evaluates_integer n
  · obtain ⟨k, hk, rfl, htext⟩ := exists_neg_ofNat h hn
    rw [htext]
    exact ⟨_, _, readAs_negative hk, evaluates_neg (evaluates_integer _)⟩

/-! ## Arrays and hashes

The elements are written one after another and so are the entries, in the order of their texts; the
literal makes a hash of the same entries, whatever their order. -/

/-- A comma stands between the first two lists of words. -/
theorem commas_cons_cons (ws ws' : List Word) (wss : List (List Word)) :
    commas (ws :: ws' :: wss) = ws ++ .sign .comma :: commas (ws' :: wss) := by
  simp [commas, List.intercalate_cons_cons]

/-- The grammar derives a list of items from the literals of its elements. -/
theorem derives_items {literal : α → Expr} {ws : α → List Word}
    (h : ∀ a ∈ as, Derives (.expression .assignment (literal a)) (ws a)) :
    Derives (.items (as.map literal)) (commas (as.map ws)) := by
  induction as with
  | nil => exact .noItems
  | cons a as ih =>
    obtain ⟨ha, has⟩ := List.forall_mem_cons.mp h
    have hmore := ih has
    cases as with
    | nil => simpa [commas] using Derives.lastItem ha
    | cons a' as =>
      simp only [List.map_cons, commas_cons_cons] at hmore ⊢
      exact .item ha hmore

/-- An array literal, element by element. -/
theorem readAs_array {text : α → String} {literal : α → Expr} {ws : α → List Word}
    (h : ∀ a ∈ as, ReadAs (text a) (literal a) (ws a)) :
    ReadAs ("[" ++ separated ", " (as.map text) ++ "]") (.array (as.map literal))
      (.sign .leftBracket :: (commas (as.map ws) ++ [.sign .rightBracket])) :=
  ⟨spells_bracketed fun a ha => (h a ha).spells,
    derives_of_primary (.array (derives_items fun a ha => (h a ha).derives))⟩

/-- A key and a value are read as the parts of a literal. -/
structure ReadAsEntry (p : HashEntry) (l : Expr × Expr) (ws : List Word × List Word) :
    Prop where
  key : ReadAs p.2.key.inspect l.1 ws.1
  value : ReadAs p.2.value.inspect l.2 ws.2

/-- The words of a key and a value. -/
def entryWords (ws : List Word × List Word) : List Word := ws.1 ++ .sign .colon :: ws.2

/-- A key and a value are lexed into their words. -/
theorem spells_entry {p : HashEntry} {l : Expr × Expr} {ws : List Word × List Word}
    (h : ReadAsEntry p l ws) : Spells (inspectEntry p) (entryWords ws) :=
  spells_colon h.key.spells h.value.spells

variable {ps : List HashEntry} {literal : HashEntry → Expr × Expr}
  {ws : HashEntry → List Word × List Word}

/-- The grammar derives the pairs of a hash literal from the literals of its entries. -/
theorem derives_pairs (h : ∀ p ∈ ps, ReadAsEntry p (literal p) (ws p)) :
    Derives (.pairs (ps.map literal)) (commas (ps.map fun p => entryWords (ws p))) := by
  induction ps with
  | nil => exact .noPairs
  | cons p ps ih =>
    obtain ⟨hp, hps⟩ := List.forall_mem_cons.mp h
    have hmore := ih hps
    cases ps with
    | nil => simpa [commas, entryWords] using Derives.lastPair hp.key.derives hp.value.derives
    | cons q ps =>
      simp only [List.map_cons, commas_cons_cons] at hmore ⊢
      rw [entryWords, List.append_assoc, List.cons_append]
      exact .pair hp.key.derives hp.value.derives hmore

/-- A hash literal, entry by entry, in the order in which they are shown. -/
theorem readAs_hash (h : ∀ p ∈ ps, ReadAsEntry p (literal p) (ws p)) :
    ReadAs ("\x7b" ++ separated ", " (ps.map inspectEntry) ++ "\x7d") (.hash (ps.map literal))
      (bracedWords (commas (ps.map fun p => entryWords (ws p)))) :=
  ⟨spells_bracedCommas fun p hp => spells_entry (h p hp),
    derives_of_primary (.hash (derives_pairs h))⟩

/-! ## All data

All together, by induction on the data. -/

/-- The text of the value is a literal of it. -/
def Value.IsWritten (v : Value) : Prop :=
  ∃ e ws, ReadAs v.inspect e ws ∧ e.Evaluates v

theorem isWritten_string {s : String} (h : ∀ c ∈ s.toList, Text.IsPlain c) :
    (Value.string s).IsWritten :=
  ⟨_, _, readAs_string h, evaluates_string s⟩

theorem isWritten_boolean (b : Bool) : (Value.boolean b).IsWritten :=
  ⟨_, _, readAs_boolean b, evaluates_boolean b⟩

/-- Data that holds no other is a literal. -/
theorem isWritten_plain {v : Value} (h : v.isData) (hplain : v.isPlain) : v.IsWritten := by
  cases v with
  | integer n => exact integer_readAs (of_decide_eq_true h)
  | boolean b => exact isWritten_boolean b
  | string s => exact isWritten_string (by simpa [Value.isData] using h)
  | null | builtin => cases h
  | array | hash | function | error => cases hplain

/-- An array is written down if its elements are. -/
theorem isWritten_array {es : List Value} (h : ∀ e ∈ es, e.IsWritten) (i : Identity) :
    (Value.array i es).IsWritten := by
  choose! literal ws hread hevaluates using h
  have harray := readAs_array hread
  rw [← inspectElements_eq, ← Value.inspect_array i] at harray
  exact ⟨_, _, harray, evaluates_array hevaluates i⟩

/-- A hash is written down if its keys and values are; the literal has the entries in another order,
and makes the same finite map. -/
theorem isWritten_hash {ps : List HashEntry} (hkeyed : WellKeyed ps)
    (h : ∀ p ∈ ps, p.2.All Value.IsWritten) (i : Identity) : (Value.hash i ps).IsWritten := by
  -- The literal has the entries in the order in which they are shown.
  have hperm := shownEntries_perm ps
  have hentry : ∀ p ∈ shownEntries ps, ∃ l ws, ReadAsEntry p l ws ∧
      l.1.Evaluates p.2.key ∧ l.2.Evaluates p.2.value := by
    intro p hp
    obtain ⟨⟨k, kws, hk, hevaluatesk⟩, v, vws, hv, hevaluatesv⟩ := h p (hperm.mem_iff.mp hp)
    exact ⟨(k, v), (kws, vws), ⟨hk, hv⟩, hevaluatesk, hevaluatesv⟩
  choose! literal ws hread hevaluates using hentry
  have hhash := readAs_hash hread
  rw [← Value.inspect_hash_shown i] at hhash
  exact ⟨_, _, hhash, evaluates_hash hevaluates (hkeyed.perm hperm.symm) hperm i⟩

/-- **Data is written down by its text.** -/
theorem Value.isWritten {v : Value} (h : v.isData) : v.IsWritten := by
  induction v using Value.induct with
  | plain v hplain => exact isWritten_plain h hplain
  | error | function => cases h
  | array i es ih => exact isWritten_array (fun e he => ih e he (isData_array.mp h e he)) i
  | hash i ps ih =>
    obtain ⟨hkeyed, hps⟩ := isData_hash.mp h
    refine isWritten_hash hkeyed (fun p hp => ⟨?_, ?_⟩) i
    · exact (ih p hp).key (hps p hp).key
    · exact (ih p hp).value (hps p hp).value

/-- Between parentheses a literal is the one statement of a program, whatever it begins with. -/
theorem parse_parenthesized {text : String} {e : Expr} {ws : List Word} (h : ReadAs text e ws) :
    parse ("(" ++ text ++ ")") = ⟨[.expr e], []⟩ := by
  have hwords : wordsOf ("(" ++ text ++ ")").toList =
      .sign .leftParen :: (ws ++ [.sign .rightParen]) := by
    have htext : ("(" ++ text ++ ")").toList = '(' :: (text.toList ++ ')' :: []) := by simp
    rw [htext, wordsOf_leftParen, h.spells _ rfl, wordsOf_rightParen, wordsOf_nil]
  have hread := (derives_of_primary (.grouped h.derives)).reads_program nofun
  rw [← hwords] at hread
  exact (parseStream_iff rfl).mpr hread

/-- **Displayed data evaluates back to itself.**  The text of a piece of data between parentheses is
read without errors and, wherever it is evaluated, gives data that is equal to it and changes no
binding. -/
theorem Value.displayed_evaluates (v : Value) (h : v.isData) :
    (parse ("(" ++ v.inspect ++ ")")).errors = [] ∧
      ∀ (limits : Limits) (scope : ScopeId) (m : Machine), ∃ v' m',
        Program.Ends limits scope (parse ("(" ++ v.inspect ++ ")")).program m (.done (some v') m') ∧
          v.Equal v' ∧ m.OnlyMade m' := by
  obtain ⟨e, ws, hread, hevaluates⟩ := isWritten h
  rw [parse_parenthesized hread]
  refine ⟨rfl, fun limits scope m => ?_⟩
  obtain ⟨v', m', hgives, hequal, hmade⟩ := hevaluates limits scope m
  exact ⟨v', m', .of_expr hgives, hequal, hmade⟩

/-- A hash with keys of each kind, which are not in the order in which they are shown. -/
def record : Value :=
  .hash 0 (setEntry (.boolean false) (.string "\x7b")
    (setEntry (.integer (-9223372036854775807)) (.boolean true)
      (setEntry (.string "say\t\"hi\"") (.array 1 [.integer (-7), .hash 2 [], .string "\\"]) [])))

/-- The record comes back. -/
theorem record_displayed_evaluates :
    record.isData ∧ (parse ("(" ++ record.inspect ++ ")")).errors = [] ∧
      ∀ (limits : Limits) (scope : ScopeId) (m : Machine), ∃ v' m', Program.Ends limits scope
        (parse ("(" ++ record.inspect ++ ")")).program m (.done (some v') m') ∧
          record.Equal v' ∧ m.OnlyMade m' := by
  have hdata : record.isData := by decide +kernel
  exact ⟨hdata, record.displayed_evaluates hdata⟩

end Scriptlet
