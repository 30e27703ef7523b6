import Mathlib
import Scriptlet.Proofs.Render.Escapes
import Scriptlet.Proofs.Value.Data

/-!
# Proofs/Render/Canonical — what is shown inside an array or a hash can be told apart

*Content* is any nesting of arrays and hashes around integers, booleans, strings and null.  Two
pieces of content have one text exactly if they have one structure, where hashes are compared as
finite maps.

That equal structure gives equal texts comes from the order in which a hash is shown: it depends on
the texts of the entries only.  The other way round, a text is read from the front.  Its first
character tells the kind of the value, and each value ends at a place that its own text determines,
as long as no digit stands behind it: a string by its closing quote, which is written in no other
way inside the string, an array or a hash by the bracket that no element begins with.
-/

namespace Scriptlet

/-! ## Content and structure

Structure leaves identities out, and the order of entries; it is what a host can see of a value that
it has printed. -/

namespace Value

/-- **Content**: integers, booleans, strings and null, in any nesting of arrays and hashes.  A hash
has one entry for a key, which keeps that key. -/
inductive IsContent : Value → Prop
  | integer (n : Int64) : IsContent (.integer n)
  | boolean (b : Bool) : IsContent (.boolean b)
  | string (s : String) : IsContent (.string s)
  | null : IsContent .null
  | array (i : Identity) {es : List Value} : (∀ e ∈ es, IsContent e) → IsContent (.array i es)
  | hash (i : Identity) {ps : List HashEntry} : WellKeyed ps →
    (∀ p ∈ ps, IsContent p.2.value) → IsContent (.hash i ps)

/-- The values have one **structure**: they are put together in the same way from the same plain
values, identities aside.  Hashes are compared as finite maps. -/
inductive SameStructure : Value → Value → Prop
  | plain {v : Value} : v.isPlain → SameStructure v v
  | array {i j : Identity} {es fs : List Value} :
    List.Forall₂ SameStructure es fs → SameStructure (.array i es) (.array j fs)
  | hash {i j : Identity} {ps qs : List HashEntry} :
    (∀ key, Option.Rel (HashPair.Rel SameStructure) (ps.lookup key) (qs.lookup key)) →
      SameStructure (.hash i ps) (.hash j qs)

variable {v w : Value}

/-- A plain value has the structure of itself only. -/
theorem SameStructure.eq_of_plain (hv : v.isPlain) (h : v.SameStructure w) : v = w := by
  cases h with
  | plain => rfl
  | array | hash => cases hv

/-- A key is content of its own. -/
theorem isContent_of_hashKey? {k : HashKey} (h : v.hashKey? = some k) : v.IsContent := by
  cases v with
  | integer n => exact .integer n
  | boolean b => exact .boolean b
  | string s => exact .string s
  | _ => cases h

theorem isPlain_of_hashKey? {k : HashKey} (h : v.hashKey? = some k) : v.isPlain := by
  cases v <;> first | rfl | cases h

end Value

/-! ## The beginning of a text

Each kind of content begins with a character of its own: a digit or a minus sign, a letter of a
keyword, a quote, a bracket or a brace.  So two texts that are equal are of values of one kind. -/

/-- The kind of the content whose text begins with a character. -/
def kindOpenedBy (c : Char) : ValueKind :=
  match c with
  | '"' => .string
  | '[' => .array
  | '\x7b' => .hash
  | 'n' => .null
  | 't' | 'f' => .boolean
  | c => if c = '-' ∨ c.isDigit then .integer else .error

/-- An integer is written with these characters. -/
def isNumeric (c : Char) : Bool := c == '-' || c.isDigit

/-- The text of an integer is digits, with a minus sign perhaps. -/
theorem isNumeric_toString (z : Int) :
    (toString z).toList ≠ [] ∧ ∀ c ∈ (toString z).toList, isNumeric c := by
  have hdigits (n : Nat) : ∀ c ∈ n.repr.toList, isNumeric c := by
    intro c hc
    rw [Nat.toList_repr] at hc
    have hdigit := Nat.isDigit_of_mem_toDigits (by decide) (by decide) hc
    rw [isNumeric, hdigit, Bool.or_true]
  cases z with
  | ofNat n =>
    have htext : (toString (Int.ofNat n)).toList = n.repr.toList := rfl
    rw [htext]
    exact ⟨Nat.toList_repr ▸ Nat.toDigits_ne_nil, hdigits n⟩
  | negSucc n =>
    have htext : (toString (Int.negSucc n)).toList = '-' :: (n + 1).repr.toList := by
      rw [Int.toString_eq_repr, Int.repr, String.toList_append]
      rfl
    rw [htext]
    exact ⟨List.cons_ne_nil _ _, List.forall_mem_cons.mpr ⟨rfl, hdigits _⟩⟩

/-- What keeps apart from a token does not carry a number on. -/
theorem not_isNumeric_of_isApart {c : Char} (h : isApart c) : isNumeric c = false := by
  unfold isApart at h
  split at h
  all_goals first | rfl | cases h

/-- An integer is known from its digits, whatever stands behind them. -/
theorem toString_append_inj {a b : Int} {r s : List Char} (hr : Apart r) (hs : Apart s)
    (h : (toString a).toList ++ r = (toString b).toList ++ s) : a = b ∧ r = s := by
  obtain ⟨htext, hbehind⟩ := Text.run_append_inj (isNumeric_toString a).2 (isNumeric_toString b).2
    (fun c hc => not_isNumeric_of_isApart (isApart_of_head hr c hc))
    (fun c hc => not_isNumeric_of_isApart (isApart_of_head hs c hc)) h
  rw [String.toList_inj, Int.toString_eq_repr, Int.toString_eq_repr] at htext
  exact ⟨Int.repr_inj.mp htext, hbehind⟩

/-- A sign or digit opens an integer. -/
theorem kindOpenedBy_of_isNumeric {c : Char} (h : isNumeric c) : kindOpenedBy c = .integer := by
  have hcases : c = '-' ∨ c.isDigit := by
    rwa [isNumeric, Bool.or_eq_true, beq_iff_eq] at h
  unfold kindOpenedBy
  split
  case h_7 => exact if_pos hcases
  all_goals cases h

namespace Value

variable {v w : Value}

/-- **The first character of a text tells the kind of the content.** -/
theorem IsContent.opens (h : v.IsContent) :
    ∃ c cs, v.inspect.toList = c :: cs ∧ kindOpenedBy c = v.kind := by
  cases h with
  | integer n =>
    obtain ⟨hne, hnumeric⟩ := isNumeric_toString n.toInt
    obtain ⟨c, cs, htext⟩ := List.exists_cons_of_ne_nil hne
    refine ⟨c, cs, htext, kindOpenedBy_of_isNumeric (hnumeric c ?_)⟩
    rw [htext]
    exact List.mem_cons_self ..
  | boolean b => cases b <;> exact ⟨_, _, rfl, rfl⟩
  | string s =>
    refine ⟨'"', s.toList.flatMap Text.escape ++ ['"'], ?_, rfl⟩
    exact String.toList_ofList
  | null => exact ⟨_, _, rfl, rfl⟩
  | array i =>
    rw [inspect_array, String.append_assoc, String.toList_append]
    exact ⟨_, _, rfl, rfl⟩
  | hash i =>
    rw [inspect_hash, String.append_assoc, String.toList_append]
    exact ⟨_, _, rfl, rfl⟩

end Value

/-! ## Reading a text from the front

A text inside a list has something behind it, so what is shown by induction is about texts with any
ends: if two of them agree, then the values do, and so do the ends. -/

variable {α : Type} {text : α → String} {admits : α → Prop} {Same : α → α → Prop}
  {r s : List Char}

/-- What has the text of `a`, with more behind it, is the same as `a` and has the same behind it.
This is asked of all that is admitted, where no token runs on into what is behind. -/
def Legible (text : α → String) (admits : α → Prop) (Same : α → α → Prop) (a : α) : Prop :=
  ∀ ⦃b⦄, admits b → ∀ ⦃r s⦄, Apart r → Apart s →
    (text a).toList ++ r = (text b).toList ++ s → Same a b ∧ r = s

/-- What stands behind the first of the texts in a list, as far as the closing bracket. -/
def behindFirst (close : Char) : List String → List Char
  | [] => [close]
  | x :: xs => ',' :: ' ' :: (x.toList ++ behindFirst close xs)

/-- The first text of a list, and what stands behind it. -/
theorem separated_cons_close (close : Char) (x : String) (xs : List String) :
    (separated ", " (x :: xs)).toList ++ close :: r = x.toList ++ (behindFirst close xs ++ r) := by
  induction xs generalizing x with
  | nil => rfl
  | cons y ys ih =>
    have hrest := ih y
    have hseparated : separated ", " (x :: y :: ys) = x ++ ", " ++ separated ", " (y :: ys) := rfl
    simp [hseparated, behindFirst, hrest]

section Lists

variable {close : Char} {as bs : List α}

/-- What stands behind an element is a comma or the bracket, so no token of the element runs on. -/
theorem apart_behindFirst (hclose : isApart close) (xs : List String) :
    Apart (behindFirst close xs ++ r) := by
  cases xs with
  | nil => exact hclose
  | cons => rfl

/-- A list goes on with a comma or ends with the bracket, so it is legible if its elements are. -/
theorem behindFirst_legible (hclose : isApart close) (hcomma : close ≠ ',')
    (has : ∀ a ∈ as, Legible text admits Same a) (hbs : ∀ b ∈ bs, admits b)
    (h : behindFirst close (as.map text) ++ r = behindFirst close (bs.map text) ++ s) :
    List.Forall₂ Same as bs ∧ r = s := by
  induction as generalizing bs with
  | nil =>
    cases bs with
    | nil => exact ⟨.nil, (List.cons.inj h).2⟩
    | cons => exact absurd (List.cons.inj h).1 hcomma
  | cons a as ih =>
    cases bs with
    | nil => exact absurd (List.cons.inj h).1.symm hcomma
    | cons b bs =>
      obtain ⟨ha, has⟩ := List.forall_mem_cons.mp has
      obtain ⟨hb, hbs⟩ := List.forall_mem_cons.mp hbs
      simp only [List.map_cons, behindFirst, List.cons_append, List.append_assoc,
        List.cons.injEq, true_and] at h
      obtain ⟨hab, hrest⟩ :=
        ha hb (apart_behindFirst hclose _) (apart_behindFirst hclose _) h
      obtain ⟨hmore, hbehind⟩ := ih has hbs hrest
      exact ⟨.cons hab hmore, hbehind⟩

/-- **A list between brackets is legible** if its elements are, and none of them begins with the
closing bracket. -/
theorem separated_legible (hclose : isApart close) (hcomma : close ≠ ',')
    (hopens : ∀ a, admits a → ∃ c cs, (text a).toList = c :: cs ∧ c ≠ close)
    (hadmits : ∀ a ∈ as, admits a) (has : ∀ a ∈ as, Legible text admits Same a)
    (hbs : ∀ b ∈ bs, admits b)
    (h : (separated ", " (as.map text)).toList ++ close :: r =
      (separated ", " (bs.map text)).toList ++ close :: s) :
    List.Forall₂ Same as bs ∧ r = s := by
  have hnot {a : α} (ha : admits a) {t t' : List Char} : (text a).toList ++ t ≠ close :: t' := by
    obtain ⟨c, cs, htext, hne⟩ := hopens a ha
    rw [htext]
    exact fun heq => hne (List.cons.inj heq).1
  -- An empty list is told from any other by the bracket, which opens no element.
  cases as with
  | nil =>
    cases bs with
    | nil => exact ⟨.nil, (List.cons.inj h).2⟩
    | cons b bs =>
      rw [List.map_cons, separated_cons_close] at h
      exact absurd h.symm (hnot (hbs b (List.mem_cons_self ..)))
  | cons a as =>
    obtain ⟨ha, has⟩ := List.forall_mem_cons.mp has
    rw [List.map_cons, separated_cons_close] at h
    cases bs with
    | nil => exact absurd h (hnot (hadmits a (List.mem_cons_self ..)))
    | cons b bs =>
      obtain ⟨hb, hbs⟩ := List.forall_mem_cons.mp hbs
      rw [List.map_cons, separated_cons_close] at h
      obtain ⟨hab, hrest⟩ :=
        ha hb (apart_behindFirst hclose _) (apart_behindFirst hclose _) h
      obtain ⟨hmore, hbehind⟩ := behindFirst_legible hclose hcomma has hbs hrest
      exact ⟨.cons hab hmore, hbehind⟩

end Lists

namespace Value

variable {v w : Value}

/-- The value can be read from the front of its text. -/
abbrev IsLegible (v : Value) : Prop := Legible inspect IsContent SameStructure v

/-- Contents with one text, whatever is behind it, are of one kind. -/
theorem IsContent.kind_eq (hv : v.IsContent) (hw : w.IsContent)
    (h : v.inspect.toList ++ r = w.inspect.toList ++ s) : v.kind = w.kind := by
  obtain ⟨c, cs, hvtext, hc⟩ := hv.opens
  obtain ⟨d, ds, hwtext, hd⟩ := hw.opens
  rw [hvtext, hwtext] at h
  rw [← hc, ← hd, (List.cons.inj h).1]

/-- **Plain content is legible.**  The first character tells the kind, and each kind has its own way
to end. -/
theorem legible_plain (hv : v.IsContent) (hplain : v.isPlain) : v.IsLegible := by
  intro w hw r s hr hs h
  have hkind := hv.kind_eq hw h
  suffices hsame : v = w ∧ r = s from ⟨hsame.1 ▸ .plain hplain, hsame.2⟩
  -- An integer ends where its digits do; the words for truth values and null differ before either
  -- ends; a string ends at its closing quote.
  cases hv with
  | integer a =>
    cases hw with
    | integer b =>
      obtain ⟨hab, hbehind⟩ := toString_append_inj hr hs h
      exact ⟨congrArg integer (Int64.toInt_inj.mp hab), hbehind⟩
    | _ => cases hkind
  | boolean a =>
    cases hw with
    | boolean b =>
      cases a <;> cases b
      case false.false | true.true => exact ⟨rfl, List.append_cancel_left h⟩
      all_goals cases (List.cons.inj h).1
    | _ => cases hkind
  | string a =>
    cases hw with
    | string b =>
      obtain ⟨hab, hbehind⟩ := Text.quote_append_inj h
      exact ⟨congrArg string hab, hbehind⟩
    | _ => cases hkind
  | null =>
    cases hw with
    | null => exact ⟨rfl, List.append_cancel_left h⟩
    | _ => cases hkind
  | array | hash => cases hplain

/-- No content begins with a closing bracket. -/
theorem IsContent.opens_ne {close : Char} (hclose : kindOpenedBy close = .error)
    (h : v.IsContent) : ∃ c cs, v.inspect.toList = c :: cs ∧ c ≠ close := by
  obtain ⟨c, cs, htext, hc⟩ := h.opens
  refine ⟨c, cs, htext, ?_⟩
  rintro rfl
  rw [hclose] at hc
  cases h <;> cases hc

/-- The text of an array, with what is behind it. -/
theorem toList_inspect_array (i : Identity) (es : List Value) (r : List Char) :
    (array i es).inspect.toList ++ r =
      '[' :: ((separated ", " (es.map inspect)).toList ++ ']' :: r) := by
  simp [inspect_array, inspectElements_eq]

/-- The text of a hash; its entries are in the order in which they are shown. -/
theorem toList_inspect_hash (i : Identity) (ps : List HashEntry) (r : List Char) :
    (hash i ps).inspect.toList ++ r =
      '\x7b' :: ((separated ", " ((shownEntries ps).map inspectEntry)).toList ++ '\x7d' :: r) := by
  simp [inspect_hash_shown]

/-- An array is legible if its elements are. -/
theorem legible_array {es : List Value} (hes : ∀ e ∈ es, e.IsContent)
    (ih : ∀ e ∈ es, e.IsLegible) (i : Identity) : (array i es).IsLegible := by
  intro w hw r s _ _ h
  have hkind := (IsContent.array i hes).kind_eq hw h
  cases hw with
  | array j hfs =>
    rw [toList_inspect_array, toList_inspect_array] at h
    obtain ⟨hsame, hbehind⟩ := separated_legible rfl (by decide) (fun _ => IsContent.opens_ne rfl)
      hes ih hfs (List.cons.inj h).2
    exact ⟨.array hsame, hbehind⟩
  | _ => cases hkind

/-! ## Entries

An entry is shown as its key and its value, with a colon in between that no key has outside of
quotes. -/

/-- The entry keeps the key that it stands under, and its value is content. -/
structure ContentEntry (p : HashEntry) : Prop where
  named : p.2.key.hashKey? = some p.1
  value : p.2.value.IsContent

/-- The text of an entry: its key, a colon, a blank and its value. -/
theorem toList_inspectEntry (p : HashEntry) (r : List Char) : (inspectEntry p).toList ++ r =
    p.2.key.inspect.toList ++ ':' :: ' ' :: (p.2.value.inspect.toList ++ r) := by
  simp [inspectEntry, inspectPair]

/-- An entry begins as its key does. -/
theorem ContentEntry.opens {p : HashEntry} (h : ContentEntry p) :
    ∃ c cs, (inspectEntry p).toList = c :: cs ∧ c ≠ '\x7d' := by
  have hclose : kindOpenedBy '\x7d' = .error := rfl
  obtain ⟨c, cs, htext, hne⟩ := (isContent_of_hashKey? h.named).opens_ne hclose
  have hentry := toList_inspectEntry p []
  rw [List.append_nil, htext, List.cons_append] at hentry
  exact ⟨c, _, hentry, hne⟩

/-- The key of an entry ends at the colon, and the value where the entry ends. -/
theorem legible_entry {p : HashEntry} (hp : p.2.key.hashKey? = some p.1)
    (hvalue : p.2.value.IsLegible) :
    Legible inspectEntry ContentEntry (EntryRel (HashPair.Rel SameStructure)) p := by
  intro q hq r s hr hs h
  rw [toList_inspectEntry, toList_inspectEntry] at h
  have hplain := isPlain_of_hashKey? hp
  obtain ⟨hkey, hrest⟩ := legible_plain (isContent_of_hashKey? hp) hplain
    (isContent_of_hashKey? hq.named) rfl rfl h
  obtain ⟨hsame, hbehind⟩ := hvalue hq.value hr hs (List.cons.inj (List.cons.inj hrest).2).2
  have hnames : some p.1 = some q.1 := by
    rw [← hp, ← hq.named, hkey.eq_of_plain hplain]
  exact ⟨⟨Option.some.inj hnames, hkey, hsame⟩, hbehind⟩

/-- A hash is legible if the values of its entries are.  The entries that are read come in the order
of their texts, so they are matched as finite maps. -/
theorem legible_hash {ps : List HashEntry} (hkeyed : WellKeyed ps)
    (hps : ∀ p ∈ ps, p.2.value.IsContent) (ih : ∀ p ∈ ps, p.2.value.IsLegible) (i : Identity) :
    (hash i ps).IsLegible := by
  intro w hw r s _ _ h
  have hkind := (IsContent.hash i hkeyed hps).kind_eq hw h
  cases hw with
  | @hash j qs hkeyed' hqs =>
    rw [toList_inspect_hash, toList_inspect_hash] at h
    have hshown {P : HashEntry → Prop} {ps : List HashEntry} (hps : ∀ p ∈ ps, P p) :
        ∀ p ∈ shownEntries ps, P p :=
      fun p hp => hps p ((shownEntries_perm ps).mem_iff.mp hp)
    have hentries : ∀ p ∈ shownEntries ps, ContentEntry p :=
      hshown fun p hp => ⟨hkeyed.named p hp, hps p hp⟩
    have hentries' : ∀ q ∈ shownEntries qs, ContentEntry q :=
      hshown fun q hq => ⟨hkeyed'.named q hq, hqs q hq⟩
    obtain ⟨hsame, hbehind⟩ := separated_legible rfl (by decide) (fun _ => ContentEntry.opens)
      hentries (fun p hp => legible_entry (hentries p hp).named (hshown ih p hp)) hentries'
      (List.cons.inj h).2
    refine ⟨.hash fun key => ?_, hbehind⟩
    -- The entries are compared in the order in which they are shown, which no lookup sees.
    have hperm := shownEntries_perm ps
    have hperm' := shownEntries_perm qs
    rw [← lookup_eq_of_perm hperm (hkeyed.perm hperm.symm).nodup,
      ← lookup_eq_of_perm hperm' (hkeyed'.perm hperm'.symm).nodup]
    exact rel_lookup hsame key
  | _ => cases hkind

/-- **Content is read from the front of its text.** -/
theorem IsContent.legible (h : v.IsContent) : v.IsLegible := by
  induction h with
  | integer n => exact legible_plain (.integer n) rfl
  | boolean b => exact legible_plain (.boolean b) rfl
  | string s => exact legible_plain (.string s) rfl
  | null => exact legible_plain .null rfl
  | array i hes ih => exact legible_array hes ih i
  | hash i hkeyed hps ih => exact legible_hash hkeyed hps ih i

/-! ## The order of entries does not show

The entries of a hash are sorted by their texts before they are shown.  Entries with the same texts
in another order give the same text, so the order in which a hash was made is not seen. -/

/-- The texts of a hash are sorted, so they are known if they are known up to their order. -/
theorem mergeSort_eq_of_perm {xs ys : List String} (h : xs.Perm ys) :
    (xs.mergeSort fun a b => a ≤ b) = ys.mergeSort fun a b => a ≤ b := by
  have hsorted (xs : List String) : (xs.mergeSort fun a b => a ≤ b).Pairwise fun a b => a ≤ b := by
    have htrans : ∀ a b c : String, decide (a ≤ b) → decide (b ≤ c) → decide (a ≤ c) :=
      fun _ _ _ hab hbc =>
        decide_eq_true (String.le_trans (of_decide_eq_true hab) (of_decide_eq_true hbc))
    have htotal : ∀ a b : String, decide (a ≤ b) || decide (b ≤ a) :=
      fun a b => by simpa using String.le_total a b
    exact (List.pairwise_mergeSort htrans htotal xs).imp of_decide_eq_true
  refine List.Perm.eq_of_pairwise (fun _ _ _ _ => String.le_antisymm) (hsorted xs) (hsorted ys) ?_
  exact (List.mergeSort_perm xs _).trans (h.trans (List.mergeSort_perm ys _).symm)

/-- The text of the entry of a hash at a key. -/
def entryTextAt (ps : List HashEntry) (key : HashKey) : String :=
  ((ps.lookup key).map inspectPair).getD ""

/-- With no key twice, the texts of the entries are the texts at the keys. -/
theorem inspectEntries_eq_map_keys {ps : List HashEntry}
    (hnodup : (ps.map Prod.fst).Nodup) :
    inspectEntries ps = (ps.map Prod.fst).map (entryTextAt ps) := by
  rw [inspectEntries_eq, List.map_map]
  refine List.map_congr_left fun p hp => ?_
  have hlookup : ps.lookup p.1 = some p.2 := (lookup_eq_some_iff_mem hnodup).mpr hp
  rw [Function.comp_apply, entryTextAt, hlookup]
  rfl

/-- Hashes with entries of one text at every key have the same texts of entries, in some order. -/
theorem inspect_hash_congr {ps qs : List HashEntry} (hps : (ps.map Prod.fst).Nodup)
    (hqs : (qs.map Prod.fst).Nodup)
    (h : ∀ key, (ps.lookup key).map inspectPair = (qs.lookup key).map inspectPair)
    (i j : Identity) :
    (hash i ps).inspect = (hash j qs).inspect := by
  have hkeys : (ps.map Prod.fst).Perm (qs.map Prod.fst) := by
    refine (List.perm_ext_iff_of_nodup hps hqs).mpr fun key => ?_
    have hsome := congrArg Option.isSome (h key)
    rw [Option.isSome_map, Option.isSome_map] at hsome
    rw [← isSome_lookup_iff, ← isSome_lookup_iff, hsome]
  have htexts : entryTextAt ps = entryTextAt qs := by
    funext key
    rw [entryTextAt, entryTextAt, h key]
  have hperm : (inspectEntries ps).Perm (inspectEntries qs) := by
    rw [inspectEntries_eq_map_keys hps, inspectEntries_eq_map_keys hqs, htexts]
    exact hkeys.map _
  rw [inspect_hash, inspect_hash, mergeSort_eq_of_perm hperm]

/-- Equal structures element by element give equal texts. -/
theorem map_inspect_eq {es fs : List Value}
    (h : ∀ e ∈ es, ∀ f ∈ fs, e.SameStructure f → e.inspect = f.inspect)
    (hsame : List.Forall₂ SameStructure es fs) : es.map inspect = fs.map inspect := by
  induction hsame with
  | nil => rfl
  | @cons e f es fs hef _ ih =>
    have hmore := ih fun e he f hf => h e (List.mem_cons_of_mem _ he) f (List.mem_cons_of_mem _ hf)
    have hfirst := h e List.mem_cons_self f List.mem_cons_self hef
    rw [List.map_cons, List.map_cons, hmore, hfirst]

/-- **One structure, one text.** -/
theorem SameStructure.inspect_eq (hv : v.IsContent) (hw : w.IsContent) (h : v.SameStructure w) :
    v.inspect = w.inspect := by
  induction hv generalizing w with
  | integer | boolean | string | null => rw [h.eq_of_plain rfl]
  | array i hes ih =>
    cases h with
    | plain => rfl
    | array hsame =>
      cases hw with
      | array _ hfs =>
        rw [inspect_array, inspect_array, inspectElements_eq, inspectElements_eq,
          map_inspect_eq (fun e he f hf => ih e he (hfs f hf)) hsame]
  | @hash i ps hkeyed hps ih =>
    cases h with
    | plain => rfl
    | @hash _ j _ qs hsame =>
      cases hw with
      | hash _ hkeyed' hqs =>
        refine inspect_hash_congr hkeyed.nodup hkeyed'.nodup (fun key => ?_) i j
        rcases rel_cases (hsame key) with ⟨hp, hq⟩ | ⟨u, u', hp, hq, hkey, hvalue⟩
        · rw [hp, hq]
        · rw [hp, hq]
          have hmem := (lookup_eq_some_iff_mem hkeyed.nodup).mp hp
          have hmem' := (lookup_eq_some_iff_mem hkeyed'.nodup).mp hq
          have hplain := isPlain_of_hashKey? (hkeyed.named _ hmem)
          rw [Option.map_some, Option.map_some, inspectPair, inspectPair,
            ← hkey.eq_of_plain hplain, ih _ hmem (hqs _ hmem') hvalue]

/-- A separator stands behind the first text if there is a second. -/
theorem separated_cons_of_ne_nil {separator x : String} {xs : List String} (h : xs ≠ []) :
    separated separator (x :: xs) = x ++ separator ++ separated separator xs := by
  obtain ⟨y, ys, rfl⟩ := List.exists_cons_of_ne_nil h
  rfl

/-- What stands around one of the texts in a list is the same whatever the text. -/
theorem exists_separated_around (separator : String) (xs ys : List String) :
    ∃ a b, ∀ x, separated separator (xs ++ x :: ys) = a ++ x ++ b := by
  induction xs with
  | nil =>
    cases ys with
    | nil => exact ⟨"", "", fun x => by simp [separated]⟩
    | cons y ys =>
      refine ⟨"", separator ++ separated separator (y :: ys), fun x => ?_⟩
      rw [List.nil_append, separated_cons_of_ne_nil (List.cons_ne_nil _ _)]
      simp [String.append_assoc]
  | cons z xs ih =>
    obtain ⟨a, b, hrest⟩ := ih
    refine ⟨z ++ separator ++ a, b, fun x => ?_⟩
    rw [List.cons_append, separated_cons_of_ne_nil (by simp), hrest]
    simp [String.append_assoc]

/-- An array shows an element between texts that do not depend on it. -/
theorem exists_inspect_array_around (before behind : List Value) :
    ∃ a b : String, ∀ (i : Identity) (v : Value),
      (array i (before ++ v :: behind)).inspect = a ++ v.inspect ++ b := by
  obtain ⟨a, b, haround⟩ :=
    exists_separated_around ", " (before.map inspect) (behind.map inspect)
  refine ⟨"[" ++ a, b ++ "]", fun i v => ?_⟩
  rw [inspect_array, inspectElements_eq, List.map_append, List.map_cons, haround]
  simp [String.append_assoc]

/-- **What is shown inside an array is canonical.**  Two pieces of content have one text as parts of
something exactly if they have one structure, and so it is in any array, between any other
elements. -/
theorem inspect_eq_iff (hv : v.IsContent) (hw : w.IsContent) :
    (v.inspect = w.inspect ↔ v.SameStructure w) ∧
      ∀ (i : Identity) (before behind : List Value),
        (array i (before ++ v :: behind)).render = (array i (before ++ w :: behind)).render ↔
          v.SameStructure w := by
  have hiff : v.inspect = w.inspect ↔ v.SameStructure w := by
    refine ⟨fun h => ?_, SameStructure.inspect_eq hv hw⟩
    exact (hv.legible hw rfl rfl (congrArg (String.toList · ++ []) h)).1
  refine ⟨hiff, fun i before behind => ?_⟩
  obtain ⟨a, b, haround⟩ := exists_inspect_array_around before behind
  have hrender (v : Value) :
      (array i (before ++ v :: behind)).render = a ++ v.inspect ++ b := haround i v
  rw [hrender, hrender, String.append_left_inj, String.append_right_inj, hiff]

/-- A key that looks like the end of a hash, and a string that looks like an escape. -/
def shelf : Value :=
  .hash 0 (setEntry (.integer 1) (.boolean true)
    (setEntry (.string "\"], 1: \x00") (.array 1 [.null, .string "\\0"]) []))

/-- The same entries the other way round. -/
def shelfReversed : Value :=
  .hash 5 (setEntry (.string "\"], 1: \x00") (.array 7 [.null, .string "\\0"])
    (setEntry (.integer 1) (.boolean true) []))

/-- Both shelves are content, and are shown alike. -/
theorem shelf_inspect_eq : shelf.IsContent ∧ shelfReversed.IsContent ∧
    shelf.inspect = shelfReversed.inspect := by
  have harray (i : Identity) : (array i [.null, .string "\\0"]).IsContent :=
    .array i (List.forall_mem_cons.mpr ⟨.null, List.forall_mem_singleton.mpr (.string _)⟩)
  have hshelf : shelf.IsContent := .hash 0 (.setEntry (.setEntry .nil _ _) _ _)
    (List.forall_mem_cons.mpr ⟨harray 1, List.forall_mem_singleton.mpr (.boolean _)⟩)
  have hreversed : shelfReversed.IsContent := .hash 5 (.setEntry (.setEntry .nil _ _) _ _)
    (List.forall_mem_cons.mpr ⟨.boolean _, List.forall_mem_singleton.mpr (harray 7)⟩)
  refine ⟨hshelf, hreversed, (inspect_eq_iff hshelf hreversed).1.mpr (.hash fun key => ?_)⟩
  by_cases hone : key = .integer 1
  · subst hone
    exact .some ⟨.plain rfl, .plain rfl⟩
  by_cases hstring : key = .string "\"], 1: \x00"
  · subst hstring
    exact .some ⟨.plain rfl, .array (.cons (.plain rfl) (.cons (.plain rfl) .nil))⟩
  · simp [setEntry, insertPair, List.lookup_cons, beq_false_of_ne hone, beq_false_of_ne hstring]

end Value

end Scriptlet
