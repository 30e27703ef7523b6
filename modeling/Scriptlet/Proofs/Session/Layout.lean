import Scriptlet.Proofs.Lex.Layout
import Scriptlet.Proofs.Parse.Alike
import Scriptlet.Run
import Mathlib.Data.List.GetD

/-!
# Proofs/Session/Layout — a source means what its token texts mean

A source that is laid out with other blanks has the same tokens at other places.  A parser looks at
places only to say where an error is, and evaluation not at all; so the other source is the same
program with the same errors, each of them at the token that it was at before.
-/

namespace Scriptlet

variable {source respaced : String}

/-- Where the `k`-th token of the source stands; behind the last one, the end of input. -/
def tokenSpan (source : String) (k : Nat) : Span :=
  ((tokenize source).getD k (.endAt source.utf8ByteSize)).span

theorem tokenSpan_of_lt {k : Nat} (hk : k < (tokenize source).length) :
    tokenSpan source k = ((tokenize source).get ⟨k, hk⟩).span := by
  rw [tokenSpan, List.getD_eq_getElem _ _ hk]
  rfl

theorem tokenSpan_of_le {k : Nat} (hk : (tokenize source).length ≤ k) :
    tokenSpan source k = (Token.endAt source.utf8ByteSize).span := by
  rw [tokenSpan, List.getD_eq_default _ _ hk]

/-- The span of a token of one source, and the span of the token of the same number in the other. -/
def SamePlace (source respaced : String) (σ τ : Span) : Prop :=
  ∃ k ≤ (tokenize source).length, σ = tokenSpan source k ∧ τ = tokenSpan respaced k

/-- Two sources with the same words are streams of the same tokens at other places. -/
theorem stream_alike (h : List.Forall₂ Token.SameWord (tokenize source) (tokenize respaced)) :
    (TokenStream.ofSource source).Alike (SamePlace source respaced) (.ofSource respaced) := by
  obtain ⟨hlength, hwords⟩ := List.forall₂_iff_get.mp h
  refine ⟨List.forall₂_iff_get.mpr ⟨hlength, fun k hk hk' => ?_⟩, rfl, rfl, ?_⟩
  · obtain ⟨hkind, hliteral⟩ := hwords k hk hk'
    exact ⟨hkind, hliteral, k, Nat.le_of_lt hk, (tokenSpan_of_lt hk).symm,
      (tokenSpan_of_lt hk').symm⟩
  · exact ⟨_, Nat.le_refl _, (tokenSpan_of_le (Nat.le_refl _)).symm,
      (tokenSpan_of_le (Nat.le_of_eq hlength.symm)).symm⟩

/-- The outcome, with the faults of its errors but not with their places. -/
def withoutPlaces : Except (List ParseError) Value × Store → Except (List ParseFault) Value × Store
  | (.error errors, store) => (.error (errors.map ParseError.fault), store)
  | (.ok v, store) => (.ok v, store)

/-- Errors that are alike up to places report the same faults. -/
theorem faults_eq {R : Span → Span → Prop} {errors errors' : List ParseError}
    (h : List.Forall₂ (ParseError.Alike R) errors errors') :
    errors'.map ParseError.fault = errors.map ParseError.fault := by
  induction h with
  | nil => rfl
  | cons he _ ih => rw [List.map_cons, List.map_cons, he.fault, ih]

/-- Sources that are read as the same program, with the same faults, are evaluated alike. -/
theorem evalSource_eq_of_parse (hprogram : (parse respaced).program = (parse source).program)
    (hfaults : (parse respaced).errors.map ParseError.fault =
      (parse source).errors.map ParseError.fault) (limits : Limits) (fuel : Nat) (scope : ScopeId)
    (store : Store) : (evalSource limits fuel scope respaced store).map withoutPlaces =
      (evalSource limits fuel scope source store).map withoutPlaces := by
  by_cases herrors : (parse source).errors = []
  · rw [herrors, List.map_nil, List.map_eq_nil_iff] at hfaults
    rw [evalSource_of_read herrors, evalSource_of_read hfaults, hprogram]
  · have herrors' : (parse respaced).errors ≠ [] := by
      intro hnil
      rw [hnil, List.map_nil, eq_comm, List.map_eq_nil_iff] at hfaults
      exact herrors hfaults
    rw [evalSource_of_errors herrors, evalSource_of_errors herrors', Option.map_some,
      Option.map_some, withoutPlaces, withoutPlaces, hfaults]

/-- **Layout is irrelevant.**  Let a source have no illegal token, and write its token texts one
behind the other with any blanks between them, at least one.  The new source has the same tokens and
is the same program, with the same errors, each at the token that corresponds; and from any store it
is evaluated to the same value and leaves the same store. -/
theorem layout_irrelevant (hlegal : ∀ t ∈ tokenize source, t.kind ≠ .illegal)
    (h : Respaces respaced source) :
    List.Forall₂ Token.SameWord (tokenize source) (tokenize respaced) ∧
      (parse respaced).program = (parse source).program ∧
      List.Forall₂ (ParseError.Alike (SamePlace source respaced)) (parse source).errors
        (parse respaced).errors ∧
      ∀ limits fuel scope store,
        (evalSource limits fuel scope respaced store).map withoutPlaces =
          (evalSource limits fuel scope source store).map withoutPlaces := by
  have hwords := h.sameWords hlegal
  obtain ⟨hprogram, herrors⟩ := parseStream_alike (stream_alike hwords) rfl
  exact ⟨hwords, hprogram, herrors, evalSource_eq_of_parse hprogram (faults_eq herrors)⟩

/-- Words that only just end, blanks in a string, and an error. -/
theorem layout_irrelevant_broken :
    let source := "a===\"b  c\"1"
    let respaced := "\ta\n==  =\r\n\"b  c\" 1 "
    (∀ t ∈ tokenize source, t.kind ≠ .illegal) ∧ Respaces respaced source ∧
      (parse source).errors ≠ [] ∧
      List.Forall₂ Token.SameWord (tokenize source) (tokenize respaced) ∧
      (parse respaced).program = (parse source).program ∧
      List.Forall₂ (ParseError.Alike (SamePlace source respaced)) (parse source).errors
        (parse respaced).errors ∧
      ∀ limits fuel scope store,
        (evalSource limits fuel scope respaced store).map withoutPlaces =
          (evalSource limits fuel scope source store).map withoutPlaces := by
  intro source respaced
  have hlegal : ∀ t ∈ tokenize source, t.kind ≠ .illegal := by decide +kernel
  have htexts : ((tokenize source).map fun t => (t.span.textIn source).toList) =
      ["a".toList, "==".toList, "=".toList, "\"b  c\"".toList, "1".toList] := by decide +kernel
  have hlaid : LaidOut
      ["a".toList, "==".toList, "=".toList, "\"b  c\"".toList, "1".toList]
      ("a".toList ++ "\n".toList ++ ("==".toList ++ "  ".toList ++ ("=".toList ++ "\r\n".toList ++
        ("\"b  c\"".toList ++ " ".toList ++ ("1".toList ++ " ".toList ++ []))))) :=
    .cons (List.all_eq_true.mp (by decide)) (fun _ => by decide) <|
      .cons (List.all_eq_true.mp (by decide)) (fun _ => by decide) <|
      .cons (List.all_eq_true.mp (by decide)) (fun _ => by decide) <|
      .cons (List.all_eq_true.mp (by decide)) (fun _ => by decide) <|
      .cons (List.all_eq_true.mp (by decide)) (fun _ => by decide) .nil
  have hrespaces : Respaces respaced source :=
    ⟨"\t".toList, _, List.all_eq_true.mp (by decide), by decide +kernel, htexts ▸ hlaid⟩
  exact ⟨hlegal, hrespaces, by decide +kernel, layout_irrelevant hlegal hrespaces⟩

end Scriptlet
