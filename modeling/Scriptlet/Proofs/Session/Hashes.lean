import Scriptlet.Proofs.Eval.Hashes
import Scriptlet.Proofs.Session.Throughout

/-!
# Proofs/Session/Hashes — every hash there is is a finite map

Evaluation makes hashes of literals only, and never changes one.  So in all that a host can come to,
each hash that is bound or held or given is a finite map under the equality of the language.
-/

namespace Scriptlet

open Eval

/-- If the value is a hash, its entries are a finite map. -/
def Value.IsMap (v : Value) : Prop := ∀ i ps, v = .hash i ps → FiniteMap ps

/-- A hash literal inserts its pairs one after another, which keeps one entry for each key, and
nothing else makes hashes. -/
theorem inborn_isMap : Inborn Value.IsMap where
  plain v hv i ps h := by
    subst h
    cases hv
  error _ := nofun
  array _ _ := nofun
  hash _ _ hkeyed _ _ h := by
    cases h
    exact finiteMap_of_wellKeyed hkeyed
  function _ _ _ _ _ := nofun

/-- **Hashes are finite maps under equality.**  Let a host evaluate any programs and give away no
hash that is not a map.  Then every hash that is bound, held or given anywhere is one; and wherever
a hash literal is evaluated, it makes a map of what its pairs give, or stops at the first pair that
gives no key. -/
theorem Store.hashes_are_maps {s : Store} (hs : s.Reached (Value.Throughout Value.IsMap)) :
    s.Assures Value.IsMap ∧ ∀ limits i ps m, MakesMap limits i ps m :=
  ⟨hs.assures inborn_isMap, makesMap⟩

/-- In a new session `1`, `true` and `"1"` are three keys, the last of two pairs with a key counts,
and an array is no key, whatever the value beside it. -/
theorem Store.hashes_are_maps_of_mixed :
    let ps : List (Expr × Expr) := [(.integer 1, .integer 5), (.boolean true, .integer 20),
      (.string "1", .integer 30), (.integer 1, .integer 10)]
    let s := (Session.new {}).store
    let m : Machine := ⟨s, 0⟩
    s.Reached (Value.Throughout Value.IsMap) ∧
      (∃ id es, (Task.expr 0 (.hash ps)).Gives {} m (some (.hash id es)) m.spent ∧
        (Value.hash id es).index (.integer 1) = .ok (.integer 10) ∧
        (Value.hash id es).index (.boolean true) = .ok (.integer 20) ∧
        (Value.hash id es).index (.string "1") = .ok (.integer 30) ∧
        (Value.hash id es).index (.boolean false) = .ok .null ∧
        (Value.hash id es).index .null = .error (.unusableHashKey .null)) ∧
      (Task.expr 0 (.hash [(.array [], .ident "unbound")])).Unwinds {} m
        (.failed (.unusableHashKey .array)) m.spent := by
  intro ps s m
  have hreached : s.Reached (Value.Throughout Value.IsMap) := Session.new_reached {}
  obtain ⟨-, hliterals⟩ := hashes_are_maps hreached
  refine ⟨hreached, ?_, ?_⟩
  · have hinteger : ∀ n, (Task.expr 0 (.integer n)).Gives {} m (some (.integer n)) m :=
      fun n => settles_succ.mp (.const rfl rfl)
    have hboolean : (Task.expr 0 (.boolean true)).Gives {} m (some (.boolean true)) m :=
      settles_succ.mp (.const rfl rfl)
    have hstring : (Task.expr 0 (.string "1")).Gives {} m (some (.string "1")) m :=
      settles_succ.mp (.const rfl rfl)
    -- The pairs are given one by one; all of them are literals, so no machine changes.
    have hlast : PairsGive {} 0 [(.integer 1, .integer 10)] m [(.integer 1, .integer 10)] m :=
      .cons (k := some _) (v := some _) (hinteger 1) (hinteger 10) .nil
    have hpairs : PairsGive {} 0 ps m [(.integer 1, .integer 5), (.boolean true, .integer 20),
        (.string "1", .integer 30), (.integer 1, .integer 10)] m :=
      .cons (k := some _) (v := some _) (hinteger 1) (hinteger 5)
        (.cons (k := some _) (v := some _) hboolean (hinteger 20)
          (.cons (k := some _) (v := some _) hstring (hinteger 30) hlast))
    obtain ⟨es, hgives, hes⟩ :=
      (hliterals {} 0 ps m).gives _ _ hpairs (by simp [Value.IsKey, Value.kind])
    refine ⟨_, es, hgives, ?_, ?_, ?_, ?_, ?_⟩
    · exact hes.last _ _ (.integer 1, .integer 10)
        ⟨[_, _, _], [], rfl, ⟨rfl, rfl⟩, List.forall_mem_nil _⟩
    · refine hes.last _ _ (.boolean true, .integer 20) ⟨[_], _, rfl, ⟨rfl, rfl⟩, ?_⟩
      simp [Value.Matches, Value.kind]
    · refine hes.last _ _ (.string "1", .integer 30) ⟨[_, _], _, rfl, ⟨rfl, rfl⟩, ?_⟩
      simp [Value.Matches, Value.kind]
    · refine hes.missing _ _ (.inr (.inl rfl)) ?_
      simp [Value.Matches, Value.kind, InfixOp.apply, Value.same]
    · exact hes.unusable _ .null (by simp [Value.IsKey, Value.kind])
  · have hkey : (Task.expr 0 (.array [])).Gives {} m (some (.array m.store.nextId [])) m.spent :=
      settles_succ.mp (.const rfl rfl)
    exact ((hliterals {} 0 _ m).stops [] (.array [], .ident "unbound") [] m _ _ rfl
      ⟨⟨[], .nil, List.forall_mem_nil _⟩, hkey, by simp [Value.IsKey, Value.kind]⟩).fails

end Scriptlet
