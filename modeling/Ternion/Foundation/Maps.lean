import Mathlib.Tactic.Common
import Mathlib.Tactic.SplitIfs

/-! # Finite maps

What the library of ordered maps leaves out: rebuilding a map from its list,
and counting the values that satisfy a predicate.
-/

namespace Ternion.Maps

open Std

variable {Key Value : Type} {order : Key → Key → Ordering} [TransCmp order] [LawfulEqCmp order]

theorem foldl_insert_toList (map : ExtTreeMap Key Value order) :
    map.toList.foldl (fun built pair => built.insert pair.1 pair.2) ∅ = map := by
  classical
  let : BEq Key := instBEqOfDecidableEq
  have : LawfulBEqCmp order := inferInstance
  rw [← ExtTreeMap.ofList_eq_foldl]
  apply ExtTreeMap.ext_getElem?
  intro key
  cases found : map[key]? with
  | none =>
      apply ExtTreeMap.getElem?_ofList_of_contains_eq_false
      rw [ExtTreeMap.map_fst_toList_eq_keys]
      have missing : key ∉ map := by
        rw [ExtTreeMap.mem_iff_isSome_getElem?, found]
        exact Bool.false_ne_true
      rw [← ExtTreeMap.mem_keys] at missing
      simpa using missing
  | some value =>
      apply ExtTreeMap.getElem?_ofList_of_mem ReflCmp.compare_self
        ExtTreeMap.distinct_keys_toList
      exact ExtTreeMap.mem_toList_iff_getElem?_eq_some.mpr found

theorem filter_insert (map : ExtTreeMap Key Value order) (keeps : Value → Bool) (key : Key)
    (value : Value) :
    (map.insert key value).filter (fun _ => keeps) =
      if keeps value then (map.filter fun _ => keeps).insert key value
      else (map.filter fun _ => keeps).erase key := by
  apply ExtTreeMap.ext_getElem?
  intro other
  rw [ExtTreeMap.getElem?_filter', ExtTreeMap.getElem?_insert]
  by_cases same : order key other = .eq
  · rw [if_pos same]
    by_cases kept : keeps value
    · rw [if_pos kept, ExtTreeMap.getElem?_insert, if_pos same, Option.filter_some, if_pos kept]
    · rw [if_neg kept, ExtTreeMap.getElem?_erase, if_pos same, Option.filter_some, if_neg kept]
  · rw [if_neg same]
    split_ifs
    · rw [ExtTreeMap.getElem?_insert, if_neg same, ExtTreeMap.getElem?_filter']
    · rw [ExtTreeMap.getElem?_erase, if_neg same, ExtTreeMap.getElem?_filter']

/-- The number of values that satisfy a predicate. -/
def count (keeps : Value → Bool) (map : ExtTreeMap Key Value order) : Nat :=
  (map.filter fun _ => keeps).size

omit [LawfulEqCmp order] in
theorem count_eq (keeps : Value → Bool) (map : ExtTreeMap Key Value order) :
    count keeps map = (map.toList.filter fun pair => keeps pair.2).length := by
  rw [count, ← ExtTreeMap.length_toList, ExtTreeMap.toList_filter]

omit [LawfulEqCmp order] in
theorem count_empty (keeps : Value → Bool) :
    count keeps (∅ : ExtTreeMap Key Value order) = 0 := by
  rw [count_eq]
  rfl

theorem contains_filter (map : ExtTreeMap Key Value order) (keeps : Value → Bool) (key : Key) :
    (map.filter fun _ => keeps).contains key = (map[key]?).any keeps := by
  rw [ExtTreeMap.contains_eq_isSome_getElem?, ExtTreeMap.getElem?_filter']
  cases map[key]? with
  | none => rfl
  | some value =>
      rw [Option.filter_some]
      by_cases kept : keeps value
      · simp [kept]
      · simp [kept]

theorem count_insert (keeps : Value → Bool) (map : ExtTreeMap Key Value order) (key : Key)
    (value : Value) :
    count keeps (map.insert key value) =
      if keeps value then
        if (map[key]?).any keeps then count keeps map else count keeps map + 1
      else if (map[key]?).any keeps then count keeps map - 1 else count keeps map := by
  rw [count, filter_insert]
  split_ifs with kept counted counted
  · rw [ExtTreeMap.size_insert, contains_filter, if_pos counted]
    rfl
  · rw [ExtTreeMap.size_insert, contains_filter, if_neg counted]
    rfl
  · rw [ExtTreeMap.size_erase, contains_filter, if_pos counted]
    rfl
  · rw [ExtTreeMap.size_erase, contains_filter, if_neg counted]
    rfl

end Ternion.Maps
