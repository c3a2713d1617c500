import Mathlib.Data.List.Basic
import Mathlib.Tactic.SplitIfs

/-! # Consecutively numbered sequences

Lists whose elements carry their own positions, one after another. Cutting such
a list by position is cutting it by length.
-/

namespace Ternion

variable {α : Type} {position : α → Nat} {start : Nat} {list : List α}

/-- The elements are numbered from the position after `start`. -/
def Consecutive (position : α → Nat) : Nat → List α → Prop
  | _, [] => True
  | start, item :: rest => position item = start + 1 ∧ Consecutive position (start + 1) rest

namespace Consecutive

instance decidable (position : α → Nat) :
    (start : Nat) → (list : List α) → Decidable (Consecutive position start list)
  | _, [] => .isTrue trivial
  | start, item :: rest =>
      have := decidable position (start + 1) rest
      inferInstanceAs (Decidable (position item = start + 1 ∧
        Consecutive position (start + 1) rest))

theorem append_iff {more : List α} :
    Consecutive position start (list ++ more) ↔
      Consecutive position start list ∧ Consecutive position (start + list.length) more := by
  induction list generalizing start with
  | nil => simp [Consecutive]
  | cons item rest induction =>
      simp only [List.cons_append, Consecutive, induction, List.length_cons, and_assoc]
      rw [show start + 1 + rest.length = start + (rest.length + 1) by omega]

section

variable (consecutive : Consecutive position start list)

include consecutive

theorem snoc {item : α} (next : position item = start + list.length + 1) :
    Consecutive position start (list ++ [item]) :=
  append_iff.mpr ⟨consecutive, next, trivial⟩

theorem take (count : Nat) :
    Consecutive position start (list.take count) := by
  rw [← List.take_append_drop count list] at consecutive
  exact (append_iff.mp consecutive).1

theorem drop {count : Nat}
    (within : count ≤ list.length) : Consecutive position (start + count) (list.drop count) := by
  rw [← List.take_append_drop count list] at consecutive
  have rest := (append_iff.mp consecutive).2
  rwa [List.length_take, Nat.min_eq_left within] at rest

theorem position_eq {offset : Nat} {item : α}
    (found : list[offset]? = some item) : position item = start + offset + 1 := by
  induction list generalizing start offset with
  | nil => simp at found
  | cons first rest induction =>
      cases offset with
      | zero =>
          simp only [List.getElem?_cons_zero, Option.some.injEq] at found
          rw [← found]
          exact consecutive.1
      | succ offset =>
          have := induction consecutive.2 (by simpa using found)
          omega

theorem map_position :
    list.map position = List.range' (start + 1) list.length := by
  induction list generalizing start with
  | nil => rfl
  | cons item rest induction =>
      rw [List.map_cons, consecutive.1, induction consecutive.2, List.length_cons,
        List.range'_succ]

end

theorem of_position_eq
    (located : ∀ offset item, list[offset]? = some item → position item = start + offset + 1) :
    Consecutive position start list := by
  induction list generalizing start with
  | nil => trivial
  | cons first rest induction =>
      refine ⟨located 0 first rfl, induction fun offset item found => ?_⟩
      have := located (offset + 1) item (by simpa using found)
      omega

section

variable (consecutive : Consecutive position start list)

include consecutive

theorem bounds {item : α}
    (present : item ∈ list) : start < position item ∧ position item ≤ start + list.length := by
  rcases List.mem_iff_getElem?.mp present with ⟨offset, found⟩
  have located := consecutive.position_eq found
  have within := (List.getElem?_eq_some_iff.mp found).1
  omega

theorem getLast {item : α}
    (last : list.getLast? = some item) : position item = start + list.length := by
  rw [List.getLast?_eq_getElem?] at last
  have located := consecutive.position_eq last
  have within := (List.getElem?_eq_some_iff.mp last).1
  omega

theorem filter_lt (bound : Nat) :
    (list.filter fun item => position item < bound) = list.take (bound - 1 - start) := by
  induction list generalizing start with
  | nil => simp
  | cons item rest induction =>
      have later := induction consecutive.2
      by_cases below : position item < bound
      · have here := consecutive.1
        rw [List.filter_cons_of_pos (by simpa using below), later,
          show bound - 1 - start = bound - 1 - (start + 1) + 1 by omega, List.take_succ_cons]
      · have here := consecutive.1
        rw [List.filter_cons_of_neg (by simpa using below), later,
          show bound - 1 - (start + 1) = 0 by omega, show bound - 1 - start = 0 by omega]
        simp

theorem filter_gt (bound : Nat) :
    (list.filter fun item => bound < position item) = list.drop (bound - start) := by
  induction list generalizing start with
  | nil => simp
  | cons item rest induction =>
      have later := induction consecutive.2
      have here := consecutive.1
      by_cases beyond : bound < position item
      · rw [List.filter_cons_of_pos (by simpa using beyond), later,
          show bound - (start + 1) = 0 by omega, show bound - start = 0 by omega]
        simp
      · rw [List.filter_cons_of_neg (by simpa using beyond), later,
          show bound - start = bound - (start + 1) + 1 by omega, List.drop_succ_cons]

theorem filter_gt_consecutive {bound : Nat} (later : start ≤ bound) :
    Consecutive position bound (list.filter fun item => bound < position item) := by
  rw [consecutive.filter_gt]
  by_cases within : bound - start ≤ list.length
  · have rest := consecutive.drop within
    rwa [Nat.add_sub_cancel' later] at rest
  · rw [List.drop_eq_nil_of_le (by omega)]
    trivial

theorem filter_gt_length {bound : Nat} (later : start ≤ bound) :
    bound + (list.filter fun item => bound < position item).length =
      max bound (start + list.length) := by
  rw [consecutive.filter_gt, List.length_drop]
  omega

theorem dropWhile_le (bound : Nat) :
    (list.dropWhile fun item => position item ≤ bound) = list.drop (bound - start) := by
  induction list generalizing start with
  | nil => simp
  | cons item rest induction =>
      have here := consecutive.1
      by_cases within : position item ≤ bound
      · rw [List.dropWhile_cons_of_pos (by simpa using within), induction consecutive.2,
          show bound - start = bound - (start + 1) + 1 by omega, List.drop_succ_cons]
      · rw [List.dropWhile_cons_of_neg (by simpa using within),
          show bound - start = 0 by omega, List.drop_zero]

theorem dropWhile_eq_filter (bound : Nat) : (list.dropWhile fun item => position item ≤ bound) =
      list.filter fun item => bound < position item := by
  rw [consecutive.dropWhile_le, consecutive.filter_gt]

end

end Consecutive

theorem filter_gt_filter_gt (position : α → Nat) {first second : Nat} (earlier : first ≤ second)
    (list : List α) :
    ((list.filter fun item => first < position item).filter fun item => second < position item) =
      list.filter fun item => second < position item := by
  rw [List.filter_filter]
  apply List.filter_congr
  intro item _
  simp only [Bool.and_eq_decide, decide_eq_decide, decide_eq_true_eq]
  omega

end Ternion
