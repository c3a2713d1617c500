import Mathlib.Data.List.Basic
import Mathlib.Data.List.Infix

/-! # Agreement of two logs

Positions are one-based, so position `index` of a log is the element at list
offset `index - 1` and position zero is the empty prefix.
-/

namespace Ternion

/-- Both logs reach position `index` and hold the same elements up to it. -/
def AgreeThrough (left right : List α) (index : Nat) : Prop :=
  index ≤ left.length ∧ index ≤ right.length ∧
    left.take index = right.take index

instance [DecidableEq α] (left right : List α) (index : Nat) :
    Decidable (AgreeThrough left right index) :=
  inferInstanceAs (Decidable (_ ∧ _ ∧ _))

namespace AgreeThrough

theorem refl (log : List α) {index : Nat} (within : index ≤ log.length) :
    AgreeThrough log log index :=
  ⟨within, within, rfl⟩

theorem symm {left right : List α} {index : Nat}
    (agree : AgreeThrough left right index) : AgreeThrough right left index :=
  ⟨agree.2.1, agree.1, agree.2.2.symm⟩

theorem trans {first second third : List α} {index : Nat}
    (left : AgreeThrough first second index)
    (right : AgreeThrough second third index) :
    AgreeThrough first third index :=
  ⟨left.1, right.2.1, left.2.2.trans right.2.2⟩

theorem mono {left right : List α} {index lower : Nat}
    (agree : AgreeThrough left right index) (below : lower ≤ index) :
    AgreeThrough left right lower := by
  refine ⟨below.trans agree.1, below.trans agree.2.1, ?_⟩
  have shortened := congrArg (List.take lower) agree.2.2
  simpa [List.take_take, Nat.min_eq_left below] using shortened

theorem of_isPrefix {left right : List α} (leading : left <+: right)
    {index : Nat} (within : index ≤ left.length) :
    AgreeThrough left right index := by
  rcases leading with ⟨rest, rfl⟩
  exact ⟨within, by simp; omega, by rw [List.take_append_of_le_length within]⟩

section

variable {left right extended : List α} {index : Nat} (agree : AgreeThrough left right index)

include agree

theorem extend_right (leading : right <+: extended) :
    AgreeThrough left extended index :=
  agree.trans (of_isPrefix leading agree.2.1)

theorem extend_left (leading : left <+: extended) :
    AgreeThrough extended right index :=
  (agree.symm.extend_right leading).symm

end

theorem getElem?_eq {left right : List α} {index offset : Nat}
    (agree : AgreeThrough left right index) (below : offset < index) :
    left[offset]? = right[offset]? := by
  rw [← List.getElem?_take_of_lt below, agree.2.2,
    List.getElem?_take_of_lt below]

theorem isPrefix {left right : List α}
    (agree : AgreeThrough left right left.length) : left <+: right := by
  have whole := agree.2.2
  rw [List.take_length] at whole
  rw [whole]
  exact List.take_prefix _ _

theorem take_eq {left right : List α} {index : Nat}
    (agree : AgreeThrough left right index) :
    left.take index = right.take index :=
  agree.2.2

end AgreeThrough

/-- How far two logs agree. -/
def commonLength [DecidableEq α] : List α → List α → Nat
  | first :: left, second :: right => if first = second then commonLength left right + 1 else 0
  | _, _ => 0

theorem agreeThrough_iff [DecidableEq α] {left right : List α} {index : Nat} :
    AgreeThrough left right index ↔ index ≤ commonLength left right := by
  induction left generalizing right index with
  | nil =>
      simp only [AgreeThrough, commonLength, List.length_nil, Nat.le_zero]
      exact ⟨fun agree => agree.1, fun zero => by simp [zero]⟩
  | cons first left induction =>
      cases right with
      | nil =>
          simp only [AgreeThrough, commonLength, List.length_nil, Nat.le_zero]
          exact ⟨fun agree => agree.2.1, fun zero => by simp [zero]⟩
      | cons second right =>
          cases index with
          | zero => simp [AgreeThrough]
          | succ index =>
              have rest := @induction right index
              simp only [AgreeThrough] at rest
              simp only [AgreeThrough, commonLength, List.length_cons, List.take_succ_cons,
                List.cons.injEq, Nat.add_le_add_iff_right]
              split_ifs with same
              · simp only [same, true_and, Nat.add_le_add_iff_right, rest]
              · simp [same]

/-- A log cut at `count` agrees with the original through every position the
cut keeps. -/
theorem agreeThrough_take (log : List α) {index count : Nat}
    (within : index ≤ count) (bounded : index ≤ log.length) :
    AgreeThrough (log.take count) log index := by
  refine ⟨by simp; omega, bounded, ?_⟩
  rw [List.take_take, Nat.min_eq_left within]

end Ternion
