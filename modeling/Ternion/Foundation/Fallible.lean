import Mathlib.Data.List.Basic

/-! # Folds that may fail

A fold that stops at the first error. What every successful step keeps, a
successful fold keeps.
-/

namespace Ternion.Fallible

variable {ε α β γ : Type}

variable {result : Except ε α}

theorem bind_eq_ok {next : α → Except ε β} {value : β} :
    result >>= next = .ok value ↔ ∃ middle, result = .ok middle ∧ next middle = .ok value := by
  cases result with
  | error failure =>
      apply iff_of_false
      · intro impossible
        cases impossible
      · rintro ⟨_, impossible, _⟩
        cases impossible
  | ok middle =>
      constructor
      · intro continued
        exact ⟨middle, rfl, continued⟩
      · rintro ⟨_, same, continued⟩
        cases same
        exact continued

theorem toOption_eq_some {value : α} : result.toOption = some value ↔ result = .ok value := by
  cases result with
  | error failure => simp [Except.toOption]
  | ok other => simp [Except.toOption]

theorem mapError_eq_ok {δ : Type} {rename : ε → δ} {value : α} :
    result.mapError rename = .ok value ↔ result = .ok value := by
  cases result with
  | error failure => simp [Except.mapError]
  | ok other => simp [Except.mapError]

section Fold

variable {step : β → α → Except ε β} {start final : β} {items more : List α}

theorem foldlM_append (reached : items.foldlM step start = .ok final) :
    (items ++ more).foldlM step start = more.foldlM step final := by
  rw [List.foldlM_append, reached]
  rfl

theorem foldlM_append_eq_ok :
    (items ++ more).foldlM step start = .ok final ↔
      ∃ middle, items.foldlM step start = .ok middle ∧ more.foldlM step middle = .ok final := by
  rw [List.foldlM_append]
  exact bind_eq_ok

theorem foldlM_cons_eq_ok {item : α} :
    (item :: items).foldlM step start = .ok final ↔
      ∃ middle, step start item = .ok middle ∧ items.foldlM step middle = .ok final := by
  rw [List.foldlM_cons]
  exact bind_eq_ok

theorem foldlM_congr {other : β → α → Except ε β}
    (same : ∀ item ∈ items, ∀ state, step state item = other state item) (start : β) :
    items.foldlM step start = items.foldlM other start := by
  induction items generalizing start with
  | nil => rfl
  | cons item items induction =>
      rw [List.foldlM_cons, List.foldlM_cons, same item List.mem_cons_self]
      congr 1
      funext middle
      exact induction (fun later present => same later (List.mem_cons_of_mem _ present)) middle

theorem foldlM_all (test : α → Bool) (found : Bool) :
    items.foldlM (fun found item => (.ok (found && test item) : Except ε Bool)) found =
      .ok (found && items.all test) := by
  induction items generalizing found with
  | nil => rw [List.all_nil, Bool.and_true]; rfl
  | cons item items induction =>
      rw [List.foldlM_cons, List.all_cons, ← Bool.and_assoc]
      exact induction (found && test item)

@[simp] theorem foldlM_singleton {item : α} : [item].foldlM step start = step start item := by
  rw [List.foldlM_cons]
  cases step start item <;> rfl

end Fold

end Ternion.Fallible
