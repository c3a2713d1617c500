import Mathlib.Logic.Function.Iterate

/-! # What a deterministic process reaches

A process takes one step after another. It eventually meets a goal when some
number of steps leads there, and it never does when an invariant of its steps
excludes the goal.
-/

namespace Ternion

variable {State : Type} {next : State → State} {goal : State → Prop} {state : State}

/-- Finitely many steps lead from the state to the goal. -/
def Eventually (next : State → State) (goal : State → Prop) (state : State) : Prop :=
  ∃ count, goal (next^[count] state)

theorem Eventually.of_rank (holds : Nat → State → Prop)
    (progress : ∀ rank state, holds rank state →
      goal (next state) ∨ ∃ smaller, smaller < rank ∧ holds smaller (next state))
    {rank : Nat} (initially : holds rank state) : Eventually next goal state := by
  induction rank using Nat.strongRecOn generalizing state with
  | ind rank induction =>
      rcases progress rank state initially with met | ⟨smaller, falls, kept⟩
      · exact ⟨1, met⟩
      · rcases induction smaller falls kept with ⟨count, met⟩
        exact ⟨count + 1, met⟩

theorem iterate_invariant (holds : State → Prop) (initially : holds state)
    (kept : ∀ state, holds state → holds (next state)) (count : Nat) :
    holds (next^[count] state) := by
  induction count with
  | zero => exact initially
  | succ count induction =>
      rw [Function.iterate_succ_apply']
      exact kept _ induction

end Ternion
