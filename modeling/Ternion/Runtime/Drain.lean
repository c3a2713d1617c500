import Ternion.Runtime.Step
import Ternion.Raft.Frame

/-! # Where the loop of a step ends

`Drained` is the loop without its budget. It has at most one outcome, so the
outcome of a step is known once any derivation of it is found. The lemmas below
derive it for a core in which nothing waits.
-/

namespace Ternion.RaftRuntime

open Raft

inductive Drained : Node → List Action → Outcome → Prop
  | done (core : Node) : Drained core [] { core := core }
  | persist {core : Node} {action : Action} {pending : List Action} {event : Event}
      {outcome : Outcome} :
      completion action = some event →
      Drained (core.step event).1 (pending ++ (core.step event).2) outcome →
      Drained core (action :: pending) (outcome.wrote (writesOf action))
  | emit {core : Node} {action : Action} {pending : List Action} {outcome : Outcome} :
      completion action = none →
      Drained core pending outcome →
      Drained core (action :: pending) (outcome.emits [action])

namespace Drained

section

variable {core : Node} {pending : List Action}

theorem of_drain {budget : Nat} {outcome : Outcome}
    (drained : drain budget core pending = some outcome) : Drained core pending outcome := by
  induction budget generalizing core pending outcome with
  | zero =>
      cases pending with
      | nil =>
          cases drained
          exact .done core
      | cons => cases drained
  | succ budget induction =>
      cases pending with
      | nil =>
          cases drained
          exact .done core
      | cons action pending =>
          rw [drain] at drained
          cases isCompletion : completion action with
          | none =>
              simp only [isCompletion, Option.map_eq_some_iff] at drained
              rcases drained with ⟨rest, restDrained, rfl⟩
              exact .emit isCompletion (induction restDrained)
          | some event =>
              simp only [isCompletion, Option.map_eq_some_iff] at drained
              rcases drained with ⟨rest, restDrained, rfl⟩
              exact .persist isCompletion (induction restDrained)

theorem budget {outcome : Outcome}
    (drained : Drained core pending outcome) : ∃ budget, drain budget core pending =
    some outcome := by
  induction drained with
  | done core => exact ⟨0, rfl⟩
  | persist isCompletion _ induction =>
      rcases induction with ⟨budget, found⟩
      exact ⟨budget + 1, by simp [drain, isCompletion, found]⟩
  | emit isCompletion _ induction =>
      rcases induction with ⟨budget, found⟩
      exact ⟨budget + 1, by simp [drain, isCompletion, found]⟩

theorem unique {left right : Outcome}
    (leftDrained : Drained core pending left) (rightDrained : Drained core pending right) :
    left = right := by
  induction leftDrained generalizing right with
  | done => cases rightDrained; rfl
  | persist leftEvent _ induction =>
      cases rightDrained with
      | persist rightEvent rest =>
          cases leftEvent.symm.trans rightEvent
          rw [induction rest]
      | emit nothing => cases leftEvent.symm.trans nothing
  | emit nothing _ induction =>
      cases rightDrained with
      | persist rightEvent => cases nothing.symm.trans rightEvent
      | emit _ rest => rw [induction rest]

end

theorem emits {core : Node} {actions pending : List Action} {outcome : Outcome}
    (nothing : ∀ action ∈ actions, completion action = none)
    (drained : Drained core pending outcome) :
    Drained core (actions ++ pending) (outcome.emits actions) := by
  induction actions with
  | nil => exact drained
  | cons action actions induction =>
      have rest := induction fun other present => nothing other (List.mem_cons_of_mem _ present)
      exact .emit (nothing action List.mem_cons_self) rest

theorem only_emits {core : Node} {actions : List Action}
    (nothing : ∀ action ∈ actions, completion action = none) :
    Drained core actions { core := core, emitted := actions } := by
  have drained := emits nothing (.done core)
  simpa [Outcome.emits] using drained

end Drained

end Ternion.RaftRuntime
