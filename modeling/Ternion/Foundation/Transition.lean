import Mathlib.Tactic.SplitIfs

/-! # Transition systems

Runs of a labelled transition system whose steps all meet a given condition.
A condition speaks about the state before a step and the label of the step.
-/

namespace Ternion

structure System (State Label : Type) where
  initial : State → Prop
  step : State → Label → State → Prop

namespace System

variable {State Label : Type}

/-- The states of all runs in which every step is permitted. -/
inductive Reachable (system : System State Label) (permitted : State → Label → Prop) :
    State → Prop
  | initial {state} : system.initial state → Reachable system permitted state
  | step {before label after} : Reachable system permitted before →
      permitted before label → system.step before label after →
      Reachable system permitted after

/-- No condition on the steps of a run. -/
def anyStep : State → Label → Prop := fun _ _ => True

/-- What holds initially and is kept by every permitted step holds in every
reachable state. -/
theorem Reachable.invariant {system : System State Label}
    {permitted : State → Label → Prop} {state : State}
    (reachable : system.Reachable permitted state) (holds : State → Prop)
    (initially : ∀ state, system.initial state → holds state)
    (kept : ∀ before label after, holds before → permitted before label →
      system.step before label after → holds after) : holds state := by
  induction reachable with
  | initial isInitial => exact initially _ isInitial
  | step _ allowed taken induction => exact kept _ _ _ induction allowed taken

theorem Reachable.weaken {system : System State Label}
    {permitted weaker : State → Label → Prop}
    (implied : ∀ state label, permitted state label → weaker state label)
    {state : State} (reachable : system.Reachable permitted state) :
    system.Reachable weaker state := by
  induction reachable with
  | initial isInitial => exact .initial isInitial
  | step _ allowed taken induction => exact .step induction (implied _ _ allowed) taken

/-! ## Executable systems -/

/-- A system with one initial state, whose steps are computed. -/
def ofNext (start : State) (next : State → Label → Option State) : System State Label where
  initial := fun state => state = start
  step := fun before label after => next before label = some after

def execute (next : State → Label → Option State) (allowed : State → Label → Bool) :
    List Label → State → Option State
  | [], state => some state
  | label :: labels, state =>
      if allowed state label then (next state label).bind (execute next allowed labels)
      else none

section Execution

variable {start : State} {next : State → Label → Option State}
  {permitted : State → Label → Prop} {allowed : State → Label → Bool}

theorem Reachable.execute
    (sound : ∀ state label, allowed state label → permitted state label) :
    ∀ {labels : List Label} {before after : State},
      (ofNext start next).Reachable permitted before →
      System.execute next allowed labels before = some after →
      (ofNext start next).Reachable permitted after
  | [], before, after, reachable, executed => by
      rw [System.execute, Option.some.injEq] at executed
      exact executed ▸ reachable
  | label :: labels, before, after, reachable, executed => by
      rw [System.execute] at executed
      split_ifs at executed with isAllowed
      rcases Option.bind_eq_some_iff.mp executed with ⟨middle, taken, rest⟩
      exact Reachable.execute sound (.step reachable (sound _ _ isAllowed) taken) rest

section

variable (sound : ∀ state label, allowed state label → permitted state label) {Observation : Type}
  {observed : Observation}

include sound

/-- A run that can be followed leads to a reachable state, of which only an
observation needs to be evaluated. -/
theorem reachable_of_execute {labels : List Label} {observe : State → Observation}
    (executed : (execute next allowed labels start).map observe = some observed) :
    ∃ state, (ofNext start next).Reachable permitted state ∧ observe state = observed := by
  rcases Option.map_eq_some_iff.mp executed with ⟨state, taken, isObserved⟩
  exact ⟨state, Reachable.execute sound (.initial rfl) taken, isObserved⟩

theorem continued_of_execute {laterPermitted : State → Label → Prop}
    {laterAllowed : State → Label → Bool}
    (laterSound : ∀ state label, laterAllowed state label → laterPermitted state label)
    {first second : List Label} {observe : State → State → Observation}
    (executed : ((execute next allowed first start).bind fun turning =>
      (execute next laterAllowed second turning).map (observe turning)) = some observed) :
    ∃ turning final, (ofNext start next).Reachable permitted turning ∧
      (ofNext turning next).Reachable laterPermitted final ∧ observe turning final = observed := by
  rcases Option.bind_eq_some_iff.mp executed with ⟨turning, taken, continued⟩
  rcases Option.map_eq_some_iff.mp continued with ⟨final, takenLater, isObserved⟩
  exact ⟨turning, final, Reachable.execute sound (.initial rfl) taken,
    Reachable.execute laterSound (.initial rfl) takenLater, isObserved⟩

end

end Execution

end System

end Ternion
