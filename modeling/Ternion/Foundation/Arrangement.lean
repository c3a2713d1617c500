import Mathlib.Data.List.Nodup

/-! # Arrangements

Lists without repetitions that respect a precedence, and runs of an object
along a list of inputs.
-/

namespace Ternion

section Order

variable {α : Type} {precedes : α → α → Prop} {item : α} {order : List α}

structure Arranged (precedes : α → α → Prop) (order : List α) : Prop where
  distinct : order.Nodup
  respects : ∀ first ∈ order, ∀ second ∈ order, first ≠ second → precedes first second →
    [first, second].Sublist order

namespace Arranged

theorem nil : Arranged precedes [] where
  distinct := List.nodup_nil
  respects := fun _ absent => absurd absent List.not_mem_nil

theorem cons (arranged : Arranged precedes order) (fresh : item ∉ order)
    (first : ∀ other ∈ order, ¬ precedes other item) : Arranged precedes (item :: order) where
  distinct := List.nodup_cons.mpr ⟨fresh, arranged.distinct⟩
  respects := by
    intro one oneIn two twoIn different before
    rcases List.mem_cons.mp oneIn with rfl | oneLater
    · have twoLater : two ∈ order := (List.mem_cons.mp twoIn).resolve_left different.symm
      exact (List.singleton_sublist.mpr twoLater).cons_cons one
    · rcases List.mem_cons.mp twoIn with rfl | twoLater
      · exact absurd before (first one oneLater)
      · exact (arranged.respects one oneLater two twoLater different before).cons item

theorem first (arranged : Arranged precedes (item :: order)) {other : α} (later : other ∈ order) :
    ¬ precedes other item := by
  intro before
  have fresh := (List.nodup_cons.mp arranged.distinct).1
  have different : other ≠ item := fun same => fresh (same ▸ later)
  have behind := arranged.respects other (List.mem_cons_of_mem _ later) item List.mem_cons_self
    different before
  cases behind with
  | cons _ inside =>
      exact fresh (inside.subset (List.mem_cons_of_mem _ List.mem_cons_self))
  | cons_cons => exact different rfl

theorem tail (arranged : Arranged precedes (item :: order)) : Arranged precedes order where
  distinct := (List.nodup_cons.mp arranged.distinct).2
  respects := by
    intro one oneIn two twoIn different before
    have fresh := (List.nodup_cons.mp arranged.distinct).1
    have behind := arranged.respects one (List.mem_cons_of_mem _ oneIn) two
      (List.mem_cons_of_mem _ twoIn) different before
    cases behind with
    | cons _ inside => exact inside
    | cons_cons => exact absurd oneIn fresh

end Arranged

end Order

section Runs

variable {State Input Output : Type} {apply : State → Input → State × Output}
  {accepts : Input → Output → Prop}

def Answers (apply : State → Input → State × Output) (accepts : Input → Output → Prop) :
    State → List Input → Prop
  | _, [] => True
  | state, input :: inputs =>
      accepts input (apply state input).2 ∧ Answers apply accepts (apply state input).1 inputs

theorem Answers.mono {other : Input → Output → Prop} {state : State} {inputs : List Input}
    (weaker : ∀ input output, accepts input output → other input output)
    (answers : Answers apply accepts state inputs) : Answers apply other state inputs := by
  induction inputs generalizing state with
  | nil => trivial
  | cons input inputs induction => exact ⟨weaker _ _ answers.1, induction answers.2⟩

end Runs

end Ternion
