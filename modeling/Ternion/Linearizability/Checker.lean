import Mathlib.Data.Fintype.Card
import Ternion.Foundation.Arrangement
import Ternion.Linearizability.Model

/-! # The history checker

The checker searches for an order of the operations that explains a history.
It places one operation after another, and takes back what does not lead to an
order. Pending operations can be left out.
-/

namespace Ternion.Linearizability

def Operation.completed (operation : Operation) : Bool :=
  operation.complete ≠ 0

def outcomeEqual (left right : Outcome) : Bool :=
  left.error = right.error && left.found = right.found && left.existed = right.existed &&
    left.value = right.value

/-- The operations that are placed or left out. -/
abbrev Used (history : List Operation) := Fin history.length → Bool

/-- Nothing that completed before the invocation is still to be placed. -/
def eligible (history : List Operation) (used : Used history) (index : Fin history.length) : Bool :=
  (List.finRange history.length).all fun prior =>
    used prior || prior = index || !(history.get prior).completed ||
      (history.get index).invoke < (history.get prior).complete

/-- The number is that of the operations that are not yet placed. -/
def checkOrder (history : List Operation) : Nat → Used history → Model → Bool
  | 0, _, _ => true
  | remaining + 1, used, state =>
      (List.finRange history.length).any (fun index =>
        !used index && eligible history used index &&
          outcomeEqual (state.apply (history.get index)).2 (history.get index).outcome &&
          checkOrder history remaining (Function.update used index true)
            (state.apply (history.get index)).1) ||
      -- A call without a completion is allowed to have no linearization point.
      (List.finRange history.length).any (fun index =>
        !used index && !(history.get index).completed && eligible history used index &&
          checkOrder history remaining (Function.update used index true) state)

/-- The checks of an operation's times. -/
def checkTimes (operation : Operation) : Except String Unit :=
  if operation.invoke = 0 then .error "operation has no invocation time"
  else if operation.completed && operation.complete < operation.invoke then
    .error "operation completed before invocation"
  else .ok ()

def check (history : List Operation) : Except String Unit := do
  forM history checkTimes
  if checkOrder history history.length (fun _ => false) {} then .ok ()
  else .error "history is not linearizable"

/-! ## Explanations of a history -/

/-- The first operation completed before the second was invoked. -/
def Precedes (history : List Operation) (first second : Fin history.length) : Prop :=
  (history.get first).completed ∧ (history.get first).complete ≤ (history.get second).invoke

/-- A step of the model by the number of an operation. -/
def applyAt (history : List Operation) (model : Model) (index : Fin history.length) :
    Model × Outcome :=
  model.apply (history.get index)

/-- An order of all completed and some pending operations that respects real
time, and in which completed operations have their recorded outcomes. -/
structure Explains (history : List Operation) (order : List (Fin history.length)) : Prop where
  complete : ∀ index, (history.get index).completed → index ∈ order
  arranged : Arranged (Precedes history) order
  answers : Answers (applyAt history) (fun index outcome =>
    (history.get index).completed → outcome = (history.get index).outcome) {} order

theorem outcomeEqual_iff {left right : Outcome} : outcomeEqual left right = true ↔
    left = right := by
  rcases left with ⟨value, found, existed, error⟩
  rcases right with ⟨otherValue, otherFound, otherExisted, otherError⟩
  simp only [outcomeEqual, Bool.and_eq_true, decide_eq_true_eq, Outcome.mk.injEq]
  constructor
  · rintro ⟨⟨⟨rfl, rfl⟩, rfl⟩, rfl⟩
    exact ⟨rfl, rfl, rfl, rfl⟩
  · rintro ⟨rfl, rfl, rfl, rfl⟩
    exact ⟨⟨⟨rfl, rfl⟩, rfl⟩, rfl⟩

variable {history : List Operation} {used : Used history} {index : Fin history.length}
  {state : Model} {remaining : Nat} {order : List (Fin history.length)}

theorem eligible_iff : eligible history used index = true ↔
    ∀ prior, used prior = false → prior ≠ index → ¬ Precedes history prior index := by
  simp only [eligible, List.all_eq_true, List.mem_finRange, forall_const, Bool.or_eq_true,
    decide_eq_true_eq, Precedes, Bool.not_eq_true']
  constructor
  · intro all prior unused different ⟨completed, before⟩
    rcases all prior with ((isUsed | same) | pending) | later
    · exact absurd (unused.symm.trans isUsed) Bool.false_ne_true
    · exact different same
    · exact absurd (pending.symm.trans completed) Bool.false_ne_true
    · omega
  · intro none prior
    by_cases isUsed : used prior = true
    · exact .inl (.inl (.inl isUsed))
    by_cases same : prior = index
    · exact .inl (.inl (.inr same))
    cases completed : (history.get prior).completed with
    | false => exact .inl (.inr rfl)
    | true =>
        have notBefore := none prior (Bool.eq_false_iff.mpr isUsed) same
        refine .inr (Int.not_le.mp fun before => notBefore ⟨completed, before⟩)

/-- What the search does with an operation. -/
inductive Choice (history : List Operation) (remaining : Nat) (used : Used history) (state : Model)
    (index : Fin history.length) : Prop
  | place (recorded : (applyAt history state index).2 = (history.get index).outcome)
      (searched : checkOrder history remaining (Function.update used index true)
        (applyAt history state index).1 = true)
  | leave (pending : (history.get index).completed = false)
      (searched : checkOrder history remaining (Function.update used index true) state = true)

theorem checkOrder_succ : checkOrder history (remaining + 1) used state = true ↔
    ∃ index, used index = false ∧ eligible history used index = true ∧
      Choice history remaining used state index := by
  simp only [checkOrder, Bool.or_eq_true, List.any_eq_true, List.mem_finRange, true_and,
    Bool.and_eq_true, Bool.not_eq_true', outcomeEqual_iff]
  constructor
  · rintro (⟨index, ⟨⟨unused, first⟩, recorded⟩, searched⟩ |
      ⟨index, ⟨⟨unused, pending⟩, first⟩, searched⟩)
    · exact ⟨index, unused, first, .place recorded searched⟩
    · exact ⟨index, unused, first, .leave pending searched⟩
  · rintro ⟨index, unused, first, ⟨recorded, searched⟩ | ⟨pending, searched⟩⟩
    · exact .inl ⟨index, ⟨⟨unused, first⟩, recorded⟩, searched⟩
    · exact .inr ⟨index, ⟨⟨unused, pending⟩, first⟩, searched⟩

/-- The operations that are still to be placed. -/
def unused (used : Used history) : Finset (Fin history.length) :=
  Finset.univ.filter fun index => used index = false

theorem mem_unused : index ∈ unused used ↔ used index = false := by
  simp [unused]

theorem unused_update (isUnused : used index = false) :
    (unused (Function.update used index true)).card + 1 = (unused used).card := by
  have erased : unused (Function.update used index true) = (unused used).erase index := by
    ext other
    rw [mem_unused, Finset.mem_erase, mem_unused, Function.update_apply]
    split_ifs with same
    · simp [same]
    · simp [same]
  rw [erased]
  exact Finset.card_erase_add_one (mem_unused.mpr isUnused)

theorem unused_of_update {other : Fin history.length}
    (isUnused : Function.update used index true other = false) :
    other ≠ index ∧ used other = false := by
  rw [Function.update_apply] at isUnused
  split_ifs at isUnused with same
  exact ⟨same, isUnused⟩

/-! ## What the search finds -/

theorem checkOrder_sound (searched : checkOrder history remaining used state = true)
    (count : (unused used).card = remaining) :
    ∃ order : List (Fin history.length), (∀ index ∈ order, used index = false) ∧
      (∀ index, used index = false → (history.get index).completed → index ∈ order) ∧
      Arranged (Precedes history) order ∧
      Answers (applyAt history) (fun index outcome => outcome = (history.get index).outcome)
        state order := by
  induction remaining generalizing used state with
  | zero =>
      refine ⟨[], fun _ absent => absurd absent List.not_mem_nil, ?_, .nil, trivial⟩
      intro index isUnused _
      have none := Finset.card_eq_zero.mp count
      rw [← mem_unused, none] at isUnused
      exact absurd isUnused (Finset.notMem_empty index)
  | succ remaining induction =>
      rcases checkOrder_succ.mp searched with ⟨index, isUnused, isEligible, choice⟩
      have fewer : (unused (Function.update used index true)).card = remaining := by
        have updated := unused_update isUnused
        omega
      cases choice with
      | place recorded searched =>
          rcases induction searched fewer with ⟨order, placed, all, arranged, answers⟩
          have fresh : index ∉ order := fun present =>
            (unused_of_update (placed index present)).1 rfl
          refine ⟨index :: order, ?_, ?_, arranged.cons fresh ?_, recorded, answers⟩
          · intro other present
            rcases List.mem_cons.mp present with rfl | later
            · exact isUnused
            · exact (unused_of_update (placed other later)).2
          · intro other otherUnused completed
            by_cases same : other = index
            · exact same ▸ List.mem_cons_self
            · apply List.mem_cons_of_mem
              apply all other _ completed
              rw [Function.update_of_ne same]
              exact otherUnused
          · intro other present
            rcases unused_of_update (placed other present) with ⟨different, otherUnused⟩
            exact eligible_iff.mp isEligible other otherUnused different
      | leave pending searched =>
          rcases induction searched fewer with ⟨order, placed, all, arranged, answers⟩
          refine ⟨order, fun other present => (unused_of_update (placed other present)).2, ?_,
            arranged, answers⟩
          intro other otherUnused completed
          have different : other ≠ index := by
            rintro rfl
            exact absurd (pending.symm.trans completed) Bool.false_ne_true
          apply all other _ completed
          rw [Function.update_of_ne different]
          exact otherUnused

theorem checkOrder_complete (count : (unused used).card = remaining)
    (placed : ∀ index ∈ order, used index = false)
    (all : ∀ index, used index = false → (history.get index).completed → index ∈ order)
    (arranged : Arranged (Precedes history) order)
    (answers : Answers (applyAt history)
      (fun index outcome => outcome = (history.get index).outcome) state order) :
    checkOrder history remaining used state = true := by
  induction remaining generalizing used state order with
  | zero => rfl
  | succ remaining induction =>
      apply checkOrder_succ.mpr
      cases order with
      | nil =>
          -- Only pending operations are left, and they are left out.
          have some : (unused used).Nonempty := by
            rw [← Finset.card_pos]
            omega
          rcases some with ⟨index, member⟩
          have isUnused := mem_unused.mp member
          have pending : ∀ index, used index = false → (history.get index).completed = false :=
            fun index isUnused => Bool.eq_false_iff.mpr fun completed =>
              absurd (all index isUnused completed) List.not_mem_nil
          have fewer := unused_update isUnused
          refine ⟨index, isUnused, eligible_iff.mpr ?_, .leave (pending index isUnused) ?_⟩
          · intro prior priorUnused _ before
            exact absurd ((pending prior priorUnused).symm.trans before.1) Bool.false_ne_true
          · apply induction (by omega) _ _ .nil trivial
            · exact fun _ absent => absurd absent List.not_mem_nil
            · intro other otherUnused completed
              exact absurd ((pending other (unused_of_update otherUnused).2).symm.trans completed)
                Bool.false_ne_true
      | cons index order =>
          rcases answers with ⟨recorded, later⟩
          have isUnused := placed index List.mem_cons_self
          have fewer := unused_update isUnused
          have fresh := (List.nodup_cons.mp arranged.distinct).1
          refine ⟨index, isUnused, eligible_iff.mpr ?_, .place recorded ?_⟩
          · intro prior priorUnused different before
            have present := all prior priorUnused before.1
            exact arranged.first ((List.mem_cons.mp present).resolve_left different) before
          · apply induction (by omega) _ _ arranged.tail later
            · intro other present
              have different : other ≠ index := fun same => fresh (same ▸ present)
              rw [Function.update_of_ne different]
              exact placed other (List.mem_cons_of_mem _ present)
            · intro other otherUnused completed
              rcases unused_of_update otherUnused with ⟨different, before⟩
              exact (List.mem_cons.mp (all other before completed)).resolve_left different

/-! ## Accepted histories -/

theorem unused_start : (unused (fun _ : Fin history.length => false)).card = history.length := by
  simp [unused]

theorem check_eq_ok : check history = .ok () ↔
    forM history checkTimes = .ok () ∧
      checkOrder history history.length (fun _ => false) {} = true := by
  rw [check, Fallible.bind_eq_ok]
  constructor
  · rintro ⟨_, timed, ordered⟩
    split_ifs at ordered with searched
    exact ⟨timed, searched⟩
  · rintro ⟨timed, searched⟩
    exact ⟨(), timed, by rw [if_pos searched]⟩

theorem Explains.of_answers (complete : ∀ index, (history.get index).completed → index ∈ order)
    (arranged : Arranged (Precedes history) order)
    (answers : Answers (applyAt history)
      (fun index outcome => outcome = (history.get index).outcome) {} order) :
    Explains history order :=
  ⟨complete, arranged, answers.mono fun _ _ recorded _ => recorded⟩

/-- A history that the checker accepts has an explanation. -/
theorem check_sound (history : List Operation) (accepted : check history = .ok ()) :
    ∃ order, Explains history order := by
  rcases checkOrder_sound (check_eq_ok.mp accepted).2 unused_start with
    ⟨order, _, all, arranged, answers⟩
  exact ⟨order, .of_answers (fun index => all index rfl) arranged answers⟩

/-- A timed-out SET took effect before a read found its value. -/
def timedOut : List Operation := [
  { kind := .set, sequence := 1, key := "k", value := [7], invoke := 1 },
  { kind := .delete, session := Vector.replicate 16 1, sequence := 1, key := "j", invoke := 2 },
  { kind := .get, key := "k", invoke := 3, complete := 4, outcome := { found := true, value := [7] } }]

theorem check_sound_timedOut : ∃ order, Explains timedOut order :=
  check_sound timedOut (by decide +kernel)

/-- An operation has an invocation time, and completes after it. -/
def Operation.Timed (operation : Operation) : Prop :=
  operation.invoke ≠ 0 ∧ (operation.completed → operation.invoke ≤ operation.complete)

instance (operation : Operation) : Decidable operation.Timed :=
  inferInstanceAs (Decidable (_ ∧ _))

theorem checkTimes_timed {operation : Operation} (timed : operation.Timed) :
    checkTimes operation = .ok () := by
  rcases timed with ⟨invoked, inOrder⟩
  rw [checkTimes, if_neg invoked, if_neg]
  simp only [Bool.and_eq_true, decide_eq_true_eq, not_and, Int.not_lt]
  exact inOrder

theorem forM_checkTimes (timed : ∀ operation ∈ history, operation.Timed) :
    forM history checkTimes = .ok () := by
  induction history with
  | nil => rfl
  | cons operation history induction =>
      rw [List.forM_cons, checkTimes_timed (timed operation List.mem_cons_self)]
      exact induction fun other present => timed other (List.mem_cons_of_mem _ present)

/-- Every placed operation has its recorded outcome, the pending ones too. -/
def Recorded (history : List Operation) (order : List (Fin history.length)) : Prop :=
  Answers (applyAt history) (fun index outcome => outcome = (history.get index).outcome) {} order

/-- The checker accepts a history exactly when some explanation also gives the
pending operations that it places the outcomes with which they were recorded. -/
theorem check_complete (history : List Operation)
    (timed : ∀ operation ∈ history, operation.Timed) :
    check history = .ok () ↔ ∃ order, Explains history order ∧ Recorded history order := by
  constructor
  · intro accepted
    rcases checkOrder_sound (check_eq_ok.mp accepted).2 unused_start with
      ⟨order, _, all, arranged, answers⟩
    exact ⟨order, .of_answers (fun index => all index rfl) arranged answers, answers⟩
  · rintro ⟨order, explains, recorded⟩
    apply check_eq_ok.mpr
    refine ⟨forM_checkTimes timed, checkOrder_complete unused_start (fun _ _ => rfl) ?_
      explains.arranged recorded⟩
    exact fun index _ => explains.complete index

instance (history : List Operation) (first second : Fin history.length) :
    Decidable (Precedes history first second) :=
  inferInstanceAs (Decidable (_ ∧ _))

theorem timedOut_explained : Explains timedOut [⟨0, by decide⟩, ⟨2, by decide⟩] where
  complete := by decide
  arranged := ⟨by decide, by decide⟩
  answers := by
    refine ⟨by decide +kernel, by decide +kernel, trivial⟩

theorem check_complete_timedOut : check timedOut = .ok () := by
  apply (check_complete timedOut (by decide)).mpr
  refine ⟨[⟨0, by decide⟩, ⟨2, by decide⟩], timedOut_explained, ?_⟩
  exact ⟨by decide +kernel, by decide +kernel, trivial⟩

/-- A timed-out DELETE took effect before a read found nothing. -/
def observedDeletion : List Operation := [
  { kind := .set, sequence := 1, key := "k", value := [7], invoke := 1, complete := 2 },
  { kind := .delete, sequence := 2, key := "k", invoke := 3 },
  { kind := .get, key := "k", invoke := 5, complete := 6, outcome := { error := "not_found" } }]

/-- The model answers the DELETE with a result that nobody recorded. -/
theorem check_incomplete :
    (∀ operation ∈ observedDeletion, operation.Timed) ∧
      Explains observedDeletion [⟨0, by decide⟩, ⟨1, by decide⟩, ⟨2, by decide⟩] ∧
      check observedDeletion = .error "history is not linearizable" := by
  refine ⟨by decide, ⟨by decide, ⟨by decide, by decide⟩, ?_⟩, by decide +kernel⟩
  refine ⟨by decide +kernel, by decide +kernel, by decide +kernel, trivial⟩

end Ternion.Linearizability
