import Mathlib.Data.List.Nodup
import Mathlib.Logic.Function.Basic

/-! # Waiters and answers

Waiters stand in slots until they are answered. Registering a new waiter,
answering a slot and giving up on waiters keep every waiter in one slot at
most, and nobody is answered twice.
-/

namespace Ternion

structure Desk (Slot Waiter : Type) where
  slots : Slot → List Waiter
  answered : List Waiter

namespace Desk

variable {Slot Waiter : Type} [DecidableEq Slot] {desk : Desk Slot Waiter}

def register (desk : Desk Slot Waiter) (slot : Slot) (waiter : Waiter) : Desk Slot Waiter :=
  { desk with slots := Function.update desk.slots slot (desk.slots slot ++ [waiter]) }

/-- A waiter answered without standing in a slot. -/
def answer (desk : Desk Slot Waiter) (waiter : Waiter) : Desk Slot Waiter :=
  { desk with answered := desk.answered ++ [waiter] }

def serve (desk : Desk Slot Waiter) (slot : Slot) : Desk Slot Waiter where
  slots := Function.update desk.slots slot []
  answered := desk.answered ++ desk.slots slot

omit [DecidableEq Slot] in
def Known (desk : Desk Slot Waiter) (waiter : Waiter) : Prop :=
  waiter ∈ desk.answered ∨ ∃ slot, waiter ∈ desk.slots slot

omit [DecidableEq Slot] in
/-- Every waiter stands in one slot at most, is answered at most once, and
leaves its slot when it is answered. -/
structure Once (desk : Desk Slot Waiter) : Prop where
  distinct : ∀ slot, (desk.slots slot).Nodup
  apart : ∀ {first second waiter}, waiter ∈ desk.slots first → waiter ∈ desk.slots second →
    first = second
  waiting : ∀ {slot waiter}, waiter ∈ desk.slots slot → waiter ∉ desk.answered
  answeredOnce : desk.answered.Nodup

theorem register_self (desk : Desk Slot Waiter) (slot : Slot) (waiter : Waiter) :
    (desk.register slot waiter).slots slot = desk.slots slot ++ [waiter] :=
  Function.update_self ..

theorem register_other {slot other : Slot} (different : other ≠ slot) (waiter : Waiter) :
    (desk.register slot waiter).slots other = desk.slots other :=
  Function.update_of_ne different ..

theorem serve_self (desk : Desk Slot Waiter) (slot : Slot) : (desk.serve slot).slots slot = [] :=
  Function.update_self ..

theorem serve_other {slot other : Slot} (different : other ≠ slot) :
    (desk.serve slot).slots other = desk.slots other :=
  Function.update_of_ne different ..

/-! ## Registering -/

theorem mem_register {slot other : Slot} {waiter newcomer : Waiter} :
    waiter ∈ (desk.register slot newcomer).slots other ↔
      waiter ∈ desk.slots other ∨ other = slot ∧ waiter = newcomer := by
  by_cases same : other = slot
  · subst same
    simp [register_self]
  · simp [register_other same, same]

theorem Known.register {waiter : Waiter} (known : desk.Known waiter) (slot : Slot)
    (newcomer : Waiter) : (desk.register slot newcomer).Known waiter := by
  rcases known with answered | ⟨other, present⟩
  · exact .inl answered
  · exact .inr ⟨other, mem_register.mpr (.inl present)⟩

theorem known_register (desk : Desk Slot Waiter) (slot : Slot) (newcomer : Waiter) :
    (desk.register slot newcomer).Known newcomer :=
  .inr ⟨slot, mem_register.mpr (.inr ⟨rfl, rfl⟩)⟩

theorem of_known_register {slot : Slot} {waiter newcomer : Waiter}
    (known : (desk.register slot newcomer).Known waiter) :
    desk.Known waiter ∨ waiter = newcomer := by
  rcases known with answered | ⟨other, present⟩
  · exact .inl (.inl answered)
  · rcases mem_register.mp present with earlier | ⟨_, isNew⟩
    · exact .inl (.inr ⟨other, earlier⟩)
    · exact .inr isNew

theorem Once.register (once : desk.Once) (slot : Slot) {newcomer : Waiter}
    (fresh : ¬desk.Known newcomer) : (desk.register slot newcomer).Once := by
  have noSlot : ∀ other, newcomer ∉ desk.slots other :=
    fun other present => fresh (.inr ⟨other, present⟩)
  constructor
  · intro other
    by_cases same : other = slot
    · subst same
      rw [register_self]
      exact List.nodup_append.mpr ⟨once.distinct other, List.nodup_singleton _, by
        intro waiter present isNew isNewMember equal
        rw [List.mem_singleton.mp isNewMember] at equal
        exact noSlot other (equal ▸ present)⟩
    · rw [register_other same]
      exact once.distinct other
  · intro first second waiter inFirst inSecond
    rcases mem_register.mp inFirst with earlierFirst | ⟨isFirst, isNew⟩
    · rcases mem_register.mp inSecond with earlierSecond | ⟨_, isNew⟩
      · exact once.apart earlierFirst earlierSecond
      · exact absurd (isNew ▸ earlierFirst) (noSlot first)
    · rcases mem_register.mp inSecond with earlierSecond | ⟨isSecond, _⟩
      · exact absurd (isNew ▸ earlierSecond) (noSlot second)
      · rw [isFirst, isSecond]
  · intro other waiter present answered
    rcases mem_register.mp present with earlier | ⟨_, isNew⟩
    · exact once.waiting earlier answered
    · exact fresh (.inl (isNew ▸ answered))
  · exact once.answeredOnce

/-! ## Answering -/

omit [DecidableEq Slot] in
theorem Known.answer {waiter : Waiter} (known : desk.Known waiter) (other : Waiter) :
    (desk.answer other).Known waiter := by
  rcases known with answered | present
  · exact .inl (List.mem_append_left _ answered)
  · exact .inr present

omit [DecidableEq Slot] in
theorem of_known_answer {waiter other : Waiter} (known : (desk.answer other).Known waiter) :
    desk.Known waiter ∨ waiter = other := by
  rcases known with answered | present
  · rcases List.mem_append.mp answered with earlier | isNew
    · exact .inl (.inl earlier)
    · exact .inr (List.mem_singleton.mp isNew)
  · exact .inl (.inr present)

omit [DecidableEq Slot] in
theorem Once.answer (once : desk.Once) {waiter : Waiter} (fresh : ¬desk.Known waiter) :
    (desk.answer waiter).Once := by
  constructor
  · exact once.distinct
  · exact once.apart
  · intro slot other present answered
    rcases List.mem_append.mp answered with earlier | isNew
    · exact once.waiting present earlier
    · exact fresh (.inr ⟨slot, List.mem_singleton.mp isNew ▸ present⟩)
  · exact List.nodup_append.mpr ⟨once.answeredOnce, List.nodup_singleton _, by
      intro other answered isNew isNewMember equal
      rw [List.mem_singleton.mp isNewMember] at equal
      exact fresh (.inl (equal ▸ answered))⟩

theorem known_serve {slot : Slot} {waiter : Waiter} :
    (desk.serve slot).Known waiter ↔ desk.Known waiter := by
  constructor
  · rintro (answered | ⟨other, present⟩)
    · rcases List.mem_append.mp answered with earlier | served
      · exact .inl earlier
      · exact .inr ⟨slot, served⟩
    · by_cases same : other = slot
      · rw [same, serve_self] at present
        cases present
      · rw [serve_other same] at present
        exact .inr ⟨other, present⟩
  · rintro (answered | ⟨other, present⟩)
    · exact .inl (List.mem_append_left _ answered)
    · by_cases same : other = slot
      · exact .inl (List.mem_append_right _ (same ▸ present))
      · refine .inr ⟨other, ?_⟩
        rw [serve_other same]
        exact present

theorem Once.serve (once : desk.Once) (slot : Slot) : (desk.serve slot).Once := by
  have elsewhere : ∀ {other waiter}, waiter ∈ (desk.serve slot).slots other →
      other ≠ slot ∧ waiter ∈ desk.slots other := by
    intro other waiter present
    by_cases same : other = slot
    · rw [same, serve_self] at present
      cases present
    · rw [serve_other same] at present
      exact ⟨same, present⟩
  constructor
  · intro other
    by_cases same : other = slot
    · rw [same, serve_self]
      exact List.nodup_nil
    · rw [serve_other same]
      exact once.distinct other
  · exact fun inFirst inSecond => once.apart (elsewhere inFirst).2 (elsewhere inSecond).2
  · intro other waiter present answered
    rcases elsewhere present with ⟨different, present⟩
    rcases List.mem_append.mp answered with earlier | served
    · exact once.waiting present earlier
    · exact different (once.apart present served)
  · apply List.nodup_append.mpr
      ⟨once.answeredOnce, once.distinct slot, fun waiter answered other served equal => ?_⟩
    exact once.waiting served (equal ▸ answered)

/-! ## Giving up and closing -/

omit [DecidableEq Slot] in
theorem Once.leave (once : desk.Once) {slots : Slot → List Waiter}
    (remain : ∀ slot, (slots slot).Sublist (desk.slots slot)) :
    { desk with slots := slots }.Once where
  distinct := fun slot => (remain slot).nodup (once.distinct slot)
  apart := fun inFirst inSecond =>
    once.apart ((remain _).subset inFirst) ((remain _).subset inSecond)
  waiting := fun present => once.waiting ((remain _).subset present)
  answeredOnce := once.answeredOnce

omit [DecidableEq Slot] in
theorem Once.close (once : desk.Once) {waiters : List Waiter} (distinct : waiters.Nodup)
    (all : ∀ waiter, waiter ∈ waiters ↔ ∃ slot, waiter ∈ desk.slots slot) :
    ({ slots := fun _ => [], answered := desk.answered ++ waiters } : Desk Slot Waiter).Once where
  distinct := fun _ => List.nodup_nil
  apart := fun present => absurd present List.not_mem_nil
  waiting := fun present => absurd present List.not_mem_nil
  answeredOnce := by
    apply List.nodup_append.mpr ⟨once.answeredOnce, distinct, ?_⟩
    intro waiter answered other waits equal
    rcases (all other).mp waits with ⟨slot, present⟩
    exact once.waiting present (equal ▸ answered)

end Desk

end Ternion
