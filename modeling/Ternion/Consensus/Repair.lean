import Ternion.Foundation.Agreement
import Mathlib.Tactic.SplitIfs

/-! # Repairing a history

A Leader repairs the history of a Follower in rounds. In each of them it probes
the position before the next entry to send, and the Follower refuses, confirms
or copies. What a round may do is stated here without a word about Terms or
messages. A gap that is repairable has a rank that falls with every round until
the histories are equal, and a gap that is stuck stays so.

The Leader's history and base stay as they are.
-/

namespace Ternion.Consensus

variable {Entry : Type} [DecidableEq Entry]

/-- What a Leader sends from: its history, how much of it is compacted, and the
last position of the batch that starts at a given one. -/
structure Source (Entry : Type) where
  history : List Entry
  base : Nat
  reach : Nat → Nat
  le_reach : ∀ first, base < first → first ≤ history.length → first ≤ reach first
  reach_le : ∀ first, base < first → first ≤ history.length + 1 → reach first ≤ history.length

/-- `commit` is what the Follower will not replace, and `announced` how far the
next request says that it may commit. -/
structure Gap (Entry : Type) where
  history : List Entry
  base : Nat
  next : Nat
  matched : Nat
  commit : Nat
  announced : Nat

namespace Gap

def common (source : Source Entry) (gap : Gap Entry) : Nat :=
  commonLength gap.history source.history

/-- The first entry that is sent, after a Snapshot if the next one is compacted. -/
def first (source : Source Entry) (gap : Gap Entry) : Nat := max gap.next (source.base + 1)

/-- The Follower reports the end of the history it holds after a request. -/
def taking (source : Source Entry) (gap : Gap Entry) (history : List Entry)
    (announced : Nat) : Gap Entry where
  history := history
  base := gap.base
  next := min (max gap.matched history.length) source.history.length + 1
  matched := max gap.matched history.length
  commit := max gap.commit (min gap.announced history.length)
  announced := announced

inductive Round (source : Source Entry) (gap : Gap Entry) : Gap Entry → Prop
  | transferred : gap.next ≤ source.base →
      Round source gap { gap with
        base := max gap.base source.base
        next := source.base + 1
        matched := max gap.matched source.base
        commit := max gap.commit source.base }
  | refused {next announced : Nat} : source.base < gap.next →
      gap.common source < gap.next - 1 → gap.common source < next → next < gap.next →
      (gap.history.length < gap.next - 1 → next = gap.history.length + 1) →
      Round source gap { gap with next := next, announced := announced }
  | unread {announced : Nat} : source.base < gap.next → max gap.next 2 ≤ gap.base →
      Round source gap { gap with next := max 1 (gap.next - 1), announced := announced }
  | objected {next announced : Nat} : source.base < gap.next →
      gap.common source < source.reach gap.next → gap.common source < gap.commit →
      0 < next → next ≤ source.history.length + 1 →
      Round source gap { gap with next := next, announced := announced }
  | confirmed {announced : Nat} : source.base < gap.next → gap.base < max gap.next 2 →
      gap.next - 1 ≤ gap.common source → source.reach gap.next ≤ gap.common source →
      Round source gap (gap.taking source gap.history announced)
  | copied {announced : Nat} : source.base < gap.next → gap.base < max gap.next 2 →
      gap.common source < source.reach gap.next → gap.commit ≤ gap.common source →
      Round source gap (gap.taking source (source.history.take (source.reach gap.next)) announced)

/-- What was compacted is common, and the next entry is one that can be sent. -/
structure Placed (source : Source Entry) (gap : Gap Entry) : Prop where
  base_le : gap.base ≤ gap.common source
  leaderBase_le : source.base ≤ gap.common source
  positive : 0 < gap.next
  bounded : gap.next ≤ source.history.length + 1
  settled : gap.base ≤ gap.commit
  held : gap.commit ≤ gap.history.length

/-- A gap that rounds close. The Follower can read where it is probed, and when
it holds entries that the Leader does not, the batch it confirms includes one
of them or neither commits them nor makes the Leader count on too much. -/
structure Repairable (source : Source Entry) (gap : Gap Entry) : Prop where
  committed : gap.commit ≤ gap.common source
  matched_le : gap.matched ≤ source.history.length
  readable : gap.base < max (gap.first source) 2
  ends : gap.common source = source.history.length → gap.history.length = source.history.length
  exposed : gap.history.length ≤ gap.common source ∨ gap.common source < gap.first source ∨
    gap.common source < source.reach (gap.first source) ∨
    gap.history.length ≤ source.history.length ∧ gap.announced ≤ gap.common source

def Closed (source : Source Entry) (gap : Gap Entry) : Prop :=
  gap.history = source.history ∧ gap.matched = source.history.length

/-- A gap that no round closes. The Follower holds entries on top of the Leader's
history, or it is probed where it cannot read, or it keeps an entry that the
Leader does not hold: it has committed it, or confirms it in the next round. -/
inductive Stuck (source : Source Entry) (gap : Gap Entry) : Prop
  | longer : gap.common source = source.history.length →
      source.history.length < gap.history.length → Stuck source gap
  | unread : max (gap.first source) 2 ≤ gap.base → ¬gap.Closed source → Stuck source gap
  | committed : gap.common source < source.history.length → gap.common source < gap.commit →
      Stuck source gap
  | confirming : gap.common source < gap.history.length →
      gap.common source < source.history.length → gap.first source ≤ gap.common source →
      source.reach (gap.first source) ≤ gap.common source →
      source.history.length < gap.history.length ∨ gap.common source < gap.announced →
      Stuck source gap

/-- How many rounds a gap may still take. A Follower that holds entries the
Leader does not confirms them at most once and is then probed downwards; after
that every third round at the latest adds an entry. -/
def rankAt (length base common held next first : Nat) : Nat :=
  if common < held then
    4 * length + 4 + (if first ≤ common then length + 2 else 0) +
      if next ≤ base then length + 2 else next
  else
    4 * (length - held) +
      if next ≤ base then 3 else if next ≤ held then 2 else if held + 1 < next then 1 else 0

def rank (source : Source Entry) (gap : Gap Entry) : Nat :=
  rankAt source.history.length source.base (gap.common source) gap.history.length gap.next
    (gap.first source)

section Rounds

variable {source : Source Entry} {gap after : Gap Entry}

theorem common_le_history (source : Source Entry) (gap : Gap Entry) :
    gap.common source ≤ gap.history.length :=
  (agreeThrough_iff.mpr (le_refl (gap.common source))).1

theorem common_le_leader (source : Source Entry) (gap : Gap Entry) :
    gap.common source ≤ source.history.length :=
  (agreeThrough_iff.mpr (le_refl (gap.common source))).2.1

theorem common_taking {count announced : Nat} (within : count ≤ source.history.length) :
    common source (gap.taking source (source.history.take count) announced) = count := by
  apply le_antisymm
  · exact (common_le_history _ _).trans (List.length_take_le _ _)
  · exact agreeThrough_iff.mp (agreeThrough_take source.history le_rfl within)

theorem eq_of_common (whole : gap.common source = source.history.length)
    (ends : gap.history.length = source.history.length) : gap.history = source.history := by
  have agree := (agreeThrough_iff.mpr (le_refl (gap.common source))).2.2
  rw [whole, ← ends, List.take_length, ends, List.take_length] at agree
  exact agree

theorem Placed.round (placed : gap.Placed source) (taken : Round source gap after) :
    after.Placed source := by
  have upper := common_le_leader source gap
  have lower := common_le_history source gap
  rcases placed with ⟨base_le, leaderBase_le, positive, bounded, settled, held⟩
  cases taken with
  | transferred =>
      exact ⟨max_le base_le leaderBase_le, leaderBase_le, Nat.succ_pos _,
        Nat.succ_le_succ (leaderBase_le.trans upper), by dsimp only; omega,
        max_le held (leaderBase_le.trans lower)⟩
  | refused _ _ lower later =>
      exact ⟨base_le, leaderBase_le, Nat.zero_lt_of_lt lower, later.le.trans bounded, settled, held⟩
  | unread =>
      exact ⟨base_le, leaderBase_le, by dsimp only; omega, by dsimp only; omega, settled, held⟩
  | objected _ _ _ nonzero within => exact ⟨base_le, leaderBase_le, nonzero, within, settled, held⟩
  | confirmed =>
      exact ⟨base_le, leaderBase_le, Nat.succ_pos _, Nat.succ_le_succ (min_le_right _ _),
        settled.trans (le_max_left _ _), max_le held (min_le_right _ _)⟩
  | copied above _ beyond atMost =>
      rw [← common_taking (source.reach_le gap.next above bounded)] at beyond
      exact ⟨base_le.trans beyond.le, leaderBase_le.trans beyond.le, Nat.succ_pos _,
        Nat.succ_le_succ (min_le_right _ _), settled.trans (le_max_left _ _),
        max_le ((atMost.trans beyond.le).trans (common_le_history _ _)) (min_le_right _ _)⟩

section Progress

variable (placed : gap.Placed source) (repairable : gap.Repairable source)

include placed repairable

/-- A Follower that confirms its history holds nothing else than the Leader, or
the request says nothing of the rest. -/
theorem Repairable.confirmed_covers (above : source.base < gap.next)
    (probed : gap.next - 1 ≤ gap.common source)
    (covered : source.reach gap.next ≤ gap.common source) :
    gap.history.length = gap.common source ∨ gap.next ≤ gap.common source ∧
      gap.history.length ≤ source.history.length ∧ gap.announced ≤ gap.common source := by
  have lower := common_le_history source gap
  have upper := common_le_leader source gap
  have exposed := repairable.exposed
  rw [first, Nat.max_eq_left above] at exposed
  by_cases ahead : gap.common source < gap.next
  · -- Nothing is left to send, so the common part is the whole history.
    have final : source.history.length < gap.next := by
      by_contra within
      have := source.le_reach gap.next above (by omega)
      omega
    have := placed.bounded
    have := repairable.ends (by omega)
    omega
  · omega

theorem Repairable.transferred (compacted : gap.next ≤ source.base)
    (isAfter : after = { gap with
      base := max gap.base source.base
      next := source.base + 1
      matched := max gap.matched source.base
      commit := max gap.commit source.base }) :
    after.Repairable source ∧ after.rank source < gap.rank source := by
  have upper := common_le_leader source gap
  have leaderBase_le := placed.leaderBase_le
  rcases repairable with ⟨committed, matched_le, readable, ends, exposed⟩
  have isFirst : gap.first source = source.base + 1 := Nat.max_eq_right (by omega)
  have sameFirst : after.first source = source.base + 1 := by
    rw [isAfter]
    exact Nat.max_self _
  rw [isFirst] at readable exposed
  subst isAfter
  constructor
  · refine ⟨max_le committed leaderBase_le, max_le matched_le (leaderBase_le.trans upper), ?_, ends,
      ?_⟩
    · rw [sameFirst]
      dsimp only
      omega
    · rwa [sameFirst]
  · rw [rank, rank, sameFirst, isFirst]
    change rankAt _ _ (gap.common source) gap.history.length (source.base + 1) _ < _
    unfold rankAt
    split_ifs <;> omega

theorem Repairable.refused {next announced : Nat}
    (above : source.base < gap.next) (beyond : gap.common source < gap.next - 1)
    (lower : gap.common source < next) (upper : next < gap.next)
    (short : gap.history.length < gap.next - 1 → next = gap.history.length + 1)
    (isAfter : after = { gap with next := next, announced := announced }) :
    after.Repairable source ∧ after.rank source < gap.rank source := by
  have atMost := common_le_history source gap
  rcases placed with ⟨base_le, leaderBase_le, _, bounded, _, _⟩
  rcases repairable with ⟨committed, matched_le, _, ends, _⟩
  have isFirst : gap.first source = gap.next := Nat.max_eq_left above
  have newFirst : after.first source = next := by
    rw [isAfter]
    exact Nat.max_eq_left (show source.base + 1 ≤ next by omega)
  subst isAfter
  constructor
  · refine ⟨committed, matched_le, ?_, ends, .inr (.inl ?_)⟩
    · rw [newFirst]
      dsimp only
      omega
    · rwa [newFirst]
  · rw [rank, rank, isFirst, newFirst]
    change rankAt _ _ (gap.common source) gap.history.length next _ < _
    unfold rankAt
    split_ifs <;> omega

theorem Repairable.confirmed {announced : Nat}
    (above : source.base < gap.next) (probed : gap.next - 1 ≤ gap.common source)
    (covered : source.reach gap.next ≤ gap.common source)
    (isAfter : after = gap.taking source gap.history announced) :
    after.Closed source ∨ after.Repairable source ∧ after.rank source < gap.rank source := by
  have covers := repairable.confirmed_covers placed above probed covered
  have upper := common_le_leader source gap
  have lower := common_le_history source gap
  rcases placed with ⟨base_le, leaderBase_le, _, bounded, _, _⟩
  rcases repairable with ⟨committed, matched_le, readable, ends, _⟩
  subst isAfter
  by_cases whole : gap.common source = source.history.length
  · left
    refine ⟨eq_of_common whole (ends whole), ?_⟩
    have := ends whole
    dsimp only [taking]
    omega
  · right
    -- A batch that starts after the history would have brought an entry.
    have behind : gap.next ≤ gap.history.length := by
      by_contra ahead
      have := source.le_reach gap.next above (by omega)
      omega
    have isFirst : gap.first source = gap.next := Nat.max_eq_left above
    have newFirst : (gap.taking source gap.history announced).first source =
        max gap.matched gap.history.length + 1 := by
      simp only [first, taking]
      omega
    constructor
    · refine ⟨?_, ?_, ?_, ends, .inr (.inl ?_)⟩
      · dsimp only [taking, common] at *
        omega
      · dsimp only [taking]
        omega
      · rw [newFirst]
        dsimp only [taking]
        omega
      · rw [newFirst]
        dsimp only [taking, common] at *
        omega
    · rw [rank, rank, isFirst, newFirst]
      change rankAt _ _ (gap.common source) gap.history.length
        (min (max gap.matched gap.history.length) source.history.length + 1) _ < _
      unfold rankAt
      split_ifs <;> omega

theorem Repairable.copied {announced : Nat}
    (above : source.base < gap.next) (beyond : gap.common source < source.reach gap.next)
    (isAfter : after = gap.taking source (source.history.take (source.reach gap.next)) announced) :
    after.Repairable source ∧ after.rank source < gap.rank source := by
  have atMost := common_le_history source gap
  have within := source.reach_le gap.next above placed.bounded
  rcases placed with ⟨base_le, leaderBase_le, _, bounded, _, _⟩
  rcases repairable with ⟨committed, matched_le, _, _, _⟩
  have isCommon : after.common source = source.reach gap.next := by
    rw [isAfter]
    exact common_taking within
  have length : (source.history.take (source.reach gap.next)).length = source.reach gap.next :=
    List.length_take_of_le within
  have newFirst : after.first source = max gap.matched (source.reach gap.next) + 1 := by
    rw [isAfter]
    simp only [first, taking, length]
    omega
  constructor
  · refine ⟨?_, ?_, ?_, ?_, .inl ?_⟩
    · rw [isCommon, isAfter]
      simp only [taking, length]
      omega
    · rw [isAfter]
      simp only [taking, length]
      omega
    · rw [newFirst, isAfter]
      dsimp only [taking]
      omega
    · rw [isCommon, isAfter]
      simp only [taking, length, imp_self]
    · rw [isCommon, isAfter]
      simp only [taking, length, le_refl]
  · rw [rank, rank, newFirst, isCommon, isAfter]
    simp only [taking, length, rankAt, lt_irrefl, if_false]
    split_ifs <;> omega

theorem Repairable.round (taken : Round source gap after) :
    after.Closed source ∨ after.Repairable source ∧ after.rank source < gap.rank source := by
  cases taken with
  | transferred compacted => exact .inr (repairable.transferred placed compacted rfl)
  | refused above beyond lower upper short =>
      exact .inr (repairable.refused placed above beyond lower upper short rfl)
  | unread above unread =>
      have readable := repairable.readable
      rw [first, Nat.max_eq_left above] at readable
      omega
  | objected _ _ committed => exact absurd repairable.committed committed.not_ge
  | confirmed above _ probed covered =>
      exact repairable.confirmed placed above probed covered rfl
  | copied above _ beyond => exact .inr (repairable.copied placed above beyond rfl)

end Progress

theorem Stuck.not_closed (stuck : gap.Stuck source) : ¬gap.Closed source := by
  intro closed
  have whole : source.history.length ≤ gap.common source := by
    rw [common, closed.1]
    exact agreeThrough_iff.mp (.refl _ le_rfl)
  have length := congrArg List.length closed.1
  cases stuck with
  | longer => omega
  | unread _ unclosed => exact unclosed closed
  | committed => omega
  | confirming => omega

theorem repairable_or_stuck (committed : gap.commit ≤ gap.common source)
    (unclosed : ¬gap.Closed source) :
    gap.Repairable source ∨ gap.Stuck source ∨ source.history.length < gap.matched := by
  have lower := common_le_history source gap
  have upper := common_le_leader source gap
  by_contra neither
  simp only [not_or] at neither
  rcases neither with ⟨unrepairable, free, matched⟩
  refine unrepairable ⟨committed, by omega, ?_, fun whole => ?_, ?_⟩
  · by_contra unread
    exact free (.unread (Nat.le_of_not_lt unread) unclosed)
  · by_contra longer
    exact free (.longer whole (by omega))
  · by_contra hidden
    by_cases whole : gap.common source = source.history.length
    · exact free (.longer whole (by omega))
    · exact free (.confirming (by omega) (by omega) (by omega) (by omega) (by omega))

/-- A stuck gap stays stuck, or the Leader counts on more than it holds. -/
theorem Stuck.round (placed : gap.Placed source) (stuck : gap.Stuck source)
    (taken : Round source gap after) :
    (after.Stuck source ∨ source.history.length < after.matched) ∧ after.history = gap.history := by
  have upper := common_le_leader source gap
  have unclosed := stuck.not_closed
  rcases placed with ⟨base_le, leaderBase_le, _, bounded, _, _⟩
  have isFirst : source.base < gap.next → gap.first source = gap.next := Nat.max_eq_left
  cases taken with
  | transferred compacted =>
      refine ⟨.inl ?_, rfl⟩
      have isFirst : gap.first source = source.base + 1 := Nat.max_eq_right (by omega)
      cases stuck with
      | longer whole longer => exact .longer whole longer
      | unread unread =>
          rw [isFirst] at unread
          refine .unread ?_ fun closed => unclosed ⟨closed.1, ?_⟩
          · dsimp only [first]
            omega
          · have := closed.2
            dsimp only at this
            omega
      | committed within committed => exact .committed within (committed.trans_le (le_max_left _ _))
      | confirming parted within early covered harm =>
          have sameFirst := isFirst.trans (Nat.max_self _).symm
          rw [sameFirst] at early covered
          exact .confirming parted within early covered harm
  | refused above beyond =>
      have isFirst := isFirst above
      cases stuck with
      | committed within committed => exact ⟨.inl (.committed within committed), rfl⟩
      | longer => omega
      | unread unread => omega
      | confirming => omega
  | unread above unread =>
      refine ⟨.inl (.unread ?_ unclosed), rfl⟩
      dsimp only [first]
      omega
  | objected above beyond committed =>
      exact ⟨.inl (.committed (beyond.trans_le (source.reach_le gap.next above bounded))
        committed), rfl⟩
  | confirmed above readable =>
      refine ⟨?_, rfl⟩
      rw [← isFirst above] at readable
      cases stuck with
      | longer whole longer => exact .inl (.longer whole longer)
      | unread unread => omega
      | committed within committed =>
          exact .inl (.committed within (committed.trans_le (le_max_left _ _)))
      | confirming parted within _ _ harm =>
          rcases harm with longer | announced
          · exact .inr (longer.trans_le (le_max_right _ _))
          · exact .inl (.committed within ((lt_min announced parted).trans_le (le_max_right _ _)))
  | copied above readable beyond atMost =>
      have := source.reach_le gap.next above bounded
      cases stuck with
      | longer => omega
      | unread unread =>
          rw [isFirst above] at unread
          omega
      | committed => omega
      | confirming _ _ _ covered =>
          rw [isFirst above] at covered
          omega

end Rounds

end Gap

end Ternion.Consensus
