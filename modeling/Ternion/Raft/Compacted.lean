import Ternion.Foundation.Consecutive
import Ternion.Raft.Hints

/-! # A log whose beginning was compacted

The history of a Node is its log together with the entries that a Snapshot took
the place of. What a Node reads of its log is read of its history, as long as
the position is not below the base. The hints of a rejection are judged here
for any bases of the two logs.
-/

namespace Ternion.Raft

open Consensus

structure CompactedLog (base baseTerm : Nat) (log : List LogEntry)
    (lastLogIndex lastLogTerm : Nat) (history : List LogEntry) : Prop where
  indexed : Indexed history
  within : base ≤ history.length
  baseTerm : baseTerm = entryTerm history base
  log : log = history.drop base
  lastIndex : lastLogIndex = history.length
  lastTerm : lastLogTerm = entryTerm history history.length

theorem Indexed.consecutive {log : List LogEntry} (indexed : Indexed log) :
    Consecutive LogEntry.index 0 log :=
  .of_position_eq fun offset entry found => by rw [indexed offset entry found, Nat.zero_add]

/-- Entries of one Term come from the log of one Leader: Terms never fall along
a history, and an entry whose Term the Leader holds there or later is the
Leader's own. -/
structure Aligned (history leaderHistory : List LogEntry) : Prop where
  positive : ∀ entry ∈ history, 0 < entry.term
  sorted : ∀ index later, index ≤ later → later ≤ history.length →
    entryTerm history index ≤ entryTerm history later
  owned : ∀ index other, 0 < index → index ≤ other → index ≤ history.length →
    other ≤ leaderHistory.length → entryTerm history index = entryTerm leaderHistory other →
    AgreeThrough history leaderHistory index

section

variable {history leaderHistory : List LogEntry}

theorem Aligned.of_bounded (bounded : (∀ entry ∈ history, 0 < entry.term) ∧
      (∀ later ≤ history.length, ∀ index ≤ later,
        entryTerm history index ≤ entryTerm history later) ∧
      ∀ index ≤ history.length, ∀ other ≤ leaderHistory.length, 0 < index ∧ index ≤ other ∧
        entryTerm history index = entryTerm leaderHistory other →
        AgreeThrough history leaderHistory index) : Aligned history leaderHistory :=
  ⟨bounded.1, fun index later ordered within => bounded.2.1 later within index ordered,
    fun index other positive ordered inside within same =>
      bounded.2.2 index inside other within ⟨positive, ordered, same⟩⟩

theorem Aligned.logsMatch
    (aligned : Aligned history leaderHistory) : Node.LogsMatch history leaderHistory :=
  fun index positive inside leaderInside same =>
    aligned.owned index index positive le_rfl inside leaderInside same

theorem entryTerm_parted {index : Nat} (logsMatch : Node.LogsMatch history leaderHistory)
    (beyond : commonLength history leaderHistory < index) (inside : index ≤ history.length)
    (leaderInside : index ≤ leaderHistory.length) :
    entryTerm history index ≠ entryTerm leaderHistory index := by
  intro same
  have agree := logsMatch index (by omega) inside leaderInside same
  have := agreeThrough_iff.mp agree
  omega

end

namespace Node

theorem Intake.common_lt {history leaderHistory newEntries : List LogEntry}
    {commitIndex reach truncateFrom : Nat} (some_ : newEntries ≠ [])
    (intake : Intake history leaderHistory commitIndex reach (some (newEntries, truncateFrom))) :
    commonLength history leaderHistory < reach := by
  have agree := agreeThrough_iff.mpr (le_refl (commonLength history leaderHistory))
  cases intake with
  | covered => exact absurd rfl some_
  | extended _ _ _ longer => exact agree.1.trans_lt longer
  | replaced _ _ _ _ _ differ _ reaches =>
      by_contra beyond
      exact differ (entryTerm_agree agree (by omega))

/-- The Node holds the part of the history after its base. -/
abbrev Compacted (node : Node) (history : List LogEntry) : Prop :=
  CompactedLog node.logBaseIndex node.logBaseTerm node.log node.lastLogIndex node.lastLogTerm
    history

theorem firstOfTerm_above {node : Node} {term index : Nat} (above : node.logBaseIndex < index) :
    node.logBaseIndex < node.firstOfTerm term index := by
  induction index with
  | zero => omega
  | succ first induction =>
      rw [firstOfTerm]
      split_ifs with earlier
      · exact induction earlier.1
      · exact above

namespace Compacted

variable {node : Node} {history : List LogEntry}

/-! ## Reading a position -/

theorem termAt (compacted : node.Compacted history) {index : Nat}
    (above : node.logBaseIndex ≤ index) : node.termAt index = entryTerm history index := by
  rw [Node.termAt]
  split_ifs with isBase outside
  · rw [isBase, compacted.baseTerm]
  · rw [compacted.lastIndex] at outside
    rw [entryTerm_outside (by omega)]
  · rw [compacted.log, List.getElem?_drop, entryTerm, if_neg (by omega)]
    rw [show node.logBaseIndex + (index - node.logBaseIndex - 1) = index - 1 by omega]

theorem termAt_below {index : Nat} (below : index < node.logBaseIndex) : node.termAt index = 0 := by
  rw [Node.termAt, if_neg (by omega), if_pos (by omega)]

/-- A Node has no Term to hint at below its base, and names the position itself. -/
theorem conflictHint_below {index : Nat} (positive : 0 < index) (below : index < node.logBaseIndex)
    (known : node.logBaseIndex ≤ node.lastLogIndex) : node.conflictHint index = (0, index) := by
  rw [Node.conflictHint, if_neg (by omega), termAt_below below]
  cases index with
  | zero => omega
  | succ before => rw [Node.firstOfTerm, if_neg (by omega)]

section

variable (compacted : node.Compacted history)

include compacted

theorem matchesAt {leaderHistory : List LogEntry} {index : Nat}
    (readable : node.logBaseIndex ≤ index ∨ index = 0)
    (agree : AgreeThrough history leaderHistory index) :
    node.matchesAt index (entryTerm leaderHistory index) := by
  simp only [Node.matchesAt, compacted.lastIndex, decide_eq_true_eq]
  rcases readable with above | start
  · rw [compacted.termAt above]
    exact .inr ⟨agree.1, entryTerm_agree agree le_rfl⟩
  · exact .inl ⟨start, by rw [start, entryTerm_zero]⟩

theorem not_matchesAt {leaderHistory : List LogEntry}
    {index : Nat} (logsMatch : LogsMatch history leaderHistory)
    (above : node.logBaseIndex ≤ index)
    (beyond : commonLength history leaderHistory < index)
    (within : index ≤ leaderHistory.length) :
    ¬node.matchesAt index (entryTerm leaderHistory index) := by
  simp only [Node.matchesAt, compacted.termAt above, compacted.lastIndex, decide_eq_true_eq,
    not_or, not_and]
  refine ⟨fun zero => by omega, fun inside same => ?_⟩
  exact entryTerm_parted logsMatch beyond inside within same

/-! ## Batches -/

theorem entriesBatch {first : Nat} (above : node.logBaseIndex < first) (last : Nat) :
    node.entriesBatch first last <+: history.drop (first - 1) := by
  rw [Node.entriesBatch]
  split_ifs
  · exact List.nil_prefix
  · exact List.nil_prefix
  · simp only
    rw [compacted.log, List.drop_drop,
      show node.logBaseIndex + (first - node.logBaseIndex - 1) = first - 1 by omega]
    exact (List.take_prefix _ _).trans (List.take_prefix _ _)

theorem entriesBatch_ne_nil {first last : Nat}
    (above : node.logBaseIndex < first) (ordered : first ≤ last)
    (within : last ≤ node.lastLogIndex) : node.entriesBatch first last ≠ [] := by
  have lastIndex := compacted.lastIndex
  rw [Node.entriesBatch, if_neg (by omega), if_neg (by omega), compacted.log, List.drop_drop]
  have inside : node.logBaseIndex + (first - node.logBaseIndex - 1) < history.length := by omega
  rw [List.drop_eq_getElem_cons inside, List.take_succ_cons]
  exact batch_ne_nil _ _

/-! ## Taking entries -/

theorem entriesToAppend {leaderHistory : List LogEntry}
    (leaderIndexed : Indexed leaderHistory) (logsMatch : LogsMatch history leaderHistory)
    {prev : Nat} {entries : List LogEntry} (above : node.logBaseIndex ≤ prev + 1)
    (agree : AgreeThrough history leaderHistory prev)
    (leading : entries <+: leaderHistory.drop prev) :
    Intake history leaderHistory node.commitIndex (prev + entries.length)
      (node.entriesToAppend prev entries) :=
  entriesToAppendFrom_intake compacted.lastIndex leaderIndexed logsMatch entries prev agree
    (fun _ later => compacted.termAt (above.trans later)) leading

theorem truncateLog {first : Nat}
    (above : node.logBaseIndex < first) (within : first ≤ history.length) :
    (node.truncateLog first).Compacted (history.take (first - 1)) := by
  have length : (history.take (first - 1)).length = first - 1 := by
    rw [List.length_take]
    omega
  have kept : (history.take (first - 1)).drop node.logBaseIndex =
      node.log.take (first - node.logBaseIndex - 1) := by
    rw [List.drop_take, compacted.log, show first - 1 - node.logBaseIndex =
      first - node.logBaseIndex - 1 by omega]
  have agree := agreeThrough_take history (le_refl (first - 1)) (by omega)
  have baseTerm : node.logBaseTerm = entryTerm (history.take (first - 1)) node.logBaseIndex :=
    compacted.baseTerm.trans (entryTerm_agree agree (by omega)).symm
  refine ⟨compacted.indexed.take _, by rw [length]; exact Nat.le_sub_one_of_lt above, baseTerm,
    kept.symm, length.symm, ?_⟩
  -- The truncated log is read with the fields already replaced.
  have cut : ({ node with
      log := node.log.take (first - node.logBaseIndex - 1)
      lastLogIndex := first - 1
      lastLogTerm := entryTerm (history.take (first - 1)) (first - 1) } : Node).Compacted
        (history.take (first - 1)) :=
    ⟨compacted.indexed.take _, by rw [length]; exact Nat.le_sub_one_of_lt above, baseTerm,
      kept.symm, length.symm, by rw [length]⟩
  rw [length]
  exact cut.termAt (Nat.le_sub_one_of_lt above)

theorem appendEntries {entries : List LogEntry}
    (some_ : entries ≠ []) (indexed : Indexed (history ++ entries)) :
    (node.appendEntries entries).Compacted (history ++ entries) := by
  have log : node.log ++ entries = (history ++ entries).drop node.logBaseIndex := by
    rw [compacted.log, List.drop_append_of_le_length compacted.within]
  have nonempty : history ++ entries ≠ [] := by simp [some_]
  have last : (node.log ++ entries).getLast? =
      (history ++ entries)[(history ++ entries).length - 1]? := by
    rw [List.getLast?_append_of_ne_nil _ some_, ← List.getLast?_eq_getElem?,
      List.getLast?_append_of_ne_nil _ some_]
  have inside := List.length_pos_iff.mpr nonempty
  have reaches : ∃ entry, (history ++ entries)[(history ++ entries).length - 1]? = some entry :=
    ⟨_, List.getElem?_eq_getElem (by omega)⟩
  rcases reaches with ⟨entry, found⟩
  rw [found] at last
  simp only [Node.appendEntries, last]
  refine ⟨indexed, ?_, ?_, log, ?_, ?_⟩
  · exact compacted.within.trans (List.prefix_append history entries).length_le
  · exact compacted.baseTerm.trans (entryTerm_agree
      (AgreeThrough.of_isPrefix (List.prefix_append _ _) compacted.within) le_rfl)
  · exact (indexed _ _ found).trans (Nat.sub_add_cancel inside)
  · exact (entryTerm_found inside found).symm

theorem replaceSuffix
    {leaderHistory newEntries : List LogEntry} {commitIndex reach truncateFrom : Nat}
    (leaderIndexed : Indexed leaderHistory) (some_ : newEntries ≠ [])
    (agreed : node.logBaseIndex ≤ commonLength history leaderHistory)
    (intake : Intake history leaderHistory commitIndex reach (some (newEntries, truncateFrom))) :
    (node.replaceSuffix newEntries truncateFrom).Compacted (leaderHistory.take reach) := by
  have kept := (intake.kept some_).2 _ (agreeThrough_iff.mpr agreed)
  rcases intake.kept some_ with ⟨shape, _⟩
  have indexed : Indexed (keptLog history truncateFrom ++ newEntries) :=
    shape ▸ leaderIndexed.take reach
  rw [← shape]
  cases intake with
  | covered => exact absurd rfl some_
  | extended => exact compacted.appendEntries some_ indexed
  | replaced _ positive within =>
      have nonzero : truncateFrom ≠ 0 := by omega
      rw [Node.replaceSuffix, if_pos nonzero]
      simp only [keptLog, if_pos nonzero, List.length_take] at kept indexed ⊢
      exact (compacted.truncateLog (by omega) within).appendEntries some_ indexed

/-! ## Installing a Snapshot -/

theorem installSnapshotBase {request : InstallSnapshot}
    (above : node.logBaseIndex < request.snapshotIndex)
    (within : request.snapshotIndex ≤ history.length)
    (sameTerm : request.snapshotTerm = entryTerm history request.snapshotIndex) :
    (node.installSnapshotBase request).Compacted history := by
  have matched : request.snapshotIndex ≤ node.lastLogIndex ∧
      node.termAt request.snapshotIndex = request.snapshotTerm :=
    ⟨within.trans compacted.lastIndex.ge, (compacted.termAt above.le).trans sameTerm.symm⟩
  have kept : (node.log.dropWhile fun entry => entry.index ≤ request.snapshotIndex) =
      history.drop request.snapshotIndex := by
    rw [compacted.log]
    rw [(compacted.indexed.consecutive.drop compacted.within).dropWhile_le, List.drop_drop]
    congr 1
    omega
  have found := List.getElem?_eq_getElem (show history.length - 1 < history.length by omega)
  have ends := List.getLast?_eq_getElem?.trans found
  rw [installSnapshotBase_matched matched kept]
  refine ⟨compacted.indexed, within, sameTerm, rfl, ?_, ?_⟩
  all_goals rcases Nat.eq_or_lt_of_le within with atEnd | inside
  · simp [atEnd, compacted.lastIndex]
  · rw [List.getLast?_drop, if_neg (by omega), ends]
    exact (compacted.indexed _ _ found).trans (Nat.sub_add_cancel (by omega))
  · simp [atEnd, compacted.lastTerm]
  · rw [List.getLast?_drop, if_neg (by omega), ends]
    exact (entryTerm_found (by omega) found).symm

end

end Compacted

/-! ## Conflict hints

A Follower whose history ends before the probed position names its end. Any
other one names a Term and where it begins; whether or not the Leader holds an
entry of this Term, its next request starts after the common part.
-/

section Hints

variable {follower leader : Node} {history leaderHistory : List LogEntry}
  {response : AppendEntriesResponse} {prev : Nat}

theorem nextIndexFromConflict_short (compacted : follower.Compacted history)
    (leaderCompacted : leader.Compacted leaderHistory) (short : history.length < prev)
    (within : prev ≤ leaderHistory.length)
    (hinted : (response.conflictTerm, response.conflictIndex) = follower.conflictHint prev) :
    leader.nextIndexFromConflict response = history.length + 1 := by
  have lastIndex := leaderCompacted.lastIndex
  rw [Node.conflictHint, compacted.lastIndex, if_pos (.inr short), Prod.mk.injEq] at hinted
  simp only [nextIndexFromConflict, hinted, ne_eq, not_true_eq_false, if_false,
    Nat.succ_ne_zero]
  omega

variable (aligned : Aligned history leaderHistory)
  (compacted : follower.Compacted history) (leaderCompacted : leader.Compacted leaderHistory)

include aligned in
/-- A Term that the history holds at or before the end of the common part and
past it is the Term at this end. -/
theorem common_term {index : Nat}
    (early : index ≤ commonLength history leaderHistory)
    (beyond : commonLength history leaderHistory < prev) (inside : prev ≤ history.length)
    (same : entryTerm history index = entryTerm history prev) :
    entryTerm leaderHistory (commonLength history leaderHistory) = entryTerm history prev := by
  have agree := agreeThrough_iff.mpr (le_refl (commonLength history leaderHistory))
  have lower := aligned.sorted index _ early (beyond.le.trans inside)
  have upper := aligned.sorted _ prev beyond.le inside
  rw [← entryTerm_agree agree le_rfl]
  omega

include aligned compacted leaderCompacted in
theorem nextIndexFromConflict_long
    (base : follower.logBaseIndex ≤ commonLength history leaderHistory)
    (leaderBase : leader.logBaseIndex ≤ commonLength history leaderHistory)
    (beyond : commonLength history leaderHistory < prev) (inside : prev ≤ history.length)
    (within : prev ≤ leaderHistory.length)
    (hinted : (response.conflictTerm, response.conflictIndex) = follower.conflictHint prev) :
    commonLength history leaderHistory < leader.nextIndexFromConflict response ∧
      leader.nextIndexFromConflict response ≤ prev := by
  have lastIndex := leaderCompacted.lastIndex
  have isTerm := compacted.termAt (base.trans beyond.le)
  have found := List.getElem?_eq_getElem (show prev - 1 < history.length by omega)
  have nonzero : entryTerm history prev ≠ 0 := by
    rw [entryTerm_found (by omega) found]
    exact (aligned.positive _ (List.getElem_mem _)).ne'
  have commonTerm := leaderCompacted.termAt leaderBase
  rw [Node.conflictHint, compacted.lastIndex, if_neg (by omega), isTerm, Prod.mk.injEq] at hinted
  rcases hinted with ⟨hintedTerm, hintedIndex⟩
  rcases follower.firstOfTerm_spec _ (by omega) isTerm with ⟨firstPositive, firstLe, firstTerm⟩
  have firstAbove := @firstOfTerm_above follower (entryTerm history prev) prev (by omega)
  rw [← hintedIndex] at firstPositive firstLe firstTerm firstAbove
  rw [compacted.termAt firstAbove.le] at firstTerm
  simp only [nextIndexFromConflict, hintedTerm, if_pos nonzero]
  cases located : leader.lastOfTerm (entryTerm history prev) leader.lastLogIndex with
  | none =>
      simp only [if_neg (show response.conflictIndex ≠ 0 by omega)]
      refine ⟨?_, by omega⟩
      -- Otherwise the Leader holds the Term at the end of the common part.
      by_contra early
      have early : response.conflictIndex ≤ commonLength history leaderHistory := by omega
      have held := common_term aligned early beyond inside firstTerm
      exact lastOfTerm_none located (by omega) (by omega) (commonTerm.trans held)
  | some last =>
      rcases lastOfTerm_some located with ⟨lastPositive, lastWithin, lastTerm, final⟩
      have lastAbove : leader.logBaseIndex ≤ last := by
        by_contra below
        exact nonzero (lastTerm.symm.trans (Compacted.termAt_below (by omega)))
      rw [leaderCompacted.termAt lastAbove] at lastTerm
      have notLater : last < prev := by
        by_contra later
        have agree := aligned.owned prev last (by omega) (by omega) inside (by omega) lastTerm.symm
        have := agreeThrough_iff.mp agree
        omega
      have notEarlier : commonLength history leaderHistory ≤ last := by
        by_contra earlier
        have early : last ≤ commonLength history leaderHistory := by omega
        have sameTerm := entryTerm_agree (agreeThrough_iff.mpr early) (le_refl last)
        have held := common_term aligned early beyond inside (sameTerm.trans lastTerm)
        exact final _ (by omega) (by omega) (commonTerm.trans held)
      simp only [Nat.succ_ne_zero, if_false]
      omega

include aligned compacted leaderCompacted in
theorem nextIndexFromConflict_bounds
    (base : follower.logBaseIndex ≤ commonLength history leaderHistory)
    (leaderBase : leader.logBaseIndex ≤ commonLength history leaderHistory)
    (beyond : commonLength history leaderHistory < prev) (within : prev ≤ leaderHistory.length)
    (hinted : (response.conflictTerm, response.conflictIndex) = follower.conflictHint prev) :
    commonLength history leaderHistory < leader.nextIndexFromConflict response ∧
      leader.nextIndexFromConflict response ≤ prev := by
  by_cases short : history.length < prev
  · have agree := agreeThrough_iff.mpr (le_refl (commonLength history leaderHistory))
    have inside := agree.1
    rw [nextIndexFromConflict_short compacted leaderCompacted short within hinted]
    omega
  · exact nextIndexFromConflict_long aligned compacted leaderCompacted base leaderBase beyond
      (by omega) within hinted

end Hints

/-- A hint takes the Leader back to a position that is neither before the first
difference of the logs nor after the rejected one, and where the logs match
before it, it is the first difference. -/
theorem hint_lands (follower leader : Node) (history leaderHistory : List LogEntry)
    (response : AppendEntriesResponse) (prev : Nat) (aligned : Aligned history leaderHistory)
    (compacted : follower.Compacted history) (leaderCompacted : leader.Compacted leaderHistory)
    (base : follower.logBaseIndex ≤ commonLength history leaderHistory)
    (leaderBase : leader.logBaseIndex ≤ commonLength history leaderHistory)
    (above : follower.logBaseIndex ≤ prev) (leaderAbove : leader.logBaseIndex ≤ prev)
    (within : prev ≤ leader.lastLogIndex)
    (rejected : ¬follower.matchesAt prev (leader.termAt prev))
    (hinted : (response.conflictTerm, response.conflictIndex) = follower.conflictHint prev) :
    let next := leader.nextIndexFromConflict response
    commonLength history leaderHistory + 1 ≤ next ∧ next ≤ prev ∧
      (follower.matchesAt (next - 1) (leader.termAt (next - 1)) →
        next = commonLength history leaderHistory + 1) := by
  intro next
  have within : prev ≤ leaderHistory.length := within.trans leaderCompacted.lastIndex.le
  have beyond : commonLength history leaderHistory < prev := by
    by_contra common
    have agree := agreeThrough_iff.mpr (not_lt.mp common)
    rw [leaderCompacted.termAt leaderAbove] at rejected
    exact rejected (compacted.matchesAt (.inl above) agree)
  have bounds := nextIndexFromConflict_bounds aligned compacted leaderCompacted base leaderBase
    beyond within hinted
  refine ⟨bounds.1, bounds.2, fun matched => ?_⟩
  by_contra later
  have parted : commonLength history leaderHistory < next - 1 := by omega
  rw [leaderCompacted.termAt (leaderBase.trans parted.le)] at matched
  exact compacted.not_matchesAt aligned.logsMatch (base.trans parted.le) parted (by omega) matched


theorem compacted_of_consecutive {node : Node} {history : List LogEntry}
    (consecutive : Consecutive LogEntry.index 0 history)
    (held : node.logBaseIndex ≤ history.length ∧
      node.logBaseTerm = entryTerm history node.logBaseIndex ∧
      node.log = history.drop node.logBaseIndex ∧ node.lastLogIndex = history.length ∧
      node.lastLogTerm = entryTerm history history.length) : node.Compacted history := by
  rcases held with ⟨within, baseTerm, log, lastIndex, lastTerm⟩
  refine ⟨fun offset entry found => ?_, within, baseTerm, log, lastIndex, lastTerm⟩
  rw [consecutive.position_eq found, Nat.zero_add]

/-- A Node that holds a no-op of each of the Terms. -/
def holding (terms : List Nat) : Node where
  id := "b"
  peers := ["a", "c"]
  log := terms.mapIdx fun offset term => { index := offset + 1, term := term, type := .noOp }
  lastLogIndex := terms.length
  lastLogTerm := terms.getLast?.getD 0

/-- The answer to a request that does not match. -/
def unmatchedAt (node : Node) (prevLogIndex : Nat) : AppendEntriesResponse where
  sender := node.id
  term := node.term
  requestID := 1
  success := false
  matchIndex := node.lastLogIndex
  conflictTerm := (node.conflictHint prevLogIndex).1
  conflictIndex := (node.conflictHint prevLogIndex).2
  readID := 0

/-- The logs part after the first of two entries of one Term. -/
theorem hint_lands_parted :
    (holding [1, 3, 3]).nextIndexFromConflict ((holding [1, 2, 2]).unmatchedAt 3) = 2 ∧
      commonLength (holding [1, 2, 2]).log (holding [1, 3, 3]).log + 1 ≤
        (holding [1, 3, 3]).nextIndexFromConflict ((holding [1, 2, 2]).unmatchedAt 3) := by
  have aligned : Aligned (holding [1, 2, 2]).log (holding [1, 3, 3]).log := .of_bounded (by decide)
  have lands := hint_lands (holding [1, 2, 2]) (holding [1, 3, 3]) _ _
    ((holding [1, 2, 2]).unmatchedAt 3) 3 aligned
    (compacted_of_consecutive (by decide) (by decide))
    (compacted_of_consecutive (by decide) (by decide)) (by decide) (by decide) (by decide)
    (by decide) (by decide) (by decide) rfl
  exact ⟨by decide, lands.1⟩

/-- The Leader holds the hinted Term only after the rejected position, where a
matching log would not hold it before. -/
theorem hint_overshoots :
    let follower := holding [1, 2]
    let leader := holding [1, 1, 2]
    LogsMatch follower.log leader.log ∧
      (follower.log.map LogEntry.term).Pairwise (· ≤ ·) ∧
      (leader.log.map LogEntry.term).Pairwise (· ≤ ·) ∧
      follower.Compacted follower.log ∧ leader.Compacted leader.log ∧
      commonLength follower.log leader.log + 1 = 2 ∧ ¬follower.matchesAt 2 (leader.termAt 2) ∧
      leader.nextIndexFromConflict (follower.unmatchedAt 2) = 4 := by
  intro follower leader
  have same : ∀ index ≤ 2, 0 < index ∧ entryTerm follower.log index = entryTerm leader.log index →
      AgreeThrough follower.log leader.log index := by
    decide
  refine ⟨fun index positive inside _ isSame => same index inside ⟨positive, isSame⟩, by decide,
    by decide, compacted_of_consecutive (by decide) (by decide),
    compacted_of_consecutive (by decide) (by decide), by decide, by decide, by decide⟩

end Node

end Ternion.Raft
