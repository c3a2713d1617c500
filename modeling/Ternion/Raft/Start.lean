import Ternion.Foundation.Consecutive
import Ternion.Raft.Step

/-! # How a core starts

A core starts from its Snapshot and the entries that were stored after it. It
drops the entries that its Snapshot includes.
-/

namespace Ternion.Raft.Node

/-- The stored entries begin with the first one, and include the Snapshot. -/
def includesSnapshot (recovered : RecoveredState) : Prop :=
  0 < recovered.snapshotIndex ∧ (recovered.log.head?.map LogEntry.index) = some 1 ∧
    recovered.snapshotIndex ≤ recovered.log.length

section

variable {recovered : RecoveredState}

theorem not_includesSnapshot
    (consecutive : Consecutive LogEntry.index recovered.snapshotIndex recovered.log) :
    ¬includesSnapshot recovered := by
  rintro ⟨positive, first, _⟩
  rcases Option.map_eq_some_iff.mp first with ⟨entry, found, isFirst⟩
  have above := (consecutive.bounds (List.mem_of_head? found)).1
  omega

/-- A core that drops nothing waits to apply what is stored after its Snapshot. -/
theorem newNode_untrimmed (untrimmed : ¬includesSnapshot recovered)
    (id : NodeID) (peers : List NodeID) :
    let node := newNodeFromRecoveredState id peers recovered
    node.role = .follower ∧ node.pendingReads = [] ∧ node.lastApplied = node.logBaseIndex ∧
      node.logBaseIndex = recovered.snapshotIndex ∧ node.log = recovered.log ∧
      node.durableCommitIndex = recovered.commitIndex := by
  rw [includesSnapshot] at untrimmed
  rw [newNodeFromRecoveredState, if_neg untrimmed]
  cases isLast : recovered.log.getLast? with
  | none =>
      have empty := List.getLast?_eq_none_iff.mp isLast
      simp [empty]
  | some entry => simp

theorem newNode_consecutive
    (consecutive : Consecutive LogEntry.index recovered.snapshotIndex recovered.log) (id : NodeID)
    (peers : List NodeID) : newNodeFromRecoveredState id peers recovered = {
      id := id
      peers := peers.insertionSort (· ≤ ·)
      term := recovered.hardState.term
      votedFor := recovered.hardState.votedFor
      durableTerm := recovered.hardState.term
      durableVotedFor := recovered.hardState.votedFor
      commitIndex := recovered.commitIndex
      durableCommitIndex := recovered.commitIndex
      lastApplied := recovered.snapshotIndex
      logBaseIndex := recovered.snapshotIndex
      logBaseTerm := recovered.snapshotTerm
      log := recovered.log
      lastLogIndex := recovered.snapshotIndex + recovered.log.length
      lastLogTerm := (recovered.log.getLast?.map LogEntry.term).getD recovered.snapshotTerm
      durableLogIndex := recovered.snapshotIndex + recovered.log.length } := by
  have trimmed := not_includesSnapshot consecutive
  rw [includesSnapshot] at trimmed
  rw [newNodeFromRecoveredState, if_neg trimmed]
  cases isLast : recovered.log.getLast? with
  | none =>
      rw [List.getLast?_eq_none_iff.mp isLast]
      rfl
  | some entry =>
      rw [← consecutive.getLast isLast]
      rfl

theorem newNode_whole (whole : Consecutive LogEntry.index 0 recovered.log)
    (within : recovered.snapshotIndex ≤ recovered.log.length) (id : NodeID)
    (peers : List NodeID) :
    ∃ snapshotTerm, newNodeFromRecoveredState id peers recovered =
      newNodeFromRecoveredState id peers { recovered with
        snapshotTerm := snapshotTerm
        log := recovered.log.drop recovered.snapshotIndex } ∧
      Consecutive LogEntry.index recovered.snapshotIndex
        (recovered.log.drop recovered.snapshotIndex) := by
  have rest := whole.drop within
  rw [Nat.zero_add] at rest
  by_cases empty : recovered.snapshotIndex = 0
  · refine ⟨recovered.snapshotTerm, ?_, rest⟩
    rw [empty, List.drop_zero, ← empty]
  · have positive : 0 < recovered.snapshotIndex := Nat.pos_of_ne_zero empty
    have first : (recovered.log.head?.map LogEntry.index) = some 1 := by
      cases isLog : recovered.log with
      | nil =>
          rw [isLog, List.length_nil] at within
          omega
      | cons entry later =>
          rw [isLog] at whole
          exact congrArg some whole.1
    have trimmed : ¬(0 < recovered.snapshotIndex ∧
        ((recovered.log.drop recovered.snapshotIndex).head?.map LogEntry.index) = some 1 ∧
        recovered.snapshotIndex ≤ (recovered.log.drop recovered.snapshotIndex).length) := by
      rintro ⟨_, isFirst, _⟩
      rcases Option.map_eq_some_iff.mp isFirst with ⟨entry, found, index⟩
      have above := (rest.bounds (List.mem_of_head? found)).1
      omega
    refine ⟨if recovered.snapshotTerm = 0 then
      ((recovered.log[recovered.snapshotIndex - 1]?).map LogEntry.term).getD 0
      else recovered.snapshotTerm, ?_, rest⟩
    rw [newNodeFromRecoveredState, if_pos ⟨positive, first, within⟩, newNodeFromRecoveredState,
      if_neg trimmed]

end

end Ternion.Raft.Node
