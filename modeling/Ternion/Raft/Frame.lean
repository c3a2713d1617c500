import Ternion.Raft.Step

/-! # What the parts of a transition leave alone

Each lemma names the only fields that a part of a transition can change, and
the only actions it can emit. Everything else about the Node follows by
reading the equation.
-/

namespace Ternion.Raft

theorem of_update_none {α : Type} {pending : Nat → Option α} {completed id : Nat} {value : α}
    (found : Function.update pending completed none id = some value) :
    pending id = some value := by
  by_cases same : id = completed
  · simp [same] at found
  · simpa [same] using found

namespace Node

/-! ## Sending entries -/

/-- An action with which a Leader supplies a peer: the request is cut from the
durable part of its log. -/
inductive Supplies (node : Node) : Action → Prop
  | entries (peer : NodeID) (requestID : Nat) (readID : ReadID) :
      node.logBaseIndex < node.firstToSend peer →
      Supplies node (.sendAppendEntries peer
        (node.appendRequest requestID (node.firstToSend peer) readID))
  | snapshot (peer : NodeID) (requestID : Nat) :
      Supplies node (.sendInstallSnapshot peer node.term requestID node.logBaseIndex
        node.logBaseTerm 0)

theorem firstToSend_le (node : Node) (peer : NodeID) :
    node.firstToSend peer ≤ node.durableLastIndex + 1 := by
  unfold firstToSend
  split_ifs <;> omega

theorem sendAppendEntriesTo_frame (node : Node) (peer : NodeID) (readID : ReadID) :
    ∃ requestID appends snapshots,
      (node.sendAppendEntriesTo peer readID).1 = { node with
        nextRequestID := requestID
        appendInFlight := appends
        snapshotInFlight := snapshots } := by
  unfold sendAppendEntriesTo
  split_ifs
  · exact ⟨_, _, _, rfl⟩
  · exact ⟨_, _, _, rfl⟩
  · exact ⟨_, _, _, rfl⟩
  · exact ⟨_, _, _, rfl⟩

theorem sendAppendEntriesTo_supplies (node : Node) (peer : NodeID) (readID : ReadID)
    {action : Action} (emitted : action ∈ (node.sendAppendEntriesTo peer readID).2) :
    node.Supplies action := by
  unfold sendAppendEntriesTo at emitted
  split_ifs at emitted with busy behind
  · simp at emitted
  · simp at emitted
  · rw [List.mem_singleton] at emitted
    subst emitted
    exact .snapshot peer _
  · rw [List.mem_singleton] at emitted
    subst emitted
    exact .entries peer _ readID (by omega)

theorem sendAppendEntriesToEach_frame (readID : ReadID) (peers : List NodeID) (node : Node) :
    ∃ requestID appends snapshots,
      (node.sendAppendEntriesToEach readID peers).1 = { node with
        nextRequestID := requestID
        appendInFlight := appends
        snapshotInFlight := snapshots } := by
  induction peers generalizing node with
  | nil => exact ⟨_, _, _, rfl⟩
  | cons peer peers induction =>
      simp only [sendAppendEntriesToEach]
      generalize (if readID = 0 then node.pendingReadFor peer else readID) = peerReadID
      rcases node.sendAppendEntriesTo_frame peer peerReadID with ⟨_, _, _, first⟩
      rcases induction (node.sendAppendEntriesTo peer peerReadID).1 with ⟨_, _, _, rest⟩
      rw [rest, first]
      exact ⟨_, _, _, rfl⟩

theorem Supplies.of_frame {node : Node} {action : Action} {requestID : Nat}
    {appends : NodeID → PendingAppend} {snapshots : NodeID → Nat}
    (supplies : Supplies { node with
      nextRequestID := requestID
      appendInFlight := appends
      snapshotInFlight := snapshots } action) : node.Supplies action := by
  cases supplies with
  | entries peer request readID above => exact .entries peer request readID above
  | snapshot peer request => exact .snapshot peer request

theorem sendAppendEntriesToEach_supplies (readID : ReadID) (peers : List NodeID)
    (node : Node) {action : Action}
    (emitted : action ∈ (node.sendAppendEntriesToEach readID peers).2) :
    node.Supplies action := by
  induction peers generalizing node with
  | nil => simp [sendAppendEntriesToEach] at emitted
  | cons peer peers induction =>
      simp only [sendAppendEntriesToEach] at emitted
      generalize (if readID = 0 then node.pendingReadFor peer else readID) = peerReadID at emitted
      rcases List.mem_append.mp emitted with now | later
      · exact node.sendAppendEntriesTo_supplies peer peerReadID now
      · have supplied := induction _ later
        rcases node.sendAppendEntriesTo_frame peer peerReadID with ⟨_, _, _, first⟩
        rw [first] at supplied
        exact supplied.of_frame

theorem sendAppendEntries_frame (node : Node) (readID : ReadID) :
    ∃ requestID appends snapshots,
      (node.sendAppendEntries readID).1 = { node with
        nextRequestID := requestID
        appendInFlight := appends
        snapshotInFlight := snapshots } :=
  sendAppendEntriesToEach_frame readID node.peers node

theorem sendAppendEntries_supplies (node : Node) (readID : ReadID) {action : Action}
    (emitted : action ∈ (node.sendAppendEntries readID).2) : node.Supplies action :=
  sendAppendEntriesToEach_supplies readID node.peers node emitted

/-! ## Applying entries and completing reads -/

inductive Reports : Action → Prop
  | applyEntry (entry : LogEntry) : Reports (.applyEntry entry)
  | becameReadReady (term : Nat) : Reports (.becameReadReady term)
  | readConfirmed (readID : ReadID) (commitIndex : Nat) :
      Reports (.readConfirmed readID commitIndex)

theorem completeReads_confirms (node : Node) {action : Action}
    (emitted : action ∈ node.completeReads.2) :
    ∃ readID commitIndex, action = .readConfirmed readID commitIndex := by
  simp only [completeReads, List.mem_map] at emitted
  rcases emitted with ⟨read, _, rfl⟩
  exact ⟨_, _, rfl⟩

theorem completeReads_reports (node : Node) {action : Action}
    (emitted : action ∈ node.completeReads.2) : Reports action := by
  rcases node.completeReads_confirms emitted with ⟨_, _, rfl⟩
  exact .readConfirmed _ _

theorem applyEntries_frame (count : Nat) (node : Node) :
    ∃ applied ready, (node.applyEntries count).1 =
      { node with lastApplied := applied, readReady := ready } := by
  induction count generalizing node with
  | zero => exact ⟨_, _, rfl⟩
  | succ count induction =>
      simp only [applyEntries]
      cases node.log[node.lastApplied - node.logBaseIndex]? with
      | none => exact ⟨_, _, rfl⟩
      | some entry =>
          simp only
          split_ifs
          · rcases induction { node with
              lastApplied := node.lastApplied + 1, readReady := true } with ⟨_, _, rest⟩
            exact ⟨_, _, rest⟩
          · rcases induction { node with lastApplied := node.lastApplied + 1 } with ⟨_, _, rest⟩
            exact ⟨_, _, rest⟩

theorem applyEntries_reports (count : Nat) (node : Node) {action : Action}
    (emitted : action ∈ (node.applyEntries count).2) : Reports action := by
  induction count generalizing node with
  | zero => simp [applyEntries] at emitted
  | succ count induction =>
      simp only [applyEntries] at emitted
      cases found : node.log[node.lastApplied - node.logBaseIndex]? with
      | none => simp [found] at emitted
      | some entry =>
          simp only [found] at emitted
          split_ifs at emitted
          · simp only [List.mem_cons] at emitted
            rcases emitted with rfl | rfl | later
            · exact .applyEntry entry
            · exact .becameReadReady _
            · exact induction _ later
          · simp only [List.mem_cons] at emitted
            rcases emitted with rfl | later
            · exact .applyEntry entry
            · exact induction _ later

theorem applyThrough_frame (node : Node) (index : Nat) :
    ∃ applied ready reads, (node.applyThrough index).1 =
      { node with lastApplied := applied, readReady := ready, pendingReads := reads } := by
  unfold applyThrough
  split_ifs
  · exact ⟨_, _, _, rfl⟩
  · rcases node.applyEntries_frame (index - node.lastApplied) with ⟨_, _, applied⟩
    simp only [completeReads, applied]
    exact ⟨_, _, _, rfl⟩

theorem applyThrough_reports (node : Node) (index : Nat) {action : Action}
    (emitted : action ∈ (node.applyThrough index).2) : Reports action := by
  unfold applyThrough at emitted
  split_ifs at emitted
  · exact node.completeReads_reports emitted
  · rcases List.mem_append.mp emitted with applied | completed
    · exact applyEntries_reports _ node applied
    · exact completeReads_reports _ completed

theorem acknowledgeRead_frame (node : Node) (response : AppendEntriesResponse) :
    ∃ reads, (node.acknowledgeRead response).1 = { node with pendingReads := reads } := by
  unfold acknowledgeRead
  cases node.pendingReads.lookup response.readID with
  | none => exact ⟨_, rfl⟩
  | some read =>
      simp only
      split_ifs
      · exact ⟨_, rfl⟩
      · exact ⟨_, rfl⟩
      · exact ⟨_, rfl⟩

section

variable (node : Node) (response : AppendEntriesResponse) {action : Action}
  (emitted : action ∈ (node.acknowledgeRead response).2)

include node response emitted

theorem acknowledgeRead_confirms :
    ∃ readID commitIndex, action = .readConfirmed readID commitIndex := by
  unfold acknowledgeRead at emitted
  cases found : node.pendingReads.lookup response.readID with
  | none => simp [found] at emitted
  | some read =>
      simp only [found] at emitted
      split_ifs at emitted
      · simp at emitted
      · simp at emitted
      · exact completeReads_confirms _ emitted

theorem acknowledgeRead_reports :
    Reports action := by
  rcases node.acknowledgeRead_confirms response emitted with ⟨_, _, rfl⟩
  exact .readConfirmed _ _

end

/-! ## Taking entries -/

theorem acceptLeader_frame (node : Node) (term : Nat) (leader : NodeID) :
    ∃ reached votedFor votes preVotes active matched next appends snapshots reads,
      node.acceptLeader term leader = { node with
        role := .follower
        term := reached
        votedFor := votedFor
        leaderID := leader
        readReady := false
        votes := votes
        preVotes := preVotes
        activePeers := active
        matchIndex := matched
        nextIndex := next
        appendInFlight := appends
        snapshotInFlight := snapshots
        pendingReads := reads
        recentLeaderContact := true } := by
  simp only [acceptLeader]
  split_ifs
  · exact ⟨_, _, _, _, _, _, _, _, _, _, rfl⟩
  · exact ⟨_, _, _, _, _, _, _, _, _, _, rfl⟩

section

variable {node : Node}

@[simp] theorem acceptLeader_role (term : Nat) (leader : NodeID) :
    (node.acceptLeader term leader).role = .follower := by
  simp only [acceptLeader]
  split_ifs <;> rfl

@[simp] theorem acceptLeader_leaderID (term : Nat) (leader : NodeID) :
    (node.acceptLeader term leader).leaderID = leader := by
  simp only [acceptLeader]
  split_ifs <;> rfl

theorem acceptLeader_term {term : Nat} (notOlder : node.term ≤ term)
    (leader : NodeID) : (node.acceptLeader term leader).term = term := by
  simp only [acceptLeader]
  split_ifs with newer
  · rfl
  · exact le_antisymm notOlder (not_lt.mp newer)

theorem acceptLeader_votedFor {term : Nat} (newer : node.term < term)
    (leader : NodeID) : (node.acceptLeader term leader).votedFor = "" := by
  simp [acceptLeader, newer, becomeFollower]

theorem installSnapshotBase_matched {request : InstallSnapshot}
    (matched : request.snapshotIndex ≤ node.lastLogIndex ∧
      node.termAt request.snapshotIndex = request.snapshotTerm) {kept : List LogEntry}
    (isKept : (node.log.dropWhile fun entry => entry.index ≤ request.snapshotIndex) = kept) :
    node.installSnapshotBase request = { node with
      log := kept
      lastLogIndex := (kept.getLast?.map LogEntry.index).getD node.lastLogIndex
      lastLogTerm := (kept.getLast?.map LogEntry.term).getD node.lastLogTerm
      durableLogIndex := (kept.getLast?.map LogEntry.index).getD node.durableLogIndex
      logBaseIndex := request.snapshotIndex
      logBaseTerm := request.snapshotTerm
      commitIndex := max node.commitIndex request.snapshotIndex
      durableCommitIndex := max node.durableCommitIndex request.snapshotIndex
      lastApplied := request.snapshotIndex } := by
  rw [installSnapshotBase, if_pos matched, isKept]
  simp only
  cases kept.getLast? <;> rfl

theorem installSnapshotBase_unmatched {request : InstallSnapshot}
    (unmatched : ¬(request.snapshotIndex ≤ node.lastLogIndex ∧
      node.termAt request.snapshotIndex = request.snapshotTerm)) :
    node.installSnapshotBase request = { node with
      log := []
      lastLogIndex := request.snapshotIndex
      lastLogTerm := request.snapshotTerm
      durableLogIndex := request.snapshotIndex
      logBaseIndex := request.snapshotIndex
      logBaseTerm := request.snapshotTerm
      commitIndex := max node.commitIndex request.snapshotIndex
      durableCommitIndex := max node.durableCommitIndex request.snapshotIndex
      lastApplied := request.snapshotIndex } := by
  rw [installSnapshotBase, if_neg unmatched]
  rfl

end

theorem installSnapshotBase_frame (node : Node) (request : InstallSnapshot) :
    ∃ log lastIndex lastTerm durable commit durableCommit,
      node.installSnapshotBase request = { node with
        log := log
        lastLogIndex := lastIndex
        lastLogTerm := lastTerm
        durableLogIndex := durable
        logBaseIndex := request.snapshotIndex
        logBaseTerm := request.snapshotTerm
        commitIndex := commit
        durableCommitIndex := durableCommit
        lastApplied := request.snapshotIndex } := by
  by_cases matched : request.snapshotIndex ≤ node.lastLogIndex ∧
      node.termAt request.snapshotIndex = request.snapshotTerm
  · exact ⟨_, _, _, _, _, _, installSnapshotBase_matched matched rfl⟩
  · exact ⟨_, _, _, _, _, _, installSnapshotBase_unmatched matched⟩

theorem appendEntries_frame (node : Node) (entries : List LogEntry) :
    ∃ log lastIndex lastTerm, node.appendEntries entries = { node with
      log := log
      lastLogIndex := lastIndex
      lastLogTerm := lastTerm } := by
  simp only [appendEntries]
  cases (node.log ++ entries).getLast? with
  | none => exact ⟨_, _, _, rfl⟩
  | some last => exact ⟨_, _, _, rfl⟩

theorem handleInstallSnapshotResponse_frame {node : Node} {response : InstallSnapshotResponse}
    (current : ¬node.term < response.term) :
    ∃ matched next appends snapshots requestID,
      (node.handleInstallSnapshotResponse response).1 = { node with
        matchIndex := matched
        nextIndex := next
        appendInFlight := appends
        snapshotInFlight := snapshots
        nextRequestID := requestID } := by
  rw [handleInstallSnapshotResponse, if_neg current]
  split_ifs
  · exact ⟨_, _, _, _, _, rfl⟩
  · rcases (node.recordSnapshot response).sendAppendEntriesTo_frame response.sender
      (node.pendingReadFor response.sender) with ⟨_, _, _, frame⟩
    rw [frame]
    exact ⟨_, _, _, _, _, rfl⟩
  · exact ⟨_, _, _, _, _, rfl⟩
  · exact ⟨_, _, _, _, _, rfl⟩

theorem appendEntries_single (node : Node) (entry : LogEntry) :
    node.appendEntries [entry] = { node with
      log := node.log ++ [entry]
      lastLogIndex := entry.index
      lastLogTerm := entry.term } := by
  simp [appendEntries]

theorem replaceSuffix_frame (node : Node) (newEntries : List LogEntry) (truncateFrom : Nat) :
    ∃ log lastIndex lastTerm durable, node.replaceSuffix newEntries truncateFrom = { node with
      log := log
      lastLogIndex := lastIndex
      lastLogTerm := lastTerm
      durableLogIndex := durable } := by
  simp only [replaceSuffix]
  split_ifs
  · rcases (node.truncateLog truncateFrom).appendEntries_frame newEntries with ⟨_, _, _, frame⟩
    exact ⟨_, _, _, _, frame⟩
  · rcases node.appendEntries_frame newEntries with ⟨_, _, _, frame⟩
    exact ⟨_, _, _, _, frame⟩

theorem entriesToAppendFrom_congr {left right : Node}
    (last : left.lastLogIndex = right.lastLogIndex) (commit : left.commitIndex = right.commitIndex)
    (terms : ∀ index, left.termAt index = right.termAt index) (entries : List LogEntry)
    (wantIndex : Nat) :
    left.entriesToAppendFrom wantIndex entries = right.entriesToAppendFrom wantIndex entries := by
  induction entries generalizing wantIndex with
  | nil => rfl
  | cons entry rest induction =>
      simp only [entriesToAppendFrom, last, commit, terms, induction]

theorem acceptLeader_matchesAt (node : Node) (term : Nat) (leader : NodeID)
    (index entryTerm : Nat) :
    (node.acceptLeader term leader).matchesAt index entryTerm = node.matchesAt index entryTerm := by
  rcases node.acceptLeader_frame term leader with ⟨_, _, _, _, _, _, _, _, _, _, frame⟩
  rw [frame]
  rfl

theorem acceptLeader_entriesToAppend (node : Node) (term : Nat) (leader : NodeID) (prev : Nat)
    (entries : List LogEntry) :
    (node.acceptLeader term leader).entriesToAppend prev entries =
      node.entriesToAppend prev entries := by
  rcases node.acceptLeader_frame term leader with ⟨_, _, _, _, _, _, _, _, _, _, frame⟩
  apply entriesToAppendFrom_congr
  · rw [frame]
  · rw [frame]
  · intro index
    rw [frame]
    rfl

theorem conflictHint_congr {left right : Node} (last : left.lastLogIndex = right.lastLogIndex)
    (base : left.logBaseIndex = right.logBaseIndex)
    (terms : ∀ index, left.termAt index = right.termAt index) (index : Nat) :
    left.conflictHint index = right.conflictHint index := by
  have sameFirst : ∀ term first, left.firstOfTerm term first = right.firstOfTerm term first := by
    intro term first
    induction first with
    | zero => rfl
    | succ first induction => simp only [firstOfTerm, base, terms, induction]
  simp only [conflictHint, last, terms, sameFirst]

/-! ## The Leader's bookkeeping -/

theorem recordResponse_frame (node : Node) (response : AppendEntriesResponse) :
    ∃ appends active matched next, node.recordResponse response = { node with
      appendInFlight := appends
      activePeers := active
      matchIndex := matched
      nextIndex := next } := by
  unfold recordResponse
  simp only
  split_ifs
  · exact ⟨_, _, _, _, rfl⟩
  · exact ⟨_, _, _, _, rfl⟩

theorem commitCandidate_bounds {node : Node} {count index : Nat}
    (found : node.commitCandidate count = some index) :
    node.commitIndex < index ∧ index ≤ node.commitIndex + count ∧ node.termAt index = node.term ∧
      node.quorum ≤ node.replicated index := by
  induction count with
  | zero => cases found
  | succ count induction =>
      simp only [commitCandidate] at found
      split_ifs at found with isCandidate
      · cases found
        exact ⟨by omega, le_rfl, isCandidate⟩
      · rcases induction found with ⟨lower, upper, rest⟩
        exact ⟨lower, by omega, rest⟩

theorem advanceLeaderCommit_frame {node advanced : Node}
    (advances : node.advanceLeaderCommit = some advanced) :
    ∃ index, advanced = { node with commitIndex := index } := by
  rcases Option.map_eq_some_iff.mp advances with ⟨index, _, rfl⟩
  exact ⟨index, rfl⟩

end Node

end Ternion.Raft
