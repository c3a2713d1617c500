import Ternion.Runtime.Synchronous

/-! # The loop of the runtime computes the synchronous handlers

Every loop is derived step by step from the actions of its handler. A step of a
core in which nothing waits therefore ends, and its outcome is `stepNow`.
-/

namespace Ternion.Raft.Node

theorem Durable.acceptLeader {node : Node} (durable : node.Durable) (term : Nat)
    (leader : NodeID) : (node.acceptLeader term leader).Durable := by
  rcases node.acceptLeader_frame term leader with ⟨_, _, _, _, _, _, _, _, _, _, frame⟩
  rw [frame]
  exact ⟨⟨durable.hardState, durable.log, durable.commit⟩, durable.log_le, durable.commit_eq,
    durable.above⟩

theorem Durable.hardStateSaved {node : Node} (durable : node.Durable) :
    node.hardStateSaved.Durable :=
  ⟨⟨durable.hardState, durable.log, durable.commit⟩, durable.log_le, durable.commit_eq,
    durable.above⟩

/-! ## A saved hard state is seen by no handler of entries -/

theorem applyThrough_hardStateSaved (node : Node) (index : Nat)
    (above : node.logBaseIndex ≤ node.lastApplied) :
    node.hardStateSaved.applyThrough index =
      ((node.applyThrough index).1.hardStateSaved, (node.applyThrough index).2) := by
  rw [applyThrough_eq node index above, applyThrough_eq node.hardStateSaved index above]
  rfl

theorem advanceFollowerCommit_behind {node : Node} {leaderCommit : Nat}
    (behind : node.commitIndex < min leaderCommit node.lastLogIndex) (after : List Action) :
    node.advanceFollowerCommit leaderCommit after =
      { node with commitIndex := min leaderCommit node.lastLogIndex }.persistCommit after :=
  if_pos behind

theorem advanceFollowerCommit_level {node : Node} {leaderCommit : Nat}
    (level : ¬node.commitIndex < min leaderCommit node.lastLogIndex) (after : List Action) :
    node.advanceFollowerCommit leaderCommit after =
      ((node.applyThrough node.durableCommitIndex).1,
        (node.applyThrough node.durableCommitIndex).2 ++ after) :=
  if_neg level

section

variable (node : Node)

include node

theorem advanceFollowerCommit_hardStateSaved (leaderCommit : Nat)
    (after : List Action) (above : node.logBaseIndex ≤ node.lastApplied) :
    node.hardStateSaved.advanceFollowerCommit leaderCommit after =
      ((node.advanceFollowerCommit leaderCommit after).1.hardStateSaved,
        (node.advanceFollowerCommit leaderCommit after).2) := by
  by_cases behind : node.commitIndex < min leaderCommit node.lastLogIndex
  · rw [advanceFollowerCommit_behind behind,
      advanceFollowerCommit_behind (show node.hardStateSaved.commitIndex <
        min leaderCommit node.hardStateSaved.lastLogIndex from behind)]
    rfl
  · have applied := applyThrough_hardStateSaved node node.durableCommitIndex above
    rw [advanceFollowerCommit_level behind,
      advanceFollowerCommit_level (show ¬node.hardStateSaved.commitIndex <
        min leaderCommit node.hardStateSaved.lastLogIndex from behind),
      show node.hardStateSaved.durableCommitIndex = node.durableCommitIndex from rfl, applied]

theorem confirmEntries_hardStateSaved (request : AppendEntries)
    (above : node.logBaseIndex ≤ node.lastApplied) :
    node.hardStateSaved.confirmEntries request =
      ((node.confirmEntries request).1.hardStateSaved, (node.confirmEntries request).2) := by
  have advanced := advanceFollowerCommit_hardStateSaved node request.leaderCommit
    (node.appendEntriesResponse request.sender request.requestID true node.lastLogIndex 0 0
      request.readID) above
  by_cases waiting : node.durableLogIndex < node.lastLogIndex
  · have parked : node.confirmEntries request = (node, []) := if_pos waiting
    have parkedSaved : node.hardStateSaved.confirmEntries request = (node.hardStateSaved, []) :=
      if_pos waiting
    rw [parked, parkedSaved]
  · have confirmed : node.confirmEntries request = node.advanceFollowerCommit _ _ :=
      if_neg waiting
    have confirmedSaved : node.hardStateSaved.confirmEntries request =
        node.hardStateSaved.advanceFollowerCommit _ _ := if_neg waiting
    rw [confirmed, confirmedSaved]
    exact advanced

theorem appendEntries_hardStateSaved (entries : List LogEntry) :
    node.hardStateSaved.appendEntries entries = (node.appendEntries entries).hardStateSaved := by
  simp only [appendEntries]
  rw [show node.hardStateSaved.log = node.log from rfl]
  cases (node.log ++ entries).getLast? <;> rfl

theorem replaceSuffix_hardStateSaved (newEntries : List LogEntry) (truncateFrom : Nat) :
    node.hardStateSaved.replaceSuffix newEntries truncateFrom =
      (node.replaceSuffix newEntries truncateFrom).hardStateSaved := by
  simp only [replaceSuffix]
  split_ifs
  · exact appendEntries_hardStateSaved (node.truncateLog truncateFrom) newEntries
  · exact appendEntries_hardStateSaved node newEntries

theorem rejectAppendEntries_hardStateSaved (request : AppendEntries) (position : Nat) :
    node.hardStateSaved.rejectAppendEntries request position =
      node.rejectAppendEntries request position := by
  have sameHint : node.hardStateSaved.conflictHint position = node.conflictHint position :=
    @conflictHint_congr node.hardStateSaved node rfl rfl (fun _ => rfl) position
  simp only [rejectAppendEntries, sameHint]
  rfl

theorem takeAppendEntries_hardStateSaved (request : AppendEntries)
    (above : node.logBaseIndex ≤ node.lastApplied) :
    node.hardStateSaved.takeAppendEntries request =
      ((node.takeAppendEntries request).1.hardStateSaved, (node.takeAppendEntries request).2) := by
  have sameSuffix : node.hardStateSaved.entriesToAppend request.prevLogIndex request.entries =
      node.entriesToAppend request.prevLogIndex request.entries :=
    @entriesToAppendFrom_congr node.hardStateSaved node rfl rfl (fun _ => rfl) _ _
  have sameMatch : node.hardStateSaved.matchesAt request.prevLogIndex request.prevLogTerm =
      node.matchesAt request.prevLogIndex request.prevLogTerm := rfl
  simp only [takeAppendEntries, sameSuffix, sameMatch, rejectAppendEntries_hardStateSaved]
  split_ifs
  · cases node.entriesToAppend request.prevLogIndex request.entries with
    | none => rfl
    | some suffix =>
        simp only
        split_ifs
        · simp only [storeEntries, replaceSuffix_hardStateSaved]
          rfl
        · exact confirmEntries_hardStateSaved node request above
  · rfl

theorem takeAppendEntries_hardState (request : AppendEntries) :
    (node.takeAppendEntries request).1.term = node.term ∧
      (node.takeAppendEntries request).1.votedFor = node.votedFor ∧
      (node.takeAppendEntries request).1.pendingHardState = node.pendingHardState := by
  unfold takeAppendEntries
  split_ifs
  · cases node.entriesToAppend request.prevLogIndex request.entries with
    | none => exact ⟨rfl, rfl, rfl⟩
    | some suffix =>
        simp only
        split_ifs
        · rcases node.replaceSuffix_frame suffix.1 suffix.2 with ⟨_, _, _, _, frame⟩
          simp only [storeEntries, persistLog, frame, and_self]
        · rcases node.applyThrough_frame node.durableCommitIndex with ⟨_, _, _, frame⟩
          simp only [confirmEntries, advanceFollowerCommit, frame]
          split_ifs <;> exact ⟨rfl, rfl, rfl⟩
  · exact ⟨rfl, rfl, rfl⟩

/-! ## Parts of a Leader's step -/

theorem acknowledgeRead_persistCommit (response : AppendEntriesResponse) (after : List Action) :
    (node.persistCommit after).1.acknowledgeRead response =
      (((node.acknowledgeRead response).1.persistCommit after).1,
        (node.acknowledgeRead response).2) := by
  simp only [acknowledgeRead]
  rw [show (node.persistCommit after).1.pendingReads = node.pendingReads from rfl]
  cases node.pendingReads.lookup response.readID with
  | none => rfl
  | some read =>
      rw [show (node.persistCommit after).1.quorum = node.quorum from rfl]
      simp only
      split_ifs <;> rfl

end

end Ternion.Raft.Node

namespace Ternion.RaftRuntime

open Raft

/-! ## Completed persistence -/

theorem completion_of_supplies {node : Node} {action : Action} (supplies : node.Supplies action) :
    completion action = none := by
  cases supplies <;> rfl

theorem completion_of_reports {action : Action} (reports : Node.Reports action) :
    completion action = none := by
  cases reports <;> rfl

namespace Drained

variable {core : Node} {after pending : List Action} {outcome : Outcome}

theorem saveHardState (nothingWaits : core.pendingHardState = fun _ => none)
    (rest : Drained core.hardStateSaved (pending ++ after) outcome) :
    Drained (core.persistHardState after).1 ((core.persistHardState after).2 ++ pending)
      (outcome.wrote [.saveHardState ⟨core.term, core.votedFor⟩]) := by
  have completed : ((core.persistHardState after).1.step
      (.hardStatePersisted (core.nextHardStatePersistence + 1))) =
      (core.hardStateSaved, after) := by
    simp [Node.step, Node.hardStatePersisted, Node.persistHardState, Node.completeHardState,
      Node.hardStateSaved, nothingWaits]
  refine .persist rfl ?_
  rw [completed]
  exact rest

theorem saveLog (idle : core.Idle) (entries : List LogEntry) {waiting : PendingLogPersistence}
    (rest : Drained ((core.logSaved waiting.lastIndex).continueLog waiting).1
      (pending ++ ((core.logSaved waiting.lastIndex).continueLog waiting).2) outcome) :
    Drained (core.persistLog entries waiting).1 ((core.persistLog entries waiting).2 ++ pending)
      (outcome.wrote (storeWrites entries waiting.truncateFrom)) := by
  have completed : ((core.persistLog entries waiting).1.step
      (.logEntriesPersisted (core.nextLogPersistence + 1))) =
      (core.logSaved waiting.lastIndex).continueLog waiting := by
    simp [Node.step, Node.logEntriesPersisted, Node.persistLog, Node.completeLog,
      Node.logSaved, idle.log]
  refine .persist rfl ?_
  rw [completed]
  exact rest

theorem saveCommit (idle : core.Idle)
    (rest : Drained (core.commitSaved.applyThrough core.commitIndex).1
      (pending ++ ((core.commitSaved.applyThrough core.commitIndex).2 ++ after)) outcome) :
    Drained (core.persistCommit after).1 ((core.persistCommit after).2 ++ pending)
      (outcome.wrote [.saveCommitIndex core.commitIndex]) := by
  have completed : ((core.persistCommit after).1.step
      (.commitIndexPersisted (core.nextCommitPersistence + 1))) =
      ((core.commitSaved.applyThrough core.commitIndex).1,
        (core.commitSaved.applyThrough core.commitIndex).2 ++ after) := by
    simp [Node.step, Node.commitIndexPersisted, Node.persistCommit, Node.completeCommit,
      Node.commitSaved, idle.commit]
  refine .persist rfl ?_
  rw [completed]
  exact rest

theorem saveCommit_only (idle : core.Idle)
    (nothingAfter : ∀ action ∈ after, completion action = none)
    (nothingPending : ∀ action ∈ pending, completion action = none) :
    Drained (core.persistCommit after).1 ((core.persistCommit after).2 ++ pending) {
      core := (core.commitSaved.applyThrough core.commitIndex).1
      writes := [.saveCommitIndex core.commitIndex]
      emitted := pending ++ ((core.commitSaved.applyThrough core.commitIndex).2 ++ after) } := by
  refine saveCommit idle (only_emits ?_)
  intro action emitted
  simp only [List.mem_append] at emitted
  rcases emitted with waiting | applied | delayed
  · exact nothingPending action waiting
  · exact completion_of_reports (Node.applyThrough_reports _ _ applied)
  · exact nothingAfter action delayed

/-! ### Elections -/

variable {node : Node}

section

variable (idle : node.Idle)

include idle

theorem saveHardState_only (nothing : ∀ action ∈ after, completion action = none) :
    Drained (node.persistHardState after).1 (node.persistHardState after).2
      (RaftRuntime.saveHardState node after) := by
  have drained : Drained (node.persistHardState after).1
      ((node.persistHardState after).2 ++ []) _ :=
    saveHardState idle.hardState (only_emits nothing)
  rw [List.append_nil] at drained
  exact drained

theorem startElection :
    Drained node.startElection.1 node.startElection.2 (startElectionNow node) := by
  have candidate : node.becomeCandidate.Idle := ⟨idle.hardState, idle.log, idle.commit⟩
  refine saveHardState_only candidate ?_
  intro action emitted
  rcases List.mem_cons.mp emitted with rfl | request
  · rfl
  · rcases List.mem_map.mp request with ⟨peer, _, rfl⟩
    rfl

theorem stepDown (term : Nat) :
    Drained ((node.becomeFollower term "").persistHardState []).1
      ((node.becomeFollower term "").persistHardState []).2 (stepDownNow node term) :=
  saveHardState_only ⟨idle.hardState, idle.log, idle.commit⟩ (by simp)

theorem electionTimeout :
    Drained node.startPreVote.1 node.startPreVote.2 (electionTimeoutNow node) := by
  have handsOut : ∀ action ∈ (.resetElectionTimer :: node.preVoteRequests : List Action),
      completion action = none := by
    intro action emitted
    rcases List.mem_cons.mp emitted with rfl | request
    · rfl
    · rcases List.mem_map.mp request with ⟨peer, _, rfl⟩
      rfl
  have preCandidate : node.becomePreCandidate.Idle := ⟨idle.hardState, idle.log, idle.commit⟩
  unfold Node.startPreVote electionTimeoutNow
  split_ifs
  · exact .done node
  · exact (startElection preCandidate).emits handsOut
  · exact only_emits handsOut

theorem preVoteResponse (response : PreVoteResponse) :
    Drained (node.handlePreVoteResponse response).1 (node.handlePreVoteResponse response).2
      (preVoteResponseNow node response) := by
  unfold Node.handlePreVoteResponse preVoteResponseNow
  split_ifs
  · exact stepDown idle _
  · exact .done _
  · exact .done _
  · exact startElection ⟨idle.hardState, idle.log, idle.commit⟩

theorem voteRequest (request : VoteRequest) :
    Drained (node.handleVoteRequest request).1 (node.handleVoteRequest request).2
      (voteRequestNow node request) := by
  have reached : (node.reachTerm request.term).Idle := by
    unfold Node.reachTerm
    split_ifs
    · exact ⟨idle.hardState, idle.log, idle.commit⟩
    · exact idle
  have decided : ((node.reachTerm request.term).decideVote request).1.Idle ∧
      ∀ action ∈ ((node.reachTerm request.term).decideVote request).2,
        completion action = none := by
    unfold Node.decideVote
    split_ifs
    · exact ⟨⟨reached.hardState, reached.log, reached.commit⟩,
        by simp [Node.voteResponse, completion]⟩
    · exact ⟨reached, by simp [Node.voteResponse, completion]⟩
  unfold Node.handleVoteRequest Node.persistTermChange voteRequestNow
  split_ifs
  · exact only_emits (by simp [Node.voteResponse, completion])
  · exact saveHardState_only decided.1 decided.2
  · exact only_emits decided.2

end

theorem sendAppendEntries (node : Node) (readID : ReadID) :
    Drained (node.sendAppendEntries readID).1 (node.sendAppendEntries readID).2
      { core := (node.sendAppendEntries readID).1
        emitted := (node.sendAppendEntries readID).2 } :=
  only_emits fun _ emitted => completion_of_supplies (node.sendAppendEntries_supplies _ emitted)

theorem replicate (node : Node) (idle : node.Idle) (leading : node.role = .leader) {term : Nat}
    (current : node.term = term) {entry : LogEntry} (last : node.lastLogIndex = entry.index)
    {before : List Action} (nothing : ∀ action ∈ before, completion action = none) :
    let appended := node.persistLog [entry] {
      purpose := .persistLeaderEntry, term := term, lastIndex := entry.index }
    Drained appended.1 (before ++ appended.2) (replicateNow node entry before) := by
  intro appended
  have continued : (node.logSaved entry.index).continueLog {
      purpose := .persistLeaderEntry, term := term, lastIndex := entry.index } =
      (node.logSaved entry.index).sendAppendEntries 0 := by
    simp [Node.continueLog, Node.logSaved, leading, last, current]
  have saved : Drained appended.1 (appended.2 ++ []) _ :=
    saveLog idle [entry] (by rw [continued]; exact sendAppendEntries _ 0)
  rw [List.append_nil] at saved
  simpa [Outcome.emits, Outcome.wrote, storeWrites, replicateNow] using emits nothing saved

section

variable (idle : node.Idle)

include idle

theorem lead : Drained node.lead.1 node.lead.2 (leadNow node) := by
  have appended := Node.appendEntries_single node.becomeLeader node.noOp
  refine replicate (node.becomeLeader.appendEntries [node.noOp]).startReplication ?_ ?_ ?_ ?_ ?_
  · rw [appended]
    exact ⟨idle.hardState, idle.log, idle.commit⟩
  · rw [appended]
    rfl
  · rw [appended]
    rfl
  · rw [appended]
    rfl
  · simp [completion]

theorem propose (leading : node.role = .leader) (proposalID : ProposalID) (entry : LogEntry) :
    Drained (node.proposeEntry proposalID entry).1 (node.proposeEntry proposalID entry).2
      (proposeNow node proposalID entry) := by
  have appended := Node.appendEntries_single node entry
  have handsOut : ∀ action ∈ [Action.proposalAccepted proposalID entry.index],
      completion action = none := by simp [completion]
  refine replicate (node.appendEntries [entry]) ?_ ?_ ?_ ?_ handsOut
  · rw [appended]
    exact ⟨idle.hardState, idle.log, idle.commit⟩
  · rw [appended]
    exact leading
  · rw [appended]
  · rw [appended]

theorem voteResponse (response : VoteResponse) :
    Drained (node.handleVoteResponse response).1 (node.handleVoteResponse response).2
      (voteResponseNow node response) := by
  unfold Node.handleVoteResponse voteResponseNow
  split_ifs
  · exact stepDown idle _
  · exact .done _
  · exact .done _
  · exact lead ⟨idle.hardState, idle.log, idle.commit⟩

/-! ### Proposals -/

theorem proposeSession (proposal : ProposeSession) :
    Drained (node.proposeSession proposal).1 (node.proposeSession proposal).2
      (proposeSessionNow node proposal) := by
  unfold Node.proposeSession proposeSessionNow
  split_ifs with notLeading
  · exact only_emits (by simp [completion])
  · exact .done _
  · exact propose idle (not_not.mp notLeading) _ _

theorem proposeSet (proposal : ProposeSet) :
    Drained (node.proposeSet proposal).1 (node.proposeSet proposal).2
      (proposeSetNow node proposal) := by
  unfold Node.proposeSet proposeSetNow
  split_ifs with notLeading
  · exact only_emits (by simp [completion])
  · exact propose idle (not_not.mp notLeading) _ _

theorem proposeDelete (proposal : ProposeDelete) :
    Drained (node.proposeDelete proposal).1 (node.proposeDelete proposal).2
      (proposeDeleteNow node proposal) := by
  unfold Node.proposeDelete proposeDeleteNow
  split_ifs with notLeading
  · exact only_emits (by simp [completion])
  · exact propose idle (not_not.mp notLeading) _ _

end

/-! ### Replication -/

theorem appendEntriesResponse_handsOut {receiver : NodeID} {requestID : Nat} {success : Bool}
    {matchIndex conflictTerm conflictIndex : Nat} {readID : ReadID} :
    ∀ action ∈ node.appendEntriesResponse receiver requestID success matchIndex conflictTerm
      conflictIndex readID, completion action = none := by
  simp [Node.appendEntriesResponse, completion]

theorem confirm (idle : node.Idle) (commit : node.durableCommitIndex = node.commitIndex)
    (request : AppendEntries) :
    Drained (node.advanceFollowerCommit request.leaderCommit (confirmation node request)).1
      (node.advanceFollowerCommit request.leaderCommit (confirmation node request)).2
      (confirmNow node request) := by
  have answers : ∀ action ∈ confirmation node request, completion action = none :=
    appendEntriesResponse_handsOut
  by_cases behind : node.commitIndex < min request.leaderCommit node.lastLogIndex
  · rw [Node.advanceFollowerCommit_behind behind]
    unfold confirmNow followCommit
    rw [if_pos behind, if_pos behind]
    have committed : ({ node with
        commitIndex := min request.leaderCommit node.lastLogIndex } : Node).Idle :=
      ⟨idle.hardState, idle.log, idle.commit⟩
    exact saveCommit_only committed answers (List.forall_mem_nil _)
  · rw [Node.advanceFollowerCommit_level behind]
    unfold confirmNow followCommit
    rw [if_neg behind, if_neg behind, commit]
    refine only_emits ?_
    intro action emitted
    rcases List.mem_append.mp emitted with applied | answered
    · exact completion_of_reports (node.applyThrough_reports _ applied)
    · exact answers action answered

theorem store (idle : node.Idle) (commit : node.durableCommitIndex = node.commitIndex)
    (following : node.role = .follower) {request : AppendEntries}
    (current : node.term = request.term) (leader : node.leaderID = request.sender)
    (newEntries : List LogEntry) (truncateFrom : Nat) :
    Drained (node.storeEntries request newEntries truncateFrom).1
      (node.storeEntries request newEntries truncateFrom).2
      ((confirmNow (stored node newEntries truncateFrom) request).wrote
        (storeWrites newEntries truncateFrom)) := by
  rcases node.replaceSuffix_frame newEntries truncateFrom with ⟨_, _, _, _, frame⟩
  have replaced : (node.replaceSuffix newEntries truncateFrom).Idle := by
    rw [frame]
    exact ⟨idle.hardState, idle.log, idle.commit⟩
  have saved : (stored node newEntries truncateFrom).Idle :=
    ⟨replaced.hardState, replaced.log, replaced.commit⟩
  have committed : (stored node newEntries truncateFrom).durableCommitIndex =
      (stored node newEntries truncateFrom).commitIndex := by
    simp only [stored, Node.logSaved, frame, commit]
  have continued : (stored node newEntries truncateFrom).continueLog {
      purpose := .persistFollowerAppend
      term := request.term
      leader := request.sender
      truncateFrom := truncateFrom
      lastIndex := (node.replaceSuffix newEntries truncateFrom).lastLogIndex
      leaderCommit := request.leaderCommit
      readID := request.readID
      requestID := request.requestID } =
      (stored node newEntries truncateFrom).advanceFollowerCommit request.leaderCommit
        (confirmation (stored node newEntries truncateFrom) request) := by
    have sameRole : (stored node newEntries truncateFrom).role = .follower := by
      simp only [stored, Node.logSaved, frame, following]
    have sameTerm : (stored node newEntries truncateFrom).term = request.term := by
      simp only [stored, Node.logSaved, frame, current]
    have sameLeader : (stored node newEntries truncateFrom).leaderID = request.sender := by
      simp only [stored, Node.logSaved, frame, leader]
    simp only [Node.continueLog]
    rw [if_neg (by simp [sameRole, sameTerm, sameLeader])]
    rfl
  have drained := confirm saved committed request
  rw [← continued] at drained
  have logged : Drained (node.storeEntries request newEntries truncateFrom).1
      ((node.storeEntries request newEntries truncateFrom).2 ++ []) _ :=
    saveLog replaced newEntries drained
  rw [List.append_nil] at logged
  exact logged

theorem takeEntries (durable : node.Durable) (following : node.role = .follower)
    {request : AppendEntries} (current : node.term = request.term)
    (leader : node.leaderID = request.sender) :
    Drained (node.takeAppendEntries request).1 (node.takeAppendEntries request).2
      (takeEntriesNow node request) := by
  unfold Node.takeAppendEntries takeEntriesNow
  split_ifs
  · cases node.entriesToAppend request.prevLogIndex request.entries with
    | none => exact only_emits appendEntriesResponse_handsOut
    | some suffix =>
        rcases suffix with ⟨newEntries, truncateFrom⟩
        simp only
        split_ifs
        · exact store durable.toIdle durable.commit_eq following current leader _ _
        · unfold Node.confirmEntries
          rw [if_neg (not_lt.mpr durable.log_le)]
          exact confirm durable.toIdle durable.commit_eq request
  · exact only_emits appendEntriesResponse_handsOut

theorem appendEntries (durable : node.Durable) (request : AppendEntries) :
    Drained (node.handleAppendEntries request).1 (node.handleAppendEntries request).2
      (appendEntriesNow node request) := by
  by_cases stale : request.term < node.term
  · unfold Node.handleAppendEntries appendEntriesNow
    rw [if_pos stale, if_pos stale]
    exact only_emits appendEntriesResponse_handsOut
  · have accepted := durable.acceptLeader request.term request.sender
    have following : (node.acceptLeader request.term request.sender).role = .follower :=
      Node.acceptLeader_role _ _
    have leader : (node.acceptLeader request.term request.sender).leaderID = request.sender :=
      Node.acceptLeader_leaderID _ _
    have current := Node.acceptLeader_term (not_lt.mp stale) request.sender
    unfold Node.handleAppendEntries appendEntriesNow followNow reachWrites
    rw [if_neg stale, if_neg stale]
    by_cases newer : node.term < request.term
    · rw [if_pos newer, if_pos newer]
      have taken := takeEntries accepted.hardStateSaved following current leader
      rw [Node.takeAppendEntries_hardStateSaved _ _ accepted.above] at taken
      rcases (node.acceptLeader request.term request.sender).takeAppendEntries_hardState request
        with ⟨sameTerm, sameVote, samePending⟩
      have reset : Drained _ ([] ++ .resetElectionTimer :: _) _ := .emit rfl taken
      have saved := saveHardState (samePending.trans accepted.hardState) reset
      rw [sameTerm, sameVote, current, Node.acceptLeader_votedFor newer, List.append_nil] at saved
      simp only [Node.persistTermChange, newer, decide_true, if_true]
      exact saved
    · rw [if_neg newer, if_neg newer]
      have taken := takeEntries accepted following current leader
      simp only [Node.persistTermChange, newer, decide_false, Bool.false_eq_true, if_false]
      exact .emit rfl taken

theorem takeResponse (idle : node.Idle) (response : AppendEntriesResponse) :
    Drained (node.takeAppendEntriesResponse response).1
      (node.takeAppendEntriesResponse response).2
      (match (node.recordResponse response).advanceLeaderCommit with
        | some advanced => commitNow advanced response
        | none => supplyNow (node.recordResponse response)
            (node.appendInFlight response.sender) response) := by
  rcases node.recordResponse_frame response with ⟨_, _, _, _, recorded⟩
  have acknowledges : ∀ target : Node, ∀ action ∈ (target.acknowledgeRead response).2,
      completion action = none := fun target action emitted =>
    completion_of_reports (target.acknowledgeRead_reports response emitted)
  unfold Node.takeAppendEntriesResponse Node.continueReplication
  cases advances : (node.recordResponse response).advanceLeaderCommit with
  | some advanced =>
      simp only
      rw [Node.acknowledgeRead_persistCommit]
      have idle : ((advanced.sendAppendEntries 0).1.acknowledgeRead response).1.Idle := by
        rcases (advanced.sendAppendEntries 0).1.acknowledgeRead_frame response with ⟨_, reads⟩
        rcases advanced.sendAppendEntries_frame 0 with ⟨_, _, _, sent⟩
        rcases Node.advanceLeaderCommit_frame advances with ⟨_, rfl⟩
        rw [reads, sent, recorded]
        exact ⟨idle.hardState, idle.log, idle.commit⟩
      have commit : ((advanced.sendAppendEntries 0).1.acknowledgeRead response).1.commitIndex =
          advanced.commitIndex := by
        rcases (advanced.sendAppendEntries 0).1.acknowledgeRead_frame response with ⟨_, reads⟩
        rcases advanced.sendAppendEntries_frame 0 with ⟨_, _, _, sent⟩
        rw [reads, sent]
      have drained := saveCommit_only idle
        (fun action emitted => completion_of_supplies
          (advanced.sendAppendEntries_supplies 0 emitted))
        (acknowledges (advanced.sendAppendEntries 0).1)
      have sameRequest :
        (((advanced.sendAppendEntries 0).1.acknowledgeRead response).1.persistCommit
          (advanced.sendAppendEntries 0).2).2 =
          ((advanced.sendAppendEntries 0).1.persistCommit (advanced.sendAppendEntries 0).2).2 := by
        rcases (advanced.sendAppendEntries 0).1.acknowledgeRead_frame response with ⟨_, reads⟩
        rw [reads]
        rfl
      rw [commit, sameRequest] at drained
      exact drained
  | none =>
      simp only
      refine only_emits ?_
      intro action emitted
      rcases List.mem_append.mp emitted with supplied | acknowledged
      · split_ifs at supplied
        · exact completion_of_supplies (Node.sendAppendEntriesTo_supplies _ _ _ supplied)
        · simp at supplied
      · exact acknowledges _ action acknowledged

theorem appendEntriesResponse (idle : node.Idle) (response : AppendEntriesResponse) :
    Drained (node.handleAppendEntriesResponse response).1
      (node.handleAppendEntriesResponse response).2 (appendEntriesResponseNow node response) := by
  unfold Node.handleAppendEntriesResponse appendEntriesResponseNow
  split_ifs
  · exact stepDown idle _
  · exact .done _
  · exact .done _
  · exact takeResponse idle response

/-! ### Snapshots -/

theorem takeInstallSnapshot_idle (idle : node.Idle) (request : InstallSnapshot) :
    (node.takeInstallSnapshot request).Idle := by
  simp only [Node.takeInstallSnapshot, Node.installSnapshotBase]
  split_ifs
  · split <;> exact ⟨idle.hardState, idle.log, idle.commit⟩
  · split <;> exact ⟨idle.hardState, idle.log, idle.commit⟩
  · exact idle

theorem installSnapshot (durable : node.Durable) (request : InstallSnapshot) :
    Drained (node.handleInstallSnapshot request).1 (node.handleInstallSnapshot request).2
      (installSnapshotNow node request) := by
  have accepted := durable.acceptLeader request.term request.sender
  have installed := takeInstallSnapshot_idle accepted.toIdle request
  unfold Node.handleInstallSnapshot installSnapshotNow
  by_cases stale : request.term < node.term
  · rw [if_pos stale, if_pos stale]
    exact only_emits (by simp [Node.snapshotResponse, completion])
  · rw [if_neg stale, if_neg stale]
    by_cases newer : node.term < request.term
    · simp only [Node.persistTermChange, newer, decide_true, if_true]
      exact saveHardState_only installed (by simp [Node.snapshotResponse, completion])
    · simp only [Node.persistTermChange, newer, decide_false, Bool.false_eq_true, if_false]
      exact only_emits (by simp [Node.snapshotResponse, completion])

theorem installSnapshotResponse (idle : node.Idle) (response : InstallSnapshotResponse) :
    Drained (node.handleInstallSnapshotResponse response).1
      (node.handleInstallSnapshotResponse response).2
      (installSnapshotResponseNow node response) := by
  by_cases newer : node.term < response.term
  · unfold Node.handleInstallSnapshotResponse installSnapshotResponseNow
    rw [if_pos newer, if_pos newer]
    exact stepDown idle _
  · unfold installSnapshotResponseNow
    rw [if_neg newer]
    refine only_emits ?_
    intro action emitted
    unfold Node.handleInstallSnapshotResponse at emitted
    rw [if_neg newer] at emitted
    split_ifs at emitted
    · simp at emitted
    · exact completion_of_supplies (Node.sendAppendEntriesTo_supplies _ _ _ emitted)
    · rw [List.mem_singleton] at emitted
      rw [emitted]
      rfl
    · simp at emitted

/-! ### Steps without persistence -/

theorem heartbeat_handsOut (node : Node) :
    ∀ action ∈ node.heartbeatRound.2, completion action = none := by
  intro action emitted
  unfold Node.heartbeatRound at emitted
  split_ifs at emitted
  · simp at emitted
  · rcases List.mem_cons.mp emitted with rfl | sent
    · rfl
    · exact completion_of_supplies (Node.sendAppendEntries_supplies _ _ sent)

theorem confirmRead_handsOut (node : Node) (readID : ReadID) :
    ∀ action ∈ (node.confirmRead readID).2, completion action = none := by
  intro action emitted
  unfold Node.confirmRead at emitted
  split_ifs at emitted
  · simp only [List.mem_singleton] at emitted
    rw [emitted]
    rfl
  · simp only [List.mem_singleton] at emitted
    rw [emitted]
    rfl
  · exact completion_of_supplies (Node.sendAppendEntries_supplies _ _ emitted)

theorem checkQuorum_handsOut (node : Node) :
    ∀ action ∈ node.checkQuorum.2, completion action = none := by
  unfold Node.checkQuorum
  split_ifs <;> simp [completion]

theorem step_completion (idle : node.Idle) {action : Action} {event : Event}
    (completes : completion action = some event) : node.step event = (node, []) := by
  cases action <;> cases completes
  · simp [Node.step, Node.hardStatePersisted, idle.hardState]
  · simp [Node.step, Node.logEntriesPersisted, idle.log]
  · simp [Node.step, Node.commitIndexPersisted, idle.commit]

end Drained

theorem stepNow_drained {node : Node} (durable : node.Durable) (event : Event) :
    Drained (node.step event).1 (node.step event).2 (stepNow node event) := by
  have idle := durable.toIdle
  cases event with
  | electionTimeout => exact .electionTimeout idle
  | heartbeatTimeout => exact .only_emits (Drained.heartbeat_handsOut node)
  | checkQuorumTimeout => exact .only_emits (Drained.checkQuorum_handsOut node)
  | hardStatePersisted persistenceID =>
      have nothing := Drained.step_completion idle (show completion
        (.persistHardState persistenceID 0 "") = _ from rfl)
      exact .only_emits (by simp [nothing])
  | logEntriesPersisted persistenceID =>
      have nothing := Drained.step_completion idle (show completion
        (.persistLogEntries persistenceID 0 []) = _ from rfl)
      exact .only_emits (by simp [nothing])
  | commitIndexPersisted persistenceID =>
      have nothing := Drained.step_completion idle (show completion
        (.persistCommitIndex persistenceID 0) = _ from rfl)
      exact .only_emits (by simp [nothing])
  | recoverCommitted =>
      exact .only_emits fun _ emitted =>
        completion_of_reports (node.applyThrough_reports _ emitted)
  | snapshotCompacted => exact .done _
  | proposeSession proposal => exact .proposeSession idle proposal
  | proposeSet proposal => exact .proposeSet idle proposal
  | proposeDelete proposal => exact .proposeDelete idle proposal
  | confirmRead readID => exact .only_emits (Drained.confirmRead_handsOut node readID)
  | preVoteRequest request =>
      exact .only_emits (by simp [Node.step, Node.handlePreVoteRequest, completion])
  | preVoteResponse response => exact .preVoteResponse idle response
  | voteRequest request => exact .voteRequest idle request
  | voteResponse response => exact .voteResponse idle response
  | appendEntries request => exact .appendEntries durable request
  | appendEntriesResponse response => exact .appendEntriesResponse idle response
  | appendEntriesFailed receiver requestID => exact .done _
  | installSnapshot request => exact .installSnapshot durable request
  | installSnapshotResponse response => exact .installSnapshotResponse idle response

theorem step_eq {budget : Nat} {node : Node} {event : Event} {outcome : Outcome}
    (durable : node.Durable) (stepped : step budget node event = some outcome) :
    outcome = stepNow node event :=
  (Drained.of_drain stepped).unique (stepNow_drained durable event)

theorem step_terminates {node : Node} (durable : node.Durable) (event : Event) :
    ∃ budget, step budget node event = some (stepNow node event) :=
  (stepNow_drained durable event).budget

end Ternion.RaftRuntime
