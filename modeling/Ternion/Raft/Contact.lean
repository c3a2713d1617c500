import Ternion.Raft.Course

/-! # Contact between a Leader and its peers

A heartbeat retries every peer whose next entries the Leader still has, and a
check of the quorum counts the peers whose answers were recorded since the
last check.
-/

namespace Ternion.Raft

/-- The action sends entries or a Snapshot to the peer. -/
def Action.supplies (peer : NodeID) : Action → Bool
  | .sendAppendEntries receiver _ => receiver = peer
  | .sendInstallSnapshot receiver _ _ _ _ _ => receiver = peer
  | _ => false

namespace Node

/-- The Node after a list of events. -/
def after (node : Node) (events : List Event) : Node :=
  events.foldl (fun node event => (node.step event).1) node

/-! ## Heartbeats -/

/-- Nothing that waits for an answer keeps the Leader from sending to the peer. -/
structure Reachable (node : Node) (peer : NodeID) : Prop where
  idle : (node.appendInFlight peer).requestID = 0
  available : node.snapshotInFlight peer = 0 ∨ node.logBaseIndex < node.firstToSend peer

variable {node : Node} {peer other : NodeID}

theorem Reachable.supplied (reachable : node.Reachable peer) (readID : ReadID) :
    ∃ action ∈ (node.sendAppendEntriesTo peer readID).2, action.supplies peer = true := by
  rw [sendAppendEntriesTo, if_neg (not_not.mpr reachable.idle)]
  split_ifs with compacted transferring
  · rcases reachable.available with noTransfer | present
    · exact absurd noTransfer transferring
    · exact absurd compacted (Nat.not_le.mpr present)
  · exact ⟨_, List.mem_singleton_self _, decide_eq_true rfl⟩
  · exact ⟨_, List.mem_singleton_self _, decide_eq_true rfl⟩

/-- Sending to one peer changes nothing for the others. -/
theorem Reachable.unaffected (reachable : node.Reachable peer) (different : peer ≠ other)
    (readID : ReadID) : (node.sendAppendEntriesTo other readID).1.Reachable peer := by
  rw [sendAppendEntriesTo]
  split_ifs
  · exact reachable
  · exact reachable
  · refine ⟨reachable.idle, ?_⟩
    simp only [Function.update_of_ne different]
    exact reachable.available
  · refine ⟨?_, reachable.available⟩
    simp only [Function.update_of_ne different]
    exact reachable.idle

theorem Reachable.suppliedAmong (reachable : node.Reachable peer) (readID : ReadID)
    {peers : List NodeID} (present : peer ∈ peers) :
    ∃ action ∈ (node.sendAppendEntriesToEach readID peers).2, action.supplies peer = true := by
  induction peers generalizing node with
  | nil => cases present
  | cons first rest induction =>
      simp only [sendAppendEntriesToEach]
      by_cases same : peer = first
      · subst same
        rcases reachable.supplied (if readID = 0 then node.pendingReadFor peer else readID) with
          ⟨action, emitted, supplies⟩
        exact ⟨action, List.mem_append_left _ emitted, supplies⟩
      · have later := List.mem_of_ne_of_mem same present
        rcases induction (reachable.unaffected same _) later with ⟨action, emitted, supplies⟩
        exact ⟨action, List.mem_append_right _ emitted, supplies⟩

/-- Only a peer that can be sent to is sent to. -/
theorem available_of_supplied {readID : ReadID} {peers : List NodeID} {action : Action}
    (emitted : action ∈ (node.sendAppendEntriesToEach readID peers).2)
    (supplies : action.supplies peer = true) :
    node.snapshotInFlight peer = 0 ∨ node.logBaseIndex < node.firstToSend peer := by
  induction peers generalizing node with
  | nil => cases emitted
  | cons first rest induction =>
      simp only [sendAppendEntriesToEach] at emitted
      generalize (if readID = 0 then node.pendingReadFor first else readID) = peerReadID at emitted
      rcases List.mem_append.mp emitted with here | later
      · rw [sendAppendEntriesTo] at here
        split_ifs at here with busy compacted transferring
        · cases here
        · cases here
        · cases List.mem_singleton.mp here
          rw [← of_decide_eq_true supplies]
          exact .inl (not_not.mp transferring)
        · cases List.mem_singleton.mp here
          rw [← of_decide_eq_true supplies]
          exact .inr (Nat.lt_of_not_le compacted)
      · have available := induction later
        rw [sendAppendEntriesTo] at available
        split_ifs at available with busy compacted transferring
        · exact available
        · exact available
        · by_cases same : peer = first
          · exact .inl (same ▸ not_not.mp transferring)
          · simp only [Function.update_of_ne same] at available
            exact available
        · exact available

/-- A heartbeat of a Leader sends to exactly the peers that need no Snapshot, or
to which no Snapshot is being transferred. -/
theorem heartbeat_retries (node : Node) (leads : node.role = .leader) (peer : NodeID)
    (present : peer ∈ node.peers) :
    (∃ action ∈ (node.step .heartbeatTimeout).2, action.supplies peer = true) ↔
      node.snapshotInFlight peer = 0 ∨ node.logBaseIndex < node.firstToSend peer := by
  rw [step, heartbeatRound, if_neg (not_not.mpr leads)]
  constructor
  · rintro ⟨action, emitted, supplies⟩
    rcases List.mem_cons.mp emitted with rfl | sent
    · cases supplies
    · exact @available_of_supplied node.expireAppends peer 0 _ _ sent supplies
  · intro available
    have reachable : node.expireAppends.Reachable peer := ⟨rfl, available⟩
    rcases reachable.suppliedAmong 0 present with ⟨action, emitted, supplies⟩
    exact ⟨action, List.mem_cons_of_mem _ emitted, supplies⟩

/-- The answer of a peer to a request of the first Term. -/
def answer (sender : NodeID) (requestID : Nat) (success : Bool) (matchIndex conflictIndex : Nat) :
    Event :=
  .appendEntriesResponse {
    sender := sender
    term := 1
    requestID := requestID
    success := success
    matchIndex := matchIndex
    conflictTerm := 0
    conflictIndex := conflictIndex
    readID := 0 }

/-- A Leader of a Cluster of three that committed its first entry. -/
def firstLeadership : List Event :=
  [.electionTimeout,
    .preVoteResponse { sender := "b", term := 1, currentTerm := 0, granted := true },
    .hardStatePersisted 1,
    .voteResponse { sender := "b", term := 1, granted := true },
    .logEntriesPersisted 1,
    answer "b" 1 true 1 0,
    .commitIndexPersisted 1]

theorem heartbeat_retries_followers :
    let node := (newNodeFromRecoveredState "a" ["b", "c"] {}).after firstLeadership
    node.role = .leader ∧
      ∃ action ∈ (node.step .heartbeatTimeout).2, action.supplies "c" = true :=
  ⟨by decide +kernel, (heartbeat_retries _ (by decide +kernel) "c" (by decide +kernel)).mpr
    (by decide +kernel)⟩

/-- The Snapshot that a peer needs is sent, and the request or its answer lost. -/
def lostTransfer : List Event :=
  firstLeadership ++
    [.snapshotCompacted 1 1, answer "c" 2 false 0 1]

/-- No heartbeat retries a lost transfer. -/
theorem heartbeat_abandons_transfer :
    let node := (newNodeFromRecoveredState "a" ["b", "c"] {}).after lostTransfer
    node.role = .leader ∧ "c" ∈ node.peers ∧
      ∀ action ∈ (node.step .heartbeatTimeout).2, action.supplies "c" = false := by
  decide +kernel

/-! ## The check of the quorum -/

/-- The peer whose answer is recorded when the event is handled. -/
def counted (node : Node) : Event → Finset NodeID
  | .appendEntriesResponse response =>
      if response.term = node.term ∧ ¬outdated (node.appendInFlight response.sender) response then
        {response.sender}
      else ∅
  | _ => ∅

theorem sendAppendEntriesTo_active (node : Node) (peer : NodeID) (readID : ReadID) :
    (node.sendAppendEntriesTo peer readID).1.activePeers = node.activePeers := by
  rcases node.sendAppendEntriesTo_frame peer readID with ⟨_, _, _, frame⟩
  rw [frame]

theorem sendAppendEntries_active (node : Node) (readID : ReadID) :
    (node.sendAppendEntries readID).1.activePeers = node.activePeers := by
  rcases node.sendAppendEntries_frame readID with ⟨_, _, _, frame⟩
  rw [frame]

theorem applyThrough_active (node : Node) (index : Nat) :
    (node.applyThrough index).1.activePeers = node.activePeers := by
  rcases node.applyThrough_frame index with ⟨_, _, _, frame⟩
  rw [frame]

theorem proposeEntry_active (node : Node) (proposalID : ProposalID) (entry : LogEntry) :
    (node.proposeEntry proposalID entry).1.activePeers = node.activePeers := by
  rcases node.appendEntries_frame [entry] with ⟨_, _, _, frame⟩
  simp only [proposeEntry, appendOwnEntry, persistLog, frame]

theorem recordResponse_active (node : Node) (response : AppendEntriesResponse) :
    (node.recordResponse response).activePeers = insert response.sender node.activePeers := by
  rw [recordResponse]
  split_ifs <;> rfl

theorem continueReplication_active (node : Node) (pending : PendingAppend)
    (response : AppendEntriesResponse) :
    (node.continueReplication pending response).1.activePeers = node.activePeers := by
  rw [continueReplication]
  cases advances : node.advanceLeaderCommit with
  | some advanced =>
      rcases advanceLeaderCommit_frame advances with ⟨index, isAdvanced⟩
      exact (advanced.sendAppendEntries_active 0).trans (by rw [isAdvanced])
  | none =>
      simp only
      split_ifs
      · exact node.sendAppendEntriesTo_active ..
      · rfl

theorem handleAppendEntriesResponse_active {response : AppendEntriesResponse}
    (leads : node.role = .leader) (sameTerm : ¬node.term < response.term) :
    (node.handleAppendEntriesResponse response).1.activePeers =
      node.counted (.appendEntriesResponse response) ∪ node.activePeers := by
  rw [handleAppendEntriesResponse, if_neg sameTerm, counted]
  by_cases current : response.term = node.term
  · rw [if_neg (by simp [leads, current])]
    by_cases isOutdated : outdated (node.appendInFlight response.sender) response
    · rw [if_pos isOutdated, if_neg (by simp [isOutdated]), Finset.empty_union]
    · rcases ((node.recordResponse response).continueReplication
        (node.appendInFlight response.sender) response).1.acknowledgeRead_frame response with
        ⟨_, acknowledged⟩
      rw [if_neg isOutdated, if_pos ⟨current, isOutdated⟩, takeAppendEntriesResponse]
      simp only [acknowledged, continueReplication_active, recordResponse_active]
      exact Finset.insert_eq ..
  · rw [if_pos (.inr current), if_neg (by simp [current]), Finset.empty_union]

theorem Furthers.role {after : Node} (furthers : Furthers node after) : after.role = node.role := by
  rcases furthers with ⟨_, _, rfl⟩
  rfl

theorem persistTermChange_role (changed : Bool) (result : Node × List Action) :
    (persistTermChange changed result).1.role = result.1.role := by
  rw [persistTermChange]
  split_ifs <;> rfl

/-- A Node that takes entries from a Leader follows it. -/
theorem handleAppendEntries_leads {request : AppendEntries}
    (leads : (node.handleAppendEntries request).1.role = .leader) :
    (node.handleAppendEntries request).1 = node := by
  rw [handleAppendEntries] at leads ⊢
  split_ifs at leads ⊢ with stale
  · rfl
  · have current := acceptLeader_term (not_lt.mp stale) request.sender
    have taken : Body _ node _ _ := takeAppendEntries_body current
    rw [persistTermChange_role, taken.furthers.role, acceptLeader_role] at leads
    cases leads

theorem handleInstallSnapshot_leads {request : InstallSnapshot}
    (leads : (node.handleInstallSnapshot request).1.role = .leader) :
    (node.handleInstallSnapshot request).1 = node := by
  rw [handleInstallSnapshot] at leads ⊢
  split_ifs at leads ⊢ with stale
  · rfl
  · have current := acceptLeader_term (not_lt.mp stale) request.sender
    have installed : Body _ node _ _ := takeInstallSnapshot_body current
    rw [persistTermChange_role, installed.furthers.role, acceptLeader_role] at leads
    cases leads

theorem decideVote_kept (node : Node) (request : VoteRequest) :
    (node.decideVote request).1.role = node.role ∧
      (node.decideVote request).1.activePeers = node.activePeers := by
  rw [decideVote]
  split_ifs <;> exact ⟨rfl, rfl⟩

theorem handleVoteRequest_active {request : VoteRequest}
    (leads : (node.handleVoteRequest request).1.role = .leader) :
    (node.handleVoteRequest request).1.activePeers = node.activePeers := by
  rw [handleVoteRequest] at leads ⊢
  split_ifs at leads ⊢ with stale
  · rfl
  · rw [persistTermChange_role, (decideVote_kept ..).1] at leads
    have sameTerm : node.reachTerm request.term = node := by
      rw [reachTerm] at leads ⊢
      split_ifs at leads ⊢
      · cases leads
      · rfl
    have kept : ∀ changed result, (persistTermChange changed result).1.activePeers =
        result.1.activePeers := by
      intro changed result
      rw [persistTermChange]
      split_ifs <;> rfl
    rw [kept, (decideVote_kept ..).2, sameTerm]

/-- While a Node leads, only the answers of its peers change who is active. -/
theorem step_active {event : Event} (leads : node.role = .leader)
    (unchecked : event ≠ .checkQuorumTimeout) (leadsAfter : (node.step event).1.role = .leader) :
    (node.step event).1.activePeers = node.counted event ∪ node.activePeers := by
  have quiet : ∀ {active : Finset NodeID}, active = node.activePeers →
      active = (∅ : Finset NodeID) ∪ node.activePeers := by
    intro active same
    rw [same, Finset.empty_union]
  cases event with
  | checkQuorumTimeout => exact absurd rfl unchecked
  | appendEntriesResponse response =>
      apply handleAppendEntriesResponse_active leads
      intro greater
      simp only [step, handleAppendEntriesResponse, if_pos greater] at leadsAfter
      cases leadsAfter
  | electionTimeout =>
      apply quiet
      rw [step, startPreVote, if_pos leads]
  | heartbeatTimeout =>
      apply quiet
      rw [step, heartbeatRound, if_neg (not_not.mpr leads)]
      exact sendAppendEntries_active ..
  | hardStatePersisted persistenceID =>
      apply quiet
      rw [step, hardStatePersisted]
      cases node.pendingHardState persistenceID <;> rfl
  | logEntriesPersisted persistenceID =>
      apply quiet
      rw [step, logEntriesPersisted]
      cases node.pendingLog persistenceID with
      | none => rfl
      | some pending =>
          simp only [continueLog]
          cases pending.purpose with
          | persistLeaderEntry =>
              simp only
              split_ifs
              · rfl
              · exact sendAppendEntries_active ..
          | persistFollowerAppend =>
              simp only
              rw [if_pos (by simp [completeLog, leads])]
              rfl
  | commitIndexPersisted persistenceID =>
      apply quiet
      rw [step, commitIndexPersisted]
      cases node.pendingCommit persistenceID with
      | none => rfl
      | some pending => exact applyThrough_active ..
  | recoverCommitted => exact quiet (applyThrough_active ..)
  | snapshotCompacted index term =>
      apply quiet
      rw [step, compactLog]
      split_ifs <;> rfl
  | proposeSession proposal =>
      apply quiet
      rw [step, proposeSession]
      split_ifs
      · rfl
      · rfl
      · exact proposeEntry_active ..
  | proposeSet proposal =>
      apply quiet
      rw [step, proposeSet]
      split_ifs
      · rfl
      · exact proposeEntry_active ..
  | proposeDelete proposal =>
      apply quiet
      rw [step, proposeDelete]
      split_ifs
      · rfl
      · exact proposeEntry_active ..
  | confirmRead readID =>
      apply quiet
      rw [step, confirmRead]
      split_ifs
      · rfl
      · rfl
      · exact sendAppendEntries_active ..
  | preVoteRequest request => exact quiet rfl
  | preVoteResponse response =>
      apply quiet
      rw [step, handlePreVoteResponse] at leadsAfter ⊢
      split_ifs at leadsAfter ⊢ with greater ignored few
      · cases leadsAfter
      · rfl
      · simp [leads] at ignored
      · simp [leads] at ignored
  | voteRequest request => exact quiet (handleVoteRequest_active leadsAfter)
  | voteResponse response =>
      apply quiet
      rw [step, handleVoteResponse] at leadsAfter ⊢
      split_ifs at leadsAfter ⊢ with greater ignored few
      · cases leadsAfter
      · rfl
      · simp [leads] at ignored
      · simp [leads] at ignored
  | appendEntries request =>
      apply quiet
      rw [step, handleAppendEntries_leads leadsAfter]
  | appendEntriesFailed receiver requestID => exact quiet rfl
  | installSnapshot request =>
      apply quiet
      rw [step, handleInstallSnapshot_leads leadsAfter]
  | installSnapshotResponse response =>
      apply quiet
      rw [step, handleInstallSnapshotResponse] at leadsAfter ⊢
      split_ifs at leadsAfter ⊢
      · cases leadsAfter
      · rfl
      · exact (node.recordSnapshot response).sendAppendEntriesTo_active ..
      · rfl
      · rfl

/-- The events of one window, from a Node that starts to lead or survived a
check of the quorum, up to the next check. -/
inductive Window (permitted : Node → Event → Prop) : Node → List Event → Node → Prop
  | start {first : Node} (leads : first.role = .leader) (fresh : first.activePeers = ∅) :
      Window permitted first [] first
  | step {first : Node} {events : List Event} {last : Node} {event : Event}
      (window : Window permitted first events last) (unchecked : event ≠ .checkQuorumTimeout)
      (isPermitted : permitted last event) (leads : (last.step event).1.role = .leader)
      (sameTerm : (last.step event).1.term = last.term) :
      Window permitted first (events ++ [event]) (last.step event).1

/-- The sender of a response of the given Term. -/
def responder (term : Nat) : Event → Option NodeID
  | .appendEntriesResponse response =>
      if response.term = term then some response.sender else none
  | .installSnapshotResponse response =>
      if response.term = term then some response.sender else none
  | _ => none

/-- The peers that responded in the given Term. -/
def responders (term : Nat) (events : List Event) : Finset NodeID :=
  (events.filterMap (responder term)).toFinset

/-- A response of the Leader's Term answers an append, and not one that the
Leader has already replaced. -/
def Prompt (node : Node) : Event → Prop
  | .appendEntriesResponse response =>
      response.term = node.term → ¬outdated (node.appendInFlight response.sender) response
  | .installSnapshotResponse response => response.term ≠ node.term
  | _ => True

variable {permitted : Node → Event → Prop} {first last : Node} {events : List Event}

theorem Window.leads (window : Window permitted first events last) :
    last.role = .leader ∧ last.term = first.term := by
  induction window with
  | start leads => exact ⟨leads, rfl⟩
  | step _ _ _ leads sameTerm induction => exact ⟨leads, sameTerm.trans induction.2⟩

/-- A prompt response is counted. -/
theorem Prompt.counted {event : Event} (prompt : Prompt node event) :
    node.counted event = ((responder node.term event).toList).toFinset := by
  cases event with
  | appendEntriesResponse response =>
      by_cases current : response.term = node.term
      · simp [Node.counted, responder, current, prompt current]
      · simp [Node.counted, responder, current]
  | installSnapshotResponse response =>
      have stale : response.term ≠ node.term := prompt
      simp [Node.counted, responder, stale]
  | _ => rfl

theorem Window.active_eq (window : Window Prompt first events last) :
    last.activePeers = responders first.term events := by
  induction window with
  | start _ fresh => exact fresh
  | @step events last event window unchecked prompt leadsAfter sameTerm induction =>
      rcases window.leads with ⟨leads, sameTermBefore⟩
      have isCounted := Prompt.counted prompt
      rw [sameTermBefore] at isCounted
      rw [step_active leads unchecked leadsAfter, induction, isCounted, responders, responders,
        List.filterMap_append, List.toFinset_append, Finset.union_comm]
      cases responded : responder first.term event <;> simp [responded]

/-- A check of the quorum demotes exactly on lost contact, if the responses of
the window were prompt answers to appends. -/
theorem check_quorum_demotes (window : Window Prompt first events last)
    (hasPeers : last.peers ≠ []) :
    (last.quorum - 1 ≤ (responders first.term events).card →
      (last.step .checkQuorumTimeout).1.role = .leader) ∧
    (responders first.term events = ∅ →
      (last.step .checkQuorumTimeout).1.role ≠ .leader) := by
  rcases window.leads with ⟨leads, _⟩
  rw [← window.active_eq, step, checkQuorum, if_neg (not_not.mpr leads)]
  have quorum : 2 ≤ last.quorum := by
    have := List.length_pos_iff.mpr hasPeers
    rw [Node.quorum]
    omega
  constructor
  · intro enough
    rw [if_neg (by omega)]
    exact leads
  · intro none_
    rw [none_, Finset.card_empty, if_pos (by omega)]
    simp [becomeFollower]

/-- The Leader hears from one peer, before its no-op is committed. -/
theorem check_quorum_demotes_answered :
    let first := (newNodeFromRecoveredState "a" ["b", "c"] {}).after (firstLeadership.take 5)
    first.role = .leader ∧
      ((first.step (answer "b" 1 true 1 0)).1.step .checkQuorumTimeout).1.role = .leader := by
  refine ⟨by decide +kernel, ?_⟩
  have window : Window Prompt
      ((newNodeFromRecoveredState "a" ["b", "c"] {}).after (firstLeadership.take 5))
      ([] ++ [answer "b" 1 true 1 0]) _ :=
    .step (.start (by decide +kernel) (by decide +kernel)) nofun (fun _ => by decide +kernel)
      (by decide +kernel) (by decide +kernel)
  exact (check_quorum_demotes window (by decide +kernel)).1 (by decide +kernel)

/-- A Follower that is being sent a Snapshot, and answers every chunk. -/
def transferring : List Event :=
  lostTransfer ++ [answer "b" 3 true 1 0, .checkQuorumTimeout]

/-- The Follower asks for the next chunk. -/
def chunkReceived : Event :=
  .installSnapshotResponse {
    sender := "c"
    term := 1
    requestID := 4
    snapshotIndex := 1
    success := true
    nextOffset := 10
    done := false }

/-- The answers to a Snapshot are not counted, so a Leader that is in contact
with a quorum is demoted. -/
theorem check_quorum_demotes_transferring :
    let first := (newNodeFromRecoveredState "a" ["b", "c"] {}).after transferring
    let last := (first.step chunkReceived).1
    first.role = .leader ∧ first.activePeers = ∅ ∧ last.role = .leader ∧
      (first.step chunkReceived).2 ≠ [] ∧
      (responders first.term [chunkReceived]).card = last.quorum - 1 ∧
      (last.step .checkQuorumTimeout).1.role = .follower := by
  decide +kernel

end Node

end Ternion.Raft
