import Ternion.Runtime.Synchronous

/-! # What a step can do

Every step in which nothing waits takes one of a few turns. Elections and
refused requests leave the log and the commit index alone, and each remaining
turn is one synchronous handler with the guards under which it runs.
-/

namespace Ternion.RaftRuntime

open Raft

variable {event : Event}

structure Holdings where
  id : NodeID
  peers : List NodeID
  log : List LogEntry
  lastLogIndex : Nat
  lastLogTerm : Nat
  durableLogIndex : Nat
  logBaseIndex : Nat
  logBaseTerm : Nat
  commitIndex : Nat
  durableCommitIndex : Nat
  lastApplied : Nat
  pendingHardState : Nat → Option PendingHardStatePersistence
  pendingLog : Nat → Option PendingLogPersistence
  pendingCommit : Nat → Option PendingCommitPersistence

def holdings (node : Node) : Holdings where
  id := node.id
  peers := node.peers
  log := node.log
  lastLogIndex := node.lastLogIndex
  lastLogTerm := node.lastLogTerm
  durableLogIndex := node.durableLogIndex
  logBaseIndex := node.logBaseIndex
  logBaseTerm := node.logBaseTerm
  commitIndex := node.commitIndex
  durableCommitIndex := node.durableCommitIndex
  lastApplied := node.lastApplied
  pendingHardState := node.pendingHardState
  pendingLog := node.pendingLog
  pendingCommit := node.pendingCommit

theorem termAt_of_holdings {node other : Node} (holds : holdings node = holdings other)
    (index : Nat) : node.termAt index = other.termAt index := by
  have log := congrArg Holdings.log holds
  have last := congrArg Holdings.lastLogIndex holds
  have base := congrArg Holdings.logBaseIndex holds
  have baseTerm := congrArg Holdings.logBaseTerm holds
  simp only [holdings] at log last base baseTerm
  rw [Node.termAt, Node.termAt, log, last, base, baseTerm]

structure Leadership where
  term : Nat
  matchIndex : NodeID → Nat
  nextIndex : NodeID → Nat
  pendingReads : List (ReadID × PendingRead)
  readReady : Bool

def leadership (node : Node) : Leadership where
  term := node.term
  matchIndex := node.matchIndex
  nextIndex := node.nextIndex
  pendingReads := node.pendingReads
  readReady := node.readReady

def noReads (node : Node) : Prop :=
  node.pendingReads = [] ∧ node.readReady = false

structure Calm (node after : Node) : Prop where
  holds : holdings after = holdings node
  leading : after.role = .leader → node.role = .leader ∧ leadership after = leadership node
  resting : after.role ≠ .leader → (node.role ≠ .leader → noReads node) → noReads after

def quiet : Action → Bool
  | .sendPreVoteRequest _ _ => true
  | .sendPreVoteResponse _ _ => true
  | .sendVoteRequest _ _ => true
  | .sendVoteResponse _ _ => true
  | .resetElectionTimer => true
  | .resetHeartbeatTimer => true
  | .resetCheckQuorumTimer => true
  | .lostLeadership _ => true
  | .proposalRejected _ _ => true
  | .readRejected _ _ => true
  | _ => false

inductive Proposes (node : Node) : Event → ProposalID → LogEntry → Prop
  | session (proposal : ProposeSession) :
      proposal.type = .openSession ∨ proposal.type = .closeSession →
      Proposes node (.proposeSession proposal) proposal.proposalID {
        index := node.lastLogIndex + 1
        term := node.term
        type := proposal.type
        sessionID := proposal.sessionID }
  | set (proposal : ProposeSet) :
      Proposes node (.proposeSet proposal) proposal.proposalID {
        index := node.lastLogIndex + 1
        term := node.term
        type := .set
        sessionID := proposal.sessionID
        sequence := proposal.sequence
        key := proposal.key
        value := proposal.value }
  | delete (proposal : ProposeDelete) :
      Proposes node (.proposeDelete proposal) proposal.proposalID {
        index := node.lastLogIndex + 1
        term := node.term
        type := .delete
        sessionID := proposal.sessionID
        sequence := proposal.sequence
        key := proposal.key }

theorem Proposes.position {node : Node} {proposalID : ProposalID} {entry : LogEntry}
    (proposes : Proposes node event proposalID entry) :
    entry.index = node.lastLogIndex + 1 ∧ entry.term = node.term := by
  cases proposes <;> exact ⟨rfl, rfl⟩

def HardStateDurable (node : Node) : Prop :=
  node.durableTerm = node.term ∧ node.durableVotedFor = node.votedFor

inductive Turn (node : Node) : Event → Outcome → Prop
  | kept {event : Event} {after : Node} {emitted : List Action} :
      Calm node after → after.term = node.term → after.votedFor = node.votedFor →
      HardStateDurable after → (∀ action ∈ emitted, quiet action) →
      Turn node event { core := after, emitted := emitted }
  | saved {event : Event} {after : Node} {emitted : List Action} :
      Calm node after → (∀ action ∈ emitted, quiet action) →
      Turn node event (saveHardState after emitted)
  | heartbeat : node.role = .leader →
      Turn node .heartbeatTimeout {
        core := (node.expireAppends.sendAppendEntries 0).1
        emitted := .resetHeartbeatTimer :: (node.expireAppends.sendAppendEntries 0).2 }
  | registered (readID : ReadID) : node.role = .leader → node.readReady = true →
      Turn node (.confirmRead readID) {
        core := ((node.registerRead readID).sendAppendEntries readID).1
        emitted := ((node.registerRead readID).sendAppendEntries readID).2 }
  | led {response : VoteResponse} : node.role = .candidate → response.term = node.term →
      response.granted → node.quorum ≤ (node.recordVote response.sender).votes.card →
      Turn node (.voteResponse response) (leadNow (node.recordVote response.sender))
  | proposed {event : Event} {proposalID : ProposalID} {entry : LogEntry} :
      node.role = .leader → Proposes node event proposalID entry →
      Turn node event (proposeNow node proposalID entry)
  | recovered :
      Turn node .recoverCommitted {
        core := (node.applyThrough node.commitIndex).1
        emitted := (node.applyThrough node.commitIndex).2 }
  | stale {request : AppendEntries} : request.term < node.term →
      Turn node (.appendEntries request) {
        core := node
        emitted := node.appendEntriesResponse request.sender request.requestID false
          node.lastLogIndex 0 0 request.readID }
  | followed {request : AppendEntries} : node.term ≤ request.term →
      Turn node (.appendEntries request)
        (((takeEntriesNow (followNow node request.term request.sender) request).emits
          [.resetElectionTimer]).wrote (reachWrites node request.term))
  | committed {response : AppendEntriesResponse} {advanced : Node} : node.role = .leader →
      response.term = node.term →
      ¬Node.outdated (node.appendInFlight response.sender) response →
      (node.recordResponse response).advanceLeaderCommit = some advanced →
      Turn node (.appendEntriesResponse response) (commitNow advanced response)
  | answered {response : AppendEntriesResponse} : node.role = .leader →
      response.term = node.term →
      ¬Node.outdated (node.appendInFlight response.sender) response →
      (node.recordResponse response).advanceLeaderCommit = none →
      Turn node (.appendEntriesResponse response)
        (supplyNow (node.recordResponse response) (node.appendInFlight response.sender) response)

/-! ## Calm changes -/

namespace Calm

variable {node : Node}

theorem refl (node : Node) : Calm node node where
  holds := rfl
  leading := fun leading => ⟨leading, rfl⟩
  resting := fun resting earlier => earlier resting

theorem becomeFollower (node : Node) (term : Nat) (leader : NodeID) :
    Calm node (node.becomeFollower term leader) where
  holds := rfl
  leading := fun leading => by cases leading
  resting := fun _ _ => ⟨rfl, rfl⟩

theorem of_resting {after : Node} (holds : holdings after = holdings node)
    (before : node.role ≠ .leader) (now : after.role ≠ .leader)
    (reads : after.pendingReads = node.pendingReads)
    (ready : after.readReady = node.readReady ∨ after.readReady = false) : Calm node after where
  holds := holds
  leading := fun leading => absurd leading now
  resting := by
    intro _ earlier
    rcases earlier before with ⟨none_, unready⟩
    refine ⟨reads.trans none_, ?_⟩
    rcases ready with same | lost
    · exact same.trans unready
    · exact lost

/-- A Node that keeps its role changes something that neither its log nor its
leadership depends on. -/
theorem of_same {after : Node} (holds : holdings after = holdings node)
    (role : after.role = node.role) (same : leadership after = leadership node) :
    Calm node after where
  holds := holds
  leading := fun leading => ⟨role ▸ leading, same⟩
  resting := by
    intro resting earlier
    rcases earlier (role ▸ resting) with ⟨none_, unready⟩
    exact ⟨(congrArg Leadership.pendingReads same).trans none_,
      (congrArg Leadership.readReady same).trans unready⟩

end Calm

theorem holdings_followNow (node : Node) (term : Nat) (leader : NodeID) :
    holdings (followNow node term leader) = holdings node := by
  rcases node.acceptLeader_frame term leader with ⟨_, _, _, _, _, _, _, _, _, _, frame⟩
  unfold followNow
  split_ifs
  · rw [frame]
    rfl
  · rw [frame]
    rfl

/-! ## Every step takes a turn -/

namespace Turn

variable {node : Node}

theorem unchanged (durable : HardStateDurable node) {emitted : List Action}
    (allQuiet : ∀ action ∈ emitted, quiet action) :
    Turn node event { core := node, emitted := emitted } :=
  .kept (.refl node) rfl rfl durable allQuiet

theorem stepDown (node : Node) (term : Nat) : Turn node event (stepDownNow node term) :=
  .saved (.becomeFollower node term "") (by simp)

theorem becomeCandidate_calm {started : Node} (calm : Calm node started)
    (resting : started.role ≠ .leader) : Calm node started.becomeCandidate where
  holds := calm.holds
  leading := fun leading => by cases leading
  resting := fun _ earlier => ⟨(calm.resting resting earlier).1, rfl⟩

theorem voteRequests_quiet (node : Node) :
    ∀ action ∈ Action.resetElectionTimer :: node.voteRequests, quiet action := by
  intro action emitted
  rcases List.mem_cons.mp emitted with rfl | request
  · rfl
  · rcases List.mem_map.mp request with ⟨peer, _, rfl⟩
    rfl

theorem startElection {started : Node}
    (calm : Calm node started)
    (resting : started.role ≠ .leader) :
    Turn node event (startElectionNow started) :=
  .saved (becomeCandidate_calm calm resting) (voteRequests_quiet _)

theorem preVoteRequests_quiet (node : Node) :
    ∀ action ∈ Action.resetElectionTimer :: node.preVoteRequests, quiet action := by
  intro action emitted
  rcases List.mem_cons.mp emitted with rfl | request
  · rfl
  · rcases List.mem_map.mp request with ⟨peer, _, rfl⟩
    rfl

theorem electionTimeout (durable : HardStateDurable node) :
    Turn node .electionTimeout (electionTimeoutNow node) := by
  unfold electionTimeoutNow
  split_ifs with leading
  · exact unchanged durable (by simp)
  · have started : Calm node node.becomePreCandidate :=
      .of_resting rfl leading (by simp [Node.becomePreCandidate]) rfl (.inl rfl)
    apply Turn.saved (becomeCandidate_calm started (by simp [Node.becomePreCandidate]))
    intro action emitted
    rcases List.mem_append.mp emitted with asked | requested
    · exact preVoteRequests_quiet node action asked
    · exact voteRequests_quiet _ action requested
  · exact .kept (.of_resting rfl leading (by simp [Node.becomePreCandidate]) rfl (.inl rfl)) rfl
      rfl durable (preVoteRequests_quiet node)

theorem preVoteResponse (durable : HardStateDurable node) (response : PreVoteResponse) :
    Turn node (.preVoteResponse response) (preVoteResponseNow node response) := by
  unfold preVoteResponseNow
  split_ifs with newer ignored few
  · exact stepDown node _
  · exact unchanged durable (by simp)
  all_goals
    simp only [not_or, not_not] at ignored
    have resting : node.role ≠ .leader := by simp [ignored.1]
    have recorded : Calm node (node.recordPreVote response.sender) :=
      .of_resting rfl resting resting rfl (.inl rfl)
  · exact .kept recorded rfl rfl durable (by simp)
  · exact startElection recorded resting

theorem decideVote_calm (node : Node) (request : VoteRequest) :
    Calm node ((node.reachTerm request.term).decideVote request).1 := by
  have reached : Calm node (node.reachTerm request.term) := by
    unfold Node.reachTerm
    split_ifs
    · exact .becomeFollower node _ _
    · exact .refl node
  unfold Node.decideVote
  split_ifs
  · exact ⟨reached.holds, reached.leading, reached.resting⟩
  · exact reached

theorem decideVote_quiet (node : Node) (request : VoteRequest) :
    ∀ action ∈ (node.decideVote request).2, quiet action := by
  unfold Node.decideVote
  split_ifs <;> simp [Node.voteResponse, quiet]

section

variable (durable : HardStateDurable node)

include durable

theorem decideVote_durable {request : VoteRequest}
    (kept : node.voteNeedsPersistence request = false) :
    node.reachTerm request.term = node ∧ (node.decideVote request).1.votedFor = node.votedFor := by
  simp only [Node.voteNeedsPersistence, Bool.or_eq_false_iff, decide_eq_false_iff_not] at kept
  rcases kept with ⟨notNewer, voted⟩
  have same : node.reachTerm request.term = node := by
    unfold Node.reachTerm
    exact if_neg notNewer
  refine ⟨same, ?_⟩
  rw [same] at voted
  unfold Node.decideVote
  split_ifs with grants
  · simp only [grants, Bool.true_and, Bool.not_eq_false', Node.voteIsDurable,
      decide_eq_true_eq] at voted
    exact voted.2.symm.trans durable.2
  · rfl

theorem voteRequest (request : VoteRequest) :
    Turn node (.voteRequest request) (voteRequestNow node request) := by
  unfold voteRequestNow
  split_ifs with stale needed
  · exact unchanged durable (by simp [Node.voteResponse, quiet])
  · exact .saved (decideVote_calm node request) (decideVote_quiet _ request)
  · rcases decideVote_durable durable (by simpa using needed) with ⟨same, vote⟩
    have calm := decideVote_calm node request
    rw [same] at calm ⊢
    have hardState : (node.decideVote request).1.term = node.term ∧
        HardStateDurable (node.decideVote request).1 := by
      have sameVote := vote
      unfold Node.decideVote at sameVote ⊢
      split_ifs at sameVote ⊢
      · exact ⟨rfl, durable.1, durable.2.trans sameVote.symm⟩
      · exact ⟨rfl, durable⟩
    exact .kept calm hardState.1 vote hardState.2 (decideVote_quiet node request)

theorem voteResponse (response : VoteResponse) :
    Turn node (.voteResponse response) (voteResponseNow node response) := by
  unfold voteResponseNow
  split_ifs with newer ignored few
  · exact stepDown node _
  · exact unchanged durable (by simp)
  all_goals
    simp only [not_or, not_not] at ignored
  · have resting : node.role ≠ .leader := by simp [ignored.1]
    exact .kept (.of_resting rfl resting resting rfl (.inl rfl)) rfl rfl durable (by simp)
  · exact .led ignored.1 ignored.2.1 ignored.2.2 (not_lt.mp few)

theorem proposeSession (proposal : ProposeSession) :
    Turn node (.proposeSession proposal) (proposeSessionNow node proposal) := by
  unfold proposeSessionNow
  split_ifs with notLeading unsupported
  · exact unchanged durable (by simp [quiet])
  · exact unchanged durable (by simp)
  · exact .proposed (not_not.mp notLeading) (.session proposal (by tauto))

theorem proposeSet (proposal : ProposeSet) :
    Turn node (.proposeSet proposal) (proposeSetNow node proposal) := by
  unfold proposeSetNow
  split_ifs with notLeading
  · exact unchanged durable (by simp [quiet])
  · exact .proposed (not_not.mp notLeading) (.set proposal)

theorem proposeDelete (proposal : ProposeDelete) :
    Turn node (.proposeDelete proposal) (proposeDeleteNow node proposal) := by
  unfold proposeDeleteNow
  split_ifs with notLeading
  · exact unchanged durable (by simp [quiet])
  · exact .proposed (not_not.mp notLeading) (.delete proposal)

end

theorem appendEntries (request : AppendEntries) :
    Turn node (.appendEntries request) (appendEntriesNow node request) := by
  unfold appendEntriesNow
  split_ifs with stale
  · exact .stale stale
  · exact .followed (not_lt.mp stale)

section

variable (durable : HardStateDurable node)

include durable

theorem appendEntriesResponse (response : AppendEntriesResponse) :
    Turn node (.appendEntriesResponse response) (appendEntriesResponseNow node response) := by
  unfold appendEntriesResponseNow
  split_ifs with newer ignored late
  · exact stepDown node _
  · exact unchanged durable (by simp)
  · exact unchanged durable (by simp)
  · simp only [not_or, not_not] at ignored
    cases advances : (node.recordResponse response).advanceLeaderCommit with
    | none => exact .answered ignored.1 ignored.2 late advances
    | some advanced => exact .committed ignored.1 ignored.2 late advances

theorem heartbeatTimeout :
    Turn node .heartbeatTimeout
      { core := node.heartbeatRound.1, emitted := node.heartbeatRound.2 } := by
  unfold Node.heartbeatRound
  split_ifs with notLeading
  · exact unchanged durable (by simp)
  · exact .heartbeat (not_not.mp notLeading)

theorem checkQuorumTimeout :
    Turn node .checkQuorumTimeout
      { core := node.checkQuorum.1, emitted := node.checkQuorum.2 } := by
  unfold Node.checkQuorum
  split_ifs
  · exact unchanged durable (by simp)
  · refine .kept (.becomeFollower node _ _) rfl ?_ ?_ (by simp [quiet])
    · simp [Node.becomeFollower]
    · simpa [HardStateDurable, Node.becomeFollower] using durable
  · exact .kept (.of_same rfl rfl rfl) rfl rfl durable (by simp [quiet])

theorem confirmRead (readID : ReadID) :
    Turn node (.confirmRead readID)
      { core := (node.confirmRead readID).1, emitted := (node.confirmRead readID).2 } := by
  unfold Node.confirmRead
  split_ifs with notLeading unready
  · exact unchanged durable (by simp [quiet])
  · exact unchanged durable (by simp [quiet])
  · exact .registered readID (not_not.mp notLeading) (by simpa using unready)

end

end Turn

def uncompactedEvent : Event → Bool
  | .snapshotCompacted _ _ => false
  | .installSnapshot _ => false
  | .installSnapshotResponse _ => false
  | _ => true

theorem stepNow_turn {node : Node} (durable : node.Durable) (hardState : HardStateDurable node)
    (uncompacted : uncompactedEvent event) : Turn node event (stepNow node event) := by
  cases event with
  | electionTimeout => exact .electionTimeout hardState
  | heartbeatTimeout => exact .heartbeatTimeout hardState
  | checkQuorumTimeout => exact .checkQuorumTimeout hardState
  | hardStatePersisted persistenceID =>
      simp only [stepNow, Node.step, Node.hardStatePersisted, durable.hardState]
      exact .unchanged hardState (by simp)
  | logEntriesPersisted persistenceID =>
      simp only [stepNow, Node.step, Node.logEntriesPersisted, durable.log]
      exact .unchanged hardState (by simp)
  | commitIndexPersisted persistenceID =>
      simp only [stepNow, Node.step, Node.commitIndexPersisted, durable.commit]
      exact .unchanged hardState (by simp)
  | recoverCommitted =>
      simp only [stepNow, Node.step, durable.commit_eq]
      exact .recovered
  | snapshotCompacted => cases uncompacted
  | proposeSession proposal => exact .proposeSession hardState proposal
  | proposeSet proposal => exact .proposeSet hardState proposal
  | proposeDelete proposal => exact .proposeDelete hardState proposal
  | confirmRead readID => exact .confirmRead hardState readID
  | preVoteRequest request =>
      exact .unchanged hardState (by simp [Node.step, Node.handlePreVoteRequest, quiet])
  | preVoteResponse response => exact .preVoteResponse hardState response
  | voteRequest request => exact .voteRequest hardState request
  | voteResponse response => exact .voteResponse hardState response
  | appendEntries request => exact .appendEntries request
  | appendEntriesResponse response => exact .appendEntriesResponse hardState response
  | appendEntriesFailed receiver requestID =>
      exact .kept (.of_same rfl rfl rfl) rfl rfl hardState (by simp [Node.step,
        Node.handleAppendEntriesFailed])
  | installSnapshot => cases uncompacted
  | installSnapshotResponse => cases uncompacted

end Ternion.RaftRuntime
