import Ternion.Raft.Apply
import Ternion.Runtime.Drain

/-! # The core under instantaneous durability

When nothing waits for durability, a step of the runtime is a function of the
core and the event. `stepNow` is this function, written handler by handler with
the writes in their order. It is the level at which safety is argued; the loop
is shown to compute it.
-/

namespace Ternion.Raft.Node

/-! ## Completed persistence -/

def hardStateSaved (node : Node) : Node :=
  { node with
    nextHardStatePersistence := node.nextHardStatePersistence + 1
    durableTerm := node.term
    durableVotedFor := node.votedFor }

def logSaved (node : Node) (lastIndex : Nat) : Node :=
  { node with
    nextLogPersistence := node.nextLogPersistence + 1
    durableLogIndex := max node.durableLogIndex lastIndex }

def commitSaved (node : Node) : Node :=
  { node with
    nextCommitPersistence := node.nextCommitPersistence + 1
    durableCommitIndex := max node.durableCommitIndex node.commitIndex }

structure Idle (node : Node) : Prop where
  hardState : node.pendingHardState = fun _ => none
  log : node.pendingLog = fun _ => none
  commit : node.pendingCommit = fun _ => none

/-- Everything the Node holds is durable. -/
structure Durable (node : Node) : Prop extends node.Idle where
  log_le : node.lastLogIndex ≤ node.durableLogIndex
  commit_eq : node.durableCommitIndex = node.commitIndex
  above : node.logBaseIndex ≤ node.lastApplied

end Ternion.Raft.Node

namespace Ternion.RaftRuntime

open Raft

/-! ## The synchronous handlers -/

def saveHardState (node : Node) (after : List Action) : Outcome where
  core := node.hardStateSaved
  writes := [.saveHardState ⟨node.term, node.votedFor⟩]
  emitted := after

def startElectionNow (node : Node) : Outcome :=
  saveHardState node.becomeCandidate (.resetElectionTimer :: node.becomeCandidate.voteRequests)

def stepDownNow (node : Node) (term : Nat) : Outcome :=
  saveHardState (node.becomeFollower term "") []

def electionTimeoutNow (node : Node) : Outcome :=
  if node.role = .leader then { core := node }
  else if node.quorum = 1 then
    (startElectionNow node.becomePreCandidate).emits (.resetElectionTimer :: node.preVoteRequests)
  else
    { core := node.becomePreCandidate, emitted := .resetElectionTimer :: node.preVoteRequests }

def preVoteResponseNow (node : Node) (response : PreVoteResponse) : Outcome :=
  if node.term < response.currentTerm then stepDownNow node response.currentTerm
  else if node.role ≠ .preCandidate ∨ response.term ≠ node.term + 1 ∨ ¬response.granted then
    { core := node }
  else if (node.recordPreVote response.sender).preVotes.card < node.quorum then
    { core := node.recordPreVote response.sender }
  else startElectionNow (node.recordPreVote response.sender)

def voteRequestNow (node : Node) (request : VoteRequest) : Outcome :=
  if request.term < node.term then
    { core := node, emitted := node.voteResponse request.sender false }
  else if node.voteNeedsPersistence request then
    saveHardState ((node.reachTerm request.term).decideVote request).1
      ((node.reachTerm request.term).decideVote request).2
  else
    { core := ((node.reachTerm request.term).decideVote request).1
      emitted := ((node.reachTerm request.term).decideVote request).2 }

def replicateNow (node : Node) (entry : LogEntry) (before : List Action) : Outcome where
  core := ((node.logSaved entry.index).sendAppendEntries 0).1
  writes := [.saveLogEntry entry]
  emitted := before ++ ((node.logSaved entry.index).sendAppendEntries 0).2

def leadNow (node : Node) : Outcome :=
  replicateNow (node.becomeLeader.appendEntries [node.noOp]).startReplication node.noOp
    [.becameLeader node.term, .resetHeartbeatTimer, .resetCheckQuorumTimer]

def voteResponseNow (node : Node) (response : VoteResponse) : Outcome :=
  if node.term < response.term then stepDownNow node response.term
  else if node.role ≠ .candidate ∨ response.term ≠ node.term ∨ ¬response.granted then
    { core := node }
  else if (node.recordVote response.sender).votes.card < node.quorum then
    { core := node.recordVote response.sender }
  else leadNow (node.recordVote response.sender)

def proposeNow (node : Node) (proposalID : ProposalID) (entry : LogEntry) : Outcome :=
  replicateNow (node.appendEntries [entry]) entry [.proposalAccepted proposalID entry.index]

def proposeSessionNow (node : Node) (proposal : ProposeSession) : Outcome :=
  if node.role ≠ .leader then
    { core := node, emitted := [.proposalRejected proposal.proposalID node.leaderID] }
  else if proposal.type ≠ .openSession ∧ proposal.type ≠ .closeSession then { core := node }
  else proposeNow node proposal.proposalID {
    index := node.lastLogIndex + 1
    term := node.term
    type := proposal.type
    sessionID := proposal.sessionID }

def proposeSetNow (node : Node) (proposal : ProposeSet) : Outcome :=
  if node.role ≠ .leader then
    { core := node, emitted := [.proposalRejected proposal.proposalID node.leaderID] }
  else proposeNow node proposal.proposalID {
    index := node.lastLogIndex + 1
    term := node.term
    type := .set
    sessionID := proposal.sessionID
    sequence := proposal.sequence
    key := proposal.key
    value := proposal.value }

def proposeDeleteNow (node : Node) (proposal : ProposeDelete) : Outcome :=
  if node.role ≠ .leader then
    { core := node, emitted := [.proposalRejected proposal.proposalID node.leaderID] }
  else proposeNow node proposal.proposalID {
    index := node.lastLogIndex + 1
    term := node.term
    type := .delete
    sessionID := proposal.sessionID
    sequence := proposal.sequence
    key := proposal.key }

def followCommit (node : Node) (leaderCommit : Nat) : Node :=
  if node.commitIndex < min leaderCommit node.lastLogIndex then
    { node with commitIndex := min leaderCommit node.lastLogIndex }.commitSaved
  else node

def confirmation (node : Node) (request : AppendEntries) : List Action :=
  node.appendEntriesResponse request.sender request.requestID true node.lastLogIndex 0 0
    request.readID

def confirmNow (node : Node) (request : AppendEntries) : Outcome where
  core := ((followCommit node request.leaderCommit).applyThrough
    (followCommit node request.leaderCommit).commitIndex).1
  writes :=
    if node.commitIndex < min request.leaderCommit node.lastLogIndex then
      [.saveCommitIndex (min request.leaderCommit node.lastLogIndex)]
    else []
  emitted :=
    ((followCommit node request.leaderCommit).applyThrough
      (followCommit node request.leaderCommit).commitIndex).2 ++ confirmation node request

def storeWrites (newEntries : List LogEntry) (truncateFrom : Nat) : List Write :=
  (if truncateFrom ≠ 0 then [.truncateLog truncateFrom] else []) ++ newEntries.map .saveLogEntry

/-- The Follower after its new suffix became durable. -/
def stored (node : Node) (newEntries : List LogEntry) (truncateFrom : Nat) : Node :=
  (node.replaceSuffix newEntries truncateFrom).logSaved
    (node.replaceSuffix newEntries truncateFrom).lastLogIndex

def takeEntriesNow (node : Node) (request : AppendEntries) : Outcome :=
  if ¬node.matchesAt request.prevLogIndex request.prevLogTerm then
    { core := node, emitted := node.rejectAppendEntries request request.prevLogIndex }
  else
    match node.entriesToAppend request.prevLogIndex request.entries with
    | none =>
        { core := node, emitted := node.rejectAppendEntries request (request.prevLogIndex + 1) }
    | some (newEntries, truncateFrom) =>
        if newEntries ≠ [] then
          (confirmNow (stored node newEntries truncateFrom) request).wrote
            (storeWrites newEntries truncateFrom)
        else confirmNow node request

def followNow (node : Node) (term : Nat) (leader : NodeID) : Node :=
  if node.term < term then (node.acceptLeader term leader).hardStateSaved
  else node.acceptLeader term leader

def reachWrites (node : Node) (term : Nat) : List Write :=
  if node.term < term then [.saveHardState ⟨term, ""⟩] else []

def appendEntriesNow (node : Node) (request : AppendEntries) : Outcome :=
  if request.term < node.term then
    { core := node
      emitted := node.appendEntriesResponse request.sender request.requestID false
        node.lastLogIndex 0 0 request.readID }
  else
    ((takeEntriesNow (followNow node request.term request.sender) request).emits
      [.resetElectionTimer]).wrote (reachWrites node request.term)

/-- A Leader that advanced its commit index tells its peers once it is durable. -/
def commitNow (advanced : Node) (response : AppendEntriesResponse) : Outcome :=
  let sent := advanced.sendAppendEntries 0
  let acknowledged := sent.1.acknowledgeRead response
  let applied := acknowledged.1.commitSaved.applyThrough advanced.commitIndex
  { core := applied.1
    writes := [.saveCommitIndex advanced.commitIndex]
    emitted := acknowledged.2 ++ (applied.2 ++ sent.2) }

def supplyNow (recorded : Node) (pending : PendingAppend) (response : AppendEntriesResponse) :
    Outcome :=
  let supplied :=
    if recorded.needsSupply pending response then
      recorded.sendAppendEntriesTo response.sender (recorded.pendingReadFor response.sender)
    else (recorded, [])
  let acknowledged := supplied.1.acknowledgeRead response
  { core := acknowledged.1, emitted := supplied.2 ++ acknowledged.2 }

def appendEntriesResponseNow (node : Node) (response : AppendEntriesResponse) : Outcome :=
  if node.term < response.term then stepDownNow node response.term
  else if node.role ≠ .leader ∨ response.term ≠ node.term then { core := node }
  else if Node.outdated (node.appendInFlight response.sender) response then { core := node }
  else
    match (node.recordResponse response).advanceLeaderCommit with
    | some advanced => commitNow advanced response
    | none =>
        supplyNow (node.recordResponse response) (node.appendInFlight response.sender) response

def installSnapshotNow (node : Node) (request : InstallSnapshot) : Outcome :=
  if request.term < node.term then
    { core := node, emitted := node.snapshotResponse request false request.offset false }
  else
    let installed := (node.acceptLeader request.term request.sender).takeInstallSnapshot request
    let answer := .resetElectionTimer ::
      installed.snapshotResponse request request.success request.nextOffset request.installed
    if node.term < request.term then saveHardState installed answer
    else { core := installed, emitted := answer }

def installSnapshotResponseNow (node : Node) (response : InstallSnapshotResponse) : Outcome :=
  if node.term < response.term then stepDownNow node response.term
  else
    { core := (node.handleInstallSnapshotResponse response).1
      emitted := (node.handleInstallSnapshotResponse response).2 }

def stepNow (node : Node) : Event → Outcome
  | .electionTimeout => electionTimeoutNow node
  | .preVoteResponse response => preVoteResponseNow node response
  | .voteRequest request => voteRequestNow node request
  | .voteResponse response => voteResponseNow node response
  | .proposeSession proposal => proposeSessionNow node proposal
  | .proposeSet proposal => proposeSetNow node proposal
  | .proposeDelete proposal => proposeDeleteNow node proposal
  | .appendEntries request => appendEntriesNow node request
  | .appendEntriesResponse response => appendEntriesResponseNow node response
  | .installSnapshot request => installSnapshotNow node request
  | .installSnapshotResponse response => installSnapshotResponseNow node response
  | event => { core := (node.step event).1, emitted := (node.step event).2 }

end Ternion.RaftRuntime
