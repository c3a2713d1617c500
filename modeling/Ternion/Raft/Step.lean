import Ternion.Raft.Log

/-! # Transitions of the Raft core

Every handler of `internal/raft`. A handler returns the new Node together with
the actions it emits, in execution order.
-/

namespace Ternion.Raft.Node

def quorum (node : Node) : Nat := (node.peers.length + 1) / 2 + 1

/-! ## Starting and stepping down -/

def newNodeFromRecoveredState (id : NodeID) (peers : List NodeID)
    (recovered : RecoveredState) : Node :=
  let recovered :=
    if 0 < recovered.snapshotIndex ∧ (recovered.log.head?.map LogEntry.index) = some 1 ∧
        recovered.snapshotIndex ≤ recovered.log.length then
      { recovered with
        snapshotTerm :=
          if recovered.snapshotTerm = 0 then
            ((recovered.log[recovered.snapshotIndex - 1]?).map LogEntry.term).getD 0
          else recovered.snapshotTerm
        log := recovered.log.drop recovered.snapshotIndex }
    else recovered
  let node : Node := {
    id := id
    peers := peers.insertionSort (· ≤ ·)
    term := recovered.hardState.term
    votedFor := recovered.hardState.votedFor
    durableTerm := recovered.hardState.term
    durableVotedFor := recovered.hardState.votedFor
    commitIndex := recovered.commitIndex
    durableCommitIndex := recovered.commitIndex
    lastApplied := recovered.snapshotIndex
    logBaseIndex := recovered.snapshotIndex
    logBaseTerm := recovered.snapshotTerm
    lastLogIndex := recovered.snapshotIndex
    lastLogTerm := recovered.snapshotTerm
    durableLogIndex := recovered.snapshotIndex }
  match recovered.log.getLast? with
  | none => node
  | some last => { node with
      log := recovered.log
      lastLogIndex := last.index
      lastLogTerm := last.term
      durableLogIndex := last.index }

def becomeFollower (node : Node) (term : Nat) (leader : NodeID) : Node :=
  { node with
    votedFor := if node.term < term then "" else node.votedFor
    role := .follower
    term := term
    leaderID := leader
    recentLeaderContact := leader ≠ ""
    votes := ∅
    preVotes := ∅
    activePeers := ∅
    matchIndex := fun _ => 0
    nextIndex := fun _ => 0
    appendInFlight := fun _ => {}
    snapshotInFlight := fun _ => 0
    pendingReads := []
    readReady := false }

/-! ## Requests for durability -/

def persistHardState (node : Node) (after : List Action) : Node × List Action :=
  let id := node.nextHardStatePersistence + 1
  ({ node with
      nextHardStatePersistence := id
      pendingHardState := Function.update node.pendingHardState id
        (some { term := node.term, votedFor := node.votedFor, after := after }) },
    [.persistHardState id node.term node.votedFor])

/-- Delay the actions of a transition that changed the Term until the Term is
durable. -/
def persistTermChange (changed : Bool) (result : Node × List Action) : Node × List Action :=
  if changed then result.1.persistHardState result.2 else result

def persistLog (node : Node) (entries : List LogEntry) (pending : PendingLogPersistence) :
    Node × List Action :=
  let id := node.nextLogPersistence + 1
  ({ node with
      nextLogPersistence := id
      pendingLog := Function.update node.pendingLog id (some pending) },
    [.persistLogEntries id pending.truncateFrom entries])

def persistCommit (node : Node) (after : List Action) : Node × List Action :=
  let id := node.nextCommitPersistence + 1
  ({ node with
      nextCommitPersistence := id
      pendingCommit := Function.update node.pendingCommit id
        (some { commitIndex := node.commitIndex, after := after }) },
    [.persistCommitIndex id node.commitIndex])

/-! ## Elections -/

def logIsAtLeastAsUpToDate (candidateTerm candidateIndex localTerm localIndex : Nat) : Bool :=
  localTerm < candidateTerm ∨ (candidateTerm = localTerm ∧ localIndex ≤ candidateIndex)

def candidateLogIsUpToDate (node : Node) (term index : Nat) : Bool :=
  logIsAtLeastAsUpToDate term index node.lastLogTerm node.lastLogIndex

def voteIsDurable (node : Node) (candidate : NodeID) : Bool :=
  node.durableTerm = node.term ∧ node.durableVotedFor = candidate

def voteResponse (node : Node) (receiver : NodeID) (granted : Bool) : List Action :=
  [.sendVoteResponse receiver { sender := node.id, term := node.term, granted := granted }]

/-- The state of a Node that starts an election in the next Term. -/
def becomeCandidate (node : Node) : Node :=
  { node with
    role := .candidate
    term := node.term + 1
    votedFor := node.id
    leaderID := ""
    readReady := false
    votes := {node.id} }

def voteRequests (node : Node) : List Action :=
  node.peers.map fun peer => .sendVoteRequest peer {
    sender := node.id
    term := node.term
    lastLogIndex := node.lastLogIndex
    lastLogTerm := node.lastLogTerm }

def startElection (node : Node) : Node × List Action :=
  node.becomeCandidate.persistHardState
    (.resetElectionTimer :: node.becomeCandidate.voteRequests)

def becomePreCandidate (node : Node) : Node :=
  { node with
    recentLeaderContact := false
    leaderID := ""
    role := .preCandidate
    preVotes := {node.id} }

def preVoteRequests (node : Node) : List Action :=
  node.peers.map fun peer => .sendPreVoteRequest peer {
    sender := node.id
    term := node.term + 1
    lastLogIndex := node.lastLogIndex
    lastLogTerm := node.lastLogTerm }

def startPreVote (node : Node) : Node × List Action :=
  if node.role = .leader then (node, [])
  else if node.quorum = 1 then
    (node.becomePreCandidate.startElection.1,
      .resetElectionTimer :: node.preVoteRequests ++ node.becomePreCandidate.startElection.2)
  else (node.becomePreCandidate, .resetElectionTimer :: node.preVoteRequests)

def handlePreVoteRequest (node : Node) (request : PreVoteRequest) : Node × List Action :=
  (node, [.sendPreVoteResponse request.sender {
    sender := node.id
    term := request.term
    currentTerm := node.term
    granted := decide (node.term + 1 ≤ request.term) && !node.recentLeaderContact &&
      node.candidateLogIsUpToDate request.lastLogTerm request.lastLogIndex }])

def recordPreVote (node : Node) (voter : NodeID) : Node :=
  { node with preVotes := insert voter node.preVotes }

def handlePreVoteResponse (node : Node) (response : PreVoteResponse) : Node × List Action :=
  if node.term < response.currentTerm then
    (node.becomeFollower response.currentTerm "").persistHardState []
  else if node.role ≠ .preCandidate ∨ response.term ≠ node.term + 1 ∨ ¬response.granted then
    (node, [])
  else if (node.recordPreVote response.sender).preVotes.card < node.quorum then
    (node.recordPreVote response.sender, [])
  else (node.recordPreVote response.sender).startElection

/-- Reach the Term of a request that names no Leader. -/
def reachTerm (node : Node) (term : Nat) : Node :=
  if node.term < term then node.becomeFollower term "" else node

def grantsVote (node : Node) (request : VoteRequest) : Bool :=
  decide (node.votedFor = "" ∨ node.votedFor = request.sender) &&
    node.candidateLogIsUpToDate request.lastLogTerm request.lastLogIndex

def castVote (node : Node) (candidate : NodeID) : Node :=
  { node with votedFor := candidate }

/-- Decide a request of the Node's own Term, and answer it. -/
def decideVote (node : Node) (request : VoteRequest) : Node × List Action :=
  if node.grantsVote request then
    (node.castVote request.sender, node.voteResponse request.sender true)
  else (node, node.voteResponse request.sender false)

/-- The answer waits until the Term or vote it depends on is durable. -/
def voteNeedsPersistence (node : Node) (request : VoteRequest) : Bool :=
  decide (node.term < request.term) ||
    (node.reachTerm request.term).grantsVote request &&
      !(node.reachTerm request.term).voteIsDurable request.sender

def handleVoteRequest (node : Node) (request : VoteRequest) : Node × List Action :=
  if request.term < node.term then (node, node.voteResponse request.sender false)
  else persistTermChange (node.voteNeedsPersistence request)
    ((node.reachTerm request.term).decideVote request)

/-- A Leader appends one entry of its own and asks for it to be made durable. -/
def appendOwnEntry (node : Node) (entry : LogEntry) : Node × List Action :=
  (node.appendEntries [entry]).persistLog [entry] {
    purpose := .persistLeaderEntry
    term := node.term
    lastIndex := entry.index }

/-- The state of a Candidate that won, before its no-op is appended. -/
def becomeLeader (node : Node) : Node :=
  { node with
    role := .leader
    leaderID := node.id
    activePeers := ∅
    matchIndex := fun _ => 0
    nextIndex := fun _ => 0
    appendInFlight := fun _ => {}
    snapshotInFlight := fun _ => 0
    readReady := false }

def recordVote (node : Node) (voter : NodeID) : Node :=
  { node with votes := insert voter node.votes }

def noOp (node : Node) : LogEntry where
  index := node.lastLogIndex + 1
  term := node.term
  type := .noOp

/-- Start replicating to every peer after the end of the log. -/
def startReplication (node : Node) : Node :=
  { node with nextIndex := fun peer => if peer ∈ node.peers then node.lastLogIndex + 1 else 0 }

/-- A Candidate with a quorum of votes leads, and appends its no-op. -/
def lead (node : Node) : Node × List Action :=
  let appended := node.becomeLeader.appendOwnEntry node.noOp
  (appended.1.startReplication,
    [.becameLeader node.term, .resetHeartbeatTimer, .resetCheckQuorumTimer] ++ appended.2)

def handleVoteResponse (node : Node) (response : VoteResponse) : Node × List Action :=
  if node.term < response.term then
    (node.becomeFollower response.term "").persistHardState []
  else if node.role ≠ .candidate ∨ response.term ≠ node.term ∨ ¬response.granted then
    (node, [])
  else if (node.recordVote response.sender).votes.card < node.quorum then
    (node.recordVote response.sender, [])
  else (node.recordVote response.sender).lead

/-! ## Replication, the Leader's side -/

/-- The pending read with the smallest identifier that a peer has not
acknowledged, zero for none. -/
def pendingReadFor (node : Node) (peer : NodeID) : ReadID :=
  ((node.pendingReads.find? fun read => peer ∉ read.2.acknowledgements).map Prod.fst).getD 0

/-- The last entry a Leader may send, which is durable in its own log. -/
def durableLastIndex (node : Node) : Nat :=
  min node.durableLogIndex node.lastLogIndex

/-- The first position of the next request to a peer. -/
def firstToSend (node : Node) (peer : NodeID) : Nat :=
  if node.nextIndex peer = 0 ∨ node.durableLastIndex + 1 < node.nextIndex peer then
    node.durableLastIndex + 1
  else node.nextIndex peer

def appendRequest (node : Node) (requestID nextIndex : Nat) (readID : ReadID) :
    AppendEntries where
  sender := node.id
  term := node.term
  requestID := requestID
  prevLogIndex := nextIndex - 1
  prevLogTerm := node.termAt (nextIndex - 1)
  entries := node.entriesBatch nextIndex node.durableLastIndex
  leaderCommit := node.commitIndex
  readID := readID

def sendAppendEntriesTo (node : Node) (peer : NodeID) (readID : ReadID) : Node × List Action :=
  if (node.appendInFlight peer).requestID ≠ 0 then (node, [])
  else if node.firstToSend peer ≤ node.logBaseIndex then
    if node.snapshotInFlight peer ≠ 0 then (node, [])
    else
      ({ node with
          nextRequestID := node.nextRequestID + 1
          snapshotInFlight := Function.update node.snapshotInFlight peer
            (node.nextRequestID + 1) },
        [.sendInstallSnapshot peer node.term (node.nextRequestID + 1) node.logBaseIndex
          node.logBaseTerm 0])
  else
    ({ node with
        nextRequestID := node.nextRequestID + 1
        appendInFlight := Function.update node.appendInFlight peer
          { requestID := node.nextRequestID + 1, leaderCommit := node.commitIndex } },
      [.sendAppendEntries peer
        (node.appendRequest (node.nextRequestID + 1) (node.firstToSend peer) readID)])

def sendAppendEntriesToEach (node : Node) (readID : ReadID) : List NodeID → Node × List Action
  | [] => (node, [])
  | peer :: peers =>
      let peerReadID := if readID = 0 then node.pendingReadFor peer else readID
      let sent := node.sendAppendEntriesTo peer peerReadID
      let rest := sent.1.sendAppendEntriesToEach readID peers
      (rest.1, sent.2 ++ rest.2)

def sendAppendEntries (node : Node) (readID : ReadID) : Node × List Action :=
  node.sendAppendEntriesToEach readID node.peers

/-- A heartbeat interval is also the deadline of every request. -/
def expireAppends (node : Node) : Node :=
  { node with appendInFlight := fun _ => {} }

def heartbeatRound (node : Node) : Node × List Action :=
  if node.role ≠ .leader then (node, [])
  else
    let sent := node.expireAppends.sendAppendEntries 0
    (sent.1, .resetHeartbeatTimer :: sent.2)

/-- What the three proposals share. -/
def proposeEntry (node : Node) (proposalID : ProposalID) (entry : LogEntry) :
    Node × List Action :=
  let appended := node.appendOwnEntry entry
  (appended.1, .proposalAccepted proposalID entry.index :: appended.2)

def proposeSession (node : Node) (proposal : ProposeSession) : Node × List Action :=
  if node.role ≠ .leader then (node, [.proposalRejected proposal.proposalID node.leaderID])
  else if proposal.type ≠ .openSession ∧ proposal.type ≠ .closeSession then (node, [])
  else node.proposeEntry proposal.proposalID {
    index := node.lastLogIndex + 1
    term := node.term
    type := proposal.type
    sessionID := proposal.sessionID }

def proposeSet (node : Node) (proposal : ProposeSet) : Node × List Action :=
  if node.role ≠ .leader then (node, [.proposalRejected proposal.proposalID node.leaderID])
  else node.proposeEntry proposal.proposalID {
    index := node.lastLogIndex + 1
    term := node.term
    type := .set
    sessionID := proposal.sessionID
    sequence := proposal.sequence
    key := proposal.key
    value := proposal.value }

def proposeDelete (node : Node) (proposal : ProposeDelete) : Node × List Action :=
  if node.role ≠ .leader then (node, [.proposalRejected proposal.proposalID node.leaderID])
  else node.proposeEntry proposal.proposalID {
    index := node.lastLogIndex + 1
    term := node.term
    type := .delete
    sessionID := proposal.sessionID
    sequence := proposal.sequence
    key := proposal.key }

/-- Set the record of one read, keeping the order of identifiers. -/
def insertRead (readID : ReadID) (read : PendingRead) :
    List (ReadID × PendingRead) → List (ReadID × PendingRead)
  | [] => [(readID, read)]
  | first :: rest =>
      if readID < first.1 then (readID, read) :: first :: rest
      else if readID = first.1 then (readID, read) :: rest
      else first :: insertRead readID read rest

/-- A new read is acknowledged by the Leader itself. -/
def registerRead (node : Node) (readID : ReadID) : Node :=
  { node with
    pendingReads := insertRead readID { acknowledgements := {node.id} } node.pendingReads }

def confirmRead (node : Node) (readID : ReadID) : Node × List Action :=
  if node.role ≠ .leader then (node, [.readRejected readID node.leaderID])
  else if node.readReady = false then (node, [.readRejected readID ""])
  else (node.registerRead readID).sendAppendEntries readID

/-! ## Committing and applying -/

def completeReads (node : Node) : Node × List Action :=
  let complete := fun read : ReadID × PendingRead =>
    read.2.confirmed && decide (read.2.commitIndex ≤ node.lastApplied)
  ({ node with pendingReads := node.pendingReads.filter fun read => !complete read },
    (node.pendingReads.filter complete).map fun read =>
      .readConfirmed read.1 read.2.commitIndex)

/-- Apply the next `count` entries. The log reaches every position that is
applied; the source would otherwise index out of bounds. -/
def applyEntries (node : Node) : Nat → Node × List Action
  | 0 => (node, [])
  | count + 1 =>
      match node.log[node.lastApplied - node.logBaseIndex]? with
      | none => (node, [])
      | some entry =>
          let node := { node with lastApplied := node.lastApplied + 1 }
          if node.role = .leader ∧ ¬node.readReady ∧ entry.type = .noOp ∧
              entry.term = node.term then
            let rest := { node with readReady := true }.applyEntries count
            (rest.1, .applyEntry entry :: .becameReadReady node.term :: rest.2)
          else
            let rest := node.applyEntries count
            (rest.1, .applyEntry entry :: rest.2)

def applyThrough (node : Node) (index : Nat) : Node × List Action :=
  if index ≤ node.lastApplied then node.completeReads
  else
    let applied := node.applyEntries (index - node.lastApplied)
    let completed := applied.1.completeReads
    (completed.1, applied.2 ++ completed.2)

/-- How many Nodes hold a position, the Leader included. -/
def replicated (node : Node) (index : Nat) : Nat :=
  1 + (node.peers.filter fun peer => index ≤ node.matchIndex peer).length

/-- The greatest of the next `count` positions after the commit index that is
of the current Term and held by a quorum. -/
def commitCandidate (node : Node) : Nat → Option Nat
  | 0 => none
  | count + 1 =>
      let index := node.commitIndex + (count + 1)
      if node.termAt index = node.term ∧ node.quorum ≤ node.replicated index then some index
      else commitCandidate node count

def advanceLeaderCommit (node : Node) : Option Node :=
  (node.commitCandidate (node.lastLogIndex - node.commitIndex)).map fun index =>
    { node with commitIndex := index }

def advanceFollowerCommit (node : Node) (leaderCommit : Nat) (after : List Action) :
    Node × List Action :=
  let target := min leaderCommit node.lastLogIndex
  if node.commitIndex < target then { node with commitIndex := target }.persistCommit after
  else
    let applied := node.applyThrough node.durableCommitIndex
    (applied.1, applied.2 ++ after)

/-! ## Replication, the Follower's side -/

def appendEntriesResponse (node : Node) (receiver : NodeID) (requestID : Nat) (success : Bool)
    (matchIndex conflictTerm conflictIndex : Nat) (readID : ReadID) : List Action :=
  [.sendAppendEntriesResponse receiver {
    sender := node.id
    term := node.term
    requestID := requestID
    success := success
    matchIndex := matchIndex
    conflictTerm := conflictTerm
    conflictIndex := conflictIndex
    readID := readID }]

/-- Follow the Leader that a message of a Term not below our own names. -/
def acceptLeader (node : Node) (term : Nat) (leader : NodeID) : Node :=
  let node :=
    if node.term < term then node.becomeFollower term leader
    else { node with role := .follower, leaderID := leader, readReady := false }
  { node with recentLeaderContact := true }

/-- Reject a request with the hint for a position of our log. -/
def rejectAppendEntries (node : Node) (request : AppendEntries) (position : Nat) :
    List Action :=
  node.appendEntriesResponse request.sender request.requestID false node.lastLogIndex
    (node.conflictHint position).1 (node.conflictHint position).2 request.readID

/-- Replace the log from a position, zero for the end, by new entries. -/
def replaceSuffix (node : Node) (newEntries : List LogEntry) (truncateFrom : Nat) : Node :=
  (if truncateFrom ≠ 0 then node.truncateLog truncateFrom else node).appendEntries newEntries

/-- The new suffix is acknowledged once it is durable. -/
def storeEntries (node : Node) (request : AppendEntries) (newEntries : List LogEntry)
    (truncateFrom : Nat) : Node × List Action :=
  let replaced := node.replaceSuffix newEntries truncateFrom
  replaced.persistLog newEntries {
    purpose := .persistFollowerAppend
    term := request.term
    leader := request.sender
    truncateFrom := truncateFrom
    lastIndex := replaced.lastLogIndex
    leaderCommit := request.leaderCommit
    readID := request.readID
    requestID := request.requestID }

/-- A request that brings nothing new is answered for the whole log, unless a
part of the log is not durable yet. -/
def confirmEntries (node : Node) (request : AppendEntries) : Node × List Action :=
  if node.durableLogIndex < node.lastLogIndex then (node, [])
  else node.advanceFollowerCommit request.leaderCommit
    (node.appendEntriesResponse request.sender request.requestID true node.lastLogIndex 0 0
      request.readID)

/-- Take the entries of a request from an accepted Leader. -/
def takeAppendEntries (node : Node) (request : AppendEntries) : Node × List Action :=
  if ¬node.matchesAt request.prevLogIndex request.prevLogTerm then
    (node, node.rejectAppendEntries request request.prevLogIndex)
  else
    match node.entriesToAppend request.prevLogIndex request.entries with
    | none => (node, node.rejectAppendEntries request (request.prevLogIndex + 1))
    | some (newEntries, truncateFrom) =>
        if newEntries ≠ [] then node.storeEntries request newEntries truncateFrom
        else node.confirmEntries request

def handleAppendEntries (node : Node) (request : AppendEntries) : Node × List Action :=
  if request.term < node.term then
    (node, node.appendEntriesResponse request.sender request.requestID false
      node.lastLogIndex 0 0 request.readID)
  else
    let taken := (node.acceptLeader request.term request.sender).takeAppendEntries request
    persistTermChange (node.term < request.term) (taken.1, .resetElectionTimer :: taken.2)

def acknowledgeRead (node : Node) (response : AppendEntriesResponse) : Node × List Action :=
  match node.pendingReads.lookup response.readID with
  | none => (node, [])
  | some read =>
      if response.readID = 0 ∨ read.confirmed then (node, [])
      else
        let read := { read with
          acknowledgements := insert response.sender read.acknowledgements }
        if read.acknowledgements.card < node.quorum then
          ({ node with pendingReads := insertRead response.readID read node.pendingReads }, [])
        else
          let read := { read with confirmed := true, commitIndex := node.commitIndex }
          { node with
            pendingReads := insertRead response.readID read node.pendingReads }.completeReads

/-- What a current response tells about its sender. -/
def recordResponse (node : Node) (response : AppendEntriesResponse) : Node :=
  let node := { node with
    appendInFlight := Function.update node.appendInFlight response.sender {}
    activePeers := insert response.sender node.activePeers }
  if response.success then
    let matched := max (node.matchIndex response.sender) response.matchIndex
    { node with
      matchIndex := Function.update node.matchIndex response.sender matched
      nextIndex := Function.update node.nextIndex response.sender (matched + 1) }
  else
    { node with
      nextIndex := Function.update node.nextIndex response.sender
        (node.nextIndexFromConflict response) }

/-- Whether the sender of a recorded response is sent another request. -/
def needsSupply (node : Node) (pending : PendingAppend) (response : AppendEntriesResponse) :
    Bool :=
  !response.success || decide (node.nextIndex response.sender ≤ node.durableLastIndex) ||
    decide (node.pendingReadFor response.sender ≠ 0) ||
    decide (pending.leaderCommit < node.commitIndex)

/-- Commit what the recorded response allows, or keep the sender supplied. -/
def continueReplication (node : Node) (pending : PendingAppend)
    (response : AppendEntriesResponse) : Node × List Action :=
  match node.advanceLeaderCommit with
  | some advanced =>
      (advanced.sendAppendEntries 0).1.persistCommit (advanced.sendAppendEntries 0).2
  | none =>
      if node.needsSupply pending response then
        node.sendAppendEntriesTo response.sender (node.pendingReadFor response.sender)
      else (node, [])

/-- Whether a response answers a request that is not the pending one. -/
def outdated (pending : PendingAppend) (response : AppendEntriesResponse) : Prop :=
  pending.requestID ≠ 0 ∧ response.requestID ≠ 0 ∧ response.requestID ≠ pending.requestID

instance (pending : PendingAppend) (response : AppendEntriesResponse) :
    Decidable (outdated pending response) :=
  inferInstanceAs (Decidable (_ ∧ _ ∧ _))

def takeAppendEntriesResponse (node : Node) (response : AppendEntriesResponse) :
    Node × List Action :=
  let continued := (node.recordResponse response).continueReplication
    (node.appendInFlight response.sender) response
  let acknowledged := continued.1.acknowledgeRead response
  (acknowledged.1, continued.2 ++ acknowledged.2)

def handleAppendEntriesResponse (node : Node) (response : AppendEntriesResponse) :
    Node × List Action :=
  if node.term < response.term then
    (node.becomeFollower response.term "").persistHardState []
  else if node.role ≠ .leader ∨ response.term ≠ node.term then (node, [])
  else if outdated (node.appendInFlight response.sender) response then (node, [])
  else node.takeAppendEntriesResponse response

def handleAppendEntriesFailed (node : Node) (receiver : NodeID) (requestID : Nat) :
    Node × List Action :=
  ({ node with
      appendInFlight :=
        if (node.appendInFlight receiver).requestID = requestID then
          Function.update node.appendInFlight receiver {}
        else node.appendInFlight
      snapshotInFlight :=
        if node.snapshotInFlight receiver = requestID then
          Function.update node.snapshotInFlight receiver 0
        else node.snapshotInFlight }, [])

/-! ## Snapshot transfer -/

def snapshotResponse (node : Node) (request : InstallSnapshot) (success : Bool)
    (nextOffset : Nat) (done : Bool) : List Action :=
  [.sendInstallSnapshotResponse request.sender {
    sender := node.id
    term := node.term
    requestID := request.requestID
    snapshotIndex := request.snapshotIndex
    success := success
    nextOffset := nextOffset
    done := done }]

/-- Replace the log prefix by an installed Snapshot. -/
def installSnapshotBase (node : Node) (request : InstallSnapshot) : Node :=
  let node :=
    if request.snapshotIndex ≤ node.lastLogIndex ∧
        node.termAt request.snapshotIndex = request.snapshotTerm then
      { node with log := node.log.dropWhile fun entry => entry.index ≤ request.snapshotIndex }
    else
      { node with
        log := []
        lastLogIndex := request.snapshotIndex
        lastLogTerm := request.snapshotTerm
        durableLogIndex := request.snapshotIndex }
  let node := { node with
    logBaseIndex := request.snapshotIndex
    logBaseTerm := request.snapshotTerm
    commitIndex := max node.commitIndex request.snapshotIndex
    durableCommitIndex := max node.durableCommitIndex request.snapshotIndex
    lastApplied := request.snapshotIndex }
  match node.log.getLast? with
  | none => node
  | some last => { node with
      lastLogIndex := last.index
      lastLogTerm := last.term
      durableLogIndex := last.index }

def takeInstallSnapshot (node : Node) (request : InstallSnapshot) : Node :=
  if request.installed ∧ node.logBaseIndex < request.snapshotIndex then
    node.installSnapshotBase request
  else node

def handleInstallSnapshot (node : Node) (request : InstallSnapshot) : Node × List Action :=
  if request.term < node.term then
    (node, node.snapshotResponse request false request.offset false)
  else
    let installed := (node.acceptLeader request.term request.sender).takeInstallSnapshot request
    persistTermChange (node.term < request.term)
      (installed, .resetElectionTimer :: installed.snapshotResponse request request.success
        request.nextOffset request.installed)

/-- A peer holds the Snapshot it reports as installed. -/
def recordSnapshot (node : Node) (response : InstallSnapshotResponse) : Node :=
  { node with
    snapshotInFlight := Function.update node.snapshotInFlight response.sender 0
    matchIndex := Function.update node.matchIndex response.sender
      (max (node.matchIndex response.sender) response.snapshotIndex)
    nextIndex := Function.update node.nextIndex response.sender (response.snapshotIndex + 1) }

def handleInstallSnapshotResponse (node : Node) (response : InstallSnapshotResponse) :
    Node × List Action :=
  if node.term < response.term then
    (node.becomeFollower response.term "").persistHardState []
  else if node.role ≠ .leader ∨ response.term ≠ node.term ∨
      node.snapshotInFlight response.sender ≠ response.requestID then (node, [])
  else if ¬response.success then
    ({ node with
      snapshotInFlight := Function.update node.snapshotInFlight response.sender 0 }, [])
  else if ¬response.done then
    (node, [.sendInstallSnapshot response.sender node.term response.requestID
      node.logBaseIndex node.logBaseTerm response.nextOffset])
  else
    (node.recordSnapshot response).sendAppendEntriesTo response.sender
      (node.pendingReadFor response.sender)

/-! ## Timers and completed persistence -/

def checkQuorum (node : Node) : Node × List Action :=
  if node.role ≠ .leader then (node, [])
  else if node.activePeers.card + 1 < node.quorum then
    (node.becomeFollower node.term "", [.resetElectionTimer, .lostLeadership node.term])
  else ({ node with activePeers := ∅ }, [.resetCheckQuorumTimer])

def completeHardState (node : Node) (persistenceID : Nat)
    (pending : PendingHardStatePersistence) : Node :=
  { node with
    pendingHardState := Function.update node.pendingHardState persistenceID none
    durableTerm := pending.term
    durableVotedFor := pending.votedFor }

def hardStatePersisted (node : Node) (persistenceID : Nat) : Node × List Action :=
  match node.pendingHardState persistenceID with
  | none => (node, [])
  | some pending =>
      (node.completeHardState persistenceID pending,
        if pending.term ≠ node.term ∨ pending.votedFor ≠ node.votedFor then []
        else pending.after)

def completeLog (node : Node) (persistenceID : Nat) (pending : PendingLogPersistence) : Node :=
  { node with
    pendingLog := Function.update node.pendingLog persistenceID none
    durableLogIndex := max node.durableLogIndex pending.lastIndex }

/-- Continue after the entries of a Node that still has the role and Term in
which it appended them became durable. -/
def continueLog (node : Node) (pending : PendingLogPersistence) : Node × List Action :=
  match pending.purpose with
  | .persistLeaderEntry =>
      if node.role ≠ .leader ∨ node.term ≠ pending.term ∨
          node.lastLogIndex < pending.lastIndex then (node, [])
      else node.sendAppendEntries 0
  | .persistFollowerAppend =>
      if node.term ≠ pending.term ∨ node.role ≠ .follower ∨
          node.leaderID ≠ pending.leader then (node, [])
      else node.advanceFollowerCommit pending.leaderCommit
        (node.appendEntriesResponse pending.leader pending.requestID true
          pending.lastIndex 0 0 pending.readID)

def logEntriesPersisted (node : Node) (persistenceID : Nat) : Node × List Action :=
  match node.pendingLog persistenceID with
  | none => (node, [])
  | some pending => (node.completeLog persistenceID pending).continueLog pending

def completeCommit (node : Node) (persistenceID : Nat) (pending : PendingCommitPersistence) :
    Node :=
  { node with
    pendingCommit := Function.update node.pendingCommit persistenceID none
    durableCommitIndex := max node.durableCommitIndex pending.commitIndex }

def commitIndexPersisted (node : Node) (persistenceID : Nat) : Node × List Action :=
  match node.pendingCommit persistenceID with
  | none => (node, [])
  | some pending =>
      let applied := (node.completeCommit persistenceID pending).applyThrough pending.commitIndex
      (applied.1, applied.2 ++ pending.after)

def step (node : Node) : Event → Node × List Action
  | .electionTimeout => node.startPreVote
  | .heartbeatTimeout => node.heartbeatRound
  | .checkQuorumTimeout => node.checkQuorum
  | .hardStatePersisted persistenceID => node.hardStatePersisted persistenceID
  | .logEntriesPersisted persistenceID => node.logEntriesPersisted persistenceID
  | .commitIndexPersisted persistenceID => node.commitIndexPersisted persistenceID
  | .recoverCommitted => node.applyThrough node.durableCommitIndex
  | .snapshotCompacted index term => (node.compactLog index term, [])
  | .proposeSession proposal => node.proposeSession proposal
  | .proposeSet proposal => node.proposeSet proposal
  | .proposeDelete proposal => node.proposeDelete proposal
  | .confirmRead readID => node.confirmRead readID
  | .preVoteRequest request => node.handlePreVoteRequest request
  | .preVoteResponse response => node.handlePreVoteResponse response
  | .voteRequest request => node.handleVoteRequest request
  | .voteResponse response => node.handleVoteResponse response
  | .appendEntries request => node.handleAppendEntries request
  | .appendEntriesResponse response => node.handleAppendEntriesResponse response
  | .appendEntriesFailed receiver requestID => node.handleAppendEntriesFailed receiver requestID
  | .installSnapshot request => node.handleInstallSnapshot request
  | .installSnapshotResponse response => node.handleInstallSnapshotResponse response

end Ternion.Raft.Node
