import Ternion.Cluster.PreVote

/-! # Messages on the wire

A peer message names its sender in the request around it. The receiver checks
that request against its configuration before it decodes the message.
-/

namespace Ternion.Peer

open Raft Cluster

def peerProtocolVersion : Nat := 1

/-- The part of a configuration that peers check. -/
structure Config where
  clusterID : String
  nodeID : NodeID
  members : List NodeID

inductive RaftEntryType where
  | unspecified
  | noOp
  | openSession
  | closeSession
  | set
  | delete
  /-- A number without a name in this version. -/
  | unrecognized (number : Nat)
  deriving DecidableEq

structure RaftLogEntry where
  index : Nat
  term : Nat
  type : RaftEntryType
  sessionID : List UInt8
  sequence : Nat
  key : String
  value : List UInt8
  deriving DecidableEq

inductive Payload where
  | preVoteRequest (term lastLogIndex lastLogTerm : Nat)
  | preVoteResponse (term currentTerm : Nat) (granted : Bool)
  | voteRequest (term lastLogIndex lastLogTerm : Nat)
  | voteResponse (term : Nat) (granted : Bool)
  | appendEntriesRequest (term requestID previousLogIndex previousLogTerm : Nat)
      (entries : List RaftLogEntry) (leaderCommit readID : Nat)
  | appendEntriesResponse (term requestID : Nat) (success : Bool)
      (matchIndex conflictTerm conflictIndex readID : Nat)
  | installSnapshotRequest (term requestID snapshotIndex snapshotTerm snapshotLength : Nat)
      (snapshotChecksum : UInt32) (offset : Nat) (data : List UInt8) (done : Bool)
  | installSnapshotResponse (term requestID : Nat) (success : Bool)
      (nextOffset snapshotIndex : Nat) (done : Bool)
  deriving DecidableEq

structure SendRequest where
  protocolVersion : Nat
  clusterID : String
  fromNodeID : NodeID
  toNodeID : NodeID
  message : Option Payload
  deriving DecidableEq

inductive Error where
  | incompatibleVersion (version : Nat)
  | clusterMismatch (clusterID : String)
  | wrongTarget (targetNodeID : NodeID)
  | claimedLocal (fromNodeID : NodeID)
  | notMember (fromNodeID : NodeID)
  | unsupportedEntryType (type : RaftEntryType)
  | sessionIdentityLength (bytes : Nat)
  | entryIdentityLength (bytes : Nat)
  | payloadRequired
  | unsupportedAction
  deriving DecidableEq

/-! ## Encoding -/

def encodeEntryType : EntryType → RaftEntryType
  | .noOp => .noOp
  | .openSession => .openSession
  | .closeSession => .closeSession
  | .set => .set
  | .delete => .delete

def encodeEntry (entry : LogEntry) : RaftLogEntry where
  index := entry.index
  term := entry.term
  type := encodeEntryType entry.type
  sessionID := entry.sessionID.toList
  sequence := entry.sequence
  key := entry.key
  value := entry.value

/-- The receiver and the message of an action. Snapshots take another way. -/
def encodeMessage : Action → Except Error (NodeID × Payload)
  | .sendPreVoteRequest receiver request =>
      .ok (receiver, .preVoteRequest request.term request.lastLogIndex request.lastLogTerm)
  | .sendPreVoteResponse receiver response =>
      .ok (receiver, .preVoteResponse response.term response.currentTerm response.granted)
  | .sendVoteRequest receiver request =>
      .ok (receiver, .voteRequest request.term request.lastLogIndex request.lastLogTerm)
  | .sendVoteResponse receiver response =>
      .ok (receiver, .voteResponse response.term response.granted)
  | .sendAppendEntries receiver request =>
      .ok (receiver, .appendEntriesRequest request.term request.requestID request.prevLogIndex
        request.prevLogTerm (request.entries.map encodeEntry) request.leaderCommit request.readID)
  | .sendAppendEntriesResponse receiver response =>
      .ok (receiver, .appendEntriesResponse response.term response.requestID response.success
        response.matchIndex response.conflictTerm response.conflictIndex response.readID)
  | .sendInstallSnapshotResponse receiver response =>
      .ok (receiver, .installSnapshotResponse response.term response.requestID response.success
        response.nextOffset response.snapshotIndex response.done)
  | _ => .error .unsupportedAction

def encodeRaftAction (config : Config) (action : Action) :
    Except Error (NodeID × SendRequest) := do
  let (receiver, message) ← encodeMessage action
  return (receiver, {
    protocolVersion := peerProtocolVersion
    clusterID := config.clusterID
    fromNodeID := config.nodeID
    toNodeID := receiver
    message := some message })

/-! ## Decoding -/

def decodeEntryType : RaftEntryType → Except Error EntryType
  | .noOp => .ok .noOp
  | .openSession => .ok .openSession
  | .closeSession => .ok .closeSession
  | .set => .ok .set
  | .delete => .ok .delete
  | type => .error (.unsupportedEntryType type)

/-- Copy bytes over the zero identity. -/
def copySession (bytes : List UInt8) : SessionID :=
  Vector.ofFn fun position => bytes[position]?.getD 0

def decodeEntry (entry : RaftLogEntry) : Except Error LogEntry := do
  let type ← decodeEntryType entry.type
  if type ≠ .noOp ∧ entry.sessionID.length ≠ 16 then
    throw (.sessionIdentityLength entry.sessionID.length)
  if type = .noOp ∧ entry.sessionID.length ≠ 0 ∧ entry.sessionID.length ≠ 16 then
    throw (.entryIdentityLength entry.sessionID.length)
  return {
    index := entry.index
    term := entry.term
    type := type
    sessionID := copySession entry.sessionID
    sequence := entry.sequence
    key := entry.key
    value := entry.value }

def decodeRaftMessage (request : SendRequest) : Except Error Event :=
  let sender := request.fromNodeID
  match request.message with
  | some (.preVoteRequest term lastLogIndex lastLogTerm) =>
      .ok (.preVoteRequest ⟨sender, term, lastLogIndex, lastLogTerm⟩)
  | some (.preVoteResponse term currentTerm granted) =>
      .ok (.preVoteResponse ⟨sender, term, currentTerm, granted⟩)
  | some (.voteRequest term lastLogIndex lastLogTerm) =>
      .ok (.voteRequest ⟨sender, term, lastLogIndex, lastLogTerm⟩)
  | some (.voteResponse term granted) => .ok (.voteResponse ⟨sender, term, granted⟩)
  | some (.appendEntriesRequest term requestID prevLogIndex prevLogTerm entries leaderCommit
      readID) => do
      let entries ← entries.mapM decodeEntry
      return .appendEntries
        ⟨sender, term, requestID, prevLogIndex, prevLogTerm, entries, leaderCommit, readID⟩
  | some (.appendEntriesResponse term requestID success matchIndex conflictTerm conflictIndex
      readID) =>
      .ok (.appendEntriesResponse
        ⟨sender, term, requestID, success, matchIndex, conflictTerm, conflictIndex, readID⟩)
  | some (.installSnapshotRequest term requestID snapshotIndex snapshotTerm length checksum offset
      data done) =>
      .ok (.installSnapshot
        { sender, term, requestID, snapshotIndex, snapshotTerm, length, checksum, offset,
          data, done })
  | some (.installSnapshotResponse term requestID success nextOffset snapshotIndex done) =>
      .ok (.installSnapshotResponse
        ⟨sender, term, requestID, snapshotIndex, success, nextOffset, done⟩)
  | none => .error .payloadRequired

def validatePeer (config : Config) (version : Nat) (clusterID : String)
    (fromNodeID targetNodeID : NodeID) : Except Error Unit :=
  if version ≠ peerProtocolVersion then .error (.incompatibleVersion version)
  else if clusterID ≠ config.clusterID then .error (.clusterMismatch clusterID)
  else if targetNodeID ≠ config.nodeID then .error (.wrongTarget targetNodeID)
  else if fromNodeID = config.nodeID then .error (.claimedLocal fromNodeID)
  else if fromNodeID ∉ config.members then .error (.notMember fromNodeID)
  else .ok ()

/-- The event that a request of a peer puts in the queue of the Node. -/
def send (config : Config) (request : SendRequest) : Except Error Event := do
  validatePeer config request.protocolVersion request.clusterID request.fromNodeID request.toNodeID
  decodeRaftMessage request

/-! ## Round trip -/

theorem copySession_toList (id : SessionID) : copySession id.toList = id := by
  apply Vector.ext
  intro position inside
  simp [copySession]

theorem decodeEntry_encodeEntry (entry : LogEntry) : decodeEntry (encodeEntry entry) =
    .ok entry := by
  rcases entry with ⟨index, term, type, sessionID, sequence, key, value⟩
  cases type <;>
    simp [encodeEntry, encodeEntryType, decodeEntry, decodeEntryType, copySession_toList]

theorem decodeEntries_encode (entries : List LogEntry) :
    (entries.map encodeEntry).mapM decodeEntry = .ok entries := by
  induction entries with
  | nil => rfl
  | cons entry rest induction =>
      rw [List.map_cons, List.mapM_cons, decodeEntry_encodeEntry, induction]
      rfl

/-- What leaves a Node for another member arrives there as it was sent. -/
theorem send_encode {sender receiver : Config} {action : Action} {sent : Envelope}
    (isSent : envelope action = some sent) (own : sent.message.sender = some sender.nodeID)
    (target : sent.receiver = receiver.nodeID) (other : sender.nodeID ≠ receiver.nodeID)
    (sameCluster : sender.clusterID = receiver.clusterID)
    (member : sender.nodeID ∈ receiver.members) :
    ∃ request, encodeRaftAction sender action = .ok (sent.receiver, request) ∧
      send receiver request = .ok sent.message := by
  have accepted : validatePeer receiver peerProtocolVersion sender.clusterID sender.nodeID
      sent.receiver = .ok () := by
    simp [validatePeer, sameCluster, target, other, member]
  have decoded : ∃ message, encodeMessage action = .ok (sent.receiver, message) ∧
      decodeRaftMessage ⟨peerProtocolVersion, sender.clusterID, sender.nodeID, sent.receiver,
        some message⟩ = .ok sent.message := by
    cases action <;> cases isSent <;> rw [← Option.some.inj own]
    case sendAppendEntries request =>
      refine ⟨_, rfl, ?_⟩
      simp only [decodeRaftMessage, decodeEntries_encode]
      rfl
    all_goals exact ⟨_, rfl, rfl⟩
  rcases decoded with ⟨message, encoded, decoded⟩
  refine ⟨_, by rw [encodeRaftAction, encoded]; rfl, ?_⟩
  simp only [send, accepted]
  exact decoded

end Ternion.Peer

/-! ## Every run -/

namespace Ternion.Cluster.Deferred

open Raft RaftRuntime Peer

variable {membership : Membership} {state : State}

/-- Whatever a Node emits names it as the sender. -/
theorem Mannerly.signed (mannerly : Mannerly membership state) {id : NodeID}
    (member : id ∈ membership.members) {event : Event}
    (foreign : ∀ sender, event.sender = some sender → sender ≠ id) {action : Action}
    (emitted : action ∈ ((state.hosts id).core.step event).2) {sent : Envelope}
    (isSent : envelope action = some sent) : sent.message.sender = some id := by
  have identity : (state.hosts id).core.id = id := (mannerly.secure.standing id member).identity
  by_cases probed : ∃ request, event = .preVoteRequest request
  · rcases probed with ⟨request, rfl⟩
    rw [List.mem_singleton.mp emitted] at isSent
    rw [← Option.some.inj isSent]
    exact congrArg some identity
  · have sends := step_sends (mannerly.poised id member) (mannerly.leads id member)
      (identity.symm ▸ foreign) fun request isProbe => probed ⟨request, isProbe⟩
    exact identity ▸ ((sends.actions action emitted).courteous isSent).sender

/-- Every message of a run was sent by a member, as an action. -/
def Posted (membership : Membership) (state : State) : Prop :=
  ∀ sent ∈ state.network, ∃ id ∈ membership.members, ∃ action, envelope action = some sent ∧
    sent.message.sender = some id

theorem Posted.record (posted : Posted membership state) {id : NodeID}
    (member : id ∈ membership.members) {result : Host × List Action}
    (signed : ∀ action ∈ result.2, ∀ sent, envelope action = some sent →
      sent.message.sender = some id) : Posted membership (state.record id result) := by
  intro sent present
  rcases List.mem_append.mp present with earlier | now
  · exact posted sent earlier
  · rcases List.mem_filterMap.mp now with ⟨action, emitted, isSent⟩
    exact ⟨id, member, action, isSent, signed action emitted sent isSent⟩

theorem Posted.step {after : State} {label : Label} (posted : Posted membership state)
    (mannerly : Mannerly membership state) (sent : snapshotsSent state label)
    (taken : (system membership).step state label after) : Posted membership after := by
  rcases step_cases taken with
    ⟨id, event, rfl, member, arrives, rfl⟩ | ⟨id, result, rfl, member, completed, rfl⟩ |
    ⟨id, flushed, recovered, rfl, member, last, rfl⟩
  · apply posted.record member
    intro action emitted message isSent
    exact mannerly.signed member (mannerly.arriving sent arrives) emitted isSent
  · rcases complete_cases completed with ⟨action, host, event, isFlushed, reported, rfl⟩
    rcases flush_cases isFlushed with ⟨rest, pending, rfl⟩
    apply posted.record member
    intro action emitted message isSent
    apply mannerly.signed member _ emitted isSent
    intro sender isSender
    rw [Mannerly.completion_sender reported] at isSender
    cases isSender
  · exact posted

/-- The wire carries the Cluster: whatever is on its way to a member of a run is
what the sender's transport encodes, and the receiver accepts and decodes it. -/
theorem wire_carries (membership : Membership) (clusterID : String) (state : State)
    (reachable : (system membership).Reachable (fun state label => snapshotsSent state label)
      state) :
    ∀ sent ∈ state.network, sent.receiver ∈ membership.members →
      ∃ sender ∈ membership.members, ∃ action request, envelope action = some sent ∧
        encodeRaftAction ⟨clusterID, sender, membership.members⟩ action =
          .ok (sent.receiver, request) ∧
        send ⟨clusterID, sent.receiver, membership.members⟩ request = .ok sent.message := by
  have posted : Posted membership state := by
    induction reachable with
    | initial isInitial =>
        cases isInitial
        exact fun _ present => (List.not_mem_nil present).elim
    | step reached sent taken induction =>
        exact induction.step (reachable_mannerly reached) sent taken
  intro sent present receives
  rcases posted sent present with ⟨id, member, action, isSent, isSender⟩
  have other := (reachable_mannerly reachable).foreign sent present id isSender
  rcases @send_encode ⟨clusterID, id, membership.members⟩
    ⟨clusterID, sent.receiver, membership.members⟩ action sent isSent isSender rfl other rfl member
    with ⟨request, encoded, decoded⟩
  exact ⟨id, member, action, request, isSent, encoded, decoded⟩

/-- A client's command, as `a` appends it. -/
def clientEntry : LogEntry where
  index := 2
  term := 1
  type := .set
  sessionID := .replicate 16 1
  sequence := 1
  key := "k"
  value := [7]

/-- The command becomes durable, and `b` asks for the log from the start. -/
def commandRun : List Label :=
  [.deliver "a" (.proposeSet ⟨1, .replicate 16 1, 1, "k", [7]⟩),
    .complete "a",
    .deliver "a" (.appendEntriesResponse {
      sender := "b"
      term := 1
      requestID := 1
      success := false
      matchIndex := 0
      conflictTerm := 0
      conflictIndex := 1
      readID := 0 })]

theorem wire_carries_command :
    let sent := firstRequest 3 0 0 [{ index := 1, term := 1, type := .noOp }, clientEntry]
    ∃ state : State, (system trio).Reachable (fun state label => snapshotsSent state label) state ∧
      ⟨"b", sent⟩ ∈ state.network ∧
      ∃ request, send ⟨"ternion", "b", trio.members⟩ request = .ok sent := by
  intro sent
  have executed : (System.execute (State.next trio) snapshotsSent (electionRun ++ commandRun)
      (.start trio)).map (fun state => decide (⟨"b", sent⟩ ∈ state.network)) = some true := by
    decide +kernel
  rcases System.reachable_of_execute (fun _ _ => id) executed with
    ⟨state, reachable, observed⟩
  have present := of_decide_eq_true observed
  rcases wire_carries trio "ternion" state reachable _ present (by decide) with
    ⟨_, _, _, request, _, _, decoded⟩
  exact ⟨state, reachable, present, request, decoded⟩

end Ternion.Cluster.Deferred
