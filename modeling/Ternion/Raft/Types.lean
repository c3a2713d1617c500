import Mathlib.Data.Finset.Card
import Mathlib.Data.Finset.Insert
import Mathlib.Data.List.Sort

/-! # Events, actions and state of the Raft core

The vocabulary of `internal/raft`. A Go map from Nodes with a zero default is a
function, a set of Nodes is a `Finset`, and the empty Node name stands for no
Node as it does in the source. Unsigned 64-bit counters are natural numbers, so
a result without a bound is about Terms and indexes that stay below 2^64 - 1.
-/

namespace Ternion.Raft

/-- One Node of a Cluster. -/
abbrev NodeID := String

inductive Role where
  | follower
  | preCandidate
  | candidate
  | leader
  deriving DecidableEq, Repr

/-- The replicated command carried by a log entry. -/
inductive EntryType where
  | noOp
  | openSession
  | closeSession
  | set
  | delete
  deriving DecidableEq, Repr

/-- The replicated identity of one Client Session, sixteen bytes. -/
abbrev SessionID := Vector UInt8 16

instance SessionID.transCmp : Std.TransCmp (compare : SessionID → SessionID → Ordering) :=
  inferInstance

/-- The zero value of a session identity. -/
def SessionID.zero : SessionID := Vector.replicate 16 0

abbrev ProposalID := Nat

abbrev ReadID := Nat

/-- One position in the replicated log. -/
structure LogEntry where
  index : Nat
  term : Nat
  type : EntryType
  sessionID : SessionID := SessionID.zero
  sequence : Nat := 0
  key : String := ""
  value : List UInt8 := []
  deriving DecidableEq

/-! ## Messages between Nodes -/

structure PreVoteRequest where
  sender : NodeID
  term : Nat
  lastLogIndex : Nat
  lastLogTerm : Nat
  deriving DecidableEq

structure PreVoteResponse where
  sender : NodeID
  term : Nat
  currentTerm : Nat
  granted : Bool
  deriving DecidableEq

structure VoteRequest where
  sender : NodeID
  term : Nat
  lastLogIndex : Nat
  lastLogTerm : Nat
  deriving DecidableEq

structure VoteResponse where
  sender : NodeID
  term : Nat
  granted : Bool
  deriving DecidableEq

structure AppendEntries where
  sender : NodeID
  term : Nat
  requestID : Nat
  prevLogIndex : Nat
  prevLogTerm : Nat
  entries : List LogEntry
  leaderCommit : Nat
  readID : ReadID
  deriving DecidableEq

structure AppendEntriesResponse where
  sender : NodeID
  term : Nat
  requestID : Nat
  success : Bool
  matchIndex : Nat
  conflictTerm : Nat
  conflictIndex : Nat
  readID : ReadID
  deriving DecidableEq

/-- One bounded chunk of a Snapshot. The runtime stages `data` and sets
`success`, `nextOffset` and `installed` before the core sees the message. -/
structure InstallSnapshot where
  sender : NodeID
  term : Nat
  requestID : Nat
  snapshotIndex : Nat
  snapshotTerm : Nat
  length : Nat
  checksum : UInt32
  offset : Nat
  data : List UInt8
  done : Bool
  success : Bool := false
  nextOffset : Nat := 0
  installed : Bool := false
  deriving DecidableEq

structure InstallSnapshotResponse where
  sender : NodeID
  term : Nat
  requestID : Nat
  snapshotIndex : Nat
  success : Bool
  nextOffset : Nat
  done : Bool
  deriving DecidableEq

/-! ## Inputs and effects -/

/-- A session command proposed to the Leader. -/
structure ProposeSession where
  proposalID : ProposalID
  type : EntryType
  sessionID : SessionID
  deriving DecidableEq

structure ProposeSet where
  proposalID : ProposalID
  sessionID : SessionID
  sequence : Nat
  key : String
  value : List UInt8
  deriving DecidableEq

structure ProposeDelete where
  proposalID : ProposalID
  sessionID : SessionID
  sequence : Nat
  key : String
  deriving DecidableEq

inductive Event where
  | electionTimeout
  | heartbeatTimeout
  | checkQuorumTimeout
  | hardStatePersisted (persistenceID : Nat)
  | logEntriesPersisted (persistenceID : Nat)
  | commitIndexPersisted (persistenceID : Nat)
  | recoverCommitted
  | snapshotCompacted (index term : Nat)
  | proposeSession (proposal : ProposeSession)
  | proposeSet (proposal : ProposeSet)
  | proposeDelete (proposal : ProposeDelete)
  | confirmRead (readID : ReadID)
  | preVoteRequest (request : PreVoteRequest)
  | preVoteResponse (response : PreVoteResponse)
  | voteRequest (request : VoteRequest)
  | voteResponse (response : VoteResponse)
  | appendEntries (request : AppendEntries)
  | appendEntriesResponse (response : AppendEntriesResponse)
  | appendEntriesFailed (receiver : NodeID) (requestID : Nat)
  | installSnapshot (request : InstallSnapshot)
  | installSnapshotResponse (response : InstallSnapshotResponse)
  deriving DecidableEq

inductive Action where
  | persistHardState (persistenceID term : Nat) (votedFor : NodeID)
  | persistLogEntries (persistenceID truncateFrom : Nat) (entries : List LogEntry)
  | persistCommitIndex (persistenceID commitIndex : Nat)
  | sendPreVoteRequest (receiver : NodeID) (request : PreVoteRequest)
  | sendPreVoteResponse (receiver : NodeID) (response : PreVoteResponse)
  | sendVoteRequest (receiver : NodeID) (request : VoteRequest)
  | sendVoteResponse (receiver : NodeID) (response : VoteResponse)
  | sendAppendEntries (receiver : NodeID) (request : AppendEntries)
  | sendAppendEntriesResponse (receiver : NodeID) (response : AppendEntriesResponse)
  | sendInstallSnapshot (receiver : NodeID)
      (term requestID snapshotIndex snapshotTerm offset : Nat)
  | sendInstallSnapshotResponse (receiver : NodeID) (response : InstallSnapshotResponse)
  | resetElectionTimer
  | resetHeartbeatTimer
  | resetCheckQuorumTimer
  | becameLeader (term : Nat)
  | lostLeadership (term : Nat)
  | applyEntry (entry : LogEntry)
  | becameReadReady (term : Nat)
  | proposalAccepted (proposalID : ProposalID) (index : Nat)
  | proposalRejected (proposalID : ProposalID) (leaderID : NodeID)
  | readConfirmed (readID : ReadID) (commitIndex : Nat)
  | readRejected (readID : ReadID) (leaderID : NodeID)
  deriving DecidableEq

/-! ## State -/

/-- The election state restored before a Node processes events. -/
structure HardState where
  term : Nat := 0
  votedFor : NodeID := ""
  deriving DecidableEq

/-- The durable consensus state restored by the runtime. -/
structure RecoveredState where
  hardState : HardState := {}
  log : List LogEntry := []
  commitIndex : Nat := 0
  snapshotIndex : Nat := 0
  snapshotTerm : Nat := 0
  deriving DecidableEq

structure PendingHardStatePersistence where
  term : Nat
  votedFor : NodeID
  after : List Action
  deriving DecidableEq

inductive LogPersistencePurpose where
  | persistLeaderEntry
  | persistFollowerAppend
  deriving DecidableEq

structure PendingLogPersistence where
  purpose : LogPersistencePurpose
  term : Nat
  lastIndex : Nat
  leader : NodeID := ""
  requestID : Nat := 0
  truncateFrom : Nat := 0
  leaderCommit : Nat := 0
  readID : ReadID := 0
  deriving DecidableEq

structure PendingCommitPersistence where
  commitIndex : Nat
  after : List Action
  deriving DecidableEq

structure PendingRead where
  acknowledgements : Finset NodeID
  commitIndex : Nat := 0
  confirmed : Bool := false
  deriving DecidableEq

/-- A request without an answer; request zero stands for none. -/
structure PendingAppend where
  requestID : Nat := 0
  leaderCommit : Nat := 0
  deriving DecidableEq

/-- The Raft core of one Node. It consumes one event at a time and emits
actions without performing I/O. -/
structure Node where
  id : NodeID
  peers : List NodeID
  role : Role := .follower
  term : Nat := 0
  votedFor : NodeID := ""
  leaderID : NodeID := ""
  lastLogIndex : Nat := 0
  lastLogTerm : Nat := 0
  durableLogIndex : Nat := 0
  logBaseIndex : Nat := 0
  logBaseTerm : Nat := 0
  log : List LogEntry := []
  commitIndex : Nat := 0
  lastApplied : Nat := 0
  readReady : Bool := false
  votes : Finset NodeID := ∅
  preVotes : Finset NodeID := ∅
  activePeers : Finset NodeID := ∅
  matchIndex : NodeID → Nat := fun _ => 0
  nextIndex : NodeID → Nat := fun _ => 0
  appendInFlight : NodeID → PendingAppend := fun _ => {}
  snapshotInFlight : NodeID → Nat := fun _ => 0
  nextRequestID : Nat := 0
  /-- Pending reads in the order of their identifiers, in which the source
  visits its map. -/
  pendingReads : List (ReadID × PendingRead) := []
  recentLeaderContact : Bool := false
  durableTerm : Nat := 0
  durableVotedFor : NodeID := ""
  nextHardStatePersistence : Nat := 0
  pendingHardState : Nat → Option PendingHardStatePersistence := fun _ => none
  nextLogPersistence : Nat := 0
  pendingLog : Nat → Option PendingLogPersistence := fun _ => none
  durableCommitIndex : Nat := 0
  nextCommitPersistence : Nat := 0
  pendingCommit : Nat → Option PendingCommitPersistence := fun _ => none

end Ternion.Raft
