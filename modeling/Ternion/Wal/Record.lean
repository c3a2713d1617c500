import Mathlib.Algebra.GroupWithZero.Nat
import Ternion.Foundation.Consecutive
import Ternion.Foundation.Fallible

/-! # Records of the write-ahead log

The consensus records of one Node and their replay. Replay starts from the
newest compaction checkpoint and checks every record again, those that were
written before the checkpoint as well.

Names and entries are arbitrary types: replay needs the index of an entry, and
whether a name is blank. The default name stands for the empty string.
-/

namespace Ternion.Wal

/-- Binds durable state to one Node in one Cluster. -/
structure Identity (Name : Type) where
  clusterID : Name
  nodeID : Name
  deriving DecidableEq

/-- The election state that must survive a restart. -/
structure HardState (Name : Type) where
  term : Nat
  votedFor : Name
  deriving DecidableEq

/-- The latest valid state reconstructed from all segments. -/
structure RecoveredState (Name Entry : Type) where
  identity : Identity Name
  hardState : HardState Name
  log : List Entry
  commitIndex : Nat
  snapshotIndex : Nat
  snapshotTerm : Nat
  deriving DecidableEq

structure CompactionCheckpoint (Name : Type) where
  identity : Identity Name
  hardState : HardState Name
  commitIndex : Nat
  snapshotIndex : Nat
  snapshotTerm : Nat
  deriving DecidableEq

inductive Record (Name Entry : Type) where
  | clusterIdentity (clusterID : Name)
  | nodeIdentity (nodeID : Name)
  | hardState (state : HardState Name)
  /-- The two batch formats that are read but no longer written. -/
  | legacyEntries (entries : List Entry)
  | logEntry (entry : Entry)
  | logTruncation (firstIndex : Nat)
  | commitIndex (index : Nat)
  | checkpoint (checkpoint : CompactionCheckpoint Name)
  deriving DecidableEq

inductive Error where
  -- Calls that are refused.
  | identityRequired
  | segmentSizeTooSmall (segmentSize : Nat)
  | identityMismatch
  | noEntries
  | recordTooLarge (size : Nat)
  | commitDecreased (commitIndex index : Nat)
  | snapshotOutsideCommitted (snapshotIndex commitIndex : Nat)
  | invalidSnapshotPosition (snapshotIndex snapshotTerm : Nat)
  -- Calls and records that do not fit the log.
  | entryFollows (index lastIndex : Nat)
  | truncationOutsideLog (firstIndex lastIndex : Nat)
  | truncationOfCommitted (firstIndex commitIndex : Nat)
  | commitExceedsLog (index lastIndex : Nat)
  -- Records that contradict each other.
  | clusterIdentityConflicts
  | nodeBeforeClusterIdentity
  | nodeIdentityConflicts
  | hardStateBeforeIdentity
  | checkpointConflictsWithIdentity
  | checkpointNewerThanMetadata
  | checkpointIdentityIncomplete
  | checkpointPositionInvalid (snapshotIndex snapshotTerm commitIndex : Nat)
  | identityIncomplete
  -- Bytes that are no records.
  | segmentHeaderIncomplete
  | invalidMagic
  | unsupportedVersion (version : Nat)
  | frameHeaderIncomplete
  | frameLengthInvalid (length : Nat)
  | frameBodyIncomplete
  | checksumMismatch
  | recordLengthInvalid (length : Nat)
  | checkpointUndecodable
  | unknownRecordType (kind : Nat)
  deriving DecidableEq

/-- What replay reads of names and entries. -/
structure Format (Name Entry : Type) [Inhabited Name] where
  index : Entry → Nat
  term : Entry → Nat
  /-- Nothing is left of the name without the spaces around it. -/
  blank : Name → Bool
  blank_default : blank default = true
  /-- The bytes of a record without its type. -/
  payloadSize : Record Name Entry → Nat

variable {Name Entry : Type}

namespace RecoveredState

def lastIndex (state : RecoveredState Name Entry) : Nat :=
  state.snapshotIndex + state.log.length

/-- Replay presets everything that the newest checkpoint says. -/
def ofCheckpoint (checkpoint : CompactionCheckpoint Name) : RecoveredState Name Entry where
  identity := checkpoint.identity
  hardState := checkpoint.hardState
  log := []
  commitIndex := checkpoint.commitIndex
  snapshotIndex := checkpoint.snapshotIndex
  snapshotTerm := checkpoint.snapshotTerm

/-- The state of a new log. -/
def fresh [Inhabited Name] (identity : Identity Name) : RecoveredState Name Entry where
  identity := identity
  hardState := ⟨0, default⟩
  log := []
  commitIndex := 0
  snapshotIndex := 0
  snapshotTerm := 0

end RecoveredState

/-- The zero checkpoint, from which replay starts without compaction. -/
def CompactionCheckpoint.zero [Inhabited Name] : CompactionCheckpoint Name where
  identity := ⟨default, default⟩
  hardState := ⟨0, default⟩
  commitIndex := 0
  snapshotIndex := 0
  snapshotTerm := 0

namespace Format

variable [Inhabited Name] (format : Format Name Entry)

/-! ## Replay -/

def applyEntry (state : RecoveredState Name Entry) (entry : Entry) :
    Except Error (RecoveredState Name Entry) :=
  if format.index entry ≤ state.snapshotIndex then .ok state
  else if format.index entry ≠ state.lastIndex + 1 then
    .error (.entryFollows (format.index entry) state.lastIndex)
  else .ok { state with log := state.log ++ [entry] }

variable [DecidableEq Name]

def applyRecord (state : RecoveredState Name Entry) :
    Record Name Entry → Except Error (RecoveredState Name Entry)
  | .clusterIdentity clusterID =>
      if state.identity.clusterID ≠ default then
        if state.identity.clusterID ≠ clusterID then .error .clusterIdentityConflicts
        else .ok state
      else .ok { state with identity := { state.identity with clusterID := clusterID } }
  | .nodeIdentity nodeID =>
      if state.identity.clusterID = default then .error .nodeBeforeClusterIdentity
      else if state.identity.nodeID ≠ default then
        if state.identity.nodeID ≠ nodeID then .error .nodeIdentityConflicts else .ok state
      else .ok { state with identity := { state.identity with nodeID := nodeID } }
  | .hardState hardState =>
      if state.identity.nodeID = default then .error .hardStateBeforeIdentity
      else if hardState.term < state.hardState.term then .ok state
      -- The first vote of a Term wins.
      else if hardState.term = state.hardState.term ∧ state.hardState.votedFor ≠ default then
        .ok state
      else .ok { state with hardState := hardState }
  | .legacyEntries entries => entries.foldlM format.applyEntry state
  | .logEntry entry => format.applyEntry state entry
  | .logTruncation firstIndex =>
      if firstIndex ≤ state.snapshotIndex ∨ state.lastIndex + 1 < firstIndex then
        .error (.truncationOutsideLog firstIndex state.lastIndex)
      else if firstIndex ≤ state.commitIndex then
        .error (.truncationOfCommitted firstIndex state.commitIndex)
      else .ok { state with log := state.log.take (firstIndex - state.snapshotIndex - 1) }
  | .commitIndex index =>
      if index < state.commitIndex then .ok state
      else if state.lastIndex < index then .error (.commitExceedsLog index state.lastIndex)
      else .ok { state with commitIndex := index }
  | .checkpoint checkpoint =>
      if checkpoint.identity ≠ state.identity then .error .checkpointConflictsWithIdentity
      else if state.snapshotIndex < checkpoint.snapshotIndex then
        .error .checkpointNewerThanMetadata
      else .ok state

omit [DecidableEq Name] in
/-- One step of the search for the newest checkpoint. Every checkpoint on the
way must be valid. -/
def visitCheckpoint (newest : CompactionCheckpoint Name) :
    Record Name Entry → Except Error (CompactionCheckpoint Name)
  | .checkpoint checkpoint =>
      if format.blank checkpoint.identity.clusterID ∨ format.blank checkpoint.identity.nodeID then
        .error .checkpointIdentityIncomplete
      else if checkpoint.snapshotIndex = 0 ∨ checkpoint.snapshotTerm = 0 ∨
          checkpoint.commitIndex < checkpoint.snapshotIndex then
        .error (.checkpointPositionInvalid checkpoint.snapshotIndex checkpoint.snapshotTerm
          checkpoint.commitIndex)
      else .ok checkpoint
  | _ => .ok newest

omit [DecidableEq Name] in
def newestCompactionCheckpoint (records : List (Record Name Entry)) :
    Except Error (CompactionCheckpoint Name) :=
  records.foldlM format.visitCheckpoint .zero

/-- The state after replay must carry a complete identity. -/
def identified (state : RecoveredState Name Entry) : Except Error (RecoveredState Name Entry) :=
  if state.identity.clusterID = default ∨ state.identity.nodeID = default then
    .error .identityIncomplete
  else .ok state

/-- Replay of all records on disk. -/
def recoverRecords (records : List (Record Name Entry)) :
    Except Error (RecoveredState Name Entry) := do
  let checkpoint ← format.newestCompactionCheckpoint records
  let state ← records.foldlM format.applyRecord (.ofCheckpoint checkpoint)
  identified state

omit [DecidableEq Name] in
/-- The Snapshot makes the record obsolete, as far as compaction judges. -/
def coveredBySnapshot (snapshotIndex : Nat) : Record Name Entry → Bool
  | .legacyEntries entries => entries.all fun entry => format.index entry ≤ snapshotIndex
  | .logEntry entry => format.index entry ≤ snapshotIndex
  | .logTruncation firstIndex => firstIndex ≤ snapshotIndex
  | _ => true

end Format

end Ternion.Wal
