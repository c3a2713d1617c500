import Ternion.Wal.Record

/-! # The write-ahead log

An ordered, synced sequence of records in segments. A record goes to the active
segment, or to a new one when the active segment is full. Compaction records a
checkpoint and removes the complete segments that the Snapshot covers.

How a segment stores its records is a parameter. A call that returns an error
leaves no state here, because every caller stops at the first error.
-/

namespace Ternion.Wal

def segmentHeaderSize : Nat := 12
def frameHeaderSize : Nat := 8
def maxRecordSize : Nat := 2 * 2 ^ 20

variable {Name Entry Content : Type} [Inhabited Name]

/-- The bytes that an entry occupies in its segment. -/
def Format.entryFrameSize (format : Format Name Entry) (entry : Entry) : Nat :=
  frameHeaderSize + 1 + format.payloadSize (.logEntry entry)

/-- How segments store records. -/
structure Medium (Name Entry Content : Type) [Inhabited Name] extends Format Name Entry where
  /-- A new segment, with only its header. -/
  create : Content
  append : Content → Record Name Entry → Content
  size : Content → Nat
  /-- Every record of the segment is made obsolete by the Snapshot. -/
  segmentCoveredBySnapshot : Nat → Content → Except Error Bool
  /-- Recovery reads the segments in order, and may cut an interrupted frame
  off the last one. -/
  recoverSegments : List Content → Except Error (List Content × RecoveredState Name Entry)

/-- An opened log. The segments are those on disk, in the order of their
numbers. -/
structure WAL (Name Content : Type) where
  segmentSize : Nat
  older : List Content
  active : Content
  offset : Nat
  lastLogIndex : Nat
  commitIndex : Nat
  hardState : HardState Name
  identity : Identity Name
  snapshotIndex : Nat
  snapshotTerm : Nat
  /-- The frame bytes of the retained entries, by index. Zero for no entry. -/
  entryBytes : Nat → Nat

namespace WAL

def segments (wal : WAL Name Content) : List Content :=
  wal.older ++ [wal.active]

/-- The frame bytes of the entries after the Snapshot, through an index. -/
def retainedLogBytes (wal : WAL Name Content) (throughIndex : Nat) : Nat :=
  (((List.range (throughIndex + 1)).filter fun index =>
    wal.snapshotIndex < index).map wal.entryBytes).sum

variable (medium : Medium Name Entry Content)

/-! ## Appending -/

def createSegment (wal : WAL Name Content) : WAL Name Content :=
  { wal with
    older := wal.older ++ [wal.active]
    active := medium.create
    offset := segmentHeaderSize }

def appendRecord (wal : WAL Name Content) (record : Record Name Entry) :
    Except Error (WAL Name Content) :=
  let bodySize := 1 + medium.payloadSize record
  let frameSize := frameHeaderSize + bodySize
  if maxRecordSize < bodySize then .error (.recordTooLarge bodySize)
  else
    let target :=
      if segmentHeaderSize < wal.offset ∧ wal.segmentSize < wal.offset + frameSize then
        wal.createSegment medium
      else wal
    .ok { target with
      active := medium.append target.active record
      offset := target.offset + frameSize }

def saveHardState (wal : WAL Name Content) (state : HardState Name) :
    Except Error (WAL Name Content) := do
  let wal ← wal.appendRecord medium (.hardState state)
  return { wal with hardState := state }

/-- The entries must follow the log one by one. -/
def checkOrder (format : Format Name Entry) : Nat → List Entry → Except Error Unit
  | _, [] => .ok ()
  | lastIndex, entry :: entries =>
      if format.index entry ≠ lastIndex + 1 then
        .error (.entryFollows (format.index entry) lastIndex)
      else checkOrder format (lastIndex + 1) entries

def appendEntry (wal : WAL Name Content) (entry : Entry) : Except Error (WAL Name Content) := do
  let wal ← wal.appendRecord medium (.logEntry entry)
  return { wal with
    entryBytes := Function.update wal.entryBytes (medium.index entry)
      (medium.entryFrameSize entry) }

def saveLogEntries (wal : WAL Name Content) (entries : List Entry) :
    Except Error (WAL Name Content) :=
  if entries = [] then .error .noEntries
  else do
    checkOrder medium.toFormat wal.lastLogIndex entries
    let wal ← entries.foldlM (appendEntry medium) wal
    return { wal with lastLogIndex := wal.lastLogIndex + entries.length }

/-- Remove the suffix beginning at an index. Committed history cannot be
removed. -/
def truncateLog (wal : WAL Name Content) (firstIndex : Nat) :
    Except Error (WAL Name Content) :=
  if firstIndex = 0 ∨ wal.lastLogIndex + 1 < firstIndex then
    .error (.truncationOutsideLog firstIndex wal.lastLogIndex)
  else if firstIndex ≤ wal.commitIndex then
    .error (.truncationOfCommitted firstIndex wal.commitIndex)
  else do
    let wal ← wal.appendRecord medium (.logTruncation firstIndex)
    return { wal with
      entryBytes := fun index =>
        if firstIndex ≤ index ∧ index ≤ wal.lastLogIndex then 0 else wal.entryBytes index
      lastLogIndex := firstIndex - 1 }

def saveCommitIndex (wal : WAL Name Content) (index : Nat) :
    Except Error (WAL Name Content) :=
  if index < wal.commitIndex then .error (.commitDecreased wal.commitIndex index)
  else if wal.lastLogIndex < index then .error (.commitExceedsLog index wal.lastLogIndex)
  else if index = wal.commitIndex then .ok wal
  else do
    let wal ← wal.appendRecord medium (.commitIndex index)
    return { wal with commitIndex := index }

/-! ## Compaction -/

def checkpointAt (wal : WAL Name Content) (snapshotIndex snapshotTerm commitIndex : Nat) :
    CompactionCheckpoint Name where
  identity := wal.identity
  hardState := wal.hardState
  commitIndex := commitIndex
  snapshotIndex := snapshotIndex
  snapshotTerm := snapshotTerm

/-- The checkpoint is durable before the first segment goes. -/
def saveCheckpoint (wal : WAL Name Content) (snapshotIndex snapshotTerm commitIndex : Nat) :
    Except Error (WAL Name Content) := do
  let wal ← wal.appendRecord medium
    (.checkpoint (wal.checkpointAt snapshotIndex snapshotTerm commitIndex))
  return { wal with snapshotIndex := snapshotIndex, snapshotTerm := snapshotTerm }

/-- Delete covered segments, one after another. -/
def removeCovered (snapshotIndex : Nat) : List Content → Except Error (List Content)
  | [] => .ok []
  | content :: contents => do
      let covered ← medium.segmentCoveredBySnapshot snapshotIndex content
      let kept ← removeCovered snapshotIndex contents
      return if covered then kept else content :: kept

def installSnapshotCheckpoint (wal : WAL Name Content)
    (snapshotIndex snapshotTerm commitIndex : Nat) : Except Error (WAL Name Content) := do
  let wal ← wal.saveCheckpoint medium snapshotIndex snapshotTerm commitIndex
  let kept ← removeCovered medium snapshotIndex wal.older
  return { wal with
    older := kept
    entryBytes := fun index => if index ≤ snapshotIndex then 0 else wal.entryBytes index }

/-- The segments that a crash leaves when it interrupts the deletions of a
compaction after some of the complete segments were examined. -/
def interruptedSegments (wal : WAL Name Content)
    (snapshotIndex snapshotTerm commitIndex examined : Nat) : Except Error (List Content) := do
  let wal ← wal.saveCheckpoint medium snapshotIndex snapshotTerm commitIndex
  let kept ← removeCovered medium snapshotIndex (wal.older.take examined)
  return kept ++ wal.older.drop examined ++ [wal.active]

/-- Record a recovery checkpoint for a local Snapshot. -/
def compact (wal : WAL Name Content) (snapshotIndex snapshotTerm : Nat) :
    Except Error (WAL Name Content) :=
  if snapshotIndex = 0 ∨ wal.commitIndex < snapshotIndex then
    .error (.snapshotOutsideCommitted snapshotIndex wal.commitIndex)
  else wal.installSnapshotCheckpoint medium snapshotIndex snapshotTerm wal.commitIndex

/-- Advance to a Snapshot received from the Leader, which may be newer than the
log and the commit index. -/
def installSnapshot (wal : WAL Name Content) (snapshotIndex snapshotTerm : Nat) :
    Except Error (WAL Name Content) :=
  if snapshotIndex = 0 ∨ snapshotTerm = 0 ∨ snapshotIndex < wal.snapshotIndex then
    .error (.invalidSnapshotPosition snapshotIndex snapshotTerm)
  else do
    let wal ← wal.installSnapshotCheckpoint medium snapshotIndex snapshotTerm
      (max wal.commitIndex snapshotIndex)
    return { wal with
      commitIndex := max wal.commitIndex snapshotIndex
      lastLogIndex := max wal.lastLogIndex snapshotIndex }

/-! ## Opening -/

/-- A new log, with the identity of its Node. -/
def createWAL (identity : Identity Name) (segmentSize : Nat) :
    Except Error (WAL Name Content) := do
  let created : WAL Name Content := {
    segmentSize := segmentSize
    older := []
    active := medium.create
    offset := segmentHeaderSize
    lastLogIndex := 0
    commitIndex := 0
    hardState := ⟨0, default⟩
    identity := identity
    snapshotIndex := 0
    snapshotTerm := 0
    entryBytes := fun _ => 0 }
  let wal ← created.appendRecord medium (.clusterIdentity identity.clusterID)
  wal.appendRecord medium (.nodeIdentity identity.nodeID)

/-- The frame bytes of recovered entries. -/
def recoveredBytes (format : Format Name Entry) (log : List Entry) : Nat → Nat :=
  log.foldl (fun bytes entry =>
    Function.update bytes (format.index entry) (format.entryFrameSize entry)) fun _ => 0

/-- The log that continues recovered segments. -/
def resume (identity : Identity Name) (segmentSize : Nat) (older : List Content)
    (active : Content) (recovered : RecoveredState Name Entry) : WAL Name Content where
  segmentSize := segmentSize
  older := older
  active := active
  offset := medium.size active
  lastLogIndex := recovered.snapshotIndex + recovered.log.length
  commitIndex := recovered.commitIndex
  hardState := recovered.hardState
  identity := identity
  snapshotIndex := recovered.snapshotIndex
  snapshotTerm := recovered.snapshotTerm
  entryBytes := recoveredBytes medium.toFormat recovered.log

/-- Create or recover the log in a directory with the given segments. The
durable identity must match the configured one exactly. -/
def openWAL [DecidableEq Name] (identity : Identity Name) (segmentSize : Nat)
    (segments : List Content) :
    Except Error (WAL Name Content × RecoveredState Name Entry) :=
  if medium.blank identity.clusterID ∨ medium.blank identity.nodeID then
    .error .identityRequired
  else if segmentSize ≤ segmentHeaderSize + frameHeaderSize then
    .error (.segmentSizeTooSmall segmentSize)
  else if segments = [] then do
    let wal ← createWAL medium identity segmentSize
    return (wal, .fresh identity)
  else do
    let (kept, recovered) ← medium.recoverSegments segments
    if recovered.identity ≠ identity then .error .identityMismatch
    else
      return (resume medium identity segmentSize kept.dropLast
        (kept.getLast?.getD medium.create) recovered, recovered)

end WAL

/-! ## Segments as lists of records -/

/-- Segments that hold their records as they are. -/
def Format.recordMedium [DecidableEq Name] (format : Format Name Entry) :
    Medium Name Entry (List (Record Name Entry)) where
  toFormat := format
  create := []
  append := fun records record => records ++ [record]
  size := fun records => segmentHeaderSize +
    (records.map fun record => frameHeaderSize + (1 + format.payloadSize record)).sum
  segmentCoveredBySnapshot := fun snapshotIndex records =>
    .ok (records.all (format.coveredBySnapshot snapshotIndex))
  recoverSegments := fun segments => do
    let state ← format.recoverRecords segments.flatten
    return (segments, state)

end Ternion.Wal
