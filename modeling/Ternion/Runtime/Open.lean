import Ternion.Runtime.Step
import Ternion.Snapshot.Directory
import Ternion.Wal.Calls

/-! # The runtime on its data directory

The runtime keeps the core together with its write-ahead log. Opening a data
directory recovers both, and every requested persistence goes to the log.
-/

namespace Ternion.RaftRuntime

open Raft

/-! ## Records of the core -/

section Medium

variable (checkpointSize : Wal.CompactionCheckpoint NodeID → Nat)

/-- The entries of the core as the log records them. The encoding of a
checkpoint is left open. -/
def walFormat : Wal.Format NodeID LogEntry where
  index := LogEntry.index
  term := LogEntry.term
  blank := Snapshot.blank
  blank_default := rfl
  payloadSize := fun
    | .clusterIdentity clusterID => clusterID.utf8ByteSize
    | .nodeIdentity nodeID => nodeID.utf8ByteSize
    | .hardState state => 8 + state.votedFor.utf8ByteSize
    | .legacyEntries _ => 0
    | .logEntry entry => 49 + entry.key.utf8ByteSize + entry.value.length
    | .logTruncation _ => 8
    | .commitIndex _ => 8
    | .checkpoint saved => checkpointSize saved

abbrev Segment : Type := List (Wal.Record NodeID LogEntry)

/-- Segments hold the records of the core. -/
abbrev walMedium : Wal.Medium NodeID LogEntry Segment :=
  (walFormat checkpointSize).recordMedium

end Medium

abbrev Log : Type := Wal.WAL NodeID Segment

/-! ## Opening -/

structure Config where
  clusterID : String
  nodeID : NodeID
  /-- The identities of all members, in order. -/
  memberIDs : List String
  activeSessionLimit : Nat

/-- What a data directory holds. -/
structure DataDir where
  segments : List Segment := []
  snapshots : List Snapshot.File := []
  /-- A crash left a last segment without its complete header. -/
  headless : Bool := false

inductive OpenError where
  | consensusState (error : Wal.Error)
  | snapshot (error : Snapshot.Error)
  deriving DecidableEq

/-- The core with the log that makes it durable. -/
structure Runtime where
  core : Node
  wal : Log
  recoveredSnapshot : Option Snapshot.State := none

def defaultSegmentSize : Nat := 16 * 2 ^ 20

def walIdentity (config : Config) : Wal.Identity NodeID :=
  ⟨config.clusterID, config.nodeID⟩

def snapshotIdentity (config : Config) : Snapshot.Identity :=
  ⟨config.clusterID, config.nodeID, config.memberIDs⟩

/-- The durable history that a stored Snapshot must match. -/
def compatibility (config : Config) (recovered : Wal.RecoveredState NodeID LogEntry) :
    Snapshot.Compatibility where
  identity := snapshotIdentity config
  commitIndex := recovered.commitIndex
  logStartIndex := recovered.snapshotIndex + 1
  logTerms := recovered.log.map LogEntry.term
  snapshotIndex := recovered.snapshotIndex
  snapshotTerm := recovered.snapshotTerm

/-- The core starts from the loaded Snapshot and the entries after it. -/
def recoveredCore (recovered : Wal.RecoveredState NodeID LogEntry) :
    Option Snapshot.State → RecoveredState
  | none => {
      hardState := ⟨recovered.hardState.term, recovered.hardState.votedFor⟩
      log := recovered.log
      commitIndex := recovered.commitIndex }
  | some loaded => {
      hardState := ⟨recovered.hardState.term, recovered.hardState.votedFor⟩
      log := recovered.log.dropWhile fun entry => entry.index ≤ loaded.includedIndex
      commitIndex := recovered.commitIndex
      snapshotIndex := loaded.includedIndex
      snapshotTerm := loaded.includedTerm }

variable (checkpointSize : Wal.CompactionCheckpoint NodeID → Nat)

def openLog (config : Config) (directory : DataDir) :
    Except Wal.Error (Log × Wal.RecoveredState NodeID LogEntry) :=
  if directory.headless then .error .segmentHeaderIncomplete
  else Wal.WAL.openWAL (walMedium checkpointSize) (walIdentity config) defaultSegmentSize
    directory.segments

def openRaftRuntime (config : Config) (peers : List NodeID) (directory : DataDir) :
    Except OpenError Runtime := do
  let (wal, recovered) ← (openLog checkpointSize config directory).mapError .consensusState
  let loaded ← (Snapshot.loadNewest directory.snapshots
    (compatibility config recovered)).mapError .snapshot
  return {
    core := .newNodeFromRecoveredState config.nodeID peers (recoveredCore recovered loaded)
    wal := wal
    recoveredSnapshot := loaded }

theorem openLog_whole (config : Config) (segments : List Segment)
    (files : List Snapshot.File) :
    openLog checkpointSize config { segments := segments, snapshots := files } =
      Wal.WAL.openWAL (walMedium checkpointSize) (walIdentity config) defaultSegmentSize
        segments := rfl

/-! ## The loop on the log -/

/-- The calls that perform a requested persistence. -/
def callsOf : Action → List (Wal.Call NodeID LogEntry)
  | .persistHardState _ term votedFor => [.saveHardState ⟨term, votedFor⟩]
  | .persistLogEntries _ truncateFrom entries =>
      (if truncateFrom ≠ 0 then [.truncateLog truncateFrom] else []) ++ [.saveLogEntries entries]
  | .persistCommitIndex _ commitIndex => [.saveCommitIndex commitIndex]
  | _ => []

def persist (wal : Log) (action : Action) : Except Wal.Error Log :=
  (callsOf action).foldlM (Wal.WAL.call (walMedium checkpointSize)) wal

namespace Runtime

/-- Work off the pending actions as `drain` does, with every persistence made
in the log. A call that the log refuses ends the step. -/
def drain : Nat → Runtime → List Action → Option (Except Wal.Error (Runtime × List Action))
  | _, runtime, [] => some (.ok (runtime, []))
  | 0, _, _ :: _ => none
  | budget + 1, runtime, action :: pending =>
      match completion action with
      | some event =>
          match persist checkpointSize runtime.wal action with
          | .error error => some (.error error)
          | .ok wal =>
              drain budget { runtime with core := (runtime.core.step event).1, wal := wal }
                (pending ++ (runtime.core.step event).2)
      | none =>
          (drain budget runtime pending).map fun result =>
            result.map fun drained => (drained.1, action :: drained.2)

/-- One step of the runtime. -/
def step (budget : Nat) (runtime : Runtime) (event : Event) :
    Option (Except Wal.Error (Runtime × List Action)) :=
  drain checkpointSize budget { runtime with core := (runtime.core.step event).1 }
    (runtime.core.step event).2

end Runtime

end Ternion.RaftRuntime
