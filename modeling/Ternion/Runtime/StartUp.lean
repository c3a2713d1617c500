import Ternion.Raft.Start
import Ternion.Runtime.Interrupted
import Ternion.Session.Capture

/-! # Starting up

A Node opens its data directory, restores the Snapshot that it loaded and
applies what its log knows to be committed after it. The state it reaches is
that of the committed history, as long as a Snapshot takes the place of what
the log no longer has, or there are Snapshots but none that it could take.
-/

namespace Ternion.RaftRuntime

open Raft Session

variable {loaded : Option Snapshot.State}

inductive StartError where
  | consensus (error : OpenError)
  | restore (error : RestoreError)
  | unexpectedAction (action : Action)
  deriving DecidableEq

def recover (machine : Machine) : List Action → Except StartError Machine
  | [] => .ok machine
  | .applyEntry entry :: rest => recover (machine.apply entry).1 rest
  | action :: _ => .error (.unexpectedAction action)

/-- Open the directory, restore the Snapshot, and recover what is committed. -/
def startUp (checkpointSize : Wal.CompactionCheckpoint NodeID → Nat) (config : Config)
    (peers : List NodeID) (directory : DataDir) : Except StartError (Node × Machine) := do
  let runtime ← (openRaftRuntime checkpointSize config peers directory).mapError .consensus
  let restored ← (Machine.restore { limit := config.activeSessionLimit }
    runtime.recoveredSnapshot).mapError .restore
  let recovery := runtime.core.step .recoverCommitted
  let machine ← recover restored recovery.2
  return (recovery.1, machine)

/-! ## The committed history -/

/-- The state that a committed history leads to. -/
def stateAfter (config : Config) (committed : List LogEntry) : Machine :=
  ({ limit := config.activeSessionLimit } : Machine).applyAll committed

/-- What the log recovered is a part of the committed history, followed by
entries that are not known to be committed. -/
structure RecoveredFrom (committed : List LogEntry)
    (live : Wal.RecoveredState NodeID LogEntry) : Prop where
  numbered : Consecutive LogEntry.index 0 committed
  consecutive : Consecutive LogEntry.index live.snapshotIndex live.log
  checkpoint : live.snapshotIndex ≤ live.commitIndex
  known : live.commitIndex ≤ live.snapshotIndex + live.log.length
  within : live.commitIndex ≤ committed.length
  snapshotTerm : live.snapshotTerm = entryTerm committed live.snapshotIndex
  log : live.log.take (live.commitIndex - live.snapshotIndex) =
    (committed.take live.commitIndex).drop live.snapshotIndex

/-- The file is a true capture of the history at its own position. -/
def CapturedAt (config : Config) (committed : List LogEntry) (index : Nat)
    (file : Snapshot.File) : Prop :=
  index ≤ committed.length ∧
    file.contents = some ((stateAfter config (committed.take index)).snapshot
      (snapshotIdentity config) index (entryTerm committed index))

/-- Start-up refuses the directory, or reaches the state of the committed history
with a core whose log goes on from its base. -/
def Faithful (config : Config) (committed : List LogEntry)
    (live : Wal.RecoveredState NodeID LogEntry) (result : Except StartError (Node × Machine)) :
    Prop :=
  (∃ error, result = .error error) ∨
    ∃ core, result = .ok (core, stateAfter config (committed.take live.commitIndex)) ∧
      core.lastApplied = live.commitIndex ∧
      Consecutive LogEntry.index core.logBaseIndex core.log

/-- A Snapshot covers what the log no longer has, and is committed. -/
def Covered (config : Config) (committed : List LogEntry)
    (live : Wal.RecoveredState NodeID LogEntry) (files : List Snapshot.File) : Prop :=
  live.snapshotIndex = 0 ∨ ∃ file ∈ files, ∃ index, CapturedAt config committed index file ∧
    live.snapshotIndex ≤ index ∧ index ≤ live.commitIndex

/-- There are Snapshots, and none of them is of the empty history. -/
def Guarded (config : Config) (committed : List LogEntry) (files : List Snapshot.File) : Prop :=
  files ≠ [] ∧ ∀ file ∈ files, ¬CapturedAt config committed 0 file

section

variable {checkpointSize : Wal.CompactionCheckpoint NodeID → Nat} {config : Config}
  {peers : List NodeID} {committed : List LogEntry}
  {live : Wal.RecoveredState NodeID LogEntry} {files : List Snapshot.File}

theorem RecoveredFrom.entry (recovered : RecoveredFrom committed live) {entry : LogEntry}
    (present : entry ∈ live.log) (known : entry.index ≤ live.commitIndex) :
    entry.term = entryTerm committed entry.index := by
  rcases List.mem_iff_getElem?.mp present with ⟨offset, found⟩
  have position := recovered.consecutive.position_eq found
  have same := congrArg (fun log => log[offset]?) recovered.log
  simp only [List.getElem?_drop] at same
  rw [List.getElem?_take_of_lt (by omega), List.getElem?_take_of_lt (by omega), found] at same
  have offset_eq : entry.index - 1 = live.snapshotIndex + offset := by omega
  rw [← offset_eq] at same
  exact (entryTerm_found (by omega) same.symm).symm

theorem RecoveredFrom.ofHistory (recovered : RecoveredFrom committed live) :
    OfHistory (entryTerm committed) live :=
  ⟨recovered.snapshotTerm, fun _ present known => recovered.entry present known⟩

theorem recover_applied (machine : Machine) (entries : List LogEntry) :
    recover machine (entries.map .applyEntry) = .ok (machine.applyAll entries) := by
  induction entries generalizing machine with
  | nil => rfl
  | cons entry entries induction => exact induction _

theorem reportsOf_waiting (term : Nat) (entries : List LogEntry) :
    Node.reportsOf term false entries = entries.map .applyEntry := by
  induction entries with
  | nil => rfl
  | cons entry entries induction => exact congrArg (List.cons _) induction

theorem recoverCommitted_follower {node : Node} (follows : node.role = .follower)
    (noReads : node.pendingReads = []) (atBase : node.lastApplied = node.logBaseIndex) :
    let entries := node.log.take (node.durableCommitIndex - node.logBaseIndex)
    (node.step .recoverCommitted).2 = entries.map .applyEntry ∧
      (node.step .recoverCommitted).1.lastApplied = node.logBaseIndex + entries.length ∧
      (node.step .recoverCommitted).1.logBaseIndex = node.logBaseIndex ∧
      (node.step .recoverCommitted).1.log = node.log := by
  rw [Node.step, Node.applyThrough_eq _ _ atBase.ge]
  have waits : node.awaitsReadiness = false := by simp [Node.awaitsReadiness, follows]
  have next : node.upcoming (node.durableCommitIndex - node.lastApplied) =
      node.log.take (node.durableCommitIndex - node.logBaseIndex) := by
    rw [Node.upcoming, atBase, Nat.sub_self, List.drop_zero]
  rw [next, waits, reportsOf_waiting]
  simp only [Node.applied, Node.completeReads, noReads, List.filter_nil, List.map_nil,
    List.append_nil, and_true, atBase]

section

variable {file : Snapshot.File} {state : Snapshot.State} (isRead : Snapshot.read file = .ok state)

include isRead

theorem CapturedAt.read_eq {index : Nat} (captured : CapturedAt config committed index file) :
    state = (stateAfter config (committed.take index)).snapshot (snapshotIdentity config) index
      (entryTerm committed index) := by
  rw [Snapshot.read, captured.2] at isRead
  rcases Fallible.bind_eq_ok.mp isRead with ⟨_, _, same⟩
  exact (Except.ok.inj same).symm

theorem CapturedAt.matchesWAL_zero (captured : CapturedAt config committed 0 file) :
    Snapshot.matchesWAL state (compatibility config live) = true := by
  rw [captured.read_eq isRead]
  exact matchesWAL_start rfl (entryTerm_zero committed)

end

theorem restore_captured (committed : List LogEntry) (identity : Snapshot.Identity)
    (index term : Nat) :
    Machine.restore { limit := config.activeSessionLimit }
        (some ((stateAfter config committed).snapshot identity index term)) =
      .ok (stateAfter config committed) := by
  apply Machine.restore_snapshot
  · exact Machine.applyAll_counted (Machine.new_counted _) _
  · exact (Machine.applyAll_limit _ _).symm

/-- The Snapshot that is loaded stands for the committed history up to its
position. -/
theorem loads_captured (captured : ∀ file ∈ files, ∃ index, CapturedAt config committed index file)
    (loads : Snapshot.loadNewest files (compatibility config live) = .ok loaded) :
    Machine.restore { limit := config.activeSessionLimit } loaded =
        .ok (stateAfter config (committed.take (Snapshot.positionOf loaded).1)) ∧
      (files = [] ∧ loaded = none ∨
        ∃ file ∈ files, CapturedAt config committed (Snapshot.positionOf loaded).1 file) ∧
      (Snapshot.positionOf loaded).1 ≤ live.commitIndex ∧
      ((Snapshot.positionOf loaded).1 ≠ 0 →
        live.snapshotIndex ≤ (Snapshot.positionOf loaded).1) := by
  rcases Snapshot.loadNewest_newest (Snapshot.loadNewest_readable loads) loads with
    ⟨newest, empty⟩
  cases loaded with
  | none => exact ⟨rfl, .inl ⟨empty rfl, rfl⟩, Nat.zero_le _, fun nonzero => absurd rfl nonzero⟩
  | some state =>
      rcases newest.offered state rfl with ⟨compatible, file, present, isRead⟩
      rcases captured file present with ⟨index, capturedAt⟩
      have isState := capturedAt.read_eq isRead
      have position : (Snapshot.positionOf (some state)).1 = index := by
        rw [isState]
        rfl
      refine ⟨?_, .inr ⟨file, present, position ▸ capturedAt⟩, committed_of_matchesWAL compatible,
        covers_of_matchesWAL compatible⟩
      rw [position, isState]
      exact restore_captured _ _ _ _

/-- It covers the checkpoint, if any Snapshot does. -/
theorem Covered.loads (covered : Covered config committed live files)
    (recovered : RecoveredFrom committed live)
    (loads : Snapshot.loadNewest files (compatibility config live) = .ok loaded) :
    live.snapshotIndex ≤ (Snapshot.positionOf loaded).1 := by
  rcases covered with start | ⟨file, present, index, captured, above, within⟩
  · exact start.le.trans (Nat.zero_le _)
  · have readable := Snapshot.loadNewest_readable loads
    rcases readable file present with ⟨image, isRead, _⟩
    have isImage := captured.read_eq isRead
    have isIndex : image.includedIndex = index := by rw [isImage]; rfl
    have isTerm : image.includedTerm = entryTerm committed index := by rw [isImage]; rfl
    have matched : Snapshot.matchesWAL image (compatibility config live) = true := by
      apply recovered.ofHistory.matchesWAL recovered.consecutive recovered.known
      · intro isStart
        rw [isTerm, ← isIndex, isStart, entryTerm_zero]
      · rw [isTerm, isIndex]
      · exact above.trans isIndex.ge
      · exact isIndex.le.trans within
    rcases (Snapshot.loadNewest_newest readable loads).1.latest image
      ⟨matched, file, present, isRead⟩ with ⟨best, isBest, bound⟩
    rw [Option.mem_def.mp isBest]
    exact above.trans (isIndex.ge.trans bound)

theorem RecoveredFrom.suffix (recovered : RecoveredFrom committed live) {index : Nat}
    (above : live.snapshotIndex ≤ index) (within : index ≤ live.commitIndex) :
    committed.take index ++
        (live.log.drop (index - live.snapshotIndex)).take (live.commitIndex - index) =
      committed.take live.commitIndex := by
  have same := congrArg (List.drop (index - live.snapshotIndex)) recovered.log
  rw [List.drop_take, List.drop_drop, show live.commitIndex - live.snapshotIndex -
    (index - live.snapshotIndex) = live.commitIndex - index by omega,
    show live.snapshotIndex + (index - live.snapshotIndex) = index by omega] at same
  have kept : committed.take index = (committed.take live.commitIndex).take index := by
    rw [List.take_take, Nat.min_eq_left within]
  rw [same, kept, List.take_append_drop]

theorem recoveredCore_log (consecutive : Consecutive LogEntry.index live.snapshotIndex live.log)
    (loaded : Option Snapshot.State) (above : live.snapshotIndex ≤ (Snapshot.positionOf loaded).1) :
    (recoveredCore live loaded).log =
        live.log.drop ((Snapshot.positionOf loaded).1 - live.snapshotIndex) ∧
      (recoveredCore live loaded).snapshotIndex = (Snapshot.positionOf loaded).1 ∧
      (recoveredCore live loaded).commitIndex = live.commitIndex := by
  cases loaded with
  | none =>
      have start : live.snapshotIndex = 0 := Nat.le_zero.mp above
      simp [recoveredCore, Snapshot.positionOf, start]
  | some state => exact ⟨consecutive.dropWhile_le _, rfl, rfl⟩

theorem recoveredCore_first (consecutive : Consecutive LogEntry.index live.snapshotIndex live.log)
    (first : (Snapshot.positionOf loaded).1 = 0) :
    (recoveredCore live loaded).log = live.log ∧ (recoveredCore live loaded).snapshotIndex = 0 ∧
      (recoveredCore live loaded).commitIndex = live.commitIndex := by
  cases loaded with
  | none => exact ⟨rfl, rfl, rfl⟩
  | some state =>
      have index : state.includedIndex = 0 := first
      refine ⟨?_, index, rfl⟩
      have kept := consecutive.dropWhile_le state.includedIndex
      rw [index, Nat.zero_sub, List.drop_zero] at kept
      simp only [recoveredCore, index]
      exact kept

section Started

variable {wal : Log} {segments : List Segment}
  (opened : Wal.WAL.openWAL (walMedium checkpointSize) (walIdentity config) defaultSegmentSize
    segments = .ok (wal, live))

include opened

theorem startUp_refused {error : Snapshot.Error}
    (refused : Snapshot.loadNewest files (compatibility config live) = .error error) :
    startUp checkpointSize config peers { segments := segments, snapshots := files } =
      .error (.consensus (.snapshot error)) := by
  have refuses : openRaftRuntime checkpointSize config peers
      { segments := segments, snapshots := files } = .error (.snapshot error) := by
    rw [openRaftRuntime, openLog_whole, opened]
    change (Snapshot.loadNewest files (compatibility config live)).mapError OpenError.snapshot
      >>= _ = _
    rw [refused]
    rfl
  rw [startUp, refuses]
  rfl

/-- A core that drops nothing applies the entries after its base. -/
theorem startUp_loaded (peers : List NodeID) {machine : Machine}
    (loads : Snapshot.loadNewest files (compatibility config live) = .ok loaded)
    (restored : Machine.restore { limit := config.activeSessionLimit } loaded = .ok machine)
    (untrimmed : ¬Node.includesSnapshot (recoveredCore live loaded)) :
    let start := recoveredCore live loaded
    let entries := start.log.take (start.commitIndex - start.snapshotIndex)
    ∃ core, startUp checkpointSize config peers { segments := segments, snapshots := files } =
        .ok (core, machine.applyAll entries) ∧
      core.lastApplied = start.snapshotIndex + entries.length ∧
      core.logBaseIndex = start.snapshotIndex ∧ core.log = start.log := by
  have opens : openRaftRuntime checkpointSize config peers
      { segments := segments, snapshots := files } = _ := openRaftRuntime_eq opened loads
  rcases Node.newNode_untrimmed untrimmed config.nodeID peers with
    ⟨follows, noReads, atBase, base, log, commitIndex⟩
  rcases recoverCommitted_follower follows noReads atBase with
    ⟨actions, applied, sameBase, sameLog⟩
  rw [base, log, commitIndex] at actions applied
  refine ⟨_, ?_, applied, sameBase.trans base, sameLog.trans log⟩
  rw [startUp, opens]
  change (Machine.restore { limit := config.activeSessionLimit } loaded).mapError
    StartError.restore >>= _ = _
  rw [restored]
  change recover machine (Node.step _ .recoverCommitted).2 >>= _ = _
  rw [actions, recover_applied]
  rfl

theorem startUp_covered (recovered : RecoveredFrom committed live)
    (captured : ∀ file ∈ files, ∃ index, CapturedAt config committed index file)
    (covered : Covered config committed live files)
    (loads : Snapshot.loadNewest files (compatibility config live) = .ok loaded) :
    Faithful config committed live
      (startUp checkpointSize config peers { segments := segments, snapshots := files }) := by
  rcases loads_captured captured loads with ⟨restored, _, within, _⟩
  have above := covered.loads recovered loads
  rcases recoveredCore_log recovered.consecutive loaded above with ⟨log, base, commitIndex⟩
  have known := recovered.known
  have rest := recovered.consecutive.drop
    (show (Snapshot.positionOf loaded).1 - live.snapshotIndex ≤ live.log.length by omega)
  rw [Nat.add_sub_cancel' above] at rest
  have consecutive : Consecutive LogEntry.index (recoveredCore live loaded).snapshotIndex
      (recoveredCore live loaded).log := by rwa [log, base]
  rcases startUp_loaded opened peers loads restored
    (Node.not_includesSnapshot consecutive) with ⟨core, started, applied, sameBase, sameLog⟩
  rw [log, base, commitIndex] at started applied
  rw [stateAfter, ← Machine.applyAll_append, recovered.suffix above within] at started
  refine .inr ⟨core, started, ?_, ?_⟩
  · rw [applied, List.length_take, List.length_drop]
    omega
  · rw [sameBase, sameLog]
    exact consecutive

/-- A core that starts from the first position misses what the log no longer has. -/
theorem startUp_uncovered (recovered : RecoveredFrom committed live)
    (compacted : live.snapshotIndex ≠ 0) {machine : Machine}
    (loads : Snapshot.loadNewest files (compatibility config live) = .ok loaded)
    (first : (Snapshot.positionOf loaded).1 = 0)
    (restored : Machine.restore { limit := config.activeSessionLimit } loaded = .ok machine) :
    ¬Faithful config committed live
      (startUp checkpointSize config peers { segments := segments, snapshots := files }) := by
  rcases recoveredCore_first recovered.consecutive first with ⟨log, base, commitIndex⟩
  have untrimmed : ¬Node.includesSnapshot (recoveredCore live loaded) :=
    fun includes => Nat.ne_of_gt includes.1 base
  rcases startUp_loaded opened peers loads restored untrimmed with
    ⟨core, started, applied, sameBase, sameLog⟩
  rw [log, base, commitIndex, List.length_take] at applied
  rw [log] at sameLog
  rw [base] at sameBase
  rw [started]
  rintro (⟨error, refused⟩ | ⟨other, same, reached, consecutive⟩)
  · cases refused
  · have isCore : core = other := congrArg Prod.fst (Except.ok.inj same)
    rw [← isCore] at reached consecutive
    have checkpoint := recovered.checkpoint
    have numbered := recovered.consecutive
    rw [sameBase, sameLog] at consecutive
    cases entries : live.log with
    | nil =>
        rw [entries, List.length_nil] at applied
        omega
    | cons entry rest =>
        rw [entries] at consecutive numbered
        have one : entry.index = 0 + 1 := consecutive.1
        have next : entry.index = live.snapshotIndex + 1 := numbered.1
        omega

end Started

/-- Start-up refuses the directory or reaches the state of the committed history
exactly when a Snapshot covers what the log no longer has, or no Snapshot can be
taken though there are some. -/
theorem startUp_committed {wal : Log} {segments : List Segment}
    (opened : Wal.WAL.openWAL (walMedium checkpointSize) (walIdentity config) defaultSegmentSize
      segments = .ok (wal, live))
    (recovered : RecoveredFrom committed live)
    (captured : ∀ file ∈ files, ∃ index, CapturedAt config committed index file)
    (valid : ∀ file ∈ files, ∃ state, Snapshot.read file = .ok state) :
    Faithful config committed live
        (startUp checkpointSize config peers { segments := segments, snapshots := files }) ↔
      Covered config committed live files ∨ Guarded config committed files := by
  have readable : Snapshot.Readable (snapshotIdentity config) files := by
    intro file present
    rcases valid file present with ⟨state, isRead⟩
    rcases captured file present with ⟨index, capturedAt⟩
    exact ⟨state, isRead, by rw [capturedAt.read_eq isRead]; rfl⟩
  constructor
  · intro faithful
    by_contra neither
    rcases not_or.mp neither with ⟨uncovered, unguarded⟩
    have loadable : files = [] ∨
        ∃ state, Snapshot.Offers (compatibility config live) files state := by
      by_cases empty : files = []
      · exact .inl empty
      · have first : ∃ file ∈ files, CapturedAt config committed 0 file := by
          by_contra none
          exact unguarded ⟨empty, fun file present capturedAt => none ⟨file, present, capturedAt⟩⟩
        rcases first with ⟨file, present, capturedAt⟩
        rcases valid file present with ⟨state, isRead⟩
        exact .inr ⟨state, capturedAt.matchesWAL_zero isRead, file, present, isRead⟩
    rcases Snapshot.loadNewest_eq_ok readable loadable with ⟨loaded, loads, _⟩
    rcases loads_captured captured loads with ⟨restored, stored, within, covers⟩
    apply startUp_uncovered opened recovered (fun start => uncovered (.inl start)) loads _ restored
      faithful
    by_contra nonzero
    rcases stored with ⟨_, nothing⟩ | ⟨file, present, capturedAt⟩
    · rw [nothing] at nonzero
      exact nonzero rfl
    · exact uncovered (.inr ⟨file, present, _, capturedAt, covers nonzero, within⟩)
  · intro condition
    cases loads : Snapshot.loadNewest files (compatibility config live) with
    | error error => exact .inl ⟨_, startUp_refused opened loads⟩
    | ok loaded =>
        apply startUp_covered opened recovered captured _ loads
        rcases condition with covered | ⟨some_, guarded⟩
        · exact covered
        · rcases loads_captured captured loads with ⟨_, stored, within, covers⟩
          rcases stored with ⟨empty, _⟩ | ⟨file, present, capturedAt⟩
          · exact absurd empty some_
          · apply Or.inr
            refine ⟨file, present, _, capturedAt, covers ?_, within⟩
            intro first
            exact guarded file present (first ▸ capturedAt)

end

/-! ## A log that was compacted -/

/-- A session is opened and sets a value, before an entry of the next Leader. -/
def sessionCommands : List LogEntry :=
  [{ index := 1, term := 1, type := .openSession, sessionID := .replicate 16 1 },
    { index := 2, term := 1, type := .set, sessionID := .replicate 16 1, sequence := 1, key := "k",
      value := [7] },
    { index := 3, term := 2, type := .noOp }]

/-- The log after its first entry was compacted, with two entries committed. -/
def compactedRecords : Segment :=
  [.clusterIdentity "cluster", .nodeIdentity "a",
    .checkpoint {
      identity := ⟨"cluster", "a"⟩
      hardState := ⟨2, ""⟩
      commitIndex := 1
      snapshotIndex := 1
      snapshotTerm := 1 }] ++
    (sessionCommands.drop 1).map .logEntry ++ [.commitIndex 2]

def compactedState : Wal.RecoveredState NodeID LogEntry where
  identity := ⟨"cluster", "a"⟩
  hardState := ⟨2, ""⟩
  log := sessionCommands.drop 1
  commitIndex := 2
  snapshotIndex := 1
  snapshotTerm := 1

/-- The Snapshot that the compaction left. -/
def compactionFile : Snapshot.File where
  name := "snapshot"
  contents := some ((stateAfter memberConfig (sessionCommands.take 1)).snapshot
    (snapshotIdentity memberConfig) 1 1)

theorem compactedState_recovered : RecoveredFrom sessionCommands compactedState := by
  constructor
  all_goals decide

theorem compactedState_opened :
    ∃ wal, Wal.WAL.openWAL (walMedium fun _ => 0) (walIdentity memberConfig) defaultSegmentSize
      [compactedRecords] = .ok (wal, compactedState) :=
  ⟨_, rfl⟩

theorem compactionFile_captured : CapturedAt memberConfig sessionCommands 1 compactionFile :=
  ⟨by decide, rfl⟩

/-- With the Snapshot of the compaction, the Node starts with what was committed. -/
theorem startUp_committed_compacted :
    RecoveredFrom sessionCommands compactedState ∧
      Covered memberConfig sessionCommands compactedState [compactionFile] ∧
      ∃ core, startUp (fun _ => 0) memberConfig ["b", "c"]
          { segments := [compactedRecords], snapshots := [compactionFile] } =
        .ok (core, stateAfter memberConfig (sessionCommands.take 2)) := by
  have covered : Covered memberConfig sessionCommands compactedState [compactionFile] :=
    .inr ⟨_, List.mem_singleton_self _, 1, compactionFile_captured, by decide, by decide⟩
  refine ⟨compactedState_recovered, covered, ?_⟩
  rcases compactedState_opened with ⟨wal, opened⟩
  have starts : ∃ result, startUp (fun _ => 0) memberConfig ["b", "c"]
      { segments := [compactedRecords], snapshots := [compactionFile] } = .ok result := ⟨_, rfl⟩
  have faithful : Faithful memberConfig sessionCommands compactedState
      (startUp (fun _ => 0) memberConfig ["b", "c"]
        { segments := [compactedRecords], snapshots := [compactionFile] }) :=
    (startUp_committed opened compactedState_recovered
    (by simpa using ⟨1, compactionFile_captured⟩) (by simpa using ⟨_, rfl⟩)).mpr (.inl covered)
  rcases faithful with ⟨error, refused⟩ | ⟨core, started, _⟩
  · rcases starts with ⟨result, started⟩
    rw [refused] at started
    cases started
  · exact ⟨core, started⟩

/-- Without it, the Node starts all the same: it applies the entries of the log
as if they were the first ones, and the value that was set is lost. -/
theorem startUp_loses_compacted :
    ∃ wal core machine,
      Wal.WAL.openWAL (walMedium fun _ => 0) (walIdentity memberConfig) defaultSegmentSize
          [compactedRecords] = .ok (wal, compactedState) ∧
        RecoveredFrom sessionCommands compactedState ∧
        startUp (fun _ => 0) memberConfig ["b", "c"]
          { segments := [compactedRecords], snapshots := [] } = .ok (core, machine) ∧
        (stateAfter memberConfig (sessionCommands.take 2)).values["k"]? = some [7] ∧
        machine.values["k"]? = none ∧
        ¬ Consecutive LogEntry.index core.logBaseIndex core.log := by
  refine ⟨_, _, _, rfl, compactedState_recovered, rfl, ?_, ?_, ?_⟩
  all_goals decide +kernel

end Ternion.RaftRuntime
