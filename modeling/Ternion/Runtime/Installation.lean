import Ternion.Runtime.Agreement

/-! # Installing a received Snapshot

The loop first moves the log to a complete Snapshot of the Leader and then lets
the core take it. The core keeps its entries above the Snapshot only if its own
entry there has the Snapshot's Term. The log has no such check, so the two agree
when nothing is left above the Snapshot that the core would drop.
-/

namespace Ternion.Raft.Node

theorem installSnapshotBase_hardStateSaved (node : Node) (request : InstallSnapshot) :
    (node.installSnapshotBase request).hardStateSaved =
      node.hardStateSaved.installSnapshotBase request := by
  by_cases matched : request.snapshotIndex ≤ node.lastLogIndex ∧
      node.termAt request.snapshotIndex = request.snapshotTerm
  · have matchedSaved : request.snapshotIndex ≤ node.hardStateSaved.lastLogIndex ∧
        node.hardStateSaved.termAt request.snapshotIndex = request.snapshotTerm := matched
    rw [installSnapshotBase_matched matched rfl, installSnapshotBase_matched matchedSaved rfl]
    rfl
  · have unmatchedSaved : ¬(request.snapshotIndex ≤ node.hardStateSaved.lastLogIndex ∧
        node.hardStateSaved.termAt request.snapshotIndex = request.snapshotTerm) := matched
    rw [installSnapshotBase_unmatched matched, installSnapshotBase_unmatched unmatchedSaved]
    rfl

end Ternion.Raft.Node

namespace Ternion.RaftRuntime

open Raft

/-! ## The core -/

section

variable {core : Node} {request : InstallSnapshot} (reached : core.term ≤ request.term)

include reached

theorem installSnapshotNow_core : (installSnapshotNow core request).core =
      (followNow core request.term request.sender).takeInstallSnapshot request := by
  have saved : ∀ node : Node, (node.takeInstallSnapshot request).hardStateSaved =
      node.hardStateSaved.takeInstallSnapshot request := by
    intro node
    have same : node.hardStateSaved.logBaseIndex = node.logBaseIndex := rfl
    rw [Node.takeInstallSnapshot, Node.takeInstallSnapshot, same]
    split_ifs
    · exact Node.installSnapshotBase_hardStateSaved node request
    · rfl
  rw [installSnapshotNow, if_neg (Nat.not_lt.mpr reached), followNow]
  split_ifs
  · exact saved _
  · rfl

theorem stepNow_installSnapshot (received : request.installed)
    (later : core.logBaseIndex < request.snapshotIndex) :
    (stepNow core (.installSnapshot request)).core =
      (followNow core request.term request.sender).installSnapshotBase request := by
  have base : (followNow core request.term request.sender).logBaseIndex = core.logBaseIndex :=
    congrArg Holdings.logBaseIndex (holdings_followNow core request.term request.sender)
  rw [stepNow, installSnapshotNow_core reached, Node.takeInstallSnapshot,
    if_pos ⟨received, base ▸ later⟩]

end

theorem stepNow_installSnapshot_writes (core : Node) (request : InstallSnapshot) :
    (stepNow core (.installSnapshot request)).writes = reachWrites core request.term := by
  have hardState : ∀ node : Node, (node.takeInstallSnapshot request).term = node.term ∧
      (node.takeInstallSnapshot request).votedFor = node.votedFor := by
    intro node
    rw [Node.takeInstallSnapshot]
    split_ifs
    · rcases node.installSnapshotBase_frame request with ⟨_, _, _, _, _, _, moved⟩
      rw [moved]
      exact ⟨rfl, rfl⟩
    · exact ⟨rfl, rfl⟩
  rw [stepNow, installSnapshotNow, reachWrites]
  split_ifs with stale newer newer
  · omega
  · rfl
  · rw [saveHardState, (hardState _).1, (hardState _).2, Node.acceptLeader_term newer.le,
      Node.acceptLeader_votedFor newer]
  · rfl

/-! ## The log -/

variable {checkpointSize : Wal.CompactionCheckpoint NodeID → Nat}
  {live : Wal.RecoveredState NodeID LogEntry}

/-- No truncation on record removes an index up to the given one. -/
def UntruncatedThrough (wal : Log) (index : Nat) : Prop :=
  Wal.TruncatesAfter index wal.segments.flatten

theorem Keeps.onDisk {wal : Log} {records : List (Wal.Record NodeID LogEntry)}
    (keeps : Keeps checkpointSize wal records live) : wal.segments.flatten = records := by
  rcases keeps.sound.holds.2 with ⟨parts, written, whole⟩
  rw [written, List.map_id'' (Wal.recordMedium_write _), whole]

theorem Recovers.onDisk {wal : Log} (recovers : Recovers checkpointSize wal live) :
    wal.Sound (walMedium checkpointSize) (fun _ => True) wal.segments.flatten live ∧
      Wal.Intact (walFormat checkpointSize) wal.segments.flatten live := by
  rcases recovers with ⟨records, sound, intact⟩
  rw [Keeps.onDisk ⟨sound, intact.valid⟩]
  exact ⟨sound, intact⟩

/-- The checkpoint of an installation. -/
def installPoint (wal : Log) (snapshotIndex snapshotTerm : Nat) : Wal.CompactionCheckpoint NodeID :=
  wal.checkpointAt snapshotIndex snapshotTerm (max wal.commitIndex snapshotIndex)

def installRecord (wal : Log) (snapshotIndex snapshotTerm : Nat) : Wal.Record NodeID LogEntry :=
  .checkpoint (installPoint wal snapshotIndex snapshotTerm)

/-- The records of the segments that a Snapshot does not cover. -/
def uncovered (checkpointSize : Wal.CompactionCheckpoint NodeID → Nat) (snapshotIndex : Nat)
    (segments : List Segment) : Segment :=
  (segments.filter fun segment =>
    !segment.all ((walFormat checkpointSize).coveredBySnapshot snapshotIndex)).flatten

/-- The records that an installation leaves. The segment that takes the
checkpoint always stays. -/
def staying (checkpointSize : Wal.CompactionCheckpoint NodeID → Nat) (wal : Log)
    (snapshotIndex snapshotTerm : Nat) : Segment :=
  if wal.Rolls (walMedium checkpointSize) (installRecord wal snapshotIndex snapshotTerm) then
    uncovered checkpointSize snapshotIndex wal.segments
  else uncovered checkpointSize snapshotIndex wal.older ++ wal.active

theorem removeCovered_records (snapshotIndex : Nat) (segments : List Segment) :
    Wal.WAL.removeCovered (walMedium checkpointSize) snapshotIndex segments =
      .ok (segments.filter fun segment =>
        !segment.all ((walFormat checkpointSize).coveredBySnapshot snapshotIndex)) := by
  induction segments with
  | nil => rfl
  | cons segment segments induction =>
      have judged : (walMedium checkpointSize).segmentCoveredBySnapshot snapshotIndex segment =
        .ok (segment.all ((walFormat checkpointSize).coveredBySnapshot snapshotIndex)) := rfl
      rw [Wal.WAL.removeCovered, judged, induction, List.filter_cons]
      cases segment.all ((walFormat checkpointSize).coveredBySnapshot snapshotIndex) <;> rfl

theorem installSnapshot_staying {wal after : Log} {snapshotIndex snapshotTerm : Nat}
    (moved : wal.installSnapshot (walMedium checkpointSize) snapshotIndex snapshotTerm =
      .ok after) :
    after.segments.flatten = staying checkpointSize wal snapshotIndex snapshotTerm ++
      [installRecord wal snapshotIndex snapshotTerm] := by
  rw [Wal.WAL.installSnapshot] at moved
  split_ifs at moved
  rcases Fallible.bind_eq_ok.mp moved with ⟨installed, checkpointed, same⟩
  rcases Fallible.bind_eq_ok.mp checkpointed with ⟨saved, isSaved, removing⟩
  rcases Fallible.bind_eq_ok.mp isSaved with ⟨appended, isAppended, marked⟩
  rw [removeCovered_records] at removing
  rw [Wal.WAL.appendRecord] at isAppended
  split_ifs at isAppended with large rolls
  all_goals
    cases isAppended
    cases marked
    cases removing
    cases same
    simp only [Wal.WAL.segments, Wal.WAL.createSegment, List.flatten_append,
      List.flatten_singleton]
  · have isRoll : wal.Rolls (walMedium checkpointSize)
        (installRecord wal snapshotIndex snapshotTerm) := rolls
    rw [staying, if_pos isRoll]
    rfl
  · have isRoll : ¬wal.Rolls (walMedium checkpointSize)
        (installRecord wal snapshotIndex snapshotTerm) := rolls
    rw [staying, if_neg isRoll, List.append_assoc]
    rfl

/-- The log does not refuse the position. -/
structure CanMove (checkpointSize : Wal.CompactionCheckpoint NodeID → Nat) (wal : Log)
    (snapshotIndex snapshotTerm : Nat) : Prop where
  someIndex : snapshotIndex ≠ 0
  someTerm : snapshotTerm ≠ 0
  later : wal.snapshotIndex ≤ snapshotIndex
  small : (installRecord wal snapshotIndex snapshotTerm).Small (walFormat checkpointSize)

/-- What the log knows after an installation, whether or not it can be opened. -/
structure Installs (checkpointSize : Wal.CompactionCheckpoint NodeID → Nat)
    (live : Wal.RecoveredState NodeID LogEntry) (wal after : Log)
    (snapshotIndex snapshotTerm : Nat) : Prop where
  moved : wal.installSnapshot (walMedium checkpointSize) snapshotIndex snapshotTerm = .ok after
  trimmed : Wal.Trimmed (walFormat checkpointSize) snapshotIndex wal.segments.flatten
    (staying checkpointSize wal snapshotIndex snapshotTerm)
  advances : Wal.Advances live (installPoint wal snapshotIndex snapshotTerm)
  positioned : (installRecord wal snapshotIndex snapshotTerm).Positioned
  result : Wal.Advances.result (walFormat checkpointSize) live
    (installPoint wal snapshotIndex snapshotTerm) = installed live snapshotIndex snapshotTerm
  keeps : Keeps checkpointSize after (staying checkpointSize wal snapshotIndex snapshotTerm ++
    [installRecord wal snapshotIndex snapshotTerm]) (installed live snapshotIndex snapshotTerm)

theorem Recovers.installs {wal : Log} (recovers : Recovers checkpointSize wal live)
    {snapshotIndex snapshotTerm : Nat}
    (canMove : CanMove checkpointSize wal snapshotIndex snapshotTerm) :
    ∃ after, Installs checkpointSize live wal after snapshotIndex snapshotTerm := by
  rcases recovers.onDisk with ⟨sound, intact⟩
  have lawful := Wal.recordMedium_lawful (walFormat checkpointSize)
  have later := sound.mirrors.snapshotIndex ▸ canMove.later
  rcases sound.installs lawful later canMove.someIndex canMove.someTerm canMove.small with
    ⟨after, moved⟩
  have called : wal.call (walMedium checkpointSize) (.installSnapshot snapshotIndex snapshotTerm) =
    .ok after := moved
  rcases sound.compacts lawful intact.valid (fun _ _ => trivial) rfl later called with
    ⟨left, saved, trimmed, _, _, advances, positioned, result, soundAfter⟩
  have keeps : Keeps checkpointSize after (left ++ [.checkpoint saved])
      (installed live snapshotIndex snapshotTerm) :=
    ⟨soundAfter, installed_valid intact.valid snapshotTerm later⟩
  have same := keeps.onDisk.symm.trans (installSnapshot_staying moved)
  rcases List.append_inj' same rfl with ⟨isLeft, isSaved⟩
  cases isLeft
  cases isSaved
  exact ⟨after, moved, trimmed, advances, positioned canMove.someTerm, result, keeps⟩

/-! ## Opening a directory with Snapshots -/

section Opening

variable {config : Config} {peers : List NodeID} {wal : Log} {segments : List Segment}
  {files : List Snapshot.File}

theorem openRaftRuntime_eq {loaded : Option Snapshot.State}
    (opened : Wal.WAL.openWAL (walMedium checkpointSize) (walIdentity config) defaultSegmentSize
      segments = .ok (wal, live))
    (loads : Snapshot.loadNewest files (compatibility config live) = .ok loaded) :
    openRaftRuntime checkpointSize config peers { segments := segments, snapshots := files } =
      .ok {
        core := .newNodeFromRecoveredState config.nodeID peers (recoveredCore live loaded)
        wal := wal
        recoveredSnapshot := loaded } := by
  rw [openRaftRuntime, openLog_whole, opened]
  change (Snapshot.loadNewest files (compatibility config live)).mapError
    OpenError.snapshot >>= _ = _
  rw [loads]
  rfl

/-- The core starts from what the log recovered and the Snapshot that was loaded. -/
structure StartsFrom (config : Config) (peers : List NodeID)
    (recovered : Wal.RecoveredState NodeID LogEntry) (loaded : Option Snapshot.State)
    (runtime : Runtime) : Prop where
  core : runtime.core =
    .newNodeFromRecoveredState config.nodeID peers (recoveredCore recovered loaded)
  snapshot : runtime.recoveredSnapshot = loaded

theorem openRaftRuntime_eq_ok {runtime : Runtime}
    (opened : openRaftRuntime checkpointSize config peers
      { segments := segments, snapshots := files } = .ok runtime) :
    ∃ recovered loaded,
      Wal.WAL.openWAL (walMedium checkpointSize) (walIdentity config) defaultSegmentSize
          segments = .ok (runtime.wal, recovered) ∧
        Snapshot.loadNewest files (compatibility config recovered) = .ok loaded ∧
        StartsFrom config peers recovered loaded runtime := by
  rcases Fallible.bind_eq_ok.mp opened with ⟨⟨wal, recovered⟩, isOpened, rest⟩
  rcases Fallible.bind_eq_ok.mp rest with ⟨loaded, loads, same⟩
  cases same
  exact ⟨recovered, loaded, Fallible.mapError_eq_ok.mp isOpened, Fallible.mapError_eq_ok.mp loads,
    rfl, rfl⟩

section

variable {state : Snapshot.State}
  (compatible : Snapshot.matchesWAL state (compatibility config live) = true)

include compatible

theorem committed_of_matchesWAL :
    state.includedIndex ≤ live.commitIndex := by
  rw [Snapshot.matchesWAL] at compatible
  split_ifs at compatible with uncommitted
  all_goals exact Nat.le_of_not_lt uncommitted

/-- No position before the checkpoint is in the history that the log knows. -/
theorem covers_of_matchesWAL
    (someIndex : state.includedIndex ≠ 0) : live.snapshotIndex ≤ state.includedIndex := by
  have start : (compatibility config live).logStartIndex = live.snapshotIndex + 1 := rfl
  have checkpoint : (compatibility config live).snapshotIndex = live.snapshotIndex := rfl
  by_contra earlier
  simp only [Snapshot.matchesWAL, start, checkpoint] at compatible
  have unequal : state.includedIndex ≠ live.snapshotIndex := by omega
  have before : state.includedIndex < live.snapshotIndex + 1 := by omega
  simp [someIndex, unequal, before] at compatible

end

theorem matchesWAL_checkpoint {state : Snapshot.State}
    (committed : live.snapshotIndex ≤ live.commitIndex) (someIndex : state.includedIndex ≠ 0)
    (index : state.includedIndex = live.snapshotIndex)
    (term : state.includedTerm = live.snapshotTerm) :
    Snapshot.matchesWAL state (compatibility config live) = true := by
  have within : ¬(compatibility config live).commitIndex < state.includedIndex := by
    rw [index]
    exact Nat.not_lt.mpr committed
  have atCheckpoint : state.includedIndex = (compatibility config live).snapshotIndex := index
  rw [Snapshot.matchesWAL, if_neg within, if_neg someIndex, if_pos atCheckpoint, beq_iff_eq]
  exact term

theorem opens_loaded (identified : live.identity = walIdentity config)
    (recovers : Recovers checkpointSize wal live)
    (readable : Snapshot.Readable (snapshotIdentity config) files) {state : Snapshot.State}
    (offered : Snapshot.Offers (compatibility config live) files state) :
    ∃ (reopened : Runtime) (loaded : Snapshot.State),
      openRaftRuntime checkpointSize config peers
          { segments := wal.segments, snapshots := files } = .ok reopened ∧
        reopened.core = .newNodeFromRecoveredState config.nodeID peers
          (startingAt live loaded.includedIndex loaded.includedTerm) ∧
        state.includedIndex ≤ loaded.includedIndex ∧ loaded.includedIndex ≤ live.commitIndex := by
  rcases recovers with ⟨records, sound, intact⟩
  have roomy : Wal.segmentHeaderSize + Wal.frameHeaderSize < defaultSegmentSize := by decide
  rcases sound.reopens intact (Wal.recordMedium_lawful _) roomy with ⟨reopened, opened, _⟩
  rw [identified] at opened
  rcases Snapshot.loadNewest_eq_ok readable (.inr ⟨state, offered⟩) with ⟨newest, loads, isNewest⟩
  rcases isNewest.latest state offered with ⟨loaded, isLoaded, later⟩
  rw [Option.mem_def.mp isLoaded] at loads isNewest
  have committed := committed_of_matchesWAL (isNewest.offered loaded rfl).1
  refine ⟨_, loaded, openRaftRuntime_eq opened loads, ?_, later, committed⟩
  rw [recoveredCore_some intact.valid]

end Opening

/-! ## Core and log after the installation -/

/-- The loop moves the log to a received Snapshot, and then lets the core take
it. -/
def Runtime.install (checkpointSize : Wal.CompactionCheckpoint NodeID → Nat) (budget : Nat)
    (runtime : Runtime) (request : InstallSnapshot) :
    Option (Except Wal.Error (Runtime × List Action)) :=
  match runtime.wal.installSnapshot (walMedium checkpointSize) request.snapshotIndex
      request.snapshotTerm with
  | .error error => some (.error error)
  | .ok wal =>
      Runtime.step checkpointSize budget { runtime with wal := wal } (.installSnapshot request)

/-- What the log stands for once the core has taken a request. -/
def settled (live : Wal.RecoveredState NodeID LogEntry) (core : Node) (request : InstallSnapshot) :
    Wal.RecoveredState NodeID LogEntry :=
  { installed live request.snapshotIndex request.snapshotTerm with
    hardState := reachedHardState core request.term }

theorem Runtime.installs {runtime : Runtime} {request : InstallSnapshot}
    (recovers : Recovers checkpointSize runtime.wal live) (agrees : Agrees live runtime.core)
    (later : runtime.core.logBaseIndex < request.snapshotIndex)
    (someTerm : request.snapshotTerm ≠ 0)
    (small : (installRecord runtime.wal request.snapshotIndex request.snapshotTerm).Small
      (walFormat checkpointSize)) :
    ∃ wal, Installs checkpointSize live runtime.wal wal request.snapshotIndex
        request.snapshotTerm ∧
      ∃ budget more, Wal.Appends (walFormat checkpointSize)
          (installed live request.snapshotIndex request.snapshotTerm) more
          (settled live runtime.core request) ∧
        ∀ larger, budget ≤ larger → ∃ after emitted,
          runtime.install checkpointSize larger request = some (.ok (after, emitted)) ∧
            after.core = (stepNow runtime.core (.installSnapshot request)).core ∧
            Keeps checkpointSize after.wal
              (staying checkpointSize runtime.wal request.snapshotIndex request.snapshotTerm ++
                [installRecord runtime.wal request.snapshotIndex request.snapshotTerm] ++ more)
              (settled live runtime.core request) := by
  have canMove : CanMove checkpointSize runtime.wal request.snapshotIndex request.snapshotTerm := {
    someIndex := Nat.ne_of_gt (Nat.zero_lt_of_lt later)
    someTerm := someTerm
    later := by
      rw [recovers.onDisk.1.mirrors.snapshotIndex]
      exact agrees.covered.trans later.le
    small := small }
  rcases recovers.installs canMove with ⟨wal, installs⟩
  have stored : (installed live request.snapshotIndex request.snapshotTerm).hardState =
      ⟨runtime.core.term, runtime.core.votedFor⟩ := agrees.storedHardState
  have reaches : Wal.Appends (walFormat checkpointSize)
      (installed live request.snapshotIndex request.snapshotTerm)
      ((reachWrites runtime.core request.term).map Write.record)
      (settled live runtime.core request) := reachWrites_appends stored request.term
  have allowed : ∀ write ∈ reachWrites runtime.core request.term, Allowed runtime.core write :=
    .reaches request.term
  rw [← stepNow_installSnapshot_writes] at reaches allowed
  rcases recovers with ⟨_, _, intact⟩
  let moving : Runtime := { runtime with wal := wal }
  have durable : moving.core.Durable := agrees.toDurable
  have placed : moving.core.journal.Placed := agrees.placed intact.valid
  have sane : moving.core.sane (.installSnapshot request) := rfl
  have keeps : Keeps checkpointSize moving.wal
      (staying checkpointSize runtime.wal request.snapshotIndex request.snapshotTerm ++
        [installRecord runtime.wal request.snapshotIndex request.snapshotTerm])
      (installed live request.snapshotIndex request.snapshotTerm) :=
    installs.keeps
  rcases Runtime.steps durable placed sane keeps allowed reaches with ⟨budget, more, appends, ends⟩
  refine ⟨wal, installs, budget, more, appends, fun larger enough => ?_⟩
  rcases ends larger enough with ⟨after, stepped, isCore, keepsAfter⟩
  refine ⟨after, (stepNow runtime.core (.installSnapshot request)).emitted, ?_, isCore, keepsAfter⟩
  rw [Runtime.install, installs.moved]
  exact stepped

/-- After the installation the log ends where the core's does, the next entries
that the core takes are not refused, and a restart recovers the core's log above
the Snapshot from which it starts. -/
def Runtime.InstallsInAgreement (checkpointSize : Wal.CompactionCheckpoint NodeID → Nat)
    (config : Config) (peers : List NodeID) (files : List Snapshot.File) (runtime : Runtime)
    (request : InstallSnapshot) : Prop :=
  ∃ budget, ∀ larger, budget ≤ larger → ∃ after emitted,
    runtime.install checkpointSize larger request = some (.ok (after, emitted)) ∧
      after.wal.lastLogIndex = after.core.lastLogIndex ∧
      after.wal.commitIndex = after.core.commitIndex ∧
      (∀ next, after.core.sane (.appendEntries next) →
        (∀ entry ∈ next.entries, fitsEntry entry.key entry.value) →
        ∃ budget, ∀ larger, budget ≤ larger → ∃ reached actions,
          after.step checkpointSize larger (.appendEntries next) = some (.ok (reached, actions))) ∧
      ∃ reopened, openRaftRuntime checkpointSize config peers
          { segments := after.wal.segments, snapshots := files } = .ok reopened ∧
        request.snapshotIndex ≤ reopened.core.logBaseIndex ∧
        reopened.core.lastLogIndex = after.core.lastLogIndex ∧
        reopened.core.log = after.core.log.filter fun entry =>
          reopened.core.logBaseIndex < entry.index

/-- The core's log leads to the Snapshot or ends before it, or the request is
stale and the core has committed what the Snapshot includes. No truncation that
stays on record removes what is committed. -/
structure Runtime.Installable (checkpointSize : Wal.CompactionCheckpoint NodeID → Nat)
    (runtime : Runtime) (request : InstallSnapshot) : Prop where
  leads : runtime.core.term ≤ request.term ∧
      (runtime.core.lastLogIndex ≤ request.snapshotIndex ∨
        runtime.core.termAt request.snapshotIndex = request.snapshotTerm) ∨
    request.term < runtime.core.term ∧ request.snapshotIndex ≤ runtime.core.commitIndex
  untruncated : Wal.TruncatesAfter (max runtime.wal.commitIndex request.snapshotIndex)
    (staying checkpointSize runtime.wal request.snapshotIndex request.snapshotTerm)

/-- A truncation on record that the Snapshot covers was made when the log ended
at or below the Snapshot. -/
def Runtime.CutsBelow (checkpointSize : Wal.CompactionCheckpoint NodeID → Nat)
    (runtime : Runtime) (request : InstallSnapshot) : Prop :=
  ∀ checkpoint, (walFormat checkpointSize).newestCompactionCheckpoint
      runtime.wal.segments.flatten = .ok checkpoint →
    Wal.FindNothingAbove (walFormat checkpointSize) request.snapshotIndex (.ofCheckpoint checkpoint)
      runtime.wal.segments.flatten

section Agreement

variable {config : Config} {peers : List NodeID} {files : List Snapshot.File} {runtime : Runtime}
  {request : InstallSnapshot}

theorem settled_lastIndex (agrees : Agrees live runtime.core)
    (valid : live.Valid (walFormat checkpointSize))
    (later : runtime.core.logBaseIndex < request.snapshotIndex) :
    (settled live runtime.core request).lastIndex = max live.lastIndex request.snapshotIndex := by
  have ends : (installed live request.snapshotIndex request.snapshotTerm).lastIndex = _ :=
    installed_lastIndex valid (agrees.covered.trans later.le)
  exact ends

theorem stepNow_stale {core : Node} (stale : request.term < core.term) :
    (stepNow core (.installSnapshot request)).core = core := by
  rw [stepNow, installSnapshotNow, if_pos stale]

section

variable (agrees : Agrees live runtime.core) (valid : live.Valid (walFormat checkpointSize))
  (received : request.installed) (later : runtime.core.logBaseIndex < request.snapshotIndex)

include agrees valid received later

/-- The log stands where the core does after the installation, and holds its
entries above the Snapshot. -/
theorem Runtime.Installable.aligned (installable : runtime.Installable checkpointSize request) :
    Aligned (settled live runtime.core request)
        (stepNow runtime.core (.installSnapshot request)).core ∧
      (stepNow runtime.core (.installSnapshot request)).core.journal.Placed ∧
      ∀ index, request.snapshotIndex ≤ index →
        ((stepNow runtime.core (.installSnapshot request)).core.log.filter
            fun entry => index < entry.index) =
          (installed live request.snapshotIndex request.snapshotTerm).log.filter
            fun entry => index < entry.index := by
  rcases installable.leads with ⟨current, leads⟩ | ⟨stale, committed⟩
  · have holds := holdings_followNow runtime.core request.term request.sender
    have base := congrArg Holdings.logBaseIndex holds
    have last := congrArg Holdings.lastLogIndex holds
    simp only [holdings] at base last
    have sameTerm : (followNow runtime.core request.term request.sender).termAt
        request.snapshotIndex = runtime.core.termAt request.snapshotIndex :=
      termAt_of_holdings holds _
    have validFollowing := (reachWrites_appends agrees.storedHardState request.term).valid valid
    have agreesAfter := (agrees.follow request.sender current).installs validFollowing
      (base ▸ later) (by rw [last, sameTerm]; exact leads)
    rw [stepNow_installSnapshot current received later]
    refine ⟨agreesAfter.toAligned, agreesAfter.placed (installed_valid validFollowing _ ?_), ?_⟩
    · exact agrees.covered.trans later.le
    · intro index above
      rcases (followNow runtime.core request.term request.sender).installSnapshotBase_frame
        request with ⟨_, _, _, _, _, _, frame⟩
      have baseNow : ((followNow runtime.core request.term request.sender).installSnapshotBase
          request).logBaseIndex = request.snapshotIndex := by rw [frame]
      rw [agreesAfter.storedLog, baseNow]
      exact filter_gt_filter_gt LogEntry.index above _
  · have known := valid.known
    have commit := agrees.storedCommit
    rw [← commit] at committed
    have ends : (settled live runtime.core request).lastIndex = live.lastIndex :=
      (settled_lastIndex agrees valid later).trans (Nat.max_eq_left (committed.trans known))
    rw [stepNow_stale stale]
    constructor
    · exact {
        toDurable := agrees.toDurable
        durableHardState := agrees.durableHardState
        storedHardState := if_neg (Nat.not_lt.mpr stale.le)
        storedCommit := (Nat.max_eq_left committed).trans commit
        storedLast := ends.trans agrees.storedLast }
    · refine ⟨agrees.placed valid, fun index above => ?_⟩
      rw [agrees.storedLog, filter_gt_filter_gt LogEntry.index (later.le.trans above)]
      exact (filter_gt_filter_gt LogEntry.index above _).symm

/-- Core and log end and commit at the same positions only if the core keeps what
the log does. -/
theorem leads_of_positions (last : (settled live runtime.core request).lastIndex =
      (stepNow runtime.core (.installSnapshot request)).core.lastLogIndex)
    (commit : (settled live runtime.core request).commitIndex =
      (stepNow runtime.core (.installSnapshot request)).core.commitIndex) :
    runtime.core.term ≤ request.term ∧
        (runtime.core.lastLogIndex ≤ request.snapshotIndex ∨
          runtime.core.termAt request.snapshotIndex = request.snapshotTerm) ∨
      request.term < runtime.core.term ∧ request.snapshotIndex ≤ runtime.core.commitIndex := by
  rcases Nat.lt_or_ge request.term runtime.core.term with stale | current
  · rw [stepNow_stale stale] at commit
    exact .inr ⟨stale, (Nat.le_max_right ..).trans commit.le⟩
  · refine .inl ⟨current, ?_⟩
    by_contra parted
    rw [not_or, Nat.not_le] at parted
    have holds := holdings_followNow runtime.core request.term request.sender
    have unmatched : ¬(request.snapshotIndex ≤
          (followNow runtime.core request.term request.sender).lastLogIndex ∧
        (followNow runtime.core request.term request.sender).termAt request.snapshotIndex =
          request.snapshotTerm) := by
      rw [termAt_of_holdings holds]
      exact fun matched => parted.2 matched.2
    rw [settled_lastIndex agrees valid later, stepNow_installSnapshot current received later,
      Node.installSnapshotBase_unmatched unmatched, agrees.storedLast] at last
    exact Nat.not_le_of_lt parted.1 ((Nat.le_max_left ..).trans last.le)

end

/-- A directory that opens has records that recover something. -/
theorem recovers_of_opened {segments : List Segment} {reopened : Runtime}
    (someSegment : segments ≠ [])
    (opened : openRaftRuntime checkpointSize config peers
      { segments := segments, snapshots := files } = .ok reopened) :
    ∃ state, (walFormat checkpointSize).recoverRecords segments.flatten = .ok state := by
  rcases openRaftRuntime_eq_ok opened with ⟨recovered, _, isOpened, _⟩
  rw [Wal.WAL.openWAL] at isOpened
  split_ifs at isOpened
  rcases Fallible.bind_eq_ok.mp isOpened with ⟨⟨_, state⟩, recovering, _⟩
  rcases Fallible.bind_eq_ok.mp recovering with ⟨found, isFound, _⟩
  exact ⟨found, isFound⟩

/-- The installation keeps core and log in agreement only if it is installable,
and does so if the truncations that it takes away were made below the Snapshot. -/
theorem installed_in_agreement (peers : List NodeID)
    (identified : live.identity = walIdentity config)
    (recovers : Recovers checkpointSize runtime.wal live) (agrees : Agrees live runtime.core)
    (received : request.installed) (later : runtime.core.logBaseIndex < request.snapshotIndex)
    (someTerm : request.snapshotTerm ≠ 0)
    (small : (installRecord runtime.wal request.snapshotIndex request.snapshotTerm).Small
      (walFormat checkpointSize))
    (readable : Snapshot.Readable (snapshotIdentity config) files)
    (stored : ∃ file ∈ files, ∃ state, Snapshot.read file = .ok state ∧
      state.includedIndex = request.snapshotIndex ∧
      state.includedTerm = request.snapshotTerm) :
    (runtime.InstallsInAgreement checkpointSize config peers files request →
      runtime.Installable checkpointSize request) ∧
    (runtime.Installable checkpointSize request → runtime.CutsBelow checkpointSize request →
      runtime.InstallsInAgreement checkpointSize config peers files request) := by
  rcases Runtime.installs recovers agrees later someTerm small with
    ⟨wal, installs, budget, more, appends, ends⟩
  rcases recovers.onDisk with ⟨_, intact⟩
  have valid : live.Valid (walFormat checkpointSize) := intact.valid
  constructor
  · rintro ⟨other, agreement⟩
    rcases agreement (max budget other) (Nat.le_max_right ..) with
      ⟨after, emitted, installed, last, commit, _, reopened, opened, _⟩
    rcases ends (max budget other) (Nat.le_max_left ..) with ⟨_, _, same, isCore, keeps⟩
    cases same.symm.trans installed
    rw [keeps.sound.mirrors.lastLogIndex, isCore] at last
    rw [keeps.sound.mirrors.commitIndex, isCore] at commit
    refine ⟨leads_of_positions agrees valid received later last commit, ?_⟩
    have someSegment : after.wal.segments ≠ [] := List.append_ne_nil_of_right_ne_nil _ (by simp)
    rcases recovers_of_opened someSegment opened with ⟨state, recovered⟩
    rw [keeps.onDisk, List.append_assoc] at recovered
    rw [← installs.result] at appends
    exact Wal.truncatesAfter_of_recovers (fun record present =>
      intact.within record (installs.trimmed.subset record present)) valid installs.advances appends
      recovered
  · intro installable cutsBelow
    rcases installable.aligned agrees valid received later with ⟨aligned, placed, sameLog⟩
    have checkpointed := intact.checkpoint_kept installs.advances installs.positioned
      installs.trimmed installable.untruncated cutsBelow
    rw [installs.result] at checkpointed
    have settles := checkpointed.appends appends
    have final : (settled live runtime.core request).Valid (walFormat checkpointSize) :=
      settles.valid
    refine ⟨budget, fun larger enough => ?_⟩
    rcases ends larger enough with ⟨after, emitted, installed, isCore, keeps⟩
    rw [← isCore] at aligned placed sameLog
    refine ⟨after, emitted, installed, ?_, ?_, fun next sane fits => ?_, ?_⟩
    · exact keeps.sound.mirrors.lastLogIndex.trans aligned.storedLast
    · exact keeps.sound.mirrors.commitIndex.trans aligned.storedCommit
    · have consecutive : Consecutive LogEntry.index next.prevLogIndex next.entries :=
        of_decide_eq_true sane
      rcases aligned.appendEntries final consecutive with ⟨extended, taken⟩
      rcases Runtime.steps aligned.toDurable placed sane keeps (appendEntriesNow_allowed fits)
        taken with ⟨enough, _, _, nextEnds⟩
      refine ⟨enough, fun larger suffices_ => ?_⟩
      rcases nextEnds larger suffices_ with ⟨reached, stepped, _⟩
      exact ⟨reached, _, stepped⟩
    · rcases stored with ⟨file, present, state, isRead, sameIndex, sameTerm⟩
      have someIndex : state.includedIndex ≠ 0 := by
        rw [sameIndex]
        exact Nat.ne_of_gt (Nat.zero_lt_of_lt later)
      have offered : Snapshot.Offers (compatibility config (settled live runtime.core request))
          files state :=
        ⟨matchesWAL_checkpoint final.committed someIndex sameIndex sameTerm, file, present, isRead⟩
      have recoversAfter : Recovers checkpointSize after.wal (settled live runtime.core request) :=
        ⟨_, keeps.sound, settles⟩
      have named : (settled live runtime.core request).identity = walIdentity config := identified
      rcases opens_loaded named recoversAfter readable offered with
        ⟨reopened, loaded, opened, startsAt, newer, committed⟩
      have from_ : request.snapshotIndex ≤ loaded.includedIndex := sameIndex ▸ newer
      rcases filter_above final from_ (committed.trans final.known) with ⟨consecutive, reaches⟩
      rw [Node.newNode_consecutive consecutive] at startsAt
      refine ⟨reopened, opened, ?_, ?_, ?_⟩
      · rw [startsAt]
        exact from_
      · rw [startsAt]
        exact reaches.symm.trans aligned.storedLast
      · rw [startsAt]
        exact (sameLog loaded.includedIndex from_).symm

end Agreement

/-! ## A Follower with three entries -/

def entryAt (index term : Nat) : LogEntry where
  index := index
  term := term
  type := .noOp

/-- The first Leader replicates three entries, of which one is committed. -/
def threeEntries : AppendEntries where
  sender := "b"
  term := 1
  requestID := 1
  prevLogIndex := 0
  prevLogTerm := 0
  entries := [entryAt 1 1, entryAt 2 1, entryAt 3 1]
  leaderCommit := 1
  readID := 0

/-- The last chunk of a Snapshot through the second entry. -/
def receivedSnapshot (sender : NodeID) (term snapshotTerm : Nat) : InstallSnapshot where
  sender := sender
  term := term
  requestID := 1
  snapshotIndex := 2
  snapshotTerm := snapshotTerm
  length := 0
  checksum := 0
  offset := 0
  data := []
  done := true
  success := true
  installed := true

instance (wal : Log) (index : Nat) : Decidable (UntruncatedThrough wal index) :=
  inferInstanceAs (Decidable (Wal.TruncatesAfter index wal.segments.flatten))

/-- A new Node that took the three entries. -/
structure TookThree (opened runtime : Runtime) (emitted : List Action) : Prop where
  starts : openRaftRuntime (fun _ => 0) memberConfig ["b", "c"] {} = .ok opened
  permitted : opened.permits (.event (.appendEntries threeEntries)) = true
  stepped : Runtime.step (fun _ => 0) 20 opened (.appendEntries threeEntries) =
    some (.ok (runtime, emitted))

theorem TookThree.agrees {opened runtime : Runtime} {emitted : List Action}
    (took : TookThree opened runtime emitted) :
    ∃ live, Recovers (fun _ => 0) runtime.wal live ∧
      live.identity = walIdentity memberConfig ∧ Agrees live runtime.core := by
  have reached : (runtimeSystem (fun _ => 0) memberConfig ["b", "c"]).Reachable
      (fun runtime input => runtime.permits input) runtime :=
    .step (.initial took.starts) took.permitted ⟨20, emitted, took.stepped⟩
  rcases Agree.reachable reached with ⟨store, inStep, recovers⟩
  exact ⟨store.live (walIdentity memberConfig), recovers, rfl, inStep.agrees⟩

/-- A Snapshot of the first Leader's Term. -/
def receivedState (index : Nat) : Snapshot.State where
  identity := snapshotIdentity memberConfig
  includedIndex := index
  includedTerm := 1
  values := ∅
  sessions := []

def receivedFile (index : Nat) : Snapshot.File where
  name := "snapshot"
  contents := some (receivedState index)

/-- The Follower's second entry has the Snapshot's Term. -/
theorem installed_in_agreement_matching :
    ∃ runtime : Runtime, runtime.core.role = .follower ∧
      runtime.core.log = threeEntries.entries ∧
      runtime.Installable (fun _ => 0) (receivedSnapshot "b" 1 1) ∧
      runtime.InstallsInAgreement (fun _ => 0) memberConfig ["b", "c"] [receivedFile 2]
        (receivedSnapshot "b" 1 1) := by
  have run : ∃ opened runtime emitted,
      TookThree opened runtime emitted ∧
        runtime.core.role = .follower ∧ runtime.core.log = threeEntries.entries ∧
        runtime.core.term = 1 ∧ runtime.core.logBaseIndex = 0 ∧ runtime.core.termAt 2 = 1 ∧
        decide (UntruncatedThrough runtime.wal 2) = true ∧
        decide (Wal.TruncatesAfter (max runtime.wal.commitIndex 2)
          (staying (fun _ => 0) runtime.wal 2 1)) = true :=
    ⟨_, _, _, ⟨rfl, rfl, rfl⟩, rfl, rfl, rfl, rfl, rfl, rfl, rfl⟩
  rcases run with
    ⟨opened, runtime, emitted, took, role, log, term, base, termAt, untruncated, stays⟩
  rcases took.agrees with ⟨live, recovers, identified, agrees⟩
  have installable : runtime.Installable (fun _ => 0) (receivedSnapshot "b" 1 1) :=
    ⟨.inl ⟨Nat.le_of_eq term, .inr termAt⟩, of_decide_eq_true stays⟩
  have later : runtime.core.logBaseIndex < (receivedSnapshot "b" 1 1).snapshotIndex :=
    base ▸ Nat.zero_lt_two
  have small : (installRecord runtime.wal 2 1).Small (walFormat fun _ => 0) :=
    Nat.le_of_ble_eq_true rfl
  have isRead : Snapshot.read (receivedFile 2) = .ok (receivedState 2) := rfl
  have agreement := installed_in_agreement ["b", "c"] identified recovers agrees rfl later
    Nat.one_ne_zero small (List.forall_mem_singleton.mpr ⟨_, isRead, rfl⟩)
    ⟨_, List.mem_singleton_self _, _, isRead, rfl, rfl⟩
  refine ⟨runtime, role, log, installable, agreement.2 installable fun checkpoint _ => ?_⟩
  exact (of_decide_eq_true untruncated).findNothingAbove _

/-- Its second entry has another Term, and a third follows. The core drops it
and the log keeps it, so that the next entry is refused. -/
theorem installed_in_conflict :
    ∃ (runtime : Runtime) (live : Wal.RecoveredState NodeID LogEntry),
      Recovers (fun _ => 0) runtime.wal live ∧
      live.identity = walIdentity memberConfig ∧ Agrees live runtime.core ∧
      runtime.core.role = .follower ∧ runtime.core.commitIndex = 1 ∧
      UntruncatedThrough runtime.wal 2 ∧
      runtime.core.logBaseIndex < (receivedSnapshot "c" 2 2).snapshotIndex ∧
      ∃ after emitted,
        runtime.install (fun _ => 0) 20 (receivedSnapshot "c" 2 2) = some (.ok (after, emitted)) ∧
        after.core.lastLogIndex = 2 ∧ after.wal.lastLogIndex = 3 ∧
        after.step (fun _ => 0) 20 (.appendEntries {
            sender := "c", term := 2, requestID := 2, prevLogIndex := 2, prevLogTerm := 2
            entries := [entryAt 3 2], leaderCommit := 2, readID := 0 }) =
          some (.error (.entryFollows 3 3)) := by
  have run : ∃ opened runtime emitted after actions,
      TookThree opened runtime emitted ∧
        runtime.install (fun _ => 0) 20 (receivedSnapshot "c" 2 2) = some (.ok (after, actions)) ∧
        runtime.core.role = .follower ∧ runtime.core.commitIndex = 1 ∧
        runtime.core.logBaseIndex = 0 ∧
        decide (UntruncatedThrough runtime.wal 2) = true ∧
        after.core.lastLogIndex = 2 ∧ after.wal.lastLogIndex = 3 ∧
        after.step (fun _ => 0) 20 (.appendEntries {
            sender := "c", term := 2, requestID := 2, prevLogIndex := 2, prevLogTerm := 2
            entries := [entryAt 3 2], leaderCommit := 2, readID := 0 }) =
          some (.error (.entryFollows 3 3)) :=
    ⟨_, _, _, _, _, ⟨rfl, rfl, rfl⟩, rfl, rfl, rfl, rfl, rfl, rfl, rfl, rfl⟩
  rcases run with ⟨opened, runtime, emitted, after, actions, took, installed, role,
    commit, base, untruncated, coreLast, walLast, refused⟩
  rcases took.agrees with ⟨live, recovers, identified, agrees⟩
  exact ⟨runtime, live, recovers, identified, agrees, role, commit, of_decide_eq_true untruncated,
    base ▸ Nat.zero_lt_two, after, actions, installed, coreLast, walLast, refused⟩

end Ternion.RaftRuntime
