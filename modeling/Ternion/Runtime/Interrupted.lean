import Ternion.Runtime.Installation

/-! # Crashes during an installation

A received Snapshot is stored as a file before the log moves to it. Start-up
wants a stored Snapshot that the log knows, so the file alone helps only if the
log already knows its position or another Snapshot is there to fall back on. A
log that has to create a segment for its checkpoint cannot be opened until the
segment has its header.
-/

namespace Ternion.RaftRuntime

open Raft

variable {state : Snapshot.State}

/-! ## What a crash leaves -/

def ownSnapshot (config : Config) (state : Snapshot.State) : Snapshot.State :=
  { state with identity := snapshotIdentity config }

/-- The data directory after a crash. Files appear whole, and replay cuts off a
frame that is not, so a record is there or is not. Once all covered segments
are gone the installation is complete. -/
inductive InterruptedInstall (checkpointSize : Wal.CompactionCheckpoint NodeID → Nat)
    (config : Config) (wal : Log) (files : List Snapshot.File) (name : String)
    (state : Snapshot.State) : DataDir → Prop
  | unsaved : InterruptedInstall checkpointSize config wal files name state
      { segments := wal.segments, snapshots := files }
  | saved {stored} : Snapshot.save files name (ownSnapshot config state) = .ok stored →
      InterruptedInstall checkpointSize config wal files name state
        { segments := wal.segments, snapshots := stored }
  | creating {stored} : Snapshot.save files name (ownSnapshot config state) = .ok stored →
      CanMove checkpointSize wal state.includedIndex state.includedTerm →
      wal.Rolls (walMedium checkpointSize)
        (installRecord wal state.includedIndex state.includedTerm) →
      InterruptedInstall checkpointSize config wal files name state
        { segments := wal.segments, snapshots := stored, headless := true }
  | created {stored} : Snapshot.save files name (ownSnapshot config state) = .ok stored →
      CanMove checkpointSize wal state.includedIndex state.includedTerm →
      wal.Rolls (walMedium checkpointSize)
        (installRecord wal state.includedIndex state.includedTerm) →
      InterruptedInstall checkpointSize config wal files name state
        { segments := wal.segments ++ [(walMedium checkpointSize).create], snapshots := stored }
  | deleting {stored examined image} :
      Snapshot.save files name (ownSnapshot config state) = .ok stored →
      CanMove checkpointSize wal state.includedIndex state.includedTerm →
      wal.interruptedSegments (walMedium checkpointSize) state.includedIndex state.includedTerm
        (max wal.commitIndex state.includedIndex) examined = .ok image →
      InterruptedInstall checkpointSize config wal files name state
        { segments := image, snapshots := stored }

section

variable {checkpointSize : Wal.CompactionCheckpoint NodeID → Nat}
  {live : Wal.RecoveredState NodeID LogEntry} {wal : Log} {config : Config} {peers : List NodeID}
  {files : List Snapshot.File} {snapshotIndex snapshotTerm : Nat}

/-! ## What the log recovers -/

theorem Recovers.opened (recovers : Recovers checkpointSize wal live)
    {identity : Wal.Identity NodeID} {reopened : Log}
    {recovered : Wal.RecoveredState NodeID LogEntry}
    (opened : Wal.WAL.openWAL (walMedium checkpointSize) identity defaultSegmentSize wal.segments =
      .ok (reopened, recovered)) : recovered = live ∧ live.identity = identity := by
  rcases recovers with ⟨records, sound, intact⟩
  have someSegment : wal.segments ≠ [] := List.append_ne_nil_of_right_ne_nil _ (by simp)
  exact Wal.WAL.of_opened (Wal.recordMedium_lawful _) sound.holds someSegment intact opened

theorem Recovers.interrupted (recovers : Recovers checkpointSize wal live) {examined : Nat}
    {image : List Segment} (canMove : CanMove checkpointSize wal snapshotIndex snapshotTerm)
    (untruncated : UntruncatedThrough wal (max wal.commitIndex snapshotIndex))
    (left : wal.interruptedSegments (walMedium checkpointSize) snapshotIndex snapshotTerm
      (max wal.commitIndex snapshotIndex) examined = .ok image) :
    ∃ opened, Wal.WAL.openWAL (walMedium checkpointSize) live.identity defaultSegmentSize image =
      .ok (opened, installed live snapshotIndex snapshotTerm) := by
  rcases recovers.onDisk with ⟨sound, intact⟩
  rcases recovers.installs canMove with ⟨_, installs⟩
  have lawful := Wal.recordMedium_lawful (walFormat checkpointSize)
  rcases Wal.WAL.interruptedSegments_holds lawful sound.holds trivial left with
    ⟨remaining, trimmed, leaves⟩
  have checkpointed := intact.checkpoint installs.advances installs.positioned untruncated trimmed
  rw [installs.result] at checkpointed
  have someSegment : image ≠ [] := by
    rcases leaves.2 with ⟨parts, written, whole⟩
    intro empty
    rw [empty] at written
    rw [List.map_eq_nil_iff.mp written.symm] at whole
    simp at whole
  have roomy : Wal.segmentHeaderSize + Wal.frameHeaderSize < defaultSegmentSize := by decide
  exact ⟨_, Wal.WAL.opens lawful leaves someSegment checkpointed rfl roomy⟩

/-- Right after the checkpoint was written, all records are still there. -/
theorem interruptedSegments_first (snapshotTerm : Nat)
    (small : (installRecord wal snapshotIndex snapshotTerm).Small (walFormat checkpointSize))
    (stays : ¬wal.Rolls (walMedium checkpointSize)
      (installRecord wal snapshotIndex snapshotTerm)) :
    wal.interruptedSegments (walMedium checkpointSize) snapshotIndex snapshotTerm
        (max wal.commitIndex snapshotIndex) 0 =
      .ok (wal.older ++ [wal.active ++ [installRecord wal snapshotIndex snapshotTerm]]) := by
  have appended : wal.appendRecord (walMedium checkpointSize)
      (installRecord wal snapshotIndex snapshotTerm) = .ok { wal with
        active := wal.active ++ [installRecord wal snapshotIndex snapshotTerm]
        offset := wal.offset + (Wal.frameHeaderSize +
          (1 + checkpointSize (installPoint wal snapshotIndex snapshotTerm))) } := by
    rw [Wal.WAL.appendRecord]
    split_ifs with large rolls
    · exact absurd small (Nat.not_le_of_lt large)
    · exact absurd rolls stays
    · rfl
  rw [Wal.WAL.interruptedSegments, Wal.WAL.saveCheckpoint]
  change (wal.appendRecord (walMedium checkpointSize)
    (installRecord wal snapshotIndex snapshotTerm) >>= _) >>= _ = _
  rw [appended]
  rfl

/-! ## Which Snapshots the log knows -/

/-- The Terms of the committed history. -/
structure OfHistory (history : Nat → Nat) (live : Wal.RecoveredState NodeID LogEntry) : Prop where
  checkpoint : live.snapshotTerm = history live.snapshotIndex
  log : ∀ entry ∈ live.log, entry.index ≤ live.commitIndex → entry.term = history entry.index

theorem matchesWAL_eq (state : Snapshot.State) :
    Snapshot.matchesWAL state (compatibility config live) =
      if live.commitIndex < state.includedIndex then false
      else if state.includedIndex = 0 then state.includedTerm == 0
      else if state.includedIndex = live.snapshotIndex then state.includedTerm == live.snapshotTerm
      else if state.includedIndex < live.snapshotIndex + 1 then false
      else (live.log.map LogEntry.term)[state.includedIndex - (live.snapshotIndex + 1)]? ==
        some state.includedTerm := by
  rw [Snapshot.matchesWAL]
  simp only [compatibility, Nat.succ_ne_zero, if_false]

/-- Between its checkpoint and its commit index the log knows every position of
the history. -/
theorem OfHistory.matchesWAL {history : Nat → Nat} (ofHistory : OfHistory history live)
    (consecutive : Consecutive LogEntry.index live.snapshotIndex live.log)
    (known : live.commitIndex ≤ live.lastIndex)
    (start : state.includedIndex = 0 → state.includedTerm = 0)
    (taken : state.includedTerm = history state.includedIndex)
    (later : live.snapshotIndex ≤ state.includedIndex)
    (committed : state.includedIndex ≤ live.commitIndex) :
    Snapshot.matchesWAL state (compatibility config live) = true := by
  rw [matchesWAL_eq, if_neg (Nat.not_lt.mpr committed)]
  split_ifs with isStart isCheckpoint before
  · rw [beq_iff_eq]
    exact start isStart
  · rw [beq_iff_eq, taken, isCheckpoint]
    exact ofHistory.checkpoint.symm
  · omega
  · rw [Wal.RecoveredState.lastIndex] at known
    have within : state.includedIndex - (live.snapshotIndex + 1) < live.log.length := by omega
    have found := List.getElem?_eq_getElem within
    have position := consecutive.position_eq found
    have isIndex : (live.log[state.includedIndex - (live.snapshotIndex + 1)]).index =
        state.includedIndex := by omega
    have term := ofHistory.log _ (List.getElem_mem within) (isIndex.le.trans committed)
    rw [List.getElem?_map, found, Option.map_some, term, isIndex, taken, beq_self_eq_true]

theorem matchesWAL_start (index : state.includedIndex = 0) (term : state.includedTerm = 0) :
    Snapshot.matchesWAL state (compatibility config live) = true := by
  simp [Snapshot.matchesWAL, index, term]

/-- The only Snapshot of a directory is loaded only if the log knows its position. -/
theorem known_of_loaded {file : Snapshot.File} {loaded : Option Snapshot.State}
    (loads : Snapshot.loadNewest [file] (compatibility config live) = .ok loaded)
    (isRead : Snapshot.read file = .ok state) (someIndex : state.includedIndex ≠ 0) :
    live.snapshotIndex ≤ state.includedIndex ∧ state.includedIndex ≤ live.commitIndex := by
  rcases Snapshot.loadNewest_newest (Snapshot.loadNewest_readable loads) loads with
    ⟨newest, empty⟩
  cases isLoaded : loaded with
  | none => cases empty isLoaded
  | some best =>
      rcases newest.offered best isLoaded with ⟨compatible, other, present, otherRead⟩
      rw [List.mem_singleton.mp present, isRead] at otherRead
      rw [← Except.ok.inj otherRead] at compatible
      exact ⟨covers_of_matchesWAL compatible someIndex, committed_of_matchesWAL compatible⟩

theorem matchesWAL_installed (valid : live.Valid (walFormat checkpointSize))
    (later : live.snapshotIndex ≤ snapshotIndex) (above : snapshotIndex < state.includedIndex) :
    Snapshot.matchesWAL state (compatibility config (installed live snapshotIndex snapshotTerm)) =
      Snapshot.matchesWAL state (compatibility config live) := by
  have consecutive : Consecutive LogEntry.index live.snapshotIndex live.log := valid.consecutive
  have sameTerm : ((installed live snapshotIndex snapshotTerm).log.map LogEntry.term)[
        state.includedIndex - ((installed live snapshotIndex snapshotTerm).snapshotIndex + 1)]? =
      (live.log.map LogEntry.term)[state.includedIndex - (live.snapshotIndex + 1)]? := by
    simp only [installed]
    rw [consecutive.filter_gt, List.map_drop, List.getElem?_drop]
    congr 1
    omega
  have notStart : ¬state.includedIndex = 0 := by omega
  have notCheckpoint : ¬state.includedIndex =
      (installed live snapshotIndex snapshotTerm).snapshotIndex := Nat.ne_of_gt above
  have notCovered : ¬state.includedIndex <
      (installed live snapshotIndex snapshotTerm).snapshotIndex + 1 := Nat.not_lt.mpr above
  rw [matchesWAL_eq, matchesWAL_eq, if_neg notStart, if_neg notStart, if_neg notCheckpoint,
    if_neg notCovered, sameTerm, if_neg (show ¬state.includedIndex = live.snapshotIndex by omega),
    if_neg (show ¬state.includedIndex < live.snapshotIndex + 1 by omega)]
  apply if_congr
  · simp only [installed]
    omega
  · rfl
  · rfl

/-- A core that starts at or above the Snapshot does not see whether the log has
moved to it. -/
theorem recoveredCore_installed (valid : live.Valid (walFormat checkpointSize))
    (snapshotTerm : Nat) {loaded : Snapshot.State} (above : snapshotIndex ≤ loaded.includedIndex)
    (committed : loaded.includedIndex ≤ live.commitIndex) :
    recoveredCore (installed live snapshotIndex snapshotTerm) (some loaded) =
      recoveredCore live (some loaded) := by
  have consecutive : Consecutive LogEntry.index live.snapshotIndex live.log := valid.consecutive
  have known := valid.known
  rw [Wal.RecoveredState.lastIndex] at known
  have rest := consecutive.drop
    (show snapshotIndex - live.snapshotIndex ≤ live.log.length by omega)
  have sameCommit : max live.commitIndex snapshotIndex = live.commitIndex := by omega
  simp only [recoveredCore, installed, sameCommit]
  rw [consecutive.filter_gt, rest.dropWhile_le, consecutive.dropWhile_le, List.drop_drop]
  congr 2
  omega

/-! ## Opening what a crash left -/

/-- Wherever the installation is interrupted, the next start succeeds, on the
state before it or on the one with the Snapshot installed. -/
def CrashAtomic (checkpointSize : Wal.CompactionCheckpoint NodeID → Nat) (config : Config)
    (peers : List NodeID) (live : Wal.RecoveredState NodeID LogEntry) (wal : Log)
    (files : List Snapshot.File) (before : Runtime) (name : String) (state : Snapshot.State) :
    Prop :=
  ∀ directory, InterruptedInstall checkpointSize config wal files name state directory →
    ∃ after, openRaftRuntime checkpointSize config peers directory = .ok after ∧
      (after.core = before.core ∧ after.recoveredSnapshot = before.recoveredSnapshot ∨
        StartsFrom config peers (installed live state.includedIndex state.includedTerm)
          (some (ownSnapshot config state)) after)

/-- There is a Snapshot to fall back on, or the log knows the received one. If the
log moves, it does so in the segment that it has, and no truncation on record
removes what becomes committed. -/
structure Interruptible (checkpointSize : Wal.CompactionCheckpoint NodeID → Nat) (wal : Log)
    (files : List Snapshot.File) (state : Snapshot.State) : Prop where
  fallback : files ≠ [] ∨ state.includedIndex = 0 ∨
    wal.snapshotIndex ≤ state.includedIndex ∧ state.includedIndex ≤ wal.commitIndex
  moves : CanMove checkpointSize wal state.includedIndex state.includedTerm →
    ¬wal.Rolls (walMedium checkpointSize)
        (installRecord wal state.includedIndex state.includedTerm) ∧
      UntruncatedThrough wal (max wal.commitIndex state.includedIndex)

section Crash

variable {before : Runtime} {contents : Nat → Snapshot.State} {own : Snapshot.State}
  {loaded : Option Snapshot.State} {file : Snapshot.File} {segments : List Segment} {opened : Log}
  (valid : live.Valid (walFormat checkpointSize))
  (loads : Snapshot.loadNewest files (compatibility config live) = .ok loaded)
  (captures : ∀ file ∈ files, ∀ state, Snapshot.read file = .ok state →
    state = contents state.includedIndex)
  (isOwn : own = contents own.includedIndex) (isRead : Snapshot.read file = .ok own)
  (sameIdentity : own.identity = snapshotIdentity config)

include valid loads captures isRead sameIdentity

/-- The file is there and the log has not moved. -/
theorem opens_saved
    (fallback : files ≠ [] ∨ Snapshot.matchesWAL own (compatibility config live) = true)
    (opens : Wal.WAL.openWAL (walMedium checkpointSize) (walIdentity config) defaultSegmentSize
      segments = .ok (opened, live)) :
    ∃ after, openRaftRuntime checkpointSize config peers
        { segments := segments, snapshots := file :: files } = .ok after ∧
      (StartsFrom config peers live loaded after ∨
        StartsFrom config peers (installed live own.includedIndex own.includedTerm) (some own)
          after) := by
  have readable := Snapshot.loadNewest_readable loads
  rcases Snapshot.loadNewest_newest readable loads with ⟨isNewest, empty⟩
  have offered : ∃ state, Snapshot.Offers (compatibility config live) (file :: files) state := by
    rcases fallback with someFile | compatible
    · cases isLoaded : loaded with
      | none => exact absurd (empty isLoaded) someFile
      | some state => exact ⟨state, (isNewest.offered state isLoaded).cons⟩
    · exact ⟨own, compatible, file, List.mem_cons_self, isRead⟩
  rcases Snapshot.loadNewest_eq_ok (readable.cons isRead sameIdentity) (.inr offered) with
    ⟨newest, loadsAll, newestAll⟩
  rcases offered with ⟨state, offers⟩
  rcases newestAll.latest state offers with ⟨best, isBest, _⟩
  rw [Option.mem_def.mp isBest] at loadsAll newestAll
  refine ⟨_, openRaftRuntime_eq opens loadsAll, ?_⟩
  have offersBest := newestAll.offered best rfl
  rcases offersBest.of_cons isRead with isBestOwn | stored
  · have committed := committed_of_matchesWAL offersBest.1
    rw [isBestOwn] at committed ⊢
    refine .inr ⟨?_, rfl⟩
    rw [recoveredCore_installed valid own.includedTerm (Nat.le_refl _) committed]
  · rcases isNewest.latest best stored with ⟨state, isLoaded, bound⟩
    rcases newestAll.latest state (isNewest.offered state isLoaded).cons with ⟨_, ⟨⟩, reaches⟩
    have same := Snapshot.Offers.eq_of_index captures (isNewest.offered state isLoaded) stored
      (Nat.le_antisymm reaches bound)
    rw [same] at isLoaded
    rw [Option.mem_def.mp isLoaded]
    exact .inl ⟨rfl, rfl⟩

include isOwn

/-- The log has moved. -/
theorem opens_moved (someIndex : own.includedIndex ≠ 0)
    (later : live.snapshotIndex ≤ own.includedIndex)
    (opens : Wal.WAL.openWAL (walMedium checkpointSize) (walIdentity config) defaultSegmentSize
      segments = .ok (opened, installed live own.includedIndex own.includedTerm)) :
    ∃ after, openRaftRuntime checkpointSize config peers
        { segments := segments, snapshots := file :: files } = .ok after ∧
      (StartsFrom config peers live loaded after ∨
        StartsFrom config peers (installed live own.includedIndex own.includedTerm) (some own)
          after) := by
  have readable := Snapshot.loadNewest_readable loads
  rcases Snapshot.loadNewest_newest readable loads with ⟨isNewest, _⟩
  have readableAll : Snapshot.Readable
      (compatibility config (installed live own.includedIndex own.includedTerm)).identity
        (file :: files) := readable.cons isRead sameIdentity
  have offered : Snapshot.Offers
      (compatibility config (installed live own.includedIndex own.includedTerm))
        (file :: files) own :=
    ⟨matchesWAL_checkpoint (Nat.le_max_right ..) someIndex rfl rfl, file, List.mem_cons_self,
      isRead⟩
  rcases Snapshot.loadNewest_eq_ok readableAll (.inr ⟨own, offered⟩) with
    ⟨newest, loadsAll, newestAll⟩
  rcases newestAll.latest own offered with ⟨best, isBest, reaches⟩
  rw [Option.mem_def.mp isBest] at loadsAll newestAll
  refine ⟨_, openRaftRuntime_eq opens loadsAll, ?_⟩
  rcases (newestAll.offered best rfl).of_cons isRead with isBestOwn | ⟨matched, stored⟩
  · rw [isBestOwn]
    exact .inr ⟨rfl, rfl⟩
  · rcases Nat.eq_or_lt_of_le reaches with equal | beyond
    · rcases stored with ⟨other, present, otherRead⟩
      rw [captures other present best otherRead, ← equal, ← isOwn]
      exact .inr ⟨rfl, rfl⟩
    · -- What was loaded above the Snapshot is still loaded.
      rw [matchesWAL_installed valid later beyond] at matched
      rcases isNewest.latest best ⟨matched, stored⟩ with ⟨state, isLoaded, bound⟩
      rcases isNewest.offered state isLoaded with ⟨compatible, kept⟩
      rw [← matchesWAL_installed valid later (beyond.trans_le bound)] at compatible
      rcases newestAll.latest state (Snapshot.Offers.cons ⟨compatible, kept⟩) with ⟨_, ⟨⟩, back⟩
      have same := Snapshot.Offers.eq_of_index captures (isNewest.offered state isLoaded)
        ⟨matched, stored⟩ (Nat.le_antisymm back bound)
      rw [same] at isLoaded
      rw [Option.mem_def.mp isLoaded,
        recoveredCore_installed valid own.includedTerm reaches (committed_of_matchesWAL matched)]
      exact .inl ⟨rfl, rfl⟩

end Crash

/-- An interrupted installation always leaves the state before it or the one with
the Snapshot installed exactly when the directory is interruptible. The received
Snapshot and the stored ones are captures of one committed history. -/
theorem interrupted_install_opens {before : Runtime} {contents : Nat → Snapshot.State}
    {state : Snapshot.State} {name : String}
    (opened : openRaftRuntime checkpointSize config peers
      { segments := wal.segments, snapshots := files } = .ok before)
    (recovers : Recovers checkpointSize wal live)
    (ofHistory : OfHistory (fun index => (contents index).includedTerm) live)
    (captures : ∀ file ∈ files, ∀ state, Snapshot.read file = .ok state →
      state = contents state.includedIndex)
    (received : ownSnapshot config state = contents state.includedIndex)
    (validated : Snapshot.validateState (ownSnapshot config state) = .ok ()) :
    CrashAtomic checkpointSize config peers live wal files before name state ↔
      Interruptible checkpointSize wal files state := by
  rcases openRaftRuntime_eq_ok opened with ⟨recovered, loaded, isOpened, loads, starts⟩
  rcases recovers.opened isOpened with ⟨same, identified⟩
  rw [same] at loads starts isOpened
  rcases recovers.onDisk with ⟨sound, intact⟩
  have valid : live.Valid (walFormat checkpointSize) := intact.valid
  rcases Snapshot.save_eq_ok files name validated with ⟨file, isSaved, isRead⟩
  have start := Snapshot.validateState_position validated
  have snapshotIndex := sound.mirrors.snapshotIndex
  have commitIndex := sound.mirrors.commitIndex
  constructor
  · intro atomic
    constructor
    · by_contra without
      rcases not_or.mp without with ⟨noFile, unknown⟩
      rcases not_or.mp unknown with ⟨someIndex, outside⟩
      rcases atomic _ (.saved isSaved) with ⟨after, opens, _⟩
      rcases openRaftRuntime_eq_ok opens with ⟨recovered, loaded, isReopened, loadsAll, _⟩
      rw [(recovers.opened isReopened).1] at loadsAll
      rw [not_not.mp noFile] at loadsAll
      rw [snapshotIndex, commitIndex] at outside
      have known := known_of_loaded loadsAll isRead someIndex
      exact outside known
    · intro canMove
      have stays : ¬wal.Rolls (walMedium checkpointSize)
          (installRecord wal state.includedIndex state.includedTerm) := by
        intro rolls
        rcases atomic _ (.creating isSaved canMove rolls) with ⟨after, opens, _⟩
        cases opens
      refine ⟨stays, ?_⟩
      rcases recovers.installs canMove with ⟨_, installs⟩
      rcases atomic _ (.deleting isSaved canMove
        (interruptedSegments_first state.includedTerm canMove.small stays)) with ⟨after, opens, _⟩
      have someSegment : wal.older ++ [wal.active ++
          [installRecord wal state.includedIndex state.includedTerm]] ≠ [] :=
        List.append_ne_nil_of_right_ne_nil _ (by simp)
      rcases recovers_of_opened someSegment opens with ⟨found, isFound⟩
      have onDisk : (wal.older ++ [wal.active ++
          [installRecord wal state.includedIndex state.includedTerm]]).flatten =
            wal.segments.flatten ++ [installRecord wal state.includedIndex state.includedTerm] := by
        simp [Wal.WAL.segments]
      rw [onDisk] at isFound
      exact Wal.truncatesAfter_of_recovers intact.within valid installs.advances .nil isFound
  · intro interruptible directory crash
    have restart : ∀ {runtime : Runtime}, StartsFrom config peers live loaded runtime →
        runtime.core = before.core ∧ runtime.recoveredSnapshot = before.recoveredSnapshot :=
      fun again => ⟨again.core.trans starts.core.symm, again.snapshot.trans starts.snapshot.symm⟩
    cases crash with
    | unsaved => exact ⟨before, opened, .inl ⟨rfl, rfl⟩⟩
    | @saved stored stores =>
        cases isSaved.symm.trans stores
        have fallback : files ≠ [] ∨ Snapshot.matchesWAL (ownSnapshot config state)
            (compatibility config live) = true := by
          have known := interruptible.fallback
          rw [snapshotIndex, commitIndex] at known
          refine known.imp_right fun within => ?_
          rcases within with first | ⟨later, committed⟩
          · exact matchesWAL_start first (start.mp first)
          · exact ofHistory.matchesWAL valid.consecutive valid.known start.mp
              (congrArg Snapshot.State.includedTerm received) later committed
        rcases opens_saved valid loads captures isRead rfl fallback isOpened with
          ⟨after, opens, state⟩
        exact ⟨after, opens, state.imp_left restart⟩
    | creating _ canMove rolls => exact absurd rolls (interruptible.moves canMove).1
    | created _ canMove rolls => exact absurd rolls (interruptible.moves canMove).1
    | @deleting stored examined image stores canMove left =>
        cases isSaved.symm.trans stores
        rcases recovers.interrupted canMove (interruptible.moves canMove).2 left with
          ⟨reopened, opensLog⟩
        rw [identified] at opensLog
        rcases opens_moved valid loads captures received isRead rfl canMove.someIndex
          (snapshotIndex ▸ canMove.later) opensLog with ⟨after, opens, state⟩
        exact ⟨after, opens, state.imp_left restart⟩

end

/-! ## A Follower that receives a Snapshot -/

/-- The captures of a history with one Leader. -/
def firstCaptures (index : Nat) : Snapshot.State :=
  { receivedState index with includedTerm := if index = 0 then 0 else 1 }

/-- The log knows the Snapshot's position when the file is stored. -/
theorem interrupted_install_opens_known :
    ∃ (wal : Log) (live : Wal.RecoveredState NodeID LogEntry) (before : Runtime),
      openRaftRuntime (fun _ => 0) memberConfig ["b", "c"] { segments := wal.segments } =
          .ok before ∧
        before.core.log = threeEntries.entries ∧
        CanMove (fun _ => 0) wal 1 1 ∧ Interruptible (fun _ => 0) wal [] (receivedState 1) ∧
        CrashAtomic (fun _ => 0) memberConfig ["b", "c"] live wal [] before "snapshot"
          (receivedState 1) := by
  have run : ∃ opened runtime emitted before reopened recovered,
      TookThree opened runtime emitted ∧
        openRaftRuntime (fun _ => 0) memberConfig ["b", "c"]
          { segments := runtime.wal.segments } = .ok before ∧
        Wal.WAL.openWAL (walMedium fun _ => 0) (walIdentity memberConfig) defaultSegmentSize
          runtime.wal.segments = .ok (reopened, recovered) ∧
        before.core.log = threeEntries.entries ∧ recovered.snapshotTerm = 0 ∧
        recovered.snapshotIndex = 0 ∧ recovered.log = threeEntries.entries ∧
        runtime.wal.snapshotIndex = 0 ∧ runtime.wal.commitIndex = 1 ∧
        decide (runtime.wal.Rolls (walMedium fun _ => 0) (installRecord runtime.wal 1 1)) =
          false ∧
        decide (UntruncatedThrough runtime.wal (max runtime.wal.commitIndex 1)) = true :=
    ⟨_, _, _, _, _, _, ⟨rfl, rfl, rfl⟩, rfl, rfl, rfl, rfl, rfl, rfl, rfl, rfl, rfl, rfl⟩
  rcases run with ⟨opened, runtime, emitted, before, reopened, recovered, took, isBefore,
    isReopened, log, term, start, stored, checkpoint, commit, stays,
    untruncated⟩
  rcases took.agrees with ⟨live, recovers, _, _⟩
  have ofHistory : OfHistory (fun index => (firstCaptures index).includedTerm) live := by
    rw [← (recovers.opened isReopened).1]
    constructor
    · rw [term, start]
      rfl
    · have all : ∀ entry ∈ threeEntries.entries,
          entry.term = (firstCaptures entry.index).includedTerm := by decide
      rw [stored]
      exact fun entry present _ => all entry present
  have canMove : CanMove (fun _ => 0) runtime.wal 1 1 :=
    ⟨Nat.one_ne_zero, Nat.one_ne_zero, checkpoint.le.trans (Nat.zero_le _),
      Nat.le_of_ble_eq_true rfl⟩
  have interruptible : Interruptible (fun _ => 0) runtime.wal [] (receivedState 1) := {
    fallback := .inr (.inr ⟨checkpoint.le.trans (Nat.zero_le _), commit.ge⟩)
    moves := fun _ => ⟨of_decide_eq_false stays, of_decide_eq_true untruncated⟩ }
  have atomic : CrashAtomic (fun _ => 0) memberConfig ["b", "c"] live runtime.wal [] before
      "snapshot" (receivedState 1) ↔ Interruptible (fun _ => 0) runtime.wal [] (receivedState 1) :=
    interrupted_install_opens isBefore recovers ofHistory (fun _ present => nomatch present) rfl rfl
  exact ⟨runtime.wal, live, before, isBefore, log, canMove, interruptible, atomic.mpr interruptible⟩

/-- A new Node stores the Snapshot and crashes. It has no other Snapshot, and its
log does not know this one. -/
theorem interrupted_install_refused :
    ∃ (wal : Log) (live : Wal.RecoveredState NodeID LogEntry) (before : Runtime),
      openRaftRuntime (fun _ => 0) memberConfig ["b", "c"] { segments := wal.segments } =
          .ok before ∧
        Recovers (fun _ => 0) wal live ∧
        OfHistory (fun index => (firstCaptures index).includedTerm) live ∧
        ownSnapshot memberConfig (receivedState 5) = firstCaptures 5 ∧
        InterruptedInstall (fun _ => 0) memberConfig wal [] "snapshot" (receivedState 5)
          { segments := wal.segments, snapshots := [receivedFile 5] } ∧
        openRaftRuntime (fun _ => 0) memberConfig ["b", "c"]
            { segments := wal.segments, snapshots := [receivedFile 5] } =
          .error (.snapshot .noneCompatible) := by
  have run : ∃ opened before reopened recovered,
      openRaftRuntime (fun _ => 0) memberConfig ["b", "c"] {} = .ok opened ∧
        openRaftRuntime (fun _ => 0) memberConfig ["b", "c"] { segments := opened.wal.segments } =
          .ok before ∧
        Wal.WAL.openWAL (walMedium fun _ => 0) (walIdentity memberConfig) defaultSegmentSize
          opened.wal.segments = .ok (reopened, recovered) ∧
        recovered.snapshotTerm = 0 ∧ recovered.snapshotIndex = 0 ∧ recovered.log = [] ∧
        openRaftRuntime (fun _ => 0) memberConfig ["b", "c"]
            { segments := opened.wal.segments, snapshots := [receivedFile 5] } =
          .error (.snapshot .noneCompatible) :=
    ⟨_, _, _, _, rfl, rfl, rfl, rfl, rfl, rfl, rfl⟩
  rcases run with ⟨opened, before, reopened, recovered, isOpened, isBefore, isReopened, term,
    start, stored, refused⟩
  rcases Agree.opened isOpened with ⟨store, _, recovers⟩
  have ofHistory : OfHistory (fun index => (firstCaptures index).includedTerm)
      (store.live (walIdentity memberConfig)) := by
    rw [← (recovers.opened isReopened).1]
    constructor
    · rw [term, start]
      rfl
    · rw [stored]
      exact fun entry present => nomatch present
  exact ⟨opened.wal, _, before, isBefore, recovers, ofHistory, rfl, .saved rfl, refused⟩

end Ternion.RaftRuntime
