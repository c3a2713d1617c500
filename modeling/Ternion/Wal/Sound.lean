import Mathlib.Data.List.Induction
import Ternion.Wal.Intact
import Ternion.Wal.Store

/-! # What an open log keeps

The fields of an open log mirror the live state of the records on its medium.
Every successful call appends the records that belong to its effect. Compaction
also removes covered records.
-/

namespace Ternion.Wal

variable {Name Entry Content : Type} [Inhabited Name]

/-! ## Media -/

namespace Medium

def write (medium : Medium Name Entry Content) (records : List (Record Name Entry)) : Content :=
  records.foldl medium.append medium.create

/-- A medium gives back what it was given, as long as the records fit it. -/
structure Lawful [DecidableEq Name] (medium : Medium Name Entry Content)
    (fits : Record Name Entry → Prop) : Prop where
  covered : ∀ snapshotIndex records, (∀ record ∈ records, fits record) →
    medium.segmentCoveredBySnapshot snapshotIndex (medium.write records) =
      .ok (records.all (medium.coveredBySnapshot snapshotIndex))
  recovers : ∀ segments : List (List (Record Name Entry)),
    (∀ records ∈ segments, ∀ record ∈ records, fits record) →
    medium.recoverSegments (segments.map medium.write) =
      (medium.recoverRecords segments.flatten).map fun state =>
        (segments.map medium.write, state)

theorem write_append (medium : Medium Name Entry Content) (records : List (Record Name Entry))
    (record : Record Name Entry) :
    medium.write (records ++ [record]) = medium.append (medium.write records) record :=
  List.foldl_append ..

end Medium

theorem recordMedium_write [DecidableEq Name] (format : Format Name Entry)
    (records : List (Record Name Entry)) : format.recordMedium.write records = records := by
  induction records using List.reverseRecOn with
  | nil => rfl
  | append_singleton records record induction =>
      rw [Medium.write_append, induction]
      rfl

theorem recordMedium_lawful [DecidableEq Name] (format : Format Name Entry) :
    format.recordMedium.Lawful fun _ => True where
  covered := by
    intro snapshotIndex records _
    rw [recordMedium_write]
    rfl
  recovers := by
    intro segments _
    have same : segments.map format.recordMedium.write = segments :=
      List.map_id'' (recordMedium_write format) segments
    rw [same]
    rfl

/-! ## Frame bytes -/

section Bytes

variable (format : Format Name Entry)

theorem recoveredBytes_snoc (log : List Entry) (entry : Entry) :
    WAL.recoveredBytes format (log ++ [entry]) =
      Function.update (WAL.recoveredBytes format log) (format.index entry)
        (format.entryFrameSize entry) :=
  List.foldl_append ..

theorem recoveredBytes_filter (keeps : Nat → Bool) (log : List Entry) (index : Nat) :
    WAL.recoveredBytes format (log.filter fun entry => keeps (format.index entry)) index =
      if keeps index then WAL.recoveredBytes format log index else 0 := by
  induction log using List.reverseRecOn with
  | nil => exact (ite_self 0).symm
  | append_singleton log entry induction =>
      rw [List.filter_append, recoveredBytes_snoc]
      by_cases kept : keeps (format.index entry)
      · have itself : ([entry].filter fun entry => keeps (format.index entry)) = [entry] :=
          List.filter_cons_of_pos kept
        rw [itself, recoveredBytes_snoc]
        by_cases here : index = format.index entry
        · rw [here, Function.update_self, Function.update_self, if_pos kept]
        · rw [Function.update_of_ne here, Function.update_of_ne here, induction]
      · have nothing : ([entry].filter fun entry => keeps (format.index entry)) = [] :=
          List.filter_cons_of_neg kept
        rw [nothing, List.append_nil, induction]
        by_cases here : index = format.index entry
        · rw [here, if_neg kept, if_neg kept]
        · rw [Function.update_of_ne here]

theorem recoveredBytes_above (start : Nat) (log : List Entry) (index : Nat) :
    WAL.recoveredBytes format (format.above start log) index =
      if index ≤ start then 0 else WAL.recoveredBytes format log index := by
  have bytes := recoveredBytes_filter format (fun index => start < index) log index
  rw [Format.above, bytes]
  simp only [decide_eq_true_eq]
  split_ifs
  · omega
  · rfl
  · rfl
  · omega

theorem recoveredBytes_beyond {start : Nat} {log : List Entry}
    (consecutive : Consecutive format.index start log) {index : Nat}
    (beyond : start + log.length < index) : WAL.recoveredBytes format log index = 0 := by
  have all : (log.filter fun entry => decide (format.index entry ≤ start + log.length)) = log := by
    apply List.filter_eq_self.mpr
    intro entry present
    exact decide_eq_true (consecutive.bounds present).2
  have bytes := recoveredBytes_filter format (fun index => index ≤ start + log.length) log index
  rw [all] at bytes
  rw [bytes, if_neg]
  simpa using beyond

end Bytes

/-! ## Soundness -/

def Medium.Holds (medium : Medium Name Entry Content) (fits : Record Name Entry → Prop)
    (segments : List Content) (records : List (Record Name Entry)) : Prop :=
  (∀ record ∈ records, fits record) ∧
    ∃ parts : List (List (Record Name Entry)),
      segments = parts.map medium.write ∧ parts.flatten = records

structure WAL.Mirrors (format : Format Name Entry) (wal : WAL Name Content)
    (live : RecoveredState Name Entry) : Prop where
  lastLogIndex : wal.lastLogIndex = live.lastIndex
  commitIndex : wal.commitIndex = live.commitIndex
  hardState : wal.hardState = live.hardState
  identity : wal.identity = live.identity
  snapshotIndex : wal.snapshotIndex = live.snapshotIndex
  snapshotTerm : wal.snapshotTerm = live.snapshotTerm
  entryBytes : wal.entryBytes = WAL.recoveredBytes format live.log

structure WAL.Sound (medium : Medium Name Entry Content) (fits : Record Name Entry → Prop)
    (wal : WAL Name Content) (records : List (Record Name Entry))
    (live : RecoveredState Name Entry) : Prop where
  mirrors : wal.Mirrors medium.toFormat live
  holds : medium.Holds fits wal.segments records

namespace WAL

section Append

variable {medium : Medium Name Entry Content} {fits : Record Name Entry → Prop}
  {wal after : WAL Name Content} {records : List (Record Name Entry)}
  {live : RecoveredState Name Entry} {record : Record Name Entry}

theorem appendRecord_eq_ok (appended : wal.appendRecord medium record = .ok after) :
    after = { wal with older := after.older, active := after.active, offset := after.offset } := by
  rw [appendRecord] at appended
  split_ifs at appended
  · cases appended
    rfl
  · cases appended
    rfl

theorem holds_split (holds : medium.Holds fits wal.segments records) :
    ∃ (older : List (List (Record Name Entry))) (current : List (Record Name Entry)),
      wal.older = older.map medium.write ∧ wal.active = medium.write current ∧
        older.flatten ++ current = records := by
  rcases holds with ⟨_, parts, written, same⟩
  rcases List.eq_nil_or_concat' parts with empty | ⟨older, current, split⟩
  · rw [empty] at written
    exact absurd written (by simp [segments])
  · rw [split, List.map_append] at written
    rw [split, List.flatten_append, List.flatten_singleton] at same
    rcases List.append_inj' written rfl with ⟨isOlder, isActive⟩
    exact ⟨older, current, isOlder, List.singleton_inj.mp isActive, same⟩

theorem appendRecord_segments (holds : medium.Holds fits wal.segments records)
    (appended : wal.appendRecord medium record = .ok after) :
    ∃ (older : List (List (Record Name Entry))) (current : List (Record Name Entry)),
      after.older = older.map medium.write ∧
        after.active = medium.write (current ++ [record]) ∧ older.flatten ++ current = records := by
  rcases holds_split holds with ⟨older, current, isOlder, isActive, same⟩
  rw [appendRecord] at appended
  split_ifs at appended
  · cases appended
    refine ⟨older ++ [current], [], ?_, rfl, ?_⟩
    · rw [createSegment, isOlder, isActive, List.map_append]
      rfl
    · rw [List.flatten_append, List.flatten_singleton, List.append_nil, same]
  · cases appended
    refine ⟨older, current, isOlder, ?_, same⟩
    rw [Medium.write_append, ← isActive]

theorem appendRecord_holds (holds : medium.Holds fits wal.segments records) (fit : fits record)
    (appended : wal.appendRecord medium record = .ok after) :
    medium.Holds fits after.segments (records ++ [record]) := by
  rcases appendRecord_segments holds appended with ⟨older, current, olderIs, activeIs, same⟩
  refine ⟨?_, older ++ [current ++ [record]], ?_, ?_⟩
  · intro other present
    rcases List.mem_append.mp present with earlier | last
    · exact holds.1 other earlier
    · exact List.mem_singleton.mp last ▸ fit
  · rw [segments, olderIs, activeIs, List.map_append]
    rfl
  · rw [List.flatten_append, List.flatten_singleton, ← List.append_assoc, same]

theorem Mirrors.appendRecord {format : Format Name Entry} (mirrors : wal.Mirrors format live)
    (appended : wal.appendRecord medium record = .ok after) : after.Mirrors format live := by
  rw [appendRecord_eq_ok appended]
  exact { mirrors with }

/-! ## Calls that append -/

section

variable (sound : wal.Sound medium fits records live)

include sound

theorem Sound.saveHardState {state : HardState Name}
    (fit : fits (.hardState state)) (saved : wal.saveHardState medium state = .ok after) :
    after.Sound medium fits (records ++ [.hardState state])
      ((Record.hardState state).extend live) := by
  rcases Fallible.bind_eq_ok.mp saved with ⟨middle, appended, same⟩
  have holds := appendRecord_holds sound.holds fit appended
  cases same
  exact ⟨{ sound.mirrors.appendRecord appended with hardState := rfl }, holds⟩

theorem Sound.truncateLog {firstIndex : Nat}
    (valid : live.Valid medium.toFormat) (fit : fits (.logTruncation firstIndex))
    (truncated : wal.truncateLog medium firstIndex = .ok after) :
    (Record.logTruncation firstIndex).Extends medium.toFormat live ∧
      after.Sound medium fits (records ++ [.logTruncation firstIndex])
        ((Record.logTruncation firstIndex).extend live) := by
  rw [WAL.truncateLog] at truncated
  split_ifs at truncated with outside reached
  rcases Fallible.bind_eq_ok.mp truncated with ⟨middle, appended, same⟩
  have holds := appendRecord_holds sound.holds fit appended
  have mirrors := sound.mirrors.appendRecord appended
  cases same
  have lastIndex := sound.mirrors.lastLogIndex
  have commitIndex := sound.mirrors.commitIndex
  have committed := valid.committed
  have extending : (Record.logTruncation firstIndex).Extends medium.toFormat live := by
    constructor <;> omega
  have inside := extending.2
  have kept : live.log.take (firstIndex - live.snapshotIndex - 1) =
      live.log.filter fun entry => medium.index entry < firstIndex := by
    rw [valid.consecutive.filter_lt, Nat.sub_right_comm]
  refine ⟨extending, { mirrors with lastLogIndex := ?_, entryBytes := ?_ }, holds⟩
  · rw [RecoveredState.lastIndex] at inside ⊢
    simp only [Record.extend, RecoveredState.withLog, List.length_take]
    omega
  · funext index
    have bytes :=
      recoveredBytes_filter medium.toFormat (fun index => index < firstIndex) live.log index
    simp only [decide_eq_true_eq] at bytes
    simp only [Record.extend, RecoveredState.withLog_log, mirrors.entryBytes,
      mirrors.lastLogIndex, kept, bytes]
    split_ifs with removed before before
    · omega
    · rfl
    · rfl
    · apply recoveredBytes_beyond medium.toFormat valid.consecutive
      rw [RecoveredState.lastIndex] at removed
      omega

theorem Sound.saveCommitIndex {index : Nat}
    (fit : fits (.commitIndex index)) (saved : wal.saveCommitIndex medium index = .ok after) :
    index = live.commitIndex ∧ after = wal ∨
      (Record.commitIndex index).Extends medium.toFormat live ∧
        after.Sound medium fits (records ++ [.commitIndex index])
          ((Record.commitIndex index).extend live) := by
  have lastIndex := sound.mirrors.lastLogIndex
  have commitIndex := sound.mirrors.commitIndex
  rw [WAL.saveCommitIndex] at saved
  split_ifs at saved with decreased beyond same
  · cases saved
    exact .inl ⟨same.trans commitIndex, rfl⟩
  · rcases Fallible.bind_eq_ok.mp saved with ⟨middle, appended, result⟩
    have holds := appendRecord_holds sound.holds fit appended
    have mirrors := sound.mirrors.appendRecord appended
    cases result
    refine .inr ⟨?_, { mirrors with commitIndex := rfl }, holds⟩
    constructor <;> omega

end

theorem checkOrder_eq_ok {format : Format Name Entry} {lastIndex : Nat} {entries : List Entry}
    (checked : checkOrder format lastIndex entries = .ok ()) :
    Consecutive format.index lastIndex entries := by
  induction entries generalizing lastIndex with
  | nil => trivial
  | cons entry entries induction =>
      rw [checkOrder] at checked
      split_ifs at checked with next
      exact ⟨not_not.mp next, induction checked⟩

/-- The entries reach the segments one by one. Until all are there, the fields
describe the log as it was. -/
theorem appendEntries_eq_ok {entries : List Entry} {log : List Entry}
    (holds : medium.Holds fits wal.segments records)
    (fit : ∀ entry ∈ entries, fits (.logEntry entry))
    (bytes : wal.entryBytes = recoveredBytes medium.toFormat log)
    (appended : entries.foldlM (appendEntry medium) wal = .ok after) :
    after = { wal with
        older := after.older, active := after.active, offset := after.offset
        entryBytes := recoveredBytes medium.toFormat (log ++ entries) } ∧
      medium.Holds fits after.segments (records ++ entries.map .logEntry) := by
  induction entries generalizing wal records log with
  | nil =>
      cases appended
      rw [List.append_nil, List.map_nil, List.append_nil, ← bytes]
      exact ⟨rfl, holds⟩
  | cons entry entries induction =>
      rcases Fallible.foldlM_cons_eq_ok.mp appended with ⟨middle, first, rest⟩
      rcases Fallible.bind_eq_ok.mp first with ⟨extended, put, same⟩
      have fields := appendRecord_eq_ok put
      have set := (Except.ok.inj same).symm
      have holdsFirst : medium.Holds fits middle.segments (records ++ [.logEntry entry]) := by
        have reached := appendRecord_holds holds (fit entry List.mem_cons_self) put
        rw [set]
        exact reached
      have bytesFirst : middle.entryBytes = recoveredBytes medium.toFormat (log ++ [entry]) := by
        rw [set, recoveredBytes_snoc, ← bytes, fields]
      rcases induction holdsFirst (fun other present => fit other (List.mem_cons_of_mem _ present))
        bytesFirst rest with ⟨fieldsRest, holdsRest⟩
      rw [List.append_assoc, List.singleton_append] at fieldsRest holdsRest
      refine ⟨fieldsRest.trans ?_, holdsRest⟩
      rw [set, fields]

theorem Sound.saveLogEntries {entries : List Entry} (sound : wal.Sound medium fits records live)
    (fit : ∀ entry ∈ entries, fits (.logEntry entry))
    (saved : wal.saveLogEntries medium entries = .ok after) :
    Consecutive medium.index live.lastIndex entries ∧
      after.Sound medium fits (records ++ entries.map .logEntry)
        (live.withLog (live.log ++ entries)) := by
  rw [WAL.saveLogEntries] at saved
  split_ifs at saved with empty
  rcases Fallible.bind_eq_ok.mp saved with ⟨_, ordered, appending⟩
  rcases Fallible.bind_eq_ok.mp appending with ⟨middle, appended, same⟩
  rcases appendEntries_eq_ok sound.holds fit sound.mirrors.entryBytes appended with
    ⟨fields, holds⟩
  have lastIndex := sound.mirrors.lastLogIndex
  have consecutive := checkOrder_eq_ok ordered
  rw [lastIndex] at consecutive
  cases same
  refine ⟨consecutive, ?_, holds⟩
  rw [fields]
  exact { sound.mirrors with
    lastLogIndex := by
      rw [RecoveredState.lastIndex, RecoveredState.withLog_log, List.length_append]
      simp only [lastIndex, RecoveredState.lastIndex, RecoveredState.withLog]
      omega
    entryBytes := rfl }

end Append

/-! ## Compaction -/

section Compaction

variable [DecidableEq Name] {medium : Medium Name Entry Content}
  {fits : Record Name Entry → Prop} {wal after : WAL Name Content}
  {records : List (Record Name Entry)} {live : RecoveredState Name Entry}

theorem removeCovered_written (lawful : medium.Lawful fits) (snapshotIndex : Nat)
    {parts : List (List (Record Name Entry))}
    (fit : ∀ record ∈ parts.flatten, fits record) :
    ∃ kept : List (List (Record Name Entry)),
      removeCovered medium snapshotIndex (parts.map medium.write) =
        .ok (kept.map medium.write) ∧
      Trimmed medium.toFormat snapshotIndex parts.flatten kept.flatten := by
  induction parts with
  | nil => exact ⟨[], rfl, .nil⟩
  | cons part parts induction =>
      rw [List.flatten_cons] at fit
      rcases induction fun record present => fit record (List.mem_append_right _ present) with
        ⟨kept, removed, trimmed⟩
      have judged := lawful.covered snapshotIndex part
        fun record present => fit record (List.mem_append_left _ present)
      rw [List.map_cons, removeCovered, judged, removed]
      by_cases covered : part.all (medium.coveredBySnapshot snapshotIndex) = true
      · refine ⟨kept, ?_, ?_⟩
        · rw [covered]
          rfl
        · exact (Trimmed.all covered).append trimmed
      · refine ⟨part :: kept, ?_, ?_⟩
        · rw [Bool.not_eq_true] at covered
          rw [covered]
          rfl
        · exact (Trimmed.refl part).append trimmed

omit [DecidableEq Name] in
/-- A checkpoint at the end of the last segment, behind what is left of the
complete ones. -/
theorem saveCheckpoint_segments {snapshotIndex snapshotTerm commitIndex : Nat}
    (holds : medium.Holds fits wal.segments records)
    (saved : wal.saveCheckpoint medium snapshotIndex snapshotTerm commitIndex = .ok after) :
    after = { wal with
        older := after.older, active := after.active, offset := after.offset
        snapshotIndex := snapshotIndex, snapshotTerm := snapshotTerm } ∧
      ∃ older : List (List (Record Name Entry)), after.older = older.map medium.write ∧
        (∀ record ∈ older.flatten, record ∈ records) ∧
        ∀ kept : List (List (Record Name Entry)),
          fits (.checkpoint (wal.checkpointAt snapshotIndex snapshotTerm commitIndex)) →
          Trimmed medium.toFormat snapshotIndex older.flatten kept.flatten →
          ∃ left, Trimmed medium.toFormat snapshotIndex records left ∧
            medium.Holds fits (kept.map medium.write ++ [after.active])
              (left ++ [.checkpoint (wal.checkpointAt snapshotIndex snapshotTerm
                commitIndex)]) := by
  rcases Fallible.bind_eq_ok.mp saved with ⟨middle, appended, same⟩
  have fields := appendRecord_eq_ok appended
  rcases appendRecord_segments holds appended with ⟨older, current, olderIs, activeIs, whole⟩
  cases same
  refine ⟨?_, older, olderIs, ?_, ?_⟩
  · rw [fields]
  · intro record present
    exact whole ▸ List.mem_append_left _ present
  · intro kept fit trimmed
    have left := trimmed.append (Trimmed.refl current)
    rw [whole] at left
    refine ⟨kept.flatten ++ current, left, ?_, kept ++ [current ++
      [.checkpoint (wal.checkpointAt snapshotIndex snapshotTerm commitIndex)]], ?_, ?_⟩
    · intro record present
      rcases List.mem_append.mp present with earlier | last
      · exact holds.1 record (left.subset record earlier)
      · exact List.mem_singleton.mp last ▸ fit
    · rw [List.map_append, List.map_singleton, ← activeIs]
    · rw [List.flatten_append, List.flatten_singleton, List.append_assoc]

theorem interruptedSegments_holds {snapshotIndex snapshotTerm commitIndex examined : Nat}
    {image : List Content} (lawful : medium.Lawful fits)
    (holds : medium.Holds fits wal.segments records)
    (fit : fits (.checkpoint (wal.checkpointAt snapshotIndex snapshotTerm commitIndex)))
    (interrupted : wal.interruptedSegments medium snapshotIndex snapshotTerm commitIndex examined =
      .ok image) :
    ∃ left, Trimmed medium.toFormat snapshotIndex records left ∧
      medium.Holds fits image
        (left ++ [.checkpoint (wal.checkpointAt snapshotIndex snapshotTerm commitIndex)]) := by
  rcases Fallible.bind_eq_ok.mp interrupted with ⟨middle, saved, removing⟩
  rcases Fallible.bind_eq_ok.mp removing with ⟨kept, removed, same⟩
  rcases saveCheckpoint_segments holds saved with ⟨_, older, olderIs, subset, remains⟩
  have fitting : ∀ record ∈ (older.take examined).flatten, fits record := by
    intro record present
    rcases List.mem_flatten.mp present with ⟨part, partPresent, here⟩
    exact holds.1 record (subset record
      (List.mem_flatten.mpr ⟨part, List.mem_of_mem_take partPresent, here⟩))
  rcases removeCovered_written lawful snapshotIndex fitting with ⟨parts, written, trimmed⟩
  rw [olderIs, ← List.map_take, written] at removed
  have whole := trimmed.append (Trimmed.refl (older.drop examined).flatten)
  rw [← List.flatten_append, List.take_append_drop, ← List.flatten_append] at whole
  rcases remains (parts ++ older.drop examined) fit whole with ⟨left, leftTrimmed, leftHolds⟩
  refine ⟨left, leftTrimmed, ?_⟩
  have image_eq := (Except.ok.inj same).symm
  rw [image_eq, ← Except.ok.inj removed, olderIs, ← List.map_drop, ← List.map_append]
  exact leftHolds

theorem installSnapshotCheckpoint_eq_ok {snapshotIndex snapshotTerm commitIndex : Nat}
    (lawful : medium.Lawful fits) (holds : medium.Holds fits wal.segments records)
    (fit : fits (.checkpoint (wal.checkpointAt snapshotIndex snapshotTerm commitIndex)))
    (installed : wal.installSnapshotCheckpoint medium snapshotIndex snapshotTerm commitIndex =
      .ok after) :
    after = { wal with
        older := after.older, active := after.active, offset := after.offset
        snapshotIndex := snapshotIndex, snapshotTerm := snapshotTerm
        entryBytes := fun index => if index ≤ snapshotIndex then 0 else wal.entryBytes index } ∧
      ∃ left, Trimmed medium.toFormat snapshotIndex records left ∧
        medium.Holds fits after.segments
          (left ++ [.checkpoint (wal.checkpointAt snapshotIndex snapshotTerm commitIndex)]) := by
  rcases Fallible.bind_eq_ok.mp installed with ⟨middle, saved, removing⟩
  rcases Fallible.bind_eq_ok.mp removing with ⟨kept, removed, same⟩
  rcases saveCheckpoint_segments holds saved with ⟨fields, older, olderIs, subset, remains⟩
  rcases removeCovered_written lawful snapshotIndex
    (fun record present => holds.1 record (subset record present)) with ⟨parts, written, trimmed⟩
  rw [olderIs, written] at removed
  rcases remains parts fit trimmed with ⟨left, leftTrimmed, leftHolds⟩
  rw [Except.ok.inj removed] at leftHolds
  cases same
  refine ⟨?_, left, leftTrimmed, leftHolds⟩
  rw [fields]

omit [DecidableEq Name] in
theorem Mirrors.advances {format : Format Name Entry} (mirrors : wal.Mirrors format live)
    {snapshotIndex snapshotTerm commitIndex : Nat} (later : live.snapshotIndex ≤ snapshotIndex)
    (commits : wal.commitIndex ≤ commitIndex) (committed : snapshotIndex ≤ commitIndex)
    (known : commitIndex ≤ max snapshotIndex live.lastIndex) :
    Advances live (wal.checkpointAt snapshotIndex snapshotTerm commitIndex) where
  identity := mirrors.identity
  hardState := mirrors.hardState
  snapshotIndex := later
  commitIndex := mirrors.commitIndex ▸ commits
  committed := committed
  known := known

theorem Sound.checkpoint {snapshotIndex snapshotTerm commitIndex : Nat}
    (sound : wal.Sound medium fits records live) (lawful : medium.Lawful fits)
    (valid : live.Valid medium.toFormat)
    (fit : fits (.checkpoint (wal.checkpointAt snapshotIndex snapshotTerm commitIndex)))
    (later : live.snapshotIndex ≤ snapshotIndex)
    (installed : wal.installSnapshotCheckpoint medium snapshotIndex snapshotTerm commitIndex =
      .ok after) :
    ∃ left, Trimmed medium.toFormat snapshotIndex records left ∧
      Sound medium fits
        { after with
          commitIndex := commitIndex
          lastLogIndex := max wal.lastLogIndex snapshotIndex }
        (left ++ [.checkpoint (wal.checkpointAt snapshotIndex snapshotTerm commitIndex)])
        (Advances.result medium.toFormat live
          (wal.checkpointAt snapshotIndex snapshotTerm commitIndex)) := by
  rcases installSnapshotCheckpoint_eq_ok lawful sound.holds fit installed with
    ⟨fields, left, trimmed, holds⟩
  have lastIndex := sound.mirrors.lastLogIndex
  have ends := Format.above_length valid.consecutive later
  refine ⟨left, trimmed, ?_, holds⟩
  rw [fields]
  exact {
    lastLogIndex := by
      simp only [lastIndex, RecoveredState.lastIndex, Advances.result, RecoveredState.withLog,
        RecoveredState.ofCheckpoint, checkpointAt]
      omega
    commitIndex := rfl
    hardState := rfl
    identity := rfl
    snapshotIndex := rfl
    snapshotTerm := rfl
    entryBytes := by
      funext index
      change (if index ≤ snapshotIndex then 0 else wal.entryBytes index) =
        recoveredBytes medium.toFormat (medium.above snapshotIndex live.log) index
      rw [recoveredBytes_above, sound.mirrors.entryBytes] }

end Compaction

/-! ## Opening -/

section Open

variable [DecidableEq Name] {medium : Medium Name Entry Content}
  {fits : Record Name Entry → Prop} {wal : WAL Name Content} {segments : List Content}
  {records : List (Record Name Entry)} {live : RecoveredState Name Entry}
  {identity : Identity Name} {segmentSize : Nat}

theorem openWAL_eq (lawful : medium.Lawful fits) (holds : medium.Holds fits segments records)
    (someSegment : segments ≠ []) (clusterID : medium.blank identity.clusterID = false)
    (nodeID : medium.blank identity.nodeID = false)
    (roomy : segmentHeaderSize + frameHeaderSize < segmentSize) :
    openWAL medium identity segmentSize segments = (do
      let recovered ← medium.recoverRecords records
      if recovered.identity ≠ identity then .error .identityMismatch
      else
        return (resume medium identity segmentSize segments.dropLast
          (segments.getLast?.getD medium.create) recovered, recovered)) := by
  rcases holds with ⟨fit, parts, written, same⟩
  have recovers := lawful.recovers parts fun part partPresent record present =>
    fit record (same ▸ List.mem_flatten.mpr ⟨part, partPresent, present⟩)
  rw [openWAL, if_neg (by simp [clusterID, nodeID]), if_neg (by omega), if_neg someSegment,
    written, recovers, same]
  cases medium.recoverRecords records <;> rfl

theorem openWAL_eq_ok {opened : WAL Name Content × RecoveredState Name Entry}
    (success : openWAL medium identity segmentSize segments = .ok opened) :
    medium.blank identity.clusterID = false ∧ medium.blank identity.nodeID = false ∧
      segmentHeaderSize + frameHeaderSize < segmentSize := by
  rw [openWAL] at success
  split_ifs at success with blank small
  all_goals
    rw [not_or, Bool.not_eq_true, Bool.not_eq_true] at blank
    exact ⟨blank.1, blank.2, Nat.lt_of_not_le small⟩

section

variable (lawful : medium.Lawful fits) (holds : medium.Holds fits segments records)
  (someSegment : segments ≠ []) (intact : Intact medium.toFormat records live)

include lawful holds someSegment intact

theorem opens (same : live.identity = identity)
    (roomy : segmentHeaderSize + frameHeaderSize < segmentSize) :
    openWAL medium identity segmentSize segments =
      .ok (resume medium identity segmentSize segments.dropLast
        (segments.getLast?.getD medium.create) live, live) := by
  have clusterID := intact.valid.clusterID
  have nodeID := intact.valid.nodeID
  rw [same] at clusterID nodeID
  rw [openWAL_eq lawful holds someSegment clusterID nodeID roomy, intact.recovers]
  exact if_neg (not_not_intro same)

theorem of_opened {recovered : RecoveredState Name Entry}
    (opened : openWAL medium identity segmentSize segments = .ok (wal, recovered)) :
    recovered = live ∧ live.identity = identity := by
  rcases openWAL_eq_ok opened with ⟨clusterID, nodeID, roomy⟩
  rw [openWAL_eq lawful holds someSegment clusterID nodeID roomy, intact.recovers] at opened
  change (if live.identity ≠ identity then _ else _) = _ at opened
  split_ifs at opened with other
  cases opened
  exact ⟨rfl, not_not.mp other⟩

end

omit [DecidableEq Name] in
theorem resume_sound (holds : medium.Holds fits segments records) (someSegment : segments ≠ [])
    (same : live.identity = identity) :
    (resume medium identity segmentSize segments.dropLast
      (segments.getLast?.getD medium.create) live).Sound medium fits records live where
  mirrors := ⟨rfl, rfl, rfl, same.symm, rfl, rfl, rfl⟩
  holds := by
    have whole : segments.dropLast ++ [segments.getLast?.getD medium.create] = segments := by
      rw [List.getLast?_eq_some_getLast someSegment]
      exact List.dropLast_append_getLast someSegment
    rw [WAL.segments, resume, whole]
    exact holds

omit [DecidableEq Name] in
theorem createWAL_sound (cluster : fits (.clusterIdentity identity.clusterID))
    (node : fits (.nodeIdentity identity.nodeID))
    (created : createWAL medium identity segmentSize = .ok wal) :
    wal.Sound medium fits [.clusterIdentity identity.clusterID, .nodeIdentity identity.nodeID]
      (.fresh identity) := by
  rcases Fallible.bind_eq_ok.mp created with ⟨middle, first, second⟩
  have fields := appendRecord_eq_ok first
  have empty : medium.Holds fits [medium.create] [] :=
    ⟨fun _ absent => absurd absent List.not_mem_nil, [[]], rfl, rfl⟩
  have holds := appendRecord_holds (appendRecord_holds empty cluster first) node second
  refine ⟨?_, holds⟩
  rw [appendRecord_eq_ok second, fields]
  exact ⟨rfl, rfl, rfl, rfl, rfl, rfl, rfl⟩

theorem openWAL_nil_sound {recovered : RecoveredState Name Entry}
    (cluster : fits (.clusterIdentity identity.clusterID))
    (node : fits (.nodeIdentity identity.nodeID))
    (opened : openWAL medium identity segmentSize [] = .ok (wal, recovered)) :
    wal.Sound medium fits [.clusterIdentity identity.clusterID, .nodeIdentity identity.nodeID]
      (.fresh identity) := by
  rw [openWAL] at opened
  split_ifs at opened with _ _ some
  · rcases Fallible.bind_eq_ok.mp opened with ⟨created, made, same⟩
    cases same
    exact createWAL_sound cluster node made
  · exact absurd rfl some

end Open

end WAL

end Ternion.Wal
