import Ternion.Wal.Calls

/-! # Calls that are accepted

Which calls the checks of the log let through, said about the state that it
stands for.
-/

namespace Ternion.Wal

variable {Name Entry Content : Type} [Inhabited Name]

variable {entries : List Entry} {fits : Record Name Entry → Prop}

/-- The record is not too large for a frame. -/
def Record.Small (format : Format Name Entry) (record : Record Name Entry) : Prop :=
  1 + format.payloadSize record ≤ maxRecordSize

def Call.Accepted (format : Format Name Entry) (live : RecoveredState Name Entry) :
    Call Name Entry → Prop
  | .saveHardState state =>
      live.hardState.Precedes state ∧ Record.Small format (.hardState state)
  | .saveLogEntries entries => entries ≠ [] ∧ Consecutive format.index live.lastIndex entries ∧
      ∀ entry ∈ entries, Record.Small format (.logEntry entry)
  | .truncateLog firstIndex => live.commitIndex < firstIndex ∧ firstIndex ≤ live.lastIndex + 1 ∧
      Record.Small format (.logTruncation firstIndex)
  | .saveCommitIndex index => live.commitIndex ≤ index ∧ index ≤ live.lastIndex ∧
      Record.Small format (.commitIndex index)
  | .compact _ _ => False
  | .installSnapshot _ _ => False

/-- The record goes to a new segment. -/
def WAL.Rolls (medium : Medium Name Entry Content) (wal : WAL Name Content)
    (record : Record Name Entry) : Prop :=
  segmentHeaderSize < wal.offset ∧
    wal.segmentSize < wal.offset + (frameHeaderSize + (1 + medium.payloadSize record))

instance (medium : Medium Name Entry Content) (wal : WAL Name Content)
    (record : Record Name Entry) : Decidable (wal.Rolls medium record) :=
  inferInstanceAs (Decidable (_ ∧ _))

def Succeeds {Result : Type} (result : Except Error Result) : Prop :=
  ∃ value, result = .ok value

theorem Succeeds.bind {First Second : Type} {first : Except Error First}
    {second : First → Except Error Second} (succeeds : Succeeds first)
    (next : ∀ value, first = .ok value → Succeeds (second value)) :
    Succeeds (first >>= second) := by
  rcases succeeds with ⟨value, isValue⟩
  rw [isValue]
  exact next value isValue

theorem Succeeds.map {First Second : Type} {first : Except Error First} {second : First → Second}
    (succeeds : Succeeds first) : Succeeds (first >>= fun value => pure (second value)) :=
  succeeds.bind fun value _ => ⟨second value, rfl⟩

namespace WAL

variable {medium : Medium Name Entry Content} {wal : WAL Name Content}

theorem appendRecord_succeeds (wal : WAL Name Content) {record : Record Name Entry}
    (small : record.Small medium.toFormat) : Succeeds (wal.appendRecord medium record) := by
  rw [appendRecord]
  simp only [if_neg (Nat.not_lt.mpr small)]
  exact ⟨_, rfl⟩

theorem checkOrder_ok {format : Format Name Entry} {lastIndex : Nat}
    (consecutive : Consecutive format.index lastIndex entries) :
    checkOrder format lastIndex entries = .ok () := by
  induction entries generalizing lastIndex with
  | nil => rfl
  | cons entry entries induction =>
      rw [checkOrder, if_neg (not_not.mpr consecutive.1)]
      exact induction consecutive.2

theorem appendEntries_succeeds (wal : WAL Name Content)
    (small : ∀ entry ∈ entries, Record.Small medium.toFormat (.logEntry entry)) :
    Succeeds (entries.foldlM (appendEntry medium) wal) := by
  induction entries generalizing wal with
  | nil => exact ⟨wal, rfl⟩
  | cons entry entries induction =>
      rcases List.forall_mem_cons.mp small with ⟨first, rest⟩
      rw [List.foldlM_cons]
      apply Succeeds.bind
      · exact (appendRecord_succeeds wal first).map
      · exact fun value _ => induction value rest

theorem call_succeeds {live : RecoveredState Name Entry} {call : Call Name Entry}
    (mirrors : wal.Mirrors medium.toFormat live) (accepted : call.Accepted medium.toFormat live) :
    Succeeds (wal.call medium call) := by
  have lastIndex := mirrors.lastLogIndex
  have commitIndex := mirrors.commitIndex
  cases call with
  | saveHardState state => exact (appendRecord_succeeds wal accepted.2).map
  | saveLogEntries entries =>
      rcases accepted with ⟨isNew, consecutive, small⟩
      have ordered : checkOrder medium.toFormat wal.lastLogIndex entries = .ok () := by
        rw [lastIndex]
        exact checkOrder_ok consecutive
      rw [call, saveLogEntries, if_neg isNew, ordered]
      exact (appendEntries_succeeds wal small).map
  | truncateLog firstIndex =>
      rcases accepted with ⟨above, within, small⟩
      rw [call, truncateLog, if_neg (by omega), if_neg (by omega)]
      exact (appendRecord_succeeds wal small).map
  | saveCommitIndex index =>
      rcases accepted with ⟨above, within, small⟩
      rw [call, saveCommitIndex, if_neg (by omega), if_neg (by omega)]
      split_ifs
      · exact ⟨wal, rfl⟩
      · exact (appendRecord_succeeds wal small).map
  | compact snapshotIndex snapshotTerm => exact accepted.elim
  | installSnapshot snapshotIndex snapshotTerm => exact accepted.elim

end WAL

/-! ## Sequences of accepted calls -/

section

variable {format : Format Name Entry} {live : RecoveredState Name Entry} {call : Call Name Entry}
  (accepted : call.Accepted format live)

include accepted

theorem Call.Accepted.appending : call.position = none := by
  cases call with
  | compact snapshotIndex snapshotTerm => exact accepted.elim
  | installSnapshot snapshotIndex snapshotTerm => exact accepted.elim
  | _ => rfl

theorem Call.Accepted.ordered {wal : WAL Name Content}
    (mirrors : wal.Mirrors format live) : call.Ordered wal := by
  intro state saves
  cases call with
  | saveHardState saved =>
      cases saves
      rw [mirrors.hardState]
      exact accepted.1
  | _ => cases saves

end

inductive Accepts (format : Format Name Entry) :
    RecoveredState Name Entry → List (Call Name Entry) → RecoveredState Name Entry → Prop
  | nil {live} : Accepts format live [] live
  | cons {live call calls final} : call.Accepted format live →
      Accepts format (call.effect format live) calls final →
      Accepts format live (call :: calls) final

theorem Appends.append {format : Format Name Entry} {live middle final : RecoveredState Name Entry}
    {records more : List (Record Name Entry)}
    (first : Appends format live records middle) (second : Appends format middle more final) :
    Appends format live (records ++ more) final := by
  induction first with
  | nil => exact second
  | cons extending _ induction => exact .cons extending (induction second)

theorem WAL.Sound.accepts [DecidableEq Name] {medium : Medium Name Entry Content}
    {wal : WAL Name Content} {records : List (Record Name Entry)}
    {live final : RecoveredState Name Entry} {calls : List (Call Name Entry)}
    (all : ∀ record, fits record) (sound : wal.Sound medium fits records live)
    (valid : live.Valid medium.toFormat) (accepts : Accepts medium.toFormat live calls final) :
    ∃ after more, calls.foldlM (WAL.call medium) wal = .ok after ∧
      Appends medium.toFormat live more final ∧
        after.Sound medium fits (records ++ more) final := by
  induction accepts generalizing wal records with
  | nil => exact ⟨wal, [], rfl, .nil, by rwa [List.append_nil]⟩
  | cons accepted _ induction =>
      rcases WAL.call_succeeds sound.mirrors accepted with ⟨middle, called⟩
      rcases sound.appends valid (fun record _ => all record)
        (accepted.ordered sound.mirrors) accepted.appending called with
        ⟨first, appends, _, soundMiddle⟩
      rcases induction soundMiddle (appends.valid valid) with ⟨after, more, rest, later, soundAfter⟩
      rw [List.foldlM_cons, called]
      rw [List.append_assoc] at soundAfter
      exact ⟨after, first ++ more, rest, appends.append later, soundAfter⟩

theorem WAL.Sound.installs [DecidableEq Name] {medium : Medium Name Entry Content}
    {wal : WAL Name Content} {records : List (Record Name Entry)} {live : RecoveredState Name Entry}
    {snapshotIndex snapshotTerm : Nat} (sound : wal.Sound medium fits records live)
    (lawful : medium.Lawful fits) (later : live.snapshotIndex ≤ snapshotIndex)
    (someIndex : snapshotIndex ≠ 0) (someTerm : snapshotTerm ≠ 0)
    (small : Record.Small medium.toFormat (.checkpoint
      (wal.checkpointAt snapshotIndex snapshotTerm (max wal.commitIndex snapshotIndex)))) :
    Succeeds (wal.installSnapshot medium snapshotIndex snapshotTerm) := by
  have within : ¬(snapshotIndex = 0 ∨ snapshotTerm = 0 ∨ snapshotIndex < wal.snapshotIndex) := by
    rw [sound.mirrors.snapshotIndex]
    omega
  rw [WAL.installSnapshot, if_neg within]
  apply Succeeds.map
  apply Succeeds.bind (Succeeds.map (WAL.appendRecord_succeeds wal small))
  intro middle saved
  rcases WAL.saveCheckpoint_segments sound.holds saved with ⟨_, older, olderIs, subset, _⟩
  rcases WAL.removeCovered_written lawful snapshotIndex
    (fun record present => sound.holds.1 record (subset record present)) with ⟨kept, removed, _⟩
  rw [olderIs, removed]
  exact ⟨_, rfl⟩

/-- Replay starts from the last checkpoint, and refuses a truncation of what it
says is committed. -/
theorem truncatesAfter_of_recovers [DecidableEq Name] {format : Format Name Entry}
    {live final state : RecoveredState Name Entry} {saved : CompactionCheckpoint Name}
    {kept more : List (Record Name Entry)} (within : ∀ record ∈ kept, record.Within live)
    (valid : live.Valid format) (advances : Advances live saved)
    (appends : Appends format (Advances.result format live saved) more final)
    (recovered : format.recoverRecords (kept ++ .checkpoint saved :: more) = .ok state) :
    TruncatesAfter saved.commitIndex kept := by
  have unvisited : ∀ {live final : RecoveredState Name Entry} {more},
    Appends format live more final →
      more.foldlM format.visitCheckpoint saved = .ok saved := by
    intro live final more appends
    induction appends with
    | nil => rfl
    | cons extending _ induction =>
        exact Fallible.foldlM_cons_eq_ok.mpr ⟨saved, extending.visitCheckpoint saved, induction⟩
  rcases recoverRecords_eq_ok.mp recovered with ⟨newest, searched, replayed, _⟩
  have isSaved : newest = saved := by
    rcases Fallible.foldlM_append_eq_ok.mp searched with ⟨_, _, rest⟩
    rcases Fallible.foldlM_cons_eq_ok.mp rest with ⟨visited, first, rest⟩
    have same : visited = saved := by
      rw [Format.visitCheckpoint] at first
      split_ifs at first
      exact (Except.ok.inj first).symm
    rw [same, unvisited appends] at rest
    exact (Except.ok.inj rest).symm
  rw [isSaved] at replayed
  rcases Fallible.foldlM_append_eq_ok.mp replayed with ⟨_, earlier, _⟩
  intro firstIndex present
  rcases List.append_of_mem present with ⟨before, after, rfl⟩
  rcases Fallible.foldlM_append_eq_ok.mp earlier with ⟨middle, reached, rest⟩
  rcases Fallible.foldlM_cons_eq_ok.mp rest with ⟨_, applied, _⟩
  have framed := replay_within (advances.valid valid).identified (fun record here =>
    (within record (List.mem_append_left _ here)).mono advances.below) reached
  rw [framed, Format.applyRecord] at applied
  split_ifs at applied with outside committed
  exact Nat.lt_of_not_le committed

theorem WAL.Sound.reopens [DecidableEq Name] {medium : Medium Name Entry Content}
    {wal : WAL Name Content} {records : List (Record Name Entry)} {live : RecoveredState Name Entry}
    (sound : wal.Sound medium fits records live) (intact : Intact medium.toFormat records live)
    (lawful : medium.Lawful fits) {segmentSize : Nat}
    (roomy : segmentHeaderSize + frameHeaderSize < segmentSize) :
    ∃ after, openWAL medium live.identity segmentSize wal.segments = .ok (after, live) ∧
      after.Sound medium fits records live := by
  have someSegment : wal.segments ≠ [] := List.append_ne_nil_of_right_ne_nil _ (by simp)
  exact ⟨_, WAL.opens lawful sound.holds someSegment intact rfl roomy,
    resume_sound sound.holds someSegment rfl⟩

/-! ## Sequences of records -/

section Records

variable {format : Format Name Entry} {live final : RecoveredState Name Entry}
  {records more : List (Record Name Entry)}

theorem Appends.split (appends : Appends format live (records ++ more) final) :
    ∃ middle, Appends format live records middle ∧ Appends format middle more final := by
  induction records generalizing live with
  | nil => exact ⟨live, .nil, appends⟩
  | cons record records induction =>
      cases appends with
      | cons extending rest =>
          rcases induction rest with ⟨middle, first, second⟩
          exact ⟨middle, .cons extending first, second⟩

theorem Appends.of_entries (appends : Appends format live (entries.map .logEntry) final) :
    Consecutive format.index live.lastIndex entries ∧
      final = live.withLog (live.log ++ entries) := by
  induction entries generalizing live with
  | nil =>
      cases appends
      rw [List.append_nil]
      exact ⟨trivial, rfl⟩
  | cons entry entries induction =>
      cases appends with
      | cons extending rest =>
          rcases induction rest with ⟨consecutive, same⟩
          have position : (live.withLog (live.log ++ [entry])).lastIndex = live.lastIndex + 1 := by
            rw [RecoveredState.lastIndex, RecoveredState.withLog_log, List.length_append]
            rfl
          refine ⟨⟨extending, ?_⟩, ?_⟩
          · rw [← position]
            exact consecutive
          · rw [same, List.append_cons]
            rfl

end Records

end Ternion.Wal
