import Ternion.Wal.Compaction
import Ternion.Wal.Written

/-! # What was saved is recovered

A log of bytes that was never compacted, after any sequence of successful calls
and with any segment sizes: opening it recovers what the calls mean, and the
retained bytes are counted as before.
-/

namespace Ternion.Wal

/-! ## Sizes -/

section Sizes

variable {Name Entry Content : Type} [Inhabited Name] {medium : Medium Name Entry Content}
  {wal after : WAL Name Content}

theorem WAL.appendRecord_short {record : Record Name Entry}
    (appended : wal.appendRecord medium record = .ok after) :
    1 + medium.payloadSize record ≤ maxRecordSize := by
  rw [appendRecord] at appended
  split_ifs at appended with long
  all_goals omega

theorem WAL.appendEntries_short {entries : List Entry}
    (appended : entries.foldlM (appendEntry medium) wal = .ok after) :
    ∀ entry ∈ entries, 1 + medium.payloadSize (.logEntry entry) ≤ maxRecordSize := by
  induction entries generalizing wal with
  | nil => exact fun _ absent => absurd absent List.not_mem_nil
  | cons entry entries induction =>
      rcases Fallible.foldlM_cons_eq_ok.mp appended with ⟨middle, first, rest⟩
      rcases Fallible.bind_eq_ok.mp first with ⟨extended, put, _⟩
      intro other present
      rcases List.mem_cons.mp present with same | later
      · rw [same]
        exact appendRecord_short put
      · exact induction rest other later

theorem WAL.checkpoint_short {snapshotIndex snapshotTerm commitIndex : Nat}
    (installed : wal.installSnapshotCheckpoint medium snapshotIndex snapshotTerm commitIndex =
      .ok after) :
    1 + medium.payloadSize (.checkpoint (wal.checkpointAt snapshotIndex snapshotTerm commitIndex)) ≤
      maxRecordSize := by
  rcases Fallible.bind_eq_ok.mp installed with ⟨saved, saving, _⟩
  rcases Fallible.bind_eq_ok.mp saving with ⟨middle, appended, _⟩
  exact appendRecord_short appended

theorem WAL.call_short {call : Call Name Entry}
    (small : ∀ index, 1 + medium.payloadSize (.commitIndex index) ≤ maxRecordSize)
    (called : wal.call medium call = .ok after) :
    ∀ record ∈ call.records wal, 1 + medium.payloadSize record ≤ maxRecordSize := by
  cases call with
  | saveHardState state =>
      rcases Fallible.bind_eq_ok.mp called with ⟨middle, appended, _⟩
      simpa [Call.records] using appendRecord_short appended
  | saveLogEntries entries =>
      rw [WAL.call, WAL.saveLogEntries] at called
      split_ifs at called
      rcases Fallible.bind_eq_ok.mp called with ⟨_, _, appending⟩
      rcases Fallible.bind_eq_ok.mp appending with ⟨middle, appended, _⟩
      simpa [Call.records] using appendEntries_short appended
  | truncateLog firstIndex =>
      rw [WAL.call, WAL.truncateLog] at called
      split_ifs at called
      rcases Fallible.bind_eq_ok.mp called with ⟨middle, appended, _⟩
      simpa [Call.records] using appendRecord_short appended
  | saveCommitIndex index => simpa [Call.records] using small index
  | compact snapshotIndex snapshotTerm =>
      rw [WAL.call, WAL.compact] at called
      split_ifs at called
      simpa [Call.records] using checkpoint_short called
  | installSnapshot snapshotIndex snapshotTerm =>
      rw [WAL.call, WAL.installSnapshot] at called
      split_ifs at called
      rcases Fallible.bind_eq_ok.mp called with ⟨middle, installed, _⟩
      simpa [Call.records] using checkpoint_short installed

end Sizes

/-! ## The reference store -/

/-- The state of a log that was not compacted. -/
def Reference.stored (identity : Identity Bytes) (reference : Reference Bytes LogEntry) :
    RecoveredState Bytes LogEntry where
  identity := identity
  hardState := reference.hardState
  log := reference.log
  commitIndex := reference.commitIndex
  snapshotIndex := 0
  snapshotTerm := 0

/-- Calls that save and truncate, with hard states in order and numbers that
are machine words. -/
def Session.Saves (codec : Codec) (session : Session Bytes LogEntry Bytes) :
    Action Bytes LogEntry → Prop
  | .reopen _ => True
  | .call call => call.position = none ∧ call.Ordered session.wal ∧
      ∀ record ∈ call.records session.wal, codec.Writable record

instance (codec : Codec) (session : Session Bytes LogEntry Bytes) :
    (action : Action Bytes LogEntry) → Decidable (session.Saves codec action)
  | .reopen _ => .isTrue trivial
  | .call _ => inferInstanceAs (Decidable (_ ∧ _ ∧ _))

theorem Call.effect_stored (codec : Codec) (identity : Identity Bytes)
    {reference : Reference Bytes LogEntry} (call : Call Bytes LogEntry)
    (consecutive : Consecutive LogEntry.index 0 reference.log) (appending : call.position = none) :
    call.effect codec.format (reference.stored identity) =
      (reference.apply codec.format call).stored identity := by
  cases call with
  | saveHardState state => rfl
  | saveLogEntries entries => rfl
  | truncateLog firstIndex =>
      have kept : reference.log.take (firstIndex - 0 - 1) =
          reference.log.filter fun entry => entry.index < firstIndex := by
        rw [Nat.sub_right_comm]
        exact (consecutive.filter_lt firstIndex).symm
      exact congrArg (RecoveredState.withLog _) kept
  | saveCommitIndex index => rfl
  | compact snapshotIndex snapshotTerm => cases appending
  | installSnapshot snapshotIndex snapshotTerm => cases appending

section Sessions

variable {codec : Codec} {identity : Identity Bytes} {segmentSize : Nat}
  {session after : Session Bytes LogEntry Bytes}

theorem call_fits {call : Call Bytes LogEntry} {wal written : WAL Bytes Bytes}
    (writable : ∀ record ∈ call.records wal, codec.Writable record)
    (called : wal.call codec.medium call = .ok written) : call.Fits codec.Fits wal := by
  have small : ∀ index, 1 + codec.medium.payloadSize (.commitIndex index) ≤ maxRecordSize := by
    intro index
    change 1 + (bigEndian 8 index).length ≤ maxRecordSize
    rw [length_bigEndian]
    decide
  intro record present
  exact Codec.fits_of_writable (WAL.call_short small called record present)
    (writable record present)

theorem Session.Saves.admits {action : Action Bytes LogEntry} (saves : session.Saves codec action)
    (taken : session.next codec.medium action = some after) :
    session.Admits codec.Fits action := by
  cases action with
  | reopen size => trivial
  | call call =>
      rcases saves with ⟨appending, ordered, writable⟩
      refine ⟨call_fits writable (Session.next_call taken).1, ordered, fun position recorded => ?_⟩
      rw [appending] at recorded
      cases recorded

section

variable {wal : WAL Bytes Bytes} {recovered : RecoveredState Bytes LogEntry}
  (opened : WAL.openWAL codec.medium identity segmentSize [] = .ok (wal, recovered))

include opened

theorem identity_fits :
    codec.Fits (.clusterIdentity identity.clusterID) ∧
      codec.Fits (.nodeIdentity identity.nodeID) := by
  rw [WAL.openWAL] at opened
  split_ifs at opened with _ _ some
  · rcases Fallible.bind_eq_ok.mp opened with ⟨created, made, _⟩
    rcases Fallible.bind_eq_ok.mp made with ⟨middle, first, second⟩
    exact ⟨Codec.fits_of_writable (WAL.appendRecord_short first) trivial,
      Codec.fits_of_writable (WAL.appendRecord_short second) trivial⟩
  · exact absurd rfl some

theorem kept_stored
    (reachable : (sessionSystem codec.medium wal).Reachable (Session.Saves codec) session) :
    ∃ records, Kept codec.medium codec.Fits identity session records
      ((session.reference codec.format).stored identity) := by
  rcases identity_fits opened with ⟨cluster, node⟩
  apply reachable.invariant fun session => ∃ records, Kept codec.medium codec.Fits identity session
    records ((session.reference codec.format).stored identity)
  · intro session started
    exact started ▸ ⟨_, .start cluster node opened⟩
  · rintro before action after ⟨records, kept⟩ saves taken
    cases action with
    | reopen size =>
        refine ⟨records, ?_⟩
        have same : after.reference codec.format = before.reference codec.format := by
          rcases Session.next_reopen taken with ⟨_, _, history⟩
          rw [Session.reference, history]
          rfl
        rw [same]
        exact kept.reopen Codec.medium_lawful taken
    | call call =>
        rcases kept.call Codec.medium_lawful (saves.admits taken) taken with ⟨left, keeps⟩
        have effect := call.effect_stored codec identity kept.intact.valid.consecutive saves.1
        rw [← Session.reference_call (Session.next_call taken).2] at effect
        exact ⟨left, effect ▸ keeps⟩

end

/-- Opening recovers what the calls mean, and counts the same retained bytes. -/
theorem saved_recovered {wal : WAL Bytes Bytes} {recovered : RecoveredState Bytes LogEntry}
    (opened : WAL.openWAL codec.medium identity segmentSize [] = .ok (wal, recovered))
    (reachable : (sessionSystem codec.medium wal).Reachable (Session.Saves codec) session)
    {newSize : Nat} (roomy : segmentHeaderSize + frameHeaderSize < newSize) :
    ∃ reopened, WAL.openWAL codec.medium identity newSize session.wal.segments =
        .ok (reopened, (session.reference codec.format).stored identity) ∧
      ∀ throughIndex, reopened.retainedLogBytes throughIndex =
        session.wal.retainedLogBytes throughIndex := by
  rcases kept_stored opened reachable with ⟨records, kept⟩
  have someSegment : session.wal.segments ≠ [] := List.append_ne_nil_of_right_ne_nil _ (by simp)
  have opens := WAL.opens Codec.medium_lawful kept.sound.holds someSegment kept.intact
    kept.identified roomy
  refine ⟨_, opens, fun throughIndex => ?_⟩
  have mirrors := kept.sound.mirrors
  rw [WAL.retainedLogBytes, WAL.retainedLogBytes, mirrors.snapshotIndex, mirrors.entryBytes]
  rfl

end Sessions

/-! ## A small log of bytes -/

def bytesIdentity : Identity Bytes := ⟨[0x63], [0x6e]⟩

/-- A new log, whose first segment has room for the identity. -/
def bytesLog (segmentSize : Nat) : WAL Bytes Bytes where
  segmentSize := segmentSize
  older := []
  active := plainCodec.medium.write [.clusterIdentity [0x63], .nodeIdentity [0x6e]]
  offset := 32
  lastLogIndex := 0
  commitIndex := 0
  hardState := ⟨0, []⟩
  identity := bytesIdentity
  snapshotIndex := 0
  snapshotTerm := 0
  entryBytes := fun _ => 0

/-- An entry that sets a value. -/
def bytesEntry (index term : Nat) (value : Bytes) : LogEntry where
  index := index
  term := term
  type := 2
  sessionID := Vector.replicate 16 1
  sequence := 1
  key := [0x6b]
  value := value

def bytesRun : List (Action Bytes LogEntry) := [
  .call (.saveHardState ⟨1, [0x6e]⟩),
  .call (.saveLogEntries [bytesEntry 1 1 [0, 255], bytesEntry 2 1 []]),
  .reopen 21,
  .call (.truncateLog 2),
  .call (.saveLogEntries [bytesEntry 2 2 [7]]),
  .call (.saveCommitIndex 2)]

theorem saved_recovered_replaced :
    ∃ session, (sessionSystem plainCodec.medium (bytesLog 100)).Reachable
        (Session.Saves plainCodec) session ∧
      session.wal.older.length = 5 ∧
      ∃ reopened, WAL.openWAL plainCodec.medium bytesIdentity 50 session.wal.segments =
          .ok (reopened, (session.reference plainCodec.format).stored bytesIdentity) ∧
        reopened.retainedLogBytes 2 = session.wal.retainedLogBytes 2 := by
  have executed : (System.execute (Session.next plainCodec.medium)
      (fun session action => decide (session.Saves plainCodec action)) bytesRun
      { wal := bytesLog 100 }).map (fun session => session.wal.older.length) = some 5 := by
    decide +kernel
  rcases System.reachable_of_execute (fun _ _ => of_decide_eq_true) executed with
    ⟨session, reachable, split⟩
  have opened : WAL.openWAL plainCodec.medium bytesIdentity 100 [] =
    .ok (bytesLog 100, .fresh bytesIdentity) := rfl
  rcases saved_recovered opened reachable (show segmentHeaderSize + frameHeaderSize < 50 by decide)
    with ⟨reopened, opens, same⟩
  exact ⟨session, reachable, split, reopened, opens, same 2⟩

end Ternion.Wal
