import Ternion.Wal.RoundTrip

/-! # Calls that are rejected

What a call leaves when it returns an error. Most calls check everything before
their first write, and a rejected one leaves nothing. A batch of entries meets
the size limit entry by entry, and the entries before one that is too large
stay.
-/

namespace Ternion.Wal

def Error.rejects : Error → Bool
  | .noEntries => true
  | .recordTooLarge _ => true
  | .commitDecreased _ _ => true
  | .snapshotOutsideCommitted _ _ => true
  | .invalidSnapshotPosition _ _ => true
  | .entryFollows _ _ => true
  | .truncationOutsideLog _ _ => true
  | .truncationOfCommitted _ _ => true
  | .commitExceedsLog _ _ => true
  | _ => false

variable {Name Entry Content : Type} [Inhabited Name]

namespace WAL

def settle (wal : WAL Name Content) :
    Except Error (WAL Name Content) → WAL Name Content × Except Error Unit
  | .error failure => (wal, .error failure)
  | .ok after => (after, .ok ())

variable (medium : Medium Name Entry Content)

def tryEntries (wal : WAL Name Content) : List Entry → WAL Name Content × Except Error Unit
  | [] => (wal, .ok ())
  | entry :: entries =>
      match wal.appendEntry medium entry with
      | .error failure => (wal, .error failure)
      | .ok extended => tryEntries extended entries

def tryRemove (snapshotIndex : Nat) : List Content → List Content × Except Error Unit
  | [] => ([], .ok ())
  | content :: contents =>
      match medium.segmentCoveredBySnapshot snapshotIndex content with
      | .error failure => (content :: contents, .error failure)
      | .ok covered =>
          let rest := tryRemove snapshotIndex contents
          (if covered then rest.1 else content :: rest.1, rest.2)

def tryCheckpoint (wal : WAL Name Content) (snapshotIndex snapshotTerm commitIndex : Nat) :
    WAL Name Content × Except Error Unit :=
  match wal.saveCheckpoint medium snapshotIndex snapshotTerm commitIndex with
  | .error failure => (wal, .error failure)
  | .ok saved =>
      match tryRemove medium snapshotIndex saved.older with
      | (kept, .error failure) => ({ saved with older := kept }, .error failure)
      | (kept, .ok ()) => ({ saved with
          older := kept
          entryBytes := fun index =>
            if index ≤ snapshotIndex then 0 else saved.entryBytes index }, .ok ())

def attempt (wal : WAL Name Content) : Call Name Entry → WAL Name Content × Except Error Unit
  | .saveHardState state => wal.settle (wal.saveHardState medium state)
  | .saveLogEntries entries =>
      if entries = [] then (wal, .error .noEntries)
      else
        match checkOrder medium.toFormat wal.lastLogIndex entries with
        | .error failure => (wal, .error failure)
        | .ok () =>
            match wal.tryEntries medium entries with
            | (extended, .error failure) => (extended, .error failure)
            | (extended, .ok ()) =>
                ({ extended with lastLogIndex := extended.lastLogIndex + entries.length }, .ok ())
  | .truncateLog firstIndex => wal.settle (wal.truncateLog medium firstIndex)
  | .saveCommitIndex index => wal.settle (wal.saveCommitIndex medium index)
  | .compact snapshotIndex snapshotTerm =>
      if snapshotIndex = 0 ∨ wal.commitIndex < snapshotIndex then
        (wal, .error (.snapshotOutsideCommitted snapshotIndex wal.commitIndex))
      else wal.tryCheckpoint medium snapshotIndex snapshotTerm wal.commitIndex
  | .installSnapshot snapshotIndex snapshotTerm =>
      if snapshotIndex = 0 ∨ snapshotTerm = 0 ∨ snapshotIndex < wal.snapshotIndex then
        (wal, .error (.invalidSnapshotPosition snapshotIndex snapshotTerm))
      else
        match wal.tryCheckpoint medium snapshotIndex snapshotTerm
          (max wal.commitIndex snapshotIndex) with
        | (saved, .error failure) => (saved, .error failure)
        | (saved, .ok ()) => ({ saved with
            commitIndex := max saved.commitIndex snapshotIndex
            lastLogIndex := max saved.lastLogIndex snapshotIndex }, .ok ())

/-- All calls of a sequence, with their outcomes. -/
def attempts (wal : WAL Name Content) :
    List (Call Name Entry) → WAL Name Content × List (Except Error Unit)
  | [] => (wal, [])
  | call :: calls =>
      let first := wal.attempt medium call
      let rest := first.1.attempts calls
      (rest.1, first.2 :: rest.2)

end WAL

/-- The outcome is a rejection. -/
def rejected : Except Error Unit → Bool
  | .error failure => failure.rejects
  | .ok () => false

/-- The calls of a sequence that were not rejected. -/
def WAL.remaining (medium : Medium Name Entry Content) (wal : WAL Name Content) :
    List (Call Name Entry) → List (Call Name Entry)
  | [] => []
  | call :: calls =>
      let first := wal.attempt medium call
      if rejected first.2 then remaining medium first.1 calls
      else call :: remaining medium first.1 calls

/-- A batch is too large from its first entry on, or not at all. -/
def Call.Uniform (format : Format Name Entry) : Call Name Entry → Prop
  | .saveLogEntries entries => ∀ first ∈ entries.head?,
      1 + format.payloadSize (.logEntry first) ≤ maxRecordSize →
      ∀ entry ∈ entries, 1 + format.payloadSize (.logEntry entry) ≤ maxRecordSize
  | _ => True

instance (format : Format Name Entry) : ∀ call : Call Name Entry, Decidable (call.Uniform format)
  | .saveLogEntries entries => inferInstanceAs (Decidable (∀ first ∈ entries.head?,
      1 + format.payloadSize (.logEntry first) ≤ maxRecordSize →
      ∀ entry ∈ entries, 1 + format.payloadSize (.logEntry entry) ≤ maxRecordSize))
  | .saveHardState _ | .truncateLog _ | .saveCommitIndex _ | .compact _ _ | .installSnapshot _ _ =>
      .isTrue trivial

/-! ## Calls that succeed -/

section Outcomes

variable {medium : Medium Name Entry Content} {wal : WAL Name Content}

theorem WAL.foldlM_appendEntry (entries : List Entry) :
    entries.foldlM (WAL.appendEntry medium) wal =
      (wal.tryEntries medium entries).2.map fun _ => (wal.tryEntries medium entries).1 := by
  induction entries generalizing wal with
  | nil => rfl
  | cons entry entries induction =>
      rw [List.foldlM_cons, tryEntries]
      cases wal.appendEntry medium entry with
      | error failure => rfl
      | ok extended => exact induction

theorem WAL.removeCovered_eq (snapshotIndex : Nat) (contents : List Content) :
    WAL.removeCovered medium snapshotIndex contents =
      (tryRemove medium snapshotIndex contents).2.map fun _ =>
        (tryRemove medium snapshotIndex contents).1 := by
  induction contents with
  | nil => rfl
  | cons content contents induction =>
      rw [removeCovered, tryRemove, induction]
      cases medium.segmentCoveredBySnapshot snapshotIndex content with
      | error failure => rfl
      | ok covered =>
          rcases tryRemove medium snapshotIndex contents with ⟨kept, failure | _⟩
          · rfl
          · rfl

theorem WAL.installSnapshotCheckpoint_eq (snapshotIndex snapshotTerm commitIndex : Nat) :
    wal.installSnapshotCheckpoint medium snapshotIndex snapshotTerm commitIndex =
      (wal.tryCheckpoint medium snapshotIndex snapshotTerm commitIndex).2.map fun _ =>
        (wal.tryCheckpoint medium snapshotIndex snapshotTerm commitIndex).1 := by
  rw [installSnapshotCheckpoint, tryCheckpoint]
  cases wal.saveCheckpoint medium snapshotIndex snapshotTerm commitIndex with
  | error failure => rfl
  | ok saved =>
      change (removeCovered medium snapshotIndex saved.older >>= fun kept => pure _) = _
      rw [removeCovered_eq]
      dsimp only
      rcases tryRemove medium snapshotIndex saved.older with ⟨kept, failure | _⟩
      · rfl
      · rfl

theorem WAL.call_eq (call : Call Name Entry) :
    wal.call medium call =
      (wal.attempt medium call).2.map fun _ => (wal.attempt medium call).1 := by
  have settled : ∀ result : Except Error (WAL Name Content),
      result = (wal.settle result).2.map fun _ => (wal.settle result).1 := by
    intro result
    cases result with
    | error failure => rfl
    | ok after => rfl
  cases call with
  | saveHardState state => exact settled _
  | truncateLog firstIndex => exact settled _
  | saveCommitIndex index => exact settled _
  | saveLogEntries entries =>
      rw [call, attempt, saveLogEntries, foldlM_appendEntry]
      split_ifs
      · rfl
      · cases checkOrder medium.toFormat wal.lastLogIndex entries with
        | error failure => rfl
        | ok _ =>
            rcases wal.tryEntries medium entries with ⟨extended, failure | _⟩
            · rfl
            · rfl
  | compact snapshotIndex snapshotTerm =>
      rw [call, attempt, compact, installSnapshotCheckpoint_eq]
      split_ifs
      · rfl
      · rfl
  | installSnapshot snapshotIndex snapshotTerm =>
      rw [call, attempt, installSnapshot, installSnapshotCheckpoint_eq]
      split_ifs
      · rfl
      · rcases wal.tryCheckpoint medium snapshotIndex snapshotTerm
          (max wal.commitIndex snapshotIndex) with ⟨saved, failure | _⟩
        · rfl
        · rfl

end Outcomes

/-! ## Rejected calls leave nothing -/

section Attempts

variable {medium : Medium Name Entry Content} {wal after : WAL Name Content}
  {call : Call Name Entry}

omit [Inhabited Name] in
theorem WAL.settle_rejected {result : Except Error (WAL Name Content)}
    (isRejected : rejected (wal.settle result).2 = true) : (wal.settle result).1 = wal := by
  cases result with
  | error failure => rfl
  | ok after => cases isRejected

theorem WAL.appendEntry_short {entry : Entry}
    (short : 1 + medium.payloadSize (.logEntry entry) ≤ maxRecordSize) :
    ∃ extended, wal.appendEntry medium entry = .ok extended := by
  rw [appendEntry, appendRecord]
  simp only [if_neg (Nat.not_lt.mpr short)]
  exact ⟨_, rfl⟩

theorem WAL.appendEntry_large {entry : Entry}
    (large : maxRecordSize < 1 + medium.payloadSize (.logEntry entry)) :
    wal.appendEntry medium entry =
      .error (.recordTooLarge (1 + medium.payloadSize (.logEntry entry))) := by
  rw [appendEntry, appendRecord]
  simp only [if_pos large]
  rfl

theorem WAL.tryEntries_short {entries : List Entry}
    (short : ∀ entry ∈ entries, 1 + medium.payloadSize (.logEntry entry) ≤ maxRecordSize) :
    (wal.tryEntries medium entries).2 = .ok () := by
  induction entries generalizing wal with
  | nil => rfl
  | cons entry entries induction =>
      rcases appendEntry_short (short entry List.mem_cons_self) with ⟨extended, put⟩
      rw [tryEntries, put]
      exact induction fun other present => short other (List.mem_cons_of_mem _ present)

theorem WAL.tryEntries_uniform {entries : List Entry}
    (uniform : (Call.saveLogEntries entries).Uniform medium.toFormat)
    (failed : (wal.tryEntries medium entries).2 ≠ .ok ()) :
    (wal.tryEntries medium entries).1 = wal := by
  cases entries with
  | nil => rfl
  | cons entry entries =>
      by_cases short : 1 + medium.payloadSize (.logEntry entry) ≤ maxRecordSize
      · exact absurd (tryEntries_short (uniform entry rfl short)) failed
      · rw [tryEntries, appendEntry_large (Nat.lt_of_not_le short)]

theorem WAL.tryRemove_rejected {snapshotIndex : Nat} {contents : List Content}
    (reads : ∀ content failure, medium.segmentCoveredBySnapshot snapshotIndex content =
      .error failure → failure.rejects = false) :
    rejected (tryRemove medium snapshotIndex contents).2 = false := by
  induction contents with
  | nil => rfl
  | cons content contents induction =>
      rw [tryRemove]
      cases read : medium.segmentCoveredBySnapshot snapshotIndex content with
      | error failure => exact reads content failure read
      | ok covered => exact induction

theorem WAL.tryCheckpoint_rejected {snapshotIndex snapshotTerm commitIndex : Nat}
    (reads : ∀ content failure, medium.segmentCoveredBySnapshot snapshotIndex content =
      .error failure → failure.rejects = false)
    (isRejected : rejected
      (wal.tryCheckpoint medium snapshotIndex snapshotTerm commitIndex).2 = true) :
    (wal.tryCheckpoint medium snapshotIndex snapshotTerm commitIndex).1 = wal := by
  rw [tryCheckpoint] at isRejected ⊢
  cases stored : wal.saveCheckpoint medium snapshotIndex snapshotTerm commitIndex with
  | error failure => rfl
  | ok saved =>
      have removing : rejected (tryRemove medium snapshotIndex saved.older).2 = false :=
        tryRemove_rejected reads
      cases removed : tryRemove medium snapshotIndex saved.older with
      | mk kept result =>
          simp only [stored, removed] at removing isRejected
          cases result with
          | error failure => exact absurd (isRejected.symm.trans removing) (by decide)
          | ok _ => cases isRejected

section

variable
  (reads : ∀ snapshotIndex content failure, medium.segmentCoveredBySnapshot snapshotIndex content =
    .error failure → failure.rejects = false)

include reads

theorem WAL.attempt_rejected (uniform : call.Uniform medium.toFormat)
    (isRejected : rejected (wal.attempt medium call).2 = true) :
    (wal.attempt medium call).1 = wal := by
  cases call with
  | saveHardState state => exact settle_rejected isRejected
  | truncateLog firstIndex => exact settle_rejected isRejected
  | saveCommitIndex index => exact settle_rejected isRejected
  | saveLogEntries entries =>
      rw [attempt] at isRejected ⊢
      split_ifs at isRejected ⊢ with empty
      · rfl
      · cases checked : checkOrder medium.toFormat wal.lastLogIndex entries with
        | error failure => rfl
        | ok _ =>
            rw [checked] at isRejected
            have unchanged : (wal.tryEntries medium entries).2 ≠ .ok () →
                (wal.tryEntries medium entries).1 = wal :=
              tryEntries_uniform uniform
            cases tried : wal.tryEntries medium entries with
            | mk extended result =>
                simp only [tried] at isRejected unchanged ⊢
                cases result with
                | error failure => exact unchanged (by simp)
                | ok _ => cases isRejected
  | compact snapshotIndex snapshotTerm =>
      rw [attempt] at isRejected ⊢
      split_ifs at isRejected ⊢ with outside
      · rfl
      · exact tryCheckpoint_rejected (reads snapshotIndex) isRejected
  | installSnapshot snapshotIndex snapshotTerm =>
      rw [attempt] at isRejected ⊢
      split_ifs at isRejected ⊢ with invalid
      · rfl
      · have unchanged : rejected (wal.tryCheckpoint medium snapshotIndex snapshotTerm
              (max wal.commitIndex snapshotIndex)).2 = true →
            (wal.tryCheckpoint medium snapshotIndex snapshotTerm
              (max wal.commitIndex snapshotIndex)).1 = wal :=
          tryCheckpoint_rejected (reads snapshotIndex)
        cases tried : wal.tryCheckpoint medium snapshotIndex snapshotTerm
          (max wal.commitIndex snapshotIndex) with
        | mk saved result =>
            simp only [tried] at isRejected unchanged ⊢
            cases result with
            | error failure => exact unchanged isRejected
            | ok _ => cases isRejected

theorem WAL.attempts_remaining
    {calls : List (Call Name Entry)} (uniform : ∀ call ∈ calls, call.Uniform medium.toFormat) :
    wal.attempts medium (wal.remaining medium calls) =
      ((wal.attempts medium calls).1,
        (wal.attempts medium calls).2.filter fun outcome => !rejected outcome) := by
  induction calls generalizing wal with
  | nil => rfl
  | cons call calls induction =>
      have later : ∀ call ∈ calls, call.Uniform medium.toFormat :=
        fun other present => uniform other (List.mem_cons_of_mem _ present)
      rw [remaining]
      cases isRejected : rejected (wal.attempt medium call).2 with
      | true =>
          have unchanged := attempt_rejected reads (uniform call List.mem_cons_self) isRejected
          rw [if_pos rfl, unchanged, induction later, attempts]
          simp only [isRejected, unchanged, List.filter_cons, Bool.not_true, Bool.false_eq_true,
            if_false]
      | false =>
          rw [if_neg Bool.false_ne_true, attempts, induction later, attempts]
          simp only [isRejected, List.filter_cons, Bool.not_false, if_true]

end

end Attempts

theorem Codec.segmentCoveredBySnapshot_rejects {codec : Codec} {snapshotIndex : Nat}
    {contents : Bytes} {failure : Error}
    (failed : codec.segmentCoveredBySnapshot snapshotIndex contents = .error failure) :
    failure.rejects = false := by
  rw [segmentCoveredBySnapshot, scanSegmentFrames_eq, readSegment] at failed
  cases checked : checkHeader contents with
  | error other =>
      rw [checked] at failed
      cases failed
      rw [checkHeader] at checked
      split_ifs at checked
      all_goals
        cases checked
        rfl
  | ok _ =>
      have within := checkHeader_ok checked
      simp only [checked, readFrames_eq (Nat.sub_le ..) within] at failed
      cases scanned : codec.framing.scanWithin faultError (bodyVisit (visitCovered snapshotIndex))
        false contents.length (contents.drop segmentHeaderSize) true with
      | mk covered result =>
          rw [scanned] at failed
          cases result with
          | ok left => cases failed
          | error other =>
              cases failed
              rcases Framing.scanWithin_eq_error _ _ _ (congrArg Prod.snd scanned) with
                ⟨fault, same⟩ | ⟨state, body, visited⟩
              · rw [same]
                cases fault <;> rfl
              · cases visited

/-- Rejected calls can be left out: the other calls end as they did, the same
bytes are accounted for, and the same state is recovered. -/
theorem rejected_removed (codec : Codec) (wal : WAL Bytes Bytes)
    (calls : List (Call Bytes LogEntry))
    (uniform : ∀ call ∈ calls, call.Uniform codec.format) :
    let all := wal.attempts codec.medium calls
    let kept := wal.attempts codec.medium (wal.remaining codec.medium calls)
    kept.2 = all.2.filter (fun outcome => !rejected outcome) ∧
      (∀ throughIndex, kept.1.retainedLogBytes throughIndex =
        all.1.retainedLogBytes throughIndex) ∧
      ∀ identity segmentSize, WAL.openWAL codec.medium identity segmentSize kept.1.segments =
        WAL.openWAL codec.medium identity segmentSize all.1.segments := by
  have same : wal.attempts codec.medium (wal.remaining codec.medium calls) =
      ((wal.attempts codec.medium calls).1,
        (wal.attempts codec.medium calls).2.filter fun outcome => !rejected outcome) :=
    WAL.attempts_remaining (fun _ _ _ => Codec.segmentCoveredBySnapshot_rejects) uniform
  dsimp only
  rw [same]
  exact ⟨rfl, fun _ => rfl, fun _ _ => rfl⟩

/-- One entry is saved and committed, the other calls are rejected. -/
def rejectedRun : List (Call Bytes LogEntry) := [
  .saveCommitIndex 1,
  .saveLogEntries [bytesEntry 1 1 []],
  .truncateLog 3,
  .saveCommitIndex 1,
  .compact 2 1,
  .saveLogEntries [bytesEntry 3 1 []],
  .truncateLog 1]

theorem rejected_removed_run :
    let all := (bytesLog 100).attempts plainCodec.medium rejectedRun
    let kept := (bytesLog 100).attempts plainCodec.medium
      ((bytesLog 100).remaining plainCodec.medium rejectedRun)
    all.2.map rejected = [true, false, true, false, true, true, true] ∧
      kept.2 = [.ok (), .ok ()] ∧
      kept.1.retainedLogBytes 1 = all.1.retainedLogBytes 1 := by
  have outcomes : ((bytesLog 100).attempts plainCodec.medium rejectedRun).2.map rejected =
      [true, false, true, false, true, true, true] ∧
      ((bytesLog 100).attempts plainCodec.medium rejectedRun).2.filter
        (fun outcome => !rejected outcome) = [.ok (), .ok ()] := by decide +kernel
  have uniform : ∀ call ∈ rejectedRun, call.Uniform plainCodec.format := by decide +kernel
  rcases rejected_removed plainCodec (bytesLog 100) rejectedRun uniform with ⟨same, bytes, _⟩
  exact ⟨outcomes.1, same.trans outcomes.2, bytes 1⟩

/-- Two entries, of which the second has a given value. -/
def pairBatch (value : Bytes) : Call Bytes LogEntry :=
  .saveLogEntries [bytesEntry 1 1 [], bytesEntry 2 1 value]

theorem payloadSize_bytesEntry (index term : Nat) (value : Bytes) :
    plainCodec.medium.payloadSize (.logEntry (bytesEntry index term value)) = 50 + value.length :=
  Codec.length_entryPayload (bytesEntry index term value)

section

variable {after : WAL Bytes Bytes} {value : Bytes} (long : maxRecordSize ≤ value.length)
  (first : (bytesLog 100).appendEntry plainCodec.medium (bytesEntry 1 1 []) = .ok after)

include long first

theorem attempt_pairBatch :
    ∃ size, (bytesLog 100).attempt plainCodec.medium (pairBatch value) =
      (after, .error (.recordTooLarge size)) := by
  have large : maxRecordSize <
      1 + plainCodec.medium.payloadSize (.logEntry (bytesEntry 2 1 value)) := by
    rw [payloadSize_bytesEntry]
    omega
  have ordered : WAL.checkOrder plainCodec.medium.toFormat (bytesLog 100).lastLogIndex
      [bytesEntry 1 1 [], bytesEntry 2 1 value] = .ok () := rfl
  refine ⟨1 + plainCodec.medium.payloadSize (.logEntry (bytesEntry 2 1 value)), ?_⟩
  rw [pairBatch, WAL.attempt, if_neg (List.cons_ne_nil _ _), ordered, WAL.tryEntries, first]
  dsimp only
  rw [WAL.tryEntries, WAL.appendEntry_large large]

theorem attempts_pairBatch : (bytesLog 100).remaining plainCodec.medium [pairBatch value] = [] ∧
      ∃ size, (bytesLog 100).attempts plainCodec.medium [pairBatch value] =
        (after, [.error (.recordTooLarge size)]) := by
  rcases attempt_pairBatch long first with ⟨size, attempted⟩
  constructor
  · rw [WAL.remaining, attempted]
    rfl
  · exact ⟨size, by rw [WAL.attempts, attempted]; rfl⟩

end

/-- The call returns an error, and its first entry is accounted for and
recovered. -/
theorem rejected_retained :
    let calls := [pairBatch (List.replicate maxRecordSize 0)]
    let all := (bytesLog 100).attempts plainCodec.medium calls
    let kept := (bytesLog 100).attempts plainCodec.medium
      ((bytesLog 100).remaining plainCodec.medium calls)
    all.2.map rejected = [true] ∧
      all.1.retainedLogBytes 1 = 59 ∧ kept.1.retainedLogBytes 1 = 0 ∧
      ((WAL.openWAL plainCodec.medium bytesIdentity 100 all.1.segments).map
        fun opened => opened.2.log).toOption = some [bytesEntry 1 1 []] ∧
      ((WAL.openWAL plainCodec.medium bytesIdentity 100 kept.1.segments).map
        fun opened => opened.2.log).toOption = some [] := by
  -- The large value stands for any of its length, and is never computed.
  have long : maxRecordSize ≤ (List.replicate maxRecordSize (0 : UInt8)).length :=
    Nat.le_of_eq List.length_replicate.symm
  generalize List.replicate maxRecordSize (0 : UInt8) = value at long
  have small : 1 + plainCodec.medium.payloadSize (.logEntry (bytesEntry 1 1 [])) ≤
      maxRecordSize := by
    decide
  rcases WAL.appendEntry_short small with ⟨after, first⟩
  have observed : ((bytesLog 100).appendEntry plainCodec.medium (bytesEntry 1 1 [])).toOption.map
      (fun after => (after.retainedLogBytes 1,
        ((WAL.openWAL plainCodec.medium bytesIdentity 100 after.segments).map
          fun opened => opened.2.log).toOption)) = some (59, some [bytesEntry 1 1 []]) := by
    decide +kernel
  rw [first] at observed
  rcases Prod.mk.inj (Option.some.inj observed) with ⟨bytes, log⟩
  rcases attempts_pairBatch long first with ⟨kept, size, all⟩
  dsimp only
  rw [all, kept]
  exact ⟨rfl, bytes, by decide +kernel, log, by decide +kernel⟩

end Ternion.Wal
