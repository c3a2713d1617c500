import Ternion.Wal.Scanners
import Ternion.Wal.Sound

/-! # Written segments

A medium of bytes gives back the records that were written to it, also when a
frame at the end of the last segment was cut off.
-/

namespace Ternion.Wal.Codec

variable {codec : Codec} {record : Record Bytes LogEntry}

variable {payload : Bytes}

/-! ## Written records are read back -/

structure Fits (codec : Codec) (record : Record Bytes LogEntry) : Prop where
  short : 1 + (codec.payload record).length ≤ maxRecordSize
  decodes : codec.decode (recordType record) (codec.payload record) = .ok record

theorem Fits.framing (fits : codec.Fits record) : codec.framing.Fits (codec.body record) where
  someByte := List.cons_ne_nil _ _
  short := by
    have short := fits.short
    rwa [Nat.add_comm] at short
  counted := by
    have short := fits.short
    rw [body, List.length_cons, Nat.add_comm]
    exact Nat.lt_of_le_of_lt short (by decide)

theorem Fits.applyRecord (fits : codec.Fits record) (state : RecoveredState Bytes LogEntry) :
    codec.applyRecord state (recordType record) (codec.payload record) =
      codec.format.applyRecord state record := by
  rw [Codec.applyRecord, fits.decodes]
  split_ifs with early
  · -- The hard state is refused before and after it is decoded.
    cases record with
    | hardState hardState => exact (if_pos early.2).symm
    | _ => cases early.1
  · rfl

theorem decode_checkpoint {checkpoint : CompactionCheckpoint Bytes}
    (decodes : codec.decode 9 payload = .ok (.checkpoint checkpoint)) :
    codec.unmarshal payload = some checkpoint := by
  rw [decode] at decodes
  simp only [UInt8.reduceToNat] at decodes
  split at decodes
  · cases decodes
  · rename_i unmarshaled
    cases decodes
    exact unmarshaled

theorem decode_legacyEntries {entries : List LogEntry}
    (decodes : codec.decode 5 payload = .ok (.legacyEntries entries)) (snapshotIndex : Nat) :
    codec.format.coveredBySnapshot snapshotIndex (.legacyEntries entries) =
      (pieces 33 payload).all fun piece => numberAt 8 0 piece ≤ snapshotIndex := by
  rw [decode] at decodes
  simp only [UInt8.reduceToNat] at decodes
  split_ifs at decodes
  cases decodes
  rw [Format.coveredBySnapshot, List.all_map]
  rfl

theorem decode_logEntry {entry : LogEntry}
    (decodes : codec.decode 6 payload = .ok (.logEntry entry)) :
    49 ≤ payload.length ∧ numberAt 8 0 payload = entry.index := by
  rw [decode] at decodes
  simp only [UInt8.reduceToNat] at decodes
  split_ifs at decodes with short
  cases decodes
  exact ⟨Nat.le_of_not_lt short, rfl⟩

theorem decode_logTruncation {firstIndex : Nat}
    (decodes : codec.decode 7 payload = .ok (.logTruncation firstIndex)) :
    payload.length = 8 ∧ numberAt 8 0 payload = firstIndex := by
  rw [decode] at decodes
  simp only [UInt8.reduceToNat] at decodes
  split_ifs at decodes with other
  cases decodes
  exact ⟨not_not.mp other, rfl⟩

theorem Fits.visitCheckpoint (fits : codec.Fits record) (newest : CompactionCheckpoint Bytes) :
    codec.visitCheckpoint newest (recordType record) (codec.payload record) =
      codec.format.visitCheckpoint newest record := by
  cases record with
  | checkpoint checkpoint =>
      rw [Codec.visitCheckpoint, decode_checkpoint fits.decodes]
      rfl
  | _ => rfl

theorem Fits.visitCovered (fits : codec.Fits record) (snapshotIndex : Nat) (covered : Bool) :
    visitCovered snapshotIndex covered (recordType record) (codec.payload record) =
      .ok (covered && codec.format.coveredBySnapshot snapshotIndex record) := by
  cases record with
  | legacyEntries entries =>
      rw [decode_legacyEntries fits.decodes]
      rfl
  | logEntry entry =>
      rcases decode_logEntry fits.decodes with ⟨long, same⟩
      have enough : 8 ≤ (codec.payload (.logEntry entry)).length := by omega
      simp only [Codec.visitCovered, recordType, UInt8.reduceToNat, same, enough, decide_true,
        Bool.true_and]
      rfl
  | logTruncation firstIndex =>
      rcases decode_logTruncation fits.decodes with ⟨size, same⟩
      simp only [Codec.visitCovered, recordType, UInt8.reduceToNat, size, same, beq_self_eq_true,
        Bool.true_and]
      rfl
  | _ => rfl

/-! ## Whole segments -/

theorem write_eq (records : List (Record Bytes LogEntry)) :
    codec.medium.write records = segmentHeader ++ codec.framing.frames
      (records.map codec.body) := by
  induction records using List.reverseRecOn with
  | nil => rfl
  | append_singleton records record induction =>
      rw [Medium.write_append, induction, List.map_append, Framing.frames, Framing.frames,
        List.map_append, List.flatten_append, ← List.append_assoc, List.map_singleton,
        List.map_singleton, List.flatten_singleton]
      rfl

theorem checkHeader_written (rest : Bytes) : checkHeader (segmentHeader ++ rest) = .ok () := by
  have size : segmentHeader.length = segmentHeaderSize := rfl
  have magic : (segmentHeader ++ rest).take segmentMagic.length = segmentMagic := by
    rw [segmentHeader, List.append_assoc]
    exact List.take_left' rfl
  have version : numberAt 4 segmentMagic.length (segmentHeader ++ rest) = formatVersion := by
    rw [numberAt, segmentHeader, List.append_assoc, List.drop_left' rfl,
      List.take_left' (length_bigEndian ..)]
    rfl
  rw [checkHeader, if_neg (by rw [List.length_append, size]; omega), if_neg (not_not_intro magic),
    if_neg (not_not_intro version)]

def Ends (codec : Codec) (tail : Bytes) : Prop :=
  tail = [] ∨ ∃ fault, codec.framing.next tail = .interrupted fault

section Segment

variable {State : Type} {visit : State → UInt8 → Bytes → Except Error State}
  {step : State → Record Bytes LogEntry → Except Error State} (tolerate : Bool)
  {records : List (Record Bytes LogEntry)} {tail : Bytes}
  (fits : ∀ record ∈ records, codec.Fits record)
  (visits : ∀ record ∈ records, ∀ state,
    visit state (recordType record) (codec.payload record) = step state record)
  (ends : tail = [] ∨ tolerate = true ∧ codec.Ends tail) (state : State)

include fits visits ends

theorem scan_written {fuel : Nat}
    (enough : (codec.framing.frames (records.map codec.body) ++ tail).length ≤ fuel) :
    Framing.outcome (codec.framing.scanWithin faultError (bodyVisit visit) tolerate fuel
        (codec.framing.frames (records.map codec.body) ++ tail) state) =
      (records.foldlM step state).map fun final => (final, tail) := by
  have framed : ∀ body ∈ records.map codec.body, codec.framing.Fits body := by
    intro body present
    rcases List.mem_map.mp present with ⟨record, isRecord, same⟩
    exact same ▸ (fits record isRecord).framing
  have steps : (records.map codec.body).foldlM (bodyVisit visit) state =
      records.foldlM step state := by
    rw [List.foldlM_map]
    exact Fallible.foldlM_congr visits state
  rw [← steps, Framing.scanWithin_fuel _ _ _ enough (Nat.le_refl _)]
  have whole := Framing.scan_frames faultError (bodyVisit visit) tolerate framed state
  rcases ends with empty | ⟨tolerant, empty | ⟨fault, cut⟩⟩
  · rw [empty, List.append_nil]
    exact whole
  · rw [empty, List.append_nil]
    exact whole
  · rw [tolerant]
    exact Framing.scan_cut _ _ framed state cut

theorem readSegment_written :
    match records.foldlM step state with
    | .error failure =>
        (codec.readSegment visit tolerate (codec.medium.write records ++ tail) state).2 =
          .error failure
    | .ok final =>
        codec.readSegment visit tolerate (codec.medium.write records ++ tail) state =
          (final, .ok (codec.medium.write records)) := by
  have checked : checkHeader (codec.medium.write records ++ tail) = .ok () := by
    rw [write_eq, List.append_assoc]
    exact checkHeader_written _
  have rest : (codec.medium.write records ++ tail).drop segmentHeaderSize =
      codec.framing.frames (records.map codec.body) ++ tail := by
    rw [write_eq, List.append_assoc]
    exact List.drop_left' rfl
  have enough : ((codec.medium.write records ++ tail).drop segmentHeaderSize).length ≤
      (codec.medium.write records ++ tail).length := by
    rw [List.length_drop]
    omega
  rw [rest] at enough
  have scanned := scan_written tolerate fits visits ends state enough
  rw [readSegment, checked]
  dsimp only
  rw [readFrames_eq (by omega) (checkHeader_ok checked), rest]
  generalize codec.framing.scanWithin faultError (bodyVisit visit) tolerate
    (codec.medium.write records ++ tail).length
    (codec.framing.frames (records.map codec.body) ++ tail) state = result at scanned
  rcases result with ⟨reached, ended⟩
  cases folded : records.foldlM step state with
  | error failure =>
      rw [folded] at scanned
      cases ended with
      | error other =>
          cases scanned
          rfl
      | ok left => cases scanned
  | ok final =>
      rw [folded] at scanned
      have same : (reached, ended) = (final, .ok tail) := Framing.outcome_eq_ok scanned
      rcases Prod.mk.inj same with ⟨isFinal, isTail⟩
      have cut : (codec.medium.write records).length =
          (codec.medium.write records ++ tail).length - tail.length := by
        rw [List.length_append, Nat.add_sub_cancel]
      rw [isFinal, isTail]
      exact congrArg (fun kept => (final, Except.ok kept)) (List.take_left' cut)

theorem scanSegmentFrames_written :
    match records.foldlM step state with
    | .error failure =>
        (codec.scanSegmentFrames visit tolerate (codec.medium.write records ++ tail) state).2 =
          .error failure
    | .ok final =>
        codec.scanSegmentFrames visit tolerate (codec.medium.write records ++ tail) state =
          (final, .ok ()) := by
  have read := readSegment_written tolerate fits visits ends state
  rw [scanSegmentFrames_eq]
  cases folded : records.foldlM step state with
  | error failure =>
      rw [folded] at read
      exact congrArg (Except.map fun _ => ()) read
  | ok final =>
      rw [folded] at read
      dsimp only at read ⊢
      rw [read]
      rfl

end Segment

section Recovery

variable {parts : List (List (Record Bytes LogEntry))} {last : List (Record Bytes LogEntry)}
  {tail : Bytes}

section

variable (fits : ∀ records ∈ parts ++ [last], ∀ record ∈ records, codec.Fits record)
  (ends : codec.Ends tail)

include fits ends

theorem readSegments_written (state : RecoveredState Bytes LogEntry) :
    codec.readSegments (parts.map codec.medium.write ++ [codec.medium.write last ++ tail]) state =
      ((parts.flatten ++ last).foldlM codec.format.applyRecord state).map fun final =>
        (parts.map codec.medium.write ++ [codec.medium.write last], final) := by
  induction parts generalizing state with
  | nil =>
      have fit := fits last List.mem_cons_self
      have read := readSegment_written true fit
        (fun record present state => (fit record present).applyRecord state)
        (.inr ⟨rfl, ends⟩) state
      rw [List.map_nil, List.nil_append, readSegments, List.isEmpty_nil]
      change _ = (last.foldlM codec.format.applyRecord state).map _
      cases folded : last.foldlM codec.format.applyRecord state with
      | error failure =>
          rw [folded] at read
          dsimp only at read ⊢
          rw [read]
          rfl
      | ok final =>
          rw [folded] at read
          dsimp only at read ⊢
          rw [read]
          rfl
  | cons records parts induction =>
      have fit := fits records List.mem_cons_self
      have read := readSegment_written false fit
        (fun record present state => (fit record present).applyRecord state) (.inl rfl) state
      have others : (parts.map codec.medium.write ++ [codec.medium.write last ++ tail]).isEmpty =
          false := by simp
      rw [List.append_nil] at read
      rw [List.map_cons, List.cons_append, readSegments, others, List.flatten_cons,
        List.append_assoc, List.foldlM_append]
      cases folded : records.foldlM codec.format.applyRecord state with
      | error failure =>
          rw [folded] at read
          dsimp only at read ⊢
          rw [read]
          rfl
      | ok middle =>
          have rest := induction
            (fun later present => fits later (List.mem_cons_of_mem _ present)) middle
          rw [folded] at read
          dsimp only at read ⊢
          rw [read]
          change (codec.readSegments _ middle >>= _) = Except.map _ (List.foldlM _ middle _)
          rw [rest]
          cases (parts.flatten ++ last).foldlM codec.format.applyRecord middle <;> rfl

theorem newestCompactionCheckpoint_written (newest : CompactionCheckpoint Bytes) :
    codec.newestCompactionCheckpoint
        (parts.map codec.medium.write ++ [codec.medium.write last ++ tail]) newest =
      (parts.flatten ++ last).foldlM codec.format.visitCheckpoint newest := by
  induction parts generalizing newest with
  | nil =>
      have fit := fits last List.mem_cons_self
      have scanned := scanSegmentFrames_written true fit
        (fun record present newest => (fit record present).visitCheckpoint newest)
        (.inr ⟨rfl, ends⟩) newest
      rw [List.map_nil, List.nil_append, newestCompactionCheckpoint, List.isEmpty_nil]
      change _ = last.foldlM codec.format.visitCheckpoint newest
      cases folded : last.foldlM codec.format.visitCheckpoint newest with
      | error failure =>
          rw [folded] at scanned
          dsimp only at scanned ⊢
          rw [scanned]
          rfl
      | ok final =>
          rw [folded] at scanned
          dsimp only at scanned ⊢
          rw [scanned]
          rfl
  | cons records parts induction =>
      have fit := fits records List.mem_cons_self
      have scanned := scanSegmentFrames_written false fit
        (fun record present newest => (fit record present).visitCheckpoint newest)
        (.inl rfl) newest
      have others : (parts.map codec.medium.write ++ [codec.medium.write last ++ tail]).isEmpty =
          false := by simp
      rw [List.append_nil] at scanned
      rw [List.map_cons, List.cons_append, newestCompactionCheckpoint, others,
        List.flatten_cons, List.append_assoc, List.foldlM_append]
      cases folded : records.foldlM codec.format.visitCheckpoint newest with
      | error failure =>
          rw [folded] at scanned
          dsimp only at scanned ⊢
          rw [scanned]
          rfl
      | ok middle =>
          rw [folded] at scanned
          dsimp only at scanned ⊢
          rw [scanned]
          exact induction (fun later present => fits later (List.mem_cons_of_mem _ present)) middle

theorem recoverSegments_written :
    codec.recoverSegments (parts.map codec.medium.write ++ [codec.medium.write last ++ tail]) =
      (codec.format.recoverRecords (parts.flatten ++ last)).map fun state =>
        (parts.map codec.medium.write ++ [codec.medium.write last], state) := by
  rw [recoverSegments, newestCompactionCheckpoint_written fits ends, Format.recoverRecords,
    Format.newestCompactionCheckpoint]
  cases (parts.flatten ++ last).foldlM codec.format.visitCheckpoint .zero with
  | error failure => rfl
  | ok checkpoint =>
      change (codec.readSegments _ _ >>= _) = Except.map _ (List.foldlM _ _ _ >>= _)
      rw [readSegments_written fits ends]
      cases (parts.flatten ++ last).foldlM codec.format.applyRecord (.ofCheckpoint checkpoint) with
      | error failure => rfl
      | ok state =>
          change Format.identified state >>= _ = Except.map _ (Format.identified state)
          cases Format.identified state <;> rfl

end

end Recovery

theorem medium_lawful : codec.medium.Lawful codec.Fits where
  covered := by
    intro snapshotIndex records fits
    have scanned := scanSegmentFrames_written false fits
      (fun record present covered => (fits record present).visitCovered snapshotIndex covered)
      (.inl rfl) true
    rw [List.append_nil, Fallible.foldlM_all, Bool.true_and] at scanned
    change codec.segmentCoveredBySnapshot snapshotIndex _ = _
    dsimp only at scanned
    rw [segmentCoveredBySnapshot, scanned]
    rfl
  recovers := by
    intro segments fits
    rcases List.eq_nil_or_concat' segments with empty | ⟨parts, last, split⟩
    · rw [empty]
      rfl
    · have recovered := recoverSegments_written (split ▸ fits) (.inl rfl)
      rw [List.append_nil] at recovered
      rw [split, List.map_append, List.flatten_append, List.flatten_singleton]
      exact recovered

/-! ## Which records are read back -/

/-- The numbers are machine words, and JSON keeps a checkpoint. The old batch
formats are not written. -/
def Writable (codec : Codec) : Record Bytes LogEntry → Prop
  | .clusterIdentity _ => True
  | .nodeIdentity _ => True
  | .hardState state => state.term < 2 ^ 64
  | .legacyEntries _ => False
  | .logEntry entry => entry.index < 2 ^ 64 ∧ entry.term < 2 ^ 64 ∧ entry.sequence < 2 ^ 64
  | .logTruncation firstIndex => firstIndex < 2 ^ 64
  | .commitIndex index => index < 2 ^ 64
  | .checkpoint checkpoint => codec.unmarshal (codec.marshal checkpoint) = some checkpoint

instance (codec : Codec) : (record : Record Bytes LogEntry) → Decidable (codec.Writable record)
  | .clusterIdentity _ => .isTrue trivial
  | .nodeIdentity _ => .isTrue trivial
  | .hardState _ => inferInstanceAs (Decidable (_ < _))
  | .legacyEntries _ => .isFalse id
  | .logEntry _ => inferInstanceAs (Decidable (_ ∧ _ ∧ _))
  | .logTruncation _ => inferInstanceAs (Decidable (_ < _))
  | .commitIndex _ => inferInstanceAs (Decidable (_ < _))
  | .checkpoint _ => inferInstanceAs (Decidable (_ = _))

@[simp] theorem length_entryHeader (entry : LogEntry) : (entryHeader entry).length = 33 := by
  simp [entryHeader]

theorem length_entryPayload (entry : LogEntry) :
    (entryPayload entry).length = 49 + entry.key.length + entry.value.length := by
  simp [entryPayload]
  omega

theorem getD_skip (before rest : Bytes) (offset : Nat) :
    (before ++ rest).getD (before.length + offset) 0 = rest.getD offset 0 := by
  rw [List.getD_eq_getElem?_getD, List.getD_eq_getElem?_getD,
    List.getElem?_append_right (Nat.le_add_right ..), Nat.add_sub_cancel_left]

theorem sessionAt_payload (entry : LogEntry) :
    sessionAt 17 (entryPayload entry) = entry.sessionID := by
  ext position inside
  rcases (⟨_, rfl⟩ : ∃ rest, entryPayload entry = entryHeader entry ++ rest) with ⟨rest, isPayload⟩
  have split : entryPayload entry =
      (bigEndian 8 entry.index ++ bigEndian 8 entry.term ++ [entry.type]) ++
        (entry.sessionID.toList ++ rest) := by
    rw [isPayload, entryHeader]
    simp only [List.append_assoc, List.cons_append, List.nil_append]
  have size : (bigEndian 8 entry.index ++ bigEndian 8 entry.term ++ [entry.type]).length = 17 := by
    rw [List.length_append, List.length_append, length_bigEndian, length_bigEndian]
    rfl
  have skipped := getD_skip (bigEndian 8 entry.index ++ bigEndian 8 entry.term ++ [entry.type])
    (entry.sessionID.toList ++ rest) position
  rw [← split, size] at skipped
  rw [sessionAt, Vector.getElem_ofFn, skipped, List.getD_eq_getElem?_getD,
    List.getElem?_append_left (by simpa using inside)]
  simp [inside]

theorem keyLength_payload (entry : LogEntry) (key : entry.key.length < 2 ^ 32) :
    numberAt 4 41 (entryPayload entry) = entry.key.length := by
  rw [entryPayload, ← List.append_assoc]
  apply numberAt_field key
  rw [List.length_append, length_entryHeader, length_bigEndian]

theorem valueLength_payload (entry : LogEntry) (value : entry.value.length < 2 ^ 32) :
    numberAt 4 45 (entryPayload entry) = entry.value.length := by
  rw [entryPayload, ← List.append_assoc, ← List.append_assoc]
  apply numberAt_field value
  rw [List.length_append, List.length_append, length_entryHeader, length_bigEndian,
    length_bigEndian]

theorem decodedEntry_payload (entry : LogEntry) (index : entry.index < 2 ^ 64)
    (term : entry.term < 2 ^ 64) (sequence : entry.sequence < 2 ^ 64)
    (key : entry.key.length < 2 ^ 32) : decodedEntry (entryPayload entry) = entry := by
  have isIndex : numberAt 8 0 (entryPayload entry) = entry.index := by
    rw [entryPayload, entryHeader, List.append_assoc]
    exact numberAt_zero index _
  have isTerm : numberAt 8 8 (entryPayload entry) = entry.term := by
    rw [entryPayload, entryHeader, List.append_assoc, List.append_assoc]
    exact numberAt_field term (length_bigEndian ..) _
  have isType : (entryPayload entry).getD 16 0 = entry.type := by
    simp [entryPayload, entryHeader, List.getElem?_append]
  have isSequence : numberAt 8 33 (entryPayload entry) = entry.sequence := by
    rw [entryPayload]
    exact numberAt_field sequence (length_entryHeader entry) _
  have rest : (entryPayload entry).drop 49 = entry.key ++ entry.value := by
    rw [entryPayload, ← List.append_assoc, ← List.append_assoc, ← List.append_assoc]
    apply List.drop_left'
    simp
  have isValue : (entryPayload entry).drop (49 + entry.key.length) = entry.value := by
    rw [← List.drop_drop, rest]
    exact List.drop_left
  rw [decodedEntry, isIndex, isTerm, isType, sessionAt_payload, isSequence,
    keyLength_payload entry key, rest,
    List.take_left, isValue]

theorem fits_of_writable (short : 1 + (codec.payload record).length ≤ maxRecordSize)
    (writable : codec.Writable record) : codec.Fits record where
  short := short
  decodes := by
    cases record with
    | clusterIdentity clusterID => rfl
    | nodeIdentity nodeID => rfl
    | hardState state =>
        have isTerm : numberAt 8 0 (bigEndian 8 state.term ++ state.votedFor) = state.term :=
          numberAt_zero writable _
        have isVote : (bigEndian 8 state.term ++ state.votedFor).drop 8 = state.votedFor :=
          List.drop_left' (length_bigEndian ..)
        simp only [decode, recordType, payload, UInt8.reduceToNat, isTerm, isVote]
        rw [if_neg (by simp)]
    | legacyEntries entries => exact writable.elim
    | logEntry entry =>
        rcases writable with ⟨index, term, sequence⟩
        have size := length_entryPayload entry
        have bound : maxRecordSize < 2 ^ 32 := by decide
        rw [payload] at short
        have key : entry.key.length < 2 ^ 32 := by omega
        have value : entry.value.length < 2 ^ 32 := by omega
        simp only [decode, recordType, payload, UInt8.reduceToNat, keyLength_payload entry key,
          valueLength_payload entry value, decodedEntry_payload entry index term sequence key, size]
        rw [if_neg (by omega), if_neg (not_not_intro rfl)]
    | logTruncation firstIndex =>
        have read : numberAt 8 0 (bigEndian 8 firstIndex) = firstIndex :=
          numberAt_bigEndian writable
        simp only [decode, recordType, payload, UInt8.reduceToNat, length_bigEndian, read]
        rfl
    | commitIndex index =>
        have read : numberAt 8 0 (bigEndian 8 index) = index := numberAt_bigEndian writable
        simp only [decode, recordType, payload, UInt8.reduceToNat, length_bigEndian, read]
        rfl
    | checkpoint checkpoint =>
        simp only [decode, recordType, UInt8.reduceToNat]
        rw [payload, writable]

end Ternion.Wal.Codec
