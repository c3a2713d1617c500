import Ternion.Wal.Bytes

/-! # The two scanners

Both loops over the bytes of a segment read the same stream of frames, and end
in the same way. What is left of a segment whose final frame was cut off is read
without any tolerance.
-/

namespace Ternion.Wal.Codec

variable {State : Type} {codec : Codec} {visit : State → UInt8 → Bytes → Except Error State}
  {tolerate : Bool} {contents : Bytes}

def bodyVisit (visit : State → UInt8 → Bytes → Except Error State) (state : State) (body : Bytes) :
    Except Error State :=
  visit state (body.headD 0) body.tail

theorem next_drop {offset : Nat} (within : offset ≤ contents.length) :
    codec.framing.next (contents.drop offset) =
      let length := numberAt 4 offset contents
      let frameEnd := offset + frameHeaderSize + length
      let body := (contents.drop (offset + frameHeaderSize)).take length
      if offset = contents.length then .finished
      else if contents.length - offset < frameHeaderSize then .interrupted .headerIncomplete
      else if length = 0 ∨ maxRecordSize < length then .broken (.lengthInvalid length)
      else if contents.length < frameEnd then .interrupted .bodyIncomplete
      else if (codec.checksum body).toNat ≠ numberAt 4 (offset + 4) contents then
        if frameEnd = contents.length then .interrupted .checksumMismatch
        else .broken .checksumMismatch
      else .frame body (contents.drop frameEnd) := by
  have empty : contents.drop offset = [] ↔ offset = contents.length := by
    rw [List.drop_eq_nil_iff]
    omega
  have beyond : (contents.drop offset).length < Framing.headerSize + numberAt 4 offset contents ↔
      contents.length < offset + frameHeaderSize + numberAt 4 offset contents := by
    rw [List.length_drop, Framing.headerSize, frameHeaderSize]
    omega
  have atEnd : (contents.drop offset).length = Framing.headerSize + numberAt 4 offset contents ↔
      offset + frameHeaderSize + numberAt 4 offset contents = contents.length := by
    rw [List.length_drop, Framing.headerSize, frameHeaderSize]
    omega
  have bodyBytes : (contents.drop offset).drop Framing.headerSize =
      contents.drop (offset + frameHeaderSize) := List.drop_drop
  have checksumBytes : ofBigEndian (((contents.drop offset).drop 4).take 4) =
      numberAt 4 (offset + 4) contents := by rw [numberAt, List.drop_drop]
  have others : (contents.drop offset).drop (Framing.headerSize + numberAt 4 offset contents) =
      contents.drop (offset + frameHeaderSize + numberAt 4 offset contents) := by
    rw [List.drop_drop, Nat.add_assoc]
    rfl
  have isLength : ofBigEndian ((contents.drop offset).take 4) = numberAt 4 offset contents := rfl
  have short : (contents.drop offset).length < Framing.headerSize ↔
      contents.length - offset < frameHeaderSize := by
    rw [List.length_drop]
    rfl
  simp only [Framing.next, isLength, bodyBytes, checksumBytes, others, empty, short, beyond, atEnd]
  rfl

theorem readFrames_succ {offset : Nat} (within : offset ≤ contents.length) (fuel : Nat)
    (state : State) :
    codec.readFrames visit tolerate contents (fuel + 1) offset state =
      match codec.framing.next (contents.drop offset) with
      | .finished => (state, .ok contents.length)
      | .interrupted fault => (state, if tolerate then .ok offset else .error (faultError fault))
      | .broken fault => (state, .error (faultError fault))
      | .frame body _ =>
          match bodyVisit visit state body with
          | .error failure => (state, .error failure)
          | .ok state => codec.readFrames visit tolerate contents fuel
              (offset + frameHeaderSize + body.length) state := by
  rw [readFrames, next_drop within]
  dsimp only
  by_cases finished : offset = contents.length
  · rw [if_pos finished, if_pos finished]
  rw [if_neg finished, if_neg finished]
  by_cases inHeader : contents.length - offset < frameHeaderSize
  · rw [if_pos inHeader, if_pos inHeader]
    rfl
  rw [if_neg inHeader, if_neg inHeader]
  by_cases invalid : numberAt 4 offset contents = 0 ∨ maxRecordSize < numberAt 4 offset contents
  · rw [if_pos invalid]
    by_cases zero : numberAt 4 offset contents = 0
    · rw [if_pos zero]
      rfl
    · rw [if_neg zero, if_pos (invalid.resolve_left zero)]
      rfl
  rw [if_neg invalid, if_neg fun zero => invalid (.inl zero), if_neg fun long =>
    invalid (.inr long)]
  by_cases inBody : contents.length < offset + frameHeaderSize + numberAt 4 offset contents
  · rw [if_pos inBody, if_pos inBody]
    rfl
  rw [if_neg inBody, if_neg inBody]
  have size :
      ((contents.drop (offset + frameHeaderSize)).take (numberAt 4 offset contents)).length =
      numberAt 4 offset contents := by
    rw [List.length_take, List.length_drop]
    omega
  by_cases mismatch : (codec.checksum ((contents.drop (offset + frameHeaderSize)).take
      (numberAt 4 offset contents))).toNat ≠ numberAt 4 (offset + 4) contents
  · rw [if_pos mismatch, if_pos mismatch]
    by_cases atEnd : offset + frameHeaderSize + numberAt 4 offset contents = contents.length
    · simp only [atEnd, and_true, if_true]
      rfl
    · simp only [atEnd, and_false, if_false]
      rfl
  · rw [if_neg mismatch, if_neg mismatch]
    dsimp only [bodyVisit]
    cases visit state _ _ with
    | error failure => rfl
    | ok state =>
        dsimp only
        rw [size]

theorem readFrames_eq {fuel offset : Nat} (enough : contents.length - offset ≤ fuel)
    (within : offset ≤ contents.length) (state : State) :
    codec.readFrames visit tolerate contents fuel offset state =
      let result := codec.framing.scanWithin faultError (bodyVisit visit) tolerate fuel
        (contents.drop offset) state
      (result.1, result.2.map fun left => contents.length - left.length) := by
  induction fuel generalizing offset state with
  | zero =>
      have atEnd : contents.drop offset = [] := List.drop_eq_nil_iff.mpr (by omega)
      rw [atEnd]
      rfl
  | succ fuel induction =>
      rw [readFrames_succ within, Framing.scanWithin]
      cases found : codec.framing.next (contents.drop offset) with
      | finished => rfl
      | interrupted fault =>
          have kept : contents.length - (contents.drop offset).length = offset := by
            rw [List.length_drop]
            omega
          cases tolerate with
          | false => rfl
          | true => exact congrArg (fun size => (state, Except.ok size)) kept.symm
      | broken fault => rfl
      | frame body rest =>
          rcases Framing.next_eq_frame found with ⟨split, fits⟩
          have size := congrArg List.length split
          rw [List.length_drop, List.length_append, Framing.length_frame] at size
          have someByte := fits.length_pos
          have isRest : rest = contents.drop (offset + frameHeaderSize + body.length) := by
            have dropped := congrArg (List.drop (Framing.headerSize + body.length)) split
            rw [List.drop_drop, List.drop_left' Framing.length_frame] at dropped
            rw [← dropped, Nat.add_assoc]
            rfl
          have header : Framing.headerSize = frameHeaderSize := rfl
          dsimp only
          cases bodyVisit visit state body with
          | error failure => rfl
          | ok state =>
              rw [isRest]
              exact induction (by omega) (by omega) state

theorem scanFrames_eq {fuel offset : Nat} (within : offset ≤ contents.length) (state : State) :
    codec.scanFrames visit tolerate contents fuel offset state =
      let result := codec.readFrames visit tolerate contents fuel offset state
      (result.1, result.2.map fun _ => ()) := by
  induction fuel generalizing offset state with
  | zero => rfl
  | succ fuel induction =>
      rw [scanFrames, readFrames]
      dsimp only
      by_cases finished : offset = contents.length
      · rw [if_pos finished, if_neg (by omega)]
        rfl
      rw [if_neg finished, if_pos (by omega)]
      by_cases inHeader : contents.length - offset < frameHeaderSize
      · rw [if_pos inHeader, if_pos inHeader]
        cases tolerate <;> rfl
      rw [if_neg inHeader, if_neg inHeader]
      by_cases zero : numberAt 4 offset contents = 0
      · rw [if_pos (.inl zero), if_pos zero]
        rfl
      rw [if_neg zero]
      by_cases long : maxRecordSize < numberAt 4 offset contents
      · rw [if_pos (.inr long), if_pos long]
        rfl
      rw [if_neg (not_or.mpr ⟨zero, long⟩), if_neg long]
      by_cases inBody : contents.length < offset + frameHeaderSize + numberAt 4 offset contents
      · rw [if_pos inBody, if_pos inBody]
        cases tolerate <;> rfl
      rw [if_neg inBody, if_neg inBody]
      by_cases mismatch : (codec.checksum ((contents.drop (offset + frameHeaderSize)).take
          (numberAt 4 offset contents))).toNat ≠ numberAt 4 (offset + 4) contents
      · rw [if_pos mismatch, if_pos mismatch]
        split_ifs <;> rfl
      rw [if_neg mismatch, if_neg mismatch]
      cases visit state _ _ with
      | error failure => rfl
      | ok state => exact induction (by omega) state

theorem checkHeader_ok (checked : checkHeader contents = .ok ()) :
    segmentHeaderSize ≤ contents.length := by
  rw [checkHeader] at checked
  split_ifs at checked with short
  omega

theorem checkHeader_congr {other : Bytes}
    (same : other.take segmentHeaderSize = contents.take segmentHeaderSize)
    (checked : checkHeader contents = .ok ()) : checkHeader other = .ok () := by
  have long := checkHeader_ok checked
  have otherLong : segmentHeaderSize ≤ other.length := by
    have size := congrArg List.length same
    rw [List.length_take, List.length_take] at size
    omega
  have magic : other.take segmentMagic.length = contents.take segmentMagic.length := by
    have first := congrArg (List.take segmentMagic.length) same
    rwa [List.take_take, List.take_take] at first
  have version : numberAt 4 segmentMagic.length other =
      numberAt 4 segmentMagic.length contents := by
    have last := congrArg (List.drop segmentMagic.length) same
    rw [List.drop_take, List.drop_take] at last
    rw [numberAt, numberAt]
    exact congrArg ofBigEndian last
  rw [checkHeader, if_neg (by omega), magic, version]
  rwa [checkHeader, if_neg (by omega)] at checked

theorem scanSegmentFrames_eq (tolerate : Bool) (contents : Bytes) (state : State) :
    codec.scanSegmentFrames visit tolerate contents state =
      let result := codec.readSegment visit tolerate contents state
      (result.1, result.2.map fun _ => ()) := by
  rw [scanSegmentFrames, readSegment]
  cases checked : checkHeader contents with
  | error failure => rfl
  | ok _ =>
      change codec.scanFrames visit tolerate contents contents.length segmentHeaderSize state = _
      rw [scanFrames_eq (checkHeader_ok checked)]
      dsimp only
      cases (codec.readFrames visit tolerate contents contents.length segmentHeaderSize state).2
      all_goals rfl

theorem readSegment_eq_ok {state final : State} {kept : Bytes}
    (read : codec.readSegment visit tolerate contents state = (final, .ok kept)) :
    checkHeader contents = .ok () ∧
      ∃ bodies, (∀ body ∈ bodies, codec.framing.Fits body) ∧
        kept = contents.take segmentHeaderSize ++ codec.framing.frames bodies ∧
        bodies.foldlM (bodyVisit visit) state = .ok final := by
  rw [readSegment] at read
  cases checked : checkHeader contents with
  | error failure =>
      rw [checked] at read
      cases read
  | ok _ =>
      have long := checkHeader_ok checked
      rw [checked] at read
      dsimp only at read
      rw [readFrames_eq (by omega) long] at read
      cases scanned : codec.framing.scanWithin faultError (bodyVisit visit) tolerate contents.length
        (contents.drop segmentHeaderSize) state with
      | mk reached ended =>
          cases ended with
          | error failure =>
              rw [scanned] at read
              cases read
          | ok left =>
              rw [scanned] at read
              cases read
              have enough : (contents.drop segmentHeaderSize).length ≤ contents.length := by
                rw [List.length_drop]
                omega
              rcases Framing.scanWithin_eq_ok faultError (bodyVisit visit) tolerate enough scanned
                with ⟨bodies, fits, split, folded⟩
              refine ⟨rfl, bodies, fits, ?_, folded⟩
              have whole : contents = (contents.take segmentHeaderSize ++
                  codec.framing.frames bodies) ++ left := by
                rw [List.append_assoc, ← split, List.take_append_drop]
              have size := congrArg List.length whole
              rw [List.length_append] at size
              have cut : (contents.take segmentHeaderSize ++ codec.framing.frames bodies).length =
                  contents.length - left.length := by omega
              nth_rewrite 1 [whole]
              exact List.take_left' cut

/-- The two scanners visit the same frames and end in the same way. A segment
that was repaired is read again without tolerance. -/
theorem scanners_agree (codec : Codec) (visit : State → UInt8 → Bytes → Except Error State)
    (contents : Bytes) (state : State) :
    (∀ tolerate, codec.scanSegmentFrames visit tolerate contents state =
        ((codec.readSegment visit tolerate contents state).1,
          (codec.readSegment visit tolerate contents state).2.map fun _ => ())) ∧
      ∀ final kept, codec.readSegment visit true contents state = (final, .ok kept) →
        codec.scanSegmentFrames visit false kept state = (final, .ok ()) := by
  refine ⟨fun tolerate => scanSegmentFrames_eq tolerate contents state, ?_⟩
  intro final kept read
  rcases readSegment_eq_ok read with ⟨checked, bodies, fits, isKept, folded⟩
  have long := checkHeader_ok checked
  have header : kept.take segmentHeaderSize = contents.take segmentHeaderSize := by
    rw [isKept]
    apply List.take_left'
    rw [List.length_take]
    omega
  have rest : kept.drop segmentHeaderSize = codec.framing.frames bodies := by
    rw [isKept]
    apply List.drop_left'
    rw [List.length_take]
    omega
  have keptChecked := checkHeader_congr header checked
  have enough : (kept.drop segmentHeaderSize).length ≤ kept.length := by
    rw [List.length_drop]
    omega
  have scanned := Framing.scan_frames faultError (bodyVisit visit) false fits state
  rw [folded, ← rest, Framing.scan, Framing.scanWithin_fuel _ _ _ (Nat.le_refl _) enough] at scanned
  have result := Framing.outcome_eq_ok scanned
  rw [scanSegmentFrames, keptChecked]
  change codec.scanFrames visit false kept kept.length segmentHeaderSize state = _
  rw [scanFrames_eq (checkHeader_ok keptChecked), readFrames_eq (by omega)
    (checkHeader_ok keptChecked), result]
  rfl

/-- A visitor that keeps what it sees. -/
def collect (frames : List (UInt8 × Bytes)) (kind : UInt8) (payload : Bytes) :
    Except Error (List (UInt8 × Bytes)) :=
  .ok (frames ++ [(kind, payload)])

/-- The second frame was cut off after three bytes. -/
def interruptedSegment : Bytes :=
  segmentHeader ++ plainCodec.framing.frame [1, 0x63] ++ [0, 0, 0]

theorem scanners_agree_interrupted :
    plainCodec.readSegment collect true interruptedSegment [] =
        ([(1, [0x63])], .ok (interruptedSegment.take 22)) ∧
      plainCodec.scanSegmentFrames collect false (interruptedSegment.take 22) [] =
        ([(1, [0x63])], .ok ()) := by
  have read : plainCodec.readSegment collect true interruptedSegment [] =
    ([(1, [0x63])], .ok (interruptedSegment.take 22)) := by decide +kernel
  exact ⟨read, (scanners_agree plainCodec collect interruptedSegment []).2 _ _ read⟩

end Ternion.Wal.Codec
