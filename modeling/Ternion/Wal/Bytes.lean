import Ternion.Foundation.Framing
import Ternion.Wal.Sound

/-! # Segments of bytes

How a segment stores its records: a header with the format version, and a frame
for every record. Recovery reads the segments twice, once for the newest
checkpoint and once for the state, and both times it tolerates a frame at the
end of the last segment whose writing was interrupted.

The checksum, what counts as a blank name and the JSON of a checkpoint are
parameters.
-/

namespace Ternion.Wal

/-- The durable representation of one log position. -/
structure LogEntry where
  index : Nat
  term : Nat
  type : UInt8
  sessionID : Vector UInt8 16
  sequence : Nat
  key : Bytes
  value : Bytes
  deriving DecidableEq

/-- What the log takes from elsewhere. -/
structure Codec where
  checksum : Bytes → UInt32
  blank : Bytes → Bool
  blank_nil : blank [] = true
  marshal : CompactionCheckpoint Bytes → Bytes
  unmarshal : Bytes → Option (CompactionCheckpoint Bytes)

/-! ## Records -/

def recordType : Record Bytes LogEntry → UInt8
  | .clusterIdentity _ => 1
  | .nodeIdentity _ => 2
  | .hardState _ => 3
  | .legacyEntries _ => 5
  | .logEntry _ => 6
  | .logTruncation _ => 7
  | .commitIndex _ => 8
  | .checkpoint _ => 9

/-- The fields that every entry format has. -/
def entryHeader (entry : LogEntry) : Bytes :=
  bigEndian 8 entry.index ++ (bigEndian 8 entry.term ++ (entry.type :: entry.sessionID.toList))

def entryPayload (entry : LogEntry) : Bytes :=
  entryHeader entry ++ (bigEndian 8 entry.sequence ++ (bigEndian 4 entry.key.length ++
    (bigEndian 4 entry.value.length ++ (entry.key ++ entry.value))))

/-- The bytes of a record after its type. -/
def Codec.payload (codec : Codec) : Record Bytes LogEntry → Bytes
  | .clusterIdentity clusterID => clusterID
  | .nodeIdentity nodeID => nodeID
  | .hardState state => bigEndian 8 state.term ++ state.votedFor
  | .legacyEntries entries => entries.flatMap entryHeader
  | .logEntry entry => entryPayload entry
  | .logTruncation firstIndex => bigEndian 8 firstIndex
  | .commitIndex index => bigEndian 8 index
  | .checkpoint checkpoint => codec.marshal checkpoint

def sessionAt (offset : Nat) (payload : Bytes) : Vector UInt8 16 :=
  Vector.ofFn fun position => payload.getD (offset + position) 0

/-- An entry of the formats without a command, with or without a session. -/
def legacyEntry (session : Bool) (payload : Bytes) : LogEntry where
  index := numberAt 8 0 payload
  term := numberAt 8 8 payload
  type := payload.getD 16 0
  sessionID := if session then sessionAt 17 payload else Vector.replicate 16 0
  sequence := 0
  key := []
  value := []

def decodedEntry (payload : Bytes) : LogEntry where
  index := numberAt 8 0 payload
  term := numberAt 8 8 payload
  type := payload.getD 16 0
  sessionID := sessionAt 17 payload
  sequence := numberAt 8 33 payload
  key := (payload.drop 49).take (numberAt 4 41 payload)
  value := payload.drop (49 + numberAt 4 41 payload)

/-- The pieces of a payload that holds entries of one size. -/
def pieces (size : Nat) (payload : Bytes) : List Bytes :=
  (List.range (payload.length / size)).map fun position => payload.drop (size * position)

def Codec.decode (codec : Codec) (kind : UInt8) (payload : Bytes) :
    Except Error (Record Bytes LogEntry) :=
  match kind.toNat with
  | 1 => .ok (.clusterIdentity payload)
  | 2 => .ok (.nodeIdentity payload)
  | 3 =>
      if payload.length < 8 then .error (.recordLengthInvalid payload.length)
      else .ok (.hardState ⟨numberAt 8 0 payload, payload.drop 8⟩)
  | 4 =>
      if payload.length = 0 ∨ payload.length % 17 ≠ 0 then
        .error (.recordLengthInvalid payload.length)
      else .ok (.legacyEntries ((pieces 17 payload).map (legacyEntry false)))
  | 5 =>
      if payload.length = 0 ∨ payload.length % 33 ≠ 0 then
        .error (.recordLengthInvalid payload.length)
      else .ok (.legacyEntries ((pieces 33 payload).map (legacyEntry true)))
  | 6 =>
      if payload.length < 49 then .error (.recordLengthInvalid payload.length)
      else if 49 + numberAt 4 41 payload + numberAt 4 45 payload ≠ payload.length then
        .error (.recordLengthInvalid payload.length)
      else .ok (.logEntry (decodedEntry payload))
  | 7 =>
      if payload.length ≠ 8 then .error (.recordLengthInvalid payload.length)
      else .ok (.logTruncation (numberAt 8 0 payload))
  | 8 =>
      if payload.length ≠ 8 then .error (.recordLengthInvalid payload.length)
      else .ok (.commitIndex (numberAt 8 0 payload))
  | 9 =>
      match codec.unmarshal payload with
      | none => .error .checkpointUndecodable
      | some checkpoint => .ok (.checkpoint checkpoint)
  | other => .error (.unknownRecordType other)

def Codec.format (codec : Codec) : Format Bytes LogEntry where
  index := LogEntry.index
  term := LogEntry.term
  blank := codec.blank
  blank_default := codec.blank_nil
  payloadSize := fun record => (codec.payload record).length

/-! ## Frames -/

def Codec.framing (codec : Codec) : Framing where
  checksum := codec.checksum
  limit := maxRecordSize

def Codec.body (codec : Codec) (record : Record Bytes LogEntry) : Bytes :=
  recordType record :: codec.payload record

def segmentMagic : Bytes := [0x51, 0x4b, 0x56, 0x57, 0x41, 0x4c, 0x30, 0x31]
def formatVersion : Nat := 1

def segmentHeader : Bytes := segmentMagic ++ bigEndian 4 formatVersion

def checkHeader (contents : Bytes) : Except Error Unit :=
  if contents.length < segmentHeaderSize then .error .segmentHeaderIncomplete
  else if contents.take segmentMagic.length ≠ segmentMagic then .error .invalidMagic
  else if numberAt 4 segmentMagic.length contents ≠ formatVersion then
    .error (.unsupportedVersion (numberAt 4 segmentMagic.length contents))
  else .ok ()

def faultError : Framing.Fault → Error
  | .headerIncomplete => .frameHeaderIncomplete
  | .lengthInvalid length => .frameLengthInvalid length
  | .bodyIncomplete => .frameBodyIncomplete
  | .checksumMismatch => .checksumMismatch

namespace Codec

section Scanners

variable {State : Type} (codec : Codec) (visit : State → UInt8 → Bytes → Except Error State)

/-- The loop that reads a segment for its records. The result is the size that
the segment keeps: an interrupted final frame is cut off. -/
def readFrames (recoverFinalFrame : Bool) (contents : Bytes) :
    Nat → Nat → State → State × Except Error Nat
  | 0, _, state => (state, .ok contents.length)
  | fuel + 1, offset, state =>
      if offset = contents.length then (state, .ok contents.length)
      else if contents.length - offset < frameHeaderSize then
        (state, if recoverFinalFrame then .ok offset else .error .frameHeaderIncomplete)
      else
        let length := numberAt 4 offset contents
        if length = 0 then (state, .error (.frameLengthInvalid length))
        else if maxRecordSize < length then (state, .error (.frameLengthInvalid length))
        else
          let frameEnd := offset + frameHeaderSize + length
          if contents.length < frameEnd then
            (state, if recoverFinalFrame then .ok offset else .error .frameBodyIncomplete)
          else
            let body := (contents.drop (offset + frameHeaderSize)).take length
            if (codec.checksum body).toNat ≠ numberAt 4 (offset + 4) contents then
              (state, if recoverFinalFrame ∧ frameEnd = contents.length then .ok offset
                else .error .checksumMismatch)
            else
              match visit state (body.headD 0) body.tail with
              | .error failure => (state, .error failure)
              | .ok state => readFrames recoverFinalFrame contents fuel frameEnd state

/-- The loop that looks through a segment, for checkpoints or for what a
Snapshot covers. -/
def scanFrames (tolerateInterruptedTail : Bool) (contents : Bytes) :
    Nat → Nat → State → State × Except Error Unit
  | 0, _, state => (state, .ok ())
  | fuel + 1, offset, state =>
      if offset < contents.length then
        if contents.length - offset < frameHeaderSize then
          (state, if tolerateInterruptedTail then .ok () else .error .frameHeaderIncomplete)
        else
          let length := numberAt 4 offset contents
          if length = 0 ∨ maxRecordSize < length then (state, .error (.frameLengthInvalid length))
          else
            let frameEnd := offset + frameHeaderSize + length
            if contents.length < frameEnd then
              (state, if tolerateInterruptedTail then .ok () else .error .frameBodyIncomplete)
            else
              let body := (contents.drop (offset + frameHeaderSize)).take length
              if (codec.checksum body).toNat ≠ numberAt 4 (offset + 4) contents then
                (state, if tolerateInterruptedTail ∧ frameEnd = contents.length then .ok ()
                  else .error .checksumMismatch)
              else
                match visit state (body.headD 0) body.tail with
                | .error failure => (state, .error failure)
                | .ok state => scanFrames tolerateInterruptedTail contents fuel frameEnd state
      else (state, .ok ())

/-- Read a segment. Every frame has a byte, so that the loop has no more rounds
than the segment has bytes. -/
def readSegment (recoverFinalFrame : Bool) (contents : Bytes) (state : State) :
    State × Except Error Bytes :=
  match checkHeader contents with
  | .error failure => (state, .error failure)
  | .ok () =>
      let result := codec.readFrames visit recoverFinalFrame contents contents.length
        segmentHeaderSize state
      (result.1, result.2.map contents.take)

def scanSegmentFrames (tolerateInterruptedTail : Bool) (contents : Bytes) (state : State) :
    State × Except Error Unit :=
  match checkHeader contents with
  | .error failure => (state, .error failure)
  | .ok () => codec.scanFrames visit tolerateInterruptedTail contents contents.length
      segmentHeaderSize state

end Scanners

end Codec

/-! ## Recovery -/

namespace Codec

variable (codec : Codec)

/-- A record is decoded before it is checked against the state, the hard state
alone after its first check. -/
def applyRecord (state : RecoveredState Bytes LogEntry) (kind : UInt8) (payload : Bytes) :
    Except Error (RecoveredState Bytes LogEntry) :=
  if kind = 3 ∧ state.identity.nodeID = [] then .error .hardStateBeforeIdentity
  else do
    let record ← codec.decode kind payload
    codec.format.applyRecord state record

def readSegments : List Bytes → RecoveredState Bytes LogEntry →
    Except Error (List Bytes × RecoveredState Bytes LogEntry)
  | [], state => .ok ([], state)
  | contents :: later, state => do
      let (state, read) := codec.readSegment codec.applyRecord later.isEmpty contents state
      let kept ← read
      let (others, state) ← readSegments later state
      return (kept :: others, state)

def visitCheckpoint (newest : CompactionCheckpoint Bytes) (kind : UInt8) (payload : Bytes) :
    Except Error (CompactionCheckpoint Bytes) :=
  if kind ≠ 9 then .ok newest
  else
    match codec.unmarshal payload with
    | none => .error .checkpointUndecodable
    | some checkpoint => codec.format.visitCheckpoint newest (.checkpoint checkpoint)

def newestCompactionCheckpoint : List Bytes → CompactionCheckpoint Bytes →
    Except Error (CompactionCheckpoint Bytes)
  | [], newest => .ok newest
  | contents :: later, newest => do
      let (newest, scanned) :=
        codec.scanSegmentFrames codec.visitCheckpoint later.isEmpty contents newest
      scanned
      newestCompactionCheckpoint later newest

def recoverSegments (segments : List Bytes) :
    Except Error (List Bytes × RecoveredState Bytes LogEntry) := do
  let checkpoint ← codec.newestCompactionCheckpoint segments .zero
  let (kept, state) ← codec.readSegments segments (.ofCheckpoint checkpoint)
  let state ← Format.identified state
  return (kept, state)

/-- Whether the Snapshot makes a record obsolete, by the bytes of its indexes. -/
def visitCovered (snapshotIndex : Nat) (covered : Bool) (kind : UInt8) (payload : Bytes) :
    Except Error Bool :=
  .ok (covered && match kind.toNat with
    | 4 => (pieces 17 payload).all fun piece => numberAt 8 0 piece ≤ snapshotIndex
    | 5 => (pieces 33 payload).all fun piece => numberAt 8 0 piece ≤ snapshotIndex
    | 6 => 8 ≤ payload.length && numberAt 8 0 payload ≤ snapshotIndex
    | 7 => payload.length == 8 && numberAt 8 0 payload ≤ snapshotIndex
    | _ => true)

def segmentCoveredBySnapshot (snapshotIndex : Nat) (contents : Bytes) : Except Error Bool := do
  let (covered, scanned) := codec.scanSegmentFrames (visitCovered snapshotIndex) false contents true
  scanned
  return covered

/-- Segments as bytes on disk. -/
def medium : Medium Bytes LogEntry Bytes where
  toFormat := codec.format
  create := segmentHeader
  append := fun contents record => contents ++ codec.framing.frame (codec.body record)
  size := List.length
  segmentCoveredBySnapshot := codec.segmentCoveredBySnapshot
  recoverSegments := codec.recoverSegments

end Codec

/-- A codec whose log is never compacted. -/
def plainCodec : Codec where
  checksum := fun body => .ofNat (body.map UInt8.toNat).sum
  blank := List.isEmpty
  blank_nil := rfl
  marshal := fun _ => []
  unmarshal := fun _ => none

end Ternion.Wal
