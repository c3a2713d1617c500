import Ternion.Foundation.Framing
import Ternion.Snapshot.State

/-! # The bytes of a Snapshot

A file is a header with the format version, and the length and the checksum of
the payload that follows. The checksum and the JSON of a state are parameters.
-/

namespace Ternion.Snapshot

/-- What a file takes from elsewhere. -/
structure Codec where
  checksum : Bytes → UInt32
  marshal : State → Bytes
  unmarshal : Bytes → Option State

/-- The letters QKVSNP01. -/
def magic : Bytes := [81, 75, 86, 83, 78, 80, 48, 49]

def formatVersion : Nat := 1

def headerSize : Nat := magic.length + 4 + 8 + 4

def maxPayloadSize : Nat := 4 * 2 ^ 30

/-- Why bytes are no Snapshot. -/
inductive FormatError where
  | tooLarge (size : Nat)
  | shorterThanHeader
  | invalidMagic
  | unsupportedVersion (version : Nat)
  | payloadTooLarge (length : Nat)
  | lengthMismatch (length recorded : Nat)
  | checksumMismatch
  | undecodable
  | invalid (error : Error)
  deriving DecidableEq

def Codec.header (codec : Codec) (payload : Bytes) : Bytes :=
  magic ++ (bigEndian 4 formatVersion ++
    (bigEndian 8 payload.length ++ bigEndian 4 (codec.checksum payload).toNat))

/-- The file that is saved for a state. -/
def Codec.encode (codec : Codec) (state : State) : Except FormatError Bytes :=
  match validateState state with
  | .error error => .error (.invalid error)
  | .ok () =>
      let payload := codec.marshal state
      if maxPayloadSize < payload.length then .error (.payloadTooLarge payload.length)
      else .ok (codec.header payload ++ payload)

def Codec.decodePayload (codec : Codec) (payload : Bytes) : Except FormatError State :=
  match codec.unmarshal payload with
  | none => .error .undecodable
  | some state =>
      match validateState state with
      | .error error => .error (.invalid error)
      | .ok () => .ok state

def Codec.decode (codec : Codec) (contents : Bytes) : Except FormatError State :=
  if maxPayloadSize + headerSize < contents.length then .error (.tooLarge contents.length)
  else if contents.length < headerSize then .error .shorterThanHeader
  else if contents.take magic.length ≠ magic then .error .invalidMagic
  else if numberAt 4 magic.length contents ≠ formatVersion then
    .error (.unsupportedVersion (numberAt 4 magic.length contents))
  else if maxPayloadSize < numberAt 8 (magic.length + 4) contents then
    .error (.payloadTooLarge (numberAt 8 (magic.length + 4) contents))
  else if numberAt 8 (magic.length + 4) contents ≠ contents.length - headerSize then
    .error (.lengthMismatch (contents.length - headerSize)
      (numberAt 8 (magic.length + 4) contents))
  else if (codec.checksum (contents.drop headerSize)).toNat ≠
      numberAt 4 (magic.length + 12) contents then .error .checksumMismatch
  else codec.decodePayload (contents.drop headerSize)

/-! ## A saved file is read back -/

theorem Codec.length_header (codec : Codec) (payload : Bytes) :
    (codec.header payload).length = headerSize := by
  simp only [header, List.length_append, length_bigEndian]
  rfl

theorem Codec.decode_file (codec : Codec) {payload : Bytes}
    (small : payload.length ≤ maxPayloadSize) :
    codec.decode (codec.header payload ++ payload) = codec.decodePayload payload := by
  have length : (codec.header payload ++ payload).length = headerSize + payload.length := by
    rw [List.length_append, codec.length_header]
  have rest : (codec.header payload ++ payload).drop headerSize = payload :=
    List.drop_left' (codec.length_header payload)
  have begins : (codec.header payload ++ payload).take magic.length = magic := by
    rw [header, List.append_assoc, List.take_left]
  have isVersion : numberAt 4 magic.length (codec.header payload ++ payload) = formatVersion := by
    rw [header, List.append_assoc, List.append_assoc]
    exact numberAt_field (by decide) rfl _
  have isLength : numberAt 8 (magic.length + 4) (codec.header payload ++ payload) =
      payload.length := by
    have same : codec.header payload ++ payload = (magic ++ bigEndian 4 formatVersion) ++
        (bigEndian 8 payload.length ++ (bigEndian 4
          (codec.checksum payload).toNat ++ payload)) := by
      simp only [header, List.append_assoc]
    have fits : payload.length < 256 ^ 8 := by
      rw [maxPayloadSize] at small
      omega
    rw [same]
    apply numberAt_field fits
    rw [List.length_append, length_bigEndian]
  have isChecksum : numberAt 4 (magic.length + 12) (codec.header payload ++ payload) =
      (codec.checksum payload).toNat := by
    have same : codec.header payload ++ payload = (magic ++ bigEndian 4 formatVersion ++
        bigEndian 8 payload.length) ++ (bigEndian 4 (codec.checksum payload).toNat ++ payload) := by
      simp only [header, List.append_assoc]
    rw [same]
    apply numberAt_field (codec.checksum payload).toNat_lt
    simp only [List.length_append, length_bigEndian]
  rw [decode, if_neg (by omega), if_neg (by omega), if_neg (not_not.mpr begins),
    if_neg (not_not.mpr isVersion), isLength, if_neg (by omega), if_neg (by omega), rest,
    isChecksum, if_neg (not_not.mpr rfl)]

theorem Codec.encode_eq {codec : Codec} {state : State} (validated : validateState state = .ok ())
    (small : (codec.marshal state).length ≤ maxPayloadSize) :
    codec.encode state = .ok (codec.header (codec.marshal state) ++ codec.marshal state) := by
  rw [encode, validated]
  exact if_neg (Nat.not_lt.mpr small)

theorem Codec.decode_encode {codec : Codec} {state : State}
    (readBack : codec.unmarshal (codec.marshal state) = some state) {contents : Bytes}
    (encoded : codec.encode state = .ok contents) : codec.decode contents = .ok state := by
  rw [encode] at encoded
  cases validated : validateState state with
  | error error =>
      rw [validated] at encoded
      cases encoded
  | ok valid =>
      rw [validated] at encoded
      dsimp only at encoded
      split_ifs at encoded with large
      rw [← Except.ok.inj encoded, codec.decode_file (Nat.not_lt.mp large), decodePayload,
        readBack]
      dsimp only
      rw [validated]

end Ternion.Snapshot
