import Mathlib.Algebra.GroupWithZero.Nat
import Mathlib.Data.List.Induction
import Ternion.Foundation.Fallible

/-! # Frames in a byte stream

Numbers of a fixed width, and bodies framed by their length and a checksum.
Frames that were written are read back one by one. A stream that was cut off
inside a frame shows it: what is left of the frame is never taken for one.
-/

namespace Ternion

variable {width value fuel : Nat}

abbrev Bytes := List UInt8

/-! ## Numbers -/

def bigEndian : Nat → Nat → Bytes
  | 0, _ => []
  | width + 1, value => bigEndian width (value / 256) ++ [UInt8.ofNat value]

def ofBigEndian (bytes : Bytes) : Nat :=
  bytes.foldl (fun value byte => value * 256 + byte.toNat) 0

@[simp] theorem length_bigEndian (width value : Nat) : (bigEndian width value).length = width := by
  induction width generalizing value with
  | zero => rfl
  | succ width induction => rw [bigEndian, List.length_append, induction]; rfl

theorem ofBigEndian_append_byte (bytes : Bytes) (byte : UInt8) :
    ofBigEndian (bytes ++ [byte]) = ofBigEndian bytes * 256 + byte.toNat := by
  rw [ofBigEndian, List.foldl_append]
  rfl

theorem ofBigEndian_bigEndian (small : value < 256 ^ width) :
    ofBigEndian (bigEndian width value) = value := by
  induction width generalizing value with
  | zero =>
      have none : value = 0 := Nat.lt_one_iff.mp small
      rw [none]
      rfl
  | succ width induction =>
      have higher : value / 256 < 256 ^ width :=
        Nat.div_lt_of_lt_mul (by rwa [Nat.pow_succ'] at small)
      rw [bigEndian, ofBigEndian_append_byte, induction higher, UInt8.toNat_ofNat']
      omega

/-- The number at an offset. -/
def numberAt (width offset : Nat) (bytes : Bytes) : Nat :=
  ofBigEndian ((bytes.drop offset).take width)

theorem numberAt_field {offset : Nat} (small : value < 256 ^ width) {before : Bytes}
    (starts : before.length = offset) (after : Bytes) :
    numberAt width offset (before ++ (bigEndian width value ++ after)) = value := by
  rw [numberAt, List.drop_left' starts, List.take_left' (length_bigEndian width value),
    ofBigEndian_bigEndian small]

theorem numberAt_zero (small : value < 256 ^ width) (rest : Bytes) :
    numberAt width 0 (bigEndian width value ++ rest) = value := by
  rw [← List.nil_append (_ ++ rest)]
  exact numberAt_field small List.length_nil rest

theorem numberAt_bigEndian (small : value < 256 ^ width) :
    numberAt width 0 (bigEndian width value) = value := by
  have read := numberAt_zero small []
  rwa [List.append_nil] at read

theorem ofBigEndian_lt (bytes : Bytes) : ofBigEndian bytes < 256 ^ bytes.length := by
  induction bytes using List.reverseRecOn with
  | nil => exact Nat.one_pos
  | append_singleton bytes byte induction =>
      have small : byte.toNat < 256 := byte.toNat_lt
      rw [ofBigEndian_append_byte, List.length_append, List.length_singleton, Nat.pow_succ]
      omega

theorem bigEndian_ofBigEndian (bytes : Bytes) :
    bigEndian bytes.length (ofBigEndian bytes) = bytes := by
  induction bytes using List.reverseRecOn with
  | nil => rfl
  | append_singleton bytes byte induction =>
      have small : byte.toNat < 256 := byte.toNat_lt
      have higher : (ofBigEndian bytes * 256 + byte.toNat) / 256 = ofBigEndian bytes := by omega
      have lowest : UInt8.ofNat (ofBigEndian bytes * 256 + byte.toNat) = byte := by
        apply UInt8.toNat_inj.mp
        rw [UInt8.toNat_ofNat']
        omega
      rw [ofBigEndian_append_byte, List.length_append, List.length_singleton, bigEndian, higher,
        lowest, induction]

/-! ## Frames -/

structure Framing where
  checksum : Bytes → UInt32
  limit : Nat

namespace Framing

def headerSize : Nat := 8

inductive Fault where
  | headerIncomplete
  | lengthInvalid (length : Nat)
  | bodyIncomplete
  | checksumMismatch
  deriving DecidableEq

/-- What stands at the beginning of a stream. A fault at its end may come from
a frame whose writing was interrupted. -/
inductive Head where
  | finished
  | interrupted (fault : Fault)
  | broken (fault : Fault)
  | frame (body rest : Bytes)
  deriving DecidableEq

variable (framing : Framing)

def frame (body : Bytes) : Bytes :=
  bigEndian 4 body.length ++ (bigEndian 4 (framing.checksum body).toNat ++ body)

def next (bytes : Bytes) : Head :=
  let length := ofBigEndian (bytes.take 4)
  let body := (bytes.drop headerSize).take length
  if bytes = [] then .finished
  else if bytes.length < headerSize then .interrupted .headerIncomplete
  else if length = 0 ∨ framing.limit < length then .broken (.lengthInvalid length)
  else if bytes.length < headerSize + length then .interrupted .bodyIncomplete
  else if (framing.checksum body).toNat ≠ ofBigEndian ((bytes.drop 4).take 4) then
    if bytes.length = headerSize + length then .interrupted .checksumMismatch
    else .broken .checksumMismatch
  else .frame body (bytes.drop (headerSize + length))

/-- Visit one frame after another. The result is the state after the last visit,
and the bytes that are left. A scan that tolerates an interrupted frame leaves
its bytes. -/
def scanWithin {ε State : Type} (report : Fault → ε) (visit : State → Bytes → Except ε State)
    (tolerate : Bool) : Nat → Bytes → State → State × Except ε Bytes
  | 0, bytes, state => (state, .ok bytes)
  | fuel + 1, bytes, state =>
      match framing.next bytes with
      | .finished => (state, .ok [])
      | .interrupted fault => (state, if tolerate then .ok bytes else .error (report fault))
      | .broken fault => (state, .error (report fault))
      | .frame body rest =>
          match visit state body with
          | .error failure => (state, .error failure)
          | .ok state => scanWithin report visit tolerate fuel rest state

def scan {ε State : Type} (report : Fault → ε) (visit : State → Bytes → Except ε State)
    (tolerate : Bool) (bytes : Bytes) (state : State) : State × Except ε Bytes :=
  framing.scanWithin report visit tolerate bytes.length bytes state

/-- The result of a scan, as far as it succeeded. -/
def outcome {ε State : Type} (result : State × Except ε Bytes) : Except ε (State × Bytes) :=
  result.2.map fun left => (result.1, left)

theorem outcome_eq_ok {ε State : Type} {result : State × Except ε Bytes} {final : State}
    {left : Bytes} (reached : outcome result = .ok (final, left)) : result = (final, .ok left) := by
  rcases result with ⟨state, ended⟩
  cases ended with
  | error failure => cases reached
  | ok bytes =>
      cases reached
      rfl

structure Fits (body : Bytes) : Prop where
  someByte : body ≠ []
  short : body.length ≤ framing.limit
  counted : body.length < 256 ^ 4

variable {framing} {body rest : Bytes}

theorem length_frame : (framing.frame body).length = headerSize + body.length := by
  simp only [frame, List.length_append, length_bigEndian, headerSize]
  omega

theorem Fits.length_pos (fits : framing.Fits body) : 0 < body.length :=
  List.length_pos_of_ne_nil fits.someByte

theorem take_frame : (framing.frame body ++ rest).take 4 = bigEndian 4 body.length := by
  rw [frame, List.append_assoc]
  exact List.take_left' (length_bigEndian ..)

theorem drop_four :
    (framing.frame body ++ rest).drop 4 =
      bigEndian 4 (framing.checksum body).toNat ++ (body ++ rest) := by
  rw [frame, List.append_assoc, List.append_assoc]
  exact List.drop_left' (length_bigEndian ..)

theorem drop_header : (framing.frame body ++ rest).drop headerSize = body ++ rest := by
  have twice : headerSize = 4 + 4 := rfl
  rw [twice, ← List.drop_drop, drop_four]
  exact List.drop_left' (length_bigEndian ..)

theorem next_frame (fits : framing.Fits body) :
    framing.next (framing.frame body ++ rest) = .frame body rest := by
  have isLength : ofBigEndian (bigEndian 4 body.length) = body.length :=
    ofBigEndian_bigEndian fits.counted
  have isChecksum : ofBigEndian (bigEndian 4 (framing.checksum body).toNat) =
      (framing.checksum body).toNat := ofBigEndian_bigEndian (framing.checksum body).toNat_lt
  have size : (framing.frame body ++ rest).length = headerSize + body.length + rest.length := by
    rw [List.length_append, length_frame]
  have someByte := fits.length_pos
  have notLong := fits.short
  have present : framing.frame body ++ rest ≠ [] := by
    intro empty
    rw [empty] at size
    simp only [List.length_nil] at size
    omega
  have first : ((framing.frame body ++ rest).drop 4).take 4 =
      bigEndian 4 (framing.checksum body).toNat := by
    rw [drop_four]
    exact List.take_left' (length_bigEndian ..)
  have others : (framing.frame body ++ rest).drop (headerSize + body.length) = rest :=
    List.drop_left' length_frame
  have isBody : (body ++ rest).take body.length = body := List.take_left' rfl
  simp only [next, take_frame, drop_header, isLength, isBody, first, isChecksum, others]
  rw [if_neg present, if_neg (by omega), if_neg (by omega), if_neg (by omega),
    if_neg (not_not_intro rfl)]

theorem next_cut (fits : framing.Fits body) {count : Nat} (someByte : 0 < count)
    (cut : count < (framing.frame body).length) :
    ∃ fault, framing.next ((framing.frame body).take count) = .interrupted fault := by
  have size : ((framing.frame body).take count).length = count := by
    rw [List.length_take]
    omega
  have present : (framing.frame body).take count ≠ [] := by
    intro empty
    rw [empty, List.length_nil] at size
    omega
  rw [length_frame] at cut
  simp only [next]
  rw [if_neg present]
  by_cases inHeader : ((framing.frame body).take count).length < headerSize
  · exact ⟨_, if_pos inHeader⟩
  · have isLength : ofBigEndian (((framing.frame body).take count).take 4) = body.length := by
      have first : (framing.frame body ++ []).take 4 = bigEndian 4 body.length := take_frame
      rw [List.append_nil] at first
      rw [List.take_take, Nat.min_eq_left (by rw [headerSize] at inHeader; omega), first,
        ofBigEndian_bigEndian fits.counted]
    have someBody := fits.length_pos
    have notLong := fits.short
    rw [if_neg inHeader, isLength, if_neg (by omega), if_pos (by omega)]
    exact ⟨_, rfl⟩

theorem next_eq_frame {bytes : Bytes} (found : framing.next bytes = .frame body rest) :
    bytes = framing.frame body ++ rest ∧ framing.Fits body := by
  simp only [next] at found
  split_ifs at found with empty inHeader invalid inBody mismatch atEnd
  cases found
  have lengthBytes : (bytes.take 4).length = 4 := by
    rw [List.length_take]
    rw [headerSize] at inHeader
    omega
  have checksumBytes : ((bytes.drop 4).take 4).length = 4 := by
    rw [List.length_take, List.length_drop]
    rw [headerSize] at inHeader
    omega
  have size : ((bytes.drop headerSize).take (ofBigEndian (bytes.take 4))).length =
      ofBigEndian (bytes.take 4) := by
    rw [List.length_take, List.length_drop]
    omega
  have isLength : bigEndian 4 (ofBigEndian (bytes.take 4)) = bytes.take 4 := by
    have spelled := bigEndian_ofBigEndian (bytes.take 4)
    rwa [lengthBytes] at spelled
  have isChecksum : bigEndian 4 (ofBigEndian ((bytes.drop 4).take 4)) = (bytes.drop 4).take 4 := by
    have spelled := bigEndian_ofBigEndian ((bytes.drop 4).take 4)
    rwa [checksumBytes] at spelled
  constructor
  · rw [frame, size, isLength, not_not.mp mismatch, isChecksum]
    have rest : (bytes.drop headerSize).take (ofBigEndian (bytes.take 4)) ++
        bytes.drop (headerSize + ofBigEndian (bytes.take 4)) = (bytes.drop 4).drop 4 := by
      rw [← List.drop_drop, List.take_append_drop, List.drop_drop]
      rfl
    rw [List.append_assoc, List.append_assoc, rest, List.take_append_drop, List.take_append_drop]
  · constructor
    · intro none
      rw [none, List.length_nil] at size
      omega
    · rw [size]
      omega
    · have small := ofBigEndian_lt (bytes.take 4)
      rwa [lengthBytes, ← size] at small

/-! ## Streams -/

def frames (framing : Framing) (bodies : List Bytes) : Bytes :=
  (bodies.map framing.frame).flatten

section Scan

variable {ε State : Type} (report : Fault → ε) (visit : State → Bytes → Except ε State)
  (tolerate : Bool) {bodies : List Bytes} {tail : Bytes}

theorem scanWithin_fuel {other : Nat} {bytes : Bytes} (enough : bytes.length ≤ fuel)
    (alsoEnough : bytes.length ≤ other) (state : State) :
    framing.scanWithin report visit tolerate fuel bytes state =
      framing.scanWithin report visit tolerate other bytes state := by
  induction fuel generalizing bytes other state with
  | zero =>
      have empty : bytes = [] := List.length_eq_zero_iff.mp (Nat.le_zero.mp enough)
      rw [empty]
      cases other <;> rfl
  | succ fuel induction =>
      cases other with
      | zero =>
          have empty : bytes = [] := List.length_eq_zero_iff.mp (Nat.le_zero.mp alsoEnough)
          rw [empty]
          rfl
      | succ other =>
          rw [scanWithin, scanWithin]
          cases found : framing.next bytes with
          | frame body rest =>
              have split := (next_eq_frame found).1
              rw [split, List.length_append, length_frame, headerSize] at enough alsoEnough
              dsimp only
              cases visit state body with
              | error failure => rfl
              | ok state => exact induction (by omega) (by omega) state
          | _ => rfl

section

variable (fits : ∀ body ∈ bodies, framing.Fits body) (state : State)

include fits state

theorem scanWithin_frames (enough : (framing.frames bodies ++ tail).length ≤ fuel) :
    ∃ left, tail.length ≤ left ∧
      outcome (framing.scanWithin report visit tolerate fuel
        (framing.frames bodies ++ tail) state) =
        bodies.foldlM visit state >>= fun final =>
          outcome (framing.scanWithin report visit tolerate left tail final) := by
  induction bodies generalizing state fuel with
  | nil => exact ⟨fuel, enough, rfl⟩
  | cons body bodies induction =>
      have split : framing.frames (body :: bodies) ++ tail =
          framing.frame body ++ (framing.frames bodies ++ tail) := by
        rw [frames, List.map_cons, List.flatten_cons, List.append_assoc]
        rfl
      rw [split, List.length_append, length_frame, headerSize] at enough
      rcases Nat.exists_eq_add_one_of_ne_zero (show fuel ≠ 0 by omega) with ⟨less, isFuel⟩
      rw [split, isFuel, List.foldlM_cons]
      simp only [scanWithin, next_frame (fits body List.mem_cons_self)]
      cases visit state body with
      | error failure => exact ⟨tail.length, Nat.le_refl _, rfl⟩
      | ok state =>
          exact induction (fun other present => fits other (List.mem_cons_of_mem _ present)) state
            (by omega)

theorem scan_frames :
    outcome (framing.scan report visit tolerate (framing.frames bodies) state) =
      (bodies.foldlM visit state).map fun final => (final, []) := by
  have enough : (framing.frames bodies ++ []).length ≤ (framing.frames bodies).length :=
    Nat.le_of_eq (congrArg List.length (List.append_nil _))
  rcases scanWithin_frames report visit tolerate fits state enough with ⟨left, _, scanned⟩
  rw [List.append_nil] at scanned
  rw [scan, scanned]
  cases bodies.foldlM visit state with
  | error failure => rfl
  | ok final =>
      cases left with
      | zero => rfl
      | succ left => rfl

theorem scan_cut {fault : Fault} (cut : framing.next tail = .interrupted fault) :
    outcome (framing.scan report visit true (framing.frames bodies ++ tail) state) =
      (bodies.foldlM visit state).map fun final => (final, tail) := by
  rcases scanWithin_frames report visit true fits state (Nat.le_refl _) with
    ⟨left, _, scanned⟩
  rw [scan, scanned]
  cases bodies.foldlM visit state with
  | error failure => rfl
  | ok final =>
      cases left with
      | zero => rfl
      | succ left =>
          change outcome (framing.scanWithin report visit true (left + 1) tail final) = _
          rw [scanWithin, cut]
          rfl

end

/-- A scan that succeeds has read frames, and left nothing but a frame that was
cut off. -/
theorem scanWithin_eq_ok {bytes left : Bytes} {state final : State} (enough : bytes.length ≤ fuel)
    (scanned : framing.scanWithin report visit tolerate fuel bytes state = (final, .ok left)) :
    ∃ bodies, (∀ body ∈ bodies, framing.Fits body) ∧ bytes = framing.frames bodies ++ left ∧
      bodies.foldlM visit state = .ok final := by
  induction fuel generalizing bytes state with
  | zero =>
      cases scanned
      exact ⟨[], by simp, rfl, rfl⟩
  | succ fuel induction =>
      rw [scanWithin] at scanned
      cases found : framing.next bytes with
      | finished =>
          have empty : bytes = [] := by
            simp only [next] at found
            split_ifs at found with empty
            exact empty
          rw [found] at scanned
          cases scanned
          exact ⟨[], by simp, empty, rfl⟩
      | interrupted fault =>
          rw [found] at scanned
          rcases Prod.mk.inj scanned with ⟨isFinal, isLeft⟩
          split_ifs at isLeft
          cases isLeft
          exact ⟨[], by simp, rfl, congrArg Except.ok isFinal⟩
      | broken fault =>
          rw [found] at scanned
          cases scanned
      | frame body rest =>
          rw [found] at scanned
          rcases next_eq_frame found with ⟨split, fits⟩
          have shorter : rest.length ≤ fuel := by
            rw [split, List.length_append, length_frame, headerSize] at enough
            omega
          cases visited : visit state body with
          | error failure =>
              simp only [visited] at scanned
              cases scanned
          | ok middle =>
              simp only [visited] at scanned
              rcases induction shorter scanned with ⟨bodies, fit, isRest, folded⟩
              refine ⟨body :: bodies, ?_, ?_, ?_⟩
              · intro other present
                rcases List.mem_cons.mp present with same | later
                · exact same ▸ fits
                · exact fit other later
              · rw [split, isRest, ← List.append_assoc]
                rfl
              · exact Fallible.foldlM_cons_eq_ok.mpr ⟨middle, visited, folded⟩

theorem scanWithin_eq_error {bytes : Bytes} {state : State} {failure : ε}
    (failed : (framing.scanWithin report visit tolerate fuel bytes state).2 = .error failure) :
    (∃ fault, failure = report fault) ∨ ∃ state body, visit state body = .error failure := by
  induction fuel generalizing bytes state with
  | zero => cases failed
  | succ fuel induction =>
      rw [scanWithin] at failed
      cases found : framing.next bytes with
      | finished =>
          rw [found] at failed
          cases failed
      | interrupted fault =>
          rw [found] at failed
          dsimp only at failed
          split_ifs at failed
          exact .inl ⟨fault, (Except.error.inj failed).symm⟩
      | broken fault =>
          rw [found] at failed
          exact .inl ⟨fault, (Except.error.inj failed).symm⟩
      | frame body rest =>
          rw [found] at failed
          dsimp only at failed
          cases visited : visit state body with
          | error other =>
              rw [visited] at failed
              cases failed
              exact .inr ⟨state, body, visited⟩
          | ok next =>
              rw [visited] at failed
              exact induction failed

end Scan

end Framing

end Ternion
