import Ternion.Wal.Accepted
import Ternion.Wal.RoundTrip

/-! # Crashes in the middle of a call

What a call does to the segment files, byte by byte, and what a crash leaves of
it: all that was synced, and some of what was written later. A log whose
segments kept their headers opens, and recovers some of the records of the
call.
-/

namespace Ternion.Wal

inductive Effect where
  | write (byte : UInt8)
  | sync
  | create
  deriving DecidableEq

def Effect.apply (files : List Bytes) : Effect → List Bytes
  | .write byte => files.dropLast ++ [files.getLast?.getD [] ++ [byte]]
  | .sync => files
  | .create => files ++ [[]]

def lastSync (effects : List Effect) : Nat :=
  effects.length - (effects.reverse.takeWhile (· ≠ .sync)).length

/-- The files after a crash: what was synced is there, and some prefix of what
was written after the last sync. -/
def Crashed (files : List Bytes) (effects : List Effect) (image : List Bytes) : Prop :=
  ∃ executed kept, lastSync (effects.take executed) ≤ kept ∧ kept ≤ executed ∧
    image = (effects.take kept).foldl Effect.apply files

namespace WAL

variable (codec : Codec)

/-- The records that a call sets out to append, when its checks let it. -/
def appended (wal : WAL Bytes Bytes) : Call Bytes LogEntry → List (Record Bytes LogEntry)
  | .saveHardState state => [.hardState state]
  | .saveLogEntries entries =>
      if checkOrder codec.format wal.lastLogIndex entries = .ok () then entries.map .logEntry
      else []
  | .truncateLog firstIndex =>
      if firstIndex = 0 ∨ wal.lastLogIndex + 1 < firstIndex ∨ firstIndex ≤ wal.commitIndex then []
      else [.logTruncation firstIndex]
  | .saveCommitIndex index =>
      if index ≤ wal.commitIndex ∨ wal.lastLogIndex < index then [] else [.commitIndex index]
  | .compact snapshotIndex snapshotTerm =>
      if snapshotIndex = 0 ∨ wal.commitIndex < snapshotIndex then []
      else [.checkpoint (wal.checkpointAt snapshotIndex snapshotTerm wal.commitIndex)]
  | .installSnapshot snapshotIndex snapshotTerm =>
      if snapshotIndex = 0 ∨ snapshotTerm = 0 ∨ snapshotIndex < wal.snapshotIndex then []
      else [.checkpoint (wal.checkpointAt snapshotIndex snapshotTerm
        (max wal.commitIndex snapshotIndex))]

def appendEffects (wal : WAL Bytes Bytes) (record : Record Bytes LogEntry) : List Effect :=
  (if segmentHeaderSize < wal.offset ∧
      wal.segmentSize < wal.offset + (frameHeaderSize + (1 + codec.medium.payloadSize record)) then
    .sync :: .create :: segmentHeader.map .write
  else []) ++ (codec.framing.frame (codec.body record)).map .write

/-- The records go to the files one by one, up to one that is too large. The
sync comes after the last. -/
def recordEffects : WAL Bytes Bytes → List (Record Bytes LogEntry) → List Effect
  | _, [] => [.sync]
  | wal, record :: records =>
      match wal.appendRecord codec.medium record with
      | .error _ => []
      | .ok after => wal.appendEffects codec record ++ recordEffects after records

def effects (wal : WAL Bytes Bytes) (call : Call Bytes LogEntry) : List Effect :=
  if wal.appended codec call = [] then [] else wal.recordEffects codec (wal.appended codec call)

end WAL

/-! ## What a crash leaves -/

theorem foldl_write (older : List Bytes) (active bytes : Bytes) :
    (bytes.map Effect.write).foldl Effect.apply (older ++ [active]) =
      older ++ [active ++ bytes] := by
  induction bytes generalizing active with
  | nil => rw [List.append_nil]; rfl
  | cons byte bytes induction =>
      have first : Effect.apply (older ++ [active]) (.write byte) =
          older ++ [active ++ [byte]] := by
        rw [Effect.apply, List.dropLast_concat, List.getLast?_concat]
        rfl
      rw [List.map_cons, List.foldl_cons, first, induction, List.append_assoc]
      rfl

section Images

variable {codec : Codec} {wal after : WAL Bytes Bytes} {record : Record Bytes LogEntry}
  {records : List (Record Bytes LogEntry)}

theorem WAL.appendEffects_all (appended : wal.appendRecord codec.medium record = .ok after) :
    (wal.appendEffects codec record).foldl Effect.apply wal.segments = after.segments := by
  rw [appendRecord] at appended
  rw [appendEffects, segments, List.foldl_append]
  split_ifs at appended with large full
  · cases appended
    rw [if_pos full, List.foldl_cons, List.foldl_cons]
    change (List.map Effect.write _).foldl _ ((List.map Effect.write _).foldl _
      ((wal.older ++ [wal.active]) ++ [[]])) = _
    rw [foldl_write, foldl_write]
    rfl
  · cases appended
    rw [if_neg full]
    exact foldl_write _ _ _

/-- Files that hold the records and what is left of a frame, or a file without
its whole header. -/
inductive Torn (codec : Codec) (image : List Bytes) (records : List (Record Bytes LogEntry)) : Prop
  | cut (older : List (List (Record Bytes LogEntry))) (current : List (Record Bytes LogEntry))
      (tail : Bytes) : image = older.map codec.medium.write ++
        [codec.medium.write current ++ tail] →
      older.flatten ++ current = records → codec.Ends tail → Torn codec image records
  | headless (contents : Bytes) : contents ∈ image → contents.length < segmentHeaderSize →
      Torn codec image records

theorem Torn.of_holds (holds : codec.medium.Holds codec.Fits wal.segments records) :
    Torn codec wal.segments records := by
  rcases WAL.holds_split holds with ⟨older, current, isOlder, isActive, same⟩
  refine .cut older current [] ?_ same (.inl rfl)
  rw [WAL.segments, isOlder, isActive, List.append_nil]

theorem ends_take (fits : codec.Fits record) {count : Nat}
    (cut : count < (codec.framing.frame (codec.body record)).length) :
    codec.Ends ((codec.framing.frame (codec.body record)).take count) := by
  rcases Nat.eq_zero_or_pos count with none | some
  · exact .inl (by rw [none, List.take_zero])
  · exact .inr (Framing.next_cut fits.framing some cut)

section

variable (holds : codec.medium.Holds codec.Fits wal.segments records)

include holds

theorem Torn.created (fits : codec.Fits record) {count : Nat}
    (cut : count < (segmentHeader ++ codec.framing.frame (codec.body record)).length) :
    Torn codec (wal.segments ++ [(segmentHeader ++ codec.framing.frame (codec.body record)).take
      count]) records := by
  have size : segmentHeader.length = segmentHeaderSize := rfl
  by_cases inHeader : count < segmentHeaderSize
  · apply Torn.headless _ (List.mem_append_right _ List.mem_cons_self)
    rw [List.length_take]
    omega
  · rcases WAL.holds_split holds with ⟨older, current, isOlder, isActive, same⟩
    rw [List.length_append, size] at cut
    refine .cut (older ++ [current]) [] ((codec.framing.frame (codec.body record)).take
      (count - segmentHeaderSize)) ?_ ?_ (ends_take fits (by omega))
    · rw [WAL.segments, isOlder, isActive, List.map_append, List.take_append,
        List.take_of_length_le (by omega), size]
      rfl
    · rw [List.flatten_append, List.flatten_singleton, List.append_nil, same]

theorem Torn.append
    (fits : codec.Fits record) {kept : Nat} (cut : kept < (wal.appendEffects codec record).length) :
    Torn codec (((wal.appendEffects codec record).take kept).foldl Effect.apply wal.segments)
      records := by
  rw [WAL.appendEffects] at cut ⊢
  split_ifs at cut ⊢ with full
  · -- The crash comes before the new segment is there, or in it.
    rw [List.cons_append, List.cons_append, ← List.map_append] at cut ⊢
    match kept with
    | 0 => exact .of_holds holds
    | 1 => exact .of_holds holds
    | count + 2 =>
        simp only [List.length_cons, List.length_map] at cut
        rw [List.take_succ_cons, List.take_succ_cons, List.foldl_cons, List.foldl_cons,
          ← List.map_take]
        change Torn codec ((List.map Effect.write _).foldl _ (wal.segments ++ [[]])) records
        rw [foldl_write]
        exact .created holds fits (by omega)
  · rcases WAL.holds_split holds with ⟨older, current, isOlder, isActive, same⟩
    rw [List.nil_append, List.length_map] at cut
    rw [List.nil_append, ← List.map_take, WAL.segments, foldl_write]
    refine .cut older current _ ?_ same (ends_take fits cut)
    rw [isOlder, isActive]

theorem Torn.sequence {more : List (Record Bytes LogEntry)}
    (writable : ∀ record ∈ more, codec.Writable record) (kept : Nat) :
    ∃ count, (∀ record ∈ more.take count, codec.Fits record) ∧
      Torn codec (((wal.recordEffects codec more).take kept).foldl Effect.apply wal.segments)
        (records ++ more.take count) := by
  induction more generalizing wal records kept with
  | nil =>
      have nothing : ((wal.recordEffects codec []).take kept).foldl Effect.apply wal.segments =
          wal.segments := by
        rw [WAL.recordEffects]
        cases kept with
        | zero => rfl
        | succ kept =>
            rw [List.take_succ_cons, List.take_nil]
            rfl
      refine ⟨0, by simp, ?_⟩
      rw [nothing, List.take_zero, List.append_nil]
      exact .of_holds holds
  | cons record more induction =>
      rw [WAL.recordEffects]
      cases appended : wal.appendRecord codec.medium record with
      | error failure =>
          refine ⟨0, by simp, ?_⟩
          rw [List.take_zero, List.append_nil]
          simp only [List.take_nil, List.foldl_nil]
          exact .of_holds holds
      | ok after =>
          have fits := Codec.fits_of_writable (WAL.appendRecord_short appended)
            (writable record List.mem_cons_self)
          dsimp only
          by_cases inside : kept < (wal.appendEffects codec record).length
          · refine ⟨0, by simp, ?_⟩
            rw [List.take_append_of_le_length (Nat.le_of_lt inside), List.take_zero,
              List.append_nil]
            exact .append holds fits inside
          · have holdsAfter := WAL.appendRecord_holds holds fits appended
            rcases induction holdsAfter
              (fun later present => writable later (List.mem_cons_of_mem _ present))
              (kept - (wal.appendEffects codec record).length) with ⟨count, fit, torn⟩
            refine ⟨count + 1, ?_, ?_⟩
            · rw [List.take_succ_cons]
              exact List.forall_mem_cons.mpr ⟨fits, fit⟩
            · rw [List.take_append, List.take_of_length_le (by omega), List.foldl_append,
                WAL.appendEffects_all appended, List.take_succ_cons, List.append_cons]
              exact torn

theorem Torn.call {call : Call Bytes LogEntry}
    (writable : ∀ record ∈ wal.appended codec call, codec.Writable record) (kept : Nat) :
    ∃ count, (∀ record ∈ (wal.appended codec call).take count, codec.Fits record) ∧
      Torn codec (((wal.effects codec call).take kept).foldl Effect.apply wal.segments)
        (records ++ (wal.appended codec call).take count) := by
  rw [WAL.effects]
  split_ifs with none
  · refine ⟨0, by simp, ?_⟩
    rw [List.take_nil, List.take_zero, List.append_nil]
    exact .of_holds holds
  · exact Torn.sequence holds writable kept

end

theorem Torn.opens {image : List Bytes} {identity : Identity Bytes} {segmentSize : Nat}
    {live : RecoveredState Bytes LogEntry} (torn : Torn codec image records)
    (fits : ∀ record ∈ records, codec.Fits record)
    (headers : ∀ contents ∈ image, segmentHeaderSize ≤ contents.length)
    (intact : Intact codec.format records live) (same : live.identity = identity)
    (roomy : segmentHeaderSize + frameHeaderSize < segmentSize) :
    ∃ reopened, WAL.openWAL codec.medium identity segmentSize image = .ok (reopened, live) := by
  cases torn with
  | headless contents present short =>
      exact absurd short (Nat.not_lt.mpr (headers contents present))
  | cut older current tail isImage isRecords ends =>
      have all : (older ++ [current]).flatten = records := by
        rw [List.flatten_append, List.flatten_singleton, isRecords]
      have fit : ∀ part ∈ older ++ [current], ∀ record ∈ part, codec.Fits record := by
        intro part partPresent record present
        apply fits record
        rw [← all]
        exact List.mem_flatten.mpr ⟨part, partPresent, present⟩
      have recovered : codec.medium.recoverSegments image =
          .ok (older.map codec.medium.write ++ [codec.medium.write current], live) := by
        rw [isImage]
        refine (Codec.recoverSegments_written fit ends).trans ?_
        rw [isRecords, intact.recovers]
        rfl
      have someFile : image ≠ [] := by
        rw [isImage]
        exact List.append_ne_nil_of_right_ne_nil _ (by simp)
      have clusterID := intact.valid.clusterID
      have nodeID := intact.valid.nodeID
      rw [same] at clusterID nodeID
      change codec.medium.blank identity.clusterID = false at clusterID
      change codec.medium.blank identity.nodeID = false at nodeID
      rw [WAL.openWAL, if_neg (by simp [clusterID, nodeID]), if_neg (by omega), if_neg someFile,
        recovered]
      exact ⟨_, if_neg (not_not_intro same)⟩

end Images

/-! ## The records of a call -/

/-- The state with one more record of a call. -/
def Record.extended (format : Format Bytes LogEntry) (live : RecoveredState Bytes LogEntry) :
    Record Bytes LogEntry → RecoveredState Bytes LogEntry
  | .checkpoint saved => Advances.result format live saved
  | record => record.extend live

section Records

variable {codec : Codec} {wal : WAL Bytes Bytes} {live final : RecoveredState Bytes LogEntry}
  {records more : List (Record Bytes LogEntry)} {call : Call Bytes LogEntry}

theorem Appends.final_eq (appends : Appends codec.format live more final) :
    final = more.foldl (Record.extended codec.format) live := by
  induction appends with
  | nil => rfl
  | @cons live record records final extending _ induction =>
      have same : record.extended codec.format live = record.extend live := by
        cases record with
        | checkpoint saved => exact extending.elim
        | _ => rfl
      rw [List.foldl_cons, same]
      exact induction

theorem WAL.Mirrors.appended (mirrors : wal.Mirrors codec.format live)
    (ordered : call.Ordered wal)
    (appending : call.position = none) :
    ∃ final, Appends codec.format live (wal.appended codec call) final := by
  have lastIndex := mirrors.lastLogIndex
  have commitIndex := mirrors.commitIndex
  cases call with
  | saveHardState state =>
      have extending : (Record.hardState state).Extends codec.format live := by
        rw [Record.Extends, ← mirrors.hardState]
        exact ordered state rfl
      exact ⟨_, .single extending⟩
  | saveLogEntries entries =>
      rw [WAL.appended]
      split_ifs with checked
      · have consecutive := checkOrder_eq_ok checked
        rw [lastIndex] at consecutive
        exact ⟨_, Appends.entries consecutive⟩
      · exact ⟨_, .nil⟩
  | truncateLog firstIndex =>
      rw [WAL.appended]
      split_ifs with refused
      · exact ⟨_, .nil⟩
      · have extending : (Record.logTruncation firstIndex).Extends codec.format live := by
          constructor <;> omega
        exact ⟨_, .single extending⟩
  | saveCommitIndex index =>
      rw [WAL.appended]
      split_ifs with refused
      · exact ⟨_, .nil⟩
      · have extending : (Record.commitIndex index).Extends codec.format live := by
          constructor <;> omega
        exact ⟨_, .single extending⟩
  | compact snapshotIndex snapshotTerm => cases appending
  | installSnapshot snapshotIndex snapshotTerm => cases appending

theorem Intact.take (intact : Intact codec.format records live)
    (appends : Appends codec.format live more final) (count : Nat) :
    Intact codec.format (records ++ more.take count)
      ((more.take count).foldl (Record.extended codec.format) live) := by
  rw [← List.take_append_drop count more] at appends
  rcases appends.split with ⟨middle, first, _⟩
  rw [← first.final_eq]
  exact intact.appends first

end Records

/-! ## Crashes of a session -/

/-- Calls with hard states in order and numbers that are machine words, whose
Snapshots neither go back nor commit an index that was truncated. -/
def Session.Operates (codec : Codec) (session : Session Bytes LogEntry Bytes) :
    Action Bytes LogEntry → Prop
  | .reopen _ => True
  | .call call => call.Ordered session.wal ∧
      (∀ record ∈ call.records session.wal, codec.Writable record) ∧
      ∀ position ∈ call.position, session.wal.snapshotIndex ≤ position.1 ∧ position.2 ≠ 0 ∧
        ∀ cut ∈ session.truncations, max session.wal.commitIndex position.1 < cut.1

instance (codec : Codec) (session : Session Bytes LogEntry Bytes) :
    (action : Action Bytes LogEntry) → Decidable (session.Operates codec action)
  | .reopen _ => .isTrue trivial
  | .call _ => inferInstanceAs (Decidable (_ ∧ _ ∧ _))

section Sessions

variable {codec : Codec} {identity : Identity Bytes} {segmentSize : Nat}
  {session after : Session Bytes LogEntry Bytes} {records : List (Record Bytes LogEntry)}
  {live : RecoveredState Bytes LogEntry} {call : Call Bytes LogEntry}

theorem Session.Operates.admits {action : Action Bytes LogEntry}
    (operates : session.Operates codec action)
    (taken : session.next codec.medium action = some after) :
    session.Admits codec.Fits action := by
  cases action with
  | reopen size => trivial
  | call call =>
      rcases operates with ⟨ordered, writable, advancing⟩
      exact ⟨call_fits writable (Session.next_call taken).1, ordered, advancing⟩

theorem WAL.appended_subset (wal : WAL Bytes Bytes) (call : Call Bytes LogEntry) :
    ∀ record ∈ wal.appended codec call, record ∈ call.records wal := by
  intro record present
  cases call with
  | saveHardState state => exact present
  | _ =>
      rw [WAL.appended] at present
      split_ifs at present
      all_goals first | exact present | cases present

theorem extended_identity (same : ∀ saved, .checkpoint saved ∈ records →
      saved.identity = live.identity) :
    (records.foldl (Record.extended codec.format) live).identity = live.identity := by
  induction records generalizing live with
  | nil => rfl
  | cons record records induction =>
      have first : (record.extended codec.format live).identity = live.identity := by
        cases record with
        | checkpoint saved => exact same saved List.mem_cons_self
        | _ => rfl
      rw [List.foldl_cons, ← first]
      apply induction
      intro saved present
      rw [first]
      exact same saved (List.mem_cons_of_mem _ present)

theorem WAL.appended_identity {wal : WAL Bytes Bytes} {saved : CompactionCheckpoint Bytes}
    (present : .checkpoint saved ∈ wal.appended codec call) : saved.identity = wal.identity := by
  have recorded := WAL.appended_subset wal call _ present
  cases call with
  | saveLogEntries entries =>
      rcases List.mem_map.mp recorded with ⟨_, _, other⟩
      cases other
  | _ =>
      cases List.mem_singleton.mp recorded
      all_goals rfl

theorem Intact.take_checkpoint {saved : CompactionCheckpoint Bytes}
    (intact : Intact codec.format records live) (advances : Advances live saved)
    (positioned : (Record.checkpoint saved : Record Bytes LogEntry).Positioned)
    (uncommitted : TruncatesAfter saved.commitIndex records) (count : Nat) :
    Intact codec.format (records ++ [Record.checkpoint saved].take count)
      (([Record.checkpoint saved].take count).foldl (Record.extended codec.format) live) := by
  cases count with
  | zero =>
      rw [List.take_zero, List.append_nil]
      exact intact
  | succ count =>
      rw [List.take_succ_cons, List.take_nil]
      exact intact.checkpoint advances positioned uncommitted (.refl _)

theorem Kept.appended (kept : Kept codec.medium codec.Fits identity session records live)
    (operates : session.Operates codec (.call call)) (count : Nat) :
    Intact codec.format (records ++ (session.wal.appended codec call).take count)
      (((session.wal.appended codec call).take count).foldl
        (Record.extended codec.format) live) := by
  rcases operates with ⟨ordered, _, advancing⟩
  have mirrors := kept.sound.mirrors
  have lastIndex := mirrors.lastLogIndex
  have commitIndex := mirrors.commitIndex
  have known := kept.intact.valid.known
  have uncommitted : ∀ position ∈ call.position,
      TruncatesAfter (max session.wal.commitIndex position.1) records := by
    intro position recorded firstIndex present
    rcases kept.truncations firstIndex present with ⟨cut, made, same⟩
    rw [← same]
    exact (advancing position recorded).2.2 cut made
  cases position : call.position with
  | none =>
      rcases mirrors.appended ordered position with ⟨final, appends⟩
      exact kept.intact.take appends count
  | some recorded =>
      have later := (advancing recorded position).1
      have someTerm := (advancing recorded position).2.1
      rw [mirrors.snapshotIndex] at later
      have cuts := uncommitted recorded position
      cases call with
      | compact snapshotIndex snapshotTerm =>
          cases position
          rw [WAL.appended]
          split_ifs with refused
          · rw [List.take_nil, List.append_nil]
            exact kept.intact
          · have committed : snapshotIndex ≤ session.wal.commitIndex := by omega
            rw [Nat.max_eq_left committed] at cuts
            apply kept.intact.take_checkpoint
            · exact mirrors.advances later (Nat.le_refl _) committed (by omega)
            · exact ⟨fun none => refused (.inl none), someTerm, committed⟩
            · exact cuts
      | installSnapshot snapshotIndex snapshotTerm =>
          cases position
          rw [WAL.appended]
          split_ifs with refused
          · rw [List.take_nil, List.append_nil]
            exact kept.intact
          · apply kept.intact.take_checkpoint
            · exact mirrors.advances later (Nat.le_max_left ..) (Nat.le_max_right ..) (by omega)
            · exact ⟨fun none => refused (.inl none), someTerm, Nat.le_max_right ..⟩
            · exact cuts
      | _ => cases position

/-- A crash of a call that leaves every segment its header: the log opens again,
with what it held before and some of the records of the call. -/
theorem crash_recovers {wal : WAL Bytes Bytes} {fresh : RecoveredState Bytes LogEntry}
    (opened : WAL.openWAL codec.medium identity segmentSize [] = .ok (wal, fresh))
    (reachable : (sessionSystem codec.medium wal).Reachable (Session.Operates codec) session)
    (operates : session.Operates codec (.call call)) {image : List Bytes}
    (crashed : Crashed session.wal.segments (session.wal.effects codec call) image)
    (headers : ∀ contents ∈ image, segmentHeaderSize ≤ contents.length)
    {newSize : Nat} (roomy : segmentHeaderSize + frameHeaderSize < newSize) :
    ∃ before, (∃ unchanged, WAL.openWAL codec.medium identity newSize session.wal.segments =
        .ok (unchanged, before)) ∧
      ∃ count reopened, WAL.openWAL codec.medium identity newSize image =
        .ok (reopened, ((session.wal.appended codec call).take count).foldl
          (Record.extended codec.format) before) := by
  rcases identity_fits opened with ⟨cluster, node⟩
  rcases Kept.reachable Codec.medium_lawful cluster node opened
    (fun operates taken => operates.admits taken) reachable with ⟨records, live, kept⟩
  have someSegment : session.wal.segments ≠ [] := List.append_ne_nil_of_right_ne_nil _ (by simp)
  refine ⟨live, ⟨_, WAL.opens Codec.medium_lawful kept.sound.holds someSegment kept.intact
    kept.identified roomy⟩, ?_⟩
  rcases crashed with ⟨_, many, _, _, isImage⟩
  have writable : ∀ record ∈ session.wal.appended codec call, codec.Writable record :=
    fun record present => operates.2.1 record (WAL.appended_subset _ _ record present)
  rcases Torn.call kept.sound.holds writable many with ⟨count, fits, torn⟩
  rw [← isImage] at torn
  refine ⟨count, ?_⟩
  apply torn.opens _ headers (kept.appended operates count) _ roomy
  · intro record present
    rcases List.mem_append.mp present with old | new
    · exact kept.sound.holds.1 record old
    · exact fits record new
  · rw [← kept.identified]
    apply extended_identity
    intro saved present
    rw [← kept.sound.mirrors.identity]
    exact WAL.appended_identity (List.mem_of_mem_take present)

end Sessions

/-! ## A crash at the beginning of a segment -/

/-- The call that needs a second segment of the small log. -/
def rollingCall : Call Bytes LogEntry := .saveHardState ⟨1, []⟩

/-- The files when the crash comes after some effects of the call. -/
def rollingImage (kept : Nat) : List Bytes :=
  (((bytesLog 40).effects plainCodec rollingCall).take kept).foldl Effect.apply
    (bytesLog 40).segments

theorem rollingImage_crashed (kept : Nat) :
    Crashed (bytesLog 40).segments ((bytesLog 40).effects plainCodec rollingCall)
      (rollingImage kept) :=
  ⟨kept, kept, Nat.le_trans (Nat.sub_le ..) (List.length_take_le ..), Nat.le_refl _, rfl⟩

theorem bytesLog_opened : WAL.openWAL plainCodec.medium bytesIdentity 40 [] =
    .ok (bytesLog 40, .fresh bytesIdentity) := rfl

/-- The crash leaves the header of the new segment and a part of the frame. -/
theorem crash_recovers_rolling :
    (rollingImage 20).map List.length = [32, 18] ∧
      ∃ count reopened, WAL.openWAL plainCodec.medium bytesIdentity 40 (rollingImage 20) =
        .ok (reopened, (((bytesLog 40).appended plainCodec rollingCall).take count).foldl
          (Record.extended plainCodec.format) (.fresh bytesIdentity)) := by
  have reachable : (sessionSystem plainCodec.medium (bytesLog 40)).Reachable
      (Session.Operates plainCodec) { wal := bytesLog 40 } := .initial rfl
  have headers : ∀ contents ∈ rollingImage 20, segmentHeaderSize ≤ contents.length := by
    decide +kernel
  rcases crash_recovers bytesLog_opened reachable
    (show Session.Operates plainCodec _ (.call rollingCall) by decide) (rollingImage_crashed 20)
    headers (show segmentHeaderSize + frameHeaderSize < 40 by decide) with
    ⟨before, ⟨unchanged, opened⟩, recovered⟩
  have isBefore : ((WAL.openWAL plainCodec.medium bytesIdentity 40 (bytesLog 40).segments).map
      Prod.snd).toOption = some (.fresh bytesIdentity) := by decide +kernel
  rw [opened] at isBefore
  cases isBefore
  exact ⟨by decide +kernel, recovered⟩

/-- The crash leaves a new segment that is empty. -/
theorem crash_unrecovered :
    Session.Operates plainCodec { wal := bytesLog 40 } (.call rollingCall) ∧
      Crashed (bytesLog 40).segments ((bytesLog 40).effects plainCodec rollingCall)
        (rollingImage 2) ∧
      (∃ unchanged before, WAL.openWAL plainCodec.medium bytesIdentity 40 (bytesLog 40).segments =
        .ok (unchanged, before)) ∧
      ∀ result, WAL.openWAL plainCodec.medium bytesIdentity 40 (rollingImage 2) ≠ .ok result := by
  have refused : (WAL.openWAL plainCodec.medium bytesIdentity 40 (rollingImage 2)).toOption.isSome =
    false := by decide +kernel
  refine ⟨by decide, rollingImage_crashed 2, ⟨_, _, rfl⟩, fun result opened => ?_⟩
  rw [opened] at refused
  cases refused

end Ternion.Wal
