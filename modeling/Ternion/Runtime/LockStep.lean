import Ternion.Raft.Journaling
import Ternion.Runtime.Loop
import Ternion.Runtime.Open
import Ternion.Runtime.Synced
import Ternion.Wal.Accepted

/-! # Core and log in lock step

Two state machines decide about every event: the core, which keeps its log in
memory, and the write-ahead log, which checks each call against positions of
its own. The writes of a step are records that extend what the log holds, so
no call is refused, and opening the log again recovers the core.
-/

namespace Ternion.RaftRuntime

open Raft

variable {request : AppendEntries} {entry : LogEntry} {truncateFrom : Nat}
  {newEntries : List LogEntry} {outcome : Outcome}

/-! ## Writes as records -/

def Write.record : Write → Wal.Record NodeID LogEntry
  | .saveHardState hardState => .hardState ⟨hardState.term, hardState.votedFor⟩
  | .truncateLog firstIndex => .logTruncation firstIndex
  | .saveLogEntry entry => .logEntry entry
  | .saveCommitIndex commitIndex => .commitIndex commitIndex

/-- The state that a log without compaction recovers for a store. -/
def Store.live (identity : Wal.Identity NodeID) (store : Store) :
    Wal.RecoveredState NodeID LogEntry where
  identity := identity
  hardState := ⟨store.hardState.term, store.hardState.votedFor⟩
  log := store.log
  commitIndex := store.commitIndex
  snapshotIndex := 0
  snapshotTerm := 0

section Records

variable {checkpointSize : Wal.CompactionCheckpoint NodeID → Nat} {identity : Wal.Identity NodeID}
  {store : Store}

theorem Store.extend_live (valid : (store.live identity).Valid (walFormat checkpointSize))
    (write : Write) :
    write.record.extend (store.live identity) = (store.write write).live identity := by
  cases write with
  | saveHardState hardState => rfl
  | saveLogEntry entry => rfl
  | saveCommitIndex commitIndex => rfl
  | truncateLog firstIndex =>
      have cut := valid.consecutive.filter_lt firstIndex
      have kept : store.log.take (firstIndex - 0 - 1) =
          store.log.filter fun entry => entry.index < firstIndex := by
        rw [Nat.sub_right_comm]
        exact cut.symm
      exact congrArg (Wal.RecoveredState.withLog _) kept

def Store.Records (checkpointSize : Wal.CompactionCheckpoint NodeID → Nat)
    (identity : Wal.Identity NodeID) (store : Store) (writes : List Write) : Prop :=
  Wal.Appends (walFormat checkpointSize) (store.live identity) (writes.map Write.record)
    ((store.writeAll writes).live identity)

namespace Store.Records

theorem nil : store.Records checkpointSize identity [] := Wal.Appends.nil

theorem single (valid : (store.live identity).Valid (walFormat checkpointSize)) {write : Write}
    (extending : write.record.Extends (walFormat checkpointSize) (store.live identity)) :
    store.Records checkpointSize identity [write] := by
  have appends := Wal.Appends.single extending
  rw [Store.extend_live valid] at appends
  exact appends

theorem append {first second : List Write}
    (records : store.Records checkpointSize identity first)
    (later : (store.writeAll first).Records checkpointSize identity second) :
    store.Records checkpointSize identity (first ++ second) := by
  have appends := Wal.Appends.append records later
  rw [← List.map_append, ← Store.writeAll_append] at appends
  exact appends

theorem of_appends {final : Wal.RecoveredState NodeID LogEntry} {writes : List Write}
    (valid : (store.live identity).Valid (walFormat checkpointSize))
    (appends : Wal.Appends (walFormat checkpointSize) (store.live identity)
      (writes.map Write.record) final) :
    store.Records checkpointSize identity writes := by
  induction writes generalizing store with
  | nil => exact nil
  | cons write writes induction =>
      cases appends with
      | cons extending rest =>
          have validLater := extending.valid valid
          rw [Store.extend_live valid] at rest validLater
          exact (single valid extending).append (induction validLater rest)

end Store.Records

end Records

/-! ## The writes of a step -/

def FollowedBy (node : Node) (hardState : HardState) : Prop :=
  Wal.HardState.Precedes (⟨node.term, node.votedFor⟩ : Wal.HardState NodeID)
    ⟨hardState.term, hardState.votedFor⟩

theorem FollowedBy.newer {node : Node} {hardState : HardState}
    (newer : node.term < hardState.term) : FollowedBy node hardState :=
  .inl newer

def fitsVote (name : NodeID) : Bool :=
  decide (9 + name.utf8ByteSize ≤ Wal.maxRecordSize)

def fitsEntry (key : String) (value : List UInt8) : Bool :=
  decide (50 + key.utf8ByteSize + value.length ≤ Wal.maxRecordSize)

/-- What an event asks a Node to record fits the frames of its log. -/
def fitsFrames (node : Node) (event : Event) : Bool :=
  fitsVote node.id && match event with
    | .voteRequest request => fitsVote request.sender
    | .proposeSet proposal => fitsEntry proposal.key proposal.value
    | .proposeDelete proposal => fitsEntry proposal.key []
    | .appendEntries request => request.entries.all fun entry => fitsEntry entry.key entry.value
    | _ => true

/-- A write that the log does not refuse for its Term or its size. -/
def Allowed (node : Node) : Write → Prop
  | .saveHardState hardState => FollowedBy node hardState ∧ fitsVote hardState.votedFor
  | .saveLogEntry entry => fitsEntry entry.key entry.value
  | _ => True

namespace Allowed

variable {node : Node}

theorem small {write : Write} (allowed : Allowed node write)
    (checkpointSize : Wal.CompactionCheckpoint NodeID → Nat) :
    write.record.Small (walFormat checkpointSize) := by
  cases write with
  | saveHardState hardState =>
      have fits := of_decide_eq_true allowed.2
      simp only [Write.record, Wal.Record.Small, walFormat]
      omega
  | saveLogEntry entry =>
      have fits := of_decide_eq_true allowed
      simp only [Write.record, Wal.Record.Small, walFormat]
      omega
  | truncateLog firstIndex => exact Nat.le_of_ble_eq_true rfl
  | saveCommitIndex commitIndex => exact Nat.le_of_ble_eq_true rfl

theorem reaches (term : Nat) : ∀ write ∈ reachWrites node term, Allowed node write := by
  intro write present
  rw [reachWrites] at present
  split_ifs at present with newer
  · cases List.mem_singleton.mp present
    exact ⟨.newer newer, rfl⟩
  · cases present

theorem unvoted {term : Nat} (newer : node.term < term) :
    Allowed node (.saveHardState ⟨term, (node.becomeFollower term "").votedFor⟩) := by
  have vote : (node.becomeFollower term "").votedFor = "" := if_pos newer
  rw [vote]
  exact ⟨.newer newer, rfl⟩

theorem voted {request : VoteRequest} (needs : node.voteNeedsPersistence request)
    (fits : fitsVote request.sender) :
    Allowed node (.saveHardState ⟨((node.reachTerm request.term).decideVote request).1.term,
      ((node.reachTerm request.term).decideVote request).1.votedFor⟩) := by
  rw [Node.voteNeedsPersistence, Bool.or_eq_true, decide_eq_true_eq, Bool.and_eq_true] at needs
  rw [Node.reachTerm] at needs ⊢
  split_ifs at needs ⊢ with newer
  · rw [Node.decideVote]
    split_ifs
    · exact ⟨.newer newer, fits⟩
    · exact unvoted newer
  · have grants := (needs.resolve_left newer).1
    have free : node.votedFor = "" ∨ node.votedFor = request.sender := by
      simp only [Node.grantsVote, Bool.and_eq_true, decide_eq_true_eq] at grants
      exact grants.1
    rw [Node.decideVote, if_pos grants]
    exact ⟨.inr ⟨rfl, free⟩, fits⟩

end Allowed

theorem mem_of_entriesToAppend {node : Node} {wantIndex : Nat} {entries : List LogEntry}
    {suffix : List LogEntry × Nat} (taken : node.entriesToAppendFrom wantIndex entries =
      some suffix) :
    ∀ entry ∈ suffix.1, entry ∈ entries := by
  induction entries generalizing wantIndex with
  | nil =>
      cases taken
      exact fun _ present => present
  | cons first entries induction =>
      rw [Node.entriesToAppendFrom] at taken
      split_ifs at taken
      · cases taken
        exact fun _ present => present
      · exact fun entry present => List.mem_cons_of_mem _ (induction taken entry present)
      · cases taken
        exact fun _ present => present

/-- Taking entries saves them, after a truncation and before a commit index. -/
theorem takeEntriesNow_allowed (node follower : Node)
    (fits : ∀ entry ∈ request.entries, fitsEntry entry.key entry.value = true) :
    ∀ write ∈ (takeEntriesNow follower request).writes, Allowed node write := by
  have confirms : ∀ target : Node, ∀ write ∈ (confirmNow target request).writes,
      Allowed node write := by
    intro target write present
    simp only [confirmNow] at present
    split_ifs at present
    · cases List.mem_singleton.mp present
      trivial
    · cases present
  rw [takeEntriesNow]
  split_ifs
  · cases taken : follower.entriesToAppend request.prevLogIndex request.entries with
    | none => exact fun _ present => by cases present
    | some suffix =>
        simp only
        split_ifs
        · intro write present
          rcases List.mem_append.mp present with stores | confirmed
          · rcases List.mem_append.mp stores with cut | saved
            · split_ifs at cut
              · cases List.mem_singleton.mp cut
                trivial
              · cases cut
            · rcases List.mem_map.mp saved with ⟨entry, isNew, rfl⟩
              exact fits entry (mem_of_entriesToAppend taken entry isNew)
          · exact confirms _ write confirmed
        · exact confirms follower
  · exact fun _ present => by cases present

theorem appendEntriesNow_allowed {node : Node}
    (fits : ∀ entry ∈ request.entries, fitsEntry entry.key entry.value = true) :
    ∀ write ∈ (appendEntriesNow node request).writes, Allowed node write := by
  intro write saves
  rw [appendEntriesNow] at saves
  split_ifs at saves
  · cases saves
  · rcases List.mem_append.mp saves with reaches | taken
    · exact .reaches _ write reaches
    · exact takeEntriesNow_allowed node _ fits write taken

theorem stepNow_allowed {node : Node} {event : Event} (fits : fitsFrames node event)
    (uninstalled : ∀ request, event ≠ .installSnapshot request) :
    ∀ write ∈ (stepNow node event).writes, Allowed node write := by
  rcases Bool.and_eq_true_iff.mp fits with ⟨ownName, fits⟩
  have down : ∀ term, node.term < term →
      ∀ write ∈ (stepDownNow node term).writes, Allowed node write := by
    intro term newer write present
    cases List.mem_singleton.mp present
    exact .unvoted newer
  have elected : ∀ started : Node, started.term = node.term → started.id = node.id →
      ∀ write ∈ (startElectionNow started).writes, Allowed node write := by
    intro started same isOwn write present
    cases List.mem_singleton.mp present
    rw [← isOwn] at ownName
    refine ⟨.newer ?_, ownName⟩
    rw [← same]
    exact Nat.lt_succ_self _
  intro write saves
  cases event with
  | electionTimeout =>
      simp only [stepNow, electionTimeoutNow] at saves
      split_ifs at saves
      · cases saves
      · exact elected _ rfl rfl write saves
      · cases saves
  | preVoteResponse response =>
      simp only [stepNow, preVoteResponseNow] at saves
      split_ifs at saves with newer
      · exact down _ newer write saves
      · cases saves
      · cases saves
      · exact elected _ rfl rfl write saves
  | voteRequest request =>
      simp only [stepNow, voteRequestNow] at saves
      split_ifs at saves with _ needs
      · cases saves
      · cases List.mem_singleton.mp saves
        exact .voted needs fits
      · cases saves
  | voteResponse response =>
      simp only [stepNow, voteResponseNow] at saves
      split_ifs at saves with newer
      · exact down _ newer write saves
      · cases saves
      · cases saves
      · cases List.mem_singleton.mp saves
        exact rfl
  | proposeSession proposal =>
      simp only [stepNow, proposeSessionNow] at saves
      split_ifs at saves
      · cases saves
      · cases saves
      · cases List.mem_singleton.mp saves
        exact rfl
  | proposeSet proposal =>
      simp only [stepNow, proposeSetNow] at saves
      split_ifs at saves
      · cases saves
      · cases List.mem_singleton.mp saves
        exact fits
  | proposeDelete proposal =>
      simp only [stepNow, proposeDeleteNow] at saves
      split_ifs at saves
      · cases saves
      · cases List.mem_singleton.mp saves
        exact fits
  | appendEntries request =>
      exact appendEntriesNow_allowed (List.all_eq_true.mp fits) write saves
  | appendEntriesResponse response =>
      simp only [stepNow, appendEntriesResponseNow] at saves
      split_ifs at saves with newer
      · exact down _ newer write saves
      · cases saves
      · cases saves
      · cases advances : (node.recordResponse response).advanceLeaderCommit with
        | none =>
            rw [advances] at saves
            cases saves
        | some advanced =>
            rw [advances] at saves
            cases List.mem_singleton.mp saves
            trivial
  | installSnapshot request => exact absurd rfl (uninstalled request)
  | installSnapshotResponse response =>
      simp only [stepNow, installSnapshotResponseNow] at saves
      split_ifs at saves with newer
      · exact down _ newer write saves
      · cases saves
  | _ => cases saves

/-! ## Keeping the whole log -/

section

variable {node : Node} (whole : node.Whole)

include whole

theorem Whole.appended (next : entry.index = node.lastLogIndex + 1) :
    (node.appendEntries [entry]).Whole := by
  have indexed : Indexed (node.log ++ [entry]) := by
    apply whole.indexed.snoc
    rw [next, whole.lastIndex]
  rw [Node.appendEntries_eq (List.cons_ne_nil _ _) indexed]
  exact ⟨whole.base, whole.baseTerm, indexed, rfl, rfl⟩

theorem Whole.replicate (next : entry.index = node.lastLogIndex + 1) (nextIndex : NodeID → Nat)
    (before : List Action) :
    (replicateNow { node.appendEntries [entry] with nextIndex := nextIndex } entry
      before).core.Whole := by
  rcases Node.sendAppendEntries_frame
    ({ node.appendEntries [entry] with nextIndex := nextIndex }.logSaved entry.index) 0 with
    ⟨_, _, _, frame⟩
  rw [replicateNow, frame]
  exact Whole.appended whole next

theorem Whole.keep (cut : truncateFrom ≠ 0 → node.journal.CutAt truncateFrom) :
    (if truncateFrom ≠ 0 then node.truncateLog truncateFrom else node).Whole ∧
      (if truncateFrom ≠ 0 then node.truncateLog truncateFrom else node).lastLogIndex =
        (node.journal.keep truncateFrom).lastLogIndex := by
  split_ifs with nonzero
  · have within : truncateFrom ≤ node.log.length := whole.lastIndex ▸ (cut nonzero).within
    rw [Node.Whole.truncateLog whole (Nat.pos_of_ne_zero nonzero) within]
    refine ⟨⟨whole.base, whole.baseTerm, whole.indexed.take _, rfl, rfl⟩, ?_⟩
    rw [Book.keep, if_neg nonzero]
    simp only [Node.setLog, List.length_take]
    omega
  · rw [Book.keep, if_pos (not_not.mp nonzero)]
    exact ⟨whole, rfl⟩

theorem Whole.stored (some_ : newEntries ≠ [])
    (cut : truncateFrom ≠ 0 → node.journal.CutAt truncateFrom)
    (consecutive : Consecutive LogEntry.index (node.journal.keep truncateFrom).lastLogIndex
      newEntries) : (RaftRuntime.stored node newEntries truncateFrom).Whole := by
  rcases Whole.keep whole cut with ⟨kept, last⟩
  rw [← last] at consecutive
  have indexed : Indexed
      ((if truncateFrom ≠ 0 then node.truncateLog truncateFrom else node).log ++ newEntries) := by
    have first : Consecutive LogEntry.index 0
        (if truncateFrom ≠ 0 then node.truncateLog truncateFrom else node).log :=
      Consecutive.of_position_eq fun offset entry found => by
        rw [kept.indexed offset entry found, Nat.zero_add]
    have all := Consecutive.append_iff.mpr ⟨first, by
      rw [Nat.zero_add, ← kept.lastIndex]
      exact consecutive⟩
    intro offset entry found
    rw [all.position_eq found, Nat.zero_add]
  rw [RaftRuntime.stored, Node.replaceSuffix, Node.appendEntries_eq some_ indexed]
  exact ⟨kept.base, kept.baseTerm, indexed, rfl, rfl⟩

theorem Whole.confirm (above : node.logBaseIndex ≤ node.lastApplied)
    (request : AppendEntries) : (confirmNow node request).core.Whole := by
  have follows : (followCommit node request.leaderCommit).Whole := by
    rw [followCommit]
    split_ifs
    · exact whole
    · exact whole
  have reached : (followCommit node request.leaderCommit).logBaseIndex ≤
      (followCommit node request.leaderCommit).lastApplied := by
    rw [followCommit]
    split_ifs
    · exact above
    · exact above
  rw [confirmNow, Node.applyThrough_eq _ _ reached]
  exact follows

end

/-! ## Taking entries -/

/-- A new suffix is recorded as a truncation within the log and the entries
that follow it, whatever was compacted before. -/
theorem appends_storeWrites {checkpointSize : Wal.CompactionCheckpoint NodeID → Nat} {node : Node}
    {live : Wal.RecoveredState NodeID LogEntry} (valid : live.Valid (walFormat checkpointSize))
    (last : live.lastIndex = node.lastLogIndex) (commit : live.commitIndex = node.commitIndex)
    (cut : truncateFrom ≠ 0 → node.journal.CutAt truncateFrom)
    (consecutive : Consecutive LogEntry.index (node.journal.keep truncateFrom).lastLogIndex
      newEntries) :
    ∃ final, Wal.Appends (walFormat checkpointSize) live
        ((storeWrites newEntries truncateFrom).map Write.record) final ∧
      final.commitIndex = live.commitIndex ∧
      final.lastIndex = (node.journal.keep truncateFrom).lastLogIndex + newEntries.length := by
  have ending : ∀ {middle : Wal.RecoveredState NodeID LogEntry} {last : Nat},
      middle.lastIndex = last →
      (middle.withLog (middle.log ++ newEntries)).lastIndex = last + newEntries.length := by
    rintro middle _ rfl
    rw [Wal.RecoveredState.lastIndex, Wal.RecoveredState.withLog_log, List.length_append,
      ← Nat.add_assoc]
    rfl
  have entriesRecorded : ∀ entries : List LogEntry,
      (entries.map Write.saveLogEntry).map Write.record = entries.map Wal.Record.logEntry :=
    fun entries => List.map_map
  rw [storeWrites, List.map_append, entriesRecorded]
  by_cases nonzero : truncateFrom ≠ 0
  · have above : node.commitIndex < truncateFrom := (cut nonzero).above
    have within : truncateFrom ≤ node.lastLogIndex := (cut nonzero).within
    have committed := valid.committed
    have extending : (Wal.Record.logTruncation truncateFrom).Extends (walFormat checkpointSize)
        live := by
      rw [Wal.Record.Extends, last, commit]
      omega
    have ends : ((Wal.Record.logTruncation truncateFrom :
        Wal.Record NodeID LogEntry).extend live).lastIndex = truncateFrom - 1 := by
      rw [Wal.RecoveredState.lastIndex] at last
      simp only [Wal.Record.extend, Wal.RecoveredState.lastIndex, Wal.RecoveredState.withLog,
        List.length_take]
      omega
    have kept : (node.journal.keep truncateFrom).lastLogIndex = truncateFrom - 1 := by
      rw [Book.keep, if_neg nonzero]
    rw [kept, ← ends] at consecutive
    rw [if_pos nonzero, kept]
    exact ⟨_, .cons extending (Wal.Appends.entries consecutive), rfl, ending ends⟩
  · have kept : (node.journal.keep truncateFrom).lastLogIndex = node.lastLogIndex := by
      rw [Book.keep, if_pos (not_not.mp nonzero)]
      rfl
    rw [kept, ← last] at consecutive
    rw [if_neg nonzero, kept]
    exact ⟨_, Wal.Appends.entries consecutive, rfl, ending last⟩

/-! ## One step -/

structure InStep (checkpointSize : Wal.CompactionCheckpoint NodeID → Nat)
    (identity : Wal.Identity NodeID) (node : Node) (store : Store) : Prop where
  synced : Synced node store
  whole : node.Whole
  valid : (store.live identity).Valid (walFormat checkpointSize)

structure Takes (checkpointSize : Wal.CompactionCheckpoint NodeID → Nat)
    (identity : Wal.Identity NodeID) (store : Store) (outcome : Outcome) : Prop where
  records : store.Records checkpointSize identity outcome.writes
  inStep : InStep checkpointSize identity outcome.core (store.writeAll outcome.writes)

section Steps

variable {checkpointSize : Wal.CompactionCheckpoint NodeID → Nat} {identity : Wal.Identity NodeID}
  {node : Node} {store : Store}

theorem Takes.of_records (valid : (store.live identity).Valid (walFormat checkpointSize))
    (records : store.Records checkpointSize identity outcome.writes)
    (synced : Synced outcome.core (store.writeAll outcome.writes)) (whole : outcome.core.Whole) :
    Takes checkpointSize identity store outcome where
  records := records
  inStep := ⟨synced, whole, Wal.Appends.valid records valid⟩

theorem Takes.emits (takes : Takes checkpointSize identity store outcome) (actions : List Action) :
    Takes checkpointSize identity store (outcome.emits actions) :=
  ⟨takes.records, takes.inStep⟩

theorem Takes.wrote {writes : List Write} (records : store.Records checkpointSize identity writes)
    (takes : Takes checkpointSize identity (store.writeAll writes) outcome) :
    Takes checkpointSize identity store (outcome.wrote writes) where
  records := records.append takes.records
  inStep := by
    have inStep := takes.inStep
    rw [← Store.writeAll_append] at inStep
    exact inStep

namespace InStep

variable (inStep : InStep checkpointSize identity node store)

include inStep

theorem lastIndex : (store.live identity).lastIndex = node.lastLogIndex := by
  rw [Wal.RecoveredState.lastIndex, inStep.whole.lastIndex, ← inStep.synced.storedLog]
  exact Nat.zero_add _

theorem commitIndex : (store.live identity).commitIndex = node.commitIndex :=
  inStep.synced.storedCommit

theorem committed :
    node.commitIndex ≤ node.lastLogIndex := by
  rw [← inStep.commitIndex, ← inStep.lastIndex]
  exact inStep.valid.known

theorem saves {hardState : HardState} (follows : FollowedBy node hardState) :
    store.Records checkpointSize identity [.saveHardState hardState] := by
  apply Store.Records.single inStep.valid
  have stored := inStep.synced.storedHardState
  rw [FollowedBy] at follows
  rw [Write.record, Wal.Record.Extends, Store.live, stored]
  exact follows

theorem saves_entry (next : entry.index = node.lastLogIndex + 1) :
    store.Records checkpointSize identity [.saveLogEntry entry] := by
  apply Store.Records.single inStep.valid
  rw [Write.record, Wal.Record.Extends, inStep.lastIndex]
  exact next

theorem saves_commit {index : Nat}
    (advances : node.commitIndex < index) (within : index ≤ node.lastLogIndex) :
    store.Records checkpointSize identity [.saveCommitIndex index] := by
  apply Store.Records.single inStep.valid
  rw [Write.record, Wal.Record.Extends, inStep.lastIndex, inStep.commitIndex]
  exact ⟨advances, within⟩

theorem replicate (next : entry.index = node.lastLogIndex + 1) (nextIndex : NodeID → Nat)
    (before : List Action) :
    Takes checkpointSize identity store
      (replicateNow { node.appendEntries [entry] with nextIndex := nextIndex } entry before) := by
  apply Takes.of_records inStep.valid
  · exact inStep.saves_entry next
  · exact inStep.synced.replicate entry before
  · exact Whole.replicate inStep.whole next nextIndex before

theorem confirm (request : AppendEntries) :
    Takes checkpointSize identity store (confirmNow node request) := by
  apply Takes.of_records inStep.valid
  · rw [confirmNow]
    split_ifs with behind
    · exact inStep.saves_commit behind (Nat.min_le_right ..)
    · exact .nil
  · exact inStep.synced.confirm request
  · exact Whole.confirm inStep.whole inStep.synced.above request

theorem stores (some_ : newEntries ≠ []) (cut : truncateFrom ≠ 0 → node.journal.CutAt truncateFrom)
    (consecutive : Consecutive LogEntry.index (node.journal.keep truncateFrom).lastLogIndex
      newEntries) :
    store.Records checkpointSize identity (storeWrites newEntries truncateFrom) ∧
      InStep checkpointSize identity (RaftRuntime.stored node newEntries truncateFrom)
        (store.writeAll (storeWrites newEntries truncateFrom)) := by
  rcases appends_storeWrites inStep.valid inStep.lastIndex inStep.commitIndex cut consecutive with
    ⟨final, appends, _⟩
  have records := Store.Records.of_appends inStep.valid appends
  exact ⟨records, inStep.synced.stored inStep.whole some_ truncateFrom,
    Whole.stored inStep.whole some_ cut consecutive, Wal.Appends.valid records inStep.valid⟩

theorem takeEntries (consecutive : Consecutive LogEntry.index request.prevLogIndex
    request.entries) :
    Takes checkpointSize identity store (takeEntriesNow node request) := by
  have unchanged : ∀ emitted, Takes checkpointSize identity store
      { core := node, emitted := emitted } := fun _ =>
    ⟨.nil, inStep⟩
  rw [takeEntriesNow]
  split_ifs
  · cases taken : node.entriesToAppend request.prevLogIndex request.entries with
    | none => exact unchanged _
    | some suffix =>
        simp only
        split_ifs with some_
        · rcases node.entriesToAppendFrom_placed request.entries request.prevLogIndex consecutive
            taken some_ with ⟨cut, follows⟩
          rcases inStep.stores some_ cut follows with ⟨records, stored⟩
          exact .wrote records (stored.confirm request)
        · exact inStep.confirm request
  · exact unchanged _

theorem follow {term : Nat} (leader : NodeID) (reached : node.term ≤ term) :
    store.Records checkpointSize identity (reachWrites node term) ∧
      InStep checkpointSize identity (followNow node term leader)
        (store.writeAll (reachWrites node term)) := by
  have records : store.Records checkpointSize identity (reachWrites node term) := by
    rw [reachWrites]
    split_ifs with newer
    · exact inStep.saves (.newer newer)
    · exact .nil
  exact ⟨records, inStep.synced.follow leader reached,
    whole_of_holdings (holdings_followNow node _ _) inStep.whole,
    Wal.Appends.valid records inStep.valid⟩

theorem turn {event : Event} (sane : node.sane event) (turn : Turn node event outcome)
    (ordered : ∀ hardState, .saveHardState hardState ∈ outcome.writes →
      FollowedBy node hardState) : Takes checkpointSize identity store outcome := by
  have synced := inStep.synced.turn inStep.whole turn
  have whole := inStep.whole
  have above := inStep.synced.above
  cases turn with
  | kept calm _ _ _ _ =>
      exact .of_records inStep.valid .nil synced (whole_of_holdings calm.holds whole)
  | saved calm _ =>
      apply Takes.of_records inStep.valid _ synced (whole_of_holdings calm.holds whole)
      exact inStep.saves (ordered _ List.mem_cons_self)
  | heartbeat =>
      rcases node.expireAppends.sendAppendEntries_frame 0 with ⟨_, _, _, frame⟩
      apply Takes.of_records inStep.valid .nil synced
      rw [frame]
      exact whole
  | registered readID =>
      rcases (node.registerRead readID).sendAppendEntries_frame readID with ⟨_, _, _, frame⟩
      apply Takes.of_records inStep.valid .nil synced
      rw [frame]
      exact whole
  | @led response =>
      have leading : InStep checkpointSize identity
          (node.recordVote response.sender).becomeLeader store :=
        ⟨inStep.synced.of_holdings rfl rfl rfl inStep.synced.durableHardState, whole, inStep.valid⟩
      exact leading.replicate rfl _ _
  | proposed _ proposes => exact inStep.replicate proposes.position.1 _ _
  | recovered =>
      apply Takes.of_records inStep.valid .nil synced
      rw [Node.applyThrough_eq node _ above]
      exact whole
  | stale => exact ⟨.nil, inStep⟩
  | @followed request reached =>
      rcases inStep.follow request.sender reached with ⟨records, following⟩
      have consecutive : Consecutive LogEntry.index request.prevLogIndex request.entries :=
        of_decide_eq_true sane
      exact .wrote records ((following.takeEntries consecutive).emits _)
  | @committed response advanced _ _ _ advances =>
      rcases node.recordResponse_frame response with ⟨_, _, _, _, recorded⟩
      rcases Option.map_eq_some_iff.mp advances with ⟨index, candidate, rfl⟩
      rcases Node.commitCandidate_bounds candidate with ⟨advanced, bounded, _⟩
      have within : index ≤ node.lastLogIndex := by
        have committed := inStep.committed
        rw [recorded] at bounded
        dsimp only at bounded
        omega
      have advancing : node.commitIndex < index := by
        rw [recorded] at advanced
        exact advanced
      apply Takes.of_records inStep.valid _ synced
      · rcases Node.sendAppendEntries_frame
          { node.recordResponse response with commitIndex := index } 0 with ⟨_, _, _, sent⟩
        rcases ({ node.recordResponse response with
          commitIndex := index }.sendAppendEntries 0).1.acknowledgeRead_frame response with
          ⟨_, reads⟩
        simp only [commitNow]
        rw [Node.applyThrough_eq]
        · rw [reads, sent, recorded]
          exact whole
        · rw [reads, sent, recorded]
          exact above
      · exact inStep.saves_commit advancing within
  | @answered response =>
      rcases node.recordResponse_frame response with ⟨_, _, _, _, recorded⟩
      apply Takes.of_records inStep.valid .nil synced
      simp only [supplyNow]
      split_ifs
      · rcases Node.sendAppendEntriesTo_frame (node.recordResponse response) response.sender
          ((node.recordResponse response).pendingReadFor response.sender) with ⟨_, _, _, sent⟩
        rcases ((node.recordResponse response).sendAppendEntriesTo response.sender
          ((node.recordResponse response).pendingReadFor response.sender)).1.acknowledgeRead_frame
            response with ⟨_, reads⟩
        rw [reads, sent, recorded]
        exact whole
      · rcases (node.recordResponse response).acknowledgeRead_frame response with ⟨_, reads⟩
        rw [reads, recorded]
        exact whole

theorem unwritten {after : Node} {emitted : List Action} (holds : holdings after = holdings node)
    (term : after.term = node.term) (vote : after.votedFor = node.votedFor)
    (durable : HardStateDurable after) :
    Takes checkpointSize identity store { core := after, emitted := emitted } :=
  ⟨.nil, inStep.synced.of_holdings holds term vote durable, whole_of_holdings holds inStep.whole,
    inStep.valid⟩

theorem installSnapshotResponse (response : InstallSnapshotResponse) :
    Takes checkpointSize identity store (installSnapshotResponseNow node response) := by
  rw [installSnapshotResponseNow]
  split_ifs with newer
  · have down : Turn node (.installSnapshotResponse response) (stepDownNow node response.term) :=
      .stepDown node _
    apply inStep.turn rfl down
    intro hardState saves
    cases List.mem_singleton.mp saves
    exact .newer newer
  · have durable := inStep.synced.durableHardState
    rcases Node.handleInstallSnapshotResponse_frame newer with ⟨_, _, _, _, _, frame⟩
    rw [frame]
    apply inStep.unwritten
    · rfl
    · rfl
    · rfl
    · exact durable

end InStep

def uninstalledEvent : Event → Bool
  | .snapshotCompacted _ _ => false
  | .installSnapshot _ => false
  | _ => true

theorem InStep.stepNow (inStep : InStep checkpointSize identity node store) {event : Event}
    (sane : node.sane event) (uninstalled : uninstalledEvent event)
    (allowed : ∀ write ∈ (stepNow node event).writes, Allowed node write) :
    Takes checkpointSize identity store (stepNow node event) := by
  by_cases uncompacted : uncompactedEvent event = true
  · apply inStep.turn sane
      (stepNow_turn inStep.synced.toDurable inStep.synced.durableHardState uncompacted)
    exact fun hardState saves => (allowed _ saves).1
  · cases event with
    | installSnapshotResponse response => exact inStep.installSnapshotResponse response
    | snapshotCompacted index term => cases uninstalled
    | installSnapshot request => cases uninstalled
    | _ => exact absurd rfl uncompacted

end Steps

end Ternion.RaftRuntime
