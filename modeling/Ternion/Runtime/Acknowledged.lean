import Ternion.Runtime.Recorder

/-! # Acknowledged entries are durable

A Follower keeps one position below which it takes its log for durable. The
position is right as long as entries are removed only while nothing is on its
way to storage: then the log above it consists of the writes that are not
completed, in their order.
-/

namespace Ternion

open Raft RaftRuntime

namespace Raft

variable {pending : PendingLogPersistence}

/-- A write removes a position from the store. -/
def LogWrite.Removes (write : LogWrite) (index : Nat) : Prop :=
  write.truncateFrom ≠ 0 ∧ write.truncateFrom ≤ index

/-- An entry is in one of the first `completed` writes, and no later write
removes it. -/
def Covered (writes : List LogWrite) (completed : Nat) (entry : LogEntry) : Prop :=
  ∃ earlier write later, writes = earlier ++ write :: later ∧ earlier.length < completed ∧
    entry ∈ write.entries ∧ ∀ other ∈ later, ¬other.Removes entry.index

theorem Covered.append {writes more : List LogWrite} {completed : Nat} {entry : LogEntry}
    (covered : Covered writes completed entry)
    (spared : ∀ other ∈ more, ¬other.Removes entry.index) :
    Covered (writes ++ more) completed entry := by
  rcases covered with ⟨earlier, write, later, rfl, isCompleted, contains, kept⟩
  refine ⟨earlier, write, later ++ more, by simp, isCompleted, contains, fun other present => ?_⟩
  rcases List.mem_append.mp present with before | after
  · exact kept other before
  · exact spared other after

theorem Covered.mem {writes : List LogWrite} {completed : Nat} {entry : LogEntry}
    (covered : Covered writes completed entry) :
    entry ∈ (writes.take completed).flatMap LogWrite.entries := by
  rcases covered with ⟨earlier, write, later, rfl, isCompleted, contains, _⟩
  refine List.mem_flatMap.mpr ⟨write, List.mem_take_iff_getElem.mpr ?_, contains⟩
  refine ⟨earlier.length, ?_, by simp⟩
  simp only [List.length_append, List.length_cons]
  omega

theorem Covered.mono {writes : List LogWrite} {completed more : Nat} {entry : LogEntry}
    (covered : Covered writes completed entry) (le : completed ≤ more) :
    Covered writes more entry := by
  rcases covered with ⟨earlier, write, later, shape, isCompleted, rest⟩
  exact ⟨earlier, write, later, shape, isCompleted.trans_le le, rest⟩

/-- Writes that are not completed end one after another from `reach` on. -/
def Scheduled (pendingLog : Nat → Option PendingLogPersistence) :
    Nat → List LogWrite → Prop
  | _, [] => True
  | reach, write :: rest =>
      (∃ pending, pendingLog write.persistenceID = some pending ∧
        pending.lastIndex = reach + write.entries.length) ∧
      Scheduled pendingLog (reach + write.entries.length) rest

namespace Scheduled

variable {pendingLog : Nat → Option PendingLogPersistence} {reach : Nat} {writes : List LogWrite}

theorem congr {others : Nat → Option PendingLogPersistence}
    (scheduled : Scheduled pendingLog reach writes)
    (same : ∀ write ∈ writes, others write.persistenceID = pendingLog write.persistenceID) :
    Scheduled others reach writes := by
  induction writes generalizing reach with
  | nil => trivial
  | cons write rest induction =>
      refine ⟨?_, induction scheduled.2 fun other present => same other (.tail _ present)⟩
      rw [same write (.head _)]
      exact scheduled.1

theorem snoc (scheduled : Scheduled pendingLog reach writes) {write : LogWrite}
    (found : pendingLog write.persistenceID = some pending)
    (last : pending.lastIndex =
      reach + (writes.flatMap LogWrite.entries).length + write.entries.length) :
    Scheduled pendingLog reach (writes ++ [write]) := by
  induction writes generalizing reach with
  | nil => exact ⟨⟨pending, found, by simpa using last⟩, trivial⟩
  | cons first rest induction =>
      refine ⟨scheduled.1, induction scheduled.2 ?_⟩
      simp only [List.flatMap_cons, List.length_append] at last
      omega

end Scheduled

/-- The log consists of a durable part and of the writes that are not completed. -/
structure Kept (book : Book) (writes : List LogWrite) (completed : Nat) : Prop where
  placed : book.Placed
  split : ∃ settled, book.log = settled ++ (writes.drop completed).flatMap LogWrite.entries ∧
    book.durableLogIndex = book.logBaseIndex + settled.length ∧
    ∀ entry ∈ settled, Covered writes completed entry
  scheduled : Scheduled book.pendingLog book.durableLogIndex (writes.drop completed)
  ordered : (writes.drop completed).Pairwise fun earlier later =>
    earlier.persistenceID < later.persistenceID
  given : ∀ write ∈ writes.drop completed, write.persistenceID ≤ book.nextLogPersistence
  appended : ∀ write ∈ (writes.drop completed).tail, write.truncateFrom = 0
  within : completed ≤ writes.length

namespace Kept

variable {book after : Book} {writes made : List LogWrite} {completed : Nat}
  {replaces trims : Prop} {event : Event}

section

variable (kept : Kept book writes completed)

include kept

/-- Without an uncompleted write the whole log is durable. -/
theorem settled (empty : writes.drop completed = []) :
    book.durableLogIndex = book.lastLogIndex ∧
      ∀ entry ∈ book.log, Covered writes completed entry := by
  rcases kept.split with ⟨settled, shape, durable, covered⟩
  simp only [empty, List.flatMap_nil, List.append_nil] at shape
  rw [durable, kept.placed.last, shape]
  exact ⟨rfl, covered⟩

/-- The oldest write completes. -/
theorem complete {write : LogWrite} (oldest : writes[completed]? = some write)
    (found : book.pendingLog write.persistenceID = some pending) {commitIndex : Nat}
    (rises : book.commitIndex ≤ commitIndex) :
    Kept { book.completeLog write.persistenceID pending with commitIndex := commitIndex } writes
      (completed + 1) := by
  have inside := (List.getElem?_eq_some_iff.mp oldest).1
  have shape : writes.drop completed = write :: writes.drop (completed + 1) := by
    rw [List.drop_eq_getElem_cons inside, (List.getElem?_eq_some_iff.mp oldest).2]
  rcases kept.split with ⟨settled, log, durable, covered⟩
  have scheduled := kept.scheduled
  have ordered := kept.ordered
  have given := kept.given
  have appended := kept.appended
  rw [shape] at log scheduled ordered given appended
  rcases scheduled.1 with ⟨own, isOwn, last⟩
  rw [found, Option.some.injEq] at isOwn
  rw [← isOwn] at last
  have reach : max book.durableLogIndex pending.lastIndex =
      book.durableLogIndex + write.entries.length := by omega
  refine ⟨⟨kept.placed.consecutive, kept.placed.last, kept.placed.base.trans rises⟩,
    ⟨settled ++ write.entries, ?_, ?_, ?_⟩, ?_, ?_, ?_, ?_, inside⟩
  · simpa [Book.completeLog] using log
  · simp only [Book.completeLog, List.length_append, reach]
    omega
  · intro entry present
    rcases List.mem_append.mp present with early | fresh
    · exact (covered entry early).mono (Nat.le_succ _)
    · refine ⟨writes.take completed, write, writes.drop (completed + 1), ?_, ?_, fresh, ?_⟩
      · rw [← shape, List.take_append_drop]
      · simp only [List.length_take]
        omega
      · intro other later removes
        exact removes.1 (appended other later)
  · simp only [Book.completeLog, reach]
    refine scheduled.2.congr fun other later => ?_
    have newer := (List.pairwise_cons.mp ordered).1 other later
    exact Function.update_of_ne (by omega) _ _
  · exact (List.pairwise_cons.mp ordered).2
  · exact fun other later => given other (.tail _ later)
  · exact fun other later => appended other (List.mem_of_mem_tail later)

/-- New entries are written after everything that is on its way. -/
theorem append {entries : List LogEntry}
    (consecutive : Consecutive LogEntry.index book.lastLogIndex entries)
    (last : pending.lastIndex = book.lastLogIndex + entries.length) {truncateFrom : Nat}
    (first : truncateFrom ≠ 0 → writes.drop completed = [])
    (spared : truncateFrom ≠ 0 → book.lastLogIndex < truncateFrom) :
    Kept (book.write entries pending)
      (writes ++ [⟨book.nextLogPersistence + 1, truncateFrom, entries⟩]) completed := by
  have placed := kept.placed
  have dropped : ∀ write : LogWrite,
      (writes ++ [write]).drop completed = writes.drop completed ++ [write] :=
    fun _ => List.drop_append_of_le_length kept.within
  rcases kept.split with ⟨settled, log, durable, covered⟩
  refine ⟨⟨?_, ?_, placed.base⟩, ⟨settled, ?_, durable, ?_⟩, ?_, ?_, ?_, ?_, ?_⟩
  · refine Consecutive.append_iff.mpr ⟨placed.consecutive, ?_⟩
    simp only [Book.write]
    rw [← placed.last]
    exact consecutive
  · simp only [Book.write, List.length_append]
    rw [placed.last]
    omega
  · simp [Book.write, dropped, log]
  · intro entry present
    refine (covered entry present).append fun other isNew => ?_
    rw [List.mem_singleton.mp isNew]
    rintro ⟨nonzero, reaches⟩
    simp only at reaches
    have inLog : entry ∈ book.log := by
      rw [log]
      exact List.mem_append_left _ present
    have bounds := placed.consecutive.bounds inLog
    have beyond := spared nonzero
    have ends := placed.last
    omega
  · rw [dropped]
    refine Scheduled.snoc (kept.scheduled.congr fun other present => ?_)
      (Function.update_self _ _ _) ?_
    · have older := kept.given other present
      exact Function.update_of_ne (by omega) _ _
    · have length := congrArg List.length log
      simp only [List.length_append] at length
      dsimp only
      rw [last, placed.last, durable]
      omega
  · rw [dropped, List.pairwise_append]
    refine ⟨kept.ordered, List.pairwise_singleton _ _, fun earlier present later isNew => ?_⟩
    rw [List.mem_singleton.mp isNew]
    exact Nat.lt_succ_of_le (kept.given earlier present)
  · rw [dropped]
    intro other present
    rcases List.mem_append.mp present with before | isNew
    · exact (kept.given other before).trans (Nat.le_succ _)
    · rw [List.mem_singleton.mp isNew]
      exact le_rfl
  · rw [dropped]
    intro other present
    by_cases zero : truncateFrom = 0
    · rcases List.mem_append.mp (List.mem_of_mem_tail present) with before | isNew
      · by_cases empty : writes.drop completed = []
        · rw [empty] at before
          cases before
        · rw [List.tail_append_of_ne_nil empty] at present
          rcases List.mem_append.mp present with behind | new
          · exact kept.appended other behind
          · rw [List.mem_singleton.mp new]
            exact zero
      · rw [List.mem_singleton.mp isNew]
        exact zero
    · rw [first zero] at present
      cases present
  · simp only [List.length_append]
    exact kept.within.trans (Nat.le_add_right _ _)

/-- A suffix is removed while every write is completed. -/
theorem cutAt (empty : writes.drop completed = [])
    {truncateFrom : Nat} (nonzero : truncateFrom ≠ 0) (cut : book.CutAt truncateFrom) :
    Kept (book.keep truncateFrom) writes completed := by
  rcases kept.settled empty with ⟨durable, covered⟩
  have placed := kept.placed.keep fun _ => cut
  have within := cut.within
  have base := kept.placed.base
  have above := cut.above
  have last := placed.last
  refine ⟨placed, ⟨(book.keep truncateFrom).log, ?_, ?_, ?_⟩, ?_, ?_, ?_, ?_, kept.within⟩
  · simp [empty]
  · rw [← last]
    simp only [Book.keep, if_neg nonzero]
    omega
  · intro entry present
    simp only [Book.keep, if_neg nonzero] at present
    exact covered entry (List.mem_of_mem_take present)
  · rw [empty]
    trivial
  · simp [empty]
  · simp [empty]
  · simp [empty]

/-- Any transition but the completion of a write keeps the shape of the log, if
it removes entries only while every write is completed. -/
theorem change (changed : book.Change replaces trims event after made)
    (cut : replaces ∨ trims → writes.drop completed = [])
    (other : ∀ persistenceID, event ≠ .logEntriesPersisted persistenceID) :
    Kept after (writes ++ made) completed := by
  cases changed with
  | same rises _ =>
      rw [List.append_nil]
      exact ⟨⟨kept.placed.consecutive, kept.placed.last, kept.placed.base.trans rises⟩,
        kept.split, kept.scheduled, kept.ordered, kept.given, kept.appended, kept.within⟩
  | @stored _ truncateFrom entries pending _ isNew replaced consecutive last =>
      by_cases zero : truncateFrom = 0
      · simp only [Book.keep, zero, if_true] at consecutive last ⊢
        exact kept.append consecutive last (fun nonzero => absurd rfl nonzero)
          (fun nonzero => absurd rfl nonzero)
      · have empty := cut (.inl (replaced zero).1)
        have shortened := kept.cutAt empty zero (replaced zero).2
        have next : (book.keep truncateFrom).nextLogPersistence = book.nextLogPersistence := by
          simp [Book.keep, zero]
        rw [← next]
        refine shortened.append consecutive last (fun _ => empty) fun _ => ?_
        simp only [Book.keep, if_neg zero]
        omega
  | @trimmed _ base log last durable commit _ isTrimmed suffix consecutive ends bound committed _ =>
      have empty := cut (.inr isTrimmed)
      rcases kept.settled empty with ⟨whole, covered⟩
      rw [List.append_nil]
      refine ⟨⟨consecutive, ends, committed⟩, ⟨log, ?_, ?_, ?_⟩, ?_, ?_, ?_, ?_, kept.within⟩
      · simp [empty]
      · rw [← ends]
        rcases bound with same | ⟨same, lastSame⟩
        · exact same
        · exact same.trans (whole.trans lastSame.symm)
      · exact fun entry present => covered entry (suffix.subset present)
      · rw [empty]
        trivial
      · simp [empty]
      · simp [empty]
      · simp [empty]
  | completed => exact absurd rfl (other _)

/-- The completion of the oldest write. -/
theorem completes {write : LogWrite} (oldest : writes[completed]? = some write)
    (changed : book.Change replaces trims (.logEntriesPersisted write.persistenceID) after made) :
    Kept after (writes ++ made) (completed + 1) := by
  have isPending : ∃ pending, book.pendingLog write.persistenceID = some pending := by
    have inside := (List.getElem?_eq_some_iff.mp oldest).1
    have scheduled := kept.scheduled
    rw [List.drop_eq_getElem_cons inside, (List.getElem?_eq_some_iff.mp oldest).2] at scheduled
    rcases scheduled.1 with ⟨pending, found, _⟩
    exact ⟨pending, found⟩
  rcases isPending with ⟨pending, found⟩
  generalize reported : Event.logEntriesPersisted write.persistenceID = event at changed
  cases changed with
  | same _ unknown =>
      rw [unknown write.persistenceID reported.symm] at found
      cases found
  | stored isInput =>
      rw [← reported] at isInput
      cases isInput
  | trimmed isInput =>
      rw [← reported] at isInput
      cases isInput
  | completed isFound rises =>
      cases reported
      rw [List.append_nil]
      exact kept.complete oldest isFound rises

/-- No position beyond the log is taken for durable. -/
theorem durable_le :
    book.durableLogIndex ≤ book.lastLogIndex := by
  rcases kept.split with ⟨settled, log, durable, _⟩
  have length := congrArg List.length log
  rw [List.length_append] at length
  rw [durable, kept.placed.last]
  omega

end

end Kept

end Raft

namespace Recorder

/-- An entry is contained in a completed write, and neither a later write nor one
that still waits removes it. -/
def Durable (recorder : Recorder) (entry : LogEntry) : Prop :=
  Covered recorder.writes recorder.completed entry ∧
    ∀ persistenceID pending, recorder.core.pendingHardState persistenceID = some pending →
      ∀ write ∈ pending.after.filterMap Action.logWrite, ¬write.Removes entry.index

/-- The book of the core is kept by the emitted writes and those that wait. -/
structure Accounted (recorder : Recorder) : Prop where
  numbered : recorder.core.journal.Numbered
  calmed : recorder.core.journal.Calmed
  emitted : recorder.completed ≤ recorder.writes.length
  kept : ∃ held, recorder.core.journal.Held held ∧
    Kept recorder.core.journal.toBook (recorder.writes ++ held) recorder.completed

namespace Accounted

variable {recorder after : Recorder} {event : Event}

theorem of_start (id : NodeID) (peers : List NodeID) {recovered : RecoveredState}
    (restorable : Restorable recovered) :
    Accounted (.start (.newNodeFromRecoveredState id peers recovered)) := by
  have opened := Node.newNodeFromRecoveredState_journal id peers restorable
  have log : (Node.newNodeFromRecoveredState id peers recovered).log = recovered.log :=
    congrArg (fun journal => journal.log) opened
  refine ⟨?_, ?_, le_rfl, [], ?_, ?_⟩
  · rw [start, opened]
    exact ⟨by simp, by simp, by simp⟩
  · rw [start, opened]
    exact ⟨by simp, by simp⟩
  · rw [start, opened]
    exact .nothing (by simp)
  · rw [start, opened, log]
    refine ⟨⟨restorable.1, rfl, restorable.2⟩, ⟨recovered.log, by simp, rfl, ?_⟩, trivial,
      .nil, by simp, by simp, le_rfl⟩
    exact fun entry present => ⟨[], _, [], rfl, Nat.one_pos, present, by simp⟩

/-- What the core takes for durable is durable. -/
theorem durable (accounted : Accounted recorder) {entry : LogEntry}
    (present : entry ∈ recorder.core.log) (below : entry.index ≤ recorder.core.durableLogIndex) :
    recorder.Durable entry := by
  rcases accounted.kept with ⟨held, waits, kept⟩
  rcases kept.split with ⟨settled, log, durable, covered⟩
  have isSettled : entry ∈ settled := by
    have consecutive := kept.placed.consecutive
    have inLog : entry ∈ recorder.core.journal.log := present
    rw [log] at consecutive inLog
    rcases List.mem_append.mp inLog with early | late
    · exact early
    · have beyond := ((Consecutive.append_iff.mp consecutive).2.bounds late).1
      have reach : entry.index ≤ recorder.core.journal.logBaseIndex + settled.length :=
        durable ▸ below
      omega
  rcases covered entry isSettled with ⟨earlier, write, later, shape, isCompleted, contains, spared⟩
  -- A completed write was emitted, so what waits comes after it.
  have early : earlier.length < recorder.writes.length := isCompleted.trans_le accounted.emitted
  rcases List.append_eq_append_iff.mp shape with ⟨middle, extends_, _⟩ | ⟨middle, split, rest⟩
  · have length := congrArg List.length extends_
    simp only [List.length_append] at length
    omega
  · cases middle with
    | nil =>
        rw [List.append_nil] at split
        rw [split] at early
        exact absurd early (lt_irrefl _)
    | cons first others =>
        simp only [List.cons_append, List.cons.injEq] at rest
        rcases rest with ⟨rfl, rfl⟩
        refine ⟨⟨earlier, write, others, split, isCompleted, contains, ?_⟩, ?_⟩
        · exact fun other isOther => spared other (List.mem_append_left _ isOther)
        · intro persistenceID pending found other waiting
          exact spared other (List.mem_append_right _ (waits.contains found waiting))

theorem step (accounted : Accounted recorder) (orderly : recorder.core.orderly event)
    (taken : recorder.next event = some after) :
    Accounted after ∧ Claims (fun _ index => index ≤ after.core.durableLogIndex)
      (recorder.core.step event).2 := by
  simp only [Node.orderly, Node.undisturbed, Bool.and_eq_true, Bool.or_eq_true,
    Bool.not_eq_true', Bool.or_eq_false_iff] at orderly
  rcases orderly with ⟨⟨⟨_, isSane⟩, waiting⟩, settles⟩
  rcases accounted.kept with ⟨held, waits, kept⟩
  have step := Node.step_journal (fun _ => kept.placed) isSane
  have undisturbed : held ≠ [] → event.isCompletion := by
    intro some_
    rcases waiting with nothing | completes
    · rw [Node.writeWaits_of_held accounted.numbered waits some_] at nothing
      cases nothing
    · exact completes
  have unclaimed : recorder.core.replacesSuffix event ∨ event.trimsLog →
      recorder.core.journal.Unclaimed := by
    intro cut
    rcases settles with uncut | settled
    · rw [uncut.1, uncut.2] at cut
      simp at cut
    · exact Node.unclaimed_of_claimWaits accounted.numbered settled.2
  have completedAll : recorder.core.replacesSuffix event ∨ event.trimsLog →
      (recorder.writes ++ held).drop recorder.completed = [] := by
    intro cut
    rcases settles with uncut | settled
    · rw [uncut.1, uncut.2] at cut
      simp at cut
    · have nothing := Node.pendingLog_of_logPending accounted.numbered settled.1
      have scheduled := kept.scheduled
      cases pending : (recorder.writes ++ held).drop recorder.completed with
      | nil => rfl
      | cons write rest =>
          rw [pending] at scheduled
          rcases scheduled.1 with ⟨_, found, _⟩
          have none : recorder.core.journal.pendingLog write.persistenceID = none :=
            nothing write.persistenceID
          rw [none] at found
          cases found
  rcases step.claims accounted.calmed unclaimed with ⟨calmed, claims⟩
  rcases step.change waits undisturbed (fun found => (accounted.calmed.commits found).2) with
    ⟨made, remaining, stillWaits, changed, order⟩
  have extended : recorder.writes ++ (recorder.core.step event).2.filterMap Action.logWrite ++
      remaining = recorder.writes ++ held ++ made := by
    rw [List.append_assoc, ← order, List.append_assoc]
  have emitted : recorder.completed ≤
      (recorder.writes ++ (recorder.core.step event).2.filterMap Action.logWrite).length := by
    rw [List.length_append]
    exact accounted.emitted.trans (Nat.le_add_right _ _)
  have numbered := accounted.numbered.step step
  by_cases completes : ∃ persistenceID, event = .logEntriesPersisted persistenceID
  · rcases completes with ⟨persistenceID, rfl⟩
    simp only [next, Option.ite_none_right_eq_some, Option.some.injEq] at taken
    rcases taken with ⟨isOldest, rfl⟩
    rcases Option.map_eq_some_iff.mp isOldest with ⟨write, oldest, rfl⟩
    have inside := (List.getElem?_eq_some_iff.mp oldest).1
    have oldestToo : (recorder.writes ++ held)[recorder.completed]? = some write := by
      rw [List.getElem?_append_left inside]
      exact oldest
    refine ⟨⟨numbered, calmed, ?_, remaining, stillWaits, ?_⟩, claims⟩
    · simp only [take, List.length_append]
      omega
    · simp only [take]
      rw [extended]
      exact kept.completes oldestToo changed
  · have other : ∀ persistenceID, event ≠ .logEntriesPersisted persistenceID :=
      fun persistenceID same => completes ⟨persistenceID, same⟩
    have isTaken : after = recorder.take event := by
      cases event with
      | logEntriesPersisted persistenceID => exact absurd rfl (other persistenceID)
      | _ => exact (Option.some.inj taken).symm
    rw [isTaken]
    refine ⟨⟨numbered, calmed, emitted, remaining, stillWaits, ?_⟩, claims⟩
    simp only [take]
    rw [extended]
    exact kept.change changed completedAll other

end Accounted

/-- A successful response is emitted only when every entry it covers is durable. -/
theorem acknowledged_durable {id : NodeID} {peers : List NodeID} {recovered : RecoveredState}
    (restorable : Restorable recovered) {recorder after : Recorder} {event : Event}
    (reachable : (recorderSystem id peers recovered).Reachable
      (fun recorder event => recorder.core.orderly event) recorder)
    (orderly : recorder.core.orderly event) (taken : recorder.next event = some after)
    {receiver : NodeID} {response : AppendEntriesResponse}
    (emitted : .sendAppendEntriesResponse receiver response ∈ (recorder.core.step event).2)
    (success : response.success) :
    response.matchIndex ≤ after.core.lastLogIndex ∧
      ∀ entry ∈ after.core.log, entry.index ≤ response.matchIndex → after.Durable entry := by
  have accounted : Accounted recorder := by
    refine reachable.invariant _ ?_ ?_
    · rintro state rfl
      exact .of_start id peers restorable
    · intro before label next holds allowed stepped
      exact (holds.step allowed stepped).1
  rcases accounted.step orderly taken with ⟨accountedToo, claims⟩
  have below : response.matchIndex ≤ after.core.durableLogIndex :=
    claims _ emitted (response.term, response.matchIndex) (by simp [Action.claim, success])
  constructor
  · rcases accountedToo.kept with ⟨held, _, kept⟩
    exact below.trans kept.durable_le
  · exact fun entry present covered => accountedToo.durable present (covered.trans below)

section Runs

/-- The response with which Node b acknowledges its log. -/
def acknowledgement (term matchIndex : Nat) : AppendEntriesResponse where
  sender := "b"
  term := term
  requestID := 1
  success := true
  matchIndex := matchIndex
  conflictTerm := 0
  conflictIndex := 0
  readID := 0

theorem acknowledged_durable_follower :
    ∃ recorder after, (recorderSystem "b" ["a", "c"] {}).Reachable
        (fun recorder event => recorder.core.orderly event) recorder ∧
      recorder.next (.logEntriesPersisted 2) = some after ∧
      (recorder.core.step (.logEntriesPersisted 2)).2 =
        [.sendAppendEntriesResponse "a" (acknowledgement 1 2)] ∧
      after.core.log = [entry 1 1, entry 2 1] ∧
      ∀ item ∈ after.core.log, item.index ≤ 2 → after.Durable item := by
  have executed : (System.execute Recorder.next (fun recorder event => recorder.core.orderly event)
      followerRun.dropLast (.start (.newNodeFromRecoveredState "b" ["a", "c"] {}))).map
        (fun recorder => (recorder.core.orderly (.logEntriesPersisted 2),
          (recorder.core.step (.logEntriesPersisted 2)).2,
          (recorder.next (.logEntriesPersisted 2)).map fun after => after.core.log)) =
      some (true, [.sendAppendEntriesResponse "a" (acknowledgement 1 2)],
        some [entry 1 1, entry 2 1]) := by decide +kernel
  rcases System.reachable_of_execute (fun _ _ => id) executed with
    ⟨recorder, reachable, observed⟩
  simp only [Prod.mk.injEq] at observed
  rcases observed with ⟨orderly, emitted, logged⟩
  rcases Option.map_eq_some_iff.mp logged with ⟨after, taken, log⟩
  have restorable : Restorable {} := by decide
  have response : .sendAppendEntriesResponse "a" (acknowledgement 1 2) ∈
      (recorder.core.step (.logEntriesPersisted 2)).2 := by simp [emitted]
  exact ⟨recorder, after, reachable, taken, emitted, log,
    (acknowledged_durable restorable reachable orderly taken response rfl).2⟩

/-- A write completes after a newer Leader replaced its entries. -/
def replacedRun : List Event :=
  [replicate "a" 1 0 0 [entry 1 1, entry 2 1], .hardStatePersisted 1,
    replicate "c" 2 0 0 [entry 1 2], .logEntriesPersisted 1, .hardStatePersisted 2]

/-- The late completion makes the Node take the replacement for durable, so that
it acknowledges the repeated request before the replacement is written. -/
theorem acknowledged_lost_replaced :
    ∃ recorder after, (recorderSystem "b" ["a", "c"] {}).Reachable
        (fun recorder event => recorder.inOrder event) recorder ∧
      recorder.next (replicate "c" 2 0 0 [entry 1 2]) = some after ∧
      .sendAppendEntriesResponse "c" (acknowledgement 2 1) ∈
        (recorder.core.step (replicate "c" 2 0 0 [entry 1 2])).2 ∧
      entry 1 2 ∈ after.core.log ∧ ¬after.Durable (entry 1 2) := by
  have executed : (System.execute Recorder.next (fun recorder event => recorder.inOrder event)
      replacedRun (.start (.newNodeFromRecoveredState "b" ["a", "c"] {}))).map
        (fun recorder => (
          (recorder.core.step (replicate "c" 2 0 0 [entry 1 2])).2,
          (recorder.next (replicate "c" 2 0 0 [entry 1 2])).map fun after =>
            (after.core.log, (after.writes.take after.completed).flatMap LogWrite.entries))) =
      some ([.resetElectionTimer, .sendAppendEntriesResponse "c" (acknowledgement 2 1)],
        some ([entry 1 2], [entry 1 1, entry 2 1])) := by decide +kernel
  rcases System.reachable_of_execute (fun _ _ => id) executed with
    ⟨recorder, reachable, observed⟩
  simp only [Prod.mk.injEq] at observed
  rcases observed with ⟨emitted, logged⟩
  rcases Option.map_eq_some_iff.mp logged with ⟨after, taken, shown⟩
  simp only [Prod.mk.injEq] at shown
  refine ⟨recorder, after, reachable, taken, by simp [emitted], by simp [shown.1], ?_⟩
  intro durable
  have written := durable.1.mem
  rw [shown.2] at written
  revert written
  decide

end Runs

end Recorder

end Ternion
