import Ternion.Foundation.Transition
import Ternion.Raft.Journaling
import Ternion.Raft.Words
import Ternion.Runtime.Step

/-! # Late completions of log writes

One Node driven through its transitions by any sequence of events. The writes
of entries that it emits complete in the order they were emitted but arbitrarily
late, and everything else may happen in between.
-/

namespace Ternion

open Raft RaftRuntime

/-- A Node with the writes of entries it emitted. -/
structure Recorder where
  core : Node
  /-- Every emitted write, oldest first. The recovered log counts as the first. -/
  writes : List LogWrite
  /-- How many writes completed. -/
  completed : Nat
  /-- Persistence of any kind that is requested and not completed. -/
  outstanding : List Action := []

namespace Recorder

def start (core : Node) : Recorder where
  core := core
  writes := [⟨0, 0, core.log⟩]
  completed := 1

/-- Step the core, and record the persistence it asks for. -/
def take (recorder : Recorder) (event : Event) : Recorder :=
  let result := recorder.core.step event
  { recorder with
    core := result.1
    writes := recorder.writes ++ result.2.filterMap Action.logWrite
    outstanding :=
      (recorder.outstanding.eraseP fun action => decide (completion action = some event)) ++
        result.2.filter fun action => (completion action).isSome }

/-- Any event may arrive, but of the writes only the oldest completes. -/
def next (recorder : Recorder) : Event → Option Recorder
  | .logEntriesPersisted persistenceID =>
      if (recorder.writes[recorder.completed]?).map LogWrite.persistenceID =
          some persistenceID then
        some { recorder.take (.logEntriesPersisted persistenceID) with
          completed := recorder.completed + 1 }
      else none
  | event => some (recorder.take event)

end Recorder

/-- What a store can recover: entries numbered from the Snapshot, which is
committed. -/
def Restorable (recovered : RecoveredState) : Prop :=
  Consecutive LogEntry.index recovered.snapshotIndex recovered.log ∧
    recovered.snapshotIndex ≤ recovered.commitIndex

instance (recovered : RecoveredState) : Decidable (Restorable recovered) :=
  inferInstanceAs (Decidable (_ ∧ _))

def recorderSystem (id : NodeID) (peers : List NodeID) (recovered : RecoveredState) :
    System Recorder Event :=
  .ofNext (.start (.newNodeFromRecoveredState id peers recovered)) Recorder.next

/-! ## What waits in a Node -/

namespace Raft.Node

/-- A write of entries waits behind a hard state. -/
def writeWaits (node : Node) : Bool :=
  (List.range (node.nextHardStatePersistence + 1)).any fun persistenceID =>
    (node.pendingHardState persistenceID).any fun pending =>
      pending.after.any fun action => action.logWrite.isSome

/-- A successful response waits behind a hard state or a commit index. -/
def claimWaits (node : Node) : Bool :=
  (List.range (node.nextHardStatePersistence + 1)).any (fun persistenceID =>
    (node.pendingHardState persistenceID).any fun pending =>
      pending.after.any fun action => action.claim.isSome) ||
  (List.range (node.nextCommitPersistence + 1)).any fun persistenceID =>
    (node.pendingCommit persistenceID).any fun pending =>
      pending.after.any fun action => action.claim.isSome

/-- A write of entries is not completed. -/
def logPending (node : Node) : Bool :=
  (List.range (node.nextLogPersistence + 1)).any fun persistenceID =>
    (node.pendingLog persistenceID).isSome

/-- While a write waits only completions arrive, and no counter is exhausted. -/
def undisturbed (node : Node) (event : Event) : Bool :=
  node.inRange event && node.sane event && (!node.writeWaits || event.isCompletion)

/-- Besides, entries are removed only while no write and no successful response
is on its way. -/
def orderly (node : Node) (event : Event) : Bool :=
  node.undisturbed event &&
    (!(node.replacesSuffix event || event.trimsLog) || !(node.logPending || node.claimWaits))

section

variable {node : Node} (numbered : node.journal.Numbered)

include numbered

theorem writeWaits_of_held {held : List LogWrite} (waits : node.journal.Held held)
    (some_ : held ≠ []) :
    node.writeWaits := by
  cases waits with
  | nothing => exact absurd rfl some_
  | @behind persistenceID pending found =>
      rcases List.exists_mem_of_ne_nil _ some_ with ⟨write, isHeld⟩
      rcases List.mem_filterMap.mp isHeld with ⟨action, present, isWrite⟩
      have given : persistenceID < node.nextHardStatePersistence + 1 :=
        Nat.lt_succ_of_le (numbered.hardStates found)
      have isFound : node.pendingHardState persistenceID = some pending := found
      simp only [writeWaits, List.any_eq_true, List.mem_range]
      refine ⟨persistenceID, given, ?_⟩
      rw [isFound, Option.any_some, List.any_eq_true]
      exact ⟨action, present, by simp [isWrite]⟩

theorem unclaimed_of_claimWaits (silent : node.claimWaits = false) : node.journal.Unclaimed := by
  simp only [claimWaits, Bool.or_eq_false_iff, List.any_eq_false, List.mem_range] at silent
  have none : ∀ waiting : List Action,
      ¬(waiting.any fun action => action.claim.isSome) = true →
      ∀ action ∈ waiting, action.claim = none := by
    intro waiting quiet action present
    simp only [List.any_eq_true, not_exists, not_and, Option.not_isSome_iff_eq_none] at quiet
    exact quiet action present
  constructor
  · intro persistenceID pending found
    have quiet := silent.1 persistenceID (Nat.lt_succ_of_le (numbered.hardStates found))
    have isFound : node.pendingHardState persistenceID = some pending := found
    rw [isFound, Option.any_some] at quiet
    exact none pending.after quiet
  · intro persistenceID pending found
    have quiet := silent.2 persistenceID (Nat.lt_succ_of_le (numbered.commits found))
    have isFound : node.pendingCommit persistenceID = some pending := found
    rw [isFound, Option.any_some] at quiet
    exact none pending.after quiet

theorem pendingLog_of_logPending (settled : node.logPending = false) (persistenceID : Nat) :
    node.pendingLog persistenceID = none := by
  by_contra isPending
  rcases Option.ne_none_iff_exists'.mp isPending with ⟨pending, found⟩
  simp only [logPending, List.any_eq_false, List.mem_range] at settled
  exact settled persistenceID (Nat.lt_succ_of_le (numbered.logs found)) (by simp [found])

end

/-- A Node that starts has made everything durable that it recovered. -/
theorem newNodeFromRecoveredState_journal (id : NodeID) (peers : List NodeID)
    {recovered : RecoveredState} (restorable : Restorable recovered) :
    (newNodeFromRecoveredState id peers recovered).journal = {
      logBaseIndex := recovered.snapshotIndex
      log := recovered.log
      lastLogIndex := recovered.snapshotIndex + recovered.log.length
      durableLogIndex := recovered.snapshotIndex + recovered.log.length
      commitIndex := recovered.commitIndex
      nextLogPersistence := 0
      pendingLog := fun _ => none
      term := recovered.hardState.term
      votedFor := recovered.hardState.votedFor
      nextHardStatePersistence := 0
      pendingHardState := fun _ => none
      nextCommitPersistence := 0
      pendingCommit := fun _ => none } := by
  have untrimmed : ¬(0 < recovered.snapshotIndex ∧
      recovered.log.head?.map LogEntry.index = some 1 ∧
      recovered.snapshotIndex ≤ recovered.log.length) := by
    rintro ⟨positive, first, _⟩
    cases shape : recovered.log with
    | nil => simp [shape] at first
    | cons entry rest =>
        have consecutive := restorable.1
        rw [shape] at consecutive first
        have index : entry.index = recovered.snapshotIndex + 1 := consecutive.1
        simp only [List.head?_cons, Option.map_some, Option.some.injEq] at first
        omega
  unfold newNodeFromRecoveredState
  rw [if_neg untrimmed]
  dsimp only
  cases ends : recovered.log.getLast? with
  | none =>
      rw [List.getLast?_eq_none_iff] at ends
      simp [Node.journal, ends]
  | some last =>
      have index := restorable.1.getLast ends
      simp [Node.journal, index]

end Raft.Node

/-! ## Replaying the emitted writes -/

/-- A store of entries that accepts only the next position. -/
structure LogStore where
  lastIndex : Nat
  log : List LogEntry
  deriving DecidableEq

namespace LogStore

def truncate (store : LogStore) (firstIndex : Nat) : LogStore where
  lastIndex := min store.lastIndex (firstIndex - 1)
  log := store.log.filter fun entry => entry.index < firstIndex

def append (store : LogStore) (entry : LogEntry) : Option LogStore :=
  if entry.index = store.lastIndex + 1 then
    some { lastIndex := entry.index, log := store.log ++ [entry] }
  else none

def write (store : LogStore) (write : LogWrite) : Option LogStore :=
  write.entries.foldlM append
    (if write.truncateFrom ≠ 0 then store.truncate write.truncateFrom else store)

/-- Nothing when a write leaves a gap. -/
def replay (store : LogStore) (writes : List LogWrite) : Option LogStore :=
  writes.foldlM write store

theorem appendAll (store : LogStore) {entries : List LogEntry}
    (consecutive : Consecutive LogEntry.index store.lastIndex entries) :
    entries.foldlM append store = some {
      lastIndex := store.lastIndex + entries.length
      log := store.log ++ entries } := by
  induction entries generalizing store with
  | nil => simp
  | cons entry rest induction =>
      have index : entry.index = store.lastIndex + 1 := consecutive.1
      have rest_ := induction { lastIndex := entry.index, log := store.log ++ [entry] }
        (by rw [index]; exact consecutive.2)
      rw [List.foldlM_cons, append, if_pos index]
      simp only [Option.bind_eq_bind, Option.bind_some]
      rw [rest_]
      simp only [index, List.append_assoc, List.singleton_append, List.length_cons]
      congr 2
      omega

theorem replay_append {store middle : LogStore} {first second : List LogWrite}
    (replayed : store.replay first = some middle) :
    store.replay (first ++ second) = middle.replay second := by
  simp only [replay, List.foldlM_append] at replayed ⊢
  rw [replayed]
  rfl

end LogStore

/-- What a store holds that performed every write of a book. -/
def Raft.Book.store (book : Book) : LogStore where
  lastIndex := book.lastLogIndex
  log := book.log

/-- The writes of a change make the store follow the log. -/
theorem Raft.Book.Change.replay {replaces trims : Prop} {book after : Book} {event : Event}
    {writes : List LogWrite} (change : book.Change replaces trims event after writes)
    (placed : book.Placed) (untrimmed : ¬trims) :
    book.store.replay writes = some after.store := by
  cases change with
  | same => rfl
  | @stored _ truncateFrom entries pending _ _ cut consecutive _ =>
      have kept : (if truncateFrom ≠ 0 then book.store.truncate truncateFrom else book.store) =
          (book.keep truncateFrom).store := by
        unfold Book.keep
        by_cases zero : truncateFrom = 0
        · simp [zero]
        · have filtered := placed.consecutive.filter_lt truncateFrom
          have within := (cut zero).2.within
          have last : min book.lastLogIndex (truncateFrom - 1) = truncateFrom - 1 := by omega
          rw [if_pos zero, if_neg zero]
          simp only [LogStore.truncate, Book.store, filtered, last]
          congr 2
          omega
      simp only [LogStore.replay, List.foldlM_cons, LogStore.write, kept]
      rw [LogStore.appendAll _ consecutive]
      rfl
  | trimmed _ isTrimmed => exact absurd isTrimmed untrimmed
  | completed => rfl

namespace Recorder

/-- The hard states a Node waits for are outstanding. -/
def Awaits (recorder : Recorder) : Prop :=
  ∀ persistenceID pending, recorder.core.pendingHardState persistenceID = some pending →
    ∃ term votedFor, .persistHardState persistenceID term votedFor ∈ recorder.outstanding

/-- The store that performed every emitted write only misses what waits. -/
structure Replayed (base : Nat) (recorder : Recorder) : Prop where
  placed : recorder.core.journal.Placed
  numbered : recorder.core.journal.Numbered
  commits : recorder.core.journal.CommitsWriteNothing
  awaits : recorder.Awaits
  stored : ∃ held, recorder.core.journal.Held held ∧
    LogStore.replay ⟨base, []⟩ (recorder.writes ++ held) = some recorder.core.journal.store

namespace Replayed

variable {base : Nat} {recorder : Recorder}

theorem of_start (id : NodeID) (peers : List NodeID) {recovered : RecoveredState}
    (restorable : Restorable recovered) :
    Replayed recovered.snapshotIndex
      (.start (.newNodeFromRecoveredState id peers recovered)) := by
  have opened := Node.newNodeFromRecoveredState_journal id peers restorable
  have log : (Node.newNodeFromRecoveredState id peers recovered).log = recovered.log :=
    congrArg (fun journal => journal.log) opened
  have pending : (Node.newNodeFromRecoveredState id peers recovered).pendingHardState =
      fun _ => none := congrArg Journal.pendingHardState opened
  refine ⟨?_, ?_, ?_, ?_, [], ?_, ?_⟩
  · rw [start, opened]
    exact ⟨restorable.1, rfl, restorable.2⟩
  · rw [start, opened]
    exact ⟨by simp, by simp, by simp⟩
  · rw [start, opened]
    exact fun found => by cases found
  · intro persistenceID waiting found
    simp [start, pending] at found
  · rw [start, opened]
    exact .nothing (by simp)
  · have stored := LogStore.appendAll ⟨recovered.snapshotIndex, []⟩ restorable.1
    simp only [start, opened, log, List.append_nil, LogStore.replay, List.foldlM_cons,
      List.foldlM_nil, LogStore.write, ne_eq, not_true_eq_false, if_false, stored]
    simp [Book.store]

section

variable (replayed : Replayed base recorder) {event : Event}
  (undisturbed : recorder.core.undisturbed event) (untrimmed : event.trimsLog = false)

include replayed undisturbed untrimmed

theorem take :
    Replayed base (recorder.take event) := by
  simp only [Node.undisturbed, Bool.and_eq_true, Bool.or_eq_true, Bool.not_eq_true'] at undisturbed
  rcases undisturbed with ⟨⟨_, isSane⟩, uninterrupted⟩
  have step := Node.step_journal (fun _ => replayed.placed) isSane
  rw [untrimmed] at step
  rcases replayed.stored with ⟨held, waits, stored⟩
  have waiting : held ≠ [] → event.isCompletion := by
    intro some_
    rcases uninterrupted with nothing | completes
    · rw [Node.writeWaits_of_held replayed.numbered waits some_] at nothing
      cases nothing
    · exact completes
  rcases step.change waits waiting replayed.commits with
    ⟨writes, remaining, stillWaits, change, order⟩
  refine ⟨replayed.placed.change change, replayed.numbered.step step,
    step.commitsWriteNothing replayed.commits, ?_, remaining, stillWaits, ?_⟩
  · intro persistenceID pending found
    rcases step.hardState_asked found with ⟨earlier, other⟩ | ⟨term, votedFor, asked⟩
    · rcases replayed.awaits persistenceID pending earlier with ⟨term, votedFor, present⟩
      refine ⟨term, votedFor, List.mem_append_left _ ?_⟩
      rw [List.mem_eraseP_of_neg]
      · exact present
      · simpa [completion] using Ne.symm other
    · refine ⟨term, votedFor, List.mem_append_right _ ?_⟩
      simp [asked, completion]
  · have followed := change.replay replayed.placed (by simp)
    simp only [Recorder.take, List.append_assoc]
    rw [← order, ← List.append_assoc, LogStore.replay_append stored]
    exact followed

theorem step {after : Recorder} (taken : recorder.next event = some after) :
    Replayed base after := by
  have stepped := replayed.take undisturbed untrimmed
  cases event with
  | logEntriesPersisted persistenceID =>
      simp only [next, Option.ite_none_right_eq_some, Option.some.injEq] at taken
      rw [← taken.2]
      exact ⟨stepped.placed, stepped.numbered, stepped.commits, stepped.awaits, stepped.stored⟩
  | _ => exact Option.some.inj taken ▸ stepped

end

end Replayed

/-- While a write waits only completions arrive, and no entry is replaced by a
Snapshot. -/
def uninterrupted (recorder : Recorder) (event : Event) : Bool :=
  recorder.core.undisturbed event && !event.trimsLog

/-- The emitted writes leave no gap, and make up the log of a Node that waits
for nothing. -/
theorem writes_replay {id : NodeID} {peers : List NodeID} {recovered : RecoveredState}
    (restorable : Restorable recovered) {recorder : Recorder}
    (reachable : (recorderSystem id peers recovered).Reachable
      (fun recorder event => recorder.uninterrupted event) recorder) :
    ∃ store, LogStore.replay ⟨recovered.snapshotIndex, []⟩ recorder.writes = some store ∧
      (recorder.outstanding = [] → store.log = recorder.core.log) := by
  have replayed : Replayed recovered.snapshotIndex recorder := by
    refine reachable.invariant _ ?_ ?_
    · rintro state rfl
      exact .of_start id peers restorable
    · intro before event after holds allowed taken
      simp only [uninterrupted, Bool.and_eq_true, Bool.not_eq_true'] at allowed
      exact holds.step allowed.1 allowed.2 taken
  rcases replayed.stored with ⟨held, waits, stored⟩
  simp only [LogStore.replay, List.foldlM_append, Option.bind_eq_bind] at stored
  rcases Option.bind_eq_some_iff.mp stored with ⟨store, emitted, rest⟩
  refine ⟨store, emitted, fun settled => ?_⟩
  have nothing : held = [] := by
    cases waits with
    | nothing => rfl
    | behind found =>
        rcases replayed.awaits _ _ found with ⟨_, _, present⟩
        rw [settled] at present
        cases present
  rw [nothing] at rest
  exact congrArg LogStore.log (Option.some.inj rest)

section Runs

def entry (index term : Nat) : LogEntry where
  index := index
  term := term
  type := .noOp

def replicate (leader : NodeID) (term prevLogIndex prevLogTerm : Nat) (entries : List LogEntry) :
    Event :=
  .appendEntries {
    sender := leader
    term := term
    requestID := 1
    prevLogIndex := prevLogIndex
    prevLogTerm := prevLogTerm
    entries := entries
    leaderCommit := 0
    readID := 0 }

/-- A Follower takes an entry of a new Leader, and one more. -/
def followerRun : List Event :=
  [replicate "a" 1 0 0 [entry 1 1], .hardStatePersisted 1, replicate "a" 1 1 1 [entry 2 1],
    .logEntriesPersisted 1, .logEntriesPersisted 2]

theorem writes_replay_follower :
    ∃ recorder, (recorderSystem "b" ["a", "c"] {}).Reachable
        (fun recorder event => recorder.uninterrupted event) recorder ∧
      recorder.outstanding = [] ∧ recorder.core.log = [entry 1 1, entry 2 1] ∧
      ∃ store, LogStore.replay ⟨0, []⟩ recorder.writes = some store ∧
        (recorder.outstanding = [] → store.log = recorder.core.log) := by
  have executed : (System.execute Recorder.next (fun recorder event => recorder.uninterrupted event)
      followerRun (.start (.newNodeFromRecoveredState "b" ["a", "c"] {}))).map
        (fun recorder => (recorder.outstanding, recorder.core.log)) =
      some ([], [entry 1 1, entry 2 1]) := by decide +kernel
  rcases System.reachable_of_execute (fun _ _ => id) executed with
    ⟨recorder, reachable, observed⟩
  simp only [Prod.mk.injEq] at observed
  have restorable : Restorable {} := by decide
  exact ⟨recorder, reachable, observed.1, observed.2, writes_replay restorable reachable⟩

/-- Completions of any kind arrive in the order in which they were asked for. -/
def inOrder (recorder : Recorder) (event : Event) : Bool :=
  !event.isCompletion || decide (recorder.outstanding.head?.bind completion = some event)

/-- A vote in a newer Term overtakes the hard state behind which the write of a
taken entry waits. -/
def overtakenRun : List Event :=
  [replicate "a" 1 0 0 [entry 1 1],
    .voteRequest { sender := "c", term := 2, lastLogIndex := 1, lastLogTerm := 1 },
    .hardStatePersisted 1, .hardStatePersisted 2]

/-- The write that waited is never emitted: nothing is outstanding and the store
misses an entry of the log, and the next write leaves a gap. -/
theorem writes_lost_overtaken :
    (∃ recorder, (recorderSystem "b" ["a", "c"] {}).Reachable
        (fun recorder event => recorder.inOrder event) recorder ∧
      recorder.outstanding = [] ∧ recorder.core.log = [entry 1 1] ∧
      LogStore.replay ⟨0, []⟩ recorder.writes = some ⟨0, []⟩) ∧
    ∃ recorder, (recorderSystem "b" ["a", "c"] {}).Reachable
        (fun recorder event => recorder.inOrder event) recorder ∧
      LogStore.replay ⟨0, []⟩ recorder.writes = none := by
  constructor
  · have executed : (System.execute Recorder.next (fun recorder event => recorder.inOrder event)
        overtakenRun (.start (.newNodeFromRecoveredState "b" ["a", "c"] {}))).map
          (fun recorder => (recorder.outstanding, recorder.core.log,
            LogStore.replay ⟨0, []⟩ recorder.writes)) =
        some ([], [entry 1 1], some ⟨0, []⟩) := by decide +kernel
    rcases System.reachable_of_execute (fun _ _ => id) executed with
      ⟨recorder, reachable, observed⟩
    simp only [Prod.mk.injEq] at observed
    exact ⟨recorder, reachable, observed⟩
  · have executed : (System.execute Recorder.next (fun recorder event => recorder.inOrder event)
        (overtakenRun ++ [replicate "c" 2 1 1 [entry 2 2]])
        (.start (.newNodeFromRecoveredState "b" ["a", "c"] {}))).map
          (fun recorder => LogStore.replay ⟨0, []⟩ recorder.writes) = some none := by
      decide +kernel
    rcases System.reachable_of_execute (fun _ _ => id) executed with
      ⟨recorder, reachable, observed⟩
    exact ⟨recorder, reachable, observed⟩

end Runs

end Recorder

end Ternion
