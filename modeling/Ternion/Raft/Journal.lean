import Ternion.Foundation.Consecutive
import Ternion.Raft.Claims

/-! # What a transition does to the durability of the log

The log of a Node, the writes that make it durable and the acknowledgements
that depend on them change in few ways. `Journal.Step` lists them, and every
transition of the core is one of them.
-/

namespace Ternion.Raft

variable {pending : PendingHardStatePersistence}

/-- One request to make entries durable. -/
structure LogWrite where
  persistenceID : Nat
  truncateFrom : Nat
  entries : List LogEntry
  deriving DecidableEq

namespace Action

def logWrite : Action → Option LogWrite
  | .persistLogEntries persistenceID truncateFrom entries =>
      some ⟨persistenceID, truncateFrom, entries⟩
  | _ => none

def isHardState : Action → Bool
  | .persistHardState .. => true
  | _ => false

end Action

/-- An event that can remove a prefix of the log. -/
def Event.trimsLog : Event → Bool
  | .snapshotCompacted _ _ => true
  | .installSnapshot request => request.installed
  | _ => false

/-- The log of a Node and what is known about its durability. -/
structure Book where
  logBaseIndex : Nat
  log : List LogEntry
  lastLogIndex : Nat
  durableLogIndex : Nat
  commitIndex : Nat
  nextLogPersistence : Nat
  pendingLog : Nat → Option PendingLogPersistence

/-- The part of a Node that the durability of its log depends on. -/
structure Journal extends Book where
  term : Nat
  votedFor : NodeID
  nextHardStatePersistence : Nat
  pendingHardState : Nat → Option PendingHardStatePersistence
  nextCommitPersistence : Nat
  pendingCommit : Nat → Option PendingCommitPersistence

def Node.journal (node : Node) : Journal where
  term := node.term
  votedFor := node.votedFor
  logBaseIndex := node.logBaseIndex
  log := node.log
  lastLogIndex := node.lastLogIndex
  durableLogIndex := node.durableLogIndex
  commitIndex := node.commitIndex
  nextHardStatePersistence := node.nextHardStatePersistence
  pendingHardState := node.pendingHardState
  nextLogPersistence := node.nextLogPersistence
  pendingLog := node.pendingLog
  nextCommitPersistence := node.nextCommitPersistence
  pendingCommit := node.pendingCommit

/-- The actions ask for no hard state, and claim only what is durable. -/
def Calm (durable : Nat) (actions : List Action) : Prop :=
  ∀ action ∈ actions, action.isHardState = false ∧
    ∀ claim, action.claim = some claim → claim.2 ≤ durable

/-- The actions write no entries either. -/
def Idle (durable : Nat) (actions : List Action) : Prop :=
  Calm durable actions ∧ actions.filterMap Action.logWrite = []

namespace Idle

variable {durable : Nat} {actions more : List Action}

/-- The actions write nothing, and claim only what is durable. -/
theorem of_forall (calm : ∀ action ∈ actions, action.logWrite = none ∧
    action.isHardState = false ∧ ∀ claim, action.claim = some claim → claim.2 ≤ durable) :
    Idle durable actions :=
  ⟨fun action present => (calm action present).2,
    List.filterMap_eq_nil_iff.mpr fun action present => (calm action present).1⟩

theorem nil : Idle durable [] := of_forall (by simp)

theorem append (first : Idle durable actions) (second : Idle durable more) :
    Idle durable (actions ++ more) := by
  refine ⟨fun action present => ?_, by rw [List.filterMap_append, first.2, second.2]; rfl⟩
  rcases List.mem_append.mp present with early | late
  · exact first.1 action early
  · exact second.1 action late

theorem mono {higher : Nat} (idle : Idle durable actions) (le : durable ≤ higher) :
    Idle higher actions :=
  ⟨fun action present => ⟨(idle.1 action present).1,
    fun claim made => ((idle.1 action present).2 claim made).trans le⟩, idle.2⟩

end Idle

theorem Calm.cons {durable : Nat} {actions : List Action} (calm : Calm durable actions)
    {action : Action} (noHardState : action.isHardState = false) (silent : action.claim = none) :
    Calm durable (action :: actions) := by
  intro emitted present
  rcases List.mem_cons.mp present with rfl | later
  · exact ⟨noHardState, by simp [silent]⟩
  · exact calm emitted later

theorem Calm.rebase {lower higher : Nat} {waiting : List Action} (calm : Calm lower waiting)
    (bound : lower ≤ higher ∨ ∀ action ∈ waiting, action.claim = none) :
    Calm higher waiting := by
  intro action present
  refine ⟨(calm action present).1, fun claim made => ?_⟩
  rcases bound with rises | silent
  · exact ((calm action present).2 claim made).trans rises
  · rw [silent action present] at made
    cases made

namespace Book

/-- Remove the entries from a position on, zero for none. -/
def keep (book : Book) (truncateFrom : Nat) : Book :=
  if truncateFrom = 0 then book
  else { book with
    log := book.log.take (truncateFrom - book.logBaseIndex - 1)
    lastLogIndex := truncateFrom - 1
    durableLogIndex := min book.durableLogIndex (truncateFrom - 1) }

/-- Append entries, and ask for them to be made durable. -/
def write (book : Book) (entries : List LogEntry) (pending : PendingLogPersistence) : Book :=
  { book with
    log := book.log ++ entries
    lastLogIndex := book.lastLogIndex + entries.length
    nextLogPersistence := book.nextLogPersistence + 1
    pendingLog := Function.update book.pendingLog (book.nextLogPersistence + 1) (some pending) }

def completeLog (book : Book) (persistenceID : Nat) (pending : PendingLogPersistence) : Book :=
  { book with
    pendingLog := Function.update book.pendingLog persistenceID none
    durableLogIndex := max book.durableLogIndex pending.lastIndex }

/-- The log is numbered consecutively from its base, which is committed. -/
structure Placed (book : Book) : Prop where
  consecutive : Consecutive LogEntry.index book.logBaseIndex book.log
  last : book.lastLogIndex = book.logBaseIndex + book.log.length
  base : book.logBaseIndex ≤ book.commitIndex

/-- Where the log is cut when a suffix is replaced. -/
structure CutAt (book : Book) (truncateFrom : Nat) : Prop where
  above : book.commitIndex < truncateFrom
  within : truncateFrom ≤ book.lastLogIndex

end Book

namespace Journal

def persistHardState (journal : Journal) (after : List Action) : Journal :=
  { journal with
    nextHardStatePersistence := journal.nextHardStatePersistence + 1
    pendingHardState := Function.update journal.pendingHardState
      (journal.nextHardStatePersistence + 1)
      (some { term := journal.term, votedFor := journal.votedFor, after := after }) }

def persistCommit (journal : Journal) (commitIndex : Nat) (after : List Action) : Journal :=
  { journal with
    commitIndex := commitIndex
    nextCommitPersistence := journal.nextCommitPersistence + 1
    pendingCommit := Function.update journal.pendingCommit (journal.nextCommitPersistence + 1)
      (some { commitIndex := commitIndex, after := after }) }

def completeHardState (journal : Journal) (persistenceID : Nat) : Journal :=
  { journal with
    pendingHardState := Function.update journal.pendingHardState persistenceID none }

def completeCommit (journal : Journal) (persistenceID : Nat) : Journal :=
  { journal with
    pendingCommit := Function.update journal.pendingCommit persistenceID none }

/-- The change of a transition to the log, with the writes it asks for. Only a
transition that `replaces` removes a suffix, and only one that `trims` a prefix. -/
inductive Move (replaces trims : Prop) (journal : Journal) : Journal → List LogWrite → Prop
  | same : Move replaces trims journal journal []
  | committed {index after} : journal.commitIndex ≤ index →
      Idle journal.durableLogIndex after →
      Move replaces trims journal (journal.persistCommit index after) []
  | stored {truncateFrom entries pending} : entries ≠ [] →
      (truncateFrom ≠ 0 → replaces ∧ journal.CutAt truncateFrom) →
      Consecutive LogEntry.index (journal.keep truncateFrom).lastLogIndex entries →
      pending.lastIndex = (journal.keep truncateFrom).lastLogIndex + entries.length →
      Move replaces trims journal
        { journal with toBook := (journal.keep truncateFrom).write entries pending }
        [⟨journal.nextLogPersistence + 1, truncateFrom, entries⟩]
  | trimmed {base log last durable commit} : trims → log <:+ journal.log →
      Consecutive LogEntry.index base log → last = base + log.length →
      (durable = last ∨ durable = journal.durableLogIndex ∧ last = journal.lastLogIndex) →
      base ≤ commit → journal.commitIndex ≤ commit →
      Move replaces trims journal { journal with
        logBaseIndex := base
        log := log
        lastLogIndex := last
        durableLogIndex := durable
        commitIndex := commit } []

/-- A completion of something that is not pending. -/
def Unknown (journal : Journal) : Event → Prop
  | .hardStatePersisted persistenceID => journal.pendingHardState persistenceID = none
  | .logEntriesPersisted persistenceID => journal.pendingLog persistenceID = none
  | .commitIndexPersisted persistenceID => journal.pendingCommit persistenceID = none
  | _ => False

/-- One transition, with everything it emits. -/
inductive Step (replaces trims : Prop) (journal : Journal) :
    Event → Journal → List Action → Prop
  | moved {event after actions} : event.isCompletion = false →
      Move replaces trims journal after (actions.filterMap Action.logWrite) →
      Calm after.durableLogIndex actions → Step replaces trims journal event after actions
  | voted {event votedFor actions} : event.isCompletion = false →
      Idle journal.durableLogIndex actions →
      Step replaces trims journal event { journal with votedFor := votedFor } actions
  | delayed {event term votedFor middle after leading} : event.isCompletion = false →
      Move replaces trims { journal with term := term, votedFor := votedFor } middle
        (after.filterMap Action.logWrite) →
      Calm middle.durableLogIndex after → Idle 0 leading →
      Step replaces trims journal event (middle.persistHardState after)
        (leading ++ [.persistHardState (middle.nextHardStatePersistence + 1) term votedFor])
  | ignored {event} : journal.Unknown event → Step replaces trims journal event journal []
  | released {persistenceID pending} :
      journal.pendingHardState persistenceID = some pending →
      Step replaces trims journal (.hardStatePersisted persistenceID)
        (journal.completeHardState persistenceID)
        (if pending.term ≠ journal.term ∨ pending.votedFor ≠ journal.votedFor then []
          else pending.after)
  | written {persistenceID pending after actions} :
      journal.pendingLog persistenceID = some pending →
      Move False False
        { journal with toBook := journal.completeLog persistenceID pending } after [] →
      Idle after.durableLogIndex actions →
      Step replaces trims journal (.logEntriesPersisted persistenceID) after actions
  | applied {persistenceID pending reports} :
      journal.pendingCommit persistenceID = some pending →
      Idle journal.durableLogIndex reports →
      Step replaces trims journal (.commitIndexPersisted persistenceID)
        (journal.completeCommit persistenceID) (reports ++ pending.after)

/-- A change of the log leaves the Term and the vote alone. -/
theorem Move.hardState {replaces trims : Prop} {journal after : Journal} {writes : List LogWrite}
    (move : journal.Move replaces trims after writes) :
    after.term = journal.term ∧ after.votedFor = journal.votedFor := by
  cases move with
  | same => exact ⟨rfl, rfl⟩
  | committed => exact ⟨rfl, rfl⟩
  | stored => exact ⟨rfl, rfl⟩
  | trimmed => exact ⟨rfl, rfl⟩

/-! ## Writes that wait

A write of entries waits behind the hard state of the Term that brought it. -/

/-- The writes that wait. Only the newest hard state of the current Term and
vote holds any back. -/
inductive Held (journal : Journal) : List LogWrite → Prop
  | nothing : (∀ persistenceID pending,
      journal.pendingHardState persistenceID = some pending →
        pending.after.filterMap Action.logWrite = []) → Held journal []
  | behind {persistenceID pending} :
      journal.pendingHardState persistenceID = some pending →
      pending.term = journal.term → pending.votedFor = journal.votedFor →
      (∀ other otherPending, other ≠ persistenceID →
        journal.pendingHardState other = some otherPending →
          otherPending.after.filterMap Action.logWrite = []) →
      Held journal (pending.after.filterMap Action.logWrite)

section

variable {writes : List LogWrite}

theorem Held.nothing_waits {journal : Journal}
    (held : journal.Held writes) (empty : writes = []) (persistenceID : Nat)
    (pending : PendingHardStatePersistence)
    (found : journal.pendingHardState persistenceID = some pending) :
    pending.after.filterMap Action.logWrite = [] := by
  cases held with
  | nothing silent => exact silent persistenceID pending found
  | @behind own ownPending isOwn _ _ others =>
      by_cases same : persistenceID = own
      · rw [same, isOwn, Option.some.injEq] at found
        rw [← found]
        exact empty
      · exact others persistenceID pending same found

theorem Held.contains {journal : Journal} (held : journal.Held writes) {persistenceID : Nat}
    (found : journal.pendingHardState persistenceID = some pending) {write : LogWrite}
    (waiting : write ∈ pending.after.filterMap Action.logWrite) : write ∈ writes := by
  cases held with
  | nothing silent =>
      rw [silent persistenceID pending found] at waiting
      cases waiting
  | @behind own ownPending isOwn _ _ others =>
      by_cases same : persistenceID = own
      · rw [same, isOwn, Option.some.injEq] at found
        rw [found]
        exact waiting
      · rw [others persistenceID pending same found] at waiting
        cases waiting

/-- Only the hard states, the Term and the vote decide what waits. -/
theorem Held.congr {journal after : Journal}
    (held : journal.Held writes) (pending : after.pendingHardState = journal.pendingHardState)
    (term : after.term = journal.term) (votedFor : after.votedFor = journal.votedFor) :
    after.Held writes := by
  cases held with
  | nothing silent => exact .nothing (by rw [pending]; exact silent)
  | behind found sameTerm sameVote others =>
      exact .behind (by rw [pending]; exact found) (sameTerm.trans term.symm)
        (sameVote.trans votedFor.symm) (by rw [pending]; exact others)

/-- A durable hard state releases what waits behind it. -/
theorem Held.release {journal : Journal} (held : journal.Held writes) {persistenceID : Nat}
    (found : journal.pendingHardState persistenceID = some pending) :
    ∃ remaining, (journal.completeHardState persistenceID).Held remaining ∧
      writes = (if pending.term ≠ journal.term ∨ pending.votedFor ≠ journal.votedFor then []
        else pending.after).filterMap Action.logWrite ++ remaining := by
  cases held with
  | nothing silent =>
      refine ⟨[], .nothing fun other otherPending isOther => ?_, ?_⟩
      · exact silent other otherPending (of_update_none isOther)
      · split_ifs
        · rfl
        · rw [silent persistenceID pending found]
          rfl
  | @behind own ownPending isOwn sameTerm sameVote others =>
      by_cases same : persistenceID = own
      · rw [same, isOwn, Option.some.injEq] at found
        rw [← found, same]
        refine ⟨[], .nothing fun other otherPending isOther => ?_, ?_⟩
        · refine others other otherPending ?_ (of_update_none isOther)
          rintro rfl
          simp [completeHardState] at isOther
        · rw [if_neg (by simp [sameTerm, sameVote]), List.append_nil]
      · have still : (journal.completeHardState persistenceID).pendingHardState own =
            some ownPending := by
          simp only [completeHardState]
          rw [Function.update_of_ne (Ne.symm same)]
          exact isOwn
        refine ⟨_, .behind still sameTerm sameVote ?_, ?_⟩
        · intro other otherPending differs isOther
          exact others other otherPending differs (of_update_none isOther)
        · split_ifs
          · rfl
          · rw [others persistenceID pending same found]
            rfl

theorem Move.pendingHardState {replaces trims : Prop} {journal after : Journal}
    (move : journal.Move replaces trims after writes) :
    after.pendingHardState = journal.pendingHardState ∧
      after.nextHardStatePersistence = journal.nextHardStatePersistence := by
  cases move <;> exact ⟨rfl, rfl⟩

end

end Journal

theorem Book.Placed.keep {book : Book} (placed : book.Placed) {truncateFrom : Nat}
    (cut : truncateFrom ≠ 0 → book.CutAt truncateFrom) : (book.keep truncateFrom).Placed := by
  unfold Book.keep
  split_ifs with zero
  · exact placed
  · have bounds := cut zero
    have base := placed.base
    have last := placed.last
    have above := bounds.above
    have within := bounds.within
    refine ⟨placed.consecutive.take _, ?_, placed.base⟩
    simp only [List.length_take]
    omega

/-- What a transition makes of the log, and the writes it asks for whether or
not they wait. -/
inductive Book.Change (replaces trims : Prop) (book : Book) :
    Event → Book → List LogWrite → Prop
  | same {event commitIndex} : book.commitIndex ≤ commitIndex →
      (∀ persistenceID, event = .logEntriesPersisted persistenceID →
        book.pendingLog persistenceID = none) →
      Change replaces trims book event { book with commitIndex := commitIndex } []
  | stored {event truncateFrom entries pending} : event.isCompletion = false → entries ≠ [] →
      (truncateFrom ≠ 0 → replaces ∧ book.CutAt truncateFrom) →
      Consecutive LogEntry.index (book.keep truncateFrom).lastLogIndex entries →
      pending.lastIndex = (book.keep truncateFrom).lastLogIndex + entries.length →
      Change replaces trims book event ((book.keep truncateFrom).write entries pending)
        [⟨book.nextLogPersistence + 1, truncateFrom, entries⟩]
  | trimmed {event base log last durable commit} : event.isCompletion = false → trims →
      log <:+ book.log → Consecutive LogEntry.index base log → last = base + log.length →
      (durable = last ∨ durable = book.durableLogIndex ∧ last = book.lastLogIndex) →
      base ≤ commit → book.commitIndex ≤ commit →
      Change replaces trims book event { book with
        logBaseIndex := base
        log := log
        lastLogIndex := last
        durableLogIndex := durable
        commitIndex := commit } []
  | completed {persistenceID pending commitIndex} :
      book.pendingLog persistenceID = some pending → book.commitIndex ≤ commitIndex →
      Change replaces trims book (.logEntriesPersisted persistenceID)
        { book.completeLog persistenceID pending with commitIndex := commitIndex } []

/-- A change keeps the log numbered from a committed base. -/
theorem Book.Placed.change {book after : Book} (placed : book.Placed) {replaces trims : Prop}
    {event : Event} {writes : List LogWrite}
    (change : book.Change replaces trims event after writes) : after.Placed := by
  cases change with
  | same rises _ => exact ⟨placed.consecutive, placed.last, placed.base.trans rises⟩
  | @stored _ truncateFrom entries _ _ _ cut consecutive _ =>
      have kept : (book.keep truncateFrom).Placed := placed.keep fun nonzero => (cut nonzero).2
      refine ⟨Consecutive.append_iff.mpr ⟨kept.consecutive, ?_⟩, ?_, kept.base⟩
      · simp only [Book.write]
        rw [← kept.last]
        exact consecutive
      · simp only [Book.write, List.length_append]
        rw [kept.last]
        omega
  | trimmed _ _ _ consecutive last _ base _ => exact ⟨consecutive, last, base⟩
  | completed _ rises => exact ⟨placed.consecutive, placed.last, placed.base.trans rises⟩

namespace Journal

variable {replaces trims : Prop} {journal after : Journal} {event : Event}
  {actions : List Action} {writes held : List LogWrite}

theorem book_untouched {book : Book} (isInput : event.isCompletion = false) (persistenceID : Nat)
    (reports : event = .logEntriesPersisted persistenceID) :
    book.pendingLog persistenceID = none := by
  rw [reports] at isInput
  cases isInput

theorem Move.change (move : journal.Move replaces trims after writes)
    (isInput : event.isCompletion = false) :
    journal.toBook.Change replaces trims event after.toBook writes := by
  cases move with
  | same => exact .same le_rfl (book_untouched isInput)
  | committed rises _ => exact .same rises (book_untouched isInput)
  | stored isNew cut consecutive last => exact .stored isInput isNew cut consecutive last
  | trimmed trims suffix consecutive last durable base commit =>
      exact .trimmed isInput trims suffix consecutive last durable base commit

/-! ## What waits is numbered, and claims only what is durable -/

/-- Identifiers of pending persistence were given out. -/
structure Numbered (journal : Journal) : Prop where
  hardStates : ∀ {persistenceID pending},
    journal.pendingHardState persistenceID = some pending →
      persistenceID ≤ journal.nextHardStatePersistence
  logs : ∀ {persistenceID pending}, journal.pendingLog persistenceID = some pending →
    persistenceID ≤ journal.nextLogPersistence
  commits : ∀ {persistenceID pending}, journal.pendingCommit persistenceID = some pending →
    persistenceID ≤ journal.nextCommitPersistence

theorem le_of_update {α : Type} {pending : Nat → Option α} {newest persistenceID : Nat}
    {value : Option α} {item : α}
    (numbered : ∀ {persistenceID item}, pending persistenceID = some item →
      persistenceID ≤ newest)
    (found : Function.update pending (newest + 1) value persistenceID = some item) :
    persistenceID ≤ newest + 1 := by
  by_cases same : persistenceID = newest + 1
  · exact same.le
  · rw [Function.update_of_ne same] at found
    exact (numbered found).trans (Nat.le_succ _)

theorem Move.numbered (move : journal.Move replaces trims after writes)
    (numbered : journal.Numbered) : after.Numbered := by
  cases move with
  | same => exact numbered
  | committed => exact ⟨numbered.hardStates, numbered.logs, le_of_update numbered.commits⟩
  | @stored truncateFrom =>
      refine ⟨numbered.hardStates, ?_, numbered.commits⟩
      intro persistenceID pending found
      have unchanged : (journal.keep truncateFrom).pendingLog = journal.pendingLog ∧
          (journal.keep truncateFrom).nextLogPersistence = journal.nextLogPersistence := by
        unfold Book.keep
        split_ifs <;> exact ⟨rfl, rfl⟩
      simp only [Book.write, unchanged.1, unchanged.2] at found ⊢
      exact le_of_update numbered.logs found
  | trimmed => exact ⟨numbered.hardStates, numbered.logs, numbered.commits⟩

theorem Numbered.step (numbered : journal.Numbered)
    (step : journal.Step replaces trims event after actions) : after.Numbered := by
  cases step with
  | moved _ move _ => exact move.numbered numbered
  | voted => exact ⟨numbered.hardStates, numbered.logs, numbered.commits⟩
  | delayed _ move _ _ =>
      have moved := move.numbered ⟨numbered.hardStates, numbered.logs, numbered.commits⟩
      exact ⟨le_of_update moved.hardStates, moved.logs, moved.commits⟩
  | ignored => exact numbered
  | released =>
      exact ⟨fun found => numbered.hardStates (of_update_none found), numbered.logs,
        numbered.commits⟩
  | written _ move _ =>
      refine move.numbered ⟨numbered.hardStates, fun found => ?_, numbered.commits⟩
      exact numbered.logs (of_update_none found)
  | applied =>
      exact ⟨numbered.hardStates, numbered.logs,
        fun found => numbered.commits (of_update_none found)⟩

/-- A hard state that is pending was pending before or is asked for. -/
theorem Step.hardState_asked (step : journal.Step replaces trims event after actions)
    {persistenceID : Nat} (found : after.pendingHardState persistenceID = some pending) :
    journal.pendingHardState persistenceID = some pending ∧
        event ≠ .hardStatePersisted persistenceID ∨
      ∃ term votedFor, .persistHardState persistenceID term votedFor ∈ actions := by
  have input : event.isCompletion = false → event ≠ .hardStatePersisted persistenceID := by
    rintro isInput rfl
    cases isInput
  cases step with
  | moved isInput move _ => exact .inl ⟨move.pendingHardState.1 ▸ found, input isInput⟩
  | voted isInput _ => exact .inl ⟨found, input isInput⟩
  | @delayed _ term votedFor middle _ _ isInput move _ _ =>
      by_cases newest : persistenceID = middle.nextHardStatePersistence + 1
      · exact .inr ⟨term, votedFor, by simp [newest]⟩
      · simp only [persistHardState, Function.update_of_ne newest, move.pendingHardState.1] at found
        exact .inl ⟨found, input isInput⟩
  | ignored unknown =>
      refine .inl ⟨found, ?_⟩
      rintro rfl
      rw [unknown] at found
      cases found
  | @released completed =>
      refine .inl ⟨of_update_none found, ?_⟩
      rintro same
      cases same
      simp [completeHardState] at found
  | written _ move _ => exact .inl ⟨move.pendingHardState.1 ▸ found, by simp⟩
  | applied => exact .inl ⟨found, by simp⟩

/-- What waits for a commit index writes no entries. -/
def CommitsWriteNothing (journal : Journal) : Prop :=
  ∀ {persistenceID pending}, journal.pendingCommit persistenceID = some pending →
    pending.after.filterMap Action.logWrite = []

theorem Move.commitsWriteNothing (move : journal.Move replaces trims after writes)
    (commits : journal.CommitsWriteNothing) : after.CommitsWriteNothing := by
  cases move with
  | same => exact commits
  | committed _ idle =>
      intro persistenceID pending found
      by_cases newest : persistenceID = journal.nextCommitPersistence + 1
      · simp only [persistCommit, newest, Function.update_self, Option.some.injEq] at found
        rw [← found]
        exact idle.2
      · simp only [persistCommit, Function.update_of_ne newest] at found
        exact commits found
  | stored => exact commits
  | trimmed => exact commits

theorem Step.commitsWriteNothing (step : journal.Step replaces trims event after actions)
    (commits : journal.CommitsWriteNothing) : after.CommitsWriteNothing := by
  cases step with
  | moved _ move _ => exact move.commitsWriteNothing commits
  | voted => exact commits
  | delayed _ move _ _ => exact move.commitsWriteNothing commits
  | ignored => exact commits
  | released => exact commits
  | written _ move _ => exact move.commitsWriteNothing commits
  | applied => exact fun found => commits (of_update_none found)

/-- Whatever waits claims only what is durable in the book. -/
structure ClaimsBelow (durable : Nat) (journal : Journal) : Prop where
  hardStates : ∀ {persistenceID pending},
    journal.pendingHardState persistenceID = some pending → Calm durable pending.after
  commits : ∀ {persistenceID pending}, journal.pendingCommit persistenceID = some pending →
    Idle durable pending.after

abbrev Calmed (journal : Journal) : Prop := journal.ClaimsBelow journal.durableLogIndex

/-- No successful response waits. -/
structure Unclaimed (journal : Journal) : Prop where
  hardStates : ∀ {persistenceID pending},
    journal.pendingHardState persistenceID = some pending →
      ∀ action ∈ pending.after, action.claim = none
  commits : ∀ {persistenceID pending}, journal.pendingCommit persistenceID = some pending →
    ∀ action ∈ pending.after, action.claim = none

/-- Claims that wait stay true while the durable part grows. -/
theorem ClaimsBelow.rebase {lower higher : Nat} (below : journal.ClaimsBelow lower)
    (bound : lower ≤ higher ∨ journal.Unclaimed) : journal.ClaimsBelow higher where
  hardStates := fun found =>
    (below.hardStates found).rebase (bound.imp_right fun unclaimed => unclaimed.hardStates found)
  commits := fun found => ⟨(below.commits found).1.rebase
    (bound.imp_right fun unclaimed => unclaimed.commits found), (below.commits found).2⟩

theorem Move.durable_le (move : journal.Move replaces trims after writes)
    (uncut : ¬(replaces ∨ trims)) : journal.durableLogIndex ≤ after.durableLogIndex := by
  cases move with
  | same => exact le_rfl
  | committed => exact le_rfl
  | @stored truncateFrom _ _ _ cut =>
      have zero : truncateFrom = 0 := by
        by_contra nonzero
        exact uncut (.inl (cut nonzero).1)
      simp [Book.write, Book.keep, zero]
  | trimmed isTrimmed => exact absurd (.inr isTrimmed) uncut

theorem Move.calmed (move : journal.Move replaces trims after writes) (calmed : journal.Calmed)
    (unclaimed : replaces ∨ trims → journal.Unclaimed) : after.Calmed := by
  have bound : journal.durableLogIndex ≤ after.durableLogIndex ∨ journal.Unclaimed := by
    by_cases cut : replaces ∨ trims
    · exact .inr (unclaimed cut)
    · exact .inl (move.durable_le cut)
  have below := calmed.rebase bound
  cases move with
  | same => exact calmed
  | committed _ idle =>
      refine ⟨below.hardStates, fun {persistenceID pending} found => ?_⟩
      by_cases newest : persistenceID = journal.nextCommitPersistence + 1
      · simp only [persistCommit, newest, Function.update_self, Option.some.injEq] at found
        rw [← found]
        exact idle
      · simp only [persistCommit, Function.update_of_ne newest] at found
        exact below.commits found
  | stored => exact ⟨below.hardStates, below.commits⟩
  | trimmed => exact ⟨below.hardStates, below.commits⟩

/-- A transition claims only what is durable, at once or later. -/
theorem Step.claims (step : journal.Step replaces trims event after actions)
    (calmed : journal.Calmed) (unclaimed : replaces ∨ trims → journal.Unclaimed) :
    after.Calmed ∧ Claims (fun _ index => index ≤ after.durableLogIndex) actions := by
  have emitted : ∀ {durable : Nat} {emitted : List Action}, Calm durable emitted →
      Claims (fun _ index => index ≤ durable) emitted :=
    fun calm action present claim made => (calm action present).2 claim made
  cases step with
  | moved _ move calm => exact ⟨move.calmed calmed unclaimed, emitted calm⟩
  | voted _ idle => exact ⟨⟨calmed.hardStates, calmed.commits⟩, emitted idle.1⟩
  | @delayed _ term votedFor middle delayedActions leading _ move calm idle =>
      have moved : middle.Calmed := by
        refine move.calmed ⟨calmed.hardStates, calmed.commits⟩ fun cut => ?_
        exact ⟨(unclaimed cut).hardStates, (unclaimed cut).commits⟩
      refine ⟨⟨fun {persistenceID pending} found => ?_, moved.commits⟩, ?_⟩
      · by_cases newest : persistenceID = middle.nextHardStatePersistence + 1
        · simp only [persistHardState, newest, Function.update_self, Option.some.injEq] at found
          rw [← found]
          exact calm
        · simp only [persistHardState, Function.update_of_ne newest] at found
          exact moved.hardStates found
      · apply Claims.append
        · exact emitted (idle.mono (Nat.zero_le _)).1
        · exact .silent (by simp [Action.claim])
  | ignored => exact ⟨calmed, .silent (by simp)⟩
  | @released persistenceID pending found =>
      refine ⟨⟨fun isPending => calmed.hardStates (of_update_none isPending), calmed.commits⟩, ?_⟩
      split_ifs
      · exact .silent (by simp)
      · exact emitted (calmed.hardStates found)
  | @written _ pending _ _ found move idle =>
      refine ⟨move.calmed ?_ fun cut => (cut.elim id id).elim, emitted idle.1⟩
      have rises := calmed.rebase (.inl (le_max_left _ pending.lastIndex))
      exact ⟨rises.hardStates, rises.commits⟩
  | applied found idle =>
      refine ⟨⟨calmed.hardStates, fun isPending => calmed.commits (of_update_none isPending)⟩, ?_⟩
      exact (emitted idle.1).append (emitted (calmed.commits found).1)

/-- While a write waits only completions arrive. Then the writes emitted so far,
followed by those that wait, are the writes in the order they were made. -/
theorem Step.change (step : journal.Step replaces trims event after actions)
    (waits : journal.Held held) (undisturbed : held ≠ [] → event.isCompletion)
    (commits : journal.CommitsWriteNothing) :
    ∃ writes remaining, after.Held remaining ∧
      journal.toBook.Change replaces trims event after.toBook writes ∧
      held ++ writes = actions.filterMap Action.logWrite ++ remaining := by
  have empty : event.isCompletion = false → held = [] := by
    intro isInput
    by_contra waiting
    rw [undisturbed waiting] at isInput
    cases isInput
  cases step with
  | moved isInput move calm =>
      cases empty isInput
      have pending := move.pendingHardState
      have hardState := move.hardState
      exact ⟨_, [], waits.congr pending.1 hardState.1 hardState.2, move.change isInput, by simp⟩
  | voted isInput idle =>
      have none := empty isInput
      refine ⟨[], [], .nothing fun persistenceID pending found => ?_,
        .same le_rfl (book_untouched isInput), ?_⟩
      · exact waits.nothing_waits none persistenceID pending found
      · rw [none, idle.2]
  | @delayed _ term votedFor middle delayedActions leading isInput move calm idle =>
      have none := empty isInput
      have parked : (middle.persistHardState delayedActions).pendingHardState
          (middle.nextHardStatePersistence + 1) = some {
            term := middle.term
            votedFor := middle.votedFor
            after := delayedActions } := Function.update_self _ _ _
      refine ⟨_, _, .behind parked rfl rfl fun other pending differs found => ?_,
        move.change isInput, ?_⟩
      · simp only [persistHardState, Function.update_of_ne differs,
          move.pendingHardState.1] at found
        exact waits.nothing_waits none other pending found
      · rw [none, List.filterMap_append, idle.2]
        rfl
  | ignored unknown =>
      refine ⟨[], held, waits, .same le_rfl fun persistenceID reports => ?_, by simp⟩
      rw [reports] at unknown
      exact unknown
  | @released persistenceID pending found =>
      rcases waits.release found with ⟨remaining, still, released⟩
      refine ⟨[], remaining, still, .same le_rfl (by simp), ?_⟩
      rw [List.append_nil]
      exact released
  | @written persistenceID pending _ _ found move idle =>
      refine ⟨[], held, ?_, ?_, by rw [idle.2]; simp⟩
      · have pendingSame := move.pendingHardState
        have hardState := move.hardState
        exact waits.congr pendingSame.1 hardState.1 hardState.2
      · generalize nothing : ([] : List LogWrite) = none at move
        cases move with
        | same => exact .completed found le_rfl
        | committed rises _ => exact .completed found rises
        | stored => cases nothing
        | trimmed isTrimmed => exact isTrimmed.elim
  | @applied persistenceID pending reports found idle =>
      refine ⟨[], held, waits.congr rfl rfl rfl, .same le_rfl (by simp), ?_⟩
      rw [List.filterMap_append, idle.2, commits found]
      simp

end Journal

end Ternion.Raft
