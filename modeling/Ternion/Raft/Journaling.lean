import Ternion.Raft.Journal

/-! # Every transition keeps the journal

Each handler of the core changes the log and its durability in one of the ways
that `Journal.Step` lists.
-/

namespace Ternion.Raft

namespace Node

variable {node : Node}

variable {middle : Node} {leading : List Action} {newEntries : List LogEntry} {truncateFrom : Nat}

/-- A transition, or a part of one, that is a change of the log. -/
structure Moves (replaces trims : Prop) (node : Node) (result : Node × List Action) : Prop where
  move : node.journal.Move replaces trims result.1.journal (result.2.filterMap Action.logWrite)
  calm : Calm result.1.durableLogIndex result.2

namespace Moves

variable {replaces trims : Prop} {result : Node × List Action}

theorem step (moves : Moves replaces trims node result) {event : Event}
    (isInput : event.isCompletion = false) :
    node.journal.Step replaces trims event result.1.journal result.2 :=
  .moved isInput moves.move moves.calm

theorem quiet (same : result.1.journal = node.journal)
    (idle : Idle node.durableLogIndex result.2) : Moves replaces trims node result where
  move := by
    rw [same, idle.2]
    exact .same
  calm := by
    have durable : result.1.durableLogIndex = node.durableLogIndex :=
      congrArg (fun journal => journal.durableLogIndex) same
    rw [durable]
    exact idle.1

theorem following (moves : Moves replaces trims middle result)
    (same : middle.journal = node.journal) : Moves replaces trims node result where
  move := same ▸ moves.move
  calm := moves.calm

theorem cons (moves : Moves replaces trims node result) (action : Action)
    (noWrite : action.logWrite = none) (noHardState : action.isHardState = false)
    (silent : action.claim = none) : Moves replaces trims node (result.1, action :: result.2) where
  move := by
    rw [List.filterMap_cons_none noWrite]
    exact moves.move
  calm := moves.calm.cons noHardState silent

/-- Further actions that leave the log alone. -/
theorem surround {after : Node} {trailing : List Action} (moves : Moves replaces trims node result)
    (same : after.journal = result.1.journal) (early : Idle result.1.durableLogIndex leading)
    (late : Idle result.1.durableLogIndex trailing) :
    Moves replaces trims node (after, leading ++ (result.2 ++ trailing)) where
  move := by
    rw [same, List.filterMap_append, List.filterMap_append, early.2, late.2, List.append_nil]
    exact moves.move
  calm := by
    have durable : after.durableLogIndex = result.1.durableLogIndex :=
      congrArg (fun journal => journal.durableLogIndex) same
    rw [durable]
    intro action present
    rcases List.mem_append.mp present with first | later
    · exact early.1 action first
    rcases List.mem_append.mp later with second | last
    · exact moves.calm action second
    · exact late.1 action last

/-- A change of the Term or vote delays what follows from it. -/
theorem delayed (moves : Moves replaces trims middle result) {term : Nat} {votedFor : NodeID}
    (same : middle.journal = { node.journal with term := term, votedFor := votedFor })
    {event : Event} (isInput : event.isCompletion = false) (idle : Idle 0 leading) :
    node.journal.Step replaces trims event (result.1.persistHardState result.2).1.journal
      (leading ++ (result.1.persistHardState result.2).2) := by
  have moved := moves.move
  rw [same] at moved
  have kept : result.1.term = term ∧ result.1.votedFor = votedFor := moved.hardState
  have delayed : node.journal.Step replaces trims event
      (result.1.journal.persistHardState result.2)
      (leading ++ [.persistHardState (result.1.nextHardStatePersistence + 1) term votedFor]) :=
    .delayed isInput moved moves.calm idle
  rw [← kept.1, ← kept.2] at delayed
  exact delayed

end Moves

/-! ## Parts of a transition that leave the log alone -/

variable {replaces trims : Prop} {origin after : Node} {event : Event} {result : Node × List Action}
  {actions : List Action}

theorem Keeps.journal (keeps : Keeps node after) : after.journal = node.journal := by
  rcases keeps with ⟨_, rfl⟩
  rfl

theorem applyThrough_journal (node : Node) (index : Nat) :
    (node.applyThrough index).1.journal = node.journal := by
  rcases node.applyThrough_frame index with ⟨_, _, _, frame⟩
  rw [frame]
  rfl

theorem Reports.idle {durable : Nat} (reports : ∀ action ∈ actions, Reports action) :
    Idle durable actions :=
  .of_forall fun action present => by
    cases reports action present <;> exact ⟨rfl, rfl, by simp [Action.claim]⟩

theorem Elects.idle {durable : Nat} (elects : ∀ action ∈ actions, Elects event node action) :
    Idle durable actions :=
  .of_forall fun action present => by
    cases elects action present <;> exact ⟨rfl, rfl, by simp [Action.claim]⟩

theorem idle_of_isLocal {durable : Nat} (isLocal : ∀ action ∈ actions, action.isLocal = true) :
    Idle durable actions := by
  apply Idle.of_forall
  intro action present
  have silent := isLocal action present
  cases action <;> first | exact ⟨rfl, rfl, by rintro _ ⟨⟩⟩ | cases silent

theorem Emits.idle (emits : ∀ action ∈ actions, Emits event origin node action) :
    Idle node.durableLogIndex actions := by
  apply Idle.of_forall
  intro action present
  cases emits action present with
  | runtime isLocal =>
      have idle : Idle node.durableLogIndex [action] :=
        idle_of_isLocal (List.forall_mem_singleton.mpr isLocal)
      exact ⟨List.filterMap_eq_nil_iff.mp idle.2 action (.head _), idle.1 action (.head _)⟩
  | confirmed _ _ _ _ durable => exact ⟨rfl, rfl, by rintro _ ⟨⟩; exact durable⟩
  | acknowledged _ _ _ _ durable => exact ⟨rfl, rfl, by rintro _ ⟨⟩; exact durable⟩
  | _ => exact ⟨rfl, rfl, by simp [Action.claim]⟩

/-- An answer to a part of a snapshot claims nothing about the log. -/
theorem Emits.claim_of_install {request : InstallSnapshot} {action : Action}
    (emits : Emits (.installSnapshot request) origin node action) : action.claim = none := by
  cases emits with
  | runtime isLocal => exact claim_of_isLocal isLocal
  | rejected isRequest => cases isRequest
  | confirmed isRequest => cases isRequest
  | acknowledged isCompletion => cases isCompletion
  | _ => rfl

/-! ## A Leader's own entries -/

theorem appendOwnEntry_moves (node : Node) {entry : LogEntry}
    (next : entry.index = node.lastLogIndex + 1) :
    Moves replaces trims node (node.appendOwnEntry entry) := by
  have written : node.journal.Move replaces trims { node.journal with
      toBook := (node.journal.keep 0).write [entry] {
        purpose := .persistLeaderEntry
        term := node.term
        lastIndex := entry.index } }
      [⟨node.journal.nextLogPersistence + 1, 0, [entry]⟩] :=
    .stored (by simp) (by simp) ⟨next, trivial⟩ next
  refine ⟨?_, by simp [appendOwnEntry, persistLog, Calm, Action.isHardState, Action.claim]⟩
  simpa [Book.write, Book.keep, Node.journal, appendOwnEntry, persistLog,
    appendEntries_single, Action.logWrite, next] using written

theorem lead_moves (node : Node) : Moves replaces trims node node.lead := by
  have appended : Moves replaces trims node (node.becomeLeader.appendOwnEntry node.noOp) :=
    (node.becomeLeader.appendOwnEntry_moves rfl).following rfl
  have announced := ((appended.cons .resetCheckQuorumTimer rfl rfl rfl).cons
    .resetHeartbeatTimer rfl rfl rfl).cons (.becameLeader node.term) rfl rfl rfl
  exact ⟨announced.move, announced.calm⟩

/-! ## Committing -/

theorem persistCommit_moves {after : Node} {actions : List Action}
    (same : after.journal = { node.journal with commitIndex := after.commitIndex })
    (rises : node.commitIndex ≤ after.commitIndex) (idle : Idle node.durableLogIndex actions) :
    Moves replaces trims node (after.persistCommit actions) := by
  refine ⟨?_, by simp [persistCommit, Calm, Action.isHardState, Action.claim]⟩
  have persisted : (after.persistCommit actions).1.journal =
      node.journal.persistCommit after.commitIndex actions := by
    have shown : (after.persistCommit actions).1.journal =
        after.journal.persistCommit after.commitIndex actions := rfl
    rw [shown, same]
    rfl
  rw [persisted]
  exact .committed rises idle

/-! ## Taking entries -/

/-- The new suffix of a consecutive batch continues what is kept of the log. -/
theorem entriesToAppendFrom_placed (entries : List LogEntry) (wantIndex : Nat)
    (consecutive : Consecutive LogEntry.index wantIndex entries)
    (taken : node.entriesToAppendFrom (wantIndex + 1) entries = some (newEntries, truncateFrom))
    (isNew : newEntries ≠ []) :
    (truncateFrom ≠ 0 → node.journal.CutAt truncateFrom) ∧
      Consecutive LogEntry.index (node.journal.keep truncateFrom).lastLogIndex newEntries := by
  induction entries generalizing wantIndex with
  | nil =>
      simp only [entriesToAppendFrom, Option.some.injEq, Prod.mk.injEq] at taken
      exact absurd taken.1.symm isNew
  | cons entry rest induction =>
      have index : entry.index = wantIndex + 1 := consecutive.1
      rw [entriesToAppendFrom, if_neg (by simp [index])] at taken
      split_ifs at taken with inside differs committed beyond
      · simp only [Option.some.injEq, Prod.mk.injEq] at taken
        rcases taken with ⟨rfl, rfl⟩
        refine ⟨fun _ => ⟨not_le.mp committed, inside⟩, ?_⟩
        rw [Book.keep, if_neg (by omega)]
        simp only [index, Nat.add_sub_cancel]
        exact consecutive
      · exact induction (wantIndex + 1) consecutive.2 taken
      · simp only [Option.some.injEq, Prod.mk.injEq] at taken
        rcases taken with ⟨rfl, rfl⟩
        refine ⟨by simp, ?_⟩
        have last : node.lastLogIndex = wantIndex := by omega
        simp only [Book.keep, if_true, Node.journal, last]
        exact consecutive

theorem truncateLog_journal (node : Node) (nonzero : truncateFrom ≠ 0) :
    (node.truncateLog truncateFrom).journal =
      { node.journal with toBook := node.journal.keep truncateFrom } := by
  rw [Book.keep, if_neg nonzero]
  rfl

theorem appendEntries_journal {entries : List LogEntry} (isNew : entries ≠ [])
    (consecutive : Consecutive LogEntry.index node.lastLogIndex entries) :
    (node.appendEntries entries).journal = { node.journal with
      toBook := { node.journal.toBook with
        log := node.journal.log ++ entries
        lastLogIndex := node.journal.lastLogIndex + entries.length } } := by
  have last := List.getLast?_eq_some_getLast isNew
  have index := consecutive.getLast last
  have found : (node.log ++ entries).getLast? = some (entries.getLast isNew) := by
    rw [List.getLast?_append, last, Option.some_or]
  simp only [appendEntries, found, Node.journal, index]

/-- A replaced suffix is kept in part, and continued by the new entries. -/
theorem replaceSuffix_journal (isNew : newEntries ≠ [])
    (consecutive :
      Consecutive LogEntry.index (node.journal.keep truncateFrom).lastLogIndex newEntries) :
    (node.replaceSuffix newEntries truncateFrom).journal =
      { node.journal with toBook := { node.journal.keep truncateFrom with
        log := (node.journal.keep truncateFrom).log ++ newEntries
        lastLogIndex := (node.journal.keep truncateFrom).lastLogIndex + newEntries.length } } := by
  have kept : (if truncateFrom ≠ 0 then node.truncateLog truncateFrom else node).journal =
      { node.journal with toBook := node.journal.keep truncateFrom } := by
    split_ifs with nonzero
    · exact node.truncateLog_journal nonzero
    · simp [Book.keep, not_not.mp nonzero]
  have continued : Consecutive LogEntry.index
      (if truncateFrom ≠ 0 then node.truncateLog truncateFrom else node).journal.lastLogIndex
      newEntries := by
    rw [kept]
    exact consecutive
  have appended := appendEntries_journal isNew continued
  rw [kept] at appended
  exact appended

theorem storeEntries_moves (request : AppendEntries) (isNew : newEntries ≠ [])
    (cut : truncateFrom ≠ 0 → replaces ∧ node.journal.CutAt truncateFrom)
    (consecutive :
      Consecutive LogEntry.index (node.journal.keep truncateFrom).lastLogIndex newEntries) :
    Moves replaces trims node (node.storeEntries request newEntries truncateFrom) := by
  have replaced := node.replaceSuffix_journal isNew consecutive
  have last : (node.replaceSuffix newEntries truncateFrom).lastLogIndex =
      (node.journal.keep truncateFrom).lastLogIndex + newEntries.length :=
    congrArg (fun journal => journal.lastLogIndex) replaced
  have numbered : (node.replaceSuffix newEntries truncateFrom).nextLogPersistence =
      node.nextLogPersistence := by
    rcases node.replaceSuffix_frame newEntries truncateFrom with ⟨_, _, _, _, frame⟩
    rw [frame]
  refine ⟨?_, by simp [storeEntries, persistLog, Calm, Action.isHardState, Action.claim]⟩
  let pending : PendingLogPersistence := {
    purpose := .persistFollowerAppend
    term := request.term
    leader := request.sender
    truncateFrom := truncateFrom
    lastIndex := (node.replaceSuffix newEntries truncateFrom).lastLogIndex
    leaderCommit := request.leaderCommit
    readID := request.readID
    requestID := request.requestID }
  have written : node.journal.Move replaces trims
      { node.journal with toBook := (node.journal.keep truncateFrom).write newEntries pending }
      [⟨node.journal.nextLogPersistence + 1, truncateFrom, newEntries⟩] :=
    .stored isNew cut consecutive last
  have shown : (node.storeEntries request newEntries truncateFrom).1.journal =
      { node.journal with
        toBook := (node.journal.keep truncateFrom).write newEntries pending } := by
    have stored : (node.storeEntries request newEntries truncateFrom).1.journal =
        { (node.replaceSuffix newEntries truncateFrom).journal with
          nextLogPersistence :=
            (node.replaceSuffix newEntries truncateFrom).journal.nextLogPersistence + 1
          pendingLog := Function.update
            (node.replaceSuffix newEntries truncateFrom).journal.pendingLog
            ((node.replaceSuffix newEntries truncateFrom).journal.nextLogPersistence + 1)
            (some pending) } := rfl
    rw [stored, replaced]
    rfl
  rw [shown]
  simp only [storeEntries, persistLog, List.filterMap_cons, Action.logWrite, List.filterMap_nil,
    numbered]
  exact written

/-! ## Events that remove entries -/

/-- A request makes the Node remove a suffix of its log. -/
def removesSuffix (node : Node) (request : AppendEntries) : Bool :=
  decide (node.term ≤ request.term) &&
    node.matchesAt request.prevLogIndex request.prevLogTerm &&
    (node.entriesToAppend request.prevLogIndex request.entries).any fun suffix =>
      decide (suffix.2 ≠ 0)

/-- An event that can remove a suffix of the log. -/
def replacesSuffix (node : Node) : Event → Bool
  | .appendEntries request => node.removesSuffix request
  | _ => false

/-- Batches are numbered after the position they follow, and only positions of
the committed log are compacted. -/
def sane (node : Node) : Event → Bool
  | .appendEntries request =>
      decide (Consecutive LogEntry.index request.prevLogIndex request.entries)
  | .snapshotCompacted index _ =>
      decide (index ≤ node.commitIndex) && decide (index ≤ node.lastLogIndex)
  | _ => true

theorem compactLog_moves (isTrimming : trims) (placed : node.journal.Placed) {index : Nat}
    (term : Nat) (committed : index ≤ node.commitIndex) (within : index ≤ node.lastLogIndex) :
    Moves replaces trims node (node.compactLog index term, []) := by
  refine ⟨?_, by simp [Calm]⟩
  unfold compactLog
  split_ifs with refused
  · exact .same
  · simp only [not_or, not_le, not_lt, not_not] at refused
    have last : node.lastLogIndex = node.logBaseIndex + node.log.length := placed.last
    have inside : index - node.logBaseIndex ≤ node.log.length := by omega
    have consecutive : Consecutive LogEntry.index (node.logBaseIndex + (index - node.logBaseIndex))
        (node.log.drop (index - node.logBaseIndex)) := placed.consecutive.drop inside
    rw [show node.logBaseIndex + (index - node.logBaseIndex) = index by omega] at consecutive
    have trimmed : node.journal.Move replaces trims { node.journal with
        logBaseIndex := index
        log := node.log.drop (index - node.logBaseIndex)
        lastLogIndex := node.lastLogIndex
        durableLogIndex := node.durableLogIndex
        commitIndex := node.commitIndex } [] := by
      refine .trimmed isTrimming (List.drop_suffix _ _) consecutive ?_ (.inr ⟨rfl, rfl⟩) committed
        le_rfl
      simp only [List.length_drop]
      omega
    exact trimmed

theorem installSnapshotBase_moves (isTrimming : trims) (placed : node.journal.Placed)
    {request : InstallSnapshot} (newer : node.logBaseIndex < request.snapshotIndex) :
    node.journal.Move replaces trims (node.installSnapshotBase request).journal [] := by
  have last : node.lastLogIndex = node.logBaseIndex + node.log.length := placed.last
  have covered : request.snapshotIndex ≤ max node.commitIndex request.snapshotIndex :=
    le_max_right _ _
  unfold installSnapshotBase
  by_cases kept : request.snapshotIndex ≤ node.lastLogIndex ∧
      node.termAt request.snapshotIndex = request.snapshotTerm
  · have dropped : (node.log.dropWhile fun entry => entry.index ≤ request.snapshotIndex) =
        node.log.drop (request.snapshotIndex - node.logBaseIndex) :=
      placed.consecutive.dropWhile_le _
    have consecutive := placed.consecutive.drop
      (show request.snapshotIndex - node.logBaseIndex ≤ node.log.length by omega)
    rw [show node.journal.logBaseIndex + (request.snapshotIndex - node.logBaseIndex) =
      request.snapshotIndex by simp only [Node.journal]; omega] at consecutive
    simp only [if_pos kept, dropped]
    have length : (node.log.drop (request.snapshotIndex - node.logBaseIndex)).length =
        node.log.length - (request.snapshotIndex - node.logBaseIndex) := List.length_drop
    cases ends : (node.log.drop (request.snapshotIndex - node.logBaseIndex)).getLast? with
    | none =>
        rw [List.getLast?_eq_none_iff] at ends
        refine .trimmed isTrimming (List.drop_suffix _ _) consecutive ?_ (.inr ⟨rfl, rfl⟩) covered
          (le_max_left _ _)
        rw [ends] at length
        simp only [ends, List.length_nil] at length ⊢
        omega
    | some final =>
        have index := consecutive.getLast ends
        refine .trimmed isTrimming (List.drop_suffix _ _) consecutive ?_ (.inl rfl) covered
          (le_max_left _ _)
        exact index
  · simp only [if_neg kept, List.getLast?_nil]
    exact .trimmed isTrimming (List.nil_suffix) trivial rfl (.inl rfl) covered (le_max_left _ _)

/-! ## Every transition -/

/-- A body changes the log in one of the listed ways. A suffix is removed by a
request that replaces it, and a prefix by an event that trims the log. -/
theorem Body.moves (body : Body event origin node result)
    (placed : event.trimsLog → node.journal.Placed) (isSane : node.sane event)
    (isReplacing : node.replacesSuffix event → replaces) (isTrimming : event.trimsLog → trims) :
    Moves replaces trims node result := by
  cases body with
  | quiet keeps emits => exact .quiet keeps.journal (Emits.idle emits)
  | appended _ _ next => exact (node.appendOwnEntry_moves next).cons _ rfl rfl rfl
  | @stored request newEntries truncateFrom isRequest current matched taken isNew =>
      subst isRequest
      have consecutive : Consecutive LogEntry.index request.prevLogIndex request.entries := by
        simpa [sane] using isSane
      have cut := entriesToAppendFrom_placed request.entries request.prevLogIndex consecutive taken
        isNew
      apply Moves.cons _ _ rfl rfl rfl
      apply storeEntries_moves request isNew _ cut.2
      intro nonzero
      refine ⟨isReplacing ?_, cut.1 nonzero⟩
      simp [replacesSuffix, removesSuffix, current, matched, taken, nonzero]
  | @committed index middle after leading parked trailing rises _ keeps emits kept early late =>
      have same : middle.journal = { node.journal with commitIndex := middle.commitIndex } := by
        rw [keeps.journal]
        rcases keeps with ⟨_, rfl⟩
        rfl
      have higher : node.commitIndex ≤ middle.commitIndex := by
        rcases keeps with ⟨_, rfl⟩
        exact rises.le
      have moves : Moves replaces trims node (middle.persistCommit parked) :=
        persistCommit_moves same higher (Emits.idle emits)
      exact moves.surround kept.journal (idle_of_isLocal early) (idle_of_isLocal late)
  | @applied index leading trailing _ _ early emits =>
      exact .quiet (node.applyThrough_journal index) ((idle_of_isLocal early).append
        ((Reports.idle fun _ emitted => node.applyThrough_reports index emitted).append
          (Emits.idle emits)))
  | @installed request actions isRequest _ isInstalled newer emits =>
      subst isRequest
      have idle := Emits.idle emits
      constructor
      · rw [idle.2]
        exact installSnapshotBase_moves (isTrimming isInstalled) (placed isInstalled) newer
      · exact fun action present => ⟨(idle.1 action present).1, by
          simp [(emits action present).claim_of_install]⟩
  | @compacted index term isCompaction =>
      subst isCompaction
      simp only [sane, Bool.and_eq_true, decide_eq_true_eq] at isSane
      exact compactLog_moves (isTrimming rfl) (placed rfl) term isSane.1 isSane.2

theorem acceptLeader_journal {term : Nat} (current : ¬node.term < term) (leader : NodeID) :
    (node.acceptLeader term leader).journal = node.journal := by
  rw [acceptLeader, if_neg current]
  rfl

/-- A completion writes no entries. -/
theorem Body.writes (body : Body event origin node result) (completes : event.isCompletion = true) :
    result.2.filterMap Action.logWrite = [] := by
  cases body with
  | quiet _ emits => exact (Emits.idle emits).2
  | appended isInput =>
      rw [completes] at isInput
      cases isInput
  | stored isRequest =>
      rw [isRequest] at completes
      cases completes
  | committed _ _ _ _ _ early late =>
      have leading : Idle 0 _ := idle_of_isLocal early
      have trailing : Idle 0 _ := idle_of_isLocal late
      rw [List.filterMap_append, List.filterMap_append, leading.2, trailing.2]
      rfl
  | @applied index _ _ _ _ early emits =>
      have leading : Idle node.durableLogIndex _ := idle_of_isLocal early
      exact (leading.append ((Reports.idle fun _ emitted =>
        node.applyThrough_reports index emitted).append (Emits.idle emits))).2
  | installed _ _ _ _ emits => exact (Emits.idle emits).2
  | compacted => rfl

/-- Without a new hard state the journal stays, and otherwise only the Term and
the vote differ. -/
theorem Reach.journal {delayed : Bool} (reach : Reach event node middle delayed) :
    middle.journal = { node.journal with
      term := middle.term
      votedFor := middle.votedFor } ∧ (delayed = false → middle.journal = node.journal) := by
  constructor
  · rcases reach.reaches.same with ⟨_, _, rfl⟩
    rfl
  · intro now
    cases reach with
    | stays => rfl
    | accepts => exact acceptLeader_journal (by simpa using now) _
    | deposed => cases now
    | resigns => simp [becomeFollower, Node.journal]

theorem Ballots.term_eq {actions : List Action}
    (ballots : Ballots node event leading middle actions false) : middle.term = node.term := by
  cases ballots <;> rfl

theorem Reaches.sane (reaches : Reaches node middle) : middle.sane event = node.sane event := by
  rcases reaches.same with ⟨_, _, rfl⟩
  rfl

theorem Reaches.replacesSuffix (reaches : Reaches node middle)
    (replaces : middle.replacesSuffix event) : node.replacesSuffix event := by
  have rises := reaches.term
  rcases reaches.same with ⟨mandate, notes, rfl⟩
  cases event with
  | appendEntries request =>
      have same : ((node.hold mandate).note notes).entriesToAppend request.prevLogIndex
          request.entries = node.entriesToAppend request.prevLogIndex request.entries := by
        apply entriesToAppendFrom_congr
        · rfl
        · rfl
        · exact fun _ => rfl
      simp only [Node.replacesSuffix, removesSuffix, Bool.and_eq_true, decide_eq_true_eq, same]
        at replaces ⊢
      exact ⟨⟨rises.trans replaces.1.1, replaces.1.2⟩, replaces.2⟩
  | _ => exact replaces

/-- Every transition changes the durability of the log in one of the listed ways. -/
theorem step_journal {event : Event} (placed : event.trimsLog → node.journal.Placed)
    (isSane : node.sane event) :
    node.journal.Step (node.replacesSuffix event) event.trimsLog event
      (node.step event).1.journal (node.step event).2 := by
  have course := node.step_course event
  generalize node.step event = result at course ⊢
  cases course with
  | @acts _ middle delayed result isInput reach body =>
      rcases reach.journal with ⟨reached, same⟩
      have moves : Moves (node.replacesSuffix event) event.trimsLog middle result := by
        apply body.moves _ (reach.reaches.sane.trans isSane) reach.reaches.replacesSuffix
          (fun trims => trims)
        rw [reached]
        exact fun trims => ⟨(placed trims).consecutive, (placed trims).last, (placed trims).base⟩
      cases delayed with
      | false => exact (moves.following (same rfl)).step isInput
      | true => exact moves.delayed reached isInput .nil
  | @votes _ middle delayed leading actions ballots =>
      rcases ballots.elects with ⟨reaches, early, elects⟩
      have isInput : event.isCompletion = false := by cases ballots <;> rfl
      have reached : middle.journal = { node.journal with
          term := middle.term
          votedFor := middle.votedFor } := by
        rcases reaches.same with ⟨_, _, rfl⟩
        rfl
      cases delayed with
      | false =>
          rw [ballots.term_eq] at reached
          rw [persistTermChange, if_neg (by simp), reached]
          exact .voted isInput ((Elects.idle early).append (Elects.idle elects))
      | true =>
          have moves : Moves (node.replacesSuffix event) event.trimsLog middle (middle, actions) :=
            .quiet rfl (Elects.idle elects)
          exact moves.delayed reached isInput (Elects.idle early)
  | @wins response =>
      have moves : Moves (node.replacesSuffix (.voteResponse response))
          (Event.voteResponse response).trimsLog node _ :=
        (node.recordVote response.sender).lead_moves.following rfl
      exact moves.step rfl
  | ignored isCompletion unknown =>
      apply Journal.Step.ignored
      cases event with
      | hardStatePersisted _ | logEntriesPersisted _ | commitIndexPersisted _ =>
          simpa [awaits, Journal.Unknown, Node.journal] using unknown
      | _ => cases isCompletion
  | released found => exact .released found
  | @written persistenceID pending result found body =>
      have moves : Moves False False (node.completeLog persistenceID pending) result :=
        body.moves (by simp [Event.trimsLog]) rfl (by simp [replacesSuffix])
          (by simp [Event.trimsLog])
      have silent := body.writes rfl
      have moved := moves.move
      rw [silent] at moved
      exact .written found moved ⟨moves.calm, silent⟩
  | @completed persistenceID pending applied found isApplied =>
      subst isApplied
      rw [applyThrough_journal]
      exact .applied found (Reports.idle fun _ emitted => applyThrough_reports _ _ emitted)

end Node

end Ternion.Raft
