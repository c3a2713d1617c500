import Mathlib.Logic.Relation
import Ternion.Foundation.Transition
import Ternion.Raft.Journaling
import Ternion.Raft.Start
import Ternion.Raft.Words

/-! # The extent of a log

Positions are absolute, and the log is a slice behind a moving base. What can
happen to the slice and to its bounds is listed by `Extent.Change`. Every
transition is a sequence of such changes, and each of them keeps the bounds in
their order.
-/

namespace Ternion.Raft

variable {index : Nat} {entries newEntries : List LogEntry} {last : LogEntry}

/-- The part of a Node that says where its log begins and ends, and how far it
is committed and applied. -/
structure Extent where
  log : List LogEntry
  logBaseIndex : Nat
  logBaseTerm : Nat
  lastLogIndex : Nat
  lastLogTerm : Nat
  commitIndex : Nat
  durableCommitIndex : Nat
  lastApplied : Nat
  pendingCommit : Nat → Option PendingCommitPersistence

namespace Extent

def termAt (extent : Extent) (index : Nat) : Nat :=
  if index = extent.logBaseIndex then extent.logBaseTerm
  else if index ≤ extent.logBaseIndex ∨ extent.lastLogIndex < index then 0
  else ((extent.log[index - extent.logBaseIndex - 1]?).map LogEntry.term).getD 0

/-- The part of the log before a position, zero for the end. -/
def before (extent : Extent) (truncateFrom : Nat) : List LogEntry :=
  if truncateFrom = 0 then extent.log
  else extent.log.take (truncateFrom - extent.logBaseIndex - 1)

def lastBefore (extent : Extent) (truncateFrom : Nat) : Nat :=
  if truncateFrom = 0 then extent.lastLogIndex else truncateFrom - 1

/-- The extent after a Snapshot, with what is left of the log. -/
def install (extent : Extent) (index term : Nat) (log : List LogEntry)
    (lastIndex lastTerm : Nat) : Extent :=
  { extent with
    log := log
    logBaseIndex := index
    logBaseTerm := term
    lastLogIndex := lastIndex
    lastLogTerm := lastTerm
    commitIndex := max extent.commitIndex index
    durableCommitIndex := max extent.durableCommitIndex index
    lastApplied := index }

/-- Everything that can happen to an extent. -/
inductive Change (extent : Extent) : Extent → Prop
  | stored {truncateFrom : Nat} {entries : List LogEntry} {last : LogEntry}
      (cut : truncateFrom ≠ 0 →
        extent.commitIndex < truncateFrom ∧ truncateFrom ≤ extent.lastLogIndex)
      (consecutive : Consecutive LogEntry.index (extent.lastBefore truncateFrom) entries)
      (ends : entries.getLast? = some last) :
      Change extent { extent with
        log := extent.before truncateFrom ++ entries
        lastLogIndex := last.index
        lastLogTerm := last.term }
  | committed {index id : Nat} {after : List Action} (rises : extent.commitIndex ≤ index)
      (within : index ≤ extent.lastLogIndex) :
      Change extent { extent with
        commitIndex := index
        pendingCommit := Function.update extent.pendingCommit id
          (some { commitIndex := index, after := after }) }
  | completed {id : Nat} {pending : PendingCommitPersistence}
      (found : extent.pendingCommit id = some pending) :
      Change extent { extent with
        durableCommitIndex := max extent.durableCommitIndex pending.commitIndex
        pendingCommit := Function.update extent.pendingCommit id none }
  | applied {index : Nat} (rises : extent.lastApplied ≤ index)
      (within : index ≤ max extent.lastApplied extent.durableCommitIndex) :
      Change extent { extent with lastApplied := index }
  | compacted {index : Nat} (above : extent.logBaseIndex < index)
      (isApplied : index ≤ extent.lastApplied) :
      Change extent { extent with
        log := extent.log.drop (index - extent.logBaseIndex)
        logBaseIndex := index
        logBaseTerm := extent.termAt index }
  | installed {index : Nat} {left : List LogEntry} (above : extent.logBaseIndex < index)
      (inside : index ≤ extent.lastLogIndex)
      (isLeft : left = extent.log.dropWhile fun entry => entry.index ≤ index) :
      Change extent (extent.install index (extent.termAt index) left
        ((left.getLast?.map LogEntry.index).getD extent.lastLogIndex)
        ((left.getLast?.map LogEntry.term).getD extent.lastLogTerm))
  | started {index term : Nat} (above : extent.commitIndex < index) :
      Change extent (extent.install index term [] index term)

/-! ## Bounds -/

/-- The log is numbered from its base on, and everything that is committed and
not compacted is in it. -/
structure Represented (extent : Extent) : Prop where
  consecutive : Consecutive LogEntry.index extent.logBaseIndex extent.log
  last : extent.lastLogIndex = extent.logBaseIndex + extent.log.length
  lastTerm : extent.lastLogTerm = (extent.log.getLast?.map LogEntry.term).getD extent.logBaseTerm
  base : extent.logBaseIndex ≤ extent.lastApplied
  applied : extent.lastApplied ≤ extent.commitIndex
  commit : extent.commitIndex ≤ extent.lastLogIndex
  durable : extent.durableCommitIndex ≤ extent.commitIndex
  pending : ∀ id pending, extent.pendingCommit id = some pending →
    pending.commitIndex ≤ extent.commitIndex

variable {extent : Extent}

namespace Represented

section

variable (represented : extent.Represented)

include represented

/-- The Term of the last entry, or that of the base if there is none, is the
Term of the last position. -/
theorem termAt_last :
    extent.termAt extent.lastLogIndex = extent.lastLogTerm := by
  have last := represented.last
  rw [represented.lastTerm, termAt, last]
  cases ends : extent.log.getLast? with
  | none =>
      rw [List.getLast?_eq_none_iff] at ends
      rw [ends]
      exact if_pos rfl
  | some final =>
      have some_ : extent.log ≠ [] := by
        intro empty
        rw [empty] at ends
        cases ends
      have positive := List.length_pos_iff.mpr some_
      rw [List.getLast?_eq_getElem?] at ends
      rw [if_neg (by omega), if_neg (by omega), show extent.logBaseIndex + extent.log.length -
        extent.logBaseIndex - 1 = extent.log.length - 1 by omega, ends]
      rfl

/-- Without a beginning, the log ends as before. -/
theorem drop (above : extent.logBaseIndex < index) (inside : index ≤ extent.lastLogIndex) :
    let left := extent.log.drop (index - extent.logBaseIndex)
    Consecutive LogEntry.index index left ∧ extent.lastLogIndex = index + left.length ∧
      (left.getLast?.map LogEntry.index).getD extent.lastLogIndex = extent.lastLogIndex ∧
      (left.getLast?.map LogEntry.term).getD (extent.termAt index) = extent.lastLogTerm := by
  have last := represented.last
  have consecutive := represented.consecutive.drop
    (show index - extent.logBaseIndex ≤ extent.log.length by omega)
  rw [show extent.logBaseIndex + (index - extent.logBaseIndex) = index by omega] at consecutive
  have length : extent.lastLogIndex =
      index + (extent.log.drop (index - extent.logBaseIndex)).length := by
    rw [List.length_drop]
    omega
  refine ⟨consecutive, length, ?_, ?_⟩
  · cases ends : (extent.log.drop (index - extent.logBaseIndex)).getLast? with
    | none => rfl
    | some final => exact (consecutive.getLast ends).trans length.symm
  · cases ends : (extent.log.drop (index - extent.logBaseIndex)).getLast? with
    | none =>
        rw [List.getLast?_eq_none_iff, List.drop_eq_nil_iff] at ends
        rw [← represented.termAt_last, show extent.lastLogIndex = index by omega]
        rfl
    | some final =>
        rw [List.getLast?_drop] at ends
        split_ifs at ends
        rw [represented.lastTerm, ends]
        rfl

theorem stored {truncateFrom : Nat}
    (cut : truncateFrom ≠ 0 →
      extent.commitIndex < truncateFrom ∧ truncateFrom ≤ extent.lastLogIndex)
    (consecutive : Consecutive LogEntry.index (extent.lastBefore truncateFrom) entries)
    (ends : entries.getLast? = some last) :
    Represented { extent with
      log := extent.before truncateFrom ++ entries
      lastLogIndex := last.index
      lastLogTerm := last.term } := by
  have lastIndex := represented.last
  have base := represented.base
  have applied := represented.applied
  have commit := represented.commit
  have before : Consecutive LogEntry.index extent.logBaseIndex (extent.before truncateFrom) ∧
      extent.lastBefore truncateFrom =
        extent.logBaseIndex + (extent.before truncateFrom).length ∧
      extent.commitIndex ≤ extent.lastBefore truncateFrom := by
    rw [Extent.before, lastBefore]
    split_ifs with atEnd
    · exact ⟨represented.consecutive, lastIndex, commit⟩
    · have bounds := cut atEnd
      refine ⟨represented.consecutive.take _, ?_, by omega⟩
      rw [List.length_take]
      omega
  rcases before with ⟨kept, length, committed⟩
  have final := consecutive.getLast ends
  have whole : last.index =
      extent.logBaseIndex + (extent.before truncateFrom ++ entries).length := by
    rw [List.length_append]
    omega
  have covered : extent.commitIndex ≤ last.index := by omega
  constructor
  · exact Consecutive.append_iff.mpr ⟨kept, length ▸ consecutive⟩
  · exact whole
  · rw [List.getLast?_append, ends]
    rfl
  · exact base
  · exact applied
  · exact covered
  · exact represented.durable
  · exact represented.pending

theorem committed {id : Nat} {after : List Action} (rises : extent.commitIndex ≤ index)
    (within : index ≤ extent.lastLogIndex) :
    Represented { extent with
      commitIndex := index
      pendingCommit := Function.update extent.pendingCommit id
        (some { commitIndex := index, after := after }) } := by
  constructor
  · exact represented.consecutive
  · exact represented.last
  · exact represented.lastTerm
  · exact represented.base
  · exact Nat.le_trans represented.applied rises
  · exact within
  · exact Nat.le_trans represented.durable rises
  · intro other pending found
    dsimp only at found
    rw [Function.update_apply] at found
    split_ifs at found
    · cases found
      exact Nat.le_refl _
    · exact Nat.le_trans (represented.pending other pending found) rises

theorem install {term lastIndex lastTerm : Nat} {left : List LogEntry}
    (consecutive : Consecutive LogEntry.index index left) (length : lastIndex = index + left.length)
    (isTerm : lastTerm = (left.getLast?.map LogEntry.term).getD term)
    (commit : extent.commitIndex ≤ lastIndex) :
    (extent.install index term left lastIndex lastTerm).Represented := by
  have durable := represented.durable
  have within : index ≤ lastIndex := by omega
  constructor
  · exact consecutive
  · exact length
  · exact isTerm
  · exact Nat.le_refl _
  · exact Nat.le_max_right ..
  · exact Nat.max_le.mpr ⟨commit, within⟩
  · exact Nat.max_le.mpr ⟨Nat.le_trans durable (Nat.le_max_left ..), Nat.le_max_right ..⟩
  · intro id pending found
    exact Nat.le_trans (represented.pending id pending found) (Nat.le_max_left ..)

theorem change {after : Extent} (changes : extent.Change after) :
    after.Represented := by
  have applied := represented.applied
  have commit := represented.commit
  cases changes with
  | stored cut consecutive ends => exact represented.stored cut consecutive ends
  | committed rises within => exact represented.committed rises within
  | completed found =>
      have within := represented.pending _ _ found
      refine ⟨represented.consecutive, represented.last, represented.lastTerm, represented.base,
        applied, commit, Nat.max_le.mpr ⟨represented.durable, within⟩, ?_⟩
      intro other pending stillPending
      exact represented.pending other pending (of_update_none stillPending)
  | applied rises within =>
      have durable := represented.durable
      have base := represented.base
      refine ⟨represented.consecutive, represented.last, represented.lastTerm,
        Nat.le_trans base rises, ?_, commit, durable, represented.pending⟩
      exact Nat.le_trans within (Nat.max_le.mpr ⟨applied, durable⟩)
  | compacted above isApplied =>
      rcases represented.drop above (by omega) with ⟨consecutive, length, _, isTerm⟩
      exact ⟨consecutive, length, isTerm.symm, isApplied, applied, commit, represented.durable,
        represented.pending⟩
  | installed above inside isLeft =>
      rw [represented.consecutive.dropWhile_le] at isLeft
      rcases represented.drop above inside with ⟨consecutive, length, isIndex, isTerm⟩
      rw [isLeft, isIndex]
      refine represented.install consecutive length ?_ commit
      cases ends : (extent.log.drop _).getLast? with
      | none =>
          rw [ends] at isTerm
          exact isTerm.symm
      | some final => rfl
  | started above => exact represented.install trivial rfl rfl (Nat.le_of_lt above)

/-- Sequences of changes keep the bounds as well. -/
theorem changes {after : Extent}
    (changes : Relation.ReflTransGen Change extent after) : after.Represented := by
  induction changes with
  | refl => exact represented
  | tail _ last induction => exact induction.change last

end

end Represented

theorem Change.commit_le {after : Extent} (change : extent.Change after) :
    extent.commitIndex ≤ after.commitIndex := by
  cases change with
  | stored | completed | applied | compacted => exact Nat.le_refl _
  | committed rises => exact rises
  | installed | started => exact Nat.le_max_left ..

end Extent

namespace Node

def extent (node : Node) : Extent where
  log := node.log
  logBaseIndex := node.logBaseIndex
  logBaseTerm := node.logBaseTerm
  lastLogIndex := node.lastLogIndex
  lastLogTerm := node.lastLogTerm
  commitIndex := node.commitIndex
  durableCommitIndex := node.durableCommitIndex
  lastApplied := node.lastApplied
  pendingCommit := node.pendingCommit

/-- The changes of a transition, or of a part of one. -/
def Evolves (node after : Node) : Prop :=
  Relation.ReflTransGen Extent.Change node.extent after.extent

namespace Evolves

variable {node middle after : Node}

theorem quiet (same : after.extent = node.extent) : Evolves node after := by
  rw [Evolves, same]

theorem trans (first : Evolves node middle) (second : Evolves middle after) : Evolves node after :=
  Relation.ReflTransGen.trans first second

theorem single (change : node.extent.Change after.extent) : Evolves node after :=
  Relation.ReflTransGen.single change

theorem termChange {changed : Bool} {result : Node × List Action}
    (evolves : Evolves node result.1) :
    Evolves node (persistTermChange changed result).1 := by
  rw [persistTermChange]
  split_ifs
  · exact evolves.trans (quiet rfl)
  · exact evolves

theorem commit_le (evolves : Evolves node after) : node.commitIndex ≤ after.commitIndex := by
  have rises : ∀ {extent : Extent}, Relation.ReflTransGen Extent.Change node.extent extent →
      node.commitIndex ≤ extent.commitIndex := by
    intro extent changes
    induction changes with
    | refl => exact Nat.le_refl _
    | tail _ last induction => exact Nat.le_trans induction last.commit_le
  exact rises evolves

end Evolves

variable {node : Node}

/-! ## Parts of a transition -/

theorem applyEntries_lastApplied (count : Nat) (node : Node) :
    node.lastApplied ≤ (node.applyEntries count).1.lastApplied ∧
      (node.applyEntries count).1.lastApplied ≤ node.lastApplied + count := by
  induction count generalizing node with
  | zero => exact ⟨Nat.le_refl _, Nat.le_refl _⟩
  | succ count induction =>
      rw [applyEntries]
      cases node.log[node.lastApplied - node.logBaseIndex]? with
      | none => exact ⟨Nat.le_refl _, Nat.le_add_right ..⟩
      | some entry =>
          have sum : node.lastApplied + 1 + count ≤ node.lastApplied + (count + 1) := by omega
          dsimp only
          split_ifs
          · have rest := induction { node with
              lastApplied := node.lastApplied + 1, readReady := true }
            exact ⟨Nat.le_trans (Nat.le_succ _) rest.1, Nat.le_trans rest.2 sum⟩
          · have rest := induction { node with lastApplied := node.lastApplied + 1 }
            exact ⟨Nat.le_trans (Nat.le_succ _) rest.1, Nat.le_trans rest.2 sum⟩

theorem applyThrough_evolves (within : index ≤ node.durableCommitIndex) :
    Evolves node (node.applyThrough index).1 := by
  rw [applyThrough]
  split_ifs with reached
  · exact .quiet rfl
  · rcases node.applyEntries_lastApplied (index - node.lastApplied) with ⟨rises, bound⟩
    rcases node.applyEntries_frame (index - node.lastApplied) with ⟨applied, ready, frame⟩
    rw [frame] at rises bound
    dsimp only
    rw [frame]
    have reaches : applied ≤ node.durableCommitIndex := by
      have sum : node.lastApplied + (index - node.lastApplied) = index := by omega
      exact Nat.le_trans bound (Nat.le_trans (Nat.le_of_eq sum) within)
    exact .single (.applied rises (Nat.le_trans reaches (Nat.le_max_right ..)))

/-- A Leader appends at the end of its log. -/
theorem appendOwnEntry_evolves {entry : LogEntry} (next : entry.index = node.lastLogIndex + 1) :
    Evolves node (node.appendOwnEntry entry).1 := by
  rw [appendOwnEntry, appendEntries_single]
  have change : node.extent.Change { node.extent with
      log := node.extent.before 0 ++ [entry]
      lastLogIndex := entry.index
      lastLogTerm := entry.term } :=
    .stored (fun zero => absurd rfl zero) ⟨next, trivial⟩ rfl
  exact .single change

theorem acceptLeader_extent (node : Node) (term : Nat) (leader : NodeID) :
    (node.acceptLeader term leader).extent = node.extent := by
  rcases node.acceptLeader_frame term leader with ⟨_, _, _, _, _, _, _, _, _, _, frame⟩
  rw [frame]
  rfl

theorem appendEntries_last (node : Node) (ends : entries.getLast? = some last) :
    node.appendEntries entries = { node with
      log := node.log ++ entries
      lastLogIndex := last.index
      lastLogTerm := last.term } := by
  rw [appendEntries, List.getLast?_append, ends]
  rfl

theorem replaceSuffix_extent (node : Node) (ends : newEntries.getLast? = some last)
    (truncateFrom : Nat) :
    (node.replaceSuffix newEntries truncateFrom).extent = { node.extent with
      log := node.extent.before truncateFrom ++ newEntries
      lastLogIndex := last.index
      lastLogTerm := last.term } := by
  rw [replaceSuffix, appendEntries_last _ ends, Extent.before]
  by_cases zero : truncateFrom = 0
  · rw [if_neg (not_not_intro zero), if_pos zero]
    rfl
  · rw [if_pos zero, if_neg zero]
    rfl

theorem storeEntries_evolves (request : AppendEntries) {truncateFrom : Nat}
    (isNew : newEntries ≠ []) (cut : truncateFrom ≠ 0 → node.journal.CutAt truncateFrom)
    (consecutive :
      Consecutive LogEntry.index (node.journal.keep truncateFrom).lastLogIndex newEntries) :
    Evolves node (node.storeEntries request newEntries truncateFrom).1 := by
  have ends := List.getLast?_eq_some_getLast isNew
  have bounds : truncateFrom ≠ 0 →
      node.extent.commitIndex < truncateFrom ∧ truncateFrom ≤ node.extent.lastLogIndex :=
    fun nonzero => ⟨(cut nonzero).above, (cut nonzero).within⟩
  have follows : Consecutive LogEntry.index (node.extent.lastBefore truncateFrom) newEntries := by
    rw [Book.keep] at consecutive
    rw [Extent.lastBefore]
    split_ifs at consecutive ⊢
    · exact consecutive
    · exact consecutive
  apply Evolves.single
  have change := Extent.Change.stored bounds follows ends
  rw [← node.replaceSuffix_extent ends] at change
  exact change

/-! ## Snapshots -/

theorem installSnapshotBase_evolves {request : InstallSnapshot}
    (newer : node.logBaseIndex < request.snapshotIndex)
    (agrees : request.snapshotIndex ≤ node.commitIndex →
      node.termAt request.snapshotIndex = request.snapshotTerm)
    (commit : node.commitIndex ≤ node.lastLogIndex) :
    Evolves node (node.installSnapshotBase request) := by
  by_cases matched : request.snapshotIndex ≤ node.lastLogIndex ∧
      node.termAt request.snapshotIndex = request.snapshotTerm
  · rw [installSnapshotBase_matched matched rfl]
    have change : node.extent.Change (node.extent.install request.snapshotIndex
        (node.extent.termAt request.snapshotIndex) _ _ _) :=
      .installed newer matched.1 rfl
    rw [show node.extent.termAt request.snapshotIndex = request.snapshotTerm from
      matched.2] at change
    exact .single change
  · rw [installSnapshotBase_unmatched matched]
    have above : node.commitIndex < request.snapshotIndex := by
      by_contra inside
      have inside := Nat.not_lt.mp inside
      exact matched ⟨Nat.le_trans inside commit, agrees inside⟩
    exact .single (.started above)

theorem compactLog_evolves (index term : Nat) : Evolves node (node.compactLog index term) := by
  rw [compactLog]
  split_ifs with refused
  · exact .quiet rfl
  · simp only [not_or, Nat.not_le, Nat.not_lt, not_not] at refused
    rcases refused with ⟨above, isApplied, isTerm⟩
    rw [← isTerm]
    exact .single (.compacted above isApplied)

/-! ## Every transition -/

/-- Batches are numbered after the position they follow, and an installed
Snapshot of something committed has the Term of the Node's own entry. -/
def wellPosed (node : Node) : Event → Bool
  | .appendEntries request =>
      decide (Consecutive LogEntry.index request.prevLogIndex request.entries)
  | .installSnapshot request =>
      !request.installed || decide (request.term < node.term) ||
        decide (request.snapshotIndex ≤ node.logBaseIndex) ||
        decide (node.commitIndex < request.snapshotIndex) ||
        decide (node.termAt request.snapshotIndex = request.snapshotTerm)
  | _ => true

variable {origin middle : Node} {event : Event} {result : Node × List Action}

theorem Body.evolves (body : Body event origin node result)
    (commit : node.commitIndex ≤ node.lastLogIndex) (posed : node.wellPosed event) :
    Evolves node result.1 := by
  cases body with
  | quiet keeps =>
      rcases keeps with ⟨_, rfl⟩
      exact .quiet rfl
  | appended _ _ next => exact appendOwnEntry_evolves next
  | @stored request _ _ isRequest _ _ taken isNew =>
      subst isRequest
      rcases entriesToAppendFrom_placed request.entries request.prevLogIndex
        (of_decide_eq_true posed) taken isNew with ⟨cut, follows⟩
      exact storeEntries_evolves request isNew cut follows
  | committed rises within keeps _ kept =>
      rcases keeps with ⟨_, rfl⟩
      rcases kept with ⟨_, rfl⟩
      exact .single (.committed rises.le within)
  | applied _ within => exact applyThrough_evolves within
  | @installed request _ isRequest current isInstalled newer =>
      subst isRequest
      apply installSnapshotBase_evolves newer _ commit
      intro inside
      simp only [wellPosed, isInstalled, current, Bool.not_true, Bool.false_or, Bool.or_eq_true,
        decide_eq_true_eq] at posed
      omega
  | compacted => exact compactLog_evolves ..

theorem Reaches.extent (reaches : Reaches node middle) : middle.extent = node.extent := by
  rcases reaches.same with ⟨_, _, rfl⟩
  rfl

theorem Reaches.wellPosed (reaches : Reaches node middle) (posed : node.wellPosed event) :
    middle.wellPosed event := by
  have rises := reaches.term
  rcases reaches.same with ⟨_, _, rfl⟩
  cases event with
  | installSnapshot request =>
      simp only [Node.wellPosed, Bool.or_eq_true, decide_eq_true_eq] at posed ⊢
      exact posed.imp_left fun early => early.imp_left fun early => early.imp_left fun early =>
        early.imp_right fun stale => Nat.lt_of_lt_of_le stale rises
  | _ => exact posed

theorem step_evolves (commit : node.commitIndex ≤ node.lastLogIndex) {event : Event}
    (posed : node.wellPosed event) : Evolves node (node.step event).1 := by
  have course := node.step_course event
  generalize node.step event = result at course ⊢
  cases course with
  | @acts _ middle _ _ _ reach body =>
      have same := reach.reaches.extent
      have within : middle.commitIndex ≤ middle.lastLogIndex := by
        rw [show middle.commitIndex = node.commitIndex from congrArg Extent.commitIndex same,
          show middle.lastLogIndex = node.lastLogIndex from congrArg Extent.lastLogIndex same]
        exact commit
      have evolves := body.evolves within (reach.reaches.wellPosed posed)
      exact ((Evolves.quiet same).trans evolves).termChange
  | votes ballots => exact (Evolves.quiet ballots.elects.1.extent).termChange
  | @wins response =>
      have appended : Evolves (node.recordVote response.sender).becomeLeader
          ((node.recordVote response.sender).becomeLeader.appendOwnEntry
            (node.recordVote response.sender).noOp).1 := appendOwnEntry_evolves rfl
      exact (Evolves.quiet rfl).trans (appended.trans (.quiet rfl))
  | ignored => exact .quiet rfl
  | released => exact .quiet rfl
  | @written persistenceID pending _ _ body =>
      have completed : (node.completeLog persistenceID pending).extent = node.extent := rfl
      exact (Evolves.quiet completed).trans (body.evolves commit rfl)
  | @completed persistenceID pending _ found isApplied =>
      subst isApplied
      have completed : Evolves node (node.completeCommit persistenceID pending) :=
        .single (.completed found)
      exact completed.trans (applyThrough_evolves (Nat.le_max_right ..))

end Node

/-! ## Runs -/

namespace Applier

/-- What a core can start from. The entries follow the Snapshot, or are the
whole log, and what is committed is found. -/
inductive Startable (recovered : RecoveredState) : Prop
  | following : Consecutive LogEntry.index recovered.snapshotIndex recovered.log →
      recovered.snapshotIndex ≤ recovered.commitIndex →
      recovered.commitIndex ≤ recovered.snapshotIndex + recovered.log.length →
      Startable recovered
  | whole : Consecutive LogEntry.index 0 recovered.log →
      recovered.snapshotIndex ≤ recovered.commitIndex →
      recovered.commitIndex ≤ recovered.log.length → Startable recovered

/-- The entries of the first Term up to a position. -/
def firstEntries (count : Nat) : List LogEntry :=
  (List.range' 1 count).map fun index => { index := index, term := 1, type := .noOp }

/-- A request of the first Leader. -/
def firstRequest (prevLogIndex : Nat) (entries : List LogEntry) (leaderCommit : Nat) : Event :=
  .appendEntries {
    sender := "a"
    term := 1
    requestID := 1
    prevLogIndex := prevLogIndex
    prevLogTerm := if prevLogIndex = 0 then 0 else 1
    entries := entries
    leaderCommit := leaderCommit
    readID := 0 }

/-- A Snapshot of the first Leader, as the core sees it once it is installed. -/
def firstSnapshot (snapshotIndex : Nat) : Event :=
  .installSnapshot {
    sender := "a"
    term := 1
    requestID := 2
    snapshotIndex := snapshotIndex
    snapshotTerm := 1
    length := 0
    checksum := 0
    offset := 0
    data := []
    done := true
    success := true
    installed := true }

/-- A Follower takes three entries, which become durable and are applied. -/
def takesThree : List Event :=
  [firstRequest 0 (firstEntries 3) 3, .hardStatePersisted 1, .logEntriesPersisted 1,
    .commitIndexPersisted 1]

end Applier

namespace Node

variable {node : Node}

theorem start_represented {recovered : RecoveredState} (startable : Applier.Startable recovered)
    (id : NodeID) (peers : List NodeID) :
    (newNodeFromRecoveredState id peers recovered).extent.Represented := by
  have located : ∀ {found : RecoveredState},
      Consecutive LogEntry.index found.snapshotIndex found.log →
      found.snapshotIndex ≤ found.commitIndex →
      found.commitIndex ≤ found.snapshotIndex + found.log.length →
      (newNodeFromRecoveredState id peers found).extent.Represented := by
    intro found consecutive snapshot commit
    rw [newNode_consecutive consecutive]
    exact ⟨consecutive, rfl, rfl, Nat.le_refl _, snapshot, commit, Nat.le_refl _, nofun⟩
  cases startable with
  | following consecutive snapshot commit => exact located consecutive snapshot commit
  | whole consecutive snapshot commit =>
      rcases newNode_whole consecutive (Nat.le_trans snapshot commit) id peers with
        ⟨snapshotTerm, same, rest⟩
      rw [same]
      apply located
      · exact rest
      · exact snapshot
      · simp only [List.length_drop]
        omega

/-- One incarnation of a core, by itself. -/
def system (id : NodeID) (peers : List NodeID) (recovered : RecoveredState) : System Node Event :=
  .ofNext (newNodeFromRecoveredState id peers recovered) fun node event => some (node.step event).1

/-- The index and slice expressions on the log stay within it, for every
argument that passes the checks before them. -/
structure InBounds (node : Node) : Prop where
  termAt : ∀ index, node.logBaseIndex < index → index ≤ node.lastLogIndex →
    index - node.logBaseIndex - 1 < node.log.length
  entriesBatch : ∀ first last, node.logBaseIndex < first → first ≤ last →
    last ≤ node.lastLogIndex →
    first - node.logBaseIndex - 1 ≤ last - node.logBaseIndex ∧
      last - node.logBaseIndex ≤ node.log.length
  truncateLog : ∀ prevIndex entries newEntries first,
    node.entriesToAppend prevIndex entries = some (newEntries, first) → first ≠ 0 →
    node.logBaseIndex < first ∧ first - node.logBaseIndex - 1 ≤ node.log.length
  compactLog : ∀ index, node.logBaseIndex < index → index ≤ node.lastApplied →
    index - node.logBaseIndex ≤ node.log.length
  applyThrough : ∀ index position, index ≤ node.commitIndex → node.lastApplied < position →
    position ≤ index →
    node.logBaseIndex < position ∧ position - node.logBaseIndex - 1 < node.log.length

/-- New entries replace only what is in the log and not committed. -/
theorem entriesToAppendFrom_cut {wantIndex first : Nat}
    (taken : node.entriesToAppendFrom wantIndex entries = some (newEntries, first))
    (nonzero : first ≠ 0) : node.commitIndex < first ∧ first ≤ node.lastLogIndex := by
  induction entries generalizing wantIndex with
  | nil =>
      cases taken
      exact absurd rfl nonzero
  | cons entry rest induction =>
      rw [entriesToAppendFrom] at taken
      split_ifs at taken with misplaced inside differs committed
      · cases taken
        exact ⟨Nat.not_le.mp committed, inside⟩
      · exact induction taken
      · cases taken
        exact absurd rfl nonzero

theorem inBounds_of_represented (represented : node.extent.Represented) :
    node.InBounds := by
  have last : node.lastLogIndex = node.logBaseIndex + node.log.length := represented.last
  have base : node.logBaseIndex ≤ node.lastApplied := represented.base
  have applied : node.lastApplied ≤ node.commitIndex := represented.applied
  have commit : node.commitIndex ≤ node.lastLogIndex := represented.commit
  constructor
  · intro index above inside
    omega
  · intro first final above ordered inside
    omega
  · intro prevIndex entries newEntries first taken nonzero
    have cut := entriesToAppendFrom_cut taken nonzero
    omega
  · intro index above isApplied
    omega
  · intro index position committed above within
    omega

/-- In every run whose batches are consecutive, whose Snapshots agree with what
is committed and which exhausts no counter, the log is numbered from its base
on, its bounds are in their order, and every access to it is within them. -/
theorem log_represented {recovered : RecoveredState} (startable : Applier.Startable recovered)
    (id : NodeID) (peers : List NodeID) {node : Node}
    (reachable : (system id peers recovered).Reachable
      (fun node event => node.inRange event && node.wellPosed event) node) :
    (∀ offset entry, node.log[offset]? = some entry →
        entry.index = node.logBaseIndex + offset + 1) ∧
      node.lastLogIndex = node.logBaseIndex + node.log.length ∧
      node.lastLogTerm = node.termAt node.lastLogIndex ∧
      node.logBaseIndex ≤ node.lastApplied ∧ node.lastApplied ≤ node.commitIndex ∧
      node.commitIndex ≤ node.lastLogIndex ∧ node.durableCommitIndex ≤ node.commitIndex ∧
      (∀ persistenceID pending, node.pendingCommit persistenceID = some pending →
        pending.commitIndex ≤ node.commitIndex) ∧
      node.InBounds := by
  have represented : node.extent.Represented := by
    apply reachable.invariant fun node => node.extent.Represented
    · rintro _ rfl
      exact start_represented startable id peers
    · rintro before event after represented permitted taken
      rw [← Option.some.inj taken]
      exact represented.changes
        (step_evolves represented.commit (Bool.and_eq_true_iff.mp permitted).2)
  exact ⟨fun offset entry => represented.consecutive.position_eq, represented.last,
    represented.termAt_last.symm, represented.base, represented.applied, represented.commit,
    represented.durable, represented.pending, inBounds_of_represented represented⟩

/-- A Follower that takes three entries, and then a Snapshot of the second. -/
theorem log_represented_three : ∃ node : Node,
    (node.logBaseIndex, node.log.length, node.lastApplied, node.commitIndex) = (2, 1, 2, 3) ∧
      node.lastLogIndex = node.logBaseIndex + node.log.length ∧ node.InBounds := by
  have startable : Applier.Startable {} := .following trivial (Nat.le_refl _) (Nat.le_refl _)
  have run : (System.execute (fun node event => some (node.step event).1)
      (fun node event => node.inRange event && node.wellPosed event)
      (Applier.takesThree ++ [Applier.firstSnapshot 2])
      (newNodeFromRecoveredState "b" ["a", "c"] {})).map
      (fun node => (node.logBaseIndex, node.log.length, node.lastApplied, node.commitIndex)) =
      some (2, 1, 2, 3) := by
    decide +kernel
  rcases System.reachable_of_execute (fun _ _ permitted => permitted) run with
    ⟨node, reachable, observed⟩
  rcases log_represented startable "b" ["a", "c"] reachable with ⟨_, last, _, _, _, _, _, _, within⟩
  exact ⟨node, observed, last, within⟩

/-- The last position there is arrives as a Snapshot, and the Node stands for
election. -/
def exhaustedRun : List Event :=
  [Applier.firstSnapshot (2 ^ 64 - 1), .hardStatePersisted 1, .electionTimeout,
    .preVoteResponse { sender := "a", term := 2, currentTerm := 1, granted := true },
    .hardStatePersisted 2]

def grantedVote : VoteResponse where
  sender := "a"
  term := 2
  granted := true

/-- Every step of the run computes in 64 bits what it computes in the model. The
no-op of the new Leader then gets position zero, so that its log ends before
what is committed. -/
theorem log_wraps_exhausted : ∃ candidate : Node,
    (system "b" ["a", "c"] {}).Reachable (fun node event => node.wellPosed event) candidate ∧
      let leader := (candidate.wrappedVoteResponse grantedVote).1
      leader.role = .leader ∧ leader.log.map LogEntry.index = [0] ∧
        leader.logBaseIndex = 2 ^ 64 - 1 ∧ leader.lastLogIndex < leader.commitIndex := by
  have run : (System.execute (fun node event => some (node.step event).1)
      (fun node event => node.wellPosed event) exhaustedRun
      (newNodeFromRecoveredState "b" ["a", "c"] {})).map
      (fun candidate =>
        let leader := (candidate.wrappedVoteResponse grantedVote).1
        (leader.role, leader.log.map LogEntry.index, leader.logBaseIndex,
          decide (leader.lastLogIndex < leader.commitIndex))) =
      some (.leader, [0], 2 ^ 64 - 1, true) := by
    decide +kernel
  rcases System.reachable_of_execute (fun _ _ permitted => permitted) run with
    ⟨candidate, reachable, observed⟩
  simp only [Prod.mk.injEq, decide_eq_true_eq] at observed
  exact ⟨candidate, reachable, observed⟩

end Node

end Ternion.Raft
