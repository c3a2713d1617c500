import Ternion.Raft.Matching
import Ternion.Runtime.Turn

/-! # The store holds what the core holds

Between two steps of the runtime the store agrees with the core, so a Node
that restarts loses only what was never durable: its role and what it knows
about its peers.
-/

namespace Ternion.Raft

theorem filter_index_lt {first : Nat} (log : List LogEntry) (start : Nat)
    (indexed : ∀ offset entry, log[offset]? = some entry → entry.index = start + offset + 1) :
    (log.filter fun entry => entry.index < first) = log.take (first - 1 - start) := by
  induction log generalizing start with
  | nil => simp
  | cons entry rest induction =>
      have here : entry.index = start + 1 := indexed 0 entry rfl
      have later := induction (start + 1) fun offset found isFound => by
        have := indexed (offset + 1) found (by simpa using isFound)
        omega
      by_cases below : entry.index < first
      · rw [List.filter_cons_of_pos (by simpa using below), later,
          show first - 1 - start = first - 1 - (start + 1) + 1 by omega, List.take_succ_cons]
      · rw [List.filter_cons_of_neg (by simpa using below), later,
          show first - 1 - (start + 1) = 0 by omega, show first - 1 - start = 0 by omega]
        simp

theorem Indexed.filter_lt {log : List LogEntry} (indexed : Indexed log) (first : Nat) :
    (log.filter fun entry => entry.index < first) = log.take (first - 1) := by
  have cut : (log.filter fun entry => entry.index < first) = log.take (first - 1 - 0) :=
    filter_index_lt log 0 fun offset entry found => by
      have := indexed offset entry found
      omega
  exact cut

end Ternion.Raft

namespace Ternion.RaftRuntime

open Raft

namespace Store

@[simp] theorem writeAll_nil (store : Store) : store.writeAll [] = store := rfl

@[simp] theorem writeAll_cons (store : Store) (write : Write) (writes : List Write) :
    store.writeAll (write :: writes) = (store.write write).writeAll writes := rfl

theorem writeAll_append (store : Store) (first second : List Write) :
    store.writeAll (first ++ second) = (store.writeAll first).writeAll second :=
  List.foldl_append ..

theorem writeAll_entries (store : Store) (entries : List LogEntry) :
    store.writeAll (entries.map .saveLogEntry) = { store with log := store.log ++ entries } := by
  induction entries generalizing store with
  | nil => simp
  | cons entry rest induction =>
      rw [List.map_cons, writeAll_cons, induction]
      simp [write]

theorem writeAll_storeWrites {store : Store} (indexed : Indexed store.log)
    (newEntries : List LogEntry) (truncateFrom : Nat) :
    store.writeAll (storeWrites newEntries truncateFrom) = { store with
      log := Node.keptLog store.log truncateFrom ++ newEntries } := by
  rw [storeWrites, writeAll_append, writeAll_entries, Node.keptLog]
  split_ifs
  · simp [write, indexed.filter_lt]
  · rfl

theorem storeWrites_take (newEntries : List LogEntry) (truncateFrom count : Nat) :
    (storeWrites newEntries truncateFrom).take count = [] ∨
      ∃ saved, (storeWrites newEntries truncateFrom).take count =
        storeWrites (newEntries.take saved) truncateFrom := by
  unfold storeWrites
  split_ifs
  · cases count with
    | zero => exact .inl rfl
    | succ count => exact .inr ⟨count, by simp [List.map_take]⟩
  · exact .inr ⟨count, by simp [List.map_take]⟩

end Store

theorem Store.recovered_uncompacted (store : Store) :
    ¬(0 < store.recovered.snapshotIndex ∧
      store.recovered.log.head?.map LogEntry.index = some 1 ∧
      store.recovered.snapshotIndex ≤ store.recovered.log.length) := by
  simp [Store.recovered]

structure Synced (core : Node) (store : Store) : Prop extends core.Durable where
  durableHardState : HardStateDurable core
  storedHardState : store.hardState = ⟨core.term, core.votedFor⟩
  storedLog : store.log = core.log
  storedCommit : store.commitIndex = core.commitIndex

theorem whole_of_holdings {node after : Node} (holds : holdings after = holdings node)
    (whole : node.Whole) : after.Whole where
  base := (congrArg Holdings.logBaseIndex holds).trans whole.base
  baseTerm := (congrArg Holdings.logBaseTerm holds).trans whole.baseTerm
  indexed := by
    have log := congrArg Holdings.log holds
    simp only [holdings] at log
    rw [log]
    exact whole.indexed
  lastIndex := by
    have last := congrArg Holdings.lastLogIndex holds
    have log := congrArg Holdings.log holds
    simp only [holdings] at last log
    rw [last, log, whole.lastIndex]
  lastTerm := by
    have last := congrArg Holdings.lastLogTerm holds
    have log := congrArg Holdings.log holds
    simp only [holdings] at last log
    rw [last, log, whole.lastTerm]

theorem durable_of_holdings {node after : Node} (holds : holdings after = holdings node)
    (durable : node.Durable) : after.Durable where
  hardState := (congrArg Holdings.pendingHardState holds).trans durable.hardState
  log := (congrArg Holdings.pendingLog holds).trans durable.log
  commit := (congrArg Holdings.pendingCommit holds).trans durable.commit
  log_le := by
    have last := congrArg Holdings.lastLogIndex holds
    have durableLast := congrArg Holdings.durableLogIndex holds
    simp only [holdings] at last durableLast
    rw [last, durableLast]
    exact durable.log_le
  commit_eq := by
    have commit := congrArg Holdings.commitIndex holds
    have durableCommit := congrArg Holdings.durableCommitIndex holds
    simp only [holdings] at commit durableCommit
    rw [commit, durableCommit]
    exact durable.commit_eq
  above := by
    have base := congrArg Holdings.logBaseIndex holds
    have applied := congrArg Holdings.lastApplied holds
    simp only [holdings] at base applied
    rw [base, applied]
    exact durable.above

namespace Synced

variable {node after : Node} {store : Store}

theorem recovered (id : NodeID) (peers : List NodeID) (store : Store) :
    Synced (.newNodeFromRecoveredState id peers store.recovered) store := by
  simp only [Node.newNodeFromRecoveredState]
  rw [if_neg store.recovered_uncompacted]
  cases last : store.recovered.log.getLast? with
  | none =>
      have empty : store.log = [] := List.getLast?_eq_none_iff.mp last
      exact ⟨⟨⟨rfl, rfl, rfl⟩, le_rfl, rfl, le_rfl⟩, ⟨rfl, rfl⟩, rfl, empty, rfl⟩
  | some entry => exact ⟨⟨⟨rfl, rfl, rfl⟩, le_rfl, rfl, le_rfl⟩, ⟨rfl, rfl⟩, rfl, rfl, rfl⟩

variable (synced : Synced node store)

include synced

theorem of_holdings (holds : holdings after = holdings node)
    (term : after.term = node.term) (vote : after.votedFor = node.votedFor)
    (durableHardState : HardStateDurable after) : Synced after store where
  toDurable := durable_of_holdings holds synced.toDurable
  durableHardState := durableHardState
  storedHardState := by rw [term, vote, synced.storedHardState]
  storedLog := synced.storedLog.trans (congrArg Holdings.log holds).symm
  storedCommit := synced.storedCommit.trans (congrArg Holdings.commitIndex holds).symm

theorem hardStateSaved (holds : holdings after = holdings node) :
    Synced after.hardStateSaved (store.write (.saveHardState ⟨after.term, after.votedFor⟩)) := by
  -- Only the hard state of the store and of the Node differ from a kept one.
  have renamed : Synced { node with
      term := after.term
      votedFor := after.votedFor
      durableTerm := after.term
      durableVotedFor := after.votedFor }
      (store.write (.saveHardState ⟨after.term, after.votedFor⟩)) := {
    hardState := synced.hardState
    log := synced.log
    commit := synced.commit
    log_le := synced.log_le
    commit_eq := synced.commit_eq
    above := synced.above
    durableHardState := ⟨rfl, rfl⟩
    storedHardState := rfl
    storedLog := synced.storedLog
    storedCommit := synced.storedCommit }
  exact renamed.of_holdings holds rfl rfl ⟨rfl, rfl⟩

theorem sendAppendEntries (readID : ReadID) :
    Synced (node.sendAppendEntries readID).1 store := by
  rcases node.sendAppendEntries_frame readID with ⟨_, _, _, frame⟩
  rw [frame]
  exact synced.of_holdings rfl rfl rfl synced.durableHardState

theorem sendAppendEntriesTo (peer : NodeID) (readID : ReadID) :
    Synced (node.sendAppendEntriesTo peer readID).1 store := by
  rcases node.sendAppendEntriesTo_frame peer readID with ⟨_, _, _, frame⟩
  rw [frame]
  exact synced.of_holdings rfl rfl rfl synced.durableHardState

theorem acknowledgeRead (response : AppendEntriesResponse) :
    Synced (node.acknowledgeRead response).1 store := by
  rcases node.acknowledgeRead_frame response with ⟨_, frame⟩
  rw [frame]
  exact synced.of_holdings rfl rfl rfl synced.durableHardState

theorem recordResponse (response : AppendEntriesResponse) :
    Synced (node.recordResponse response) store := by
  rcases node.recordResponse_frame response with ⟨_, _, _, _, frame⟩
  rw [frame]
  exact synced.of_holdings rfl rfl rfl synced.durableHardState

theorem applyThrough (index : Nat) :
    Synced (node.applyThrough index).1 store := by
  rw [Node.applyThrough_eq node index synced.above]
  exact { synced with
    above := synced.above.trans (Nat.le_add_right _ _) }

theorem appended (entry : LogEntry) :
    Synced ((node.appendEntries [entry]).logSaved entry.index)
      (store.write (.saveLogEntry entry)) := by
  rw [Node.appendEntries_single]
  exact { synced with
    log_le := le_max_right _ _
    storedLog := by simp [Store.write, Node.logSaved, synced.storedLog] }

theorem committed {index : Nat} (advances : node.commitIndex ≤ index) :
    Synced { node with commitIndex := index }.commitSaved
      (store.write (.saveCommitIndex index)) where
  hardState := synced.hardState
  log := synced.log
  commit := synced.commit
  log_le := synced.log_le
  commit_eq := by
    have := synced.commit_eq
    simp only [Node.commitSaved]
    omega
  above := synced.above
  durableHardState := synced.durableHardState
  storedHardState := synced.storedHardState
  storedLog := synced.storedLog
  storedCommit := rfl

theorem stored (whole : node.Whole) {newEntries : List LogEntry}
    (some_ : newEntries ≠ []) (truncateFrom : Nat) :
    Synced (RaftRuntime.stored node newEntries truncateFrom)
      (store.writeAll (storeWrites newEntries truncateFrom)) := by
  have indexed : Indexed store.log := synced.storedLog ▸ whole.indexed
  rcases node.replaceSuffix_frame newEntries truncateFrom with ⟨_, _, _, _, frame⟩
  have sameLog : (node.replaceSuffix newEntries truncateFrom).log =
      Node.keptLog node.log truncateFrom ++ newEntries := by
    have appendLog : ∀ target : Node, (target.appendEntries newEntries).log =
        target.log ++ newEntries := by
      intro target
      have lastFound := List.getLast?_eq_some_getLast
        (List.append_ne_nil_of_right_ne_nil target.log some_)
      simp only [Node.appendEntries, lastFound]
    simp only [Node.replaceSuffix, Node.keptLog]
    split_ifs
    · rw [appendLog]
      simp [Node.truncateLog, whole.base]
    · exact appendLog node
  rw [Store.writeAll_storeWrites indexed]
  simp only [RaftRuntime.stored]
  constructor
  case storedLog =>
    simp only [Node.logSaved, sameLog, synced.storedLog]
  case storedHardState => simp only [Node.logSaved, frame, synced.storedHardState]
  case storedCommit => simp only [Node.logSaved, frame, synced.storedCommit]
  case durableHardState =>
    simp only [Node.logSaved, frame]
    exact synced.durableHardState
  case toDurable =>
    constructor
    case toIdle =>
      simp only [Node.logSaved, frame]
      exact ⟨synced.hardState, synced.log, synced.commit⟩
    case log_le => exact le_max_right _ _
    case commit_eq => simp only [Node.logSaved, frame, synced.commit_eq]
    case above => simpa only [Node.logSaved, frame] using synced.above

/-! ## Steps -/

theorem replicate (entry : LogEntry) {next : NodeID → Nat} (before : List Action) :
    Synced (replicateNow { node.appendEntries [entry] with nextIndex := next } entry before).core
      (store.writeAll (replicateNow { node.appendEntries [entry] with nextIndex := next } entry
        before).writes) := by
  have appended := synced.appended entry
  have supplied : Synced ({ node.appendEntries [entry] with nextIndex := next }.logSaved
      entry.index) (store.write (.saveLogEntry entry)) :=
    appended.of_holdings rfl rfl rfl appended.durableHardState
  exact supplied.sendAppendEntries 0

theorem confirm (request : AppendEntries) :
    Synced (confirmNow node request).core (store.writeAll (confirmNow node request).writes) := by
  simp only [confirmNow, followCommit]
  split_ifs with behind
  · exact (synced.committed behind.le).applyThrough _
  · exact synced.applyThrough _

theorem takeEntries (whole : node.Whole) (request : AppendEntries) :
    Synced (takeEntriesNow node request).core
      (store.writeAll (takeEntriesNow node request).writes) := by
  unfold takeEntriesNow
  split_ifs
  · cases node.entriesToAppend request.prevLogIndex request.entries with
    | none => exact synced
    | some suffix =>
        simp only
        split_ifs with some_
        · simp only [Outcome.wrote, Store.writeAll_append]
          exact (synced.stored whole some_ suffix.2).confirm request
        · exact synced.confirm request
  · exact synced

theorem follow {term : Nat} (leader : NodeID) (reached : node.term ≤ term) :
    Synced (followNow node term leader) (store.writeAll (reachWrites node term)) := by
  rcases node.acceptLeader_frame term leader with ⟨_, _, _, _, _, _, _, _, _, _, frame⟩
  have holds : holdings (node.acceptLeader term leader) = holdings node := by
    rw [frame]
    rfl
  unfold followNow reachWrites
  split_ifs with newer
  · have saved := synced.hardStateSaved holds
    rw [Node.acceptLeader_term reached, Node.acceptLeader_votedFor newer] at saved
    exact saved
  · have current : node.acceptLeader term leader = { node with
        role := .follower, leaderID := leader, readReady := false
        recentLeaderContact := true } := by
      simp only [Node.acceptLeader, if_neg newer]
    rw [current]
    exact synced.of_holdings rfl rfl rfl synced.durableHardState

theorem commits {advanced : Node}
    (advances : node.advanceLeaderCommit = some advanced) (response : AppendEntriesResponse) :
    Synced (commitNow advanced response).core
      (store.writeAll (commitNow advanced response).writes) := by
  rcases Option.map_eq_some_iff.mp advances with ⟨index, candidate, rfl⟩
  have saved := synced.committed (Node.commitCandidate_bounds candidate).1.le
  rcases Node.sendAppendEntries_frame { node with commitIndex := index } 0 with ⟨_, _, _, sent⟩
  rcases ({ node with commitIndex := index }.sendAppendEntries 0).1.acknowledgeRead_frame response
    with ⟨_, reads⟩
  have acknowledged : Synced
      (({ node with commitIndex := index }.sendAppendEntries 0).1.acknowledgeRead
        response).1.commitSaved (store.write (.saveCommitIndex index)) := by
    rw [reads, sent]
    exact saved.of_holdings rfl rfl rfl saved.durableHardState
  exact acknowledged.applyThrough index

theorem supplies (pending : PendingAppend) (response : AppendEntriesResponse) :
    Synced (supplyNow node pending response).core
      (store.writeAll (supplyNow node pending response).writes) := by
  simp only [supplyNow]
  split_ifs
  · exact (synced.sendAppendEntriesTo _ _).acknowledgeRead response
  · exact synced.acknowledgeRead response

theorem turn {event : Event} {outcome : Outcome}
    (whole : node.Whole) (turn : Turn node event outcome) :
    Synced outcome.core (store.writeAll outcome.writes) := by
  cases turn with
  | kept calm term vote durable _ => exact synced.of_holdings calm.holds term vote durable
  | saved calm _ => exact synced.hardStateSaved calm.holds
  | heartbeat =>
      have expired : Synced node.expireAppends store :=
        synced.of_holdings rfl rfl rfl synced.durableHardState
      exact expired.sendAppendEntries 0
  | registered readID =>
      have registered : Synced (node.registerRead readID) store :=
        synced.of_holdings rfl rfl rfl synced.durableHardState
      exact registered.sendAppendEntries readID
  | @led response =>
      have leading : Synced (node.recordVote response.sender).becomeLeader store :=
        synced.of_holdings rfl rfl rfl synced.durableHardState
      exact leading.replicate _ _
  | proposed => exact synced.replicate _ _
  | recovered => exact synced.applyThrough _
  | stale => exact synced
  | @followed request reached =>
      have following := synced.follow request.sender reached
      have wholeStill : (followNow node request.term request.sender).Whole :=
        whole_of_holdings (holdings_followNow node _ _) whole
      simp only [Outcome.wrote, Outcome.emits, Store.writeAll_append]
      exact following.takeEntries wholeStill request
  | committed _ _ _ advances => exact (synced.recordResponse _).commits advances _
  | answered => exact (synced.recordResponse _).supplies _ _

end Synced

end Ternion.RaftRuntime
