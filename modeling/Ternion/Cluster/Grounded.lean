import Ternion.Cluster.Production
import Ternion.Cluster.Refinement
import Ternion.Runtime.Loop
import Ternion.Runtime.Synced

/-! # The ledger follows a Cluster in production

A step of the runtime makes the moves of its first transition. The completions
that its loop delivers move nothing. A crash between two writes leaves a store
that further moves of the same kind account for, so a restarted Node is tracked
as well.
-/

namespace Ternion.Cluster

open Consensus Raft RaftRuntime

variable {membership : Membership} {ledger after : Ledger NodeID LogEntry} {node : Node}

/-! ## The loop moves nothing -/

section

variable (tracks : Tracks membership ledger (view node)) (sane : Sane membership ledger)
include tracks sane

theorem completion_refines {action : Action} {event : Event}
    (completes : completion action = some event) :
    RefinesTo membership ledger (view node) (node.step event) ledger := by
  apply completion_stands tracks sane
  cases action <;> cases completes <;> rfl

end

/-- A completion changes neither role nor Term. -/
theorem completion_standing (node : Node) {action : Action} {event : Event}
    (completes : completion action = some event) :
    (node.step event).1.role = node.role ∧ (node.step event).1.term = node.term := by
  have follows : ∀ (target : Node) leaderCommit answer,
      (target.advanceFollowerCommit leaderCommit answer).1.role = target.role ∧
        (target.advanceFollowerCommit leaderCommit answer).1.term = target.term := by
    intro target leaderCommit answer
    rcases target.applyThrough_frame target.durableCommitIndex with ⟨_, _, _, frame⟩
    simp only [Node.advanceFollowerCommit, frame]
    split_ifs <;> exact ⟨rfl, rfl⟩
  cases action with
  | persistHardState persistenceID _ _ =>
      cases completes
      simp only [Node.step, Node.hardStatePersisted]
      split <;> exact ⟨rfl, rfl⟩
  | persistLogEntries persistenceID _ _ =>
      cases completes
      simp only [Node.step, Node.logEntriesPersisted]
      cases node.pendingLog persistenceID with
      | none => exact ⟨rfl, rfl⟩
      | some pending =>
          simp only [Node.continueLog]
          cases pending.purpose with
          | persistLeaderEntry =>
              rcases (node.completeLog persistenceID pending).sendAppendEntries_frame 0 with
                ⟨_, _, _, frame⟩
              simp only
              split_ifs
              · exact ⟨rfl, rfl⟩
              · rw [frame]
                exact ⟨rfl, rfl⟩
          | persistFollowerAppend =>
              simp only
              split_ifs
              · exact ⟨rfl, rfl⟩
              · exact follows _ _ _
  | persistCommitIndex persistenceID _ =>
      cases completes
      simp only [Node.step, Node.commitIndexPersisted]
      cases node.pendingCommit persistenceID with
      | none => exact ⟨rfl, rfl⟩
      | some pending =>
          rcases (node.completeCommit persistenceID pending).applyThrough_frame pending.commitIndex
            with ⟨_, _, _, frame⟩
          simp only [frame]
          exact ⟨rfl, rfl⟩
  | _ => cases completes

/-- The Node at the end of a loop is tracked, and what the loop emits is sound. -/
theorem drained_tracks {pending : List Action} {outcome : Outcome}
    (drained : Drained node pending outcome) (sane : Sane membership ledger)
    (tracks : Tracks membership ledger (view node))
    (sound : ∀ action ∈ pending, Sound membership ledger action) :
    Tracks membership ledger (view outcome.core) ∧ outcome.core.id = node.id ∧
      outcome.core.role = node.role ∧ outcome.core.term = node.term ∧
      ∀ action ∈ outcome.emitted, Sound membership ledger action := by
  induction drained with
  | done core => exact ⟨tracks, rfl, rfl, rfl, by simp⟩
  | @persist core action pending event outcome completes _ induction =>
      have refines := completion_refines tracks sane completes
      rcases completion_standing core completes with ⟨sameRole, sameTerm⟩
      have later : ∀ action ∈ pending ++ (core.step event).2, Sound membership ledger action := by
        intro other present
        rcases List.mem_append.mp present with waiting | released
        · exact sound other (List.mem_cons_of_mem _ waiting)
        · exact refines.sound other released
      rcases induction refines.moved.tracks later with ⟨tracked, id, role, term, emitted⟩
      exact ⟨tracked, id.trans refines.moved.sameID, role.trans sameRole, term.trans sameTerm,
        emitted⟩
  | emit _ _ induction =>
      rcases induction tracks fun other present => sound other (List.mem_cons_of_mem _ present)
        with ⟨tracked, id, role, term, emitted⟩
      refine ⟨tracked, id, role, term, ?_⟩
      intro other present
      rcases List.mem_cons.mp present with rfl | later
      · exact sound _ List.mem_cons_self
      · exact emitted other later

/-- A whole step of the runtime refines. -/
theorem stepNow_refines (durable : node.Durable) (sane : Sane membership ledger)
    (tracks : Tracks membership ledger (view node)) {event : Event}
    (genuine : Genuine membership ledger node.id event) :
    ∃ after, RefinesTo membership ledger (view node)
      ((stepNow node event).core, (stepNow node event).emitted) after := by
  rcases step_refines tracks sane genuine with ⟨after, refines⟩
  rcases drained_tracks (stepNow_drained durable event) refines.moved.sane refines.moved.tracks
    refines.sound with ⟨tracked, id, role, term, sound⟩
  exact ⟨after, refines.moved.then_ tracked id role term, sound⟩

/-! ## Restarting -/

/-- The ledger records what a Node has written. -/
structure Recorded (membership : Membership) (ledger : Ledger NodeID LogEntry) (id : NodeID)
    (store : Store) : Prop where
  member : id ∈ membership.members
  term : ledger.term id = store.hardState.term
  vote : ledger.vote id store.hardState.term =
    if store.hardState.votedFor = "" then none else some store.hardState.votedFor
  log : ledger.log id = store.log
  indexed : Indexed store.log

theorem Tracks.recorded {store : Store} (tracks : Tracks membership ledger (view node))
    (synced : Synced node store) : Recorded membership ledger node.id store where
  member := tracks.member
  term := by
    rw [synced.storedHardState]
    exact tracks.term
  vote := by
    rw [synced.storedHardState]
    exact tracks.vote
  log := tracks.log.trans synced.storedLog.symm
  indexed := synced.storedLog ▸ tracks.whole.indexed

theorem newNodeFromRecoveredState_view (id : NodeID) (peers : List NodeID) {store : Store}
    (indexed : Indexed store.log) :
    view (.newNodeFromRecoveredState id peers store.recovered) = {
      id := id
      peers := peers.insertionSort (· ≤ ·)
      role := .follower
      term := store.hardState.term
      votedFor := store.hardState.votedFor
      votes := ∅
      logBaseIndex := 0
      logBaseTerm := 0
      log := store.log
      lastLogIndex := store.log.length
      lastLogTerm := lastTerm LogEntry.term store.log
      pendingHardState := fun _ => none
      pendingCommit := fun _ => none } := by
  simp only [Node.newNodeFromRecoveredState]
  rw [if_neg store.recovered_uncompacted]
  cases last : store.recovered.log.getLast? with
  | none =>
      have empty : store.log = [] := List.getLast?_eq_none_iff.mp last
      simp [view, Store.recovered, empty, lastTerm]
  | some entry =>
      have found : store.log[store.log.length - 1]? = some entry := by
        rw [← List.getLast?_eq_getElem?]
        exact last
      have length : store.log.length - 1 + 1 = store.log.length := by
        have := (List.getElem?_eq_some_iff.mp found).1
        omega
      have lastIndex : entry.index = store.log.length := (indexed _ _ found).trans length
      have lastTerm_ : lastTerm LogEntry.term store.log = entry.term := by
        rw [lastTerm, show store.log.getLast? = some entry from last]
        rfl
      simp [view, Store.recovered, lastIndex, lastTerm_]

/-- A Node that restarts from a recorded store is tracked. -/
theorem Recorded.tracks {id : NodeID} {store : Store}
    (recorded : Recorded membership ledger id store) :
    Tracks membership ledger
      (view (.newNodeFromRecoveredState id (membership.peersOf id) store.recovered)) := by
  rw [newNodeFromRecoveredState_view id _ recorded.indexed]
  exact { recorded with
    peers := List.perm_insertionSort _ _
    whole := ⟨rfl, rfl, recorded.indexed, rfl, rfl⟩
    candidate := fun active => by cases active
    leader := fun active => by cases active
    pendingHardState := fun found => by cases found
    pendingCommit := fun found => by cases found }

/-! ## Crashing between two writes -/

/-- Some moves account for a store that a crash left behind. -/
def Resumable (membership : Membership) (ledger : Ledger NodeID LogEntry) (id : NodeID)
    (store : Store) : Prop :=
  ∃ middle, membership.protocol.Moves id ledger middle ∧ Sane membership middle ∧
    Recorded membership middle id store

section

variable {id : NodeID} {store : Store} (sane : Sane membership ledger)
  (recorded : Recorded membership ledger id store)

include sane recorded

/-- Nothing was written yet. -/
theorem Recorded.resumable : Resumable membership ledger id store :=
  ⟨ledger, .refl, sane, recorded⟩

/-- A part of the Leader's log was written that keeps all agreement with it. -/
theorem Recorded.follow (led : ledger.leader store.hardState.term ≠ none) {count : Nat}
    (keeps : ∀ index, AgreeThrough store.log (ledger.leaderLog store.hardState.term) index →
      index ≤ count) :
    Resumable membership ledger id { store with
      log := (ledger.leaderLog store.hardState.term).take count } := by
  have move : membership.protocol.Move id ledger (ledger.follow id count) := by
    apply Protocol.Move.follow
    · rw [recorded.term]
      exact led
    · rw [recorded.term, recorded.log]
      exact keeps
  refine ⟨_, .single move, ⟨move.coherent sane.coherent, sane.indexed⟩, ?_⟩
  exact { recorded with
    log := by simp [Ledger.follow, recorded.term]
    indexed := (sane.indexed led).take count }

/-- A part of the writes that replace a suffix by entries of the Leader. -/
theorem Recorded.storeWrites
    (led : ledger.leader store.hardState.term ≠ none) {commitIndex reach truncateFrom : Nat}
    {newEntries : List LogEntry} (some_ : newEntries ≠ [])
    (intake : Node.Intake store.log (ledger.leaderLog store.hardState.term) commitIndex reach
      (some (newEntries, truncateFrom))) (count : Nat) :
    Resumable membership ledger id
      (store.writeAll ((RaftRuntime.storeWrites newEntries truncateFrom).take count)) := by
  rcases Store.storeWrites_take newEntries truncateFrom count with nothing | ⟨saved, part⟩
  · rw [nothing]
    exact recorded.resumable sane
  · rcases intake.kept some_ with ⟨shape, keeps⟩
    have cut : Node.keptLog store.log truncateFrom ++ newEntries.take saved =
        (ledger.leaderLog store.hardState.term).take
          (min ((Node.keptLog store.log truncateFrom).length + saved) reach) := by
      rw [← List.take_take, ← shape, List.take_length_add_append]
    have within : (Node.keptLog store.log truncateFrom).length ≤ reach := by
      have bounded := congrArg List.length shape
      simp only [List.length_append, List.length_take] at bounded
      omega
    rw [part, Store.writeAll_storeWrites recorded.indexed, cut]
    exact recorded.follow sane led fun index agree => by
      have := keeps index agree
      omega

end

/-- A step that stopped between two writes made all of them, or left a store
that moves account for, with the old commit index. -/
def Interrupted (membership : Membership) (ledger : Ledger NodeID LogEntry) (node : Node)
    (store : Store) (writes : List Write) : Prop :=
  ∀ count, store.writeAll (writes.take count) = store.writeAll writes ∨
    Resumable membership ledger node.id (store.writeAll (writes.take count)) ∧
      (store.writeAll (writes.take count)).commitIndex = node.commitIndex

section

variable {store : Store} (sane : Sane membership ledger)
  (tracks : Tracks membership ledger (view node)) (synced : Synced node store)
include sane tracks synced

/-- At most one write is made or not. -/
theorem interrupted_single {writes : List Write} (single : writes.length ≤ 1) :
    Interrupted membership ledger node store writes := by
  intro count
  cases count with
  | zero =>
      right
      exact ⟨(tracks.recorded synced).resumable sane, synced.storedCommit⟩
  | succ count =>
      left
      rw [List.take_of_length_le (by omega)]

theorem confirm_interrupted (request : AppendEntries) :
    Interrupted membership ledger node store (confirmNow node request).writes := by
  apply interrupted_single sane tracks synced
  simp only [confirmNow]
  split_ifs <;> simp

theorem takeEntries_interrupted {request : AppendEntries} (current : node.term = request.term)
    (genuine : Genuine membership ledger node.id (.appendEntries request)) :
    Interrupted membership ledger node store (takeEntriesNow node request).writes := by
  have led : ledger.leader request.term ≠ none := by simp [genuine.1]
  have recorded := tracks.recorded synced
  unfold takeEntriesNow
  split_ifs with matched
  · have intake := tracks.intake sane genuine matched
    cases taken : node.entriesToAppend request.prevLogIndex request.entries with
    | none => exact interrupted_single sane tracks synced (by simp)
    | some suffix =>
        rcases suffix with ⟨newEntries, truncateFrom⟩
        have term : store.hardState.term = request.term := by
          rw [synced.storedHardState]
          exact current
        rw [taken, ← synced.storedLog, ← term] at intake
        simp only
        split_ifs with some_
        · intro count
          have partial_ := recorded.storeWrites sane (term ▸ led) some_ intake count
          have sameCommit : (store.writeAll ((storeWrites newEntries truncateFrom).take
              count)).commitIndex = node.commitIndex := by
            rcases Store.storeWrites_take newEntries truncateFrom count with nothing | ⟨_, part⟩
            · rw [nothing]
              exact synced.storedCommit
            · rw [part, Store.writeAll_storeWrites recorded.indexed]
              exact synced.storedCommit
          simp only [Outcome.wrote, List.take_append]
          by_cases early : count ≤ (storeWrites newEntries truncateFrom).length
          · rw [Nat.sub_eq_zero_of_le early, List.take_zero, List.append_nil]
            exact .inr ⟨partial_, sameCommit⟩
          · left
            have short :
                (confirmNow (stored node newEntries truncateFrom) request).writes.length ≤ 1 := by
              simp only [confirmNow]
              split_ifs <;> simp
            rw [List.take_of_length_le (by omega), List.take_of_length_le (by omega)]
        · exact confirm_interrupted sane tracks synced request
  · exact interrupted_single sane tracks synced (by simp)

end

/-- Whatever turn a step takes, a crash leaves a store that moves account for. -/
theorem turn_interrupted {store : Store} {event : Event} {outcome : Outcome}
    (sane : Sane membership ledger) (tracks : Tracks membership ledger (view node))
    (synced : Synced node store) (genuine : Genuine membership ledger node.id event)
    (turn : Turn node event outcome) :
    Interrupted membership ledger node store outcome.writes := by
  cases turn with
  | kept => exact interrupted_single sane tracks synced (by simp)
  | saved => exact interrupted_single sane tracks synced (by simp [saveHardState])
  | heartbeat => exact interrupted_single sane tracks synced (by simp)
  | registered => exact interrupted_single sane tracks synced (by simp)
  | led => exact interrupted_single sane tracks synced (by simp [leadNow, replicateNow])
  | proposed => exact interrupted_single sane tracks synced (by simp [proposeNow, replicateNow])
  | recovered => exact interrupted_single sane tracks synced (by simp)
  | stale => exact interrupted_single sane tracks synced (by simp)
  | committed => exact interrupted_single sane tracks synced (by simp [commitNow])
  | answered => exact interrupted_single sane tracks synced (by simp [supplyNow])
  | @followed request reached =>
      rcases acceptLeader_moved tracks sane request.term request.sender with
        ⟨middle, moved, _⟩
      have advance := moved.advance sane
      have following := synced.follow request.sender reached
      have sameView : view (followNow node request.term request.sender) =
          view (node.acceptLeader request.term request.sender) := by
        unfold followNow
        split_ifs <;> rfl
      have sameID : (followNow node request.term request.sender).id = node.id :=
        (congrArg View.id sameView).trans moved.sameID
      have current : (followNow node request.term request.sender).term = request.term :=
        (congrArg View.term sameView).trans (Node.acceptLeader_term reached request.sender)
      have commit : (followNow node request.term request.sender).commitIndex =
          node.commitIndex :=
        congrArg Holdings.commitIndex (holdings_followNow node request.term request.sender)
      have taken := takeEntries_interrupted moved.sane (sameView ▸ moved.tracks) following current
        (sameID ▸ genuine.mono advance)
      have short : (reachWrites node request.term).length ≤ 1 := by
        unfold reachWrites
        split_ifs <;> simp
      intro count
      simp only [Outcome.wrote, Outcome.emits, List.take_append]
      rcases lt_or_ge count (reachWrites node request.term).length with early | later
      · have zero : count = 0 := by omega
        rw [zero, Nat.zero_sub, List.take_zero, List.take_zero, List.append_nil]
        exact .inr ⟨(tracks.recorded synced).resumable sane, synced.storedCommit⟩
      · rw [List.take_of_length_le later, Store.writeAll_append, Store.writeAll_append]
        rcases taken (count - (reachWrites node request.term).length) with
          full | ⟨⟨final, moves, saneFinal, recorded⟩, sameCommit⟩
        · exact .inl full
        · rw [sameID] at moves recorded
          exact .inr ⟨⟨final, moved.moves.trans moves, saneFinal, recorded⟩,
            sameCommit.trans commit⟩

/-! ## Runs -/

namespace Production

variable {before : State}

/-- The ledger tracks every core, and every store holds what its core holds. -/
structure Grounded (membership : Membership) (ledger : Ledger NodeID LogEntry) (state : State) :
    Prop where
  followed : Followed membership ledger (fun id => (state.hosts id).core) state.network
  synced : ∀ id ∈ membership.members, Synced (state.hosts id).core (state.hosts id).store

/-- What is known about a step of the runtime, whether it ends or not. -/
structure Stepped (membership : Membership) (ledger : Ledger NodeID LogEntry) (before : State)
    (id : NodeID) (event : Event) (outcome : Outcome) (after : Ledger NodeID LogEntry) :
    Prop where
  member : id ∈ membership.members
  genuine : Genuine membership ledger id event
  turn : Turn (before.hosts id).core event outcome
  refines : RefinesTo membership ledger (view (before.hosts id).core)
    (outcome.core, outcome.emitted) after
  synced : Synced outcome.core ((before.hosts id).store.writeAll outcome.writes)
  interrupted : Interrupted membership ledger (before.hosts id).core (before.hosts id).store
    outcome.writes

/-- A Node restarted from a store, and may have committed before it crashed. -/
def State.restarted (membership : Membership) (state : State) (id : NodeID) (store : Store)
    (committed : List Commitment) : State :=
  { state with
    hosts := Function.update state.hosts id (restart membership id store)
    commitments := state.commitments ++ committed }

namespace Grounded

theorem start (membership : Membership) : Grounded membership .initial (.start membership) where
  followed := .start membership
  synced := fun id _ => .recovered id (membership.peersOf id) {}

/-- Whatever arrives at a Node is genuine. -/
theorem arrives (grounded : Grounded membership ledger before) {id : NodeID} {event : Event}
    {input : Input} (arrives : before.input membership input = some (id, event)) :
    Genuine membership ledger id event := by
  rcases (input_cases arrives).2 with isSpontaneous | sent
  · cases event <;> trivial
  · exact grounded.followed.genuine _ sent

theorem stepped (grounded : Grounded membership ledger before) {id : NodeID} {event : Event}
    {input : Input} {budget : Nat} {outcome : Outcome}
    (arrives : before.input membership input = some (id, event))
    (isOutcome : RaftRuntime.step budget (before.hosts id).core event = some outcome) :
    ∃ after, Stepped membership ledger before id event outcome after := by
  have member := (input_cases arrives).1
  have followed := grounded.followed
  have synced := grounded.synced id member
  have tracks := followed.tracks id member
  have identity : (before.hosts id).core.id = id := followed.identity id member
  have genuine := grounded.arrives arrives
  have isUncompacted : uncompactedEvent event := by
    cases event with
    | snapshotCompacted => exact genuine.elim
    | installSnapshot => exact genuine.elim
    | installSnapshotResponse => exact genuine.elim
    | _ => rfl
  have several : (before.hosts id).core.quorum ≠ 1 := by
    rw [quorum_eq tracks]
    decide
  have turn := stepNow_turn synced.toDurable synced.durableHardState isUncompacted
  have genuineCore : Genuine membership ledger (before.hosts id).core.id event :=
    identity.symm ▸ genuine
  rcases stepNow_refines synced.toDurable followed.sane tracks genuineCore with ⟨after, refines⟩
  have same := step_eq synced.toDurable isOutcome
  rw [← same] at turn refines
  exact ⟨after, member, genuine, turn, refines, synced.turn tracks.whole turn,
    turn_interrupted followed.sane tracks synced genuineCore turn⟩

variable {id : NodeID} {event : Event} {outcome : Outcome}

section

variable (grounded : Grounded membership ledger before)

include grounded

theorem complete (stepped : Stepped membership ledger before id event outcome after) :
    Grounded membership after (before.complete id event outcome) where
  followed := by
    have followed := grounded.followed.step stepped.member stepped.refines
    have cores : (fun other => ((before.complete id event outcome).hosts other).core) =
        Function.update (fun other => (before.hosts other).core) id outcome.core := by
      funext other
      by_cases same : other = id
      · simp [State.complete, Host.step, same]
      · simp [State.complete, Function.update_of_ne same]
    rw [cores]
    exact followed
  synced := by
    intro other member
    by_cases same : other = id
    · simpa [State.complete, Host.step, same] using stepped.synced
    · simpa [State.complete, Function.update_of_ne same] using grounded.synced other member

theorem restarted {store : Store}
    (moves : membership.protocol.Moves id ledger after) (sane : Sane membership after)
    (recorded : Recorded membership after id store) (committed : List Commitment) :
    Grounded membership after (before.restarted membership id store committed) where
  followed := by
    have followed := grounded.followed.replace moves sane
      (congrArg View.id (newNodeFromRecoveredState_view id _ recorded.indexed)) recorded.tracks
    have cores : (fun other =>
        ((before.restarted membership id store committed).hosts other).core) =
        Function.update (fun other => (before.hosts other).core) id
          (restart membership id store).core := by
      funext other
      by_cases same : other = id
      · simp [State.restarted, same]
      · simp [State.restarted, Function.update_of_ne same]
    rw [cores]
    exact followed
  synced := by
    intro other member
    by_cases same : other = id
    · simp only [State.restarted, same, Function.update_self]
      exact .recovered id (membership.peersOf id) store
    · simpa [State.restarted, Function.update_of_ne same] using grounded.synced other member

/-- The store after the last write of a step is accounted for. -/
theorem recorded (stepped : Stepped membership ledger before id event outcome after) :
    membership.protocol.Moves id ledger after ∧
      Recorded membership after id ((before.hosts id).store.writeAll outcome.writes) := by
  have moved := stepped.refines.moved
  have identity : (view (before.hosts id).core).id = id :=
    grounded.followed.identity id stepped.member
  have recorded := moved.tracks.recorded stepped.synced
  rw [show outcome.core.id = id from moved.sameID.trans identity] at recorded
  exact ⟨identity ▸ moved.moves, recorded⟩

/-- Every step is a completed one, or a crash whose store moves account for:
those of the whole step, or some that leave the commit index alone. -/
theorem step_cases {state : State} {label : Label}
    (taken : (system membership).step before label state) :
    ∃ id event outcome after, before.input membership label.input = some (id, event) ∧
      Stepped membership ledger before id event outcome after ∧
      (state = before.complete id event outcome ∨
        ∃ store, state = before.restarted membership id store
            (commitment (before.hosts id).core outcome.core).toList ∧
          (store = (before.hosts id).store.writeAll outcome.writes ∨
            Resumable membership ledger id store ∧
              store.commitIndex = (before.hosts id).core.commitIndex)) := by
  rcases Production.step_cases taken with
    ⟨id, event, budget, outcome, arrives, isOutcome, completed | ⟨count, crashed⟩⟩
  · rcases grounded.stepped arrives isOutcome with ⟨after, stepped⟩
    exact ⟨id, event, outcome, after, arrives, stepped, .inl completed⟩
  · rcases grounded.stepped arrives isOutcome with ⟨after, stepped⟩
    have identity : (before.hosts id).core.id = id :=
      grounded.followed.identity id stepped.member
    have left := stepped.interrupted count
    rw [identity] at left
    exact ⟨id, event, outcome, after, arrives, stepped, .inr ⟨_, crashed, left⟩⟩

end

end Grounded

end Production

end Ternion.Cluster
