import Ternion.Consensus.Repair
import Ternion.Foundation.Eventually
import Ternion.Raft.Compacted
import Ternion.Raft.Contact
import Ternion.Runtime.Synchronous

/-! # Repairing the log of a Follower

A Leader and one Follower exchange requests and replies, none of which is lost.
The Leader sends its next request when it handles a reply, and otherwise with
its heartbeat. A Snapshot arrives whole and is installed.
-/

namespace Ternion.RaftRuntime

open Raft

def toFollower (leader follower : NodeID) : Action → Option Event
  | .sendAppendEntries receiver request =>
      if receiver = follower then some (.appendEntries request) else none
  | .sendInstallSnapshot receiver term requestID snapshotIndex snapshotTerm offset =>
      if receiver = follower then
        some (.installSnapshot {
          sender := leader
          term := term
          requestID := requestID
          snapshotIndex := snapshotIndex
          snapshotTerm := snapshotTerm
          length := 0
          checksum := 0
          offset := offset
          data := []
          done := true
          success := true
          installed := true })
      else none
  | _ => none

def toLeader (leader : NodeID) : Action → Option Event
  | .sendAppendEntriesResponse receiver response =>
      if receiver = leader then some (.appendEntriesResponse response) else none
  | .sendInstallSnapshotResponse receiver response =>
      if receiver = leader then some (.installSnapshotResponse response) else none
  | _ => none

structure Exchange where
  leader : Node
  follower : Node
  request : Option Event := none

namespace Exchange

/-- The Leader with a request on its way, which a heartbeat sends if none is. -/
def sending (exchange : Exchange) : Exchange :=
  match exchange.request with
  | some _ => exchange
  | none =>
      let outcome := stepNow exchange.leader .heartbeatTimeout
      { exchange with
        leader := outcome.core
        request :=
          outcome.emitted.findSome? (toFollower exchange.leader.id exchange.follower.id) }

def answering (exchange : Exchange) (request : Event) : Exchange :=
  let answered := stepNow exchange.follower request
  match answered.emitted.findSome? (toLeader exchange.leader.id) with
  | none => { leader := exchange.leader, follower := answered.core }
  | some response =>
      let handled := stepNow exchange.leader response
      { leader := handled.core
        follower := answered.core
        request := handled.emitted.findSome?
          (toFollower exchange.leader.id exchange.follower.id) }

/-- One request and its reply. -/
def next (exchange : Exchange) : Exchange :=
  match exchange.sending.request with
  | none => exchange.sending
  | some request => exchange.sending.answering request

/-- How far the next batch of entries says that the Follower may commit. -/
def announced (exchange : Exchange) : Nat :=
  match exchange.request with
  | some (.appendEntries request) => request.leaderCommit
  | _ => exchange.leader.commitIndex

/-- The Follower holds the end of the Leader's log, and the Leader knows. -/
def Repaired (exchange : Exchange) : Prop :=
  exchange.follower.lastLogIndex = exchange.leader.lastLogIndex ∧
    exchange.follower.lastLogTerm = exchange.leader.lastLogTerm ∧
    exchange.leader.matchIndex exchange.follower.id = exchange.leader.lastLogIndex

end Exchange

/-! ## Requests of the Leader -/

inductive Sent (leader : Node) (peer : NodeID) : Nat → Option Event → Prop
  | nothing : leader.snapshotInFlight peer = 0 → Sent leader peer leader.commitIndex none
  | entries {request : AppendEntries} : leader.snapshotInFlight peer = 0 →
      leader.logBaseIndex < leader.firstToSend peer →
      request.sender = leader.id → request.term = leader.term →
      request.requestID ≠ 0 → (leader.appendInFlight peer).requestID = request.requestID →
      request.prevLogIndex = leader.firstToSend peer - 1 →
      request.prevLogTerm = leader.termAt (leader.firstToSend peer - 1) →
      request.entries = leader.entriesBatch (leader.firstToSend peer) leader.durableLastIndex →
      Sent leader peer request.leaderCommit (some (.appendEntries request))
  | snapshot {request : InstallSnapshot} : leader.firstToSend peer ≤ leader.logBaseIndex →
      request.sender = leader.id → request.term = leader.term →
      request.requestID ≠ 0 → leader.snapshotInFlight peer = request.requestID →
      request.snapshotIndex = leader.logBaseIndex → request.snapshotTerm = leader.logBaseTerm →
      request.success → request.installed →
      Sent leader peer leader.commitIndex (some (.installSnapshot request))

section Sending

variable {node : Node} {peer other : NodeID} {announced : Nat} {found : Option Event}

/-- What is on its way depends on the log of the Leader and on what it
remembers of its requests. -/
theorem Sent.of_frame {requestID applied durable persistence : Nat} {ready : Bool}
    {reads : List (ReadID × PendingRead)} {appends : NodeID → PendingAppend}
    {snapshots : NodeID → Nat} (sent : Sent node peer announced found)
    (sameAppend : appends peer = node.appendInFlight peer)
    (sameSnapshot : snapshots peer = node.snapshotInFlight peer) :
    Sent { node with
      nextRequestID := requestID
      appendInFlight := appends
      snapshotInFlight := snapshots
      lastApplied := applied
      readReady := ready
      pendingReads := reads
      durableCommitIndex := durable
      nextCommitPersistence := persistence } peer announced found := by
  cases sent with
  | nothing available => exact .nothing (sameSnapshot.trans available)
  | entries available above sender term nonzero remembered prev prevTerm batch =>
      exact .entries (sameSnapshot.trans available) above sender term nonzero
        ((congrArg PendingAppend.requestID sameAppend).trans remembered) prev prevTerm batch
  | snapshot compacted sender term nonzero remembered index indexTerm success installed =>
      exact .snapshot compacted sender term nonzero (sameSnapshot.trans remembered) index indexTerm
        success installed

theorem Sent.supply (available : node.snapshotInFlight peer = 0) (readID : ReadID) :
    Sent (node.sendAppendEntriesTo peer readID).1 peer node.commitIndex
      ((node.sendAppendEntriesTo peer readID).2.findSome? (toFollower node.id peer)) := by
  rw [Node.sendAppendEntriesTo]
  split_ifs with busy compacted transferring
  · exact .nothing available
  · exact .nothing available
  · simp only [List.findSome?_singleton, toFollower, if_true]
    exact .snapshot compacted rfl rfl (Nat.succ_ne_zero _) (Function.update_self _ _ _) rfl rfl
      rfl rfl
  · simp only [List.findSome?_singleton, toFollower, if_true]
    refine @Sent.entries _ _ (node.appendRequest _ _ _) available (Nat.lt_of_not_le compacted) rfl
      rfl (Nat.succ_ne_zero _) ?_ rfl rfl rfl
    simp only [Function.update_self, Node.appendRequest]

theorem Sent.again {request : Event} (sent : Sent node peer announced (some request))
    (readID : ReadID) :
    node.sendAppendEntriesTo peer readID = (node, []) := by
  rw [Node.sendAppendEntriesTo]
  cases sent with
  | entries _ _ _ _ nonzero remembered => rw [if_pos (by rw [remembered]; exact nonzero)]
  | snapshot compacted _ _ nonzero remembered =>
      have transferring : node.snapshotInFlight peer ≠ 0 := remembered ▸ nonzero
      rw [if_pos compacted, if_pos transferring, ite_self]

theorem Sent.unaffected (sent : Sent node peer announced found) (different : peer ≠ other)
    (readID : ReadID) : Sent (node.sendAppendEntriesTo other readID).1 peer announced found := by
  rw [Node.sendAppendEntriesTo]
  split_ifs
  · exact sent
  · exact sent
  · exact sent.of_frame rfl (Function.update_of_ne different _ _)
  · exact sent.of_frame (Function.update_of_ne different _ _) rfl

theorem toFollower_other (different : peer ≠ other) (readID : ReadID) (leader : NodeID) :
    (node.sendAppendEntriesTo other readID).2.findSome? (toFollower leader peer) = none := by
  rw [Node.sendAppendEntriesTo]
  split_ifs
  · rfl
  · rfl
  · simp [toFollower, different.symm]
  · simp [toFollower, different.symm]

theorem Sent.supplyEach (sent : Sent node peer announced found) (readID : ReadID)
    (peers : List NodeID) :
    Sent (node.sendAppendEntriesToEach readID peers).1 peer announced
      (found.or ((node.sendAppendEntriesToEach readID peers).2.findSome?
        (toFollower node.id peer))) := by
  induction peers generalizing node found with
  | nil => simpa [Node.sendAppendEntriesToEach] using sent
  | cons first rest induction =>
      simp only [Node.sendAppendEntriesToEach]
      generalize (if readID = 0 then node.pendingReadFor first else readID) = peerReadID
      rcases node.sendAppendEntriesTo_frame first peerReadID with ⟨_, _, _, frame⟩
      have sameID : (node.sendAppendEntriesTo first peerReadID).1.id = node.id := by rw [frame]
      rw [List.findSome?_append, ← Option.or_assoc, ← sameID]
      apply induction
      rw [sameID]
      by_cases same : peer = first
      · subst same
        cases found with
        | none =>
            cases sent with
            | nothing available => exact .supply available peerReadID
        | some request =>
            rw [sent.again]
            exact sent
      · rw [toFollower_other same, Option.or_none]
        exact sent.unaffected same peerReadID

theorem toFollower_supplies {action : Action} (supplies : action.supplies peer = true)
    (leader : NodeID) : toFollower leader peer action ≠ none := by
  cases action with
  | sendAppendEntries receiver request =>
      simp [toFollower, of_decide_eq_true supplies]
  | sendInstallSnapshot receiver =>
      simp [toFollower, of_decide_eq_true supplies]
  | _ => cases supplies

/-- After a heartbeat a request is on its way to every peer that no Snapshot
is being transferred to. -/
theorem heartbeat_sent (leads : node.role = .leader) (present : peer ∈ node.peers)
    (available : node.snapshotInFlight peer = 0) :
    ∃ request, (stepNow node .heartbeatTimeout).emitted.findSome? (toFollower node.id peer) =
        some request ∧
      Sent (stepNow node .heartbeatTimeout).core peer node.commitIndex (some request) := by
  have idle : Sent node.expireAppends peer node.commitIndex none := .nothing available
  have sent := idle.supplyEach 0 node.expireAppends.peers
  have reachable : node.expireAppends.Reachable peer := ⟨rfl, .inl available⟩
  rcases reachable.suppliedAmong 0 present with ⟨action, emitted, supplies⟩
  simp only [stepNow, Node.step, Node.heartbeatRound, leads, ne_eq, not_true_eq_false, if_false,
    List.findSome?_cons, toFollower]
  cases found : (node.expireAppends.sendAppendEntries 0).2.findSome? (toFollower node.id peer) with
  | none =>
      have unsent := List.findSome?_eq_none_iff.mp found action emitted
      exact absurd unsent (toFollower_supplies supplies node.id)
  | some request =>
      refine ⟨request, rfl, ?_⟩
      have located :
        (node.expireAppends.sendAppendEntriesToEach 0 node.expireAppends.peers).2.findSome?
          (toFollower node.expireAppends.id peer) = some request := found
      rwa [located] at sent

theorem heartbeat_frame (node : Node) :
    ∃ requestID appends snapshots,
      (stepNow node .heartbeatTimeout).core = { node with
        nextRequestID := requestID
        appendInFlight := appends
        snapshotInFlight := snapshots } := by
  simp only [stepNow, Node.step, Node.heartbeatRound]
  split_ifs
  · exact ⟨_, _, _, rfl⟩
  · rcases node.expireAppends.sendAppendEntries_frame 0 with ⟨_, _, _, frame⟩
    rw [frame]
    exact ⟨_, _, _, rfl⟩

end Sending

/-! ## Answers to the Leader -/

section Handling

theorem toFollower_reports {actions : List Action} (leader peer : NodeID)
    (reports : ∀ action ∈ actions, Node.Reports action) :
    actions.findSome? (toFollower leader peer) = none := by
  apply List.findSome?_eq_none_iff.mpr
  intro action emitted
  cases reports action emitted <;> rfl

variable {leader : Node}

theorem commitNow_sent (advanced : Node) (response : AppendEntriesResponse)
    (available : advanced.snapshotInFlight response.sender = 0) :
    Sent (commitNow advanced response).core response.sender advanced.commitIndex
        ((commitNow advanced response).emitted.findSome?
          (toFollower advanced.id response.sender)) ∧
      ∃ requestID appends snapshots applied ready reads durable persistence,
        (commitNow advanced response).core = { advanced with
          nextRequestID := requestID
          appendInFlight := appends
          snapshotInFlight := snapshots
          lastApplied := applied
          readReady := ready
          pendingReads := reads
          durableCommitIndex := durable
          nextCommitPersistence := persistence } := by
  have idle : Sent advanced response.sender advanced.commitIndex none := .nothing available
  have sent : Sent (advanced.sendAppendEntries 0).1 response.sender advanced.commitIndex
      ((advanced.sendAppendEntries 0).2.findSome? (toFollower advanced.id response.sender)) :=
    idle.supplyEach 0 advanced.peers
  rcases advanced.sendAppendEntries_frame 0 with ⟨_, _, _, sendFrame⟩
  rcases (advanced.sendAppendEntries 0).1.acknowledgeRead_frame response with ⟨_, readFrame⟩
  rcases ((advanced.sendAppendEntries 0).1.acknowledgeRead response).1.commitSaved.applyThrough_frame
    advanced.commitIndex with ⟨_, _, _, applyFrame⟩
  have silentRead := toFollower_reports advanced.id response.sender fun _ =>
    (advanced.sendAppendEntries 0).1.acknowledgeRead_reports response
  have silentApply := toFollower_reports advanced.id response.sender fun _ =>
    Node.applyThrough_reports
      ((advanced.sendAppendEntries 0).1.acknowledgeRead response).1.commitSaved advanced.commitIndex
  simp only [commitNow, List.findSome?_append, silentRead, silentApply, Option.none_or]
  rw [applyFrame, readFrame]
  refine ⟨sent.of_frame rfl rfl, ?_⟩
  rw [sendFrame]
  exact ⟨_, _, _, _, _, _, _, _, rfl⟩

theorem supplyNow_sent (recorded : Node) (pending : PendingAppend)
    (response : AppendEntriesResponse) (available : recorded.snapshotInFlight response.sender = 0) :
    Sent (supplyNow recorded pending response).core response.sender recorded.commitIndex
        ((supplyNow recorded pending response).emitted.findSome?
          (toFollower recorded.id response.sender)) ∧
      ∃ requestID appends snapshots reads,
        (supplyNow recorded pending response).core = { recorded with
          nextRequestID := requestID
          appendInFlight := appends
          snapshotInFlight := snapshots
          pendingReads := reads } := by
  have supplied : ∀ supply : Node × List Action,
      supply = recorded.sendAppendEntriesTo response.sender
        (recorded.pendingReadFor response.sender) ∨ supply = (recorded, []) →
      Sent supply.1 response.sender recorded.commitIndex
          (supply.2.findSome? (toFollower recorded.id response.sender)) ∧
        ∃ requestID appends snapshots, supply.1 = { recorded with
          nextRequestID := requestID
          appendInFlight := appends
          snapshotInFlight := snapshots } := by
    rintro supply (rfl | rfl)
    · exact ⟨.supply available _, recorded.sendAppendEntriesTo_frame _ _⟩
    · exact ⟨.nothing available, _, _, _, rfl⟩
  simp only [supplyNow]
  generalize isSupply : (if recorded.needsSupply pending response then
      recorded.sendAppendEntriesTo response.sender (recorded.pendingReadFor response.sender)
    else (recorded, [])) = supply
  rcases supplied supply (by split_ifs at isSupply <;> simp [← isSupply]) with
    ⟨sent, _, _, _, supplyFrame⟩
  rcases supply.1.acknowledgeRead_frame response with ⟨_, readFrame⟩
  have silentRead := toFollower_reports recorded.id response.sender fun _ =>
    supply.1.acknowledgeRead_reports response
  rw [List.findSome?_append, silentRead, Option.or_none, readFrame]
  refine ⟨sent.of_frame rfl rfl, ?_⟩
  rw [supplyFrame]
  exact ⟨_, _, _, _, rfl⟩

/-- A Leader that commits sends to all its peers, any other one supplies the
sender of the answer. -/
theorem appendEntriesResponseNow_sent {response : AppendEntriesResponse}
    (leads : leader.role = .leader) (current : response.term = leader.term)
    (fresh : ¬Node.outdated (leader.appendInFlight response.sender) response)
    (available : leader.snapshotInFlight response.sender = 0) :
    (∃ announced, Sent (appendEntriesResponseNow leader response).core response.sender announced
        ((appendEntriesResponseNow leader response).emitted.findSome?
          (toFollower leader.id response.sender))) ∧
      ∃ requestID appends snapshots commit applied ready reads durable persistence,
        (appendEntriesResponseNow leader response).core = { leader.recordResponse response with
          nextRequestID := requestID
          appendInFlight := appends
          snapshotInFlight := snapshots
          commitIndex := commit
          lastApplied := applied
          readReady := ready
          pendingReads := reads
          durableCommitIndex := durable
          nextCommitPersistence := persistence } := by
  rw [appendEntriesResponseNow, if_neg (by omega), if_neg (by simp [leads, current]), if_neg fresh]
  rcases leader.recordResponse_frame response with ⟨_, _, _, _, recordFrame⟩
  have sameID : (leader.recordResponse response).id = leader.id := by rw [recordFrame]
  have idle : (leader.recordResponse response).snapshotInFlight response.sender = 0 := by
    rw [recordFrame]
    exact available
  clear recordFrame
  rw [← sameID]
  generalize leader.recordResponse response = recorded at idle
  cases advances : recorded.advanceLeaderCommit with
  | some advanced =>
      rcases Node.advanceLeaderCommit_frame advances with ⟨commit, isAdvanced⟩
      have sameAdvanced : advanced.id = recorded.id := by rw [isAdvanced]
      have stillIdle : advanced.snapshotInFlight response.sender = 0 := by
        rw [isAdvanced]
        exact idle
      rcases commitNow_sent advanced response stillIdle with ⟨sent, _, _, _, _, _, _, _, _, frame⟩
      rw [sameAdvanced] at sent
      refine ⟨⟨_, sent⟩, ?_⟩
      simp only [frame]
      rw [isAdvanced]
      exact ⟨_, _, _, _, _, _, _, _, _, rfl⟩
  | none =>
      rcases supplyNow_sent recorded (leader.appendInFlight response.sender) response idle with
        ⟨sent, _, _, _, _, frame⟩
      exact ⟨⟨_, sent⟩, _, _, _, _, _, _, _, _, _, frame⟩

end Handling

end Ternion.RaftRuntime
