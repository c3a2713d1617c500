import Ternion.Raft.Frame

/-! # The course of a transition

A transition stays in its Term, accepts a Leader, steps down, takes part in an
election or completes a write. What it does there is a `Body`: it notes
something about peers and reads, changes the log or the commit index, or
applies entries. `Node.step_course` says so for every event, and what a
transition keeps is derived from it.
-/

namespace Ternion.Raft

namespace Event

variable {actions : List Action} {supplier : Node}

/-- The Term that a message carries. A Node with a lower Term reaches it. -/
def carries : Event → Option Nat
  | .preVoteResponse response => some response.currentTerm
  | .voteRequest request => some request.term
  | .voteResponse response => some response.term
  | .appendEntries request => some request.term
  | .appendEntriesResponse response => some response.term
  | .installSnapshot request => some request.term
  | .installSnapshotResponse response => some response.term
  | _ => none

/-- The Leader that speaks in a message. -/
def leader : Event → Option NodeID
  | .appendEntries request => some request.sender
  | .installSnapshot request => some request.sender
  | _ => none

/-- The Node that sent a message. -/
def sender : Event → Option NodeID
  | .preVoteRequest request => some request.sender
  | .preVoteResponse response => some response.sender
  | .voteRequest request => some request.sender
  | .voteResponse response => some response.sender
  | .appendEntries request => some request.sender
  | .appendEntriesResponse response => some response.sender
  | .installSnapshot request => some request.sender
  | .installSnapshotResponse response => some response.sender
  | _ => none

/-- The event completes a write. -/
def isCompletion : Event → Bool
  | .hardStatePersisted _ => true
  | .logEntriesPersisted _ => true
  | .commitIndexPersisted _ => true
  | _ => false

end Event

/-- The action is for the runtime, which applies and persists nothing for it. -/
def Action.isLocal : Action → Bool
  | .resetElectionTimer => true
  | .resetHeartbeatTimer => true
  | .resetCheckQuorumTimer => true
  | .lostLeadership _ => true
  | .proposalAccepted .. => true
  | .proposalRejected .. => true
  | .readConfirmed .. => true
  | .readRejected .. => true
  | _ => false

namespace Node

/-- What a Node notes about its peers and about reads. -/
structure Notes where
  preVotes : Finset NodeID
  activePeers : Finset NodeID
  matchIndex : NodeID → Nat
  nextIndex : NodeID → Nat
  appendInFlight : NodeID → PendingAppend
  snapshotInFlight : NodeID → Nat
  nextRequestID : Nat
  pendingReads : List (ReadID × PendingRead)

def notes (node : Node) : Notes where
  preVotes := node.preVotes
  activePeers := node.activePeers
  matchIndex := node.matchIndex
  nextIndex := node.nextIndex
  appendInFlight := node.appendInFlight
  snapshotInFlight := node.snapshotInFlight
  nextRequestID := node.nextRequestID
  pendingReads := node.pendingReads

def note (node : Node) (notes : Notes) : Node :=
  { node with
    preVotes := notes.preVotes
    activePeers := notes.activePeers
    matchIndex := notes.matchIndex
    nextIndex := notes.nextIndex
    appendInFlight := notes.appendInFlight
    snapshotInFlight := notes.snapshotInFlight
    nextRequestID := notes.nextRequestID
    pendingReads := notes.pendingReads }

/-- The Nodes differ at most in their notes. -/
def Keeps (node after : Node) : Prop := ∃ notes, after = node.note notes

theorem Keeps.of {node after : Node} (same : after = node.note after.notes) : Keeps node after :=
  ⟨after.notes, same⟩

theorem Keeps.refl (node : Node) : Keeps node node := .of rfl

theorem Keeps.trans {node middle after : Node} (first : Keeps node middle)
    (second : Keeps middle after) : Keeps node after := by
  rcases first with ⟨_, rfl⟩
  rcases second with ⟨notes, rfl⟩
  exact ⟨notes, rfl⟩

/-- The completion of a write is awaited. -/
def awaits (node : Node) : Event → Bool
  | .hardStatePersisted persistenceID => (node.pendingHardState persistenceID).isSome
  | .logEntriesPersisted persistenceID => (node.pendingLog persistenceID).isSome
  | .commitIndexPersisted persistenceID => (node.pendingCommit persistenceID).isSome
  | _ => false

/-- What `node` emits on an event that found the Node as `origin`, apart from
votes, applied entries and requests for durability. -/
inductive Emits (event : Event) (origin node : Node) : Action → Prop
  | runtime {action : Action} : action.isLocal = true → Emits event origin node action
  | entries {supplier : Node} {peer : NodeID} {commitIndex requestID : Nat} {readID : ReadID} :
      node.role = .leader → Keeps { node with commitIndex := commitIndex } supplier →
      (peer ∈ node.peers ∨ event.sender = some peer) →
      supplier.logBaseIndex < supplier.firstToSend peer →
      Emits event origin node (.sendAppendEntries peer
        (supplier.appendRequest requestID (supplier.firstToSend peer) readID))
  | snapshot {peer : NodeID} {requestID offset : Nat} : node.role = .leader →
      Emits event origin node (.sendInstallSnapshot peer node.term requestID node.logBaseIndex
        node.logBaseTerm offset)
  | preVoteResponse {request : PreVoteRequest} {response : PreVoteResponse} :
      event = .preVoteRequest request →
      Emits event origin node (.sendPreVoteResponse request.sender response)
  | refusedVote {request : VoteRequest} : event = .voteRequest request →
      Emits event origin node (.sendVoteResponse request.sender ⟨node.id, node.term, false⟩)
  | rejected {request : AppendEntries} {matchIndex conflictTerm conflictIndex : Nat} :
      event = .appendEntries request →
      Emits event origin node (.sendAppendEntriesResponse request.sender
        ⟨node.id, node.term, request.requestID, false, matchIndex, conflictTerm, conflictIndex,
          request.readID⟩)
  | confirmed {request : AppendEntries} {truncateFrom : Nat} : event = .appendEntries request →
      node.term = request.term → node.matchesAt request.prevLogIndex request.prevLogTerm →
      node.entriesToAppend request.prevLogIndex request.entries = some ([], truncateFrom) →
      node.lastLogIndex ≤ node.durableLogIndex →
      Emits event origin node (.sendAppendEntriesResponse request.sender
        ⟨node.id, node.term, request.requestID, true, node.lastLogIndex, 0, 0, request.readID⟩)
  | acknowledged {persistenceID : Nat} {pending : PendingLogPersistence} :
      event = .logEntriesPersisted persistenceID →
      origin.pendingLog persistenceID = some pending →
      pending.purpose = .persistFollowerAppend → node.term = pending.term →
      pending.lastIndex ≤ node.durableLogIndex →
      Emits event origin node (.sendAppendEntriesResponse pending.leader
        ⟨node.id, node.term, pending.requestID, true, pending.lastIndex, 0, 0, pending.readID⟩)
  | installResponse {request : InstallSnapshot} {success done : Bool} {nextOffset : Nat} :
      event = .installSnapshot request →
      Emits event origin node (.sendInstallSnapshotResponse request.sender
        ⟨node.id, node.term, request.requestID, request.snapshotIndex, success, nextOffset, done⟩)

/-- What happens within one Term and role. -/
inductive Body (event : Event) (origin node : Node) : Node × List Action → Prop
  | quiet {after : Node} {actions : List Action} : Keeps node after →
      (∀ action ∈ actions, Emits event origin node action) →
      Body event origin node (after, actions)
  | appended {proposalID : ProposalID} {entry : LogEntry} : event.isCompletion = false →
      node.role = .leader → entry.index = node.lastLogIndex + 1 → entry.term = node.term →
      Body event origin node (node.proposeEntry proposalID entry)
  | stored {request : AppendEntries} {newEntries : List LogEntry} {truncateFrom : Nat} :
      event = .appendEntries request → node.term = request.term →
      node.matchesAt request.prevLogIndex request.prevLogTerm →
      node.entriesToAppend request.prevLogIndex request.entries =
        some (newEntries, truncateFrom) → newEntries ≠ [] →
      Body event origin node ((node.storeEntries request newEntries truncateFrom).1,
        .resetElectionTimer :: (node.storeEntries request newEntries truncateFrom).2)
  | committed {index : Nat} {middle after : Node} {leading parked trailing : List Action} :
      node.commitIndex < index → index ≤ node.lastLogIndex →
      Keeps { node with commitIndex := index } middle →
      (∀ action ∈ parked, Emits event origin node action) →
      Keeps (middle.persistCommit parked).1 after →
      (∀ action ∈ leading, action.isLocal = true) →
      (∀ action ∈ trailing, action.isLocal = true) →
      Body event origin node (after, leading ++ ((middle.persistCommit parked).2 ++ trailing))
  | applied {index : Nat} {leading trailing : List Action} :
      (event.carries = none ∨ ∃ request, event = .appendEntries request) →
      index ≤ node.durableCommitIndex →
      (∀ action ∈ leading, action.isLocal = true) →
      (∀ action ∈ trailing, Emits event origin node action) →
      Body event origin node ((node.applyThrough index).1,
        leading ++ ((node.applyThrough index).2 ++ trailing))
  | installed {request : InstallSnapshot} {actions : List Action} :
      event = .installSnapshot request → node.term = request.term → request.installed →
      node.logBaseIndex < request.snapshotIndex →
      (∀ action ∈ actions, Emits event origin node action) →
      Body event origin node (node.installSnapshotBase request, actions)
  | compacted {index term : Nat} : event = .snapshotCompacted index term →
      Body event origin node (node.compactLog index term, [])

/-- How a Node comes to the office in which it acts, and whether what it does
there waits for the hard state. -/
inductive Reach (event : Event) (node : Node) : Node → Bool → Prop
  | stays : (∀ leader term, event.leader = some leader → event.carries = some term →
      term < node.term) → Reach event node node false
  | accepts {leader : NodeID} {term : Nat} : event.leader = some leader →
      event.carries = some term → node.term ≤ term →
      Reach event node (node.acceptLeader term leader) (node.term < term)
  | deposed {term : Nat} : event.leader = none → event.carries = some term →
      node.term < term → Reach event node (node.becomeFollower term "") true
  | resigns : event = .checkQuorumTimeout → node.role = .leader →
      node.activePeers.card + 1 < node.quorum →
      Reach event node (node.becomeFollower node.term "") false

/-- A part in an election: the office it leads to, what is sent before and in
it, and whether the latter waits for the hard state. -/
inductive Ballots (node : Node) : Event → List Action → Node → List Action → Bool → Prop
  | probes : node.role ≠ .leader → Ballots node .electionTimeout []
      node.becomePreCandidate (.resetElectionTimer :: node.preVoteRequests) false
  | campaignsAlone : node.quorum = 1 → Ballots node .electionTimeout
      (.resetElectionTimer :: node.preVoteRequests) node.becomePreCandidate.becomeCandidate
      (.resetElectionTimer :: node.becomePreCandidate.becomeCandidate.voteRequests) true
  | campaigns {response : PreVoteResponse} : node.role = .preCandidate →
      response.term = node.term + 1 → response.granted = true →
      Ballots node (.preVoteResponse response) []
        (node.recordPreVote response.sender).becomeCandidate (.resetElectionTimer ::
          (node.recordPreVote response.sender).becomeCandidate.voteRequests) true
  | grants {request : VoteRequest} {reached : Node} :
      (reached = node ∧ node.term = request.term ∨
        reached = node.becomeFollower request.term "" ∧ node.term < request.term) →
      reached.grantsVote request = true →
      Ballots node (.voteRequest request) [] (reached.castVote request.sender)
        (reached.voteResponse request.sender true) true
  | repeats {request : VoteRequest} : node.term = request.term →
      node.grantsVote request = true → node.voteIsDurable request.sender = true →
      Ballots node (.voteRequest request) [] (node.castVote request.sender)
        (node.voteResponse request.sender true) false
  | counts {response : VoteResponse} : node.role = .candidate → response.term = node.term →
      response.granted = true →
      Ballots node (.voteResponse response) [] (node.recordVote response.sender) [] false

/-- One transition of the core. -/
inductive Course (node : Node) : Event → Node × List Action → Prop
  | acts {event : Event} {middle : Node} {delayed : Bool} {result : Node × List Action} :
      event.isCompletion = false → Reach event node middle delayed →
      Body event node middle result → Course node event (persistTermChange delayed result)
  | votes {event : Event} {middle : Node} {delayed : Bool} {leading actions : List Action} :
      Ballots node event leading middle actions delayed →
      Course node event ((persistTermChange delayed (middle, actions)).1,
        leading ++ (persistTermChange delayed (middle, actions)).2)
  | wins {response : VoteResponse} : node.role = .candidate → response.term = node.term →
      response.granted = true →
      node.quorum ≤ (node.recordVote response.sender).votes.card →
      Course node (.voteResponse response) (node.recordVote response.sender).lead
  | ignored {event : Event} : event.isCompletion = true → node.awaits event = false →
      Course node event (node, [])
  | released {persistenceID : Nat} {pending : PendingHardStatePersistence} :
      node.pendingHardState persistenceID = some pending →
      Course node (.hardStatePersisted persistenceID)
        (node.completeHardState persistenceID pending,
          if pending.term ≠ node.term ∨ pending.votedFor ≠ node.votedFor then []
          else pending.after)
  | written {persistenceID : Nat} {pending : PendingLogPersistence}
      {result : Node × List Action} : node.pendingLog persistenceID = some pending →
      Body (.logEntriesPersisted persistenceID) node (node.completeLog persistenceID pending)
        result → Course node (.logEntriesPersisted persistenceID) result
  | completed {persistenceID : Nat} {pending : PendingCommitPersistence}
      {applied : Node × List Action} : node.pendingCommit persistenceID = some pending →
      applied = (node.completeCommit persistenceID pending).applyThrough pending.commitIndex →
      Course node (.commitIndexPersisted persistenceID) (applied.1, applied.2 ++ pending.after)

/-! ## Bodies -/

variable {node origin : Node} {event : Event}

theorem Body.still : Body event origin node (node, []) :=
  .quiet (.refl node) (by simp)

/-- Nothing changes, and the actions follow. -/
theorem Body.emits (emits : ∀ action ∈ actions, Emits event origin node action) :
    Body event origin node (node, actions) :=
  .quiet (.refl node) emits

theorem sendAppendEntriesTo_keeps (node : Node) (peer : NodeID) (readID : ReadID) :
    Keeps node (node.sendAppendEntriesTo peer readID).1 := by
  rcases node.sendAppendEntriesTo_frame peer readID with ⟨_, _, _, frame⟩
  exact .of (by rw [frame]; rfl)

theorem sendAppendEntriesTo_emits {commitIndex : Nat} (leads : node.role = .leader)
    (keeps : Keeps { node with commitIndex := commitIndex } supplier) {peer : NodeID}
    (known : peer ∈ node.peers ∨ event.sender = some peer) (readID : ReadID) :
    ∀ action ∈ (supplier.sendAppendEntriesTo peer readID).2, Emits event origin node action := by
  intro action emitted
  rw [sendAppendEntriesTo] at emitted
  split_ifs at emitted with busy behind
  · cases emitted
  · cases emitted
  · rcases keeps with ⟨_, rfl⟩
    rw [List.mem_singleton.mp emitted]
    exact .snapshot leads
  · rw [List.mem_singleton.mp emitted]
    exact .entries leads keeps known (Nat.not_le.mp behind)

theorem sendAppendEntriesToEach_emits {commitIndex : Nat} (leads : node.role = .leader)
    (keeps : Keeps { node with commitIndex := commitIndex } supplier) (readID : ReadID)
    {peers : List NodeID} (known : ∀ peer ∈ peers, peer ∈ node.peers) :
    ∀ action ∈ (supplier.sendAppendEntriesToEach readID peers).2,
      Emits event origin node action := by
  induction peers generalizing supplier with
  | nil => simp [sendAppendEntriesToEach]
  | cons peer peers induction =>
      intro action emitted
      rcases List.mem_append.mp emitted with now | later
      · exact sendAppendEntriesTo_emits leads keeps (.inl (known peer (.head _))) _ action now
      · exact induction (keeps.trans (supplier.sendAppendEntriesTo_keeps ..))
          (fun other present => known other (.tail _ present)) action later

theorem sendAppendEntries_keeps (node : Node) (readID : ReadID) :
    Keeps node (node.sendAppendEntries readID).1 := by
  rcases node.sendAppendEntries_frame readID with ⟨_, _, _, frame⟩
  exact .of (by rw [frame]; rfl)

theorem sendAppendEntries_emits {commitIndex : Nat} (leads : node.role = .leader)
    (keeps : Keeps { node with commitIndex := commitIndex } supplier) (readID : ReadID) :
    ∀ action ∈ (supplier.sendAppendEntries readID).2, Emits event origin node action := by
  apply sendAppendEntriesToEach_emits leads keeps
  rcases keeps with ⟨_, rfl⟩
  exact fun _ present => present

/-- A Leader that noted something supplies all its peers. -/
theorem sendAppendEntries_body (leads : node.role = .leader) (keeps : Keeps node supplier)
    (readID : ReadID) : Body event origin node (supplier.sendAppendEntries readID) :=
  .quiet (keeps.trans (supplier.sendAppendEntries_keeps readID))
    (sendAppendEntries_emits leads keeps readID)

theorem acknowledgeRead_keeps (node : Node) (response : AppendEntriesResponse) :
    Keeps node (node.acknowledgeRead response).1 := by
  rcases node.acknowledgeRead_frame response with ⟨_, frame⟩
  exact .of (by rw [frame]; rfl)

theorem acknowledgeRead_local (node : Node) (response : AppendEntriesResponse) :
    ∀ action ∈ (node.acknowledgeRead response).2, action.isLocal = true := by
  intro action emitted
  rcases node.acknowledgeRead_confirms response emitted with ⟨_, _, rfl⟩
  rfl

theorem takeAppendEntriesResponse_body {response : AppendEntriesResponse}
    (leads : node.role = .leader) :
    Body (.appendEntriesResponse response) origin node
      (node.takeAppendEntriesResponse response) := by
  have keeps : Keeps node (node.recordResponse response) := by
    rcases node.recordResponse_frame response with ⟨_, _, _, _, frame⟩
    exact .of (by rw [frame]; rfl)
  rw [takeAppendEntriesResponse, continueReplication]
  cases advances : (node.recordResponse response).advanceLeaderCommit with
  | some advanced =>
      rcases Option.map_eq_some_iff.mp advances with ⟨index, found, rfl⟩
      rcases commitCandidate_bounds found with ⟨above, within, _⟩
      rcases keeps with ⟨notes, recorded⟩
      rw [recorded] at above within ⊢
      have rises : node.commitIndex < index := above
      have bound : index ≤ node.commitIndex + (node.lastLogIndex - node.commitIndex) := within
      have supplier : Keeps { node with commitIndex := index }
          { node.note notes with commitIndex := index } := ⟨notes, rfl⟩
      exact .committed rises (by omega) (supplier.trans (sendAppendEntries_keeps _ 0))
        (sendAppendEntries_emits leads supplier 0) (acknowledgeRead_keeps _ response)
        (List.forall_mem_nil _) (acknowledgeRead_local _ response)
  | none =>
      dsimp only
      split_ifs
      · apply Body.quiet
        · exact (keeps.trans (sendAppendEntriesTo_keeps ..)).trans (acknowledgeRead_keeps ..)
        · intro action emitted
          rcases List.mem_append.mp emitted with supplied | confirmed
          · exact sendAppendEntriesTo_emits leads keeps (.inr rfl) _ action supplied
          · exact .runtime (acknowledgeRead_local _ response action confirmed)
      · apply Body.quiet
        · exact keeps.trans (acknowledgeRead_keeps ..)
        · exact fun action confirmed =>
            .runtime (acknowledgeRead_local _ response action confirmed)

/-- A Follower that answers follows the commit index of its Leader, or applies
what is durable. -/
theorem advanceFollowerCommit_body (leading : List Action) {leaderCommit : Nat}
    {answer : List Action} (told : event.carries = none ∨ ∃ request, event = .appendEntries request)
    (isLocal : ∀ action ∈ leading, action.isLocal = true)
    (emits : ∀ action ∈ answer, Emits event origin node action) :
    Body event origin node ((node.advanceFollowerCommit leaderCommit answer).1,
      leading ++ (node.advanceFollowerCommit leaderCommit answer).2) := by
  simp only [advanceFollowerCommit]
  split_ifs with rises
  · have body : Body event origin node _ := .committed rises (Nat.min_le_right ..)
      (.refl { node with commitIndex := min leaderCommit node.lastLogIndex }) emits (.refl _)
      isLocal (List.forall_mem_nil _)
    rw [List.append_nil] at body
    exact body
  · exact .applied told (Nat.le_refl _) isLocal emits

theorem takeAppendEntries_body {request : AppendEntries} (current : node.term = request.term) :
    Body (.appendEntries request) origin node
      ((node.takeAppendEntries request).1,
        .resetElectionTimer :: (node.takeAppendEntries request).2) := by
  have rejects : ∀ position, Body (.appendEntries request) origin node
      (node, .resetElectionTimer :: node.rejectAppendEntries request position) := by
    intro position
    apply Body.emits
    exact List.forall_mem_cons.mpr ⟨.runtime rfl, List.forall_mem_singleton.mpr (.rejected rfl)⟩
  rw [takeAppendEntries]
  split_ifs with matched
  · cases taken : node.entriesToAppend request.prevLogIndex request.entries with
    | none => exact rejects _
    | some suffix =>
        rcases suffix with ⟨newEntries, truncateFrom⟩
        dsimp only
        split_ifs with isNew
        · exact .stored rfl current matched taken isNew
        · rw [not_not.mp isNew] at taken
          rw [confirmEntries]
          split_ifs with behind
          · exact .emits (List.forall_mem_singleton.mpr (.runtime rfl))
          · apply advanceFollowerCommit_body [.resetElectionTimer] (.inr ⟨request, rfl⟩)
            · exact List.forall_mem_singleton.mpr rfl
            · exact List.forall_mem_singleton.mpr
                (.confirmed rfl current matched taken (Nat.not_lt.mp behind))
  · exact rejects _

theorem takeInstallSnapshot_body {request : InstallSnapshot} (current : node.term = request.term) :
    Body (.installSnapshot request) origin node (node.takeInstallSnapshot request,
      .resetElectionTimer :: (node.takeInstallSnapshot request).snapshotResponse request
        request.success request.nextOffset request.installed) := by
  have emits : ∀ action ∈ .resetElectionTimer :: node.snapshotResponse request request.success
      request.nextOffset request.installed, Emits (.installSnapshot request) origin node action :=
    List.forall_mem_cons.mpr
      ⟨.runtime rfl, List.forall_mem_singleton.mpr (.installResponse rfl)⟩
  rw [takeInstallSnapshot]
  split_ifs with installs
  · rcases node.installSnapshotBase_frame request with ⟨_, _, _, _, _, _, frame⟩
    have same : (node.installSnapshotBase request).snapshotResponse request request.success
        request.nextOffset request.installed = node.snapshotResponse request request.success
          request.nextOffset request.installed := by
      rw [frame]
      rfl
    rw [same]
    exact .installed rfl current installs.1 installs.2 emits
  · exact .emits emits

theorem continueLog_body {persistenceID : Nat} {pending : PendingLogPersistence}
    (found : node.pendingLog persistenceID = some pending) :
    Body (.logEntriesPersisted persistenceID) node (node.completeLog persistenceID pending)
      ((node.completeLog persistenceID pending).continueLog pending) := by
  rw [continueLog]
  cases purpose : pending.purpose with
  | persistLeaderEntry =>
      dsimp only
      split_ifs with changed
      · exact .still
      · simp only [not_or, not_not] at changed
        exact sendAppendEntries_body changed.1 (.refl _) 0
  | persistFollowerAppend =>
      dsimp only
      split_ifs with changed
      · exact .still
      · simp only [not_or, not_not] at changed
        apply advanceFollowerCommit_body [] (.inl rfl)
        · exact List.forall_mem_nil _
        · exact List.forall_mem_singleton.mpr
            (.acknowledged rfl found purpose changed.1 (Nat.le_max_right ..))

/-! ## Handlers -/

section

variable (isInput : event.isCompletion = false) (noLeader : event.leader = none)

include isInput noLeader

/-- Only a stale message of a Leader leaves the office alone. -/
theorem Course.within {result : Node × List Action} (body : Body event node node result) :
    Course node event result :=
  .acts isInput (.stays (by simp [noLeader])) body

/-- A proposal or a read that the Node does not take is answered at once. -/
theorem Course.answered {action : Action} (isLocal : action.isLocal = true) :
    Course node event (node, [action]) :=
  .within isInput noLeader (.emits (List.forall_mem_singleton.mpr (.runtime isLocal)))

theorem Course.stepsDown {term : Nat} (carried : event.carries = some term)
    (newer : node.term < term)
    (emits : ∀ action ∈ actions, Emits event node (node.becomeFollower term "") action) :
    Course node event ((node.becomeFollower term "").persistHardState actions) :=
  .acts isInput (.deposed noLeader carried newer) (.emits emits)

end

theorem handlePreVoteResponse_course (response : PreVoteResponse) :
    Course node (.preVoteResponse response) (node.handlePreVoteResponse response) := by
  rw [handlePreVoteResponse]
  split_ifs with newer ignored few
  · exact .stepsDown rfl rfl rfl newer (List.forall_mem_nil _)
  · exact .within rfl rfl .still
  · exact .within rfl rfl (.quiet (.of rfl) (List.forall_mem_nil _))
  · simp only [not_or, not_not] at ignored
    exact .votes (.campaigns ignored.1 ignored.2.1 ignored.2.2)

theorem handleVoteRequest_course (request : VoteRequest) :
    Course node (.voteRequest request) (node.handleVoteRequest request) := by
  have refuses : ∀ voter : Node, ∀ action ∈ voter.voteResponse request.sender false,
      Emits (.voteRequest request) node voter action := fun voter =>
    List.forall_mem_singleton.mpr (.refusedVote rfl)
  rw [handleVoteRequest]
  split_ifs with stale
  · exact .within rfl rfl (.emits (refuses node))
  · by_cases newer : node.term < request.term
    · simp only [voteNeedsPersistence, newer, decide_true, Bool.true_or, reachTerm, if_true,
        persistTermChange, decideVote]
      split_ifs with grants
      · exact .votes (.grants (.inr ⟨rfl, newer⟩) grants)
      · exact .stepsDown rfl rfl rfl newer (refuses _)
    · have current : node.term = request.term := by omega
      simp only [voteNeedsPersistence, newer, decide_false, Bool.false_or, reachTerm, if_false,
        decideVote]
      cases grants : node.grantsVote request with
      | false => exact .within rfl rfl (.emits (refuses node))
      | true =>
          cases durable : node.voteIsDurable request.sender with
          | false => exact .votes (.grants (.inl ⟨rfl, current⟩) grants)
          | true => exact .votes (.repeats current grants durable)

theorem handleVoteResponse_course (response : VoteResponse) :
    Course node (.voteResponse response) (node.handleVoteResponse response) := by
  rw [handleVoteResponse]
  split_ifs with newer ignored few
  · exact .stepsDown rfl rfl rfl newer (List.forall_mem_nil _)
  · exact .within rfl rfl .still
  all_goals simp only [not_or, not_not] at ignored
  · exact .votes (.counts ignored.1 ignored.2.1 ignored.2.2)
  · exact .wins ignored.1 ignored.2.1 ignored.2.2 (Nat.not_lt.mp few)

/-- A message of a Leader is taken after it is accepted, and refused if it is
stale. -/
theorem Course.fromLeader {leader : NodeID} {term : Nat} {refusal : List Action}
    {taken : Node × List Action} (isInput : event.isCompletion = false)
    (isLeader : event.leader = some leader) (carried : event.carries = some term)
    (refuses : ∀ action ∈ refusal, Emits event node node action)
    (body : (node.acceptLeader term leader).term = term →
      Body event node (node.acceptLeader term leader) taken) :
    Course node event
      (if term < node.term then (node, refusal) else persistTermChange
        (node.term < term) taken) := by
  split_ifs with stale
  · refine .acts isInput (.stays ?_) (.emits refuses)
    rintro _ _ - named
    rw [carried] at named
    exact Option.some.inj named ▸ stale
  · have notOlder := Nat.not_lt.mp stale
    exact .acts isInput (.accepts isLeader carried notOlder)
      (body (acceptLeader_term notOlder leader))

theorem handleAppendEntriesResponse_course (response : AppendEntriesResponse) :
    Course node (.appendEntriesResponse response) (node.handleAppendEntriesResponse response) := by
  rw [handleAppendEntriesResponse]
  split_ifs with newer ignored
  · exact .stepsDown rfl rfl rfl newer (List.forall_mem_nil _)
  · exact .within rfl rfl .still
  · exact .within rfl rfl .still
  · simp only [not_or, not_not] at ignored
    exact .within rfl rfl (takeAppendEntriesResponse_body ignored.1)

theorem handleInstallSnapshotResponse_course (response : InstallSnapshotResponse) :
    Course node (.installSnapshotResponse response)
      (node.handleInstallSnapshotResponse response) := by
  rw [handleInstallSnapshotResponse]
  split_ifs with newer ignored
  · exact .stepsDown rfl rfl rfl newer (List.forall_mem_nil _)
  · exact .within rfl rfl .still
  all_goals simp only [not_or, not_not] at ignored
  · have keeps : Keeps node (node.recordSnapshot response) := .of rfl
    exact .within rfl rfl (.quiet (keeps.trans (sendAppendEntriesTo_keeps ..))
      (sendAppendEntriesTo_emits ignored.1 keeps (.inr rfl) _))
  · exact .within rfl rfl (.emits (List.forall_mem_singleton.mpr (.snapshot ignored.1)))
  · exact .within rfl rfl (.quiet (.of rfl) (List.forall_mem_nil _))

/-- Every transition takes one of the courses. -/
theorem step_course (node : Node) (event : Event) : Course node event (node.step event) := by
  cases event with
  | electionTimeout =>
      rw [step, startPreVote]
      split_ifs with leads alone
      · exact .within rfl rfl .still
      · exact .votes (.campaignsAlone alone)
      · exact .votes (.probes leads)
  | heartbeatTimeout =>
      rw [step, heartbeatRound]
      split_ifs with follows
      · exact .within rfl rfl .still
      · have expired : Keeps node node.expireAppends := .of rfl
        exact .within rfl rfl (.quiet (expired.trans (sendAppendEntries_keeps ..))
          (List.forall_mem_cons.mpr
            ⟨.runtime rfl, sendAppendEntries_emits (not_not.mp follows) expired 0⟩))
  | checkQuorumTimeout =>
      rw [step, checkQuorum]
      split_ifs with follows few
      · exact .within rfl rfl .still
      · exact .acts rfl (.resigns rfl (not_not.mp follows) few) (.emits (List.forall_mem_cons.mpr
          ⟨.runtime rfl, List.forall_mem_singleton.mpr (.runtime rfl)⟩))
      · exact .within rfl rfl (.quiet (.of rfl)
          (List.forall_mem_singleton.mpr (.runtime rfl)))
  | hardStatePersisted persistenceID =>
      rw [step, hardStatePersisted]
      cases found : node.pendingHardState persistenceID with
      | none => exact .ignored rfl (by simp [awaits, found])
      | some pending => exact .released found
  | logEntriesPersisted persistenceID =>
      rw [step, logEntriesPersisted]
      cases found : node.pendingLog persistenceID with
      | none => exact .ignored rfl (by simp [awaits, found])
      | some pending => exact .written found (continueLog_body found)
  | commitIndexPersisted persistenceID =>
      rw [step, commitIndexPersisted]
      cases found : node.pendingCommit persistenceID with
      | none => exact .ignored rfl (by simp [awaits, found])
      | some pending => exact .completed found rfl
  | recoverCommitted =>
      have body : Body .recoverCommitted node node _ :=
        .applied (.inl rfl) (Nat.le_refl _) (List.forall_mem_nil _) (List.forall_mem_nil _)
      rw [List.append_nil] at body
      exact .within rfl rfl body
  | snapshotCompacted index term => exact .within rfl rfl (.compacted rfl)
  | proposeSession proposal =>
      rw [step, proposeSession]
      split_ifs with follows
      · exact .answered rfl rfl rfl
      · exact .within rfl rfl .still
      · exact .within rfl rfl (.appended rfl (not_not.mp follows) rfl rfl)
  | proposeSet proposal =>
      rw [step, proposeSet]
      split_ifs with follows
      · exact .answered rfl rfl rfl
      · exact .within rfl rfl (.appended rfl (not_not.mp follows) rfl rfl)
  | proposeDelete proposal =>
      rw [step, proposeDelete]
      split_ifs with follows
      · exact .answered rfl rfl rfl
      · exact .within rfl rfl (.appended rfl (not_not.mp follows) rfl rfl)
  | confirmRead readID =>
      rw [step, confirmRead]
      split_ifs with follows
      · exact .answered rfl rfl rfl
      · exact .answered rfl rfl rfl
      · exact .within rfl rfl (sendAppendEntries_body (not_not.mp follows)
          (.of rfl) readID)
  | preVoteRequest request =>
      exact .within rfl rfl (.emits (List.forall_mem_singleton.mpr (.preVoteResponse rfl)))
  | preVoteResponse response => exact handlePreVoteResponse_course response
  | voteRequest request => exact handleVoteRequest_course request
  | voteResponse response => exact handleVoteResponse_course response
  | appendEntries request =>
      exact .fromLeader rfl rfl rfl (List.forall_mem_singleton.mpr (.rejected rfl))
        takeAppendEntries_body
  | appendEntriesResponse response => exact handleAppendEntriesResponse_course response
  | appendEntriesFailed receiver requestID =>
      exact .within rfl rfl (.quiet (.of rfl) (List.forall_mem_nil _))
  | installSnapshot request =>
      exact .fromLeader rfl rfl rfl (List.forall_mem_singleton.mpr (.installResponse rfl))
        takeInstallSnapshot_body
  | installSnapshotResponse response => exact handleInstallSnapshotResponse_course response

/-! ## What a body leaves alone -/

/-- The log of a Node with what is committed, applied and pending of it. -/
structure Substance where
  lastLogIndex : Nat
  lastLogTerm : Nat
  durableLogIndex : Nat
  logBaseIndex : Nat
  logBaseTerm : Nat
  log : List LogEntry
  commitIndex : Nat
  lastApplied : Nat
  readReady : Bool
  nextLogPersistence : Nat
  pendingLog : Nat → Option PendingLogPersistence
  durableCommitIndex : Nat
  nextCommitPersistence : Nat
  pendingCommit : Nat → Option PendingCommitPersistence

def substance (node : Node) : Substance where
  lastLogIndex := node.lastLogIndex
  lastLogTerm := node.lastLogTerm
  durableLogIndex := node.durableLogIndex
  logBaseIndex := node.logBaseIndex
  logBaseTerm := node.logBaseTerm
  log := node.log
  commitIndex := node.commitIndex
  lastApplied := node.lastApplied
  readReady := node.readReady
  nextLogPersistence := node.nextLogPersistence
  pendingLog := node.pendingLog
  durableCommitIndex := node.durableCommitIndex
  nextCommitPersistence := node.nextCommitPersistence
  pendingCommit := node.pendingCommit

def carry (node : Node) (substance : Substance) : Node :=
  { node with
    lastLogIndex := substance.lastLogIndex
    lastLogTerm := substance.lastLogTerm
    durableLogIndex := substance.durableLogIndex
    logBaseIndex := substance.logBaseIndex
    logBaseTerm := substance.logBaseTerm
    log := substance.log
    commitIndex := substance.commitIndex
    lastApplied := substance.lastApplied
    readReady := substance.readReady
    nextLogPersistence := substance.nextLogPersistence
    pendingLog := substance.pendingLog
    durableCommitIndex := substance.durableCommitIndex
    nextCommitPersistence := substance.nextCommitPersistence
    pendingCommit := substance.pendingCommit }

/-- The Nodes differ at most in their notes and in their log. -/
def Furthers (node after : Node) : Prop :=
  ∃ substance notes, after = (node.carry substance).note notes

theorem Furthers.of {after : Node} (same : after = (node.carry after.substance).note after.notes) :
    Furthers node after :=
  ⟨_, _, same⟩

theorem appendOwnEntry_furthers (node : Node) (entry : LogEntry) :
    Furthers node (node.appendOwnEntry entry).1 := by
  rcases node.appendEntries_frame [entry] with ⟨_, _, _, frame⟩
  rw [appendOwnEntry, frame]
  exact .of rfl

theorem applyThrough_furthers (node : Node) (index : Nat) :
    Furthers node (node.applyThrough index).1 := by
  rcases node.applyThrough_frame index with ⟨_, _, _, frame⟩
  rw [frame]
  exact .of rfl

theorem Body.furthers {result : Node × List Action} (body : Body event origin node result) :
    Furthers node result.1 := by
  cases body with
  | quiet keeps =>
      rcases keeps with ⟨_, rfl⟩
      exact .of rfl
  | appended => exact node.appendOwnEntry_furthers _
  | @stored _ newEntries truncateFrom =>
      rcases node.replaceSuffix_frame newEntries truncateFrom with ⟨_, _, _, _, frame⟩
      simp only [storeEntries, frame]
      exact .of rfl
  | committed _ _ keeps _ kept =>
      rcases keeps with ⟨_, rfl⟩
      rcases kept with ⟨_, rfl⟩
      exact .of rfl
  | applied => exact node.applyThrough_furthers _
  | @installed request =>
      rcases node.installSnapshotBase_frame request with ⟨_, _, _, _, _, _, frame⟩
      rw [frame]
      exact .of rfl
  | compacted =>
      rw [compactLog]
      split_ifs <;> exact .of rfl

/-! ## What a change of office leaves alone -/

/-- What a Node holds by election or by following. -/
structure Mandate where
  role : Role
  term : Nat
  votedFor : NodeID
  leaderID : NodeID
  recentLeaderContact : Bool
  readReady : Bool
  votes : Finset NodeID

def mandate (node : Node) : Mandate where
  role := node.role
  term := node.term
  votedFor := node.votedFor
  leaderID := node.leaderID
  recentLeaderContact := node.recentLeaderContact
  readReady := node.readReady
  votes := node.votes

def hold (node : Node) (mandate : Mandate) : Node :=
  { node with
    role := mandate.role
    term := mandate.term
    votedFor := mandate.votedFor
    leaderID := mandate.leaderID
    recentLeaderContact := mandate.recentLeaderContact
    readReady := mandate.readReady
    votes := mandate.votes }

/-- The Nodes differ at most in their mandate and notes, and the Term does not
fall. -/
structure Reaches (node middle : Node) : Prop where
  same : ∃ mandate notes, middle = (node.hold mandate).note notes
  term : node.term ≤ middle.term

theorem Reaches.of {middle : Node} (same : middle = (node.hold middle.mandate).note middle.notes)
    (term : node.term ≤ middle.term) : Reaches node middle :=
  ⟨⟨_, _, same⟩, term⟩

section

variable {middle : Node} {delayed : Bool} (reach : Reach event node middle delayed)

include reach

theorem Reach.reaches :
    Reaches node middle := by
  cases reach with
  | stays => exact .of rfl (Nat.le_refl _)
  | @accepts leader term _ _ notOlder =>
      have reached := acceptLeader_term notOlder leader
      rcases node.acceptLeader_frame term leader with ⟨_, _, _, _, _, _, _, _, _, _, frame⟩
      rw [frame] at reached ⊢
      exact .of rfl (Nat.le_trans notOlder reached.ge)
  | deposed _ _ newer => exact .of rfl newer.le
  | resigns => exact .of rfl (Nat.le_refl _)

/-- Whoever acts in the Term of a Leader's message has accepted the Leader. -/
theorem Reach.accepted {leader : NodeID} {term : Nat} (isLeader : event.leader = some leader)
    (carried : event.carries = some term) (current : middle.term = term) :
    node.term ≤ term ∧ middle = node.acceptLeader term leader := by
  cases reach with
  | stays older => exact absurd current (Nat.ne_of_gt (older _ _ isLeader carried))
  | accepts isNamed named notOlder =>
      rw [isLeader] at isNamed
      rw [carried] at named
      cases isNamed
      cases named
      exact ⟨notOlder, rfl⟩
  | deposed noLeader =>
      rw [isLeader] at noLeader
      cases noLeader
  | resigns isTimeout =>
      subst isTimeout
      cases isLeader

/-- A Leader that keeps its office has not moved. -/
theorem Reach.of_leader (leads : middle.role = .leader) : middle = node := by
  cases reach with
  | stays => rfl
  | @accepts leader term =>
      rcases node.acceptLeader_frame term leader with ⟨_, _, _, _, _, _, _, _, _, _, frame⟩
      rw [frame] at leads
      cases leads
  | deposed => cases leads
  | resigns => cases leads

end

/-- A message or a timer of an election. -/
inductive Elects (event : Event) (node : Node) : Action → Prop
  | resetElectionTimer : Elects event node .resetElectionTimer
  | preVoteRequest {peer : NodeID} {request : PreVoteRequest} : peer ∈ node.peers →
      request.sender = node.id → Elects event node (.sendPreVoteRequest peer request)
  | voteRequest {peer : NodeID} {request : VoteRequest} : peer ∈ node.peers →
      request.sender = node.id → request.term = node.term →
      Elects event node (.sendVoteRequest peer request)
  | grantedVote {request : VoteRequest} : event = .voteRequest request →
      Elects event node (.sendVoteResponse request.sender ⟨node.id, node.term, true⟩)

theorem voteRequests_elect (node : Node) :
    ∀ action ∈ .resetElectionTimer :: node.voteRequests, Elects event node action := by
  intro action present
  rcases List.mem_cons.mp present with rfl | request
  · exact .resetElectionTimer
  · rcases List.mem_map.mp request with ⟨peer, isPeer, rfl⟩
    exact .voteRequest isPeer rfl rfl

theorem preVoteRequests_elect (node : Node) :
    ∀ action ∈ .resetElectionTimer :: node.preVoteRequests, Elects event node action := by
  intro action present
  rcases List.mem_cons.mp present with rfl | request
  · exact .resetElectionTimer
  · rcases List.mem_map.mp request with ⟨peer, isPeer, rfl⟩
    exact .preVoteRequest isPeer rfl

theorem Ballots.elects {leading : List Action} {middle : Node} {delayed : Bool}
    (ballots : Ballots node event leading middle actions delayed) :
    Reaches node middle ∧ (∀ action ∈ leading, Elects event node action) ∧
      ∀ action ∈ actions, Elects event middle action := by
  have granted : ∀ voter : Node, ∀ request : VoteRequest, event = .voteRequest request →
      ∀ action ∈ voter.voteResponse request.sender true,
        Elects event (voter.castVote request.sender) action := fun _ _ isRequest =>
    List.forall_mem_singleton.mpr (.grantedVote isRequest)
  cases ballots with
  | probes =>
      exact ⟨.of rfl (Nat.le_refl _), List.forall_mem_nil _,
        node.becomePreCandidate.preVoteRequests_elect⟩
  | campaignsAlone =>
      exact ⟨.of rfl (Nat.le_succ _), node.preVoteRequests_elect, voteRequests_elect _⟩
  | campaigns => exact ⟨.of rfl (Nat.le_succ _), List.forall_mem_nil _, voteRequests_elect _⟩
  | grants reach =>
      rcases reach with ⟨rfl, _⟩ | ⟨rfl, newer⟩
      · exact ⟨.of rfl (Nat.le_refl _), List.forall_mem_nil _, granted _ _ rfl⟩
      · exact ⟨.of rfl newer.le, List.forall_mem_nil _, granted _ _ rfl⟩
  | repeats => exact ⟨.of rfl (Nat.le_refl _), List.forall_mem_nil _, granted _ _ rfl⟩
  | counts => exact ⟨.of rfl (Nat.le_refl _), List.forall_mem_nil _, List.forall_mem_nil _⟩

end Node

end Ternion.Raft
