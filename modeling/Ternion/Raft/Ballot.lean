import Ternion.Raft.Course

/-! # What a transition does to elections

The Term, vote and role of a Node and the durability of its vote change in few
ways. `Ballot.Step` lists them together with the actions that matter to an
election, and every transition of the core is one of them.
-/

namespace Ternion.Raft

/-- The part of a Node that elections depend on. -/
structure Ballot where
  id : NodeID
  quorum : Nat
  role : Role
  term : Nat
  votedFor : NodeID
  votes : Finset NodeID
  durableTerm : Nat
  durableVotedFor : NodeID
  nextHardStatePersistence : Nat
  pendingHardState : Nat → Option PendingHardStatePersistence

def Node.ballot (node : Node) : Ballot where
  id := node.id
  quorum := node.quorum
  role := node.role
  term := node.term
  votedFor := node.votedFor
  votes := node.votes
  durableTerm := node.durableTerm
  durableVotedFor := node.durableVotedFor
  nextHardStatePersistence := node.nextHardStatePersistence
  pendingHardState := node.pendingHardState

/-- The actions an election depends on. -/
def Action.electoral : Action → Bool
  | .persistHardState .. => true
  | .sendVoteRequest .. => true
  | .sendVoteResponse _ response => response.granted
  | .becameLeader _ => true
  | _ => false

namespace Ballot

/-- Step down into a newer Term. -/
def follow (ballot : Ballot) (term : Nat) : Ballot :=
  { ballot with term := term, votedFor := "", role := .follower, votes := ∅ }

def persist (ballot : Ballot) (after : List Action) : Ballot :=
  { ballot with
    nextHardStatePersistence := ballot.nextHardStatePersistence + 1
    pendingHardState := Function.update ballot.pendingHardState
      (ballot.nextHardStatePersistence + 1)
      (some { term := ballot.term, votedFor := ballot.votedFor, after := after }) }

def complete (ballot : Ballot) (persistenceID : Nat) (pending : PendingHardStatePersistence) :
    Ballot :=
  { ballot with
    pendingHardState := Function.update ballot.pendingHardState persistenceID none
    durableTerm := pending.term
    durableVotedFor := pending.votedFor }

/-- The vote of the current Term may go to `candidate`. -/
def Free (ballot : Ballot) (candidate : NodeID) : Prop :=
  ballot.votedFor = "" ∨ ballot.votedFor = candidate

/-- One transition, with the electoral actions it emits. -/
inductive Step (ballot : Ballot) : Event → Ballot → List Action → Prop
  | same {event} : Step ballot event ballot []
  | demoted {event role votes} : role ≠ .candidate →
      Step ballot event { ballot with role := role, votes := votes } []
  | raised {event term after} : ballot.term < term →
      (∀ action ∈ after, action.electoral = false) →
      Step ballot event ((ballot.follow term).persist after)
        [.persistHardState (ballot.nextHardStatePersistence + 1) term ""]
  | granted {request : VoteRequest} {reached : Ballot} :
      (reached = ballot ∧ ballot.term = request.term ∧ ballot.Free request.sender ∨
        reached = ballot.follow request.term ∧ ballot.term < request.term) →
      Step ballot (.voteRequest request)
        ({ reached with votedFor := request.sender }.persist
          [.sendVoteResponse request.sender ⟨ballot.id, request.term, true⟩])
        [.persistHardState (ballot.nextHardStatePersistence + 1) request.term request.sender]
  | confirmed {request : VoteRequest} :
      ballot.term = request.term → ballot.Free request.sender →
      ballot.durableTerm = request.term → ballot.durableVotedFor = request.sender →
      Step ballot (.voteRequest request) { ballot with votedFor := request.sender }
        [.sendVoteResponse request.sender ⟨ballot.id, request.term, true⟩]
  | campaign {event after} :
      (∀ action ∈ after, action.electoral → ∃ receiver lastLogIndex lastLogTerm,
        action = .sendVoteRequest receiver
          ⟨ballot.id, ballot.term + 1, lastLogIndex, lastLogTerm⟩) →
      Step ballot event
        ({ ballot with
          role := .candidate
          term := ballot.term + 1
          votedFor := ballot.id
          votes := {ballot.id} }.persist after)
        [.persistHardState (ballot.nextHardStatePersistence + 1) (ballot.term + 1) ballot.id]
  | counted {response : VoteResponse} :
      ballot.role = .candidate → response.term = ballot.term → response.granted →
      Step ballot (.voteResponse response)
        { ballot with votes := insert response.sender ballot.votes } []
  | won {response : VoteResponse} :
      ballot.role = .candidate → response.term = ballot.term → response.granted →
      ballot.quorum ≤ (insert response.sender ballot.votes).card →
      Step ballot (.voteResponse response)
        { ballot with role := .leader, votes := insert response.sender ballot.votes }
        [.becameLeader ballot.term]
  | released {persistenceID pending} :
      ballot.pendingHardState persistenceID = some pending →
      Step ballot (.hardStatePersisted persistenceID) (ballot.complete persistenceID pending)
        (if pending.term ≠ ballot.term ∨ pending.votedFor ≠ ballot.votedFor then []
          else pending.after.filter Action.electoral)

/-- A Node becomes a candidate only of a newer Term. -/
theorem Step.candidate {before after : Ballot} {event : Event} {electoral : List Action}
    (taken : before.Step event after electoral) (isCandidate : after.role = .candidate) :
    before.role = .candidate ∧ after.term = before.term ∨ before.term < after.term := by
  cases taken with
  | same => exact .inl ⟨isCandidate, rfl⟩
  | demoted demoted => exact absurd isCandidate demoted
  | raised _ _ => cases isCandidate
  | granted reach =>
      rcases reach with ⟨rfl, _⟩ | ⟨rfl, _⟩
      · exact .inl ⟨isCandidate, rfl⟩
      · cases isCandidate
  | confirmed => exact .inl ⟨isCandidate, rfl⟩
  | campaign _ => exact .inr (Nat.lt_succ_self _)
  | counted already _ _ => exact .inl ⟨already, rfl⟩
  | won => cases isCandidate
  | released _ => exact .inl ⟨isCandidate, rfl⟩

end Ballot

namespace Node

variable {node : Node}

theorem newNodeFromRecoveredState_ballot (id : NodeID) (peers : List NodeID)
    (recovered : RecoveredState) :
    (newNodeFromRecoveredState id peers recovered).ballot =
      { id := id
        quorum := (peers.length + 1) / 2 + 1
        role := .follower
        term := recovered.hardState.term
        votedFor := recovered.hardState.votedFor
        votes := ∅
        durableTerm := recovered.hardState.term
        durableVotedFor := recovered.hardState.votedFor
        nextHardStatePersistence := 0
        pendingHardState := fun _ => none } := by
  have sameLength : (peers.insertionSort (· ≤ ·)).length = peers.length :=
    (List.perm_insertionSort _ peers).length_eq
  unfold newNodeFromRecoveredState
  split_ifs <;> dsimp only <;> split <;> simp [ballot, quorum, sameLength]

/-- What waits for a commit index to become durable never is electoral. -/
def CommitsQuiet (node : Node) : Prop :=
  ∀ persistenceID pending, node.pendingCommit persistenceID = some pending →
    ∀ action ∈ pending.after, action.electoral = false

theorem newNodeFromRecoveredState_commitsQuiet (id : NodeID) (peers : List NodeID)
    (recovered : RecoveredState) : (newNodeFromRecoveredState id peers recovered).CommitsQuiet := by
  have empty : (newNodeFromRecoveredState id peers recovered).pendingCommit = fun _ => none := by
    unfold newNodeFromRecoveredState
    split_ifs <;> dsimp only <;> split <;> rfl
  intro persistenceID pending found
  simp [empty] at found

/-- A transition changes elections in one of the listed ways. -/
structure Decides (node : Node) (event : Event) (result : Node × List Action) : Prop where
  step : Ballot.Step node.ballot event result.1.ballot (result.2.filter Action.electoral)
  commits : node.CommitsQuiet → result.1.CommitsQuiet

/-! ## Bodies have no electoral effect -/

variable {origin middle : Node} {event : Event} {result : Node × List Action}
  {leading actions : List Action} {delayed : Bool}

theorem Reports.not_electoral {action : Action} (reports : Reports action) :
    action.electoral = false := by
  cases reports <;> rfl

theorem not_electoral_of_isLocal {action : Action} (isLocal : action.isLocal = true) :
    action.electoral = false := by
  cases action <;> first | rfl | cases isLocal

theorem Emits.not_electoral {action : Action} (emits : Emits event origin node action) :
    action.electoral = false := by
  cases emits with
  | runtime isLocal => exact not_electoral_of_isLocal isLocal
  | _ => rfl

theorem Body.not_electoral (body : Body event origin node result) :
    ∀ action ∈ result.2, action.electoral = false := by
  intro action present
  cases body with
  | quiet _ emits => exact (emits action present).not_electoral
  | appended =>
      simp only [proposeEntry, appendOwnEntry, persistLog, List.mem_cons, List.not_mem_nil,
        or_false] at present
      rcases present with rfl | rfl <;> rfl
  | stored =>
      simp only [storeEntries, persistLog, List.mem_cons, List.not_mem_nil, or_false] at present
      rcases present with rfl | rfl <;> rfl
  | committed _ _ _ _ _ early late =>
      simp only [List.mem_append, persistCommit, List.mem_singleton] at present
      rcases present with first | rfl | last
      · exact not_electoral_of_isLocal (early action first)
      · rfl
      · exact not_electoral_of_isLocal (late action last)
  | applied _ _ early emits =>
      simp only [List.mem_append] at present
      rcases present with first | reported | last
      · exact not_electoral_of_isLocal (early action first)
      · exact (node.applyThrough_reports _ reported).not_electoral
      · exact (emits action last).not_electoral
  | installed _ _ _ _ emits => exact (emits action present).not_electoral
  | compacted => cases present

theorem Furthers.ballot (furthers : Furthers node middle) : middle.ballot = node.ballot := by
  rcases furthers with ⟨_, _, rfl⟩
  rfl

theorem Body.commitsQuiet (body : Body event origin node result) (commits : node.CommitsQuiet) :
    result.1.CommitsQuiet := by
  cases body with
  | quiet keeps =>
      rcases keeps with ⟨_, rfl⟩
      exact commits
  | @appended _ entry =>
      rcases node.appendEntries_frame [entry] with ⟨_, _, _, frame⟩
      simp only [proposeEntry, appendOwnEntry, frame]
      exact commits
  | @stored _ newEntries truncateFrom =>
      rcases node.replaceSuffix_frame newEntries truncateFrom with ⟨_, _, _, _, frame⟩
      simp only [storeEntries, frame]
      exact commits
  | committed _ _ keeps emits kept =>
      rcases keeps with ⟨_, rfl⟩
      rcases kept with ⟨_, rfl⟩
      intro persistenceID pending found
      simp only [note, persistCommit, Function.update_apply] at found
      split_ifs at found
      · rw [← Option.some.inj found]
        exact fun action present => (emits action present).not_electoral
      · exact commits persistenceID pending found
  | @applied index =>
      rcases node.applyThrough_frame index with ⟨_, _, _, frame⟩
      rw [frame]
      exact commits
  | @installed request =>
      rcases node.installSnapshotBase_frame request with ⟨_, _, _, _, _, _, frame⟩
      rw [frame]
      exact commits
  | compacted =>
      rw [compactLog]
      split_ifs <;> exact commits

/-! ## Terms and votes -/

theorem becomeFollower_ballot {term : Nat} (newer : node.term < term) (leader : NodeID) :
    (node.becomeFollower term leader).ballot = node.ballot.follow term := by
  simp [ballot, becomeFollower, Ballot.follow, newer, quorum]

/-- Stepping down into a newer Term, followed by actions without electoral effect. -/
theorem raised_step {term : Nat} (newer : node.term < term)
    (reached : result.1.ballot = node.ballot.follow term)
    (silent : ∀ action ∈ result.2, action.electoral = false) :
    Ballot.Step node.ballot event (result.1.persistHardState result.2).1.ballot
      ((result.1.persistHardState result.2).2.filter Action.electoral) := by
  have persisted : (result.1.persistHardState result.2).1.ballot =
      (node.ballot.follow term).persist result.2 := by
    rw [← reached]
    rfl
  have emitted : (result.1.persistHardState result.2).2.filter Action.electoral =
      [.persistHardState (node.nextHardStatePersistence + 1) term ""] := by
    have next := congrArg Ballot.nextHardStatePersistence reached
    have sameTerm := congrArg Ballot.term reached
    have vote := congrArg Ballot.votedFor reached
    simp only [ballot, Ballot.follow] at next sameTerm vote
    simp [persistHardState, Action.electoral, next, sameTerm, vote]
  rw [persisted, emitted]
  exact .raised newer silent

/-- Reaching an office, followed by actions without electoral effect. -/
theorem Reach.step (reach : Reach event node middle delayed)
    (same : result.1.ballot = middle.ballot)
    (silent : ∀ action ∈ result.2, action.electoral = false) :
    Ballot.Step node.ballot event (persistTermChange delayed result).1.ballot
      ((persistTermChange delayed result).2.filter Action.electoral) := by
  have nothing : result.2.filter Action.electoral = [] :=
    List.filter_eq_nil_iff.mpr (by simpa using silent)
  cases reach with
  | stays =>
      rw [persistTermChange, if_neg (by simp), same, nothing]
      exact .same
  | @accepts leader term =>
      by_cases newer : node.term < term
      · rw [decide_eq_true newer]
        apply raised_step newer _ silent
        rw [same, acceptLeader, if_pos newer, ← becomeFollower_ballot newer leader]
        rfl
      · rw [decide_eq_false newer, persistTermChange, if_neg (by simp), same, nothing, acceptLeader,
          if_neg newer]
        exact .demoted (by simp)
  | deposed _ _ newer =>
      exact raised_step newer (same.trans (becomeFollower_ballot newer "")) silent
  | resigns =>
      have demoted : (node.becomeFollower node.term "").ballot =
          { node.ballot with role := .follower, votes := ∅ } := by
        simp [ballot, becomeFollower, quorum]
      rw [persistTermChange, if_neg (by simp), same, nothing, demoted]
      exact .demoted (by decide)

/-- The requests of an election name the candidate and its new Term. -/
theorem voteRequests_electoral (node : Node) :
    ∀ action ∈ .resetElectionTimer :: node.becomeCandidate.voteRequests, action.electoral →
      ∃ receiver lastLogIndex lastLogTerm, action = .sendVoteRequest receiver
        ⟨node.id, node.term + 1, lastLogIndex, lastLogTerm⟩ := by
  intro action emitted matters
  rcases List.mem_cons.mp emitted with rfl | request
  · cases matters
  · rcases List.mem_map.mp request with ⟨peer, _, rfl⟩
    exact ⟨peer, _, _, rfl⟩

/-- A vote that waits for its persistence. -/
theorem granted_step {request : VoteRequest} {reached : Node}
    (sameTerm : reached.term = request.term)
    (free : reached.ballot = node.ballot ∧ node.term = request.term ∧
        node.ballot.Free request.sender ∨
      reached.ballot = node.ballot.follow request.term ∧ node.term < request.term) :
    Ballot.Step node.ballot (.voteRequest request)
      ((reached.castVote request.sender).persistHardState
        (reached.voteResponse request.sender true)).1.ballot
      (((reached.castVote request.sender).persistHardState
        (reached.voteResponse request.sender true)).2.filter Action.electoral) := by
  have sameID : reached.id = node.id := by
    rcases free with ⟨same, _⟩ | ⟨raised, _⟩
    · exact congrArg Ballot.id same
    · exact congrArg Ballot.id raised
  have sameNext : reached.nextHardStatePersistence = node.nextHardStatePersistence := by
    rcases free with ⟨same, _⟩ | ⟨raised, _⟩
    · exact congrArg Ballot.nextHardStatePersistence same
    · exact congrArg Ballot.nextHardStatePersistence raised
  have answer : reached.voteResponse request.sender true =
      [.sendVoteResponse request.sender ⟨node.id, request.term, true⟩] := by
    rw [voteResponse, sameID, sameTerm]
  have persisted : ((reached.castVote request.sender).persistHardState
      (reached.voteResponse request.sender true)).1.ballot =
      { reached.ballot with votedFor := request.sender }.persist
        [.sendVoteResponse request.sender ⟨node.id, request.term, true⟩] := by
    rw [answer]
    rfl
  have emitted : ((reached.castVote request.sender).persistHardState
      (reached.voteResponse request.sender true)).2.filter Action.electoral =
      [.persistHardState (node.nextHardStatePersistence + 1) request.term request.sender] := by
    simp [persistHardState, castVote, Action.electoral, sameNext, sameTerm]
  rw [persisted, emitted]
  exact .granted free

theorem Ballots.step (ballots : Ballots node event leading middle actions delayed) :
    Ballot.Step node.ballot event (persistTermChange delayed (middle, actions)).1.ballot
      ((leading ++ (persistTermChange delayed (middle, actions)).2).filter Action.electoral) := by
  have free : ∀ {request : VoteRequest}, node.grantsVote request = true →
      node.ballot.Free request.sender := by
    intro request grants
    simp only [grantsVote, Bool.and_eq_true, decide_eq_true_eq] at grants
    exact grants.1
  have probing : (.resetElectionTimer :: node.preVoteRequests).filter Action.electoral = [] := by
    simp [preVoteRequests, Action.electoral]
  cases ballots with
  | probes =>
      rw [persistTermChange, if_neg (by simp), List.nil_append, probing]
      exact .demoted (by simp [becomePreCandidate])
  | campaignsAlone =>
      rw [List.filter_append, probing, List.nil_append]
      exact .campaign node.becomePreCandidate.voteRequests_electoral
  | @campaigns response =>
      exact .campaign (node.recordPreVote response.sender).voteRequests_electoral
  | grants reached grants =>
      rcases reached with ⟨rfl, current⟩ | ⟨rfl, newer⟩
      · exact granted_step current (.inl ⟨rfl, current, free grants⟩)
      · exact granted_step rfl (.inr ⟨becomeFollower_ballot newer "", newer⟩)
  | @repeats request current grants durable =>
      have answer : (node.voteResponse request.sender true).filter Action.electoral =
          [.sendVoteResponse request.sender ⟨node.id, request.term, true⟩] := by
        simp [voteResponse, Action.electoral, current]
      simp only [voteIsDurable, decide_eq_true_eq] at durable
      rw [persistTermChange, if_neg (by simp), List.nil_append, answer]
      exact .confirmed current (free grants) (durable.1.trans current) durable.2
  | counts running current granted => exact .counted running current granted

/-! ## Every transition -/

theorem persistTermChange_pendingCommit (changed : Bool) (result : Node × List Action) :
    (persistTermChange changed result).1.pendingCommit = result.1.pendingCommit := by
  rw [persistTermChange]
  split_ifs <;> rfl

theorem CommitsQuiet.reaches (commits : node.CommitsQuiet) (reaches : Reaches node middle) :
    middle.CommitsQuiet := by
  rcases reaches.same with ⟨_, _, rfl⟩
  exact commits

/-- Every transition of the core changes elections in one of the listed ways. -/
theorem step_decides (commits : node.CommitsQuiet) (event : Event) :
    Decides node event (node.step event) := by
  have course := node.step_course event
  generalize node.step event = result at course ⊢
  cases course with
  | @acts _ _ _ result _ reach body =>
      refine ⟨reach.step body.furthers.ballot body.not_electoral, fun _ => ?_⟩
      rw [CommitsQuiet, persistTermChange_pendingCommit]
      exact body.commitsQuiet (commits.reaches reach.reaches)
  | votes ballots =>
      refine ⟨ballots.step, fun _ => ?_⟩
      rw [CommitsQuiet, persistTermChange_pendingCommit]
      exact commits.reaches ballots.elects.1
  | @wins response running current isGranted enough =>
      rcases (node.recordVote response.sender).becomeLeader.appendEntries_frame
        [(node.recordVote response.sender).noOp] with ⟨_, _, _, frame⟩
      simp only [lead, appendOwnEntry, frame]
      exact ⟨.won running current isGranted enough, fun _ => commits⟩
  | ignored => exact ⟨.same, fun _ => commits⟩
  | released found =>
      have released : Ballot.Step node.ballot _ _ _ := .released found
      refine ⟨?_, fun _ => commits⟩
      rw [apply_ite (List.filter Action.electoral)]
      exact released
  | written _ body =>
      constructor
      · rw [body.furthers.ballot, List.filter_eq_nil_iff.mpr (by simpa using body.not_electoral)]
        exact .same
      · exact fun _ => body.commitsQuiet commits
  | @completed persistenceID pending _ found isApplied =>
      subst isApplied
      have silent : ∀ action ∈ ((node.completeCommit persistenceID pending).applyThrough
          pending.commitIndex).2 ++ pending.after, action.electoral = false := by
        intro action present
        rcases List.mem_append.mp present with reported | released
        · exact (applyThrough_reports _ _ reported).not_electoral
        · exact commits persistenceID pending found action released
      constructor
      · dsimp only
        rw [(applyThrough_furthers _ _).ballot, List.filter_eq_nil_iff.mpr (by simpa using silent)]
        exact .same
      · intro _ other waiting isWaiting
        rcases (node.completeCommit persistenceID pending).applyThrough_frame pending.commitIndex
          with ⟨_, _, _, frame⟩
        rw [frame] at isWaiting
        exact commits other waiting (of_update_none isWaiting)

end Node

end Ternion.Raft
