import Ternion.Raft.Course

/-! # What a Follower claims to hold

A successful response claims a position of the log for a Term. Claims are made
when a request brings nothing new or when new entries become durable, and until
they are sent they wait for a hard state or for a commit index to become
durable. The lemmas below follow every claim through a transition.
-/

namespace Ternion.Raft

variable {action : Action}

/-- The Term and position that a successful response claims. -/
def Action.claim : Action → Option (Nat × Nat)
  | .sendAppendEntriesResponse _ response =>
      if response.success then some (response.term, response.matchIndex) else none
  | _ => none

/-- Everything that actions claim holds. -/
def Claims (holds : Nat → Nat → Prop) (actions : List Action) : Prop :=
  ∀ action ∈ actions, ∀ claim, action.claim = some claim → holds claim.1 claim.2

namespace Claims

variable {holds wider : Nat → Nat → Prop} {actions more : List Action}

theorem mono (claims : Claims holds actions)
    (widens : ∀ term index, holds term index → wider term index) : Claims wider actions :=
  fun action present claim made => widens _ _ (claims action present claim made)

theorem silent (silent : ∀ action ∈ actions, action.claim = none) : Claims holds actions := by
  intro action present claim made
  rw [silent action present] at made
  cases made

theorem cons (claims : Claims holds actions) (silent : action.claim = none) :
    Claims holds (action :: actions) := by
  intro emitted present claim made
  rcases List.mem_cons.mp present with rfl | later
  · rw [silent] at made
    cases made
  · exact claims emitted later claim made

theorem append (first : Claims holds actions) (second : Claims holds more) :
    Claims holds (actions ++ more) := by
  intro action present
  rcases List.mem_append.mp present with early | late
  · exact first action early
  · exact second action late

end Claims

namespace Node

variable {node : Node} {holds : Nat → Nat → Prop}

/-- Whatever waits in a Node claims what holds. A claim that waits for a hard
state is of that hard state's Term. -/
structure Parked (holds : Nat → Nat → Prop) (node : Node) : Prop where
  hardStates : ∀ {persistenceID pending}, node.pendingHardState persistenceID = some pending →
    Claims (fun term index => term = pending.term ∧ holds term index) pending.after
  logs : ∀ {persistenceID pending}, node.pendingLog persistenceID = some pending →
    pending.purpose = .persistFollowerAppend → holds pending.term pending.lastIndex
  commits : ∀ {persistenceID pending}, node.pendingCommit persistenceID = some pending →
    Claims holds pending.after

theorem Parked.mono {wider : Nat → Nat → Prop} (parked : Parked holds node)
    (widens : ∀ term index, holds term index → wider term index) : Parked wider node where
  hardStates := fun found => (parked.hardStates found).mono fun _ _ both =>
    ⟨both.1, widens _ _ both.2⟩
  logs := fun found follower => widens _ _ (parked.logs found follower)
  commits := fun found => (parked.commits found).mono widens

/-- A transition adds claims that hold, and sends claims of its own Term. -/
structure Parks (holds : Nat → Nat → Prop) (node : Node) (result : Node × List Action) :
    Prop where
  hardStates : ∀ {persistenceID pending},
    result.1.pendingHardState persistenceID = some pending →
    node.pendingHardState persistenceID = some pending ∨
      Claims (fun term index => term = pending.term ∧ holds term index) pending.after
  logs : ∀ {persistenceID pending}, result.1.pendingLog persistenceID = some pending →
    node.pendingLog persistenceID = some pending ∨
      (pending.purpose = .persistFollowerAppend → holds pending.term pending.lastIndex)
  commits : ∀ {persistenceID pending}, result.1.pendingCommit persistenceID = some pending →
    node.pendingCommit persistenceID = some pending ∨ Claims holds pending.after
  actions : Claims (fun term index => term = result.1.term ∧ holds term index) result.2

theorem Parks.parked {result : Node × List Action} (parks : Parks holds node result)
    (parked : Parked holds node) : Parked holds result.1 where
  hardStates := fun found => (parks.hardStates found).elim parked.hardStates fun claims => claims
  logs := fun found follower => (parks.logs found).elim
    (fun older => parked.logs older follower) (fun isHeld => isHeld follower)
  commits := fun found => (parks.commits found).elim parked.commits fun claims => claims

namespace Parks

variable {result : Node × List Action}

section

variable (hardStates : result.1.pendingHardState = node.pendingHardState)
  (logs : result.1.pendingLog = node.pendingLog)
  (commits : result.1.pendingCommit = node.pendingCommit)

include hardStates logs commits

/-- Nothing waits that did not wait before. -/
theorem emits
    (claims : Claims (fun term index => term = result.1.term ∧ holds term index) result.2) :
    Parks holds node result where
  hardStates := fun found => .inl (hardStates ▸ found)
  logs := fun found => .inl (logs ▸ found)
  commits := fun found => .inl (commits ▸ found)
  actions := claims

theorem quiet (silent : ∀ action ∈ result.2, action.claim = none) : Parks holds node result :=
  emits hardStates logs commits (.silent silent)

end

theorem following {middle : Node} (parks : Parks holds middle result)
    (hardStates : middle.pendingHardState = node.pendingHardState)
    (logs : middle.pendingLog = node.pendingLog)
    (commits : middle.pendingCommit = node.pendingCommit) : Parks holds node result where
  hardStates := by
    rw [← hardStates]
    exact parks.hardStates
  logs := by
    rw [← logs]
    exact parks.logs
  commits := by
    rw [← commits]
    exact parks.commits
  actions := parks.actions

theorem reached {middle : Node} (parks : Parks holds middle result)
    (reaches : Reaches node middle) : Parks holds node result := by
  rcases reaches.same with ⟨_, _, rfl⟩
  exact parks.following rfl rfl rfl

section

variable (parks : Parks holds node result)

include parks

theorem cons (silent : action.claim = none) : Parks holds node (result.1, action :: result.2) where
  hardStates := parks.hardStates
  logs := parks.logs
  commits := parks.commits
  actions := parks.actions.cons silent

theorem persistHardState :
    Parks holds node (result.1.persistHardState result.2) where
  hardStates := by
    intro persistenceID pending found
    by_cases newest : persistenceID = result.1.nextHardStatePersistence + 1
    · simp only [Node.persistHardState, newest, Function.update_self, Option.some.injEq] at found
      rw [← found]
      exact .inr parks.actions
    · simp only [Node.persistHardState, Function.update_of_ne newest] at found
      exact parks.hardStates found
  logs := parks.logs
  commits := parks.commits
  actions := .silent (by simp [Node.persistHardState, Action.claim])

theorem persistTermChange (changed : Bool) :
    Parks holds node (Node.persistTermChange changed result) := by
  cases changed with
  | false => exact parks
  | true => exact parks.persistHardState

theorem persistCommit :
    Parks holds node (result.1.persistCommit result.2) where
  hardStates := parks.hardStates
  logs := parks.logs
  commits := by
    intro persistenceID pending found
    by_cases newest : persistenceID = result.1.nextCommitPersistence + 1
    · simp only [Node.persistCommit, newest, Function.update_self, Option.some.injEq] at found
      rw [← found]
      exact .inr (parks.actions.mono fun _ _ both => both.2)
    · simp only [Node.persistCommit, Function.update_of_ne newest] at found
      exact parks.commits found
  actions := .silent (by simp [Node.persistCommit, Action.claim])

end

theorem persistLog (entries : List LogEntry) {pending : PendingLogPersistence}
    (isHeld : pending.purpose = .persistFollowerAppend → holds pending.term pending.lastIndex) :
    Parks holds node (node.persistLog entries pending) where
  hardStates := .inl
  logs := by
    intro persistenceID other found
    by_cases newest : persistenceID = node.nextLogPersistence + 1
    · simp only [Node.persistLog, newest, Function.update_self, Option.some.injEq] at found
      exact .inr (found ▸ isHeld)
    · simp only [Node.persistLog, Function.update_of_ne newest] at found
      exact .inl found
  commits := .inl
  actions := .silent (by simp [Node.persistLog, Action.claim])

end Parks

/-! ## Bodies of transitions -/

theorem Reports.claim_eq_none (reports : Reports action) : action.claim = none := by
  cases reports <;> rfl

theorem claim_of_isLocal (isLocal : action.isLocal = true) : action.claim = none := by
  cases action <;> first | rfl | cases isLocal

/-- What makes the answer to a request true: a request that brings nothing new
vouches for the whole log, and a new suffix for the log that ends with it. -/
structure Answerable (holds : Nat → Nat → Prop) (node : Node) (request : AppendEntries) :
    Prop where
  confirmed : node.matchesAt request.prevLogIndex request.prevLogTerm →
    ∀ truncateFrom, node.entriesToAppend request.prevLogIndex request.entries =
      some ([], truncateFrom) → holds node.term node.lastLogIndex
  stored : node.matchesAt request.prevLogIndex request.prevLogTerm →
    ∀ newEntries truncateFrom, newEntries ≠ [] →
      node.entriesToAppend request.prevLogIndex request.entries =
        some (newEntries, truncateFrom) →
      holds request.term (node.replaceSuffix newEntries truncateFrom).lastLogIndex

variable {origin : Node} {event : Event} {result : Node × List Action}

/-- A request of the Node's own Term can be answered. -/
def Answers (holds : Nat → Nat → Prop) (event : Event) (node : Node) : Prop :=
  ∀ request, event = .appendEntries request → node.term = request.term →
    Answerable holds node request

/-- What is emitted claims what an answerable request or a durable suffix holds. -/
theorem Emits.claims {actions : List Action}
    (emits : ∀ action ∈ actions, Emits event origin node action)
    (answers : Answers holds event node)
    (parked : Parked holds origin) :
    Claims (fun term index => term = node.term ∧ holds term index) actions := by
  intro action present claim made
  cases emits action present with
  | runtime isLocal =>
      rw [claim_of_isLocal isLocal] at made
      cases made
  | confirmed isRequest current matched taken =>
      cases made
      exact ⟨rfl, (answers _ isRequest current).confirmed matched _ taken⟩
  | acknowledged _ found purpose current =>
      cases made
      exact ⟨rfl, current ▸ parked.logs found purpose⟩
  | _ => cases made

theorem appendOwnEntry_parks (node : Node) (entry : LogEntry) :
    Parks holds node (node.appendOwnEntry entry) := by
  have stored : Parks holds (node.appendEntries [entry]) (node.appendOwnEntry entry) :=
    .persistLog [entry] fun follower => by cases follower
  rcases node.appendEntries_frame [entry] with ⟨_, _, _, frame⟩
  exact stored.following (by rw [frame]) (by rw [frame]) (by rw [frame])

theorem Body.parks (body : Body event origin node result)
    (answers : Answers holds event node)
    (parked : Parked holds origin) : Parks holds node result := by
  cases body with
  | quiet keeps emits =>
      have claims := Emits.claims emits answers parked
      rcases keeps with ⟨_, rfl⟩
      exact .emits rfl rfl rfl claims
  | appended => exact (node.appendOwnEntry_parks _).cons rfl
  | @stored request newEntries truncateFrom isRequest current matched taken isNew =>
      have stored : Parks holds (node.replaceSuffix newEntries truncateFrom)
          (node.storeEntries request newEntries truncateFrom) :=
        .persistLog newEntries fun _ =>
          (answers _ isRequest current).stored matched newEntries truncateFrom isNew taken
      rcases node.replaceSuffix_frame newEntries truncateFrom with ⟨_, _, _, _, frame⟩
      exact (stored.following (by rw [frame]) (by rw [frame]) (by rw [frame])).cons rfl
  | @committed index middle after leading parkedActions trailing _ _ keeps emits kept early late =>
      have claims := Emits.claims emits answers parked
      rcases keeps with ⟨notes, rfl⟩
      rcases kept with ⟨_, rfl⟩
      have committed : Parks holds node
          ({ node with commitIndex := index }.note notes, parkedActions) :=
        .emits rfl rfl rfl claims
      have waits := committed.persistCommit
      exact ⟨waits.hardStates, waits.logs, waits.commits,
        (Claims.silent fun _ present => claim_of_isLocal (early _ present)).append
          (waits.actions.append (.silent fun _ present => claim_of_isLocal (late _ present)))⟩
  | @applied index leading trailing _ _ early emits =>
      rcases node.applyThrough_frame index with ⟨_, _, _, frame⟩
      have claims := Emits.claims emits answers parked
      apply Parks.emits
      · rw [frame]
      · rw [frame]
      · rw [frame]
      · refine (Claims.silent fun _ present => claim_of_isLocal (early _ present)).append
          (.append (.silent fun _ emitted =>
            (node.applyThrough_reports index emitted).claim_eq_none) ?_)
        rw [frame]
        exact claims
  | @installed request actions _ _ _ _ emits =>
      have claims := Emits.claims emits answers parked
      rcases node.installSnapshotBase_frame request with ⟨_, _, _, _, _, _, frame⟩
      rw [frame]
      exact .emits rfl rfl rfl claims
  | compacted =>
      rw [compactLog]
      split_ifs <;> exact .quiet rfl rfl rfl (by simp)

/-! ## Every transition -/

/-- What an event has to meet for every claim to hold. -/
def Backs (holds : Nat → Nat → Prop) (node : Node) : Event → Prop
  | .appendEntries request => node.term ≤ request.term →
      Answerable holds (node.acceptLeader request.term request.sender) request
  | .commitIndexPersisted persistenceID =>
      ∀ pending, node.pendingCommit persistenceID = some pending →
        Claims (fun term _ => term = node.term) pending.after
  | .snapshotCompacted _ _ => False
  | .installSnapshot _ => False
  | .installSnapshotResponse _ => False
  | _ => True

theorem Elects.claims {actions : List Action}
    (elects : ∀ action ∈ actions, Elects event node action) :
    ∀ action ∈ actions, action.claim = none := fun action present => by
  cases elects action present <;> rfl

/-- Every transition keeps the claims true. -/
theorem step_parks (parked : Parked holds node) {event : Event} (backs : Backs holds node event) :
    Parks holds node (node.step event) := by
  have course := node.step_course event
  generalize node.step event = result at course ⊢
  cases course with
  | @acts _ middle delayed result _ reach body =>
      have parks : Parks holds middle result := by
        apply body.parks _ parked
        rintro request rfl current
        rcases reach.accepted rfl rfl current with ⟨notOlder, rfl⟩
        exact backs notOlder
      exact (parks.reached reach.reaches).persistTermChange delayed
  | @votes _ middle delayed leading actions ballots =>
      rcases ballots.elects with ⟨reaches, early, late⟩
      have voted : Parks holds node (middle, actions) := by
        rcases reaches.same with ⟨_, _, rfl⟩
        exact .quiet rfl rfl rfl (Elects.claims late)
      have parks := voted.persistTermChange delayed
      exact ⟨parks.hardStates, parks.logs, parks.commits,
        (Claims.silent (Elects.claims early)).append parks.actions⟩
  | @wins response =>
      have appended : Parks holds (node.recordVote response.sender).becomeLeader _ :=
        appendOwnEntry_parks _ (node.recordVote response.sender).noOp
      exact ⟨appended.hardStates, appended.logs, appended.commits,
        .append (.silent (by simp [Action.claim])) appended.actions⟩
  | ignored => exact .quiet rfl rfl rfl (by simp)
  | released found =>
      refine ⟨fun isPending => .inl (of_update_none isPending), .inl, .inl, ?_⟩
      dsimp only
      split_ifs with moved
      · exact .silent (by simp)
      · simp only [not_or, not_not] at moved
        exact (parked.hardStates found).mono fun term index both =>
          ⟨both.1.trans moved.1, both.2⟩
  | written found body =>
      have parks := body.parks (by rintro _ ⟨⟩) parked
      exact ⟨parks.hardStates, fun isPending => (parks.logs isPending).imp_left of_update_none,
        parks.commits, parks.actions⟩
  | @completed persistenceID pending applied found isApplied =>
      rcases (node.completeCommit persistenceID pending).applyThrough_frame pending.commitIndex with
        ⟨_, _, _, frame⟩
      rw [← isApplied] at frame
      refine ⟨?_, ?_, ?_, .append (.silent fun _ emitted => ?_) ?_⟩
      · rw [frame]
        exact .inl
      · rw [frame]
        exact .inl
      · rw [frame]
        exact fun isPending => .inl (of_update_none isPending)
      · rw [isApplied] at emitted
        exact (applyThrough_reports _ _ emitted).claim_eq_none
      · rw [frame]
        exact fun action present claim made => ⟨backs pending found action present claim made,
          parked.commits found action present claim made⟩

end Node

end Ternion.Raft
