import Ternion.Cluster.Deferred
import Ternion.Raft.Ballot
import Mathlib.Data.List.Pairwise

/-! # Election safety

A vote counts only after it is durable. `Standing` says what the in-memory vote
of a Node, the hard states on their way to storage and the durable ones have to
do with each other, and `Secure` what the messages and announced Leaders of a
whole Cluster rest on.
-/

namespace Ternion.Cluster.Deferred

open Raft RaftRuntime

variable {term : Nat} {host : Host}

/-- Hard states of one Node succeed each other: the Term never decreases, and
within a Term a vote never changes. -/
def Succeeds (earlier later : HardState) : Prop :=
  earlier.term < later.term ∨
    earlier.term = later.term ∧ (earlier.votedFor = "" ∨ earlier.votedFor = later.votedFor)

theorem Succeeds.refl (hardState : HardState) : Succeeds hardState hardState :=
  .inr ⟨rfl, .inr rfl⟩

theorem Succeeds.trans {first second third : HardState} (early : Succeeds first second)
    (late : Succeeds second third) : Succeeds first third := by
  unfold Succeeds at *
  grind

theorem Succeeds.term_le {earlier later : HardState} (succeeds : Succeeds earlier later) :
    earlier.term ≤ later.term := by
  rcases succeeds with less | same
  · exact less.le
  · exact same.1.le

theorem Succeeds.vote_eq {left right : NodeID} (succeeds : Succeeds ⟨term, left⟩ ⟨term, right⟩)
    (named : left ≠ "") : left = right := by
  rcases succeeds with less | ⟨_, isFree | same⟩
  · exact absurd less (lt_irrefl term)
  · exact absurd isFree named
  · exact same

theorem vote_unique {hardStates : List HardState} (ordered : hardStates.Pairwise Succeeds)
    {left right : NodeID} (leftNamed : left ≠ "") (rightNamed : right ≠ "")
    (hasLeft : ⟨term, left⟩ ∈ hardStates) (hasRight : ⟨term, right⟩ ∈ hardStates) :
    left = right := by
  induction ordered with
  | nil => simp at hasLeft
  | cons follows _ hypothesis =>
      rcases List.mem_cons.mp hasLeft with rfl | leftLater <;>
        rcases List.mem_cons.mp hasRight with same | rightLater
      · exact (HardState.mk.injEq .. ▸ same).2.symm
      · exact (follows _ rightLater).vote_eq leftNamed
      · exact ((same ▸ follows _ leftLater : Succeeds _ _).vote_eq rightNamed).symm
      · exact hypothesis leftLater rightLater

section Ordered

variable {α : Type} {relation : α → α → Prop} [IsTrans α relation] {list : List α}
  {last later : α}

theorem pairwise_replace_last (ordered : (list ++ [last]).Pairwise relation)
    (follows : relation last later) : (list ++ [later]).Pairwise relation := by
  simp only [List.pairwise_append, List.pairwise_singleton, List.mem_singleton, true_and,
    forall_eq] at ordered ⊢
  exact ⟨ordered.1, fun element present => IsTrans.trans _ _ _ (ordered.2 element present) follows⟩

theorem pairwise_push_last (ordered : (list ++ [last]).Pairwise relation)
    (follows : relation last later) : (list ++ [last] ++ [later]).Pairwise relation := by
  have replaced := (List.pairwise_append.mp (pairwise_replace_last ordered follows)).2.2
  refine List.pairwise_append.mpr ⟨ordered, by simp, ?_⟩
  simp only [List.mem_append, List.mem_singleton, forall_eq] at replaced ⊢
  rintro element (present | rfl)
  · exact replaced element present
  · exact follows

end Ordered

instance : IsTrans HardState Succeeds := ⟨fun _ _ _ => Succeeds.trans⟩

/-! ## One Node -/

def hardStateID : Action → Option Nat
  | .persistHardState persistenceID _ _ => some persistenceID
  | _ => none

section Standing

variable (membership : Membership) (recorded : NodeID → HardState → Prop)

/-- What an election action of Node `id` rests on once `hardState` is durable. -/
def Backed (id : NodeID) (hardState : HardState) : Action → Prop
  | .sendVoteRequest _ request =>
      request.sender = id ∧ request.term = hardState.term ∧ hardState.votedFor = id
  | .sendVoteResponse receiver response =>
      response.granted → response.sender = id ∧ response.term = hardState.term ∧
        receiver = hardState.votedFor ∧ recorded receiver ⟨hardState.term, receiver⟩
  | action => action.electoral = false

/-- The in-memory vote of Node `id`, its outstanding persistence and what is
already durable fit together. -/
structure Standing (id : NodeID) (hardStates : List HardState) (outstanding : List Action)
    (ballot : Ballot) : Prop where
  identity : ballot.id = id
  quorum : ballot.quorum = 2
  history : (hardStates ++ outstanding.filterMap hardStateOf ++
    [HardState.mk ballot.term ballot.votedFor]).Pairwise Succeeds
  durable : HardState.mk ballot.durableTerm ballot.durableVotedFor ∈ hardStates ∨
    ballot.durableVotedFor = ""
  identified : (outstanding.filterMap hardStateID ++
    [ballot.nextHardStatePersistence + 1]).Pairwise (· < ·)
  awaited : ∀ persistenceID term votedFor,
    .persistHardState persistenceID term votedFor ∈ outstanding →
    ∃ after, ballot.pendingHardState persistenceID = some ⟨term, votedFor, after⟩
  backed : ∀ persistenceID pending, ballot.pendingHardState persistenceID = some pending →
    ∀ action ∈ pending.after, Backed recorded id ⟨pending.term, pending.votedFor⟩ action
  candidate : ballot.role = .candidate → ballot.votedFor = id ∧ id ∈ ballot.votes ∧
    ∀ voter ∈ ballot.votes, voter ≠ id → voter ∈ membership.members ∧
      recorded voter ⟨ballot.term, id⟩ ∧ recorded id ⟨ballot.term, id⟩

def Vouched (id : NodeID) (outstanding : List Action) (ballot : Ballot) : Event → Prop
  | .voteRequest request =>
      request.sender ∈ membership.members ∧ recorded request.sender ⟨request.term, request.sender⟩
  | .voteResponse response =>
      response.granted → response.sender ∈ membership.members ∧
        recorded response.sender ⟨response.term, id⟩ ∧ recorded id ⟨response.term, id⟩
  | .hardStatePersisted persistenceID =>
      persistenceID ∉ outstanding.filterMap hardStateID ∧
        ∀ pending, ballot.pendingHardState persistenceID = some pending →
          recorded id ⟨pending.term, pending.votedFor⟩
  | _ => True

def Emits (id : NodeID) (before after : Ballot) : Action → Prop
  | .sendVoteRequest _ request => request.sender = id ∧ recorded id ⟨request.term, id⟩
  | .sendVoteResponse receiver response =>
      response.granted → response.sender = id ∧ recorded id ⟨response.term, receiver⟩ ∧
        recorded receiver ⟨response.term, receiver⟩
  | .becameLeader term =>
      before.role = .candidate ∧ term = before.term ∧ after.role = .leader ∧
        recorded id ⟨term, id⟩ ∧
        ∃ voters, membership.Quorum voters ∧ ∀ voter ∈ voters, recorded voter ⟨term, id⟩
  | _ => True

end Standing

section Step

variable {membership : Membership} {recorded : NodeID → HardState → Prop} {id : NodeID}
  {hardStates : List HardState} {outstanding : List Action} {before after : Ballot}
  {event : Event} {electoral : List Action}

theorem Backed.of_quiet {hardState : HardState} {action : Action}
    (quiet : action.electoral = false) : Backed recorded id hardState action := by
  cases action with
  | sendVoteRequest _ _ => simp [Action.electoral] at quiet
  | sendVoteResponse _ _ =>
      intro granted
      simp [Action.electoral, granted] at quiet
  | _ => exact quiet

section

variable {hardState : HardState} {action : Action} (backed : Backed recorded id hardState action)

include backed

theorem Backed.completion (isElectoral : action.electoral) :
    completion action = none := by
  cases action with
  | persistHardState _ _ _ => simp [Backed, Action.electoral] at backed
  | _ => first | rfl | simp [Action.electoral] at isElectoral

theorem Backed.emits (isElectoral : action.electoral)
    (durable : recorded id hardState) : Emits membership recorded id before after action := by
  cases action with
  | sendVoteRequest _ request =>
      rcases backed with ⟨sender, sameTerm, rfl⟩
      exact ⟨sender, by rwa [sameTerm]⟩
  | sendVoteResponse receiver response =>
      intro granted
      rcases backed granted with ⟨sender, sameTerm, rfl, asked⟩
      exact ⟨sender, by rwa [sameTerm], by rwa [sameTerm]⟩
  | becameLeader _ => simp [Backed, Action.electoral] at backed
  | _ => trivial

theorem Backed.mono {wider : NodeID → HardState → Prop}
    (widens : ∀ voter hardState, recorded voter hardState → wider voter hardState) :
    Backed wider id hardState action := by
  cases action with
  | sendVoteResponse receiver response =>
      intro granted
      rcases backed granted with ⟨sender, sameTerm, voted, asked⟩
      exact ⟨sender, sameTerm, voted, widens _ _ asked⟩
  | _ => exact backed

end

theorem Emits.of_quiet {action : Action} (quiet : action.electoral = false) :
    Emits membership recorded id before after action := by
  cases action with
  | sendVoteRequest _ _ => simp [Action.electoral] at quiet
  | sendVoteResponse _ _ =>
      intro granted
      simp [Action.electoral, granted] at quiet
  | becameLeader _ => simp [Action.electoral] at quiet
  | _ => trivial

theorem filterMap_electoral {α : Type} {select : Action → Option α}
    (electoral : ∀ action, ¬ action.electoral → select action = none) (actions : List Action) :
    (actions.filter Action.electoral).filterMap select = actions.filterMap select := by
  rw [List.filterMap_filter]
  congr 1
  funext action
  split_ifs with isElectoral
  · rfl
  · exact (electoral action isElectoral).symm

theorem leaderTerm_eq_none {action : Action} (quiet : ¬ action.electoral) :
    leaderTerm action = none := by
  cases action with
  | becameLeader _ => simp [Action.electoral] at quiet
  | _ => rfl

theorem hardStateOf_eq_none {action : Action} (quiet : ¬ action.electoral) :
    hardStateOf action = none := by
  cases action with
  | persistHardState _ _ _ => simp [Action.electoral] at quiet
  | _ => rfl

namespace Standing

theorem free_succeeds (ballot : Ballot) {candidate : NodeID} (isFree : ballot.Free candidate) :
    Succeeds ⟨ballot.term, ballot.votedFor⟩ ⟨ballot.term, candidate⟩ :=
  .inr ⟨rfl, isFree⟩

section

variable (standing : Standing membership recorded id hardStates outstanding before)

include standing

theorem adjust (identity : after.id = before.id) (quorum : after.quorum = before.quorum)
    (follows : Succeeds ⟨before.term, before.votedFor⟩ ⟨after.term, after.votedFor⟩)
    (durableTerm : after.durableTerm = before.durableTerm)
    (durableVotedFor : after.durableVotedFor = before.durableVotedFor)
    (nextHardStatePersistence :
      after.nextHardStatePersistence = before.nextHardStatePersistence)
    (pendingHardState : after.pendingHardState = before.pendingHardState)
    (candidate : after.role = .candidate → after.votedFor = id ∧ id ∈ after.votes ∧
      ∀ voter ∈ after.votes, voter ≠ id → voter ∈ membership.members ∧
        recorded voter ⟨after.term, id⟩ ∧ recorded id ⟨after.term, id⟩) :
    Standing membership recorded id hardStates outstanding after where
  identity := identity.trans standing.identity
  quorum := quorum.trans standing.quorum
  history := pairwise_replace_last standing.history follows
  durable := by
    rw [durableTerm, durableVotedFor]
    exact standing.durable
  identified := by
    rw [nextHardStatePersistence]
    exact standing.identified
  awaited := by
    rw [pendingHardState]
    exact standing.awaited
  backed := by
    rw [pendingHardState]
    exact standing.backed
  candidate := candidate

theorem persist {votedFor : NodeID} (sameTerm : before.term = term)
    (sameVote : before.votedFor = votedFor) {deferred : List Action}
    (backed : ∀ action ∈ deferred, Backed recorded id ⟨term, votedFor⟩ action) :
    Standing membership recorded id hardStates
      (outstanding ++
        [.persistHardState (before.nextHardStatePersistence + 1) term votedFor])
      (before.persist deferred) where
  identity := standing.identity
  quorum := standing.quorum
  history := by
    subst sameTerm sameVote
    have pushed := pairwise_push_last standing.history (Succeeds.refl _)
    simpa [hardStateOf, Ballot.persist, List.append_assoc] using pushed
  durable := standing.durable
  identified := by
    have pushed := pairwise_push_last standing.identified
      (Nat.lt_succ_self (before.nextHardStatePersistence + 1))
    simpa [hardStateID, Ballot.persist, List.append_assoc] using pushed
  awaited := by
    subst sameTerm sameVote
    intro persistenceID term votedFor present
    rcases List.mem_append.mp present with older | newest
    · rcases standing.awaited persistenceID term votedFor older with ⟨after, found⟩
      have less : persistenceID < before.nextHardStatePersistence + 1 :=
        (List.pairwise_append.mp standing.identified).2.2 persistenceID
          (List.mem_filterMap.mpr ⟨_, older, rfl⟩) _ (by simp)
      exact ⟨after, by simpa [Ballot.persist, Function.update_of_ne less.ne] using found⟩
    · simp only [List.mem_singleton, Action.persistHardState.injEq] at newest
      rcases newest with ⟨rfl, rfl, rfl⟩
      exact ⟨deferred, by simp [Ballot.persist]⟩
  backed := by
    subst sameTerm sameVote
    intro persistenceID pending found
    by_cases newest : persistenceID = before.nextHardStatePersistence + 1
    · simp only [Ballot.persist, newest, Function.update_self, Option.some.injEq] at found
      rw [← found]
      exact backed
    · simp only [Ballot.persist, Function.update_of_ne newest] at found
      exact standing.backed persistenceID pending found
  candidate := standing.candidate

theorem complete {persistenceID : Nat} {pending : PendingHardStatePersistence}
    (settled : persistenceID ∉ outstanding.filterMap hardStateID)
    (durable : HardState.mk pending.term pending.votedFor ∈ hardStates) :
    Standing membership recorded id hardStates outstanding
      (before.complete persistenceID pending) :=
  { standing with
    durable := .inl durable
    awaited := by
      intro otherID term votedFor present
      have other : otherID ≠ persistenceID := by
        rintro rfl
        exact settled (List.mem_filterMap.mpr ⟨_, present, rfl⟩)
      simpa [Ballot.complete, Function.update_of_ne other] using
        standing.awaited otherID term votedFor present
    backed := by
      intro otherID other found
      by_cases same : otherID = persistenceID
      · simp [Ballot.complete, same] at found
      · simp only [Ballot.complete, Function.update_of_ne same] at found
        exact standing.backed otherID other found }

theorem retire (follows : Succeeds ⟨before.term, before.votedFor⟩ ⟨after.term, after.votedFor⟩)
    (same : after = { before with
      term := after.term, votedFor := after.votedFor, role := after.role, votes := after.votes })
    (retired : after.role ≠ .candidate) :
    Standing membership recorded id hardStates outstanding after := by
  rw [same]
  exact standing.adjust rfl rfl follows rfl rfl rfl rfl fun candidate =>
    absurd candidate retired

theorem revote (named : id ≠ "") {candidate : NodeID} (isFree : before.Free candidate) :
    Standing membership recorded id hardStates outstanding
      { before with votedFor := candidate } := by
  refine standing.adjust rfl rfl (free_succeeds before isFree) rfl rfl rfl rfl ?_
  intro isCandidate
  rcases standing.candidate isCandidate with ⟨own, counted⟩
  rcases isFree with unused | same
  · exact absurd (own.symm.trans unused) named
  · exact ⟨same.symm.trans own, counted⟩

section

variable (own : ∀ hardState, recorded id hardState ↔ hardState ∈ hardStates)
  (member : id ∈ membership.members)
  (vouched : Vouched membership recorded id outstanding before event)
  (taken : before.Step event after electoral)

include own member vouched taken

theorem step :
    Standing membership recorded id hardStates
      (outstanding ++ electoral.filter fun action => (completion action).isSome) after := by
  have named := membership.member_ne_empty member
  cases taken with
  | same => simpa using standing
  | demoted demoted =>
      rw [List.filter_nil, List.append_nil]
      exact standing.retire (.refl _) rfl demoted
  | @raised _ term deferred newer quiet =>
      have followed : Standing membership recorded id hardStates outstanding
          (before.follow term) :=
        standing.retire (.inl newer) rfl (by simp [Ballot.follow])
      exact followed.persist rfl rfl fun action present => .of_quiet (quiet action present)
  | granted reach =>
      rename_i request reached
      rcases vouched with ⟨_, asked⟩
      have ready : Standing membership recorded id hardStates outstanding
          { reached with votedFor := request.sender } ∧ reached.term = request.term ∧
          reached.nextHardStatePersistence = before.nextHardStatePersistence := by
        rcases reach with ⟨rfl, sameTerm, isFree⟩ | ⟨rfl, newer⟩
        · exact ⟨standing.revote named isFree, sameTerm, rfl⟩
        · exact ⟨standing.retire (.inl newer) rfl (by simp [Ballot.follow]), rfl, rfl⟩
      rcases ready with ⟨ready, sameTerm, sameNext⟩
      rw [← sameNext]
      refine ready.persist sameTerm rfl ?_
      simp [Backed, standing.identity, asked]
  | confirmed sameTerm isFree _ _ => simpa [completion] using standing.revote named isFree
  | campaign requests =>
      rename_i deferred
      have started : Standing membership recorded id hardStates outstanding
          { before with
            role := .candidate
            term := before.term + 1
            votedFor := before.id
            votes := {before.id} } := by
        refine standing.adjust rfl rfl (.inl (Nat.lt_succ_self before.term)) rfl rfl rfl rfl
          fun _ => ?_
        rw [standing.identity]
        simp
      refine started.persist rfl rfl fun action present => ?_
      by_cases isElectoral : action.electoral
      · rcases requests action present isElectoral with ⟨_, _, _, rfl⟩
        exact ⟨standing.identity, rfl, standing.identity⟩
      · exact .of_quiet (by simpa using isElectoral)
  | counted isCandidate sameTerm granted =>
      rcases vouched granted with ⟨sender, vote, ownVote⟩
      rw [List.filter_nil, List.append_nil]
      refine standing.adjust rfl rfl (.refl _) rfl rfl rfl rfl fun _ => ?_
      rcases standing.candidate isCandidate with ⟨forSelf, counted, votes⟩
      refine ⟨forSelf, Finset.mem_insert_of_mem counted, fun voter present other => ?_⟩
      rcases Finset.mem_insert.mp present with rfl | earlier
      · exact ⟨sender, sameTerm ▸ vote, sameTerm ▸ ownVote⟩
      · exact votes voter earlier other
  | won _ _ _ _ =>
      have nothing : ([Action.becameLeader before.term].filter fun action =>
        (completion action).isSome) = [] := rfl
      rw [nothing, List.append_nil]
      exact standing.retire (.refl _) rfl (by simp)
  | released found =>
      rename_i persistenceID pending
      have nothing : ((if pending.term ≠ before.term ∨ pending.votedFor ≠ before.votedFor then []
          else pending.after.filter Action.electoral).filter fun action =>
            (completion action).isSome) = [] := by
        rw [List.filter_eq_nil_iff]
        intro action present
        split_ifs at present
        · simp at present
        · rcases List.mem_filter.mp present with ⟨waiting, isElectoral⟩
          simp [(standing.backed persistenceID pending found action waiting).completion
            isElectoral]
      rw [nothing, List.append_nil]
      exact standing.complete vouched.1 ((own _).mp (vouched.2 pending found))

theorem emits :
    ∀ action ∈ electoral, Emits membership recorded id before after action := by
  cases taken with
  | same => simp
  | demoted _ => simp
  | raised _ _ => simp [Emits]
  | granted _ => simp [Emits]
  | confirmed _ _ durableTerm durableVote =>
      rename_i request _ _
      have durable : HardState.mk request.term request.sender ∈ hardStates := by
        rcases standing.durable with durable | unused
        · rwa [durableTerm, durableVote] at durable
        · exact absurd (durableVote.symm.trans unused)
            (membership.member_ne_empty vouched.1)
      simp [Emits, standing.identity, own, durable, vouched.2]
  | campaign _ => simp [Emits]
  | counted _ _ _ => simp
  | won isCandidate sameTerm granted enough =>
      rename_i response
      rcases vouched granted with ⟨sender, vote, ownVote⟩
      rcases standing.candidate isCandidate with ⟨_, _, votes⟩
      rw [sameTerm] at vote ownVote
      have cast : ∀ voter ∈ insert response.sender before.votes,
          voter ∈ membership.members ∧ recorded voter ⟨before.term, id⟩ := by
        intro voter present
        by_cases same : voter = id
        · rw [same]
          exact ⟨member, ownVote⟩
        · rcases Finset.mem_insert.mp present with rfl | earlier
          · exact ⟨sender, vote⟩
          · exact ⟨(votes voter earlier same).1, (votes voter earlier same).2.1⟩
      simp only [List.mem_singleton, forall_eq]
      exact ⟨isCandidate, rfl, rfl, ownVote, insert response.sender before.votes,
        ⟨fun voter present => (cast voter present).1, standing.quorum ▸ enough⟩,
        fun voter present => (cast voter present).2⟩
  | released found =>
      rename_i persistenceID pending
      intro action present
      split_ifs at present with moved
      · simp at present
      · rcases List.mem_filter.mp present with ⟨waiting, isElectoral⟩
        exact (standing.backed persistenceID pending found action waiting).emits isElectoral
          (vouched.2 pending found)

end

theorem term_le {hardState : HardState} (durable : hardState ∈ hardStates) :
    hardState.term ≤ before.term :=
  ((List.pairwise_append.mp standing.history).2.2 hardState (List.mem_append_left _ durable) _
    (List.mem_singleton_self _)).term_le

theorem announces
    (taken : before.Step event after electoral) : (electoral.filterMap leaderTerm).Nodup := by
  cases taken with
  | released found =>
      rename_i persistenceID pending
      suffices none : (if pending.term ≠ before.term ∨ pending.votedFor ≠ before.votedFor then []
          else pending.after.filter Action.electoral).filterMap leaderTerm = [] by simp [none]
      rw [List.filterMap_eq_nil_iff]
      intro action present
      split_ifs at present
      · simp at present
      · rcases List.mem_filter.mp present with ⟨waiting, _⟩
        have backed := standing.backed persistenceID pending found action waiting
        cases action with
        | becameLeader _ => simp [Backed, Action.electoral] at backed
        | _ => rfl
  | _ => first | exact List.nodup_nil | exact List.nodup_singleton _

end

theorem mono {wider : NodeID → HardState → Prop}
    (standing : Standing membership recorded id hardStates outstanding before)
    (widens : ∀ voter hardState, recorded voter hardState → wider voter hardState) :
    Standing membership wider id hardStates outstanding before :=
  { standing with
    backed := fun persistenceID pending found action present =>
      (standing.backed persistenceID pending found action present).mono widens
    candidate := by
      intro isCandidate
      rcases standing.candidate isCandidate with ⟨forSelf, counted, votes⟩
      refine ⟨forSelf, counted, fun voter present other => ?_⟩
      rcases votes voter present other with ⟨isMember, vote, ownVote⟩
      exact ⟨isMember, widens _ _ vote, widens _ _ ownVote⟩ }

theorem flush {action : Action}
    (standing : Standing membership recorded id hardStates (action :: outstanding) before) :
    Standing membership recorded id (hardStates ++ (hardStateOf action).toList) outstanding
      before where
  identity := standing.identity
  quorum := standing.quorum
  history := by
    have history := standing.history
    cases value : hardStateOf action <;>
      simpa [List.filterMap_cons, value, List.append_assoc] using history
  durable := standing.durable.imp_left (List.mem_append_left _)
  identified := standing.identified.sublist
    (((List.sublist_cons_self action outstanding).filterMap hardStateID).append_right _)
  awaited := fun persistenceID term votedFor present =>
    standing.awaited persistenceID term votedFor (List.mem_cons_of_mem _ present)
  backed := standing.backed
  candidate := standing.candidate

theorem restart {peers : List NodeID} {recovered : RecoveredState}
    (ordered : hardStates.Pairwise Succeeds) (two : peers.length = 2)
    (last : recovered.hardState = hardStates.getLastD {}) :
    Standing membership recorded id hardStates []
      (Node.newNodeFromRecoveredState id peers recovered).ballot := by
  rw [Node.newNodeFromRecoveredState_ballot, last]
  rcases List.eq_nil_or_concat hardStates with rfl | ⟨earlier, newest, rfl⟩
  · refine ⟨rfl, by simp [two], by simp, .inr rfl, by simp, by simp, by simp, by simp⟩
  · rw [List.concat_eq_append] at ordered ⊢
    have pushed := pairwise_push_last ordered (.refl newest)
    refine ⟨rfl, by simp [two], by simpa using pushed, .inl (by simp), by simp, by simp, by simp,
      by simp⟩

end Standing

end Step

/-! ## The Cluster -/

def State.Recorded (state : State) (id : NodeID) (hardState : HardState) : Prop :=
  hardState ∈ (state.hosts id).hardStates

theorem State.recorded_update (state : State) {id : NodeID}
    (same : host.hardStates = (state.hosts id).hardStates) :
    State.Recorded { state with hosts := Function.update state.hosts id host } =
      state.Recorded := by
  funext voter hardState
  by_cases own : voter = id
  · subst own
    simp [State.Recorded, same]
  · simp [State.Recorded, Function.update_of_ne own]

theorem State.recorded_widens (state : State) {id : NodeID}
    (kept : ∀ hardState, state.Recorded id hardState → hardState ∈ host.hardStates) :
    ∀ voter hardState, state.Recorded voter hardState →
      State.Recorded { state with hosts := Function.update state.hosts id host } voter
        hardState := by
  intro voter hardState durable
  by_cases same : voter = id
  · subst same
    simpa [State.Recorded] using kept hardState durable
  · simpa [State.Recorded, Function.update_of_ne same] using durable

structure Secure (membership : Membership) (state : State) : Prop where
  standing : ∀ id ∈ membership.members,
    Standing membership state.Recorded id (state.hosts id).hardStates
      ((state.hosts id).outstanding.filter Action.electoral) (state.hosts id).core.ballot
  commits : ∀ id ∈ membership.members, (state.hosts id).core.CommitsQuiet
  requests : ∀ receiver request, ⟨receiver, .voteRequest request⟩ ∈ state.network →
    request.sender ∈ membership.members ∧
      state.Recorded request.sender ⟨request.term, request.sender⟩
  responses : ∀ receiver response, ⟨receiver, .voteResponse response⟩ ∈ state.network →
    response.granted → response.sender ∈ membership.members ∧
      state.Recorded response.sender ⟨response.term, receiver⟩ ∧
      state.Recorded receiver ⟨response.term, receiver⟩
  messages : ∀ sent ∈ state.network, isMessage sent.message
  elected : ∀ id term, (id, term) ∈ state.elections →
    id ∈ membership.members ∧ state.Recorded id ⟨term, id⟩ ∧
      ((state.hosts id).core.term = term → (state.hosts id).core.role ≠ .candidate) ∧
      ∃ voters, membership.Quorum voters ∧ ∀ voter ∈ voters, state.Recorded voter ⟨term, id⟩
  distinct : state.elections.Nodup

theorem start_secure (membership : Membership) : Secure membership (.start membership) where
  standing := fun id member =>
    .restart List.Pairwise.nil (membership.length_peersOf member) rfl
  commits := fun id _ => Node.newNodeFromRecoveredState_commitsQuiet id (membership.peersOf id) {}
  requests := by simp [State.start]
  responses := by simp [State.start]
  messages := by simp [State.start]
  elected := by simp [State.start]
  distinct := by simp [State.start]

namespace Secure

variable {membership : Membership} {state : State}

theorem becameLeader_of_leaderTerm {actions : List Action}
    (isTerm : term ∈ actions.filterMap leaderTerm) : .becameLeader term ∈ actions := by
  rcases List.mem_filterMap.mp isTerm with ⟨action, emitted, announces⟩
  cases action <;> simp [leaderTerm] at announces
  exact announces ▸ emitted

variable (secure : Secure membership state)

include secure

theorem leader_unique {left right : NodeID} (leftElected : (left, term) ∈ state.elections)
    (rightElected : (right, term) ∈ state.elections) : left = right := by
  rcases secure.elected left term leftElected with
    ⟨leftMember, _, _, leftVoters, leftQuorum, leftVotes⟩
  rcases secure.elected right term rightElected with
    ⟨rightMember, _, _, rightVoters, rightQuorum, rightVotes⟩
  rcases membership.quorums_meet leftQuorum rightQuorum with ⟨voter, inLeft, inRight⟩
  have history := (secure.standing voter (leftQuorum.1 voter inLeft)).history
  exact vote_unique (history.sublist (by simp [List.append_assoc]))
    (membership.member_ne_empty leftMember) (membership.member_ne_empty rightMember)
    (leftVotes voter inLeft) (rightVotes voter inRight)

theorem update {id : NodeID}
    (kept : ∀ hardState, state.Recorded id hardState → hardState ∈ host.hardStates)
    (standing : Standing membership
      (State.Recorded { state with hosts := Function.update state.hosts id host }) id
      host.hardStates (host.outstanding.filter Action.electoral) host.core.ballot)
    (commits : host.core.CommitsQuiet)
    (resigned : ∀ term, (id, term) ∈ state.elections → host.core.term = term →
      host.core.role ≠ .candidate) :
    Secure membership { state with hosts := Function.update state.hosts id host } := by
  have widens := state.recorded_widens kept
  constructor
  case standing =>
    intro other member
    by_cases same : other = id
    · subst same
      simpa using standing
    · simpa [Function.update_of_ne same] using (secure.standing other member).mono widens
  case commits =>
    intro other member
    by_cases same : other = id
    · subst same
      simpa using commits
    · simpa [Function.update_of_ne same] using secure.commits other member
  case requests =>
    intro receiver request sent
    exact (secure.requests receiver request sent).imp_right (widens _ _)
  case responses =>
    intro receiver response sent granted
    rcases secure.responses receiver response sent granted with ⟨sender, vote, own⟩
    exact ⟨sender, widens _ _ vote, widens _ _ own⟩
  case messages => exact secure.messages
  case elected =>
    intro leader term announced
    rcases secure.elected leader term announced with ⟨member, own, retired, voters, quorum, votes⟩
    refine ⟨member, widens _ _ own, ?_, voters, quorum, fun voter present =>
      widens _ _ (votes voter present)⟩
    by_cases same : leader = id
    · subst same
      simpa using resigned term announced
    · simpa [Function.update_of_ne same] using retired
  case distinct => exact secure.distinct

section

variable {id : NodeID} (member : id ∈ membership.members)

include member

theorem emit {before : Ballot} {actions : List Action}
    (emits : ∀ action ∈ actions, Emits membership state.Recorded id before
      (state.hosts id).core.ballot action)
    (unannounced : ∀ term, before.role = .candidate → before.term = term →
      (id, term) ∉ state.elections)
    (sole : (actions.filterMap leaderTerm).Nodup)
    (leaderLogs : Nat → List LogEntry) :
    Secure membership { state with
      network := state.network ++ actions.filterMap envelope
      elections := state.elections ++ (actions.filterMap leaderTerm).map fun term => (id, term)
      leaderLogs := leaderLogs } where
  standing := secure.standing
  commits := secure.commits
  requests := by
    intro receiver request sent
    rcases List.mem_append.mp sent with earlier | now
    · exact secure.requests receiver request earlier
    · rcases List.mem_filterMap.mp now with ⟨action, emitted, isEnvelope⟩
      cases action <;> simp [envelope] at isEnvelope
      rcases isEnvelope with ⟨rfl, rfl⟩
      rcases emits _ emitted with ⟨rfl, durable⟩
      exact ⟨member, durable⟩
  responses := by
    intro receiver response sent granted
    rcases List.mem_append.mp sent with earlier | now
    · exact secure.responses receiver response earlier granted
    · rcases List.mem_filterMap.mp now with ⟨action, emitted, isEnvelope⟩
      cases action <;> simp [envelope] at isEnvelope
      rcases isEnvelope with ⟨rfl, rfl⟩
      rcases emits _ emitted granted with ⟨rfl, vote, own⟩
      exact ⟨member, vote, own⟩
  messages := by
    intro sent isSent
    rcases List.mem_append.mp isSent with earlier | now
    · exact secure.messages sent earlier
    · rcases List.mem_filterMap.mp now with ⟨_, _, isEnvelope⟩
      exact envelope_isMessage isEnvelope
  elected := by
    intro leader term announced
    rcases List.mem_append.mp announced with earlier | now
    · exact secure.elected leader term earlier
    · rcases List.mem_map.mp now with ⟨_, isTerm, same⟩
      rcases Prod.mk.injEq .. ▸ same with ⟨rfl, rfl⟩
      rcases becameLeader_of_leaderTerm isTerm with emitted
      rcases emits _ emitted with ⟨_, _, leads, own, elected⟩
      have role : (state.hosts id).core.role = .leader := leads
      exact ⟨member, own, fun _ => by simp [role], elected⟩
  distinct := by
    refine List.nodup_append'.mpr
      ⟨secure.distinct, sole.map fun _ _ same => (Prod.mk.injEq .. ▸ same).2, ?_⟩
    rw [List.disjoint_right]
    rintro ⟨leader, term⟩ now
    rcases List.mem_map.mp now with ⟨_, isTerm, same⟩
    rcases Prod.mk.injEq .. ▸ same with ⟨rfl, rfl⟩
    rcases emits _ (becameLeader_of_leaderTerm isTerm) with ⟨isCandidate, sameTerm, _⟩
    exact unannounced _ isCandidate sameTerm.symm

theorem take {event : Event} (vouched : Vouched membership state.Recorded id
      ((state.hosts id).outstanding.filter Action.electoral)
      (state.hosts id).core.ballot event) :
    Secure membership (state.record id ((state.hosts id).take event)) := by
  have decides := Node.step_decides (secure.commits id member) event
  have standing := (secure.standing id member).step (fun _ => .rfl) member vouched decides.step
  have emits := (secure.standing id member).emits (fun _ => .rfl) member vouched decides.step
  have sole := (secure.standing id member).announces decides.step
  have recorded := state.recorded_update
    (show ((state.hosts id).take event).1.hardStates = (state.hosts id).hardStates from rfl)
  have unannounced : ∀ term, (state.hosts id).core.ballot.role = .candidate →
      (state.hosts id).core.ballot.term = term → (id, term) ∉ state.elections := by
    intro term isCandidate sameTerm announced
    rcases secure.elected id term announced with ⟨_, _, retired, _⟩
    exact retired sameTerm isCandidate
  have updated : Secure membership { state with
      hosts := Function.update state.hosts id ((state.hosts id).take event).1 } := by
    refine secure.update (fun _ durable => durable) ?_ (decides.commits (secure.commits id member))
      ?_
    · rw [recorded]
      rw [List.filter_filter] at standing
      simpa [Host.take, List.filter_append, List.filter_filter, Bool.and_comm] using standing
    · intro term announced sameTerm isCandidate
      rcases decides.step.candidate isCandidate with ⟨already, unchanged⟩ | newer
      · exact unannounced term already (unchanged.symm.trans sameTerm) announced
      · have seen := (secure.standing id member).term_le (secure.elected id term announced).2.1
        exact absurd (newer.trans_le sameTerm.le) seen.not_gt
  rw [filterMap_electoral (fun _ => leaderTerm_eq_none)] at sole
  refine updated.emit member ?_ unannounced sole _
  rw [recorded]
  intro action emitted
  by_cases isElectoral : action.electoral
  · simpa [Host.take] using emits action (List.mem_filter.mpr ⟨emitted, isElectoral⟩)
  · exact .of_quiet (by simpa using isElectoral)

theorem flush {action : Action} (flushed : (state.hosts id).flush = some (action, host)) :
    Secure membership { state with hosts := Function.update state.hosts id host } := by
  rcases flush_cases flushed with ⟨rest, pending, rfl⟩
  have kept : ∀ hardState, state.Recorded id hardState →
      hardState ∈ (state.hosts id).hardStates ++ (hardStateOf action).toList :=
    fun hardState durable => List.mem_append_left _ durable
  refine secure.update kept ?_ (secure.commits id member) ?_
  · have standing := secure.standing id member
    rw [pending] at standing
    refine Standing.mono ?_ (state.recorded_widens kept)
    by_cases isElectoral : action.electoral
    · rw [List.filter_cons_of_pos isElectoral] at standing
      exact standing.flush
    · rw [List.filter_cons_of_neg isElectoral] at standing
      rw [hardStateOf_eq_none isElectoral]
      simpa using standing
  · exact fun term announced => (secure.elected id term announced).2.2.1

theorem crash (flushed : Nat) {recovered : RecoveredState}
    (last : recovered.hardState = ((state.hosts id).crash flushed).lastHardState) :
    Secure membership { state with
      hosts := Function.update state.hosts id
        (((state.hosts id).crash flushed).restart id (membership.peersOf id) recovered) } := by
  refine secure.update (fun hardState durable => List.mem_append_left _ durable) ?_
    (Node.newNodeFromRecoveredState_commitsQuiet id (membership.peersOf id) recovered) ?_
  · refine .restart ?_ (membership.length_peersOf member) last
    have history := (secure.standing id member).history
    rw [filterMap_electoral (fun _ => hardStateOf_eq_none)] at history
    exact history.sublist
      ((((List.take_sublist flushed _).filterMap hardStateOf).append_left _).trans
      (List.sublist_append_left _ _))
  · intro term _ _ isCandidate
    have follower := congrArg Ballot.role
      (Node.newNodeFromRecoveredState_ballot id (membership.peersOf id) recovered)
    exact absurd (follower.symm.trans isCandidate) (by simp)

theorem vouched_completion {action : Action}
    (flushed : (state.hosts id).flush = some (action, host)) {event : Event}
    (reported : completion action = some event) :
    Vouched membership (State.Recorded { state with hosts := Function.update state.hosts id host })
      id (host.outstanding.filter Action.electoral) host.core.ballot event := by
  rcases flush_cases flushed with ⟨rest, pending, rfl⟩
  have standing := secure.standing id member
  rw [pending] at standing
  cases action with
  | persistHardState persistenceID term votedFor =>
      cases reported
      rw [List.filter_cons_of_pos rfl] at standing
      constructor
      · intro present
        have identified := standing.identified
        simp only [List.filterMap_cons, hardStateID, List.cons_append, List.pairwise_cons]
          at identified
        exact lt_irrefl _ (identified.1 persistenceID (List.mem_append_left _ present))
      · intro found isFound
        rcases standing.awaited persistenceID term votedFor List.mem_cons_self with ⟨_, awaited⟩
        rw [awaited, Option.some.injEq] at isFound
        simp [State.Recorded, hardStateOf, ← isFound]
  | persistLogEntries _ _ _ =>
      cases reported
      trivial
  | persistCommitIndex _ _ =>
      cases reported
      trivial
  | _ => cases reported

end

theorem step {after : State} {label : Label}
    (taken : (system membership).step state label after) : Secure membership after := by
  rcases step_cases taken with
    ⟨id, event, rfl, member, arrives, rfl⟩ | ⟨id, result, rfl, member, completed, rfl⟩ |
    ⟨id, flushed, recovered, rfl, member, last, rfl⟩
  · refine secure.take member ?_
    rcases arrives with isSpontaneous | sent
    · cases event <;> trivial
    · cases event with
      | voteRequest request => exact secure.requests id request sent
      | voteResponse response => exact secure.responses id response sent
      | hardStatePersisted persistenceID => cases secure.messages _ sent
      | _ => trivial
  · rcases complete_cases completed with ⟨action, host, event, flushed, reported, rfl⟩
    have vouched := secure.vouched_completion member flushed reported
    have taken := (secure.flush member flushed).take member (by simpa using vouched)
    simpa [State.record] using taken
  · exact secure.crash member flushed last

end Secure

theorem reachable_secure {membership : Membership} {state : State}
    (reachable : (system membership).Reachable System.anyStep state) :
    Secure membership state := by
  refine reachable.invariant (Secure membership) ?_ ?_
  · rintro _ rfl
    exact start_secure membership
  · exact fun _ _ _ secure _ taken => secure.step taken

/-- At most one Node is ever announced as Leader of a Term, and it is announced
once. -/
theorem leader_elected_once {membership : Membership} {state : State}
    (reachable : (system membership).Reachable System.anyStep state) :
    (∀ left right term, (left, term) ∈ state.elections → (right, term) ∈ state.elections →
      left = right) ∧ state.elections.Nodup :=
  have secure := reachable_secure reachable
  ⟨fun _ _ _ leftElected rightElected => secure.leader_unique leftElected rightElected,
    secure.distinct⟩

/-- `a` is elected and crashes, and `b` is elected next with the vote of `c`. -/
def successionRun : List Label :=
  votedRun ++
    [.crash "a" 0 { hardState := ⟨1, "a"⟩ },
      .deliver "b" .electionTimeout,
      .deliver "c" (.preVoteRequest ⟨"b", 2, 0, 0⟩),
      .deliver "b" (.preVoteResponse ⟨"c", 2, 0, true⟩),
      .complete "b",
      .deliver "c" (.voteRequest ⟨"b", 2, 0, 0⟩),
      .complete "c",
      .deliver "b" (.voteResponse ⟨"c", 2, true⟩)]

theorem leader_elected_once_succession :
    ∃ state, (system trio).Reachable System.anyStep state ∧
      state.elections = [("a", 1), ("b", 2)] ∧
      (∀ left right term, (left, term) ∈ state.elections → (right, term) ∈ state.elections →
        left = right) ∧ state.elections.Nodup := by
  have executed : ((System.execute (State.next trio) (fun _ _ => true) successionRun
      (.start trio)).map State.elections) = some [("a", 1), ("b", 2)] := by decide +kernel
  have reached := System.reachable_of_execute (fun _ _ _ => trivial) executed
  rcases reached with ⟨state, reachable, elections⟩
  exact ⟨state, reachable, elections, leader_elected_once reachable⟩

end Ternion.Cluster.Deferred
