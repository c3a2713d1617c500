import Ternion.Cluster.PreVote

/-! # What a Leader's mandate rests on

Votes outlive the process that cast them. A quorum that elected a Leader stays
bound to it, and nobody else ever speaks as the Leader of its Term.
-/

namespace Ternion.Cluster.Deferred

open Raft RaftRuntime

variable {membership : Membership} {state later : State}

theorem hardStates_kept {label : Label} (taken : (system membership).step state label later) :
    ∀ voter hardState, state.Recorded voter hardState → later.Recorded voter hardState := by
  rcases step_cases taken with
    ⟨id, event, rfl, member, arrives, rfl⟩ | ⟨id, result, rfl, member, completed, rfl⟩ |
    ⟨id, flushed, recovered, rfl, member, last, rfl⟩
  · exact state.recorded_widens fun _ durable => durable
  · rcases complete_cases completed with ⟨action, host, event, isFlushed, reported, rfl⟩
    rcases flush_cases isFlushed with ⟨rest, pending, rfl⟩
    exact state.recorded_widens fun _ durable => List.mem_append_left _ durable
  · exact state.recorded_widens fun _ durable => List.mem_append_left _ durable

/-- What is durable stays durable, whatever the run does next. -/
theorem continued_secure (secure : Secure membership state)
    (continued : (System.ofNext state (State.next membership)).Reachable System.anyStep later) :
    Secure membership later ∧
      ∀ voter hardState, state.Recorded voter hardState → later.Recorded voter hardState := by
  apply continued.invariant fun later => Secure membership later ∧
    ∀ voter hardState, state.Recorded voter hardState → later.Recorded voter hardState
  · rintro _ rfl
    exact ⟨secure, fun _ _ durable => durable⟩
  · rintro before label after ⟨stillSecure, kept⟩ _ taken
    exact ⟨stillSecure.step taken, fun voter hardState durable =>
      hardStates_kept taken voter hardState (kept voter hardState durable)⟩

theorem Secure.vote_once (secure : Secure membership state) {voter left right : NodeID}
    {term : Nat} (member : voter ∈ membership.members) (leftMember : left ∈ membership.members)
    (rightMember : right ∈ membership.members) (votedLeft : state.Recorded voter ⟨term, left⟩)
    (votedRight : state.Recorded voter ⟨term, right⟩) : left = right := by
  have history := (secure.standing voter member).history
  have durable : (state.hosts voter).hardStates.Pairwise Succeeds :=
    history.sublist (by simp [List.append_assoc])
  exact vote_unique durable (membership.member_ne_empty leftMember)
    (membership.member_ne_empty rightMember) votedLeft votedRight

/-- A hard state with the vote, or one of a later Term. -/
def Bound (leader : NodeID) (term : Nat) (hardState : HardState) : Prop :=
  term < hardState.term ∨ hardState = ⟨term, leader⟩

theorem Succeeds.bound {leader : NodeID} {term : Nat} {later : HardState} (named : leader ≠ "")
    (succeeds : Succeeds ⟨term, leader⟩ later) : Bound leader term later := by
  rcases succeeds with newer | ⟨sameTerm, unnamed | sameVote⟩
  · exact .inl newer
  · exact absurd unnamed named
  · apply Or.inr
    rcases later with ⟨laterTerm, laterVote⟩
    cases sameTerm
    cases sameVote
    rfl

/-- A recorded vote binds the hard state that a restart would recover, and the
one in memory. -/
theorem Secure.vote_binds (secure : Secure membership state) {voter leader : NodeID} {term : Nat}
    (member : voter ∈ membership.members) (leads : leader ∈ membership.members)
    (voted : state.Recorded voter ⟨term, leader⟩) :
    Bound leader term (state.hosts voter).lastHardState ∧
      Bound leader term ⟨(state.hosts voter).core.term, (state.hosts voter).core.votedFor⟩ := by
  have named := membership.member_ne_empty leads
  have history := (secure.standing voter member).history
  have durable : (state.hosts voter).hardStates.Pairwise Succeeds :=
    history.sublist (by simp [List.append_assoc])
  rw [State.Recorded] at voted
  constructor
  · rw [Host.lastHardState]
    rcases List.eq_nil_or_concat' (state.hosts voter).hardStates with none | ⟨earlier, last, all⟩
    · rw [none] at voted
      cases voted
    · rw [all] at voted durable ⊢
      rw [List.getLastD_concat]
      rcases List.mem_append.mp voted with before | isLast
      · have ordered := (List.pairwise_append.mp durable).2.2 _ before last List.mem_cons_self
        exact ordered.bound named
      · exact .inr (List.mem_singleton.mp isLast).symm
  · have ordered := (List.pairwise_append.mp history).2.2 _ (List.mem_append_left _ voted) _
      List.mem_cons_self
    exact ordered.bound named

/-- A mandate endures: from the election of a Leader on, each Node of a quorum
has the vote for it on disk and in memory until it moves to a later Term, and
grants nobody else a vote of that Term. -/
theorem mandate_endures (membership : Membership) (state : State)
    (reachable : (system membership).Reachable System.anyStep state)
    (leader : NodeID) (term : Nat) (elected : (leader, term) ∈ state.elections) :
    ∃ voters, membership.Quorum voters ∧ ∀ later,
      (System.ofNext state (State.next membership)).Reachable System.anyStep later →
      ∀ voter ∈ voters,
        Bound leader term (later.hosts voter).lastHardState ∧
        Bound leader term ⟨(later.hosts voter).core.term, (later.hosts voter).core.votedFor⟩ ∧
        ∀ receiver ∈ membership.members, ∀ response,
          ⟨receiver, .voteResponse response⟩ ∈ later.network → response.granted →
          response.sender = voter → response.term = term → receiver = leader := by
  have secure := reachable_secure reachable
  rcases secure.elected leader term elected with ⟨member, _, _, voters, quorum, voted⟩
  refine ⟨voters, quorum, ?_⟩
  intro later continued voter isVoter
  rcases continued_secure secure continued with ⟨stillSecure, kept⟩
  have durable := kept _ _ (voted voter isVoter)
  rcases stillSecure.vote_binds (quorum.1 voter isVoter) member durable with ⟨onDisk, inMemory⟩
  refine ⟨onDisk, inMemory, ?_⟩
  rintro receiver isMember response sent granted rfl rfl
  rcases stillSecure.responses receiver response sent granted with ⟨sender, vote, _⟩
  exact stillSecure.vote_once sender isMember member vote durable

/-- `a` leads Term 1, and `b` Term 2 after a crash of `a`. The log of `a` still
has its vote then, that of `b` has moved on. -/
theorem mandate_endures_succession : ∃ state later : State,
    (system trio).Reachable System.anyStep state ∧
      (System.ofNext state (State.next trio)).Reachable System.anyStep later ∧
      ("a", 1) ∈ state.elections ∧ ("b", 2) ∈ later.elections ∧
      (later.hosts "a").lastHardState = ⟨1, "a"⟩ ∧ (later.hosts "b").lastHardState = ⟨2, "b"⟩ ∧
      ∃ voters, trio.Quorum voters ∧
        ∀ voter ∈ voters, Bound "a" 1 (later.hosts voter).lastHardState := by
  have executed : ((System.execute (State.next trio) (fun _ _ => true) votedRun
      (.start trio)).bind fun turning =>
        (System.execute (State.next trio) (fun _ _ => true) (successionRun.drop 7) turning).map
          fun final => (turning.elections, final.elections, (final.hosts "a").lastHardState,
            (final.hosts "b").lastHardState)) =
      some ([("a", 1)], [("a", 1), ("b", 2)], ⟨1, "a"⟩, ⟨2, "b"⟩) := by decide +kernel
  rcases System.continued_of_execute (fun _ _ _ => trivial) (fun _ _ _ => trivial) executed with
    ⟨state, later, reachable, continued, observed⟩
  simp only [Prod.mk.injEq] at observed
  rcases observed with ⟨first, second, ofA, ofB⟩
  have elected : ("a", 1) ∈ state.elections := by simp [first]
  rcases mandate_endures trio state reachable "a" 1 elected with ⟨voters, quorum, bound⟩
  exact ⟨state, later, reachable, continued, elected, by simp [second], ofA, ofB, voters, quorum,
    fun voter isVoter => (bound later continued voter isVoter).1⟩

/-- One speaker: every two AppendEntries of one Term come from one Node, which
was announced as the Leader of that Term, and as the only one. -/
theorem one_speaker (membership : Membership) (state : State)
    (reachable : (system membership).Reachable (fun state label => snapshotsSent state label)
      state)
    (leftReceiver rightReceiver : NodeID) (left right : AppendEntries)
    (leftSent : ⟨leftReceiver, .appendEntries left⟩ ∈ state.network)
    (rightSent : ⟨rightReceiver, .appendEntries right⟩ ∈ state.network)
    (sameTerm : left.term = right.term) :
    left.sender = right.sender ∧ leftReceiver ≠ left.sender ∧
      ∀ id, (id, left.term) ∈ state.elections ↔ id = left.sender := by
  have mannerly := reachable_mannerly reachable
  have leftLed := mannerly.speakers leftReceiver left leftSent
  have rightLed := mannerly.speakers rightReceiver right rightSent
  rw [← sameTerm] at rightLed
  refine ⟨mannerly.secure.leader_unique leftLed rightLed,
    (mannerly.foreign _ leftSent left.sender rfl).symm, ?_⟩
  intro id
  constructor
  · exact fun announced => mannerly.secure.leader_unique announced leftLed
  · rintro rfl
    exact leftLed

theorem one_speaker_election : ∃ state : State,
    (system trio).Reachable (fun state label => snapshotsSent state label) state ∧
      ⟨"b", firstRequest 1 1 1 []⟩ ∈ state.network ∧
      ⟨"c", firstRequest 2 1 1 []⟩ ∈ state.network ∧
      ∀ id, (id, 1) ∈ state.elections ↔ id = "a" := by
  have executed : (System.execute (State.next trio) snapshotsSent electionRun
      (.start trio)).map (fun state => decide (⟨"b", firstRequest 1 1 1 []⟩ ∈ state.network ∧
        ⟨"c", firstRequest 2 1 1 []⟩ ∈ state.network)) = some true := by decide +kernel
  rcases System.reachable_of_execute (fun _ _ => id) executed with
    ⟨state, reachable, observed⟩
  have sent := of_decide_eq_true observed
  exact ⟨state, reachable, sent.1, sent.2,
    (one_speaker trio state reachable "b" "c" _ _ sent.1 sent.2 rfl).2.2⟩

end Ternion.Cluster.Deferred
