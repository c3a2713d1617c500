import Ternion.Cluster.Election
import Ternion.Cluster.Outgoing
import Ternion.Raft.Office

/-! # What pre-votes protect

A Leader and a Follower that stay in contact keep their Term and roles whatever
the third Node does, as long as the Leader refuses the third Node's pre-votes. It
refuses those of a log that is behind its own.
-/

namespace Ternion.Cluster.Deferred

open Raft RaftRuntime

/-! ## Who speaks -/

/-- A Snapshot comes from another Node, which was elected in its Term. -/
def snapshotsSent (state : State) : Label → Bool
  | .deliver id (.installSnapshot request) =>
      decide (request.sender ≠ id) && decide ((request.sender, request.term) ∈ state.elections)
  | _ => true

def State.Led (state : State) (id : NodeID) (term : Nat) : Prop :=
  (id, term) ∈ state.elections

structure Mannerly (membership : Membership) (state : State) : Prop where
  secure : Secure membership state
  poised : ∀ id ∈ membership.members, Poised (state.Led id) (mail (state.hosts id).core)
  leads : ∀ id ∈ membership.members, (state.hosts id).core.role = .leader →
    state.Led id (state.hosts id).core.term
  foreign : ∀ sent ∈ state.network, ∀ sender, sent.message.sender = some sender →
    sender ≠ sent.receiver
  speakers : ∀ receiver request, ⟨receiver, .appendEntries request⟩ ∈ state.network →
    state.Led request.sender request.term

theorem newNode_mail (id : NodeID) (peers : List NodeID) (recovered : RecoveredState) :
    mail (.newNodeFromRecoveredState id peers recovered) = {
      id := id
      peers := peers.insertionSort (· ≤ ·)
      term := recovered.hardState.term
      pendingHardState := fun _ => none
      pendingLog := fun _ => none
      pendingCommit := fun _ => none } := by
  rw [Node.newNodeFromRecoveredState]
  split_ifs <;> dsimp only <;> split <;> rfl

theorem newNode_poised {led : Nat → Prop} (membership : Membership) (id : NodeID)
    (recovered : RecoveredState) :
    Poised led (mail (.newNodeFromRecoveredState id (membership.peersOf id) recovered)) := by
  rw [newNode_mail]
  refine ⟨?_, nofun, nofun, nofun⟩
  intro peer isPeer
  exact (membership.mem_peersOf.mp ((List.mem_insertionSort _).mp isPeer)).1

theorem handleVoteResponse_announced {node : Node} {response : VoteResponse}
    (isCandidate : node.role = .candidate)
    (leads : (node.handleVoteResponse response).1.role = .leader) :
    .becameLeader node.term ∈ (node.handleVoteResponse response).2 := by
  rw [Node.handleVoteResponse] at leads ⊢
  split_ifs at leads ⊢
  · cases leads
  · rw [isCandidate] at leads
    cases leads
  · rw [Node.recordVote, isCandidate] at leads
    cases leads
  · exact .head _

theorem leads_announced {node : Node} {event : Event}
    (leads : (node.step event).1.role = .leader) :
    node.role = .leader ∧ (node.step event).1.term = node.term ∨
      .becameLeader (node.step event).1.term ∈ (node.step event).2 := by
  have turns := node.step_turns event
  generalize office : (node.step event).1.office = after at turns
  have role : after.role = .leader := office ▸ leads
  have term : after.term = (node.step event).1.term := congrArg Office.term office.symm
  rw [← term]
  cases turns with
  | same => exact .inl ⟨role, rfl⟩
  | wins isCandidate => exact .inr (handleVoteResponse_announced isCandidate leads)
  | _ => cases role

namespace Mannerly

variable {membership : Membership} {state : State}

theorem start (membership : Membership) : Mannerly membership (.start membership) where
  secure := start_secure membership
  poised := fun id _ => newNode_poised membership id {}
  leads := by
    intro id _ leads
    cases leads
  foreign := nofun
  speakers := nofun

section

variable (mannerly : Mannerly membership state) {id : NodeID}

include mannerly

theorem record (member : id ∈ membership.members) {result : Host × List Action}
    (secure : Secure membership (state.record id result))
    (poised : Poised ((state.record id result).Led id) (mail result.1.core))
    (leads : result.1.core.role = .leader → (state.record id result).Led id result.1.core.term)
    (sends : ∀ action ∈ result.2, ∀ sent, envelope action = some sent →
      (∀ sender, sent.message.sender = some sender → sender ≠ sent.receiver) ∧
        ∀ request, sent.message = .appendEntries request →
          (state.record id result).Led request.sender request.term) :
    Mannerly membership (state.record id result) := by
  have widens : ∀ {other term}, state.Led other term → (state.record id result).Led other term :=
    fun isLed => List.mem_append_left _ isLed
  refine ⟨secure, ?_, ?_, ?_, ?_⟩
  · intro other isMember
    by_cases same : other = id
    · subst same
      simpa [State.record] using poised
    · simpa [State.record, Function.update_of_ne same] using
        (mannerly.poised other isMember).widen widens
  · intro other isMember
    by_cases same : other = id
    · subst same
      simpa [State.record] using leads
    · have before := mannerly.leads other isMember
      simpa [State.record, Function.update_of_ne same] using fun role => widens (before role)
  · intro sent present
    rcases List.mem_append.mp present with earlier | now
    · exact mannerly.foreign sent earlier
    · rcases List.mem_filterMap.mp now with ⟨action, emitted, isSent⟩
      exact (sends action emitted sent isSent).1
  · intro receiver request present
    rcases List.mem_append.mp present with earlier | now
    · exact widens (mannerly.speakers receiver request earlier)
    · rcases List.mem_filterMap.mp now with ⟨action, emitted, isSent⟩
      exact (sends action emitted _ isSent).2 request rfl

theorem take (member : id ∈ membership.members) {event : Event}
    (secure : Secure membership (state.record id ((state.hosts id).take event)))
    (foreign : ∀ sender, event.sender = some sender → sender ≠ id) :
    Mannerly membership (state.record id ((state.hosts id).take event)) := by
  have identity : (state.hosts id).core.id = id := (mannerly.secure.standing id member).identity
  have widens : ∀ {term}, state.Led id term →
      (state.record id ((state.hosts id).take event)).Led id term :=
    fun isLed => List.mem_append_left _ isLed
  have announces : ((state.hosts id).core.step event).1.role = .leader →
      (state.record id ((state.hosts id).take event)).Led id
        ((state.hosts id).core.step event).1.term := by
    intro leads
    rcases leads_announced leads with ⟨led, same⟩ | announced
    · rw [same]
      exact widens (mannerly.leads id member led)
    · apply List.mem_append_right
      exact List.mem_map.mpr ⟨_, List.mem_filterMap.mpr ⟨_, announced, rfl⟩, rfl⟩
  by_cases probed : ∃ request, event = .preVoteRequest request
  · rcases probed with ⟨request, rfl⟩
    apply mannerly.record member secure
    · exact (mannerly.poised id member).widen widens
    · exact announces
    · intro action emitted sent isSent
      rw [List.mem_singleton.mp emitted] at isSent
      rw [← Option.some.inj isSent]
      refine ⟨?_, nofun⟩
      rintro _ ⟨⟩
      rw [identity]
      exact (foreign request.sender rfl).symm
  · have sends := step_sends ((mannerly.poised id member).widen widens)
      (fun leads => widens (mannerly.leads id member leads)) (identity.symm ▸ foreign)
      (fun request isProbe => probed ⟨request, isProbe⟩)
    apply mannerly.record member secure sends.poised announces
    intro action emitted sent isSent
    have courteous := (sends.actions action emitted).courteous isSent
    have own := courteous.sender
    rw [identity] at own
    refine ⟨?_, ?_⟩
    · intro sender isSender
      rw [own] at isSender
      rw [← Option.some.inj isSender, ← identity]
      exact courteous.receiver.symm
    · intro request isRequest
      have sender : some request.sender = some id := by
        rw [isRequest] at own
        exact own
      rw [Option.some.inj sender]
      exact courteous.leads request isRequest

theorem update {host : Host}
    (secure : Secure membership { state with hosts := Function.update state.hosts id host })
    (poised : Poised (state.Led id) (mail host.core))
    (leads : host.core.role = .leader → state.Led id host.core.term) :
    Mannerly membership { state with hosts := Function.update state.hosts id host } := by
  refine ⟨secure, ?_, ?_, mannerly.foreign, mannerly.speakers⟩
  · intro other isMember
    by_cases same : other = id
    · subst same
      simp only [Function.update_self]
      exact poised
    · simp only [Function.update_of_ne same]
      exact mannerly.poised other isMember
  · intro other isMember
    by_cases same : other = id
    · subst same
      simp only [Function.update_self]
      exact leads
    · simp only [Function.update_of_ne same]
      exact mannerly.leads other isMember

end

theorem completion_sender {action : Action} {event : Event}
    (reported : completion action = some event) : event.sender = none := by
  cases action <;> cases reported <;> rfl

/-- No Node receives what it sent itself. -/
theorem arriving {id : NodeID} {event : Event} (mannerly : Mannerly membership state)
    (sent : snapshotsSent state (.deliver id event))
    (arrives : spontaneous event ∨ ⟨id, event⟩ ∈ state.network) :
    ∀ sender, event.sender = some sender → sender ≠ id := by
  intro sender isSender
  rcases arrives with isSpontaneous | inFlight
  · cases event <;> cases isSpontaneous <;> cases isSender
    simp only [snapshotsSent, Bool.and_eq_true, decide_eq_true_eq] at sent
    exact sent.1
  · exact mannerly.foreign _ inFlight sender isSender

theorem step {after : State} {label : Label} (mannerly : Mannerly membership state)
    (sent : snapshotsSent state label) (taken : (system membership).step state label after) :
    Mannerly membership after := by
  have secure := mannerly.secure.step taken
  rcases step_cases taken with
    ⟨id, event, rfl, member, arrives, rfl⟩ | ⟨id, result, rfl, member, completed, rfl⟩ |
    ⟨id, flushed, recovered, rfl, member, last, rfl⟩
  · exact mannerly.take member secure (mannerly.arriving sent arrives)
  · rcases complete_cases completed with ⟨action, host, event, flushed, reported, rfl⟩
    rcases flush_cases flushed with ⟨rest, pending, isHost⟩
    have sameCore : host.core = (state.hosts id).core := by rw [isHost]
    have ready := mannerly.update (mannerly.secure.flush member flushed)
      (sameCore ▸ mannerly.poised id member) (sameCore ▸ mannerly.leads id member)
    have foreign : ∀ sender, event.sender = some sender → sender ≠ id := by
      intro sender isSender
      rw [completion_sender reported] at isSender
      cases isSender
    have stepped := ready.take member (by simpa [State.record] using secure) foreign
    simpa [State.record] using stepped
  · apply mannerly.update secure
    · exact newNode_poised membership id recovered
    · intro leads
      have follower : (Node.newNodeFromRecoveredState id (membership.peersOf id)
          recovered).role = .follower :=
        congrArg Ballot.role (Node.newNodeFromRecoveredState_ballot _ _ _)
      exact absurd (follower.symm.trans leads) (by simp)

end Mannerly

theorem reachable_mannerly {membership : Membership} {state : State}
    (reachable : (system membership).Reachable (fun state label => snapshotsSent state label)
      state) : Mannerly membership state := by
  apply reachable.invariant (Mannerly membership)
  · rintro _ rfl
    exact .start membership
  · exact fun _ _ _ mannerly sent taken => mannerly.step sent taken

/-! ## A majority in contact -/

/-- The Leader and the Follower are in contact, and nothing on its way can raise
a Term or lets the third Node run for election above the Leader's Term. -/
def inContact (leader follower other : NodeID) (term : Nat) (state : State) : Bool :=
  decide ((state.hosts leader).core.role = .leader) &&
    decide ((state.hosts leader).core.term = term) &&
    decide ((state.hosts follower).core.office = ⟨.follower, term, true⟩) &&
    decide ((state.hosts other).core.term ≤ term) &&
    state.network.all fun sent =>
      sent.message.carries.all (fun carried => decide (carried ≤ term)) &&
        match sent.message with
        | .preVoteResponse response =>
            decide (sent.receiver ≠ other) || !response.granted || decide (response.term ≤ term)
        | _ => true

/-- The Leader hears from a quorum in every window, the Follower's election timer
does not fire, and neither of them crashes. -/
def keepsContact (leader follower : NodeID) (state : State) : Label → Bool
  | .deliver id .checkQuorumTimeout =>
      decide (id ≠ leader) ||
        decide ((state.hosts id).core.quorum ≤ (state.hosts id).core.activePeers.card + 1)
  | .deliver id .electionTimeout => decide (id ≠ follower)
  | .deliver _ _ => true
  | .complete _ => true
  | .crash id _ _ => decide (id ≠ leader) && decide (id ≠ follower)

/-- A probe of a newer Term that reaches the Leader comes from a log that is
behind the Leader's. -/
def probesBehind (leader : NodeID) (state : State) : Label → Bool
  | .deliver id (.preVoteRequest request) =>
      decide (id ≠ leader) || decide (request.term ≤ (state.hosts id).core.term) ||
        !(state.hosts id).core.candidateLogIsUpToDate request.lastLogTerm request.lastLogIndex
  | _ => true

structure Sheltered (membership : Membership) (leader follower other : NodeID) (term : Nat)
    (state : State) : Prop where
  mannerly : Mannerly membership state
  leads : (state.hosts leader).core.role = .leader ∧ (state.hosts leader).core.term = term
  follows : (state.hosts follower).core.office = ⟨.follower, term, true⟩
  behind : (state.hosts other).core.term ≤ term
  carries : ∀ sent ∈ state.network, ∀ carried, sent.message.carries = some carried →
    carried ≤ term
  refused : ∀ response, ⟨other, .preVoteResponse response⟩ ∈ state.network →
    response.granted = true → response.term ≤ term

/-! ### One Node -/

section Node

variable {node : Node} {event : Event} {term : Nat}

theorem leader_stays (leads : node.role = .leader) (sameTerm : node.term = term)
    (many : node.quorum ≠ 1)
    (bounded : ∀ carried, event.carries = some carried → carried ≤ term)
    (unchallenged : ∀ speaker, event.leader = some speaker → event.carries ≠ some term)
    (supported : event = .checkQuorumTimeout → node.quorum ≤ node.activePeers.card + 1) :
    (node.step event).1.role = .leader ∧ (node.step event).1.term = term := by
  have turns := node.step_turns event
  generalize office : (node.step event).1.office = after at turns
  have role : (node.step event).1.role = after.role := congrArg Office.role office
  have reached : (node.step event).1.term = after.term := congrArg Office.term office
  rw [role, reached]
  cases turns with
  | same => exact ⟨leads, sameTerm⟩
  | follows speaks carried notOlder =>
      have same := Nat.le_antisymm (bounded _ carried) (sameTerm ▸ notOlder)
      exact absurd (same ▸ carried) (unchallenged _ speaks)
  | deposed carried newer =>
      have bound := bounded _ carried
      omega
  | unsupported _ few =>
      have enough := supported rfl
      omega
  | probes follows => exact absurd leads follows
  | campaignsAlone alone => exact absurd alone many
  | campaigns probes =>
      rw [leads] at probes
      cases probes
  | wins isCandidate =>
      rw [leads] at isCandidate
      cases isCandidate

theorem follower_stays (follows : node.office = ⟨.follower, term, true⟩) (many : node.quorum ≠ 1)
    (bounded : ∀ carried, event.carries = some carried → carried ≤ term)
    (unfired : event ≠ .electionTimeout) :
    (node.step event).1.office = ⟨.follower, term, true⟩ := by
  have role : node.role = .follower := congrArg Office.role follows
  have sameTerm : node.term = term := congrArg Office.term follows
  have turns := node.step_turns event
  generalize (node.step event).1.office = after at turns ⊢
  cases turns with
  | same => exact follows
  | follows _ carried notOlder =>
      rw [Nat.le_antisymm (bounded _ carried) (sameTerm ▸ notOlder)]
  | deposed carried newer =>
      have bound := bounded _ carried
      omega
  | unsupported leads _ =>
      rw [role] at leads
      cases leads
  | probes _ => exact absurd rfl unfired
  | campaignsAlone alone => exact absurd alone many
  | campaigns probes =>
      rw [role] at probes
      cases probes
  | wins isCandidate =>
      rw [role] at isCandidate
      cases isCandidate

theorem term_bounded (behind : node.term ≤ term) (many : node.quorum ≠ 1)
    (bounded : ∀ carried, event.carries = some carried → carried ≤ term)
    (refused : ∀ response, event = .preVoteResponse response → response.granted = true →
      response.term ≤ term) : (node.step event).1.term ≤ term := by
  have turns := node.step_turns event
  generalize office : (node.step event).1.office = after at turns
  have reached : (node.step event).1.term = after.term := congrArg Office.term office
  rw [reached]
  cases turns with
  | same => exact behind
  | follows _ carried _ => exact bounded _ carried
  | deposed carried _ => exact bounded _ carried
  | unsupported => exact behind
  | probes => exact behind
  | campaignsAlone alone => exact absurd alone many
  | campaigns _ next granted => exact next ▸ refused _ rfl granted
  | wins => exact behind

end Node

theorem Standing.recovered_le {membership : Membership} {recorded : NodeID → HardState → Prop}
    {host : Host} {id : NodeID}
    (standing : Standing membership recorded id host.hardStates
      (host.outstanding.filter Action.electoral) host.core.ballot) (flushed : Nat) :
    (host.crash flushed).lastHardState.term ≤ host.core.term := by
  have history := standing.history
  rw [filterMap_electoral (fun _ => hardStateOf_eq_none)] at history
  have before := (List.pairwise_append.mp history).2.2
  cases isLast : (host.crash flushed).hardStates.getLast? with
  | none =>
      rw [Host.lastHardState, List.getLastD_eq_getLast?, isLast]
      exact Nat.zero_le _
  | some last =>
      rw [Host.lastHardState, List.getLastD_eq_getLast?, isLast]
      have present : last ∈ host.hardStates ++ host.outstanding.filterMap hardStateOf := by
        have kept :=
          ((List.take_sublist flushed host.outstanding).filterMap hardStateOf).append_left
          host.hardStates
        exact kept.subset (List.mem_of_getLast? isLast)
      exact (before last present _ (List.mem_singleton_self _)).term_le

/-! ### The Cluster -/

structure Harmless (leader follower other : NodeID) (term : Nat) (state : State) (id : NodeID)
    (event : Event) : Prop where
  foreign : ∀ sender, event.sender = some sender → sender ≠ id
  speaks : ∀ speaker carried, event.leader = some speaker → event.carries = some carried →
    state.Led speaker carried
  carries : ∀ carried, event.carries = some carried → carried ≤ term
  refused : id = other → ∀ response, event = .preVoteResponse response →
    response.granted = true → response.term ≤ term
  supported : id = leader → event = .checkQuorumTimeout →
    (state.hosts id).core.quorum ≤ (state.hosts id).core.activePeers.card + 1
  unfired : id = follower → event ≠ .electionTimeout
  outdated : id = leader → ∀ request, event = .preVoteRequest request →
    request.term ≤ (state.hosts id).core.term ∨ (state.hosts id).core.candidateLogIsUpToDate
      request.lastLogTerm request.lastLogIndex = false

theorem sender_of_leader {event : Event} {speaker : NodeID} (speaks : event.leader = some speaker) :
    event.sender = some speaker := by
  cases event <;> first | exact speaks | cases speaks

namespace Sheltered

variable {membership : Membership} {leader follower other id : NodeID} {term : Nat}
  {state : State} {event : Event}

structure Cast (membership : Membership) (leader follower other : NodeID) : Prop where
  leaderMember : leader ∈ membership.members
  followerMember : follower ∈ membership.members
  otherMember : other ∈ membership.members
  all : ∀ id ∈ membership.members, id = leader ∨ id = follower ∨ id = other
  apart : leader ≠ follower ∧ leader ≠ other ∧ follower ≠ other

theorem Cast.of_perm (roles : membership.members.Perm [leader, follower, other]) :
    Cast membership leader follower other := by
  have distinct := roles.nodup_iff.mp membership.distinct
  simp only [List.nodup_cons, List.mem_cons, List.not_mem_nil, or_false, not_or] at distinct
  refine ⟨roles.mem_iff.mpr (by simp), roles.mem_iff.mpr (by simp), roles.mem_iff.mpr (by simp),
    ?_, distinct.1.1, distinct.1.2, distinct.2.1⟩
  intro id member
  simpa using roles.mem_iff.mp member

section

variable (sheltered : Sheltered membership leader follower other term state)

include sheltered

theorem quorum_ne (member : id ∈ membership.members) : (state.hosts id).core.quorum ≠ 1 := by
  have two : (state.hosts id).core.quorum = 2 :=
    (sheltered.mannerly.secure.standing id member).quorum
  rw [two]
  decide

section

variable (cast : Cast membership leader follower other)

include cast

theorem term_le (member : id ∈ membership.members) : (state.hosts id).core.term ≤ term := by
  rcases cast.all id member with rfl | rfl | rfl
  · exact sheltered.leads.2.le
  · exact (congrArg Office.term sheltered.follows).le
  · exact sheltered.behind

theorem keeps (harmless : Harmless leader follower other term state id event) :
    (id = leader → ((state.hosts id).core.step event).1.role = .leader ∧
        ((state.hosts id).core.step event).1.term = term) ∧
      (id = follower → ((state.hosts id).core.step event).1.office = ⟨.follower, term, true⟩) ∧
      (id = other → ((state.hosts id).core.step event).1.term ≤ term) := by
  refine ⟨?_, ?_, ?_⟩
  · rintro rfl
    apply leader_stays sheltered.leads.1 sheltered.leads.2 (sheltered.quorum_ne cast.leaderMember)
      harmless.carries
    · intro speaker speaks carried
      have own := sheltered.mannerly.leads id cast.leaderMember sheltered.leads.1
      rw [sheltered.leads.2] at own
      have same := sheltered.mannerly.secure.leader_unique
        (harmless.speaks speaker term speaks carried) own
      exact harmless.foreign speaker (sender_of_leader speaks) same
    · exact harmless.supported rfl
  · rintro rfl
    exact follower_stays sheltered.follows
      (sheltered.quorum_ne cast.followerMember) harmless.carries
      (harmless.unfired rfl)
  · rintro rfl
    exact term_bounded sheltered.behind (sheltered.quorum_ne cast.otherMember) harmless.carries
      (harmless.refused rfl)

theorem refuses (member : id ∈ membership.members) {request : PreVoteRequest}
    (harmless : Harmless leader follower other term state id (.preVoteRequest request))
    (fromOther : request.sender = other) {response : PreVoteResponse}
    (answered : ((state.hosts id).core.handlePreVoteRequest request).2 =
      [.sendPreVoteResponse request.sender response]) (granted : response.granted = true) :
    response.term ≤ term := by
  simp only [Node.handlePreVoteRequest, List.cons.injEq, Action.sendPreVoteResponse.injEq,
    true_and, and_true] at answered
  rw [← answered] at granted ⊢
  simp only [Bool.and_eq_true, Bool.not_eq_true', decide_eq_true_eq] at granted
  rcases cast.all id member with rfl | rfl | rfl
  · rcases harmless.outdated rfl request rfl with within | behind
    · exact sheltered.leads.2 ▸ within
    · rw [granted.2] at behind
      cases behind
  · have heard : (state.hosts id).core.recentLeaderContact = true :=
      congrArg Office.recentLeaderContact sheltered.follows
    rw [heard] at granted
    cases granted.1.2
  · exact absurd fromOther (harmless.foreign request.sender rfl)

end

theorem update {host : Host}
    (mannerly : Mannerly membership { state with hosts := Function.update state.hosts id host })
    (leads : id = leader → host.core.role = .leader ∧ host.core.term = term)
    (follows : id = follower → host.core.office = ⟨.follower, term, true⟩)
    (behind : id = other → host.core.term ≤ term) :
    Sheltered membership leader follower other term
      { state with hosts := Function.update state.hosts id host } := by
  refine ⟨mannerly, ?_, ?_, ?_, sheltered.carries, sheltered.refused⟩
  · by_cases same : leader = id
    · subst same
      simpa using leads rfl
    · simpa [Function.update_of_ne same] using sheltered.leads
  · by_cases same : follower = id
    · subst same
      simpa using follows rfl
    · simpa [Function.update_of_ne same] using sheltered.follows
  · by_cases same : other = id
    · subst same
      simpa using behind rfl
    · simpa [Function.update_of_ne same] using sheltered.behind

section

variable (cast : Cast membership leader follower other)

include cast

theorem take (member : id ∈ membership.members)
    (harmless : Harmless leader follower other term state id event)
    (mannerly : Mannerly membership (state.record id ((state.hosts id).take event))) :
    Sheltered membership leader follower other term
      (state.record id ((state.hosts id).take event)) := by
  rcases sheltered.keeps cast harmless with ⟨leads, follows, behind⟩
  have reached : ((state.hosts id).core.step event).1.term ≤ term := by
    rcases cast.all id member with isLeader | isFollower | isOther
    · exact (leads isLeader).2.le
    · exact (congrArg Office.term (follows isFollower)).le
    · exact behind isOther
  have emitted : ∀ action ∈ ((state.hosts id).core.step event).2, ∀ sent,
      envelope action = some sent →
      (∀ carried, sent.message.carries = some carried → carried ≤ term) ∧
        ∀ response, sent = ⟨other, .preVoteResponse response⟩ → response.granted = true →
          response.term ≤ term := by
    by_cases probed : ∃ request, event = .preVoteRequest request
    · rcases probed with ⟨request, rfl⟩
      intro action isEmitted sent isSent
      rw [List.mem_singleton.mp isEmitted] at isSent
      rw [← Option.some.inj isSent]
      refine ⟨?_, ?_⟩
      · rintro _ ⟨⟩
        exact sheltered.term_le cast member
      · intro response isResponse granted
        rw [Envelope.mk.injEq, Event.preVoteResponse.injEq] at isResponse
        apply sheltered.refuses cast member harmless isResponse.1 _ granted
        rw [← isResponse.2]
        rfl
    · have identity : (state.hosts id).core.id = id :=
        (sheltered.mannerly.secure.standing id member).identity
      have sends := step_sends (sheltered.mannerly.poised id member)
        (sheltered.mannerly.leads id member) (identity.symm ▸ harmless.foreign)
        (fun request isProbe => probed ⟨request, isProbe⟩)
      intro action isEmitted sent isSent
      have courteous := (sends.actions action isEmitted).courteous isSent
      refine ⟨?_, ?_⟩
      · exact fun carried isCarried => Nat.le_trans (courteous.carries carried isCarried) reached
      · rintro response rfl
        exact absurd rfl (courteous.decided response)
  refine ⟨mannerly, ?_, ?_, ?_, ?_, ?_⟩
  · by_cases same : leader = id
    · subst same
      simpa [State.record, Host.take] using leads rfl
    · simpa [State.record, Function.update_of_ne same] using sheltered.leads
  · by_cases same : follower = id
    · subst same
      simpa [State.record, Host.take] using follows rfl
    · simpa [State.record, Function.update_of_ne same] using sheltered.follows
  · by_cases same : other = id
    · subst same
      simpa [State.record, Host.take] using behind rfl
    · simpa [State.record, Function.update_of_ne same] using sheltered.behind
  · intro sent present
    rcases List.mem_append.mp present with earlier | now
    · exact sheltered.carries sent earlier
    · rcases List.mem_filterMap.mp now with ⟨action, isEmitted, isSent⟩
      exact (emitted action isEmitted sent isSent).1
  · intro response present
    rcases List.mem_append.mp present with earlier | now
    · exact sheltered.refused response earlier
    · rcases List.mem_filterMap.mp now with ⟨action, isEmitted, isSent⟩
      exact (emitted action isEmitted _ isSent).2 response rfl

theorem led_le {speaker : NodeID} {carried : Nat}
    (isLed : state.Led speaker carried) : carried ≤ term := by
  rcases sheltered.mannerly.secure.elected speaker carried isLed with ⟨member, durable, _⟩
  have reached := (sheltered.mannerly.secure.standing speaker member).term_le durable
  exact Nat.le_trans reached (sheltered.term_le cast member)

/-- Whatever arrives while the Leader and the Follower stay in contact is harmless. -/
theorem harmless (sent : snapshotsSent state (.deliver id event))
    (contact : keepsContact leader follower state (.deliver id event))
    (behind : probesBehind leader state (.deliver id event))
    (arrives : spontaneous event ∨ ⟨id, event⟩ ∈ state.network) :
    Harmless leader follower other term state id event := by
  have installed : ∀ request, event = .installSnapshot request →
      request.sender ≠ id ∧ state.Led request.sender request.term := by
    rintro request rfl
    simpa [snapshotsSent, State.Led] using sent
  constructor
  · exact sheltered.mannerly.arriving sent arrives
  · intro speaker carried speaks isCarried
    cases event <;> cases speaks <;> cases isCarried
    · rcases arrives with isSpontaneous | inFlight
      · cases isSpontaneous
      · exact sheltered.mannerly.speakers id _ inFlight
    · exact (installed _ rfl).2
  · intro carried isCarried
    rcases arrives with isSpontaneous | inFlight
    · cases event <;> cases isSpontaneous <;> cases isCarried
      exact sheltered.led_le cast (installed _ rfl).2
    · exact sheltered.carries _ inFlight carried isCarried
  · rintro rfl response rfl
    rcases arrives with isSpontaneous | inFlight
    · cases isSpontaneous
    · exact sheltered.refused response inFlight
  · rintro rfl rfl
    simpa [keepsContact] using contact
  · rintro rfl rfl
    simp [keepsContact] at contact
  · rintro rfl request rfl
    simpa [probesBehind] using behind

end

end

theorem harmless_completion {action : Action} (reported : completion action = some event) :
    Harmless leader follower other term state id event := by
  cases action <;> cases reported <;>
    exact ⟨nofun, nofun, nofun, fun _ => nofun, fun _ => nofun, fun _ => nofun, fun _ => nofun⟩

theorem step {after : State} {label : Label}
    (sheltered : Sheltered membership leader follower other term state)
    (cast : Cast membership leader follower other) (sent : snapshotsSent state label)
    (contact : keepsContact leader follower state label) (behind : probesBehind leader state label)
    (taken : (system membership).step state label after) :
    Sheltered membership leader follower other term after := by
  have mannerly := sheltered.mannerly.step sent taken
  rcases step_cases taken with
    ⟨id, event, rfl, member, arrives, rfl⟩ | ⟨id, result, rfl, member, completed, rfl⟩ |
    ⟨id, flushed, recovered, rfl, member, last, rfl⟩
  · exact sheltered.take cast member (sheltered.harmless cast sent contact behind arrives) mannerly
  · rcases complete_cases completed with ⟨action, host, event, flushed, reported, rfl⟩
    rcases flush_cases flushed with ⟨rest, pending, isHost⟩
    have sameCore : host.core = (state.hosts id).core := by rw [isHost]
    have ready : Mannerly membership { state with
        hosts := Function.update state.hosts id host } :=
      sheltered.mannerly.update (sheltered.mannerly.secure.flush member flushed)
        (sameCore ▸ sheltered.mannerly.poised id member)
        (sameCore ▸ sheltered.mannerly.leads id member)
    have waiting := sheltered.update ready
      (fun isLeader => by rw [sameCore, isLeader]; exact sheltered.leads)
      (fun isFollower => by rw [sameCore, isFollower]; exact sheltered.follows)
      (fun isOther => by rw [sameCore, isOther]; exact sheltered.behind)
    have stepped := waiting.take cast member (harmless_completion reported)
      (by simpa [State.record] using mannerly)
    simpa [State.record] using stepped
  · simp only [keepsContact, Bool.and_eq_true, decide_eq_true_eq] at contact
    apply sheltered.update mannerly
    · exact fun isLeader => absurd isLeader contact.1
    · exact fun isFollower => absurd isFollower contact.2
    · intro isOther
      have reached : (Node.newNodeFromRecoveredState id (membership.peersOf id) recovered).term =
          recovered.hardState.term :=
        congrArg Ballot.term (Node.newNodeFromRecoveredState_ballot _ _ _)
      have recoveredTerm := (sheltered.mannerly.secure.standing id member).recovered_le flushed
      rw [← last, ← reached] at recoveredTerm
      exact Nat.le_trans recoveredTerm (isOther ▸ sheltered.behind)

theorem of_inContact (mannerly : Mannerly membership state)
    (contact : inContact leader follower other term state) :
    Sheltered membership leader follower other term state := by
  simp only [inContact, Bool.and_eq_true, decide_eq_true_eq, List.all_eq_true] at contact
  rcases contact with ⟨⟨⟨⟨leads, sameTerm⟩, follows⟩, behind⟩, network⟩
  refine ⟨mannerly, ⟨leads, sameTerm⟩, follows, behind, ?_, ?_⟩
  · intro sent present carried isCarried
    have bounded := (network sent present).1
    rw [isCarried] at bounded
    simpa using bounded
  · intro response present granted
    simpa [granted] using (network _ present).2

end Sheltered

/-- From the moment on in which a Leader and a Follower are in contact, nothing
changes their Terms or removes the Leader, as long as they stay in contact and
probes of newer Terms reach the Leader only from logs behind its own. -/
theorem preVote_protects (membership : Membership) (leader follower other : NodeID)
    (roles : membership.members.Perm [leader, follower, other]) {state : State}
    (reachable : (system membership).Reachable (fun state label => snapshotsSent state label)
      state) {term : Nat} (contact : inContact leader follower other term state) {later : State}
    (run : (System.ofNext state (State.next membership)).Reachable
      (fun state label => snapshotsSent state label ∧ keepsContact leader follower state label ∧
        probesBehind leader state label) later) :
    (later.hosts leader).core.role = .leader ∧ (later.hosts leader).core.term = term ∧
      (later.hosts follower).core.term = term := by
  have cast := Sheltered.Cast.of_perm roles
  have sheltered : Sheltered membership leader follower other term later := by
    apply run.invariant (Sheltered membership leader follower other term)
    · rintro _ rfl
      exact .of_inContact (reachable_mannerly reachable) contact
    · rintro before label after sheltered ⟨sent, kept, behind⟩ taken
      exact sheltered.step cast sent kept behind taken
  exact ⟨sheltered.leads.1, sheltered.leads.2, congrArg Office.term sheltered.follows⟩

/-- A request of `a` in the first Term. -/
def firstRequest (requestID prevLogIndex prevLogTerm : Nat) (entries : List LogEntry) : Event :=
  .appendEntries {
    sender := "a"
    term := 1
    requestID := requestID
    prevLogIndex := prevLogIndex
    prevLogTerm := prevLogTerm
    entries := entries
    leaderCommit := 0
    readID := 0 }

def electionRun : List Label :=
  votedRun ++ [.complete "a", .deliver "b" (firstRequest 1 1 1 [])]

/-- `c` voted late for `a` and has no entry. Both `a` and `b` refuse its probe. -/
def refusedRun : List Label :=
  [.deliver "c" (.voteRequest ⟨"a", 1, 0, 0⟩),
    .complete "c",
    .deliver "c" .electionTimeout,
    .deliver "a" (.preVoteRequest ⟨"c", 2, 0, 0⟩),
    .deliver "b" (.preVoteRequest ⟨"c", 2, 0, 0⟩),
    .deliver "c" (.preVoteResponse ⟨"a", 2, 1, false⟩),
    .deliver "c" (.preVoteResponse ⟨"b", 2, 1, false⟩)]

theorem preVote_protects_refused : ∃ state later : State,
    inContact "a" "b" "c" 1 state = true ∧ (later.hosts "c").core.role = .preCandidate ∧
      (later.hosts "a").core.role = .leader ∧ (later.hosts "a").core.term = 1 ∧
      (later.hosts "b").core.term = 1 := by
  have executed : ((System.execute (State.next trio) snapshotsSent electionRun
      (.start trio)).bind fun state =>
        (System.execute (State.next trio) (fun state label => snapshotsSent state label &&
          (keepsContact "a" "b" state label && probesBehind "a" state label)) refusedRun state).map
          fun later => (inContact "a" "b" "c" 1 state, (later.hosts "c").core.role)) =
      some (true, .preCandidate) := by decide +kernel
  have sound : ∀ state label, (snapshotsSent state label &&
      (keepsContact "a" "b" state label && probesBehind "a" state label)) = true →
      snapshotsSent state label = true ∧ keepsContact "a" "b" state label = true ∧
        probesBehind "a" state label = true := by
    intro state label allowed
    simpa only [Bool.and_eq_true] using allowed
  rcases System.continued_of_execute (fun _ _ => id) sound executed with
    ⟨state, later, reachable, run, observed⟩
  simp only [Prod.mk.injEq] at observed
  exact ⟨state, later, observed.1, observed.2,
    preVote_protects trio "a" "b" "c" (.refl _) reachable observed.1 run⟩

/-- `c` takes the first entry of `a`, is cut off, and probes once the partition
heals. The Leader itself grants the probe. -/
def grantedRun : List Label :=
  [.deliver "c" (firstRequest 2 1 1 []),
    .complete "c",
    .deliver "a" (.appendEntriesResponse ⟨"c", 1, 2, false, 0, 0, 1, 0⟩),
    .deliver "c" (firstRequest 3 0 0 [{ index := 1, term := 1, type := .noOp }]),
    .complete "c",
    .deliver "c" .electionTimeout,
    .deliver "a" (.preVoteRequest ⟨"c", 2, 1, 1⟩),
    .deliver "c" (.preVoteResponse ⟨"a", 2, 1, true⟩),
    .complete "c",
    .deliver "a" (.voteRequest ⟨"c", 2, 1, 1⟩)]

theorem preVote_deposes_granted : ∃ state later : State,
    (system trio).Reachable (fun state label => snapshotsSent state label) state ∧
      inContact "a" "b" "c" 1 state = true ∧
      (System.ofNext state (State.next trio)).Reachable (fun state label =>
        snapshotsSent state label ∧ keepsContact "a" "b" state label) later ∧
      (later.hosts "a").core.role = .follower ∧ (later.hosts "a").core.term = 2 := by
  have executed : ((System.execute (State.next trio) snapshotsSent electionRun
      (.start trio)).bind fun state =>
        (System.execute (State.next trio) (fun state label => snapshotsSent state label &&
          keepsContact "a" "b" state label) grantedRun state).map fun later =>
          (inContact "a" "b" "c" 1 state, (later.hosts "a").core.role,
            (later.hosts "a").core.term)) = some (true, .follower, 2) := by decide +kernel
  have sound : ∀ state label, (snapshotsSent state label &&
      keepsContact "a" "b" state label) = true →
      snapshotsSent state label = true ∧ keepsContact "a" "b" state label = true := by
    intro state label allowed
    simpa only [Bool.and_eq_true] using allowed
  rcases System.continued_of_execute (fun _ _ => id) sound executed with
    ⟨state, later, reachable, run, observed⟩
  simp only [Prod.mk.injEq] at observed
  exact ⟨state, later, reachable, observed.1, run, observed.2⟩

end Ternion.Cluster.Deferred
