import Ternion.Cluster.Moves
import Ternion.Raft.Course

/-! # Every transition of the core is a sequence of moves

Whatever event a tracked Node takes, the ledger moves so that the Node is
tracked again and everything it emits is genuine. Nothing is assumed about the
order of events or about when persistence completes.
-/

namespace Ternion.Cluster

open Consensus Raft

variable {action : Action} {event : Event}

/-- The ledger `after` some moves of the Node tracks the result of a transition
and contradicts nothing that it emits. -/
structure RefinesTo (membership : Membership) (ledger : Ledger NodeID LogEntry)
    (current : View) (result : Node × List Action) (after : Ledger NodeID LogEntry) : Prop where
  moved : Moved membership ledger current after (view result.1)
  sound : ∀ action ∈ result.2, Sound membership after action

def Refines (membership : Membership) (ledger : Ledger NodeID LogEntry) (node : Node)
    (result : Node × List Action) : Prop :=
  ∃ after, RefinesTo membership ledger (view node) result after

variable {membership : Membership} {ledger after : Ledger NodeID LogEntry} {node : Node}

namespace RefinesTo

variable {result : Node × List Action} {current middle : View}

/-- A transition that keeps the view refines by standing still. -/
theorem still (tracks : Tracks membership ledger current) (sane : Sane membership ledger)
    (sameView : view result.1 = current)
    (sound : ∀ action ∈ result.2, Sound membership ledger action) :
    RefinesTo membership ledger current result ledger :=
  ⟨.still sane (sameView ▸ tracks) (by rw [sameView]), sound⟩

theorem following {final : Ledger NodeID LogEntry}
    (moved : Moved membership ledger current after middle)
    (unwritten : ∀ term, Undisturbed ledger after term)
    (rest : RefinesTo membership after middle result final) :
    RefinesTo membership ledger current result final :=
  ⟨moved.trans unwritten rest.moved, rest.sound⟩

section

variable (refines : RefinesTo membership ledger current result after)

include refines

/-- A local action in front changes nothing. -/
theorem cons (nothing : envelope action = none) :
    RefinesTo membership ledger current (result.1, action :: result.2) after := by
  refine ⟨refines.moved, ?_⟩
  intro emitted isEmitted
  rcases List.mem_cons.mp isEmitted with rfl | later
  · exact .of_local nothing
  · exact refines.sound emitted later

/-- Further actions, after changes that keep the view. -/
theorem surround {final : Node} {leading trailing : List Action}
    (sameView : view final = view result.1)
    (early : ∀ action ∈ leading, Sound membership after action)
    (late : ∀ action ∈ trailing, Sound membership after action) :
    RefinesTo membership ledger current (final, leading ++ (result.2 ++ trailing)) after := by
  refine ⟨refines.moved.then_ (sameView ▸ refines.moved.tracks) (by rw [sameView])
    (by rw [sameView]) (by rw [sameView]), ?_⟩
  intro action emitted
  rcases List.mem_append.mp emitted with first | later
  · exact early action first
  rcases List.mem_append.mp later with second | last
  · exact refines.sound action second
  · exact late action last

theorem persistHardState :
    RefinesTo membership ledger current (result.1.persistHardState result.2) after := by
  refine ⟨refines.moved.then_ (refines.moved.tracks.persistHardState _ refines.sound) rfl rfl
    rfl, ?_⟩
  intro action emitted
  rw [List.mem_singleton.mp emitted]
  exact .of_local rfl

theorem persistTermChange (changed : Bool) :
    RefinesTo membership ledger current (Node.persistTermChange changed result) after := by
  cases changed with
  | false => exact refines
  | true => exact refines.persistHardState

theorem persistCommit :
    RefinesTo membership ledger current (result.1.persistCommit result.2) after := by
  refine ⟨refines.moved.then_ (refines.moved.tracks.persistCommit _ refines.sound) rfl rfl
    rfl, ?_⟩
  intro action emitted
  rw [List.mem_singleton.mp emitted]
  exact .of_local rfl

end

end RefinesTo

namespace Refines

variable {result : Node × List Action}

theorem following {middle : Node}
    (moved : Moved membership ledger (view node) after (view middle))
    (unwritten : ∀ term, Undisturbed ledger after term)
    (rest : Refines membership after middle result) : Refines membership ledger node result :=
  rest.imp fun _ refines => refines.following moved unwritten

theorem persistTermChange (refines : Refines membership ledger node result) (changed : Bool) :
    Refines membership ledger node (Node.persistTermChange changed result) :=
  refines.imp fun _ refines => refines.persistTermChange changed

end Refines

/-! ## Views of the parts -/

theorem view_sendAppendEntriesTo (node : Node) (peer : NodeID) (readID : ReadID) :
    view (node.sendAppendEntriesTo peer readID).1 = view node := by
  rcases node.sendAppendEntriesTo_frame peer readID with ⟨_, _, _, frame⟩
  rw [frame]
  rfl

theorem view_sendAppendEntries (node : Node) (readID : ReadID) :
    view (node.sendAppendEntries readID).1 = view node := by
  rcases node.sendAppendEntries_frame readID with ⟨_, _, _, frame⟩
  rw [frame]
  rfl

theorem view_applyThrough (node : Node) (index : Nat) :
    view (node.applyThrough index).1 = view node := by
  rcases node.applyThrough_frame index with ⟨_, _, _, frame⟩
  rw [frame]
  rfl

theorem view_acknowledgeRead (node : Node) (response : AppendEntriesResponse) :
    view (node.acknowledgeRead response).1 = view node := by
  rcases node.acknowledgeRead_frame response with ⟨_, frame⟩
  rw [frame]
  rfl

theorem view_recordResponse (node : Node) (response : AppendEntriesResponse) :
    view (node.recordResponse response) = view node := by
  rcases node.recordResponse_frame response with ⟨_, _, _, _, frame⟩
  rw [frame]
  rfl

/-! ## Sound actions -/

theorem Sound.sent {receiver : NodeID} {message : Event}
    (sends : envelope action = some ⟨receiver, message⟩)
    (genuine : Genuine membership ledger receiver message) : Sound membership ledger action := by
  intro sent isSent
  rw [sends] at isSent
  have shape := Option.some.inj isSent
  subst shape
  exact genuine

theorem Sound.of_isLocal (isLocal : action.isLocal = true) : Sound membership ledger action := by
  apply Sound.of_local
  cases action <;> first | rfl | cases isLocal

/-! ## Stepping down -/

section

variable (tracks : Tracks membership ledger (view node))
include tracks

theorem quorum_eq : node.quorum = 2 := by
  have length : node.peers.length = 2 :=
    tracks.peers.length_eq.trans (membership.length_peersOf tracks.member)
  simp [Node.quorum, length]

variable (sane : Sane membership ledger)
include sane

theorem becomeFollower_moved {term : Nat} (newer : node.term < term) (leader : NodeID) :
    Moved membership ledger (view node) (ledger.raiseTerm node.id term)
      (view (node.becomeFollower term leader)) := by
  have sameView : view (node.becomeFollower term leader) = { view node with
      term := term, votedFor := "", role := .follower, votes := ∅ } := by
    simp [view, Node.becomeFollower, newer]
  rw [sameView]
  exact tracks.raise sane newer

theorem acceptLeader_moved (term : Nat) (leader : NodeID) :
    ∃ after, Moved membership ledger (view node) after (view (node.acceptLeader term leader)) ∧
      ∀ term, Undisturbed ledger after term := by
  simp only [Node.acceptLeader]
  split_ifs with newer
  · exact ⟨_, becomeFollower_moved tracks sane newer leader, fun _ => ⟨rfl, rfl⟩⟩
  · exact ⟨ledger, .still sane (tracks.demote (.inl rfl) node.votes) rfl, fun _ => ⟨rfl, rfl⟩⟩

theorem reach_moved {middle : Node} {delayed : Bool} (reach : node.Reach event middle delayed) :
    ∃ after, Moved membership ledger (view node) after (view middle) ∧
      ∀ term, Undisturbed ledger after term := by
  cases reach with
  | stays => exact ⟨ledger, .still sane tracks rfl, fun _ => ⟨rfl, rfl⟩⟩
  | accepts => exact acceptLeader_moved tracks sane ..
  | deposed _ _ newer =>
      exact ⟨_, becomeFollower_moved tracks sane newer "", fun _ => ⟨rfl, rfl⟩⟩
  | resigns =>
      have sameView : view (node.becomeFollower node.term "") = { view node with
          role := .follower, votes := ∅ } := by
        simp [view, Node.becomeFollower]
      refine ⟨ledger, .still sane ?_ rfl, fun _ => ⟨rfl, rfl⟩⟩
      rw [sameView]
      exact tracks.demote (.inl rfl) ∅

/-! ## Elections -/

theorem becomeCandidate_refines : Refines membership ledger node
    (node.becomeCandidate, .resetElectionTimer :: node.becomeCandidate.voteRequests) := by
  have moved : Moved membership ledger (view node) (ledger.campaign node.id)
      (view node.becomeCandidate) := tracks.campaign sane
  refine ⟨_, moved, ?_⟩
  intro action emitted
  rcases List.mem_cons.mp emitted with rfl | request
  · exact .of_local rfl
  · rcases List.mem_map.mp request with ⟨peer, _, rfl⟩
    have whole : node.Whole := tracks.whole
    exact .sent rfl ⟨tracks.member, node.log, (moved.tracks.candidate rfl).1,
      whole.lastIndex, whole.lastTerm⟩

/-- A vote for a request of the Node's own Term. -/
theorem castVote_refines {request : VoteRequest} (current : node.term = request.term)
    (grants : node.grantsVote request = true)
    (genuine : Genuine membership ledger node.id (.voteRequest request)) :
    Refines membership ledger node
      (node.castVote request.sender, node.voteResponse request.sender true) := by
  rcases genuine with ⟨sender, requested, ran, lastIndex, lastTerm_⟩
  rw [← current] at ran
  have named := membership.member_ne_empty sender
  have whole : node.Whole := tracks.whole
  rw [Node.grantsVote, Bool.and_eq_true, decide_eq_true_eq] at grants
  rcases grants with ⟨free, upToDate⟩
  have isUpToDate : UpToDate LogEntry.term requested node.log := by
    simp only [Node.candidateLogIsUpToDate, Node.logIsAtLeastAsUpToDate, decide_eq_true_eq,
      lastIndex, lastTerm_, whole.lastIndex, whole.lastTerm] at upToDate
    exact upToDate
  have moved : ∃ after, Moved membership ledger (view node) after
      (view (node.castVote request.sender)) := by
    rcases free with nobody | already
    · exact ⟨_, tracks.castVote sane nobody named ran isUpToDate⟩
    · have sameNode : node.castVote request.sender = node := by
        rw [← already]
        rfl
      rw [sameNode]
      exact ⟨ledger, .still sane tracks rfl⟩
  rcases moved with ⟨after, moved⟩
  refine ⟨after, moved, List.forall_mem_singleton.mpr (.sent rfl ⟨tracks.member, fun _ => ?_⟩)⟩
  have vote := moved.tracks.vote
  simp only [view, Node.castVote, named, if_false] at vote
  exact vote

omit sane in
theorem recordVote_tracks {voter : NodeID} (member : voter ∈ membership.members)
    (cast : ledger.vote voter node.term = some node.id) :
    Tracks membership ledger (view (node.recordVote voter)) :=
  { tracks with
    candidate := by
      intro running
      rcases tracks.candidate running with ⟨ran, notLeader, votes⟩
      refine ⟨ran, notLeader, fun other counted => ?_⟩
      rcases Finset.mem_insert.mp counted with rfl | earlier
      · exact ⟨member, cast⟩
      · exact votes other earlier }

theorem lead_refines (running : node.role = .candidate) (enough : 2 ≤ node.votes.card) :
    Refines membership ledger node node.lead := by
  have votes := (tracks.candidate running).2.2
  have quorum : membership.Quorum node.votes :=
    ⟨fun voter counted => (votes voter counted).1, enough⟩
  have moved : Moved membership ledger (view node) _ _ :=
    tracks.elect sane running quorum node.noOp rfl rfl
  have appended : node.becomeLeader.appendEntries [node.noOp] =
      node.becomeLeader.setLog (node.log ++ [node.noOp]) :=
    Node.appendEntries_eq (by simp) moved.tracks.whole.indexed
  simp only [Node.lead, Node.appendOwnEntry, appended]
  refine ⟨_, moved, ?_⟩
  intro action emitted
  simp only [Node.persistLog, List.cons_append, List.nil_append, List.mem_cons,
    List.not_mem_nil, or_false] at emitted
  rcases emitted with rfl | rfl | rfl | rfl <;> exact .of_local rfl

theorem ballots_refine {leading actions : List Action} {middle : Node} {delayed : Bool}
    (ballots : node.Ballots event leading middle actions delayed)
    (genuine : Genuine membership ledger node.id event) :
    Refines membership ledger node (middle, actions) := by
  cases ballots with
  | probes =>
      refine ⟨ledger, .still sane (tracks.demote (.inr rfl) node.votes) rfl, ?_⟩
      intro action emitted
      rcases List.mem_cons.mp emitted with rfl | request
      · exact .of_local rfl
      · rcases List.mem_map.mp request with ⟨peer, _, rfl⟩
        exact .sent rfl trivial
  | campaignsAlone alone => exact absurd ((quorum_eq tracks).symm.trans alone) (by decide)
  | @campaigns response =>
      have recorded : Tracks membership ledger (view (node.recordPreVote response.sender)) := tracks
      exact becomeCandidate_refines recorded sane
  | grants reached grants =>
      rcases reached with ⟨rfl, current⟩ | ⟨rfl, newer⟩
      · exact castVote_refines tracks sane current grants genuine
      · have moved := becomeFollower_moved tracks sane newer ""
        exact .following moved (fun _ => ⟨rfl, rfl⟩) (castVote_refines moved.tracks moved.sane rfl
          grants (genuine.mono (moved.advance sane)))
  | repeats current grants => exact castVote_refines tracks sane current grants genuine
  | counts _ current granted =>
      have cast := genuine.2 granted
      rw [current] at cast
      exact ⟨ledger, .still sane (recordVote_tracks tracks genuine.1 cast) rfl, by simp⟩

/-! ## What happens within one Term -/

omit sane in
theorem emits_sound {origin : Node} (genuine : Genuine membership ledger node.id event)
    (emits : Node.Emits event origin node action) : Sound membership ledger action := by
  cases emits with
  | runtime isLocal => exact .of_isLocal isLocal
  | @entries supplier peer _ requestID readID leads keeps _ above =>
      have supplied : supplier.Supplies _ := .entries peer requestID readID above
      have same : view supplier = view node := by
        rcases keeps with ⟨_, rfl⟩
        rfl
      exact (same ▸ tracks).supplies ((congrArg View.role same).trans leads) supplied
  | snapshot => exact .of_local rfl
  | refusedVote => exact .sent rfl ⟨tracks.member, by simp⟩
  | installResponse isRequest =>
      rw [isRequest] at genuine
      exact genuine.elim
  | _ => exact .sent rfl trivial

theorem proposeEntry_refines (leading : node.role = .leader) (proposalID : ProposalID)
    (entry : LogEntry) (entryIndex : entry.index = node.lastLogIndex + 1)
    (entryTerm : entry.term = node.term) :
    Refines membership ledger node (node.proposeEntry proposalID entry) := by
  have moved : Moved membership ledger (view node) _ _ :=
    tracks.append sane leading entry entryIndex entryTerm
  have appended : node.appendEntries [entry] = node.setLog (node.log ++ [entry]) :=
    Node.appendEntries_eq (by simp) moved.tracks.whole.indexed
  simp only [Node.proposeEntry, Node.appendOwnEntry, appended]
  refine ⟨_, moved, ?_⟩
  intro action emitted
  simp only [Node.persistLog, List.mem_cons, List.not_mem_nil, or_false] at emitted
  rcases emitted with rfl | rfl <;> exact .of_local rfl

theorem storeEntries_refines (following : node.role = .follower) {request : AppendEntries}
    (current : node.term = request.term) (led : ledger.leader request.term ≠ none)
    {reach truncateFrom : Nat} {newEntries : List LogEntry} (some_ : newEntries ≠ [])
    (intake : Node.Intake node.log (ledger.leaderLog request.term) node.commitIndex reach
      (some (newEntries, truncateFrom))) :
    Refines membership ledger node (node.storeEntries request newEntries truncateFrom) := by
  have whole : node.Whole := tracks.whole
  rw [← current] at led intake
  have moved : Moved membership ledger (view node) _ _ :=
    tracks.follow sane following led fun _ agree => intake.keeps some_ agree
  have replaced := whole.replaceSuffix (sane.indexed led) some_ intake
  simp only [Node.storeEntries, replaced]
  refine ⟨_, moved, ?_⟩
  intro action emitted
  rw [List.mem_singleton.mp emitted]
  exact .of_local rfl

/-- What happens within one Term refines, and a completion stands still. -/
theorem body_refines {origin : Node} {result : Node × List Action}
    (body : Node.Body event origin node result) (genuine : Genuine membership ledger node.id event)
    (follows : ∀ request, event = .appendEntries request → node.term = request.term →
      node.role = .follower) :
    ∃ after, RefinesTo membership ledger (view node) result after ∧
      (event.isCompletion = true → after = ledger) := by
  have sound : ∀ {actions : List Action},
      (∀ action ∈ actions, Node.Emits event origin node action) →
      ∀ action ∈ actions, Sound membership ledger action :=
    fun emits action present => emits_sound tracks genuine (emits action present)
  cases body with
  | quiet keeps emits =>
      rcases keeps with ⟨_, rfl⟩
      exact ⟨ledger, .still tracks sane rfl (sound emits), fun _ => rfl⟩
  | appended isInput leads next current =>
      rcases proposeEntry_refines tracks sane leads _ _ next current with ⟨after, refines⟩
      exact ⟨after, refines, by simp [isInput]⟩
  | stored isRequest current matched taken isNew =>
      subst isRequest
      have intake := tracks.intake sane genuine matched
      rw [taken] at intake
      rcases storeEntries_refines tracks sane (follows _ rfl current) current (by simp [genuine.1])
        isNew intake with ⟨after, refines⟩
      exact ⟨after, refines.cons rfl, by simp [Event.isCompletion]⟩
  | @committed index _ _ _ parked _ _ _ keeps emits kept early late =>
      rcases keeps with ⟨notes, rfl⟩
      rcases kept with ⟨_, rfl⟩
      have advanced : RefinesTo membership ledger (view node)
          ({ node with commitIndex := index }.note notes, parked) ledger :=
        .still tracks sane rfl (sound emits)
      exact ⟨ledger, advanced.persistCommit.surround rfl
        (fun _ present => .of_isLocal (early _ present))
        (fun _ present => .of_isLocal (late _ present)), fun _ => rfl⟩
  | @applied index _ _ _ _ early emits =>
      have applied : RefinesTo membership ledger (view node) (node.applyThrough index) ledger :=
        .still tracks sane (view_applyThrough node _) fun _ emitted =>
          .of_reports (node.applyThrough_reports _ emitted)
      exact ⟨ledger, applied.surround rfl (fun _ present => .of_isLocal (early _ present))
        (sound emits), fun _ => rfl⟩
  | installed isRequest =>
      rw [isRequest] at genuine
      exact genuine.elim
  | compacted isCompaction =>
      rw [isCompaction] at genuine
      exact genuine.elim

/-! ## The whole core -/

/-- What completes a write moves nothing. -/
theorem completion_stands (completes : event.isCompletion = true) :
    RefinesTo membership ledger (view node) (node.step event) ledger := by
  have course := node.step_course event
  generalize node.step event = result at course ⊢
  cases course with
  | acts isInput =>
      rw [completes] at isInput
      cases isInput
  | votes ballots => cases ballots <;> cases completes
  | wins => cases completes
  | ignored => exact .still tracks sane rfl (by simp)
  | released found =>
      refine ⟨.still sane (tracks.forget of_update_none id) rfl, ?_⟩
      dsimp only
      split_ifs
      · exact List.forall_mem_nil _
      · exact tracks.pendingHardState found
  | @written persistenceID pending _ _ body =>
      have completed : Tracks membership ledger (view (node.completeLog persistenceID pending)) :=
        tracks
      rcases body_refines completed sane body trivial (by simp) with ⟨after, refines, same⟩
      exact same rfl ▸ refines
  | @completed persistenceID pending _ found isApplied =>
      subst isApplied
      have completed : Tracks membership ledger
          (view (node.completeCommit persistenceID pending)) :=
        tracks.forget id of_update_none
      have sameView := view_applyThrough (node.completeCommit persistenceID pending)
        pending.commitIndex
      refine ⟨.still sane (sameView ▸ completed) (by rw [sameView]; rfl), ?_⟩
      intro action emitted
      rcases List.mem_append.mp emitted with now | waiting
      · exact .of_reports (Node.applyThrough_reports _ _ now)
      · exact tracks.pendingCommit found action waiting

/-- Every event the ledger does not contradict keeps the Node tracked. -/
theorem step_refines (genuine : Genuine membership ledger node.id event) :
    Refines membership ledger node (node.step event) := by
  by_cases completes : event.isCompletion = true
  · exact ⟨ledger, completion_stands tracks sane completes⟩
  have course := node.step_course event
  generalize node.step event = result at course ⊢
  cases course with
  | @acts _ middle _ _ _ reach body =>
      rcases reach_moved tracks sane reach with ⟨after, moved, unwritten⟩
      have sameID : middle.id = node.id := moved.sameID
      have genuineAfter := genuine.mono (moved.advance sane)
      rw [← sameID] at genuineAfter
      have follows : ∀ request, event = .appendEntries request → middle.term = request.term →
          middle.role = .follower := by
        rintro request rfl current
        rw [(reach.accepted rfl rfl current).2]
        exact Node.acceptLeader_role ..
      rcases body_refines moved.tracks moved.sane body genuineAfter follows with ⟨final, refines, _⟩
      exact ⟨final, (refines.following moved unwritten).persistTermChange _⟩
  | @votes _ middle delayed leading actions ballots =>
      -- Nobody campaigns alone in a Cluster of three.
      have nothing : leading = [] := by
        cases ballots with
        | campaignsAlone alone => exact absurd ((quorum_eq tracks).symm.trans alone) (by decide)
        | _ => rfl
      rw [nothing]
      exact (ballots_refine tracks sane ballots genuine).persistTermChange delayed
  | wins running current granted enough =>
      have cast := genuine.2 granted
      rw [current] at cast
      have recorded := recordVote_tracks tracks genuine.1 cast
      have quorum : node.quorum = 2 := quorum_eq tracks
      exact .following (.still sane recorded rfl) (fun _ => ⟨rfl, rfl⟩)
        (lead_refines recorded sane running (by omega))
  | ignored isCompletion => exact absurd isCompletion completes
  | released => exact absurd rfl completes
  | written => exact absurd rfl completes
  | completed => exact absurd rfl completes

end

/-! ## The whole Cluster -/

/-- The ledger tracks every member and contradicts no message. -/
structure Followed (membership : Membership) (ledger : Ledger NodeID LogEntry)
    (cores : NodeID → Node) (network : List Envelope) : Prop where
  sane : Sane membership ledger
  identity : ∀ id ∈ membership.members, (cores id).id = id
  tracks : ∀ id ∈ membership.members, Tracks membership ledger (view (cores id))
  genuine : ∀ sent ∈ network, Genuine membership ledger sent.receiver sent.message
  messages : ∀ sent ∈ network, isMessage sent.message

namespace Followed

variable {cores : NodeID → Node} {network : List Envelope}

section

variable (followed : Followed membership ledger cores network)

include followed

/-- Moves of one member, after which it has another core. -/
theorem replace {id : NodeID} {core : Node}
    (moves : membership.protocol.Moves id ledger after) (sane : Sane membership after)
    (sameID : core.id = id) (tracks : Tracks membership after (view core)) :
    Followed membership after (Function.update cores id core) network := by
  have advance := (Protocol.Moves.coherent moves followed.sane.coherent).2
  constructor
  case sane => exact sane
  case identity =>
    intro other isMember
    by_cases same : other = id
    · simpa [same] using sameID
    · simpa [Function.update_of_ne same] using followed.identity other isMember
  case tracks =>
    intro other isMember
    by_cases same : other = id
    · simpa [same] using tracks
    · rw [Function.update_of_ne same]
      refine (followed.tracks other isMember).other advance ?_
      exact fun isID => same ((followed.identity other isMember).symm.trans isID)
  case genuine => exact fun sent isSent => (followed.genuine sent isSent).mono advance
  case messages => exact followed.messages

/-- Further messages that the ledger does not contradict. -/
theorem send {actions : List Action} (sound : ∀ action ∈ actions, Sound membership ledger action) :
    Followed membership ledger cores (network ++ actions.filterMap envelope) := by
  refine { followed with genuine := ?_, messages := ?_ }
  · intro sent isSent
    rcases List.mem_append.mp isSent with earlier | now
    · exact followed.genuine sent earlier
    · rcases List.mem_filterMap.mp now with ⟨action, emitted, isEnvelope⟩
      exact sound action emitted sent isEnvelope
  · intro sent isSent
    rcases List.mem_append.mp isSent with earlier | now
    · exact followed.messages sent earlier
    · rcases List.mem_filterMap.mp now with ⟨_, _, isEnvelope⟩
      exact envelope_isMessage isEnvelope

/-- A step of one member, which the ledger follows by moves of that member. -/
theorem step {id : NodeID} (member : id ∈ membership.members) {result : Node × List Action}
    (refines : RefinesTo membership ledger (view (cores id)) result after) :
    Followed membership after (Function.update cores id result.1)
      (network ++ result.2.filterMap envelope) := by
  have moved := refines.moved
  have own : (view (cores id)).id = id := followed.identity id member
  have replaced := followed.replace (own ▸ moved.moves) moved.sane (moved.sameID.trans own)
    moved.tracks
  exact replaced.send refines.sound

end

theorem start (membership : Membership) :
    Followed membership .initial
      (fun id => .newNodeFromRecoveredState id (membership.peersOf id) {}) [] where
  sane := .initial membership
  identity := fun _ _ => rfl
  tracks := fun id member => {
    member := member
    peers := List.perm_insertionSort _ _
    whole := ⟨rfl, rfl, by simp [Indexed, view, Node.newNodeFromRecoveredState], rfl, rfl⟩
    term := rfl
    log := rfl
    vote := rfl
    candidate := fun active => by cases active
    leader := fun active => by cases active
    pendingHardState := fun found => by cases found
    pendingCommit := fun found => by cases found }
  genuine := by simp
  messages := by simp

end Followed

end Ternion.Cluster
