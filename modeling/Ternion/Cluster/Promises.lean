import Ternion.Cluster.Grounded
import Ternion.Raft.Hints

/-! # Promises of a step

What the messages of a Node promise about logs and commitments, and what a
Leader's bookkeeping relies on. Every turn of a Node keeps the promises, as long
as no Leader takes a rejection without a hint for an answer to its own request.
-/

namespace Ternion.Cluster

open Consensus Raft RaftRuntime Production

variable {action : Action} {response : AppendEntriesResponse}

structure Books where
  id : NodeID
  role : Role
  term : Nat
  log : List LogEntry
  commitIndex : Nat
  matchIndex : NodeID → Nat
  nextIndex : NodeID → Nat

def books (node : Node) : Books where
  id := node.id
  role := node.role
  term := node.term
  log := node.log
  commitIndex := node.commitIndex
  matchIndex := node.matchIndex
  nextIndex := node.nextIndex

section

variable (ledger : Ledger NodeID LogEntry) (tally : Tally NodeID)

/-- What a message promises. A request names a position from which its entries
are safe to take, and nothing as committed that is not. A response acknowledges
only what its sender holds, and a hint is true of its sender's log. -/
def Honest (receiver : NodeID) : Event → Prop
  | .appendEntries request =>
      ledger.leader request.term ≠ none ∧ Announced tally request.term request.leaderCommit ∧
        Probe LogEntry.term ledger receiver request.term request.prevLogIndex ∧
        (request.entries = [] →
          TermAt LogEntry.term (ledger.leaderLog request.term) request.prevLogIndex request.term ∨
            Settled ledger receiver request.term)
  | .appendEntriesResponse response =>
      (response.success = true → ledger.leader response.term ≠ none ∧
        response.matchIndex ≤ tally.acknowledged response.sender response.term ∧
        Settled ledger response.sender response.term) ∧
      (response.success = false → response.conflictIndex ≠ 0 →
        ledger.leader response.term ≠ none ∧
        Learned (Conflict LogEntry.term response.conflictTerm response.conflictIndex) ledger
          response.sender response.term)
  | _ => True

structure Leads (books : Books) : Prop where
  led : ledger.leader books.term ≠ none
  own : books.log.length ≤ tally.acknowledged books.id books.term
  matched : ∀ peer, books.matchIndex peer ≤ tally.acknowledged peer books.term
  probes : ∀ peer, books.nextIndex peer = 0 ∨
    Probe LogEntry.term ledger peer books.term (books.nextIndex peer - 1)

structure Reliable (books : Books) : Prop where
  holds : HoldsCommitted ledger tally books.id books.commitIndex
  leads : books.role = .leader → Leads ledger tally books

/-- Whatever an action sends is honest, and whatever it applies is committed. -/
def Backed (action : Action) : Prop :=
  (∀ sent, envelope action = some sent → Honest ledger tally sent.receiver sent.message) ∧
    ∀ entry, appliedEntry action = some entry → IsCommitted ledger tally entry.index entry

structure Upheld (commitment : Commitment) : Prop where
  led : ledger.leader commitment.term ≠ none
  leading : commitment.entries <+: ledger.leaderLog commitment.term
  committed : commitment.entries.length ≤ tally.committed commitment.term

end

def Endorsed (membership : Membership) (ledger : Ledger NodeID LogEntry) (tally : Tally NodeID)
    (outcome : Outcome) : Prop :=
  ∃ grown, tally.Grows grown ∧ Secured membership.protocol ledger grown ∧
    Reliable ledger grown (books outcome.core) ∧
    ∀ action ∈ outcome.emitted, Backed ledger grown action

def misled (node : Node) : Event → Bool
  | .appendEntriesResponse response =>
      decide (node.role = .leader ∧ response.term = node.term ∧ response.success = false ∧
        response.conflictIndex = 0 ∧
        ¬Node.outdated (node.appendInFlight response.sender) response)
  | _ => false

variable {membership : Membership} {ledger after : Ledger NodeID LogEntry}
  {tally grown : Tally NodeID} {actor : NodeID} {node : Node}

/-! ## Promises outlive moves -/

section

variable (moves : membership.protocol.Moves actor ledger after)
  (coherent : Coherent membership.protocol ledger)

include moves coherent

theorem Honest.mono {receiver : NodeID} {message : Event} (grows : tally.Grows grown)
    (honest : Honest ledger tally receiver message) : Honest after grown receiver message := by
  have advance := (Protocol.Moves.coherent moves coherent).2
  cases message with
  | appendEntries request =>
      rcases honest with ⟨led, announced, probe, empty⟩
      refine ⟨advance.leader_ne_none led, announced.mono grows,
        Protocol.Moves.probe moves coherent led probe, fun isEmpty => ?_⟩
      rcases empty isEmpty with here | settled
      · exact .inl (here.mono (advance.leaderLog_grows led))
      · exact .inr (Protocol.Moves.settled moves coherent led settled)
  | appendEntriesResponse response =>
      refine ⟨fun success => ?_, fun failure hinted => ?_⟩
      · rcases honest.1 success with ⟨led, acknowledged, settled⟩
        exact ⟨advance.leader_ne_none led, acknowledged.trans (grows.acknowledged _ _),
          Protocol.Moves.settled moves coherent led settled⟩
      · rcases honest.2 failure hinted with ⟨led, learned⟩
        exact ⟨advance.leader_ne_none led, Protocol.Moves.learned moves coherent led
          (fun conflict longer => conflict.mono longer) learned⟩
  | _ => trivial

theorem Leads.mono {current : Books} (grows : tally.Grows grown)
    (leads : Leads ledger tally current) : Leads after grown current where
  led := (Protocol.Moves.coherent moves coherent).2.leader_ne_none leads.led
  own := leads.own.trans (grows.acknowledged _ _)
  matched := fun peer => (leads.matched peer).trans (grows.acknowledged _ _)
  probes := fun peer => (leads.probes peer).imp_right fun probe =>
    Protocol.Moves.probe moves coherent leads.led probe

theorem Reliable.mono {current : Books}
    (secured : Secured membership.protocol ledger tally) (grows : tally.Grows grown)
    (reliable : Reliable ledger tally current) : Reliable after grown current where
  holds := (Protocol.Moves.holdsCommitted moves coherent secured reliable.holds).grow grows
  leads := fun leading => (reliable.leads leading).mono moves coherent grows

theorem Upheld.mono {commitment : Commitment} (grows : tally.Grows grown)
    (upheld : Upheld ledger tally commitment) : Upheld after grown commitment where
  led := (Protocol.Moves.coherent moves coherent).2.leader_ne_none upheld.led
  leading := upheld.leading.trans
    ((Protocol.Moves.coherent moves coherent).2.leaderLog_grows upheld.led)
  committed := upheld.committed.trans (grows.committed _)

end

/-! ## Actions that promise nothing -/

theorem Backed.of_local (silent : envelope action = none) (applies : appliedEntry action = none) :
    Backed ledger tally action := by
  refine ⟨fun sent isSent => ?_, fun entry isApplied => ?_⟩
  · cases silent.symm.trans isSent
  · cases applies.symm.trans isApplied

theorem Backed.of_sent {receiver : NodeID} {message : Event}
    (sends : envelope action = some ⟨receiver, message⟩)
    (honest : Honest ledger tally receiver message) : Backed ledger tally action := by
  refine ⟨fun sent isSent => ?_, fun entry isApplied => ?_⟩
  · cases sends.symm.trans isSent
    exact honest
  · cases action <;> cases sends <;> cases isApplied

theorem Backed.of_confirmed
    (confirms : ∃ readID commitIndex, action = .readConfirmed readID commitIndex) :
    Backed ledger tally action := by
  rcases confirms with ⟨_, _, rfl⟩
  exact .of_local rfl rfl

theorem Backed.of_quiet (isQuiet : quiet action) : Backed ledger tally action := by
  cases action <;> first
    | exact .of_sent rfl trivial
    | exact .of_local rfl rfl
    | cases isQuiet

/-! ## The books of the parts -/

@[simp] theorem books_sendAppendEntries (node : Node) (readID : ReadID) :
    books (node.sendAppendEntries readID).1 = books node := by
  rcases node.sendAppendEntries_frame readID with ⟨_, _, _, frame⟩
  rw [frame]
  rfl

@[simp] theorem books_sendAppendEntriesTo (node : Node) (peer : NodeID) (readID : ReadID) :
    books (node.sendAppendEntriesTo peer readID).1 = books node := by
  rcases node.sendAppendEntriesTo_frame peer readID with ⟨_, _, _, frame⟩
  rw [frame]
  rfl

@[simp] theorem books_applyThrough (node : Node) (index : Nat) :
    books (node.applyThrough index).1 = books node := by
  rcases node.applyThrough_frame index with ⟨_, _, _, frame⟩
  rw [frame]
  rfl

@[simp] theorem books_acknowledgeRead (node : Node) (response : AppendEntriesResponse) :
    books (node.acknowledgeRead response).1 = books node := by
  rcases node.acknowledgeRead_frame response with ⟨_, frame⟩
  rw [frame]
  rfl

theorem books_recordResponse_success (node : Node) (success : response.success = true) :
    books (node.recordResponse response) = { books node with
      matchIndex := Function.update node.matchIndex response.sender
        (max (node.matchIndex response.sender) response.matchIndex)
      nextIndex := Function.update node.nextIndex response.sender
        (max (node.matchIndex response.sender) response.matchIndex + 1) } := by
  simp only [Node.recordResponse, success, if_true, books]

theorem books_recordResponse_failure (node : Node) (failure : response.success = false) :
    books (node.recordResponse response) = { books node with
      nextIndex := Function.update node.nextIndex response.sender
        (node.nextIndexFromConflict response) } := by
  simp only [Node.recordResponse, failure, Bool.false_eq_true, if_false, books]
  congr 2
  apply Node.nextIndexFromConflict_congr
  · rfl
  · exact fun _ => rfl

/-- A calm change keeps the books of a Leader, and the log and commit index of
any Node. -/
theorem Reliable.calm {next : Node} (reliable : Reliable ledger tally (books node))
    (calm : Calm node next) : Reliable ledger tally (books next) := by
  have id := congrArg Holdings.id calm.holds
  have log := congrArg Holdings.log calm.holds
  have commitIndex := congrArg Holdings.commitIndex calm.holds
  simp only [holdings] at id log commitIndex
  refine ⟨?_, fun leading => ?_⟩
  · simp only [books, id, commitIndex]
    exact reliable.holds
  · rcases calm.leading leading with ⟨led, same⟩
    have term := congrArg Leadership.term same
    have matchIndex := congrArg Leadership.matchIndex same
    have nextIndex := congrArg Leadership.nextIndex same
    simp only [leadership] at term matchIndex nextIndex
    have role : next.role = .leader := leading
    have sameBooks : books next = books node := by
      simp only [books, id, log, commitIndex, term, matchIndex, nextIndex, role, led]
    rw [sameBooks]
    exact reliable.leads led

/-! ## Sending and applying -/

section Tracked

variable (sane : Sane membership ledger) (tracks : Tracks membership ledger (view node))
include sane tracks

theorem supplies_backed (durable : node.lastLogIndex ≤ node.durableLogIndex)
    (leading : node.role = .leader) (reliable : Reliable ledger tally (books node))
    (supplied : node.Supplies action) : Backed ledger tally action := by
  have whole : node.Whole := tracks.whole
  have leads := reliable.leads leading
  have sameLog : ledger.leaderLog node.term = node.log := (tracks.leader leading).2
  have durableLast : node.durableLastIndex = node.log.length := by
    rw [Node.durableLastIndex, whole.lastIndex]
    have := whole.lastIndex
    omega
  have atEnd : TermAt LogEntry.term (ledger.leaderLog node.term) node.log.length node.term := by
    have last := sane.coherent.leaderLog_last leads.led
    rwa [show (ledger.leaderLog (books node).term).length = node.log.length from
      congrArg List.length sameLog] at last
  have announced : Announced tally node.term node.commitIndex := by
    have isAnnounced := reliable.holds.announced
    rwa [show ledger.term (books node).id = node.term from tracks.term] at isAnnounced
  cases supplied with
  | snapshot => exact .of_local rfl rfl
  | entries peer requestID readID _ =>
      refine .of_sent rfl ⟨leads.led, announced, ?_⟩
      simp only [Node.appendRequest]
      by_cases clipped : node.nextIndex peer = 0 ∨ node.durableLastIndex + 1 < node.nextIndex peer
      · have first : node.firstToSend peer - 1 = node.log.length := by
          rw [Node.firstToSend, if_pos clipped, durableLast]
          omega
        rw [first]
        exact ⟨.inl atEnd, fun _ => .inl atEnd⟩
      · have first : node.firstToSend peer = node.nextIndex peer := by
          rw [Node.firstToSend, if_neg clipped]
        rw [not_or, durableLast] at clipped
        rw [first]
        refine ⟨(leads.probes peer).resolve_left clipped.1, fun isEmpty => ?_⟩
        by_cases final : node.nextIndex peer = node.log.length + 1
        · rw [final]
          exact .inl atEnd
        · refine absurd isEmpty (whole.entriesBatch_ne_nil (by omega) ?_ ?_)
          · omega
          · rw [durableLast, whole.lastIndex]

omit sane in
theorem applyThrough_backed (above : node.logBaseIndex ≤ node.lastApplied)
    (holds : HoldsCommitted ledger tally node.id node.commitIndex) :
    ∀ action ∈ (node.applyThrough node.commitIndex).2, Backed ledger tally action := by
  have whole : node.Whole := tracks.whole
  intro action emitted
  rw [node.applyThrough_eq node.commitIndex above] at emitted
  rcases List.mem_append.mp emitted with applied | completed
  · rcases Node.mem_reportsOf applied with ⟨entry, inSegment, rfl⟩ | rfl
    · refine ⟨fun _ isSent => (by cases isSent), fun other isApplied => ?_⟩
      cases isApplied
      rcases Node.mem_upcoming inSegment with ⟨offset, found, beyond, within⟩
      rw [whole.base, Nat.sub_zero] at beyond
      have index := whole.indexed offset entry found
      refine holds.isCommitted (by omega) (by omega) ?_
      rw [index, Nat.add_sub_cancel]
      exact (congrArg (·[offset]?) tracks.log).trans found
    · exact .of_local rfl rfl
  · exact .of_confirmed (Node.completeReads_confirms _ completed)

theorem probe_of_conflict (leading : node.role = .leader) {sender : NodeID}
    (learned : Learned (Conflict LogEntry.term response.conflictTerm response.conflictIndex) ledger
      sender node.term) :
    Probe LogEntry.term ledger sender node.term (node.nextIndexFromConflict response - 1) := by
  have whole : node.Whole := tracks.whole
  have led : ledger.leader node.term ≠ none := by
    rw [show ledger.leader node.term = some node.id from (tracks.leader leading).1]
    exact Option.some_ne_none node.id
  have sameLog : ledger.leaderLog node.term = node.log := (tracks.leader leading).2
  rcases learned with settled | ⟨current, conflict⟩
  · exact .inr (.inl settled)
  · have conflictLog := sameLog ▸ conflict
    have positive := conflict.1
    rcases whole.nextIndexFromConflict conflictLog.1 conflictLog.2.1 with
      atEnd | ⟨next, missing⟩ | ⟨last, next, inside, known, here, final⟩
    · left
      rw [atEnd, Nat.add_sub_cancel, ← sameLog]
      exact sane.coherent.leaderLog_last led
    · refine .inr (.inr ⟨current, ?_⟩)
      rw [next, Nat.sub_add_cancel positive]
      refine ⟨conflict.2.1, fun agree => ?_⟩
      by_cases known : response.conflictTerm = 0
      · exact conflict.2.2.1 known agree
      · exact missing known _ (sameLog ▸ (conflict.2.2.2 known).1.agree agree)
    · refine .inr (.inr ⟨current, ?_⟩)
      rw [next, Nat.add_sub_cancel]
      rw [← sameLog] at here final inside
      exact conflict.partedBy_succ sane.coherent (sane.coherent.logMatched sender) known here final
        inside

theorem recordResponse_reliable (leading : node.role = .leader)
    (reliable : Reliable ledger tally (books node)) (current : response.term = node.term)
    (honest : Honest ledger tally node.id (.appendEntriesResponse response))
    (hinted : response.success = false → response.conflictIndex ≠ 0) :
    Reliable ledger tally (books (node.recordResponse response)) := by
  have leads := reliable.leads leading
  cases success : response.success with
  | true =>
      rcases honest.1 success with ⟨_, acknowledged, settled⟩
      rw [current] at acknowledged settled
      rw [books_recordResponse_success node success]
      refine ⟨reliable.holds, fun _ => ⟨leads.led, leads.own, fun peer => ?_, fun peer => ?_⟩⟩
      · by_cases same : peer = response.sender
        · simp only [same, Function.update_self]
          exact max_le (leads.matched response.sender) acknowledged
        · simp only [Function.update_of_ne same]
          exact leads.matched peer
      · by_cases same : peer = response.sender
        · rw [same]
          exact .inr (.inr (.inl settled))
        · simp only [Function.update_of_ne same]
          exact leads.probes peer
  | false =>
      rcases honest.2 success (hinted success) with ⟨_, learned⟩
      rw [current] at learned
      rw [books_recordResponse_failure node success]
      refine ⟨reliable.holds, fun _ => ⟨leads.led, leads.own, leads.matched, fun peer => ?_⟩⟩
      by_cases same : peer = response.sender
      · simp only [same, Function.update_self]
        exact .inr (probe_of_conflict sane tracks leading learned)
      · simp only [Function.update_of_ne same]
        exact leads.probes peer

omit sane in
theorem advanceLeaderCommit_secured (leading : node.role = .leader)
    (secured : Secured membership.protocol ledger tally) (leads : Leads ledger tally (books node))
    {advanced : Node} (advances : node.advanceLeaderCommit = some advanced) :
    Secured membership.protocol ledger (tally.commit node.term advanced.commitIndex) ∧
      node.commitIndex < advanced.commitIndex ∧ advanced.commitIndex ≤ node.log.length := by
  have whole : node.Whole := tracks.whole
  rcases Option.map_eq_some_iff.mp advances with ⟨index, found, rfl⟩
  rcases Node.commitCandidate_bounds found with ⟨above, below, isTerm, enough⟩
  have within : index ≤ node.log.length := by
    have := whole.lastIndex
    omega
  have sameLog : ledger.leaderLog node.term = node.log := (tracks.leader leading).2
  have here : TermAt LogEntry.term (ledger.leaderLog node.term) index node.term := by
    rw [sameLog]
    exact termAt_iff.mpr ⟨by omega, within, (whole.termAt index).symm.trans isTerm⟩
  rw [quorum_eq tracks, Node.replicated] at enough
  have someone : node.peers.filter (fun peer => index ≤ node.matchIndex peer) ≠ [] := by
    intro nobody
    rw [nobody] at enough
    simp at enough
  rcases List.exists_mem_of_ne_nil _ someone with ⟨peer, counted⟩
  rcases List.mem_filter.mp counted with ⟨isPeer, holds⟩
  rcases membership.mem_peersOf.mp (tracks.peers.mem_iff.mp isPeer) with ⟨different, isMember⟩
  have quorum : membership.Quorum {node.id, peer} := by
    refine ⟨fun voter counted => ?_, ?_⟩
    · rcases Finset.mem_insert.mp counted with rfl | isPeer
      · exact tracks.member
      · exact Finset.mem_singleton.mp isPeer ▸ isMember
    · exact (Finset.card_pair (Ne.symm different)).ge
  refine ⟨secured.commit here quorum fun voter counted => ?_, above, within⟩
  rcases Finset.mem_insert.mp counted with rfl | isPeer
  · exact within.trans leads.own
  · rw [Finset.mem_singleton.mp isPeer]
    exact (of_decide_eq_true holds).trans (leads.matched peer)

end Tracked

end Ternion.Cluster
