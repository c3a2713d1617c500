import Ternion.Cluster.Promises

/-! # Every turn keeps the promises

One lemma for each synchronous handler, and their sum over the turns of a Node.
-/

namespace Ternion.Cluster

open Consensus Raft RaftRuntime Production

variable {membership : Membership} {ledger middle after : Ledger NodeID LogEntry}
  {tally : Tally NodeID} {node : Node} {outcome : Outcome}

namespace Endorsed

theorem still (secured : Secured membership.protocol after tally)
    (reliable : Reliable after tally (books outcome.core))
    (backed : ∀ action ∈ outcome.emitted, Backed after tally action) :
    Endorsed membership after tally outcome :=
  ⟨tally, .refl tally, secured, reliable, backed⟩

theorem wrote (endorsed : Endorsed membership after tally outcome) (writes : List Write) :
    Endorsed membership after tally (outcome.wrote writes) :=
  endorsed

theorem emits (endorsed : Endorsed membership after tally outcome) {actions : List Action}
    (locals : ∀ action ∈ actions, envelope action = none ∧ appliedEntry action = none) :
    Endorsed membership after tally (outcome.emits actions) := by
  rcases endorsed with ⟨grown, grows, secured, reliable, backed⟩
  refine ⟨grown, grows, secured, reliable, fun action emitted => ?_⟩
  rcases List.mem_append.mp emitted with early | late
  · exact .of_local (locals action early).1 (locals action early).2
  · exact backed action late

end Endorsed

/-! ## Leaders -/

section

variable (sane : Sane membership after) (tracks : Tracks membership after (view node))

include sane tracks

theorem replicateNow_endorsed
    (secured : Secured membership.protocol after tally) (leading : node.role = .leader)
    {entry : LogEntry} (last : entry.index = node.lastLogIndex)
    (holds : HoldsCommitted after tally node.id node.commitIndex)
    (matched : ∀ peer, node.matchIndex peer ≤ tally.acknowledged peer node.term)
    (probes : ∀ peer, node.nextIndex peer = 0 ∨
      Probe LogEntry.term after peer node.term (node.nextIndex peer - 1))
    {announcements : List Action}
    (locals : ∀ action ∈ announcements, envelope action = none ∧ appliedEntry action = none) :
    Endorsed membership after tally (replicateNow node entry announcements) := by
  have isTerm : after.term node.id = node.term := tracks.term
  have sameLog : after.leaderLog node.term = node.log := (tracks.leader leading).2
  have led : after.leader node.term ≠ none := by
    rw [show after.leader node.term = some node.id from (tracks.leader leading).1]
    exact Option.some_ne_none node.id
  have grows := tally.grows_acknowledge node.id node.term node.log.length
  have acknowledged : Secured membership.protocol after
      (tally.acknowledge node.id node.term node.log.length) := by
    have agree : AgreeThrough (after.log node.id) (after.leaderLog (after.term node.id))
        node.log.length := by
      rw [isTerm, sameLog, show after.log node.id = node.log from tracks.log]
      exact .refl _ le_rfl
    have own := secured.acknowledge sane.coherent (isTerm.symm ▸ led) agree
    rwa [isTerm] at own
  have reliable : Reliable after (tally.acknowledge node.id node.term node.log.length)
      (books (node.logSaved entry.index)) := by
    refine ⟨holds.grow grows, fun _ => ⟨led, ?_, fun peer => ?_, probes⟩⟩
    · exact tally.acknowledged_self node.id node.term node.log.length
    · exact (matched peer).trans (grows.acknowledged peer node.term)
  refine ⟨_, grows, acknowledged, ?_, fun action emitted => ?_⟩
  · rw [replicateNow, books_sendAppendEntries]
    exact reliable
  · rcases List.mem_append.mp emitted with early | late
    · exact .of_local (locals action early).1 (locals action early).2
    · have saved : Tracks membership after (view (node.logSaved entry.index)) := tracks
      have supplied := (node.logSaved entry.index).sendAppendEntries_supplies 0 late
      have durable : (node.logSaved entry.index).lastLogIndex ≤
          (node.logSaved entry.index).durableLogIndex := by
        simp only [Node.logSaved, last, le_max_right]
      exact supplies_backed sane saved durable leading reliable supplied

/-! ## Followers -/

/-- A Follower whose log is a part of the Leader's acknowledges all of it, and
commits what the Leader announced as far as its log reaches. -/
theorem confirmNow_endorsed (secured : Secured membership.protocol after tally)
    (above : node.logBaseIndex ≤ node.lastApplied) (following : node.role = .follower)
    {request : AppendEntries} (current : node.term = request.term)
    (led : after.leader request.term ≠ none)
    (leading : node.log <+: after.leaderLog request.term)
    (holds : HoldsCommitted after tally node.id node.commitIndex)
    (announced : Announced tally request.term request.leaderCommit) :
    Endorsed membership after tally (confirmNow node request) := by
  have whole : node.Whole := tracks.whole
  have isTerm : after.term node.id = request.term := tracks.term.trans current
  have sameLog : after.log node.id = node.log := tracks.log
  have isLed : after.leader (after.term node.id) ≠ none := isTerm.symm ▸ led
  have isLeading : after.log node.id <+: after.leaderLog (after.term node.id) := by
    rw [isTerm, sameLog]
    exact leading
  have grows := tally.grows_acknowledge node.id request.term node.log.length
  have acknowledged : Secured membership.protocol after
      (tally.acknowledge node.id request.term node.log.length) := by
    have own := secured.acknowledge sane.coherent isLed (AgreeThrough.of_isPrefix isLeading le_rfl)
    rwa [isTerm, sameLog] at own
  have committed : HoldsCommitted after tally node.id
      (followCommit node request.leaderCommit).commitIndex := by
    unfold followCommit
    split_ifs with further
    · refine secured.holds_announced sane.coherent isLed isLeading (isTerm.symm ▸ announced)
        (Nat.min_le_left _ _) ?_
      rw [sameLog, ← whole.lastIndex]
      exact Nat.min_le_right _ _
    · exact holds
  have frame : (followCommit node request.leaderCommit).role = node.role ∧
      view (followCommit node request.leaderCommit) = view node ∧
      (followCommit node request.leaderCommit).logBaseIndex ≤
        (followCommit node request.leaderCommit).lastApplied := by
    unfold followCommit
    split_ifs
    · exact ⟨rfl, rfl, above⟩
    · exact ⟨rfl, rfl, above⟩
  have sameID : (followCommit node request.leaderCommit).id = node.id :=
    congrArg View.id frame.2.1
  refine ⟨_, grows, acknowledged, ?_, fun action emitted => ?_⟩
  · simp only [confirmNow, books_applyThrough]
    refine ⟨?_, fun leads => ?_⟩
    · simp only [books, sameID]
      exact committed.grow grows
    · exact absurd (frame.1.symm.trans leads) (by simp [following])
  · rcases List.mem_append.mp emitted with applied | answered
    · refine applyThrough_backed (frame.2.1 ▸ tracks) frame.2.2 ?_ action applied
      rw [sameID]
      exact committed.grow grows
    · rw [List.mem_singleton.mp answered]
      refine .of_sent rfl ⟨fun _ => ?_, fun failure => by cases failure⟩
      rw [show node.term = request.term from current]
      refine ⟨led, ?_, isTerm.ge, fun _ => ?_⟩
      · rw [whole.lastIndex]
        exact tally.acknowledged_self node.id request.term node.log.length
      · rw [sameLog]
        exact leading

theorem rejection_backed {request : AppendEntries} (current : node.term = request.term)
    (genuine : Genuine membership after node.id (.appendEntries request))
    (unmatched : ¬node.matchesAt request.prevLogIndex request.prevLogTerm) :
    ∀ action ∈ node.rejectAppendEntries request request.prevLogIndex,
      Backed after tally action := by
  have whole : node.Whole := tracks.whole
  have sameLog : after.log node.id = node.log := tracks.log
  rcases genuine with ⟨leader, segment⟩
  have positiveTerms : ∀ entry ∈ node.log, 0 < entry.term := by
    intro entry inLog
    rcases List.mem_iff_getElem?.mp (sameLog.symm ▸ inLog) with ⟨offset, found⟩
    exact sane.coherent.leader_positive (sane.coherent.logMatched node.id offset entry found).1
  rw [segment.term] at unmatched
  have conflict := whole.conflictHint segment.within positiveTerms unmatched
  intro action emitted
  rw [List.mem_singleton.mp emitted]
  refine .of_sent rfl ⟨fun success => (by cases success), fun _ _ => ?_⟩
  rw [show node.term = request.term from current]
  refine ⟨by simp [leader], .inr ⟨tracks.term.trans current, ?_⟩⟩
  rw [sameLog]
  exact conflict

end

section Following

variable (sane : Sane membership ledger) (tracks : Tracks membership ledger (view node))
  (secured : Secured membership.protocol ledger tally) {request : AppendEntries}
  (current : node.term = request.term)
  (genuine : Genuine membership ledger node.id (.appendEntries request))
  (matched : node.matchesAt request.prevLogIndex request.prevLogTerm)
include sane tracks secured current genuine matched

theorem entriesToAppend_ne_none
    (holds : HoldsCommitted ledger tally node.id node.commitIndex) :
    node.entriesToAppend request.prevLogIndex request.entries ≠ none := by
  intro refused
  have intake := tracks.intake sane genuine matched
  rw [refused] at intake
  have led : ledger.leader request.term ≠ none := by simp [genuine.1]
  have ordered : ledger.term node.id ≤ request.term := (tracks.term.trans current).le
  have agree := secured.leader_keeps sane.coherent holds led ordered
  rw [show ledger.log node.id = node.log from tracks.log] at agree
  cases intake with
  | refused _ _ committed _ _ differ => exact differ (entryTerm_agree agree committed)

omit secured in
theorem isPrefix_of_covered
    (honest : Honest ledger tally node.id (.appendEntries request)) {truncateFrom : Nat}
    (nothing : node.entriesToAppend request.prevLogIndex request.entries =
      some ([], truncateFrom)) :
    node.log <+: ledger.leaderLog request.term := by
  have intake := tracks.intake sane genuine matched
  rw [nothing] at intake
  have sameLog : ledger.log node.id = node.log := tracks.log
  rcases honest with ⟨_, _, probe, empty⟩
  cases intake with
  | extended some_ => exact absurd rfl some_
  | replaced some_ => exact absurd rfl some_
  | covered agree =>
      rw [← sameLog] at agree ⊢
      refine sane.coherent.isPrefix_of_probe (tracks.term.trans current) agree probe
        (Nat.le_add_right _ _) fun reached => empty ?_
      exact List.length_eq_zero_iff.mp (by omega)

end Following

theorem view_followNow (node : Node) (term : Nat) (leader : NodeID) :
    view (followNow node term leader) = view (node.acceptLeader term leader) := by
  unfold followNow
  split_ifs <;> rfl

theorem view_confirmNow (node : Node) (request : AppendEntries) :
    view (confirmNow node request).core = view node := by
  simp only [confirmNow, view_applyThrough]
  unfold followCommit
  split_ifs <;> rfl

theorem followed_endorsed (sane : Sane membership ledger)
    (tracks : Tracks membership ledger (view node))
    (secured : Secured membership.protocol ledger tally)
    (reliable : Reliable ledger tally (books node))
    (above : node.logBaseIndex ≤ node.lastApplied) {request : AppendEntries}
    (notOlder : node.term ≤ request.term)
    (genuine : Genuine membership ledger node.id (.appendEntries request))
    (honest : Honest ledger tally node.id (.appendEntries request))
    (moved : Moved membership ledger (view node) after
      (view (takeEntriesNow (followNow node request.term request.sender) request).core)) :
    Endorsed membership after tally
      (takeEntriesNow (followNow node request.term request.sender) request) := by
  rcases acceptLeader_moved tracks sane request.term request.sender with
    ⟨middle, accepted, unwritten⟩
  rw [← view_followNow] at accepted
  have holds := holdings_followNow node request.term request.sender
  have role : (followNow node request.term request.sender).role = .follower :=
    (congrArg View.role (view_followNow node request.term request.sender)).trans
      (Node.acceptLeader_role request.term request.sender)
  have current : (followNow node request.term request.sender).term = request.term :=
    (congrArg View.term (view_followNow node request.term request.sender)).trans
      (Node.acceptLeader_term notOlder request.sender)
  generalize followNow node request.term request.sender = following at *
  have sameID : following.id = node.id := congrArg Holdings.id holds
  have sameCommit : following.commitIndex = node.commitIndex := congrArg Holdings.commitIndex holds
  have aboveFollowing : following.logBaseIndex ≤ following.lastApplied := by
    rw [show following.logBaseIndex = node.logBaseIndex from congrArg Holdings.logBaseIndex holds,
      show following.lastApplied = node.lastApplied from congrArg Holdings.lastApplied holds]
    exact above
  -- What the ledger says when the Term is reached, and when the step ends.
  have genuineMiddle : Genuine membership middle following.id (.appendEntries request) :=
    sameID ▸ genuine.mono (accepted.advance sane)
  have honestMiddle : Honest middle tally following.id (.appendEntries request) :=
    sameID ▸ honest.mono accepted.moves sane.coherent (.refl tally)
  have securedMiddle := Protocol.Moves.secured accepted.moves sane.coherent secured
  have holdsMiddle : HoldsCommitted middle tally following.id following.commitIndex := by
    rw [sameID, sameCommit]
    exact Protocol.Moves.holdsCommitted accepted.moves sane.coherent secured reliable.holds
  have genuineAfter : Genuine membership after following.id (.appendEntries request) :=
    sameID ▸ genuine.mono (moved.advance sane)
  have led : after.leader request.term ≠ none := by simp [genuineAfter.1]
  have securedAfter := Protocol.Moves.secured moved.moves sane.coherent secured
  have holdsAfter : HoldsCommitted after tally node.id node.commitIndex :=
    Protocol.Moves.holdsCommitted moved.moves sane.coherent secured reliable.holds
  have leaderLog : ∀ {final : View}, Moved membership ledger (view node) after final →
      final.role = .follower → middle.leaderLog request.term = after.leaderLog request.term := by
    intro final movedFinal isFollower
    rcases movedFinal.written request.term with same | ⟨leads, _⟩
    · exact (unwritten request.term).2.trans same.2.symm
    · cases isFollower.symm.trans leads
  unfold takeEntriesNow at moved ⊢
  by_cases matched : following.matchesAt request.prevLogIndex request.prevLogTerm
  · rw [if_neg (not_not.mpr matched)] at moved ⊢
    cases taken : following.entriesToAppend request.prevLogIndex request.entries with
    | none =>
        exact absurd taken (entriesToAppend_ne_none accepted.sane accepted.tracks securedMiddle
          current genuineMiddle matched holdsMiddle)
    | some suffix =>
        rcases suffix with ⟨newEntries, truncateFrom⟩
        simp only [taken] at moved ⊢
        by_cases some_ : newEntries ≠ []
        · rw [if_pos some_] at moved ⊢
          have intake := accepted.tracks.intake accepted.sane genuineMiddle matched
          rw [taken] at intake
          have ledMiddle : middle.leader request.term ≠ none := by simp [genuineMiddle.1]
          have whole : following.Whole := accepted.tracks.whole
          have replaced : ∃ durable, stored following newEntries truncateFrom =
              { following.setLog ((middle.leaderLog request.term).take
                  (request.prevLogIndex + request.entries.length)) with
                nextLogPersistence := following.nextLogPersistence + 1
                durableLogIndex := durable } := by
            rw [stored, whole.replaceSuffix (accepted.sane.indexed ledMiddle) some_ intake]
            exact ⟨_, rfl⟩
          rcases replaced with ⟨durable, isStored⟩
          generalize stored following newEntries truncateFrom = kept at *
          simp only [Outcome.wrote, view_confirmNow] at moved
          have leading : kept.log <+: after.leaderLog request.term := by
            rw [← leaderLog moved (by rw [isStored]; exact role), isStored]
            exact List.take_prefix _ _
          have keptHolds : HoldsCommitted after tally kept.id kept.commitIndex := by
            rw [show kept.id = node.id by rw [isStored]; exact sameID,
              show kept.commitIndex = node.commitIndex by rw [isStored]; exact sameCommit]
            exact holdsAfter
          refine (confirmNow_endorsed moved.sane moved.tracks securedAfter ?_ ?_ ?_ led leading
            keptHolds honest.2.1).wrote _
          · rw [isStored]
            exact aboveFollowing
          · rw [isStored]
            exact role
          · rw [isStored]
            exact current
        · rw [if_neg some_] at moved ⊢
          rw [not_not.mp some_] at taken
          rw [view_confirmNow] at moved
          have leading := isPrefix_of_covered accepted.sane accepted.tracks current genuineMiddle
            matched honestMiddle taken
          rw [leaderLog moved role] at leading
          refine confirmNow_endorsed moved.sane moved.tracks securedAfter
            aboveFollowing role current
            led leading ?_ honest.2.1
          rw [sameID, sameCommit]
          exact holdsAfter
  · rw [if_pos matched] at moved ⊢
    refine .still securedAfter ⟨?_, fun leads => ?_⟩ ?_
    · simp only [books, sameID, sameCommit]
      exact holdsAfter
    · cases role.symm.trans leads
    · exact rejection_backed moved.sane moved.tracks current genuineAfter matched

/-! ## Leaders that are answered -/

section Answered

variable (sane : Sane membership after) (tracks : Tracks membership after (view node))
  (secured : Secured membership.protocol after tally)
  (durable : node.lastLogIndex ≤ node.durableLogIndex) (leading : node.role = .leader)
  (reliable : Reliable after tally (books node))
include sane tracks secured durable leading reliable

theorem supplyNow_endorsed (pending : PendingAppend) (response : AppendEntriesResponse) :
    Endorsed membership after tally (supplyNow node pending response) := by
  have supplied : ∀ action ∈ (if node.needsSupply pending response then
      node.sendAppendEntriesTo response.sender (node.pendingReadFor response.sender)
      else (node, [])).2, Backed after tally action := by
    intro action emitted
    split_ifs at emitted
    · exact supplies_backed sane tracks durable leading reliable
        (node.sendAppendEntriesTo_supplies _ _ emitted)
    · cases emitted
  refine .still secured ?_ fun action emitted => ?_
  · simp only [supplyNow, books_acknowledgeRead]
    split_ifs
    · rw [books_sendAppendEntriesTo]
      exact reliable
    · exact reliable
  · rcases List.mem_append.mp emitted with early | late
    · exact supplied action early
    · exact .of_confirmed (Node.acknowledgeRead_confirms _ response late)

theorem commitNow_endorsed (above : node.logBaseIndex ≤ node.lastApplied)
    (response : AppendEntriesResponse) :
    Endorsed membership after tally (commitNow node response) := by
  have sameView := (view_acknowledgeRead (node.sendAppendEntries 0).1 response).trans
    (view_sendAppendEntries node 0)
  have sameBooks := (books_acknowledgeRead (node.sendAppendEntries 0).1 response).trans
    (books_sendAppendEntries node 0)
  have stillAbove : ((node.sendAppendEntries 0).1.acknowledgeRead response).1.logBaseIndex ≤
      ((node.sendAppendEntries 0).1.acknowledgeRead response).1.lastApplied := by
    rcases node.sendAppendEntries_frame 0 with ⟨_, _, _, sentFrame⟩
    rcases (node.sendAppendEntries 0).1.acknowledgeRead_frame response with ⟨_, ackFrame⟩
    rw [ackFrame, sentFrame]
    exact above
  have confirms := fun action =>
    @Node.acknowledgeRead_confirms (node.sendAppendEntries 0).1 response action
  refine .still secured ?_ fun action emitted => ?_
  · simp only [commitNow, books_applyThrough]
    exact sameBooks ▸ reliable
  · simp only [commitNow, List.mem_append] at emitted
    rcases emitted with confirmed | applied | sent
    · exact .of_confirmed (confirms action confirmed)
    · generalize ((node.sendAppendEntries 0).1.acknowledgeRead response).1 = acknowledged at *
      have saved : Tracks membership after (view acknowledged.commitSaved) := sameView ▸ tracks
      have holds : HoldsCommitted after tally acknowledged.id acknowledged.commitIndex := by
        rw [show acknowledged.id = node.id from congrArg Books.id sameBooks,
          show acknowledged.commitIndex = node.commitIndex from
            congrArg Books.commitIndex sameBooks]
        exact reliable.holds
      rw [← show acknowledged.commitIndex = node.commitIndex from
        congrArg Books.commitIndex sameBooks] at applied
      exact applyThrough_backed saved stillAbove holds action applied
    · exact supplies_backed sane tracks durable leading reliable
        (node.sendAppendEntries_supplies 0 sent)

end Answered

/-! ## Commitments -/

theorem commitment_level {next : Node} (level : next.commitIndex = node.commitIndex) :
    commitment node next = none := by
  rw [commitment, if_neg]
  rintro ⟨_, further⟩
  omega

theorem commitment_resting {next : Node} (resting : next.role ≠ .leader) :
    commitment node next = none := by
  rw [commitment, if_neg]
  exact fun advanced => resting advanced.1

theorem takeEntriesNow_role (node : Node) (request : AppendEntries) :
    (takeEntriesNow node request).core.role = node.role := by
  have confirmed : ∀ kept : Node, (confirmNow kept request).core.role = kept.role := fun kept =>
    congrArg View.role (view_confirmNow kept request)
  unfold takeEntriesNow
  split_ifs
  · cases node.entriesToAppend request.prevLogIndex request.entries with
    | none => rfl
    | some suffix =>
        simp only
        split_ifs
        · rcases node.replaceSuffix_frame suffix.1 suffix.2 with ⟨_, _, _, _, frame⟩
          rw [Outcome.wrote, confirmed, stored, frame]
          rfl
        · exact confirmed node
  · rfl

theorem commitIndex_sendAppendEntries (node : Node) (readID : ReadID) :
    (node.sendAppendEntries readID).1.commitIndex = node.commitIndex :=
  congrArg Books.commitIndex (books_sendAppendEntries node readID)

theorem books_supplyNow (node : Node) (pending : PendingAppend)
    (response : AppendEntriesResponse) :
    books (supplyNow node pending response).core = books node := by
  simp only [supplyNow, books_acknowledgeRead]
  split_ifs
  · exact books_sendAppendEntriesTo _ _ _
  · rfl

theorem view_supplyNow (node : Node) (pending : PendingAppend)
    (response : AppendEntriesResponse) :
    view (supplyNow node pending response).core = view node := by
  simp only [supplyNow, view_acknowledgeRead]
  split_ifs
  · exact view_sendAppendEntriesTo _ _ _
  · rfl

theorem view_commitNow (node : Node) (response : AppendEntriesResponse) :
    view (commitNow node response).core = view node := by
  simp only [commitNow, view_applyThrough]
  exact (view_acknowledgeRead (node.sendAppendEntries 0).1 response).trans
    (view_sendAppendEntries node 0)

theorem books_commitNow (node : Node) (response : AppendEntriesResponse) :
    books (commitNow node response).core = books node := by
  simp only [commitNow, books_applyThrough]
  exact (books_acknowledgeRead (node.sendAppendEntries 0).1 response).trans
    (books_sendAppendEntries node 0)

theorem commitment_cases {event : Event} (turn : Turn node event outcome) :
    commitment node outcome.core = none ∨
      ∃ response advanced, event = .appendEntriesResponse response ∧ node.role = .leader ∧
        response.term = node.term ∧
        ¬Node.outdated (node.appendInFlight response.sender) response ∧
        (node.recordResponse response).advanceLeaderCommit = some advanced ∧
        outcome = commitNow advanced response := by
  cases turn with
  | kept calm => exact .inl (commitment_level (congrArg Holdings.commitIndex calm.holds))
  | saved calm => exact .inl (commitment_level (congrArg Holdings.commitIndex calm.holds))
  | heartbeat => exact .inl (commitment_level (commitIndex_sendAppendEntries _ 0))
  | registered readID => exact .inl (commitment_level (commitIndex_sendAppendEntries _ readID))
  | led =>
      left
      apply commitment_level
      simp only [leadNow, replicateNow, commitIndex_sendAppendEntries]
      rw [Node.appendEntries_single]
      rfl
  | proposed =>
      left
      apply commitment_level
      simp only [proposeNow, replicateNow, commitIndex_sendAppendEntries]
      rw [Node.appendEntries_single]
      rfl
  | recovered =>
      exact .inl (commitment_level (congrArg Books.commitIndex (books_applyThrough node _)))
  | stale => exact .inl (commitment_level rfl)
  | @followed request notOlder =>
      left
      apply commitment_resting
      have role := takeEntriesNow_role (followNow node request.term request.sender) request
      have following := congrArg View.role (view_followNow node request.term request.sender)
      have follower := role.trans (following.trans (Node.acceptLeader_role _ _))
      simp [Outcome.wrote, Outcome.emits, follower]
  | @committed response advanced leading current timely advances =>
      exact .inr ⟨response, advanced, rfl, leading, current, timely, advances, rfl⟩
  | @answered response _ _ _ _ =>
      left
      apply commitment_level
      rcases node.recordResponse_frame response with ⟨_, _, _, _, frame⟩
      have same := congrArg Books.commitIndex (books_supplyNow (node.recordResponse response)
        (node.appendInFlight response.sender) response)
      rw [frame] at same
      rw [frame]
      exact same

/-! ## All turns -/

structure Trusted (membership : Membership) (ledger : Ledger NodeID LogEntry)
    (tally : Tally NodeID) (node : Node) (event : Event) : Prop where
  sane : Sane membership ledger
  tracks : Tracks membership ledger (view node)
  durable : node.Durable
  secured : Secured membership.protocol ledger tally
  reliable : Reliable ledger tally (books node)
  genuine : Genuine membership ledger node.id event
  honest : Honest ledger tally node.id event
  guided : misled node event = false

namespace Trusted

variable {event : Event}

theorem grow (trusted : Trusted membership ledger tally node event) {grown : Tally NodeID}
    (grows : tally.Grows grown) (secured : Secured membership.protocol ledger grown) :
    Trusted membership ledger grown node event :=
  { trusted with
    secured := secured
    reliable := by
      have still : membership.protocol.Moves node.id ledger ledger := .refl
      exact trusted.reliable.mono still trusted.sane.coherent trusted.secured grows
    honest := by
      have still : membership.protocol.Moves node.id ledger ledger := .refl
      exact trusted.honest.mono still trusted.sane.coherent grows }

theorem recorded {response : AppendEntriesResponse}
    (trusted : Trusted membership ledger tally node (.appendEntriesResponse response))
    (leading : node.role = .leader) (current : response.term = node.term)
    (timely : ¬Node.outdated (node.appendInFlight response.sender) response) :
    Reliable ledger tally (books (node.recordResponse response)) := by
  refine recordResponse_reliable trusted.sane trusted.tracks leading trusted.reliable current
    trusted.honest fun failure hintless => ?_
  have guided := trusted.guided
  simp only [misled, decide_eq_false_iff_not] at guided
  exact guided ⟨leading, current, failure, hintless, timely⟩

section

variable (trusted : Trusted membership ledger tally node event) (turn : Turn node event outcome)

include trusted turn

/-- What a Leader commits is acknowledged by a quorum, before the step does
anything else. -/
theorem commitment_upheld :
    ∃ grown, tally.Grows grown ∧ Secured membership.protocol ledger grown ∧
      ∀ made ∈ commitment node outcome.core, Upheld ledger grown made := by
  rcases commitment_cases turn with nothing |
    ⟨response, advanced, rfl, leading, current, timely, advances, rfl⟩
  · refine ⟨tally, .refl tally, trusted.secured, fun made isMade => ?_⟩
    rw [nothing] at isMade
    cases isMade
  · have reliable := trusted.recorded leading current timely
    have sameView := view_recordResponse node response
    have isLeader : (node.recordResponse response).role = .leader :=
      (congrArg View.role sameView).trans leading
    have tracks : Tracks membership ledger (view (node.recordResponse response)) :=
      sameView ▸ trusted.tracks
    rcases advanceLeaderCommit_secured tracks isLeader trusted.secured (reliable.leads isLeader)
      advances with ⟨secured, _, within⟩
    refine ⟨_, tally.grows_commit _ _, secured, fun made isMade => ?_⟩
    have sameBooks := books_commitNow advanced response
    rcases Node.advanceLeaderCommit_frame advances with ⟨index, rfl⟩
    simp only [commitment, Option.mem_def, Option.ite_none_right_eq_some,
      Option.some.injEq] at isMade
    rcases isMade with ⟨_, rfl⟩
    have sameTerm := congrArg Books.term sameBooks
    have sameLog := congrArg Books.log sameBooks
    have sameCommit := congrArg Books.commitIndex sameBooks
    simp only [books] at sameTerm sameLog sameCommit
    rw [sameTerm, sameLog, sameCommit]
    refine ⟨(reliable.leads isLeader).led, ?_, ?_⟩
    · rw [show ledger.leaderLog (node.recordResponse response).term =
        (node.recordResponse response).log from (tracks.leader isLeader).2]
      exact List.take_prefix _ _
    · simp only [Tally.commit, Function.update_self, List.length_take]
      exact (Nat.min_le_left _ _).trans (le_max_right _ _)

theorem endorsed (upheld : ∀ made ∈ commitment node outcome.core, Upheld ledger tally made)
    (moved : Moved membership ledger (view node) after (view outcome.core)) :
    Endorsed membership after tally outcome := by
  have coherent := trusted.sane.coherent
  have secured := Protocol.Moves.secured moved.moves coherent trusted.secured
  have reliable := trusted.reliable.mono moved.moves coherent trusted.secured (.refl tally)
  have durable := trusted.durable
  cases turn with
  | kept calm _ _ _ allQuiet =>
      exact .still secured (reliable.calm calm) fun action emitted =>
        .of_quiet (allQuiet action emitted)
  | saved calm allQuiet =>
      have reached := reliable.calm calm
      exact .still secured reached fun action emitted => .of_quiet (allQuiet action emitted)
  | heartbeat leading =>
      rw [view_sendAppendEntries] at moved
      refine .still secured ?_ fun action emitted => ?_
      · rw [books_sendAppendEntries]
        exact reliable
      · rcases List.mem_cons.mp emitted with rfl | sent
        · exact .of_local rfl rfl
        · exact supplies_backed moved.sane moved.tracks durable.log_le leading reliable
            (Node.sendAppendEntries_supplies _ 0 sent)
  | registered readID leading ready =>
      rw [view_sendAppendEntries] at moved
      refine .still secured ?_ fun action sent => ?_
      · rw [books_sendAppendEntries]
        exact reliable
      · exact supplies_backed moved.sane moved.tracks durable.log_le leading reliable
          (Node.sendAppendEntries_supplies _ readID sent)
  | @led response candidate current granted enough =>
      simp only [leadNow, replicateNow, view_sendAppendEntries] at moved
      rw [Node.appendEntries_single] at moved
      rw [leadNow, Node.appendEntries_single]
      have tracks := moved.tracks
      have led : after.leader node.term = some node.id := (tracks.leader rfl).1
      have lastIndex : (after.leaderLog node.term).length = node.lastLogIndex + 1 :=
        (congrArg List.length (tracks.leader rfl).2).trans tracks.whole.lastIndex.symm
      have last : TermAt LogEntry.term (after.leaderLog node.term) (node.lastLogIndex + 1)
          node.term := by
        rw [← lastIndex]
        exact moved.sane.coherent.leaderLog_last (by simp [led])
      apply replicateNow_endorsed moved.sane
      · exact tracks
      · exact secured
      · rfl
      · rfl
      · exact reliable.holds
      · exact fun peer => Nat.zero_le _
      · intro peer
        simp only [Node.startReplication]
        split_ifs
        · exact .inr (.inl last)
        · exact .inl rfl
      · simp [envelope, appliedEntry]
  | @proposed _ proposalID entry leading proposes =>
      simp only [proposeNow, replicateNow, view_sendAppendEntries] at moved
      rw [Node.appendEntries_single] at moved
      rw [proposeNow, Node.appendEntries_single]
      have leads := reliable.leads leading
      apply replicateNow_endorsed moved.sane
      · exact moved.tracks
      · exact secured
      · exact leading
      · rfl
      · exact reliable.holds
      · exact leads.matched
      · exact leads.probes
      · simp [envelope, appliedEntry]
  | recovered =>
      rw [view_applyThrough] at moved
      refine .still secured ?_ ?_
      · rw [books_applyThrough]
        exact reliable
      · exact applyThrough_backed moved.tracks durable.above reliable.holds
  | stale older =>
      refine .still secured reliable fun action emitted => ?_
      rw [List.mem_singleton.mp emitted]
      exact .of_sent rfl ⟨fun success => (by cases success), fun _ hinted => absurd rfl hinted⟩
  | @followed request notOlder =>
      have taken := followed_endorsed trusted.sane trusted.tracks trusted.secured trusted.reliable
        durable.above notOlder trusted.genuine trusted.honest moved
      refine (taken.emits ?_).wrote _
      simp [envelope, appliedEntry]
  | @committed response advanced leading current timely advances =>
      have recorded := (trusted.recorded leading current timely).mono moved.moves coherent
        trusted.secured (.refl tally)
      have leader : (node.recordResponse response).role = .leader :=
        (congrArg View.role (view_recordResponse node response)).trans leading
      have recordedTracks : Tracks membership ledger (view (node.recordResponse response)) :=
        (view_recordResponse node response).symm ▸ trusted.tracks
      rcases advanceLeaderCommit_secured recordedTracks leader trusted.secured
        ((trusted.recorded leading current timely).leads leader) advances with ⟨_, further, within⟩
      have sameBooks := books_commitNow advanced response
      rw [view_commitNow] at moved
      rcases Node.advanceLeaderCommit_frame advances with ⟨index, rfl⟩
      rcases node.recordResponse_frame response with ⟨_, _, _, _, frame⟩
      have isMade : (⟨node.term, node.log.take index⟩ : Commitment) ∈ commitment node
          (commitNow { node.recordResponse response with commitIndex := index } response).core := by
        have sameRole := congrArg Books.role sameBooks
        have sameTerm := congrArg Books.term sameBooks
        have sameLog := congrArg Books.log sameBooks
        have sameCommit := congrArg Books.commitIndex sameBooks
        simp only [books] at sameRole sameTerm sameLog sameCommit
        simp only [commitment, sameRole, sameTerm, sameLog, sameCommit]
        rw [frame] at further ⊢
        simp [leading, further]
      have made := (upheld _ isMade).committed
      rw [frame] at within
      simp only [List.length_take, Nat.min_eq_left within] at made
      have sameID : (node.recordResponse response).id = node.id :=
        congrArg View.id (view_recordResponse node response)
      have sameTerm : (node.recordResponse response).term = node.term :=
        congrArg View.term (view_recordResponse node response)
      -- The log of a Leader is its Term's, so what it committed it also holds.
      have holds : HoldsCommitted after tally (node.recordResponse response).id index := by
        have isTerm := moved.tracks.term
        have isLog := moved.tracks.log
        have isLeaderLog := (moved.tracks.leader leader).2
        simp only [view] at isTerm isLog isLeaderLog
        refine ⟨node.term, ?_, made, ?_⟩
        · rw [isTerm, sameTerm]
        · rw [isLog, ← sameTerm, isLeaderLog]
          refine .refl _ ?_
          rw [frame]
          exact within
      have advancedReliable : Reliable after tally
          (books { node.recordResponse response with commitIndex := index }) :=
        ⟨holds, fun _ => ⟨(recorded.leads leader).led, (recorded.leads leader).own,
          (recorded.leads leader).matched, (recorded.leads leader).probes⟩⟩
      refine commitNow_endorsed moved.sane moved.tracks secured ?_ leader
        advancedReliable ?_ response
      · rw [frame]
        exact durable.log_le
      · rw [frame]
        exact durable.above
  | @answered response leading current timely advances =>
      have recorded := (trusted.recorded leading current timely).mono moved.moves coherent
        trusted.secured (.refl tally)
      rw [view_supplyNow] at moved
      rcases node.recordResponse_frame response with ⟨_, _, _, _, frame⟩
      refine supplyNow_endorsed moved.sane moved.tracks secured ?_ ?_ recorded _ response
      · rw [frame]
        exact durable.log_le
      · rw [frame]
        exact leading

end

end Trusted

end Ternion.Cluster
