import Ternion.Runtime.Exchange
import Ternion.Runtime.Turn

/-! # Exchanges close a gap

One request and its reply are a round of the abstract repair. The rank of a
repairable gap bounds how many exchanges it takes, and no number of them
repairs a Follower whose gap is stuck.
-/

namespace Ternion.RaftRuntime

open Raft Consensus

/-! ## The Follower -/

theorem followNow_id (node : Node) (term : Nat) (leader : NodeID) :
    (followNow node term leader).id = node.id :=
  congrArg Holdings.id (holdings_followNow node term leader)

theorem followNow_term {node : Node} {term : Nat} (notOlder : node.term ≤ term) (leader : NodeID) :
    (followNow node term leader).term = term := by
  have reached := Node.acceptLeader_term notOlder leader
  rw [followNow]
  split_ifs
  · exact reached
  · exact reached

theorem followNow_log {node : Node} {history : List LogEntry} (term : Nat) (leader : NodeID)
    (compacted : node.Compacted history) :
    (followNow node term leader).Compacted history ∧
      (followNow node term leader).logBaseIndex = node.logBaseIndex ∧
      (followNow node term leader).commitIndex = node.commitIndex := by
  rcases node.acceptLeader_frame term leader with ⟨_, _, _, _, _, _, _, _, _, _, frame⟩
  rw [followNow, frame]
  split_ifs
  · exact ⟨compacted, rfl, rfl⟩
  · exact ⟨compacted, rfl, rfl⟩

section Follower

variable {node : Node} {request : AppendEntries} {history leaderHistory : List LogEntry}

theorem toLeader_reports {actions : List Action} (leader : NodeID)
    (reports : ∀ action ∈ actions, Node.Reports action) :
    actions.findSome? (toLeader leader) = none := by
  apply List.findSome?_eq_none_iff.mpr
  intro action emitted
  cases reports action emitted <;> rfl

theorem appendEntriesNow_taken (notOlder : node.term ≤ request.term) (leader : NodeID) :
    (appendEntriesNow node request).core =
        (takeEntriesNow (followNow node request.term request.sender) request).core ∧
      (appendEntriesNow node request).emitted.findSome? (toLeader leader) =
        (takeEntriesNow (followNow node request.term request.sender) request).emitted.findSome?
          (toLeader leader) := by
  rw [appendEntriesNow, if_neg (Nat.not_lt.mpr notOlder)]
  exact ⟨rfl, rfl⟩

/-- The answer of a Follower that took a request, and how far its log reaches. -/
def accepted (node : Node) (request : AppendEntries) (lastIndex : Nat) : AppendEntriesResponse where
  sender := node.id
  term := node.term
  requestID := request.requestID
  success := true
  matchIndex := lastIndex
  conflictTerm := 0
  conflictIndex := 0
  readID := request.readID

def refused (node : Node) (request : AppendEntries) (position : Nat) : AppendEntriesResponse where
  sender := node.id
  term := node.term
  requestID := request.requestID
  success := false
  matchIndex := node.lastLogIndex
  conflictTerm := (node.conflictHint position).1
  conflictIndex := (node.conflictHint position).2
  readID := request.readID

theorem followCommit_frame (node : Node) (leaderCommit : Nat) :
    ∃ durable persistence, followCommit node leaderCommit = { node with
      commitIndex := max node.commitIndex (min leaderCommit node.lastLogIndex)
      durableCommitIndex := durable
      nextCommitPersistence := persistence } := by
  rw [followCommit]
  split_ifs with later
  · rw [Nat.max_eq_right later.le]
    exact ⟨_, _, rfl⟩
  · rw [Nat.max_eq_left (Nat.le_of_not_lt later)]
    exact ⟨_, _, rfl⟩

theorem confirmNow_answers (node : Node) (request : AppendEntries) :
    (confirmNow node request).emitted.findSome? (toLeader request.sender) =
        some (.appendEntriesResponse (accepted node request node.lastLogIndex)) ∧
      ∃ applied ready reads durable persistence, (confirmNow node request).core = { node with
        commitIndex := max node.commitIndex (min request.leaderCommit node.lastLogIndex)
        lastApplied := applied
        readReady := ready
        pendingReads := reads
        durableCommitIndex := durable
        nextCommitPersistence := persistence } := by
  have silent := toLeader_reports request.sender fun _ =>
    (followCommit node request.leaderCommit).applyThrough_reports
      (followCommit node request.leaderCommit).commitIndex
  rcases (followCommit node request.leaderCommit).applyThrough_frame
    (followCommit node request.leaderCommit).commitIndex with ⟨_, _, _, frame⟩
  constructor
  · rw [confirmNow, List.findSome?_append, silent, Option.none_or]
    simp [confirmation, Node.appendEntriesResponse, toLeader, accepted]
  · rcases followCommit_frame node request.leaderCommit with ⟨_, _, commitFrame⟩
    simp only [confirmNow]
    rw [frame, commitFrame]
    exact ⟨_, _, _, _, _, rfl⟩

theorem rejectAppendEntries_answers (node : Node) (request : AppendEntries) (position : Nat) :
    (node.rejectAppendEntries request position).findSome? (toLeader request.sender) =
      some (.appendEntriesResponse (refused node request position)) := by
  simp [Node.rejectAppendEntries, Node.appendEntriesResponse, toLeader, refused]

/-- Whatever the Follower does with a request, it answers it. -/
theorem takeEntriesNow_answers (node : Node) (request : AppendEntries) :
    ∃ response, (takeEntriesNow node request).emitted.findSome? (toLeader request.sender) =
        some (.appendEntriesResponse response) ∧
      response.sender = node.id ∧ response.term = node.term ∧
      response.requestID = request.requestID ∧ (takeEntriesNow node request).core.id = node.id ∧
      (takeEntriesNow node request).core.term = node.term := by
  rw [takeEntriesNow]
  split_ifs
  · split
    · exact ⟨_, rejectAppendEntries_answers _ _ _, rfl, rfl, rfl, rfl, rfl⟩
    · rename_i newEntries truncateFrom _
      split_ifs
      · rcases node.replaceSuffix_frame newEntries truncateFrom with ⟨_, _, _, _, replaceFrame⟩
        rcases confirmNow_answers (stored node newEntries truncateFrom) request with
          ⟨answer, _, _, _, _, _, frame⟩
        simp only [Outcome.wrote, frame]
        refine ⟨_, answer, ?_⟩
        simp only [accepted, stored, Node.logSaved, replaceFrame, and_self]
      · rcases confirmNow_answers node request with ⟨answer, _, _, _, _, _, frame⟩
        rw [frame]
        exact ⟨_, answer, rfl, rfl, rfl, rfl, rfl⟩
  · exact ⟨_, rejectAppendEntries_answers _ _ _, rfl, rfl, rfl, rfl, rfl⟩

/-- What a request leaves of a Follower whose history is as given. -/
structure Took (node : Node) (request : AppendEntries) (taken : List LogEntry) : Prop where
  log : (takeEntriesNow node request).core.Compacted taken
  base : (takeEntriesNow node request).core.logBaseIndex = node.logBaseIndex
  commit : (takeEntriesNow node request).core.commitIndex =
    max node.commitIndex (min request.leaderCommit taken.length)
  answers : (takeEntriesNow node request).emitted.findSome? (toLeader request.sender) =
    some (.appendEntriesResponse (accepted node request taken.length))

theorem Took.of_confirmNow {taken : List LogEntry} {holder : Node} (log : holder.Compacted taken)
    (core : (takeEntriesNow node request).core = (confirmNow holder request).core)
    (emitted : (takeEntriesNow node request).emitted = (confirmNow holder request).emitted)
    (same : holder.logBaseIndex = node.logBaseIndex ∧ holder.commitIndex = node.commitIndex ∧
      holder.id = node.id ∧ holder.term = node.term) : Took node request taken := by
  rcases confirmNow_answers holder request with ⟨answer, _, _, _, _, _, frame⟩
  rcases same with ⟨sameBase, sameCommit, sameID, sameTerm⟩
  constructor
  · rw [core, frame]
    exact log
  · rw [core, frame]
    exact sameBase
  · rw [core, frame, ← log.lastIndex, ← sameCommit]
  · rw [emitted, answer, accepted, accepted, sameID, sameTerm, log.lastIndex]

structure Kept (node : Node) (request : AppendEntries) (position : Nat) : Prop where
  core : (takeEntriesNow node request).core = node
  answers : (takeEntriesNow node request).emitted.findSome? (toLeader request.sender) =
    some (.appendEntriesResponse (refused node request position))

theorem takeEntriesNow_refused
    (unmatched : ¬node.matchesAt request.prevLogIndex request.prevLogTerm) :
    Kept node request request.prevLogIndex := by
  constructor <;> rw [takeEntriesNow, if_pos unmatched]
  exact rejectAppendEntries_answers _ _ _

theorem takeEntriesNow_objects
    (matched : node.matchesAt request.prevLogIndex request.prevLogTerm)
    (objects : node.entriesToAppend request.prevLogIndex request.entries = none) :
    Kept node request (request.prevLogIndex + 1) := by
  constructor <;> rw [takeEntriesNow, if_neg (not_not.mpr matched), objects]
  exact rejectAppendEntries_answers _ _ _

/-- A request that probes the common part brings nothing new, or the Follower
copies the history of the Leader to the end of the batch, or it has committed
an entry that the batch would replace. -/
theorem takeEntriesNow_matched (compacted : node.Compacted history)
    (leaderIndexed : Indexed leaderHistory) (logsMatch : Node.LogsMatch history leaderHistory)
    (agreed : node.logBaseIndex ≤ commonLength history leaderHistory)
    (held : node.commitIndex ≤ history.length)
    (readable : node.logBaseIndex < max (request.prevLogIndex + 1) 2)
    (probed : request.prevLogIndex ≤ commonLength history leaderHistory)
    (prevTerm : request.prevLogTerm = entryTerm leaderHistory request.prevLogIndex)
    (leading : request.entries <+: leaderHistory.drop request.prevLogIndex) :
    request.prevLogIndex + request.entries.length ≤ commonLength history leaderHistory ∧
        Took node request history ∨
      commonLength history leaderHistory < request.prevLogIndex + request.entries.length ∧
        (node.commitIndex ≤ commonLength history leaderHistory ∧
          Took node request
            (leaderHistory.take (request.prevLogIndex + request.entries.length)) ∨
        commonLength history leaderHistory < node.commitIndex ∧
          Kept node request (request.prevLogIndex + 1)) := by
  have agree := agreeThrough_iff.mpr probed
  have intake := compacted.entriesToAppend leaderIndexed logsMatch (by omega) agree leading
  have matched := prevTerm ▸ compacted.matchesAt (by omega) agree
  have differ_lt : ∀ index, entryTerm history index ≠ entryTerm leaderHistory index →
      commonLength history leaderHistory < index := by
    intro index differ
    by_contra within
    exact differ (entryTerm_agree (agreeThrough_iff.mpr (Nat.le_of_not_lt within)) le_rfl)
  generalize isTaken : node.entriesToAppend request.prevLogIndex request.entries = result at intake
  cases result with
  | none =>
      cases intake with
      | refused _ _ early reaches _ differ =>
          have beyond := differ_lt _ differ
          exact .inr ⟨beyond.trans_le reaches, .inr ⟨beyond.trans_le early,
            takeEntriesNow_objects matched isTaken⟩⟩
  | some pair =>
      rcases pair with ⟨newEntries, truncateFrom⟩
      by_cases brings : newEntries = []
      · have covered : AgreeThrough history leaderHistory
            (request.prevLogIndex + request.entries.length) := by
          cases intake with
          | covered agree => exact agree
          | extended some_ => exact absurd brings some_
          | replaced some_ => exact absurd brings some_
        have isOutcome : takeEntriesNow node request = confirmNow node request := by
          rw [takeEntriesNow, if_neg (not_not.mpr matched), isTaken]
          exact if_neg (not_not.mpr brings)
        refine .inl ⟨agreeThrough_iff.mp covered, ?_⟩
        exact .of_confirmNow compacted (by rw [isOutcome]) (by rw [isOutcome]) ⟨rfl, rfl, rfl, rfl⟩
      · rcases node.replaceSuffix_frame newEntries truncateFrom with ⟨_, _, _, _, replaceFrame⟩
        have copied : (stored node newEntries truncateFrom).Compacted
            (leaderHistory.take (request.prevLogIndex + request.entries.length)) :=
          compacted.replaceSuffix leaderIndexed brings agreed intake
        have isOutcome : takeEntriesNow node request = (confirmNow (stored node newEntries
            truncateFrom) request).wrote (storeWrites newEntries truncateFrom) := by
          rw [takeEntriesNow, if_neg (not_not.mpr matched), isTaken]
          exact if_pos brings
        have atMost : node.commitIndex ≤ commonLength history leaderHistory := by
          cases intake with
          | covered => exact absurd rfl brings
          | extended _ whole => exact held.trans (agreeThrough_iff.mp whole)
          | replaced _ _ _ later before =>
              exact (Nat.le_sub_one_of_lt later).trans (agreeThrough_iff.mp before)
        refine .inr ⟨intake.common_lt brings, .inl ⟨atMost, ?_⟩⟩
        apply Took.of_confirmNow copied
        · rw [isOutcome]
          rfl
        · rw [isOutcome]
          rfl
        · simp only [stored, Node.logSaved, replaceFrame, and_self]

end Follower

/-! ## Installing a Snapshot -/

def installedAnswer (node : Node) (request : InstallSnapshot) : InstallSnapshotResponse where
  sender := node.id
  term := request.term
  requestID := request.requestID
  snapshotIndex := request.snapshotIndex
  success := true
  nextOffset := request.nextOffset
  done := true

section Install

variable {node : Node} {history : List LogEntry} {request : InstallSnapshot}

theorem installSnapshotNow_taken (notOlder : node.term ≤ request.term) (success : request.success)
    (installed : request.installed) :
    ((installSnapshotNow node request).core =
        (node.acceptLeader request.term request.sender).takeInstallSnapshot request ∨
      (installSnapshotNow node request).core =
        ((node.acceptLeader request.term request.sender).takeInstallSnapshot
          request).hardStateSaved) ∧
      (installSnapshotNow node request).core.id = node.id ∧
      (installSnapshotNow node request).core.term = request.term ∧
      (installSnapshotNow node request).emitted.findSome? (toLeader request.sender) =
        some (.installSnapshotResponse (installedAnswer node request)) := by
  have reached := Node.acceptLeader_term notOlder request.sender
  rcases node.acceptLeader_frame request.term request.sender with
    ⟨_, _, _, _, _, _, _, _, _, _, frame⟩
  have sameID : (node.acceptLeader request.term request.sender).id = node.id := by rw [frame]
  clear frame
  rw [installSnapshotNow, if_neg (Nat.not_lt.mpr notOlder)]
  generalize node.acceptLeader request.term request.sender = accepted at *
  have kept : (accepted.takeInstallSnapshot request).id = accepted.id ∧
      (accepted.takeInstallSnapshot request).term = accepted.term := by
    rw [Node.takeInstallSnapshot]
    rcases accepted.installSnapshotBase_frame request with ⟨_, _, _, _, _, _, frame⟩
    split_ifs
    · rw [frame]
      exact ⟨rfl, rfl⟩
    · exact ⟨rfl, rfl⟩
  rw [sameID, reached] at kept
  generalize accepted.takeInstallSnapshot request = holder at *
  have answer : (Action.resetElectionTimer :: holder.snapshotResponse request request.success
      request.nextOffset request.installed).findSome? (toLeader request.sender) =
        some (.installSnapshotResponse (installedAnswer node request)) := by
    simp [Node.snapshotResponse, List.findSome?_cons, toLeader, installedAnswer, kept, success,
      installed]
  simp only
  split_ifs
  · exact ⟨.inr rfl, kept.1, kept.2, answer⟩
  · exact ⟨.inl rfl, kept.1, kept.2, answer⟩

theorem takeInstallSnapshot_log (compacted : node.Compacted history)
    (settled : node.logBaseIndex ≤ node.commitIndex) (installed : request.installed)
    (within : request.snapshotIndex ≤ history.length)
    (sameTerm : request.snapshotTerm = entryTerm history request.snapshotIndex) :
    (node.takeInstallSnapshot request).Compacted history ∧
      (node.takeInstallSnapshot request).logBaseIndex =
        max node.logBaseIndex request.snapshotIndex ∧
      (node.takeInstallSnapshot request).commitIndex =
        max node.commitIndex request.snapshotIndex := by
  rw [Node.takeInstallSnapshot]
  by_cases above : node.logBaseIndex < request.snapshotIndex
  · have matched : request.snapshotIndex ≤ node.lastLogIndex ∧
        node.termAt request.snapshotIndex = request.snapshotTerm :=
      ⟨within.trans compacted.lastIndex.ge, (compacted.termAt above.le).trans sameTerm.symm⟩
    rw [if_pos ⟨installed, above⟩]
    refine ⟨compacted.installSnapshotBase above within sameTerm, ?_⟩
    rw [Node.installSnapshotBase_matched matched rfl]
    exact ⟨(Nat.max_eq_right above.le).symm, rfl⟩
  · rw [if_neg (fun both => above both.2)]
    exact ⟨compacted, by omega, by omega⟩

theorem installSnapshotNow_log (compacted : node.Compacted history)
    (settled : node.logBaseIndex ≤ node.commitIndex) (notOlder : node.term ≤ request.term)
    (success : request.success) (installed : request.installed)
    (within : request.snapshotIndex ≤ history.length)
    (sameTerm : request.snapshotTerm = entryTerm history request.snapshotIndex) :
    (installSnapshotNow node request).core.Compacted history ∧
      (installSnapshotNow node request).core.logBaseIndex =
        max node.logBaseIndex request.snapshotIndex ∧
      (installSnapshotNow node request).core.commitIndex =
        max node.commitIndex request.snapshotIndex := by
  rcases node.acceptLeader_frame request.term request.sender with
    ⟨_, _, _, _, _, _, _, _, _, _, frame⟩
  have taken := @takeInstallSnapshot_log (node.acceptLeader request.term request.sender) history
    request (by rw [frame]; exact compacted) (by rw [frame]; exact settled) installed within
    sameTerm
  have same : (node.acceptLeader request.term request.sender).logBaseIndex = node.logBaseIndex ∧
      (node.acceptLeader request.term request.sender).commitIndex = node.commitIndex := by
    rw [frame]
    exact ⟨rfl, rfl⟩
  rw [same.1, same.2] at taken
  rcases (installSnapshotNow_taken notOlder success installed).1 with core | core
  · rwa [core]
  · rw [core]
    exact taken

end Install

/-! ## The Leader -/

theorem recordResponse_refused {leader : Node} {response : AppendEntriesResponse}
    (failed : response.success = false) :
    (leader.recordResponse response).nextIndex response.sender =
        leader.nextIndexFromConflict response ∧
      (leader.recordResponse response).matchIndex = leader.matchIndex := by
  simp only [Node.recordResponse, failed, Bool.false_eq_true, if_false, Function.update_self,
    and_true]
  apply Node.nextIndexFromConflict_congr
  · rfl
  · exact fun _ => rfl

theorem recordResponse_accepted {leader : Node} {response : AppendEntriesResponse}
    (succeeded : response.success = true) :
    (leader.recordResponse response).nextIndex response.sender =
        max (leader.matchIndex response.sender) response.matchIndex + 1 ∧
      (leader.recordResponse response).matchIndex response.sender =
        max (leader.matchIndex response.sender) response.matchIndex := by
  simp [Node.recordResponse, succeeded]

structure Leading (leader : Node) (peer : NodeID) (source : Source LogEntry) : Prop where
  role : leader.role = .leader
  present : peer ∈ leader.peers
  durable : leader.lastLogIndex ≤ leader.durableLogIndex
  compacted : leader.Compacted source.history
  base : leader.logBaseIndex = source.base
  batch : ∀ first, source.reach first =
    first - 1 + (leader.entriesBatch first leader.lastLogIndex).length

namespace Leading

variable {leader : Node} {peer : NodeID} {source : Source LogEntry}

theorem of_frame {commit applied durable persistence requestID : Nat} {ready : Bool}
    {reads : List (ReadID × PendingRead)} {active : Finset NodeID} {matched next : NodeID → Nat}
    {appends : NodeID → PendingAppend} {snapshots : NodeID → Nat}
    (leading : Leading leader peer source) : Leading { leader with
      nextRequestID := requestID
      appendInFlight := appends
      snapshotInFlight := snapshots
      activePeers := active
      matchIndex := matched
      nextIndex := next
      commitIndex := commit
      lastApplied := applied
      readReady := ready
      pendingReads := reads
      durableCommitIndex := durable
      nextCommitPersistence := persistence } peer source :=
  ⟨leading.role, leading.present, leading.durable, leading.compacted, leading.base, leading.batch⟩

variable (leading : Leading leader peer source)

include leading

theorem durableLastIndex : leader.durableLastIndex = source.history.length := by
  rw [Node.durableLastIndex, Nat.min_eq_right leading.durable, leading.compacted.lastIndex]

theorem firstToSend {next : Nat} (isNext : leader.nextIndex peer = next) (positive : 0 < next) :
    leader.firstToSend peer = min next (source.history.length + 1) := by
  rw [Node.firstToSend, leading.durableLastIndex, isNext]
  split_ifs <;> omega

theorem handles {response : AppendEntriesResponse} (isSender : response.sender = peer)
    (current : response.term = leader.term) (available : leader.snapshotInFlight peer = 0)
    (remembered : (leader.appendInFlight peer).requestID = response.requestID) :
    Leading (appendEntriesResponseNow leader response).core peer source ∧
      (∃ announced, Sent (appendEntriesResponseNow leader response).core peer announced
        ((appendEntriesResponseNow leader response).emitted.findSome?
          (toFollower leader.id peer))) ∧
      (appendEntriesResponseNow leader response).core.term = leader.term ∧
      (appendEntriesResponseNow leader response).core.nextIndex =
        (leader.recordResponse response).nextIndex ∧
      (appendEntriesResponseNow leader response).core.matchIndex =
        (leader.recordResponse response).matchIndex := by
  subst isSender
  have fresh : ¬Node.outdated (leader.appendInFlight response.sender) response :=
    fun outdated => outdated.2.2 remembered.symm
  rcases appendEntriesResponseNow_sent leading.role current fresh available with
    ⟨sent, _, _, _, _, _, _, _, _, _, frame⟩
  rcases leader.recordResponse_frame response with ⟨_, _, _, _, recordFrame⟩
  refine ⟨?_, sent, ?_, ?_, ?_⟩
  · rw [frame, recordFrame]
    exact leading.of_frame
  · rw [frame, recordFrame]
  · rw [frame]
  · rw [frame]

theorem handlesSnapshot {response : InstallSnapshotResponse} (isSender : response.sender = peer)
    (current : response.term = leader.term)
    (remembered : leader.snapshotInFlight peer = response.requestID)
    (success : response.success) (done : response.done) :
    Leading (installSnapshotResponseNow leader response).core peer source ∧
      Sent (installSnapshotResponseNow leader response).core peer leader.commitIndex
        ((installSnapshotResponseNow leader response).emitted.findSome?
          (toFollower leader.id peer)) ∧
      (installSnapshotResponseNow leader response).core.term = leader.term ∧
      (installSnapshotResponseNow leader response).core.nextIndex peer =
        response.snapshotIndex + 1 ∧
      (installSnapshotResponseNow leader response).core.matchIndex peer =
        max (leader.matchIndex peer) response.snapshotIndex := by
  subst isSender
  have notNewer : ¬leader.term < response.term := by omega
  have isCurrent : ¬(leader.role ≠ .leader ∨ response.term ≠ leader.term ∨
      leader.snapshotInFlight response.sender ≠ response.requestID) := by
    simp [leading.role, current, remembered]
  simp only [installSnapshotResponseNow, if_neg notNewer, Node.handleInstallSnapshotResponse,
    if_neg isCurrent, success, done, not_true_eq_false, if_false]
  have available : (leader.recordSnapshot response).snapshotInFlight response.sender = 0 :=
    Function.update_self _ _ _
  have sent := Sent.supply available (leader.pendingReadFor response.sender)
  rcases (leader.recordSnapshot response).sendAppendEntriesTo_frame response.sender
    (leader.pendingReadFor response.sender) with ⟨_, _, _, frame⟩
  refine ⟨?_, sent, ?_, ?_, ?_⟩
  · rw [frame]
    exact leading.of_frame
  · rw [frame]
    rfl
  · rw [frame]
    exact Function.update_self _ _ _
  · rw [frame]
    exact Function.update_self _ _ _

end Leading

/-! ## Exchanges in general -/

/-- A Leader and a Follower of no later Term, with a request on its way or none. -/
structure Exchanging (source : Source LogEntry) (announced : Nat) (exchange : Exchange) : Prop where
  leading : Leading exchange.leader exchange.follower.id source
  term_le : exchange.follower.term ≤ exchange.leader.term
  sent : Sent exchange.leader exchange.follower.id announced exchange.request

theorem recordResponse_matchIndex_le (leader : Node) (response : AppendEntriesResponse) :
    leader.matchIndex response.sender ≤
      (leader.recordResponse response).matchIndex response.sender := by
  cases success : response.success with
  | true =>
      rw [(recordResponse_accepted success).2]
      exact le_max_left _ _
  | false => rw [(recordResponse_refused success).2]

namespace Exchanging

variable {source : Source LogEntry} {announced : Nat}
  {exchange : Exchange} (exchanging : Exchanging source announced exchange)

include exchanging

theorem sending : ∃ request, exchange.sending.request = some request ∧
    Exchanging source announced exchange.sending ∧ exchange.sending.follower = exchange.follower ∧
    exchange.sending.leader.nextIndex = exchange.leader.nextIndex ∧
    exchange.sending.leader.matchIndex = exchange.leader.matchIndex := by
  have sent := exchanging.sent
  cases isRequest : exchange.request with
  | some request =>
      have same : exchange.sending = exchange := by rw [Exchange.sending, isRequest]
      rw [same]
      exact ⟨request, isRequest, exchanging, rfl, rfl, rfl⟩
  | none =>
      rw [isRequest] at sent
      cases sent with
      | nothing available =>
          rcases heartbeat_sent exchanging.leading.role exchanging.leading.present available with
            ⟨request, found, onItsWay⟩
          rcases heartbeat_frame exchange.leader with ⟨_, _, _, frame⟩
          have isSending : exchange.sending = { exchange with
              leader := (stepNow exchange.leader .heartbeatTimeout).core
              request := some request } := by
            rw [Exchange.sending, isRequest, ← found]
          rw [isSending]
          refine ⟨request, rfl, ⟨?_, ?_, onItsWay⟩, rfl, ?_, ?_⟩
          · simp only [frame]
            exact exchanging.leading.of_frame
          · simp only [frame]
            exact exchanging.term_le
          · simp only [frame]
          · simp only [frame]

/-- The Leader records what the Follower answers to a batch. -/
theorem answering {request : AppendEntries}
    (isRequest : exchange.request = some (.appendEntries request)) {node : Node}
    (isNode : followNow exchange.follower request.term request.sender = node) : ∃ response after,
      (takeEntriesNow node request).emitted.findSome? (toLeader request.sender) =
        some (.appendEntriesResponse response) ∧ response.sender = exchange.follower.id ∧
      Exchanging source after (exchange.answering (.appendEntries request)) ∧
      (exchange.answering (.appendEntries request)).follower = (takeEntriesNow node request).core ∧
      (takeEntriesNow node request).core.id = exchange.follower.id ∧
      (exchange.answering (.appendEntries request)).leader.nextIndex =
        (exchange.leader.recordResponse response).nextIndex ∧
      (exchange.answering (.appendEntries request)).leader.matchIndex =
        (exchange.leader.recordResponse response).matchIndex := by
  have sent := exchanging.sent
  rw [isRequest] at sent
  cases sent with
  | entries available above sender isTerm nonzero remembered =>
      have notOlder : exchange.follower.term ≤ request.term := isTerm ▸ exchanging.term_le
      have followed := followNow_term notOlder request.sender
      have sameID : node.id = exchange.follower.id := isNode ▸ followNow_id _ _ _
      rcases appendEntriesNow_taken notOlder exchange.leader.id with ⟨core, answer⟩
      rcases takeEntriesNow_answers node request with
        ⟨response, answers, isSender, hasTerm, isAnswer, keptID, keptTerm⟩
      rw [isNode] at core answer followed
      rw [← sender, answers] at answer
      rw [sameID] at isSender keptID
      have isAnswering : exchange.answering (.appendEntries request) = {
          leader := (appendEntriesResponseNow exchange.leader response).core
          follower := (takeEntriesNow node request).core
          request := (appendEntriesResponseNow exchange.leader response).emitted.findSome?
            (toFollower exchange.leader.id exchange.follower.id) } := by
        simp only [Exchange.answering, stepNow, ← sender, answer, core]
      rcases exchanging.leading.handles isSender (hasTerm.trans (followed.trans isTerm)) available
        (remembered.trans isAnswer.symm) with
        ⟨leading, ⟨after, onItsWay⟩, sameTerm, isNext, isMatched⟩
      refine ⟨response, after, answers, isSender, ?_, ?_, keptID, ?_, ?_⟩
      · rw [isAnswering]
        refine ⟨?_, ?_, ?_⟩
        · simp only [keptID]
          exact leading
        · simp only [keptTerm, followed, sameTerm, isTerm, le_refl]
        · simp only [keptID]
          exact onItsWay
      · rw [isAnswering]
      · rw [isAnswering]
        exact isNext
      · rw [isAnswering]
        exact isMatched

theorem installing {request : InstallSnapshot}
    (isRequest : exchange.request = some (.installSnapshot request)) : Exchanging source announced
        (exchange.answering (.installSnapshot request)) ∧
      (exchange.answering (.installSnapshot request)).follower =
        (installSnapshotNow exchange.follower request).core ∧
      (installSnapshotNow exchange.follower request).core.id = exchange.follower.id ∧
      (exchange.answering (.installSnapshot request)).leader.nextIndex exchange.follower.id =
        source.base + 1 ∧
      (exchange.answering (.installSnapshot request)).leader.matchIndex exchange.follower.id =
        max (exchange.leader.matchIndex exchange.follower.id) source.base := by
  have leading := exchanging.leading
  have sent := exchanging.sent
  rw [isRequest] at sent
  cases sent with
  | snapshot compacted sender isTerm nonzero remembered index indexTerm success installed =>
      have notOlder : exchange.follower.term ≤ request.term := isTerm ▸ exchanging.term_le
      rcases installSnapshotNow_taken notOlder success installed with ⟨_, sameID, reached, answers⟩
      rw [sender] at answers
      have isAnswering : exchange.answering (.installSnapshot request) = {
          leader := (installSnapshotResponseNow exchange.leader
            (installedAnswer exchange.follower request)).core
          follower := (installSnapshotNow exchange.follower request).core
          request := (installSnapshotResponseNow exchange.leader
            (installedAnswer exchange.follower request)).emitted.findSome?
              (toFollower exchange.leader.id exchange.follower.id) } := by
        simp only [Exchange.answering, stepNow, answers]
      have isSender : (installedAnswer exchange.follower request).sender =
        exchange.follower.id := rfl
      rcases leading.handlesSnapshot isSender isTerm remembered rfl rfl with
        ⟨handled, onItsWay, keptTerm, isNext, isMatched⟩
      have isIndex : (installedAnswer exchange.follower request).snapshotIndex = source.base :=
        index.trans leading.base
      rw [isIndex] at isNext isMatched
      rw [isAnswering]
      refine ⟨⟨?_, ?_, ?_⟩, rfl, sameID, isNext, isMatched⟩
      · simp only [sameID]
        exact handled
      · simp only [reached, keptTerm, isTerm, le_refl]
      · simp only [sameID]
        exact onItsWay

/-- A Leader that counts on more than it holds goes on doing so. -/
theorem ahead (ahead : source.history.length < exchange.leader.matchIndex exchange.follower.id) :
    ∃ after, Exchanging source after exchange.next ∧
      source.history.length < exchange.next.leader.matchIndex exchange.next.follower.id := by
  rcases exchanging.sending with ⟨event, isRequest, sending, sameFollower, _, sameMatched⟩
  have isNext : exchange.next = exchange.sending.answering event := by
    rw [Exchange.next, isRequest]
  rw [← sameFollower, ← sameMatched] at ahead
  rw [isNext]
  generalize exchange.sending = current at *
  have sent := sending.sent
  rw [isRequest] at sent
  cases sent with
  | @entries request =>
      rcases sending.answering isRequest rfl with
        ⟨response, after, _, isSender, continuing, isFollower, sameID, _, isMatched⟩
      refine ⟨after, continuing, ?_⟩
      rw [isFollower, sameID, isMatched, ← isSender]
      rw [← isSender] at ahead
      exact ahead.trans_le (recordResponse_matchIndex_le _ _)
  | snapshot =>
      rcases sending.installing isRequest with ⟨continuing, isFollower, sameID, _, isMatched⟩
      refine ⟨_, continuing, ?_⟩
      rw [isFollower, sameID, isMatched]
      exact ahead.trans_le (le_max_left _ _)

end Exchanging

/-! ## An exchange is a round -/

theorem nextIndexFromConflict_within (node : Node) (response : AppendEntriesResponse) :
    0 < node.nextIndexFromConflict response ∧
      node.nextIndexFromConflict response ≤ node.lastLogIndex + 1 := by
  simp only [Node.nextIndexFromConflict]
  constructor
  · generalize (if response.conflictTerm ≠ 0 then _ else _) = hinted
    split_ifs <;> omega
  · exact min_le_right _ _

structure Repairing (source : Source LogEntry)
    (gap : Gap LogEntry) (exchange : Exchange) : Prop where
  exchanging : Exchanging source gap.announced exchange
  log : exchange.follower.Compacted gap.history
  base : exchange.follower.logBaseIndex = gap.base
  commit : exchange.follower.commitIndex = gap.commit
  next : exchange.leader.firstToSend exchange.follower.id = gap.next
  matched : exchange.leader.matchIndex exchange.follower.id = gap.matched
  known : Aligned gap.history source.history ∨ gap.history <+: source.history
  placed : gap.Placed source

/-- An exchange that is a round of the gap before it. -/
def Continues (source : Source LogEntry) (gap : Gap LogEntry) (exchange : Exchange) : Prop :=
  ∃ after, Gap.Round source gap after ∧ Repairing source after exchange

namespace Repairing

variable {source : Source LogEntry}
  {gap : Gap LogEntry} {exchange : Exchange}

variable (repairing : Repairing source gap exchange)

include repairing

theorem logsMatch : Node.LogsMatch gap.history source.history := by
  rcases repairing.known with aligned | leading
  · exact aligned.logsMatch
  · exact fun index _ inside _ _ => .of_isPrefix leading inside

theorem sending : ∃ request, exchange.sending.request = some request ∧
    Repairing source gap exchange.sending := by
  rcases repairing.exchanging.sending with
    ⟨request, isRequest, sending, sameFollower, sameNext, sameMatched⟩
  refine ⟨request, isRequest, sending, ?_, ?_, ?_, ?_, ?_, repairing.known, repairing.placed⟩
  · rw [sameFollower]
    exact repairing.log
  · rw [sameFollower]
    exact repairing.base
  · rw [sameFollower]
    exact repairing.commit
  · have same := repairing.exchanging.leading.durableLastIndex
    rw [← repairing.next, Node.firstToSend, Node.firstToSend,
      sending.leading.durableLastIndex, same,
      sameFollower, sameNext]
  · rw [sameFollower, sameMatched]
    exact repairing.matched

structure Request (source : Source LogEntry)
    (gap : Gap LogEntry) (request : AppendEntries) : Prop where
  above : source.base < gap.next
  prev : request.prevLogIndex = gap.next - 1
  prevTerm : request.prevLogTerm = entryTerm source.history request.prevLogIndex
  part : request.entries <+: source.history.drop request.prevLogIndex
  reaches : request.prevLogIndex + request.entries.length = source.reach gap.next
  announces : request.leaderCommit = gap.announced

section Answering

variable {request : AppendEntries} (isRequest : exchange.request = some (.appendEntries request))

include isRequest

theorem asks : Request source gap request := by
  have leading := repairing.exchanging.leading
  have isFirst := repairing.next
  have sent := repairing.exchanging.sent
  generalize isAnnounced : gap.announced = announced at sent
  rw [isRequest] at sent
  cases sent with
  | entries _ above _ _ _ _ prev prevTerm batch =>
      rw [isFirst] at above prev prevTerm batch
      rw [leading.durableLastIndex, ← leading.compacted.lastIndex] at batch
      rw [leading.compacted.termAt (Nat.le_sub_one_of_lt above), ← prev] at prevTerm
      refine ⟨leading.base ▸ above, prev, prevTerm, ?_, ?_, isAnnounced.symm⟩
      · rw [batch, prev]
        exact leading.compacted.entriesBatch above _
      · rw [leading.batch, prev, batch]

section

variable {node : Node} (isNode : followNow exchange.follower request.term request.sender = node)

include isNode

/-- A Follower that refuses a request keeps its log, and the Leader sends next
what the hint says. -/
theorem answering_kept {position : Nat} (kept : Kept node request position)
    (round : ∀ announced, Gap.Round source gap { gap with
      next := exchange.leader.nextIndexFromConflict (refused node request position)
      announced := announced }) :
    Continues source gap (exchange.answering (.appendEntries request)) := by
  rcases followNow_log request.term request.sender repairing.log with ⟨log, base, commit⟩
  rcases repairing.exchanging.answering isRequest isNode with
    ⟨response, announced, answers, isSender, exchanging, isFollower, keptID, isNext, isMatched⟩
  rw [kept.answers, Option.some.injEq, Event.appendEntriesResponse.injEq] at answers
  subst answers
  rcases @recordResponse_refused exchange.leader (refused node request position) rfl with
    ⟨hinted, sameMatched⟩
  have placed := repairing.placed.round (round announced)
  rw [isSender] at hinted
  rw [isNode] at log base commit
  rw [kept.core] at isFollower keptID
  refine ⟨_, round announced, exchanging, ?_, ?_, ?_, ?_, ?_, repairing.known, placed⟩
  · rw [isFollower]
    exact log
  · rw [isFollower]
    exact base.trans repairing.base
  · rw [isFollower]
    exact commit.trans repairing.commit
  · rw [exchanging.leading.firstToSend (by rw [isFollower, keptID, isNext, hinted]) placed.positive]
    exact Nat.min_eq_left placed.bounded
  · rw [isFollower, keptID, isMatched, sameMatched]
    exact repairing.matched

theorem answering_took {taken : List LogEntry} (took : Took node request taken)
    (round : ∀ announced, Gap.Round source gap (gap.taking source taken announced))
    (known : Aligned taken source.history ∨ taken <+: source.history) :
    Continues source gap (exchange.answering (.appendEntries request)) := by
  rcases followNow_log request.term request.sender repairing.log with ⟨_, base, commit⟩
  have announces := (repairing.asks isRequest).announces
  rcases repairing.exchanging.answering isRequest isNode with
    ⟨response, announced, answers, isSender, exchanging, isFollower, keptID, isNext, isMatched⟩
  rw [took.answers, Option.some.injEq, Event.appendEntriesResponse.injEq] at answers
  subst answers
  rcases @recordResponse_accepted exchange.leader (accepted node request taken.length) rfl with
    ⟨recordedNext, recordedMatch⟩
  rw [isSender, repairing.matched] at recordedNext recordedMatch
  rw [isNode] at base commit
  refine ⟨_, round announced, exchanging, ?_, ?_, ?_, ?_, ?_, known,
    repairing.placed.round (round announced)⟩
  · rw [isFollower]
    exact took.log
  · rw [isFollower, took.base]
    exact base.trans repairing.base
  · rw [isFollower, took.commit, commit, repairing.commit, announces]
    rfl
  · rw [exchanging.leading.firstToSend (by rw [isFollower, keptID, isNext, recordedNext])
      (Nat.succ_pos _)]
    exact Nat.add_min_add_right (max gap.matched taken.length) source.history.length 1
  · rw [isFollower, keptID, isMatched, recordedMatch]
    rfl

end

theorem answering_refused (beyond : gap.common source < gap.next - 1) :
    Continues source gap (exchange.answering (.appendEntries request)) := by
  have asked := repairing.asks isRequest
  have leading := repairing.exchanging.leading
  have placed := repairing.placed
  rcases followNow_log request.term request.sender repairing.log with ⟨log, base, _⟩
  generalize isNode : followNow exchange.follower request.term request.sender = node at *
  have within : gap.next - 1 ≤ source.history.length := by
    have := placed.bounded
    omega
  have low : node.logBaseIndex ≤ gap.common source := by
    rw [base, repairing.base]
    exact placed.base_le
  have unmatched : ¬node.matchesAt request.prevLogIndex request.prevLogTerm := by
    rw [asked.prevTerm, asked.prev]
    exact log.not_matchesAt repairing.logsMatch (low.trans beyond.le) beyond within
  have hint : ((refused node request request.prevLogIndex).conflictTerm,
      (refused node request request.prevLogIndex).conflictIndex) =
        node.conflictHint (gap.next - 1) := by
    rw [← asked.prev]
    rfl
  have short : gap.history.length < gap.next - 1 →
      exchange.leader.nextIndexFromConflict (refused node request request.prevLogIndex) =
        gap.history.length + 1 := fun short =>
    Node.nextIndexFromConflict_short log leading.compacted short within hint
  have bounds : gap.common source <
        exchange.leader.nextIndexFromConflict (refused node request request.prevLogIndex) ∧
      exchange.leader.nextIndexFromConflict (refused node request request.prevLogIndex) ≤
        gap.next - 1 := by
    rcases repairing.known with aligned | part
    · apply Node.nextIndexFromConflict_bounds aligned log leading.compacted low _ beyond within hint
      rw [leading.base]
      exact placed.leaderBase_le
    · -- A part of the Leader's history agrees with it to its end.
      have covered : gap.history.length ≤ gap.common source :=
        agreeThrough_iff.mp (.of_isPrefix part le_rfl)
      have := Gap.common_le_history source gap
      rw [short (by omega)]
      omega
  exact repairing.answering_kept isRequest isNode (takeEntriesNow_refused unmatched)
    fun _ => .refused asked.above beyond bounds.1 (by omega) short

theorem answering_matched (readable : gap.base < max gap.next 2)
    (probed : gap.next - 1 ≤ gap.common source) :
    Continues source gap (exchange.answering (.appendEntries request)) := by
  have asked := repairing.asks isRequest
  have leading := repairing.exchanging.leading
  have placed := repairing.placed
  have positive := placed.positive
  rcases followNow_log request.term request.sender repairing.log with ⟨log, base, commit⟩
  generalize isNode : followNow exchange.follower request.term request.sender = node at *
  rw [repairing.base] at base
  rw [repairing.commit] at commit
  have prev := asked.prev
  have outcome := takeEntriesNow_matched log leading.compacted.indexed repairing.logsMatch
    (base ▸ placed.base_le) (commit ▸ placed.held) (by omega) (prev ▸ probed) asked.prevTerm
    asked.part
  rw [asked.reaches, commit] at outcome
  rcases outcome with ⟨covered, took⟩ | ⟨beyond, ⟨atMost, took⟩ | ⟨committed, kept⟩⟩
  · exact repairing.answering_took isRequest isNode took
      (fun _ => .confirmed asked.above readable probed covered) repairing.known
  · exact repairing.answering_took isRequest isNode took
      (fun _ => .copied asked.above readable beyond atMost) (.inr (List.take_prefix _ _))
  · have bounds := nextIndexFromConflict_within exchange.leader
      (refused node request (request.prevLogIndex + 1))
    rw [leading.compacted.lastIndex] at bounds
    exact repairing.answering_kept isRequest isNode kept
      fun _ => .objected asked.above beyond committed bounds.1 bounds.2

/-- A Follower cannot read below its base, and the hint that it gives is the
position that it was asked for. -/
theorem answering_unread (unread : max gap.next 2 ≤ gap.base)
    (positive : ∀ entry ∈ gap.history, 0 < entry.term) :
    Continues source gap (exchange.answering (.appendEntries request)) := by
  have asked := repairing.asks isRequest
  have leading := repairing.exchanging.leading
  have placed := repairing.placed
  rcases followNow_log request.term request.sender repairing.log with ⟨log, base, commit⟩
  generalize isNode : followNow exchange.follower request.term request.sender = node at *
  rw [repairing.base] at base
  rw [repairing.commit] at commit
  have lastIndex := log.lastIndex
  have leaderLast := leading.compacted.lastIndex
  have settled := placed.settled
  have held := placed.held
  have low := placed.base_le
  have upper := Gap.common_le_leader source gap
  have above := asked.above
  have prev := asked.prev
  have hinted : ∀ position, 0 < position → position < gap.base →
      exchange.leader.nextIndexFromConflict (refused node request position) = position := by
    intro position some_ below
    have hint := Node.Compacted.conflictHint_below some_ (base ▸ below) (by omega)
    simp only [Node.nextIndexFromConflict, refused, hint, ne_eq, not_true_eq_false, if_false]
    rw [if_neg (by omega)]
    omega
  have nonzero : ∀ position, 0 < position → position ≤ gap.base →
      0 < entryTerm source.history position := by
    intro position some_ below
    have agree := agreeThrough_iff.mpr (below.trans low)
    have found := List.getElem?_eq_getElem (show position - 1 < gap.history.length by omega)
    rw [← entryTerm_agree agree le_rfl, entryTerm_found some_ found]
    exact positive _ (List.getElem_mem _)
  by_cases start : request.prevLogIndex = 0
  · -- The first entry of the batch is compared with one that the Follower compacted.
    have objects : node.entriesToAppend request.prevLogIndex request.entries = none := by
      cases isEntries : request.entries with
      | nil =>
          have reaches := asked.reaches
          have := source.le_reach gap.next asked.above (by omega)
          rw [isEntries, List.length_nil] at reaches
          omega
      | cons entry rest =>
          have part := asked.part
          rw [isEntries, start, List.drop_zero] at part
          have found : source.history[1 - 1]? = some entry := by
            rcases part with ⟨_, whole⟩
            rw [← whole]
            rfl
          have differ := nonzero 1 one_pos (by omega)
          rw [entryTerm_found one_pos found] at differ
          have unknown : node.termAt 1 = 0 := Node.Compacted.termAt_below (by omega)
          rw [start, Node.entriesToAppend, Node.entriesToAppendFrom,
            leading.compacted.indexed 0 entry found, unknown, if_neg (by simp), if_pos (by omega),
            if_pos (by omega), if_pos (by omega)]
    have matched : node.matchesAt request.prevLogIndex request.prevLogTerm := by
      simp [Node.matchesAt, asked.prevTerm, start, entryTerm_zero]
    apply repairing.answering_kept isRequest isNode (takeEntriesNow_objects matched objects)
    intro announced
    have isNext := hinted (request.prevLogIndex + 1) (by omega) (by omega)
    have bound : request.prevLogIndex + 1 = max 1 (gap.next - 1) := by omega
    rw [isNext, bound]
    exact .unread asked.above unread
  · have unmatched : ¬node.matchesAt request.prevLogIndex request.prevLogTerm := by
      have := nonzero request.prevLogIndex (by omega) (by omega)
      have unknown : node.termAt request.prevLogIndex = 0 :=
        Node.Compacted.termAt_below (by omega)
      simp only [Node.matchesAt, asked.prevTerm, unknown, decide_eq_true_eq]
      omega
    apply repairing.answering_kept isRequest isNode (takeEntriesNow_refused unmatched)
    intro announced
    have isNext := hinted request.prevLogIndex (by omega) (by omega)
    have bound : request.prevLogIndex = max 1 (gap.next - 1) := by omega
    rw [isNext, bound]
    exact .unread asked.above unread

end Answering

theorem installing {request : InstallSnapshot}
    (isRequest : exchange.request = some (.installSnapshot request)) :
    Continues source gap (exchange.answering (.installSnapshot request)) := by
  have exchanging := repairing.exchanging
  have leading := exchanging.leading
  have placed := repairing.placed
  have agree := agreeThrough_iff.mpr placed.leaderBase_le
  rcases exchanging.installing isRequest with ⟨continuing, isFollower, sameID, isNext, isMatched⟩
  have sent := exchanging.sent
  generalize gap.announced = announced at sent
  rw [isRequest] at sent
  cases sent with
  | snapshot compacted _ isTerm _ _ index indexTerm success installed =>
      rw [repairing.next, leading.base] at compacted
      rw [leading.base] at index
      rw [leading.compacted.baseTerm, leading.base] at indexTerm
      have notOlder : exchange.follower.term ≤ request.term := isTerm ▸ exchanging.term_le
      have sameTerm : request.snapshotTerm = entryTerm gap.history request.snapshotIndex := by
        rw [indexTerm, index, entryTerm_agree agree le_rfl]
      have settled : exchange.follower.logBaseIndex ≤ exchange.follower.commitIndex := by
        rw [repairing.base, repairing.commit]
        exact placed.settled
      rcases installSnapshotNow_log repairing.log settled notOlder success installed
        (index ▸ agree.1) sameTerm with ⟨log, base, commit⟩
      rw [index, repairing.base] at base
      rw [index, repairing.commit] at commit
      rw [repairing.matched] at isMatched
      have round : Gap.Round source gap _ := .transferred compacted
      refine ⟨_, round, continuing, ?_, ?_, ?_, ?_, ?_, repairing.known,
        placed.round round⟩
      · rw [isFollower]
        exact log
      · rw [isFollower]
        exact base
      · rw [isFollower]
        exact commit
      · rw [continuing.leading.firstToSend (by rw [isFollower, sameID, isNext]) (Nat.succ_pos _)]
        exact Nat.min_eq_left (Nat.succ_le_succ agree.2.1)
      · rw [isFollower, sameID, isMatched]

theorem round (readable : gap.base < max (gap.first source) 2 ∨
      ∀ entry ∈ gap.history, 0 < entry.term) : Continues source gap exchange.next := by
  rcases repairing.sending with ⟨event, isRequest, sending⟩
  have isNext : exchange.next = exchange.sending.answering event := by
    rw [Exchange.next, isRequest]
  have sent := sending.exchanging.sent
  rw [isNext]
  generalize exchange.sending = current at *
  generalize gap.announced = announced at sent
  rw [isRequest] at sent
  cases sent with
  | entries =>
      have above := (sending.asks isRequest).above
      rw [Gap.first, Nat.max_eq_left above] at readable
      by_cases beyond : gap.common source < gap.next - 1
      · exact sending.answering_refused isRequest beyond
      · by_cases unread : gap.base < max gap.next 2
        · exact sending.answering_matched isRequest unread (Nat.le_of_not_lt beyond)
        · exact sending.answering_unread isRequest (Nat.le_of_not_lt unread)
            (readable.resolve_left unread)
  | snapshot => exact sending.installing isRequest

theorem repaired_iff : exchange.Repaired ↔ gap.Closed source := by
  have log := repairing.log
  have leaderLog := repairing.exchanging.leading.compacted
  rw [Exchange.Repaired, log.lastIndex, leaderLog.lastIndex, log.lastTerm, leaderLog.lastTerm,
    repairing.matched]
  constructor
  · rintro ⟨sameLength, sameTerm, matched⟩
    have whole : gap.common source = source.history.length := by
      apply le_antisymm (Gap.common_le_leader _ _)
      rcases Nat.eq_zero_or_pos source.history.length with empty | nonempty
      · omega
      · rw [sameLength] at sameTerm
        exact agreeThrough_iff.mp
          (repairing.logsMatch _ nonempty sameLength.ge le_rfl sameTerm)
    exact ⟨Gap.eq_of_common whole sameLength, matched⟩
  · rintro ⟨same, matched⟩
    rw [same]
    exact ⟨rfl, rfl, matched⟩

end Repairing

/-- The Leader counts on more than it holds, or the gap is stuck. -/
inductive Hopeless (source : Source LogEntry) (exchange : Exchange) : Prop
  | ahead {announced : Nat} : Exchanging source announced exchange →
      source.history.length < exchange.leader.matchIndex exchange.follower.id →
      Hopeless source exchange
  | stuck {gap : Gap LogEntry} : Repairing source gap exchange →
      (∀ entry ∈ gap.history, 0 < entry.term) → gap.Stuck source →
      Hopeless source exchange

namespace Hopeless

variable {source : Source LogEntry}
  {exchange : Exchange} (hopeless : Hopeless source exchange)

include hopeless

theorem not_repaired : ¬exchange.Repaired := by
  cases hopeless with
  | ahead exchanging ahead =>
      rintro ⟨_, _, matched⟩
      rw [matched, exchanging.leading.compacted.lastIndex] at ahead
      exact absurd ahead (lt_irrefl _)
  | stuck repairing _ stuck =>
      rw [repairing.repaired_iff]
      exact stuck.not_closed

theorem next : Hopeless source exchange.next := by
  cases hopeless with
  | ahead exchanging ahead =>
      rcases exchanging.ahead ahead with ⟨_, continuing, stillAhead⟩
      exact .ahead continuing stillAhead
  | stuck repairing positive stuck =>
      rcases repairing.round (.inr positive) with ⟨after, round, continuing⟩
      rcases stuck.round repairing.placed round with
        ⟨stuck | ahead, same⟩
      · exact .stuck continuing (same ▸ positive) stuck
      · exact .ahead continuing.exchanging (continuing.matched ▸ ahead)

/-- No number of exchanges repairs the Follower. -/
theorem never (count : Nat) : ¬(Exchange.next^[count] exchange).Repaired :=
  (iterate_invariant _ hopeless (fun _ => next) count).not_repaired

end Hopeless

/-! ## Convergence -/

/-- A Leader replicates to a Follower. Their logs are parts of histories that
match, and each base is a committed position that both histories hold alike. -/
structure Replicating (leaderHistory history : List LogEntry) (exchange : Exchange) : Prop where
  leads : exchange.leader.role = .leader
  present : exchange.follower.id ∈ exchange.leader.peers
  term_le : exchange.follower.term ≤ exchange.leader.term
  durable : exchange.leader.lastLogIndex ≤ exchange.leader.durableLogIndex
  leaderLog : exchange.leader.Compacted leaderHistory
  log : exchange.follower.Compacted history
  logsMatch : Node.LogsMatch history leaderHistory
  leaderBase_le : exchange.leader.logBaseIndex ≤ commonLength history leaderHistory
  base_le : exchange.follower.logBaseIndex ≤ exchange.follower.commitIndex
  committed : exchange.follower.commitIndex ≤ commonLength history leaderHistory
  positive : 0 < exchange.leader.nextIndex exchange.follower.id
  bounded : exchange.leader.nextIndex exchange.follower.id ≤ exchange.leader.lastLogIndex + 1
  sent : Sent exchange.leader exchange.follower.id exchange.announced exchange.request

def batchEnd (leader : Node) (first : Nat) : Nat :=
  first - 1 + (leader.entriesBatch first leader.lastLogIndex).length

/-- The first entry that is sent, after a Snapshot if the next one is compacted. -/
def firstSent (exchange : Exchange) : Nat :=
  max (exchange.leader.nextIndex exchange.follower.id) (exchange.leader.logBaseIndex + 1)

/-- When repair makes progress. The Leader counts on nothing past its log and the
Follower holds nothing on top of it; the Follower has not compacted the position
before the first entry that is sent, unless this is the start of the log and
only the first entry is compacted; and if it holds entries that the Leader does
not, then the first batch that it can confirm includes one of them, or reaching
no further than the Leader's log they are not committed with that batch. -/
structure Exposed (leaderHistory history : List LogEntry) (exchange : Exchange) : Prop where
  matched_le : exchange.leader.matchIndex exchange.follower.id ≤ exchange.leader.lastLogIndex
  ends : commonLength history leaderHistory = leaderHistory.length →
    history.length = leaderHistory.length
  readable : exchange.follower.logBaseIndex < max (firstSent exchange) 2
  exposed : history.length ≤ commonLength history leaderHistory ∨
    commonLength history leaderHistory < firstSent exchange ∨
    commonLength history leaderHistory < batchEnd exchange.leader (firstSent exchange) ∨
    history.length ≤ leaderHistory.length ∧
      exchange.announced ≤ commonLength history leaderHistory

def sourceOf {leader : Node} {history : List LogEntry} (compacted : leader.Compacted history) :
    Source LogEntry where
  history := history
  base := leader.logBaseIndex
  reach := batchEnd leader
  le_reach first above within := by
    have lastIndex := compacted.lastIndex
    have nonempty := compacted.entriesBatch_ne_nil above (within.trans lastIndex.ge) le_rfl
    have := List.length_pos_iff.mpr nonempty
    rw [batchEnd]
    omega
  reach_le first above within := by
    have length := (compacted.entriesBatch above leader.lastLogIndex).length_le
    rw [List.length_drop] at length
    rw [batchEnd]
    omega

def gapOf (history : List LogEntry) (exchange : Exchange) : Gap LogEntry where
  history := history
  base := exchange.follower.logBaseIndex
  next := exchange.leader.nextIndex exchange.follower.id
  matched := exchange.leader.matchIndex exchange.follower.id
  commit := exchange.follower.commitIndex
  announced := exchange.announced

theorem Replicating.repairing {leaderHistory history : List LogEntry} {exchange : Exchange}
    (replicating : Replicating leaderHistory history exchange)
    (aligned : Aligned history leaderHistory) :
    Repairing (sourceOf replicating.leaderLog) (gapOf history exchange) exchange := by
  have lastIndex := replicating.leaderLog.lastIndex
  have bounded := lastIndex ▸ replicating.bounded
  have leading : Leading exchange.leader exchange.follower.id (sourceOf replicating.leaderLog) :=
    ⟨replicating.leads, replicating.present, replicating.durable, replicating.leaderLog, rfl,
      fun _ => rfl⟩
  have held := replicating.committed.trans (agreeThrough_iff.mpr le_rfl).1
  refine ⟨⟨leading, replicating.term_le, replicating.sent⟩, replicating.log, rfl, rfl, ?_, rfl,
    .inl aligned, replicating.base_le.trans replicating.committed, replicating.leaderBase_le,
    replicating.positive, bounded, replicating.base_le, held⟩
  rw [leading.firstToSend rfl replicating.positive]
  exact Nat.min_eq_left bounded

/-- Finitely many exchanges repair the log of the Follower exactly when it is
repaired or they make progress. -/
theorem repair_converges (leaderHistory history : List LogEntry) (exchange : Exchange)
    (replicating : Replicating leaderHistory history exchange)
    (aligned : Aligned history leaderHistory) :
    Eventually Exchange.next Exchange.Repaired exchange ↔
      exchange.Repaired ∨ Exposed leaderHistory history exchange := by
  have repairing := replicating.repairing aligned
  have lastIndex := replicating.leaderLog.lastIndex
  constructor
  · rintro ⟨count, met⟩
    by_contra neither
    rw [not_or, repairing.repaired_iff] at neither
    rcases Gap.repairable_or_stuck replicating.committed neither.1 with repairable | stuck | ahead
    · exact neither.2 ⟨lastIndex ▸ repairable.matched_le, repairable.ends, repairable.readable,
        repairable.exposed⟩
    · exact (Hopeless.stuck repairing aligned.positive stuck).never count met
    · exact (Hopeless.ahead repairing.exchanging ahead).never count met
  · rintro (repaired | exposed)
    · exact ⟨0, repaired⟩
    · have repairable : (gapOf history exchange).Repairable (sourceOf replicating.leaderLog) :=
        ⟨replicating.committed, lastIndex ▸ exposed.matched_le, exposed.readable, exposed.ends,
          exposed.exposed⟩
      refine Eventually.of_rank (fun rank current => ∃ gap : Gap LogEntry,
        Repairing (sourceOf replicating.leaderLog) gap current ∧
          gap.Repairable (sourceOf replicating.leaderLog) ∧
          gap.rank (sourceOf replicating.leaderLog) = rank) ?_ ⟨_, repairing, repairable, rfl⟩
      rintro rank current ⟨before, repairing, repairable, rfl⟩
      rcases repairing.round (.inl repairable.readable) with ⟨after, round, continuing⟩
      rcases repairable.round repairing.placed round with closed | ⟨stillRepairable, falls⟩
      · exact .inl (continuing.repaired_iff.mpr closed)
      · exact .inr ⟨_, falls, after, continuing, stillRepairable, rfl⟩

def noOpAt (index term : Nat) : LogEntry := { index := index, term := term, type := .noOp }

/-- A Leader of the third Term that sends from the end of its log. -/
def partedLeader : Node where
  id := "a"
  peers := ["b", "c"]
  role := .leader
  term := 3
  log := [noOpAt 1 1, noOpAt 2 3]
  lastLogIndex := 2
  lastLogTerm := 3
  durableLogIndex := 2
  nextIndex := fun _ => 3

/-- A Follower that holds an entry of the second Term in its place. -/
def partedFollower : Node where
  id := "b"
  peers := ["a", "c"]
  term := 2
  log := [noOpAt 1 1, noOpAt 2 2]
  lastLogIndex := 2
  lastLogTerm := 2
  durableLogIndex := 2

theorem repair_converges_parted :
    let exchange : Exchange := { leader := partedLeader, follower := partedFollower }
    Replicating partedLeader.log partedFollower.log exchange ∧
      Aligned partedFollower.log partedLeader.log ∧
      Exposed partedLeader.log partedFollower.log exchange ∧
      Eventually Exchange.next Exchange.Repaired exchange := by
  intro exchange
  have aligned : Aligned partedFollower.log partedLeader.log := .of_bounded (by decide)
  have replicating : Replicating partedLeader.log partedFollower.log exchange :=
    ⟨rfl, by decide, by decide, by decide, Node.compacted_of_consecutive (by decide) (by decide),
      Node.compacted_of_consecutive (by decide) (by decide), aligned.logsMatch, by decide,
      by decide, by decide, by decide, by decide, .nothing rfl⟩
  have exposed : Exposed partedLeader.log partedFollower.log exchange :=
    ⟨by decide, by decide, by decide, .inr (.inl (by decide))⟩
  exact ⟨replicating, aligned, exposed,
    (repair_converges _ _ _ replicating aligned).mpr (.inr exposed)⟩

/-! ## A compacted position is probed forever -/

/-- A Leader of the second Term that sends its whole log. -/
def probingLeader : Node where
  id := "a"
  peers := ["b", "c"]
  role := .leader
  term := 2
  log := [noOpAt 1 1, noOpAt 2 1, noOpAt 3 2]
  lastLogIndex := 3
  lastLogTerm := 2
  durableLogIndex := 3
  nextIndex := fun _ => 1

/-- A Follower that compacted the first two entries. -/
def compactedFollower : Node where
  id := "b"
  peers := ["a", "c"]
  term := 1
  lastLogIndex := 2
  lastLogTerm := 1
  durableLogIndex := 2
  logBaseIndex := 2
  logBaseTerm := 1
  commitIndex := 2
  lastApplied := 2
  durableCommitIndex := 2

/-- The entries that the Leader holds, and those that both histories begin with. -/
def probedHistory : List LogEntry := probingLeader.log.take 2

/-- The Leader and the Follower start with a common history, and no number of
exchanges brings the last entry of the Leader to the Follower. -/
theorem repair_repeats_compacted :
    let exchange : Exchange := { leader := probingLeader, follower := compactedFollower }
    Replicating probingLeader.log probedHistory exchange ∧
      ∀ count, ¬(Exchange.next^[count] exchange).Repaired := by
  intro exchange
  have aligned : Aligned probedHistory probingLeader.log := .of_bounded (by decide)
  have replicating : Replicating probingLeader.log probedHistory exchange :=
    ⟨rfl, by decide, by decide, by decide, Node.compacted_of_consecutive (by decide) (by decide),
      Node.compacted_of_consecutive (by decide) (by decide), aligned.logsMatch, by decide,
      by decide, by decide, by decide, by decide, .nothing rfl⟩
  have shorter : probedHistory ≠ probingLeader.log := by decide
  have unclosed : ¬(gapOf probedHistory exchange).Closed (sourceOf replicating.leaderLog) :=
    fun closed => shorter closed.1
  exact ⟨replicating, (Hopeless.stuck (replicating.repairing aligned) aligned.positive
    (.unread (le_refl 2) unclosed)).never⟩

end Ternion.RaftRuntime
