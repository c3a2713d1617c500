import Ternion.Cluster.Tracking

/-! # Moves of a tracked Node

Each move of the protocol together with the change it makes to the Node that
makes it. The handlers of the core are composed of these changes.
-/

namespace Ternion.Cluster

open Consensus Raft

def Undisturbed (ledger after : Ledger NodeID LogEntry) (term : Nat) : Prop :=
  after.leader term = ledger.leader term ∧ after.leaderLog term = ledger.leaderLog term

/-- A Node changed its view from `current` to `next` while the ledger moved.
Only a Node that leads writes the log of a Leader, that of its own Term. -/
structure Moved (membership : Membership) (ledger : Ledger NodeID LogEntry) (current : View)
    (after : Ledger NodeID LogEntry) (next : View) : Prop where
  moves : membership.protocol.Moves current.id ledger after
  sane : Sane membership after
  tracks : Tracks membership after next
  sameID : next.id = current.id
  written : ∀ term, Undisturbed ledger after term ∨ next.role = .leader ∧ next.term = term

variable {membership : Membership} {ledger after : Ledger NodeID LogEntry}
  {current next : View}

namespace Moved

theorem advance (moved : Moved membership ledger current after next)
    (sane : Sane membership ledger) : Advance current.id ledger after :=
  (Protocol.Moves.coherent moved.moves sane.coherent).2

theorem still (sane : Sane membership ledger) (tracks : Tracks membership ledger next)
    (sameID : next.id = current.id) : Moved membership ledger current ledger next where
  moves := .refl
  sane := sane
  tracks := tracks
  sameID := sameID
  written := fun _ => .inl ⟨rfl, rfl⟩

theorem trans {last : View} {final : Ledger NodeID LogEntry}
    (first : Moved membership ledger current after next)
    (unwritten : ∀ term, Undisturbed ledger after term)
    (second : Moved membership after next final last) :
    Moved membership ledger current final last where
  moves := first.moves.trans (first.sameID ▸ second.moves)
  sane := second.sane
  tracks := second.tracks
  sameID := second.sameID.trans first.sameID
  written := fun term => (second.written term).imp_left fun same =>
    ⟨same.1.trans (unwritten term).1, same.2.trans (unwritten term).2⟩

section

variable (moved : Moved membership ledger current after next) (sane : Sane membership ledger)
  (tracks : Tracks membership ledger current)

include moved sane tracks

theorem term_le :
    current.term ≤ next.term := by
  have rises := (moved.advance sane).term_le
  rwa [tracks.term, ← moved.sameID, moved.tracks.term] at rises

theorem keeps_agreement
    (sameTerm : next.term = current.term) (led : ledger.leader current.term ≠ none) {index : Nat}
    (agree : AgreeThrough current.log (ledger.leaderLog current.term) index) :
    AgreeThrough next.log (after.leaderLog current.term) index := by
  have afterTerm : after.term current.id = ledger.term current.id := by
    rw [tracks.term, ← moved.sameID, moved.tracks.term, sameTerm]
  rw [← tracks.term] at led agree ⊢
  rw [← tracks.log] at agree
  have kept := Protocol.Moves.keeps_agreement moved.moves sane.coherent afterTerm led agree
  rwa [← moved.sameID, moved.tracks.log, moved.sameID] at kept

end

theorem then_ {last : View} (moved : Moved membership ledger current after next)
    (tracks : Tracks membership after last) (sameID : last.id = next.id)
    (sameRole : last.role = next.role) (sameTerm : last.term = next.term) :
    Moved membership ledger current after last where
  moves := moved.moves
  sane := moved.sane
  tracks := tracks
  sameID := sameID.trans moved.sameID
  written := by
    rw [sameRole, sameTerm]
    exact moved.written

end Moved

theorem Sane.initial (membership : Membership) : Sane membership Ledger.initial where
  coherent := Coherent.initial membership.protocol
  indexed := by simp [Ledger.initial]

/-- A move that leaves the logs of the Leaders as they were, or writes the log of
the Node that leads. -/
theorem Sane.moved (sane : Sane membership ledger)
    (move : membership.protocol.Move current.id ledger after) (sameID : next.id = current.id)
    (written : ∀ term, Undisturbed ledger after term ∨
      (next.role = .leader ∧ next.term = term) ∧ Indexed (after.leaderLog term))
    (tracks : Advance current.id ledger after → Tracks membership after next) :
    Moved membership ledger current after next where
  moves := .single move
  sane := by
    refine ⟨move.coherent sane.coherent, fun {term} led => ?_⟩
    rcases written term with ⟨sameLeader, sameLog⟩ | ⟨_, indexed⟩
    · rw [sameLog]
      exact sane.indexed (sameLeader ▸ led)
    · exact indexed
  tracks := tracks (move.advance sane.coherent)
  sameID := sameID
  written := fun term => (written term).imp_right And.left

namespace Tracks

section

variable (tracks : Tracks membership ledger current) (sane : Sane membership ledger)

include tracks sane

theorem raise {term : Nat} (newer : current.term < term) :
    Moved membership ledger current (ledger.raiseTerm current.id term)
      { current with term := term, votedFor := "", role := .follower, votes := ∅ } := by
  have move : membership.protocol.Move current.id ledger (ledger.raiseTerm current.id term) :=
    .raiseTerm (by rw [tracks.term]; omega)
  have fresh : ledger.vote current.id term = none := by
    by_contra cast
    rcases Option.ne_none_iff_exists'.mp cast with ⟨chosen, cast⟩
    have bounded := sane.coherent.voteTerm cast
    rw [tracks.term] at bounded
    omega
  exact sane.moved move rfl (fun _ => .inl ⟨rfl, rfl⟩) fun advance => { tracks with
    term := by simp [Ledger.raiseTerm]
    vote := fresh
    candidate := fun active => by cases active
    leader := fun active => by cases active
    pendingHardState := (tracks.promises advance).1
    pendingCommit := (tracks.promises advance).2 }

theorem campaign :
    Moved membership ledger current (ledger.campaign current.id)
      { current with
        role := .candidate
        term := current.term + 1
        votedFor := current.id
        votes := {current.id} } := by
  have move : membership.protocol.Move current.id ledger (ledger.campaign current.id) :=
    .campaign
  have notLeader : ledger.leader (current.term + 1) ≠ some current.id := by
    intro led
    rcases sane.coherent.leaderShape led with ⟨requested, _, ran, _⟩
    have bounded := (sane.coherent.candidateTerm ran).2
    rw [tracks.term] at bounded
    omega
  exact sane.moved move rfl (fun _ => .inl ⟨rfl, rfl⟩) fun advance => { tracks with
    term := by simp [Ledger.campaign, tracks.term]
    vote := by
      simp [Ledger.campaign, tracks.term, membership.member_ne_empty tracks.member]
    candidate := fun _ => by
      refine ⟨by simp [Ledger.campaign, tracks.term, tracks.log], notLeader, ?_⟩
      intro voter counted
      rw [Finset.mem_singleton.mp counted]
      exact ⟨tracks.member, by simp [Ledger.campaign, tracks.term]⟩
    leader := fun active => by cases active
    pendingHardState := (tracks.promises advance).1
    pendingCommit := (tracks.promises advance).2 }

theorem castVote {candidate : NodeID} {requested : List LogEntry} (free : current.votedFor = "")
    (named : candidate ≠ "")
    (ran : ledger.candidateLog candidate current.term = some requested)
    (upToDate : UpToDate LogEntry.term requested current.log) :
    Moved membership ledger current (ledger.castVote current.id candidate)
      { current with votedFor := candidate } := by
  have move : membership.protocol.Move current.id ledger
      (ledger.castVote current.id candidate) := by
    have fresh : ledger.vote current.id (ledger.term current.id) = none := by
      rw [tracks.term, tracks.vote, if_pos free]
    have asked : ledger.candidateLog candidate (ledger.term current.id) = some requested := by
      rw [tracks.term]
      exact ran
    refine .castVote fresh asked ?_
    rw [tracks.log]
    exact upToDate
  exact sane.moved move rfl (fun _ => .inl ⟨rfl, rfl⟩) fun advance => { tracks with
    vote := by simp [Ledger.castVote, tracks.term, named]
    candidate := fun running => by
      rcases tracks.candidate running with ⟨ran, notLeader, votes⟩
      exact ⟨ran, notLeader, fun voter counted =>
        ⟨(votes voter counted).1, advance.vote_kept (votes voter counted).2⟩⟩
    pendingHardState := (tracks.promises advance).1
    pendingCommit := (tracks.promises advance).2 }

theorem elect (running : current.role = .candidate) (quorum : membership.Quorum current.votes)
    (entry : LogEntry) (entryIndex : entry.index = current.lastLogIndex + 1)
    (entryTerm : entry.term = current.term) :
    Moved membership ledger current (ledger.elect current.id current.votes entry)
      { current.setLog (current.log ++ [entry]) with role := .leader } := by
  rcases tracks.candidate running with ⟨ran, notLeader, votes⟩
  have vacant : ledger.leader current.term = none := by
    by_contra led
    rcases Option.ne_none_iff_exists'.mp led with ⟨leader, isLeader⟩
    have same := sane.coherent.leader_unique quorum
      (fun voter counted => (votes voter counted).2) isLeader
    exact notLeader (same ▸ isLeader)
  have move : membership.protocol.Move current.id ledger
      (ledger.elect current.id current.votes entry) := by
    refine .elect ?_ ?_ quorum ?_ ?_
    · rw [tracks.term]
      exact vacant
    · rw [tracks.term, tracks.log]
      exact ran
    · rw [tracks.term]
      exact fun voter counted => (votes voter counted).2
    · rw [tracks.term]
      exact entryTerm
  have indexed : Indexed (current.log ++ [entry]) :=
    tracks.whole.indexed.snoc (by rw [entryIndex, tracks.whole.lastIndex])
  refine sane.moved move rfl (fun term => ?_) fun advance => { tracks with
    whole := ⟨tracks.whole.base, tracks.whole.baseTerm, indexed, rfl, rfl⟩
    log := by simp [Ledger.elect, View.setLog, tracks.log]
    candidate := fun active => by cases active
    leader := fun _ => by simp [Ledger.elect, View.setLog, tracks.term, tracks.log]
    pendingHardState := (tracks.promises advance).1
    pendingCommit := (tracks.promises advance).2 }
  by_cases same : term = current.term
  · refine .inr ⟨⟨rfl, same.symm⟩, ?_⟩
    simpa [Ledger.elect, tracks.term, tracks.log, same] using indexed
  · left
    simp [Undisturbed, Ledger.elect, tracks.term, Function.update_of_ne same]

theorem append (leading : current.role = .leader) (entry : LogEntry)
    (entryIndex : entry.index = current.lastLogIndex + 1)
    (entryTerm : entry.term = current.term) :
    Moved membership ledger current (ledger.append current.id entry)
      (current.setLog (current.log ++ [entry])) := by
  rcases tracks.leader leading with ⟨led, sameLog⟩
  have move : membership.protocol.Move current.id ledger (ledger.append current.id entry) := by
    refine .append ?_ ?_ ?_
    · rw [tracks.term]
      exact led
    · rw [tracks.term, tracks.log]
      exact sameLog
    · rw [tracks.term]
      exact entryTerm
  have indexed : Indexed (current.log ++ [entry]) :=
    tracks.whole.indexed.snoc (by rw [entryIndex, tracks.whole.lastIndex])
  refine sane.moved move rfl (fun term => ?_) fun advance => { tracks with
    whole := ⟨tracks.whole.base, tracks.whole.baseTerm, indexed, rfl, rfl⟩
    log := by simp [Ledger.append, View.setLog, tracks.log]
    candidate := fun running => by cases leading.symm.trans running
    leader := fun _ => ⟨led, by simp [Ledger.append, View.setLog, tracks.term, tracks.log]⟩
    pendingHardState := (tracks.promises advance).1
    pendingCommit := (tracks.promises advance).2 }
  by_cases same : term = current.term
  · refine .inr ⟨⟨leading, same.symm⟩, ?_⟩
    simpa [Ledger.append, tracks.term, tracks.log, same] using indexed
  · left
    simp [Undisturbed, Ledger.append, tracks.term, Function.update_of_ne same]

theorem follow (following : current.role = .follower) (led : ledger.leader current.term ≠ none)
    {count : Nat}
    (keeps : ∀ index, AgreeThrough current.log (ledger.leaderLog current.term) index →
      index ≤ count) :
    Moved membership ledger current (ledger.follow current.id count)
      (current.setLog ((ledger.leaderLog current.term).take count)) := by
  have move : membership.protocol.Move current.id ledger (ledger.follow current.id count) := by
    refine .follow ?_ ?_
    · rw [tracks.term]
      exact led
    · rw [tracks.term, tracks.log]
      exact keeps
  exact sane.moved move rfl (fun _ => .inl ⟨rfl, rfl⟩) fun advance => { tracks with
    whole := ⟨tracks.whole.base, tracks.whole.baseTerm, (sane.indexed led).take count, rfl, rfl⟩
    log := by simp [Ledger.follow, View.setLog, tracks.term]
    candidate := fun running => by cases following.symm.trans running
    leader := fun leading => by cases following.symm.trans leading
    pendingHardState := (tracks.promises advance).1
    pendingCommit := (tracks.promises advance).2 }

/-! ## What a tracked Node knows -/

theorem logsMatch {term : Nat} (led : ledger.leader term ≠ none) :
    Node.LogsMatch current.log (ledger.leaderLog term) := by
  intro index positive inLog inLeader sameTerm
  have matched := sane.coherent.logMatched current.id
  rw [tracks.log] at matched
  have logFound := List.getElem?_eq_getElem (show index - 1 < current.log.length by omega)
  have leaderFound := List.getElem?_eq_getElem
    (show index - 1 < (ledger.leaderLog term).length by omega)
  rw [entryTerm_found positive logFound, entryTerm_found positive leaderFound] at sameTerm
  have agree := matched.agree (sane.coherent.leaderLog_matched led) logFound leaderFound sameTerm
  rwa [Nat.sub_add_cancel positive] at agree

end

theorem intake {node : Node} (tracks : Tracks membership ledger (view node))
    (sane : Sane membership ledger) {request : AppendEntries}
    (genuine : Genuine membership ledger node.id (.appendEntries request))
    (matched : node.matchesAt request.prevLogIndex request.prevLogTerm) :
    Node.Intake node.log (ledger.leaderLog request.term) node.commitIndex
      (request.prevLogIndex + request.entries.length)
      (node.entriesToAppend request.prevLogIndex request.entries) := by
  rcases genuine with ⟨leader, segment⟩
  have led : ledger.leader request.term ≠ none := by simp [leader]
  have whole : node.Whole := tracks.whole
  have logsMatch := tracks.logsMatch sane led
  rw [segment.term] at matched
  have agree := whole.matchesAt logsMatch segment.within matched
  exact whole.entriesToAppend (sane.indexed led) logsMatch agree segment.leading

theorem supplies {node : Node} (tracks : Tracks membership ledger (view node))
    (leading : node.role = .leader) {action : Action} (supplied : node.Supplies action) :
    Sound membership ledger action := by
  rcases tracks.leader leading with ⟨led, sameLog⟩
  cases supplied with
  | snapshot => exact .of_local rfl
  | entries peer requestID readID _ =>
      intro sent isSent
      have shape := Option.some.inj isSent
      subst shape
      have whole : node.Whole := tracks.whole
      have segment : Segment node.log (node.firstToSend peer - 1)
          (node.termAt (node.firstToSend peer - 1))
          (node.entriesBatch (node.firstToSend peer) node.durableLastIndex) := {
        within := by
          have durable := node.firstToSend_le peer
          have := whole.lastIndex
          simp only [Node.durableLastIndex] at durable
          omega
        term := whole.termAt _
        leading := whole.entriesBatch _ _ }
      exact ⟨led, sameLog ▸ segment⟩

end Tracks

end Ternion.Cluster
