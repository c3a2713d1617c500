import Ternion.Raft.Course

/-! # The office of a Node

The role of a Node, its Term and whether it heard from a Leader since its last
election timeout change in few ways. `Turns` lists them, and every transition of
the core is one of them.
-/

namespace Ternion.Raft

structure Office where
  role : Role
  term : Nat
  recentLeaderContact : Bool
  deriving DecidableEq

namespace Node

def office (node : Node) : Office where
  role := node.role
  term := node.term
  recentLeaderContact := node.recentLeaderContact

/-- The office of a Node after a transition. -/
inductive Turns (node : Node) : Event → Office → Prop
  | same {event : Event} : Turns node event node.office
  | follows {event : Event} {leader : NodeID} {term : Nat} : event.leader = some leader →
      event.carries = some term → node.term ≤ term → Turns node event ⟨.follower, term, true⟩
  | deposed {event : Event} {term : Nat} : event.carries = some term → node.term < term →
      Turns node event ⟨.follower, term, false⟩
  | unsupported : node.role = .leader → node.activePeers.card + 1 < node.quorum →
      Turns node .checkQuorumTimeout ⟨.follower, node.term, false⟩
  | probes : node.role ≠ .leader → Turns node .electionTimeout ⟨.preCandidate, node.term, false⟩
  | campaignsAlone : node.quorum = 1 →
      Turns node .electionTimeout ⟨.candidate, node.term + 1, false⟩
  | campaigns {response : PreVoteResponse} : node.role = .preCandidate →
      response.term = node.term + 1 → response.granted = true →
      Turns node (.preVoteResponse response) ⟨.candidate, node.term + 1, node.recentLeaderContact⟩
  | wins {response : VoteResponse} : node.role = .candidate →
      Turns node (.voteResponse response) ⟨.leader, node.term, node.recentLeaderContact⟩

/-! ## Every transition -/

variable {node middle : Node} {event : Event}

theorem Furthers.office (furthers : Furthers node middle) : middle.office = node.office := by
  rcases furthers with ⟨_, _, rfl⟩
  rfl

theorem persistTermChange_office (changed : Bool) (result : Node × List Action) :
    (persistTermChange changed result).1.office = result.1.office := by
  rw [persistTermChange]
  split_ifs <;> rfl

theorem acceptLeader_office {term : Nat} (notOlder : node.term ≤ term) (leader : NodeID) :
    (node.acceptLeader term leader).office = ⟨.follower, term, true⟩ := by
  have reached := acceptLeader_term notOlder leader
  rcases node.acceptLeader_frame term leader with ⟨_, _, _, _, _, _, _, _, _, _, frame⟩
  rw [frame] at reached ⊢
  rw [office, Office.mk.injEq]
  exact ⟨rfl, reached, rfl⟩

theorem Reach.turns {delayed : Bool} (reach : Reach event node middle delayed) :
    node.Turns event middle.office := by
  cases reach with
  | stays => exact .same
  | accepts isLeader carried notOlder =>
      rw [acceptLeader_office notOlder]
      exact .follows isLeader carried notOlder
  | deposed _ carried newer => exact .deposed carried newer
  | resigns isTimeout leads few =>
      subst isTimeout
      exact .unsupported leads few

theorem Ballots.turns {leading actions : List Action} {delayed : Bool}
    (ballots : Ballots node event leading middle actions delayed) :
    node.Turns event middle.office := by
  cases ballots with
  | probes follows => exact .probes follows
  | campaignsAlone alone => exact .campaignsAlone alone
  | campaigns probed current granted => exact .campaigns probed current granted
  | grants reached =>
      rcases reached with ⟨rfl, _⟩ | ⟨rfl, newer⟩
      · exact .same
      · exact .deposed rfl newer
  | repeats => exact .same
  | counts => exact .same

/-- Every transition changes the office in one of the listed ways. -/
theorem step_turns (node : Node) (event : Event) :
    node.Turns event (node.step event).1.office := by
  have course := node.step_course event
  generalize node.step event = result at course ⊢
  cases course with
  | acts _ reach body =>
      rw [persistTermChange_office, body.furthers.office]
      exact reach.turns
  | votes ballots =>
      dsimp only
      rw [persistTermChange_office]
      exact ballots.turns
  | @wins response contends =>
      have leads : (node.recordVote response.sender).lead.1.office =
          ⟨.leader, node.term, node.recentLeaderContact⟩ :=
        ((node.recordVote response.sender).becomeLeader.appendOwnEntry_furthers _).office
      rw [leads]
      exact .wins contends
  | ignored => exact .same
  | released => exact .same
  | written _ body =>
      rw [body.furthers.office]
      exact .same
  | completed _ isApplied =>
      rw [isApplied, (applyThrough_furthers _ _).office]
      exact .same

end Node

end Ternion.Raft
