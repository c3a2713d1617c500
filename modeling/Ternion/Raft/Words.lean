import Ternion.Raft.Frame

/-! # Counters in 64 bits

The source keeps Terms, positions and identifiers in 64 bits, the model in
natural numbers. In range the two agree, since no number that a step computes is
too large. Beyond it a sum starts again at zero.
-/

namespace Ternion.Raft

/-- The position that a message makes a Node count from. -/
def Event.reach : Event → Nat
  | .appendEntries request => request.prevLogIndex + request.entries.length
  | .appendEntriesResponse response => response.matchIndex
  | .installSnapshotResponse response => response.snapshotIndex
  | _ => 0

namespace Node

/-- A step counts on from these numbers, by two at most and by one for each
request that it sends. -/
def counters (node : Node) (event : Event) : List Nat :=
  [node.term, node.lastLogIndex, node.nextRequestID + node.peers.length,
    node.nextHardStatePersistence, node.nextLogPersistence, node.nextCommitPersistence,
    event.reach]

/-- No number that the step computes needs more than 64 bits. -/
def inRange (node : Node) (event : Event) : Bool :=
  (node.counters event).all fun counter => decide (counter + 2 < 2 ^ 64)

/-! ## Winning an election beyond the range -/

/-- The no-op of a new Leader, with its position in 64 bits. -/
def wrappedNoOp (node : Node) : LogEntry :=
  { node.noOp with index := (node.lastLogIndex + 1) % 2 ^ 64 }

/-- `lead` with its sums in 64 bits. -/
def wrappedLead (node : Node) : Node × List Action :=
  let appended := node.becomeLeader.appendOwnEntry node.wrappedNoOp
  ({ appended.1 with
      nextIndex := fun peer =>
        if peer ∈ appended.1.peers then (appended.1.lastLogIndex + 1) % 2 ^ 64 else 0 },
    [.becameLeader node.term, .resetHeartbeatTimer, .resetCheckQuorumTimer] ++ appended.2)

/-- `handleVoteResponse` with its sums in 64 bits. -/
def wrappedVoteResponse (node : Node) (response : VoteResponse) : Node × List Action :=
  if node.term < response.term then
    (node.becomeFollower response.term "").persistHardState []
  else if node.role ≠ .candidate ∨ response.term ≠ node.term ∨ ¬response.granted then
    (node, [])
  else if (node.recordVote response.sender).votes.card < node.quorum then
    (node.recordVote response.sender, [])
  else (node.recordVote response.sender).wrappedLead

theorem wrappedLead_eq {node : Node} (fits : node.lastLogIndex + 2 < 2 ^ 64) :
    node.wrappedLead = node.lead := by
  have noOp : node.wrappedNoOp = node.noOp := by
    rw [wrappedNoOp, Nat.mod_eq_of_lt (Nat.lt_of_succ_lt fits)]
    rfl
  have next : (node.becomeLeader.appendOwnEntry node.noOp).1.lastLogIndex =
      node.lastLogIndex + 1 := by
    rw [appendOwnEntry, appendEntries_single]
    rfl
  simp only [wrappedLead, lead, startReplication, noOp, next, Nat.mod_eq_of_lt fits]

/-- In range the two agree. -/
theorem wrappedVoteResponse_eq {node : Node} {response : VoteResponse}
    (inRange : node.inRange (.voteResponse response)) :
    node.wrappedVoteResponse response = node.handleVoteResponse response := by
  have fits : node.lastLogIndex + 2 < 2 ^ 64 := by
    simp only [Node.inRange, counters, List.all_cons, Bool.and_eq_true, decide_eq_true_eq]
      at inRange
    exact inRange.2.1
  have same : (node.recordVote response.sender).wrappedLead =
      (node.recordVote response.sender).lead := wrappedLead_eq fits
  rw [wrappedVoteResponse, handleVoteResponse, same]

end Node

end Ternion.Raft
