import Ternion.Consensus.Commitment
import Ternion.Raft.Step

/-! # A Cluster of three Nodes

The static membership, the quorums it defines and the messages Nodes exchange.
-/

namespace Ternion.Cluster

open Consensus Raft

/-- The membership every Node is configured with: exactly three distinct,
named Nodes. -/
structure Membership where
  members : List NodeID
  distinct : members.Nodup
  three : members.length = 3
  named : "" ∉ members

namespace Membership

/-- The peers a Node is started with, which exclude the Node itself. -/
def peersOf (membership : Membership) (id : NodeID) : List NodeID :=
  membership.members.erase id

theorem member_ne_empty (membership : Membership) {id : NodeID}
    (member : id ∈ membership.members) : id ≠ "" := by
  rintro rfl
  exact membership.named member

theorem length_peersOf (membership : Membership) {id : NodeID}
    (member : id ∈ membership.members) : (membership.peersOf id).length = 2 := by
  simp [peersOf, List.length_erase_of_mem member, membership.three]

theorem mem_peersOf (membership : Membership) {id peer : NodeID} :
    peer ∈ membership.peersOf id ↔ peer ≠ id ∧ peer ∈ membership.members := by
  rw [peersOf, membership.distinct.mem_erase_iff]

/-- Two members are a quorum of three. -/
def Quorum (membership : Membership) (voters : Finset NodeID) : Prop :=
  (∀ voter ∈ voters, voter ∈ membership.members) ∧ 2 ≤ voters.card

theorem quorums_meet (membership : Membership) {left right : Finset NodeID}
    (leftQuorum : membership.Quorum left) (rightQuorum : membership.Quorum right) :
    ∃ member, member ∈ left ∧ member ∈ right := by
  have inside : left ∪ right ⊆ membership.members.toFinset := by
    intro voter inUnion
    rw [List.mem_toFinset]
    rcases Finset.mem_union.mp inUnion with inLeft | inRight
    · exact leftQuorum.1 voter inLeft
    · exact rightQuorum.1 voter inRight
  have bound := Finset.card_le_card inside
  rw [List.toFinset_card_of_nodup membership.distinct, membership.three] at bound
  have counted := Finset.card_union_add_card_inter left right
  have overlap : 0 < (left ∩ right).card := by
    have := leftQuorum.2
    have := rightQuorum.2
    omega
  rcases Finset.card_pos.mp overlap with ⟨member, inBoth⟩
  exact ⟨member, Finset.mem_inter.mp inBoth⟩

/-- The replication protocol among the members. -/
def protocol (membership : Membership) : Protocol NodeID LogEntry where
  termOf := LogEntry.term
  Quorum := membership.Quorum
  quorums_meet := membership.quorums_meet

end Membership

/-- The Cluster of the concrete runs below. -/
def trio : Membership where
  members := ["a", "b", "c"]
  distinct := by decide
  three := rfl
  named := by decide

/-! ## Messages -/

/-- A message on its way to a Node. The network may lose, delay, duplicate and
reorder envelopes, so one that was ever sent can be delivered at any time. -/
structure Envelope where
  receiver : NodeID
  message : Event
  deriving DecidableEq

/-- The message an action sends. The transport loads the data of a Snapshot
chunk itself, so that action alone determines no message. -/
def envelope : Action → Option Envelope
  | .sendPreVoteRequest receiver request => some ⟨receiver, .preVoteRequest request⟩
  | .sendPreVoteResponse receiver response => some ⟨receiver, .preVoteResponse response⟩
  | .sendVoteRequest receiver request => some ⟨receiver, .voteRequest request⟩
  | .sendVoteResponse receiver response => some ⟨receiver, .voteResponse response⟩
  | .sendAppendEntries receiver request => some ⟨receiver, .appendEntries request⟩
  | .sendAppendEntriesResponse receiver response =>
      some ⟨receiver, .appendEntriesResponse response⟩
  | .sendInstallSnapshotResponse receiver response =>
      some ⟨receiver, .installSnapshotResponse response⟩
  | _ => none

/-- The events that arrive from a peer. -/
def isMessage : Event → Bool
  | .preVoteRequest _ => true
  | .preVoteResponse _ => true
  | .voteRequest _ => true
  | .voteResponse _ => true
  | .appendEntries _ => true
  | .appendEntriesResponse _ => true
  | .installSnapshot _ => true
  | .installSnapshotResponse _ => true
  | _ => false

theorem envelope_isMessage {action : Action} {sent : Envelope}
    (sends : envelope action = some sent) :
    isMessage sent.message := by
  cases action <;> cases sends <;> rfl

end Ternion.Cluster
