import Ternion.Cluster.Basic
import Ternion.Foundation.Transition
import Ternion.Runtime.Step

/-! # A Cluster in production

Three Nodes that execute the runtime step. Whatever a step persists is durable
before the next event is delivered. A Node may crash between any two durable
writes, and restarts from exactly what it had written. Messages are delayed,
duplicated, reordered or dropped, and nothing is compacted.
-/

namespace Ternion.Cluster.Production

open Raft RaftRuntime

structure Host where
  core : Node
  store : Store := {}
  /-- What this process emitted, oldest first. -/
  emitted : List Action := []
  /-- The reads this process was asked to confirm, each with the commit index
  that every Node had then. -/
  reads : List (ReadID × (NodeID → Nat)) := []

/-- A Leader committed its log up to the end of `entries`. -/
structure Commitment where
  term : Nat
  entries : List LogEntry
  deriving DecidableEq

structure State where
  hosts : NodeID → Host
  /-- Every message that was ever sent, oldest first. -/
  network : List Envelope := []
  /-- Every entry that any Node ever applied. -/
  applied : List LogEntry := []
  commitments : List Commitment := []

/-- What arrives at a Node: a message that was sent earlier, or an event of the
Node's own. -/
inductive Input where
  | message (position : Nat)
  | event (id : NodeID) (event : Event)
  deriving DecidableEq

inductive Label where
  | step (input : Input) (budget : Nat)
  /-- The Node crashes after the first `count` writes of a step. -/
  | crash (input : Input) (budget count : Nat)
  deriving DecidableEq

/-- Events that do not arrive as messages of a peer: timers, requests of
clients and failed deliveries. -/
def spontaneous : Event → Bool
  | .electionTimeout => true
  | .heartbeatTimeout => true
  | .checkQuorumTimeout => true
  | .recoverCommitted => true
  | .proposeSession _ => true
  | .proposeSet _ => true
  | .proposeDelete _ => true
  | .confirmRead _ => true
  | .appendEntriesFailed .. => true
  | _ => false

def appliedEntry : Action → Option LogEntry
  | .applyEntry entry => some entry
  | _ => none

/-- The commitment of a Leader whose commit index advanced. -/
def commitment (before after : Node) : Option Commitment :=
  if after.role = .leader ∧ before.commitIndex < after.commitIndex then
    some ⟨after.term, after.log.take after.commitIndex⟩
  else none

def restart (membership : Membership) (id : NodeID) (store : Store) : Host where
  core := .newNodeFromRecoveredState id (membership.peersOf id) store.recovered
  store := store

def Host.step (host : Host) (event : Event) (commitIndexes : NodeID → Nat) (outcome : Outcome) :
    Host where
  core := outcome.core
  store := host.store.writeAll outcome.writes
  emitted := host.emitted ++ outcome.emitted
  reads :=
    match event with
    | .confirmRead readID => host.reads ++ [(readID, commitIndexes)]
    | _ => host.reads

namespace State

def commitIndexes (state : State) (id : NodeID) : Nat := (state.hosts id).core.commitIndex

/-- The Node an input reaches, and the event it delivers. -/
def input (membership : Membership) (state : State) : Input → Option (NodeID × Event)
  | .message position =>
      state.network[position]?.bind fun sent =>
        if sent.receiver ∈ membership.members then some (sent.receiver, sent.message) else none
  | .event id event =>
      if id ∈ membership.members ∧ spontaneous event then some (id, event) else none

/-- A step that ran to its end. -/
def complete (state : State) (id : NodeID) (event : Event) (outcome : Outcome) : State where
  hosts := Function.update state.hosts id
    ((state.hosts id).step event state.commitIndexes outcome)
  network := state.network ++ outcome.emitted.filterMap envelope
  applied := state.applied ++ outcome.emitted.filterMap appliedEntry
  commitments := state.commitments ++ (commitment (state.hosts id).core outcome.core).toList

/-- A step that a crash ended after `count` writes, before it emitted anything. -/
def interrupt (membership : Membership) (state : State) (id : NodeID) (outcome : Outcome)
    (count : Nat) : State :=
  { state with
    hosts := Function.update state.hosts id
      (restart membership id ((state.hosts id).store.writeAll (outcome.writes.take count)))
    commitments := state.commitments ++ (commitment (state.hosts id).core outcome.core).toList }

def next (membership : Membership) (state : State) : Label → Option State
  | .step input budget =>
      (state.input membership input).bind fun (id, event) =>
        (RaftRuntime.step budget (state.hosts id).core event).map fun outcome =>
          state.complete id event outcome
  | .crash input budget count =>
      (state.input membership input).bind fun (id, event) =>
        (RaftRuntime.step budget (state.hosts id).core event).map fun outcome =>
          state.interrupt membership id outcome count

/-- Every Node starts with an empty store. -/
def start (membership : Membership) : State where
  hosts := fun id => restart membership id {}

end State

def system (membership : Membership) : System State Label :=
  .ofNext (.start membership) (State.next membership)

theorem input_cases {membership : Membership} {state : State} {input : Input} {id : NodeID}
    {event : Event} (arrives : state.input membership input = some (id, event)) :
    id ∈ membership.members ∧ (spontaneous event ∨ ⟨id, event⟩ ∈ state.network) := by
  cases input with
  | message position =>
      simp only [State.input, Option.bind_eq_some_iff, Option.ite_none_right_eq_some,
        Option.some.injEq, Prod.mk.injEq] at arrives
      rcases arrives with ⟨sent, found, member, rfl, rfl⟩
      exact ⟨member, .inr (List.mem_of_getElem? found)⟩
  | event own ownEvent =>
      simp only [State.input, Option.ite_none_right_eq_some, Option.some.injEq,
        Prod.mk.injEq] at arrives
      rcases arrives with ⟨⟨member, isSpontaneous⟩, rfl, rfl⟩
      exact ⟨member, .inl isSpontaneous⟩

/-- The input of a step, whether it ends or not. -/
def Label.input : Label → Input
  | .step input _ => input
  | .crash input _ _ => input

theorem step_cases {membership : Membership} {before after : State} {label : Label}
    (taken : (system membership).step before label after) :
    ∃ id event budget outcome, before.input membership label.input = some (id, event) ∧
      RaftRuntime.step budget (before.hosts id).core event = some outcome ∧
      (after = before.complete id event outcome ∨
        ∃ count, after = before.interrupt membership id outcome count) := by
  change State.next membership before label = some after at taken
  cases label with
  | step input budget =>
      simp only [State.next, Option.bind_eq_some_iff, Option.map_eq_some_iff] at taken
      rcases taken with ⟨⟨id, event⟩, arrives, outcome, stepped, rfl⟩
      exact ⟨id, event, budget, outcome, arrives, stepped, .inl rfl⟩
  | crash input budget count =>
      simp only [State.next, Option.bind_eq_some_iff, Option.map_eq_some_iff] at taken
      rcases taken with ⟨⟨id, event⟩, arrives, outcome, stepped, rfl⟩
      exact ⟨id, event, budget, outcome, arrives, stepped, .inr ⟨count, rfl⟩⟩

end Ternion.Cluster.Production
