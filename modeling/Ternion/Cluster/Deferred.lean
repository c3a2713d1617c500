import Ternion.Cluster.Basic
import Ternion.Foundation.Transition
import Ternion.Runtime.Step

/-! # A Cluster whose persistence completes late

Three Nodes driven directly through their transitions. The persistence a Node
requests completes in the order of the requests but arbitrarily late, messages
are delayed, duplicated, reordered or dropped, and a Node that crashes restarts
from the last hard state that became durable.
-/

namespace Ternion.Cluster

open Raft RaftRuntime

/-- The hard state an action makes durable. -/
def hardStateOf : Action → Option HardState
  | .persistHardState _ term votedFor => some ⟨term, votedFor⟩
  | _ => none

/-- The Term an action announces to lead. -/
def leaderTerm : Action → Option Nat
  | .becameLeader term => some term
  | _ => none

namespace Deferred

structure Host where
  core : Node
  /-- Persistence that is requested and not completed, oldest first. -/
  outstanding : List Action := []
  /-- Every hard state that became durable, oldest first. -/
  hardStates : List HardState := []

namespace Host

def lastHardState (host : Host) : HardState := host.hardStates.getLastD {}

/-- Step the core, and queue the persistence it asks for. -/
def take (host : Host) (event : Event) : Host × List Action :=
  let result := host.core.step event
  ({ host with
      core := result.1
      outstanding := host.outstanding ++ result.2.filter fun action =>
        (completion action).isSome }, result.2)

/-- The oldest outstanding persistence, with the host on which it is durable. -/
def flush (host : Host) : Option (Action × Host) :=
  match host.outstanding with
  | [] => none
  | action :: rest =>
      some (action, { host with
        outstanding := rest
        hardStates := host.hardStates ++ (hardStateOf action).toList })

/-- Complete the oldest outstanding persistence. -/
def complete (host : Host) : Option (Host × List Action) := do
  let (action, flushed) ← host.flush
  let event ← completion action
  return flushed.take event

/-- Lose what is not durable. The oldest `flushed` requests became durable
although their completion never arrived. -/
def crash (host : Host) (flushed : Nat) : Host :=
  { core := host.core
    hardStates :=
      host.hardStates ++ (host.outstanding.take flushed).filterMap hardStateOf }

def restart (host : Host) (id : NodeID) (peers : List NodeID) (recovered : RecoveredState) :
    Host :=
  { host with core := .newNodeFromRecoveredState id peers recovered }

end Host

structure State where
  hosts : NodeID → Host
  /-- Every message that was ever sent. -/
  network : List Envelope := []
  /-- Every Leader that was announced, with its Term. -/
  elections : List (NodeID × Nat) := []
  /-- The log of the Leader of each Term, as far as it grew while it led. -/
  leaderLogs : Nat → List LogEntry := fun _ => []

inductive Label where
  | deliver (id : NodeID) (event : Event)
  | complete (id : NodeID)
  | crash (id : NodeID) (flushed : Nat) (recovered : RecoveredState)
  deriving DecidableEq

/-- Events that do not arrive as messages of a peer: timers, requests of
clients, failed deliveries, and the Snapshots that a runtime installs. -/
def spontaneous : Event → Bool
  | .electionTimeout => true
  | .heartbeatTimeout => true
  | .checkQuorumTimeout => true
  | .recoverCommitted => true
  | .snapshotCompacted .. => true
  | .proposeSession _ => true
  | .proposeSet _ => true
  | .proposeDelete _ => true
  | .confirmRead _ => true
  | .appendEntriesFailed .. => true
  | .installSnapshot _ => true
  | _ => false

namespace State

/-- Replace a host after a step, and record what the step emitted. -/
def record (state : State) (id : NodeID) (result : Host × List Action) : State where
  hosts := Function.update state.hosts id result.1
  network := state.network ++ result.2.filterMap envelope
  elections := state.elections ++ (result.2.filterMap leaderTerm).map fun term => (id, term)
  leaderLogs :=
    if result.1.core.role = .leader then
      Function.update state.leaderLogs result.1.core.term result.1.core.log
    else state.leaderLogs

def next (membership : Membership) (state : State) : Label → Option State
  | .deliver id event =>
      if id ∈ membership.members ∧ (spontaneous event ∨ ⟨id, event⟩ ∈ state.network) then
        some (state.record id ((state.hosts id).take event))
      else none
  | .complete id =>
      if id ∈ membership.members then (state.hosts id).complete.map (state.record id)
      else none
  | .crash id flushed recovered =>
      let host := (state.hosts id).crash flushed
      if id ∈ membership.members ∧ recovered.hardState = host.lastHardState then
        some { state with
          hosts := Function.update state.hosts id
            (host.restart id (membership.peersOf id) recovered) }
      else none

/-- Every Node starts without a log and without election state. -/
def start (membership : Membership) : State where
  hosts := fun id => { core := .newNodeFromRecoveredState id (membership.peersOf id) {} }

end State

def system (membership : Membership) : System State Label :=
  .ofNext (.start membership) (State.next membership)

theorem step_cases {membership : Membership} {before after : State} {label : Label}
    (taken : (system membership).step before label after) :
    (∃ id event, label = .deliver id event ∧ id ∈ membership.members ∧
      (spontaneous event ∨ ⟨id, event⟩ ∈ before.network) ∧
      after = before.record id ((before.hosts id).take event)) ∨
    (∃ id result, label = .complete id ∧ id ∈ membership.members ∧
      (before.hosts id).complete = some result ∧ after = before.record id result) ∨
    (∃ id flushed recovered, label = .crash id flushed recovered ∧ id ∈ membership.members ∧
      recovered.hardState = ((before.hosts id).crash flushed).lastHardState ∧
      after = { before with
        hosts := Function.update before.hosts id
          (((before.hosts id).crash flushed).restart id (membership.peersOf id) recovered) }) := by
  change State.next membership before label = some after at taken
  cases label with
  | deliver id event =>
      simp only [State.next, Option.ite_none_right_eq_some, Option.some.injEq] at taken
      exact .inl ⟨id, event, rfl, taken.1.1, taken.1.2, taken.2.symm⟩
  | complete id =>
      simp only [State.next, Option.ite_none_right_eq_some, Option.map_eq_some_iff] at taken
      rcases taken with ⟨member, result, completed, rfl⟩
      exact .inr (.inl ⟨id, result, rfl, member, completed, rfl⟩)
  | crash id flushed recovered =>
      simp only [State.next, Option.ite_none_right_eq_some, Option.some.injEq] at taken
      exact .inr (.inr ⟨id, flushed, recovered, rfl, taken.1.1, taken.1.2, taken.2.symm⟩)

theorem flush_cases {host flushed : Host} {action : Action}
    (isFlushed : host.flush = some (action, flushed)) :
    ∃ rest, host.outstanding = action :: rest ∧ flushed = { host with
      outstanding := rest
      hardStates := host.hardStates ++ (hardStateOf action).toList } := by
  unfold Host.flush at isFlushed
  split at isFlushed
  · cases isFlushed
  · rename_i oldest rest pending
    simp only [Option.some.injEq, Prod.mk.injEq] at isFlushed
    rcases isFlushed with ⟨rfl, rfl⟩
    exact ⟨rest, pending, rfl⟩

theorem complete_cases {host : Host} {result : Host × List Action}
    (completed : host.complete = some result) :
    ∃ action flushed event, host.flush = some (action, flushed) ∧
      completion action = some event ∧ result = flushed.take event := by
  simp only [Host.complete, Option.bind_eq_bind, Option.bind_eq_some_iff] at completed
  rcases completed with ⟨⟨action, flushed⟩, isFlushed, event, reported, isResult⟩
  exact ⟨action, flushed, event, isFlushed, reported, (Option.some.inj isResult).symm⟩

/-- `a` is elected with the vote of `b`. -/
def votedRun : List Label :=
  [.deliver "a" .electionTimeout,
    .deliver "b" (.preVoteRequest ⟨"a", 1, 0, 0⟩),
    .deliver "a" (.preVoteResponse ⟨"b", 1, 0, true⟩),
    .complete "a",
    .deliver "b" (.voteRequest ⟨"a", 1, 0, 0⟩),
    .complete "b",
    .deliver "a" (.voteResponse ⟨"b", 1, true⟩)]

end Deferred

end Ternion.Cluster
