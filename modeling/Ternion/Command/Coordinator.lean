import Ternion.Foundation.Transition
import Ternion.Session.Machine

/-! # The command coordinator

The replicated Command state and every Client request that waits for a result
of the Raft core. A result channel and the context of a request are named by
numbers; a send to a channel is a `Delivery`.
-/

namespace Ternion.Command

open Raft Session

/-- A channel of capacity one on which a request waits for its result. -/
abbrev Channel := Nat

/-- The context of a request, which may end before the request is answered. -/
abbrev Context := Nat

structure ProposalInput where
  event : Event
  result : Channel
  ctx : Context

structure ReadInput where
  readID : ReadID
  result : Channel
  ctx : Context
  key : String

/-- The messages that the Raft loop passes to the core. -/
inductive RuntimeInput where
  | raftEvent (event : Event)
  | proposal (input : ProposalInput)
  | read (input : ReadInput)

structure PendingProposal where
  result : Channel
  ctx : Context

structure InFlightMutation where
  sequence : Nat := 0
  index : Nat := 0

structure PendingRead where
  result : Channel
  ctx : Context
  key : String

structure ReadResult where
  value : List UInt8 := []
  found : Bool := false
  leaderID : NodeID := ""
  rejected : Bool := false

/-- A result sent to the channel of a request. -/
inductive Delivery where
  | proposal (channel : Channel) (result : ProposalResult)
  | read (channel : Channel) (result : ReadResult)

def Delivery.channel : Delivery → Channel
  | .proposal channel _ => channel
  | .read channel _ => channel

structure Coordinator where
  state : Machine
  pending : Std.ExtTreeMap Nat (List PendingProposal) := ∅
  inFlightMutations : Std.ExtTreeMap SessionID InFlightMutation := ∅
  pendingReads : Std.ExtTreeMap ReadID PendingRead := ∅

def proposedMutation : Event → Option (SessionID × Nat)
  | .proposeSet proposal => some (proposal.sessionID, proposal.sequence)
  | .proposeDelete proposal => some (proposal.sessionID, proposal.sequence)
  | _ => none

def isMutationEntry (entry : LogEntry) : Bool :=
  entry.type = .set || entry.type = .delete

def ProposalInput.waiter (input : ProposalInput) : PendingProposal where
  result := input.result
  ctx := input.ctx

namespace Coordinator

/-- The requests that wait for the entry at an index. -/
def waiters (coordinator : Coordinator) (index : Nat) : List PendingProposal :=
  (coordinator.pending[index]?).getD []

/-- Let a request wait for the entry at an index. -/
def await (coordinator : Coordinator) (index : Nat) (waiter : PendingProposal) : Coordinator :=
  { coordinator with
    pending := coordinator.pending.insert index (coordinator.waiters index ++ [waiter]) }

/-- Drop the requests whose context has ended. -/
def pruneCanceled (coordinator : Coordinator) (ended : Context → Bool) : Coordinator :=
  { coordinator with
    pending := coordinator.pending.filterMap fun _ proposals =>
      match proposals.filter fun proposal => !ended proposal.ctx with
      | [] => none
      | active => some active
    pendingReads := coordinator.pendingReads.filter fun _ read => !ended read.ctx }

/-- The proposal in flight for the same mutation. -/
def duplicated (coordinator : Coordinator) (sessionID : SessionID) (sequence : Nat) :
    Option InFlightMutation :=
  (coordinator.inFlightMutations[sessionID]?).filter fun inFlight => inFlight.sequence = sequence

/-- Either an event for Raft, or the request waits for the proposal in flight,
or it is completed from the replicated state. -/
def beginProposal (coordinator : Coordinator) (input : ProposalInput) :
    Coordinator × Option Event × List Delivery :=
  match proposedMutation input.event with
  | none => (coordinator, some input.event, [])
  | some (sessionID, sequence) =>
      match coordinator.duplicated sessionID sequence with
      | some inFlight => (coordinator.await inFlight.index input.waiter, none, [])
      | none =>
          let (result, shouldPropose) := coordinator.state.evaluateMutation sessionID sequence
          if ¬shouldPropose then (coordinator, none, [.proposal input.result result])
          else (coordinator, some input.event, [])

def beginRead (coordinator : Coordinator) (input : ReadInput) : Coordinator × Event :=
  ({ coordinator with
    pendingReads := coordinator.pendingReads.insert input.readID
      { result := input.result, ctx := input.ctx, key := input.key } },
    .confirmRead input.readID)

/-- The result of a request that another Node has to serve. -/
def rejection (leaderID : NodeID) : ProposalResult where
  sessionID := SessionID.zero
  leaderID := leaderID
  rejected := true

def proposalAccepted (coordinator : Coordinator) (index : Nat) (input : ProposalInput) :
    Coordinator :=
  let waiting := coordinator.await index input.waiter
  match proposedMutation input.event with
  | none => waiting
  | some (sessionID, sequence) =>
      { waiting with
        inFlightMutations := waiting.inFlightMutations.insert sessionID
          { sequence := sequence, index := index } }

def applyEntry (coordinator : Coordinator) (entry : LogEntry) : Coordinator × List Delivery :=
  let (state, result) := coordinator.state.apply entry
  let inFlight := (coordinator.inFlightMutations[entry.sessionID]?).getD {}
  ({ coordinator with
    state := state
    inFlightMutations :=
      if isMutationEntry entry ∧ inFlight.sequence = entry.sequence then
        coordinator.inFlightMutations.erase entry.sessionID
      else coordinator.inFlightMutations
    pending := coordinator.pending.erase entry.index },
    (coordinator.waiters entry.index).map fun proposal => .proposal proposal.result result)

/-- Answer a read and forget it. -/
def completeRead (coordinator : Coordinator) (readID : ReadID) (result : PendingRead → ReadResult) :
    Coordinator × List Delivery :=
  ({ coordinator with pendingReads := coordinator.pendingReads.erase readID },
    (coordinator.pendingReads[readID]?).toList.map fun read => .read read.result (result read))

/-- Consume an action that concerns Commands; any other action is left to the
runtime loop. -/
def handle (coordinator : Coordinator) (action : Action) (current : RuntimeInput) :
    Option (Coordinator × List Delivery) :=
  match action with
  | .proposalAccepted _ index =>
      match current with
      | .proposal input => some (coordinator.proposalAccepted index input, [])
      | _ => some (coordinator, [])
  | .proposalRejected _ leaderID =>
      match current with
      | .proposal input => some (coordinator, [.proposal input.result (rejection leaderID)])
      | _ => some (coordinator, [])
  | .applyEntry entry => some (coordinator.applyEntry entry)
  | .readConfirmed readID _ =>
      some (coordinator.completeRead readID fun read =>
        { value := (coordinator.state.get read.key).getD []
          found := (coordinator.state.get read.key).isSome })
  | .readRejected readID leaderID =>
      some (coordinator.completeRead readID fun _ => { leaderID := leaderID, rejected := true })
  | _ => none

def lostLeadership (coordinator : Coordinator) (leaderID : NodeID) :
    Coordinator × List Delivery :=
  ({ coordinator with pending := ∅, inFlightMutations := ∅, pendingReads := ∅ },
    (coordinator.pending.toList.flatMap fun slot =>
      slot.2.map fun proposal => .proposal proposal.result (rejection leaderID)) ++
    coordinator.pendingReads.toList.map fun slot =>
      .read slot.2.result { leaderID := leaderID, rejected := true })

/-- Handle the actions of one step of the core, in their order. -/
def handleAll (coordinator : Coordinator) (current : RuntimeInput) :
    List Action → Coordinator × List Delivery
  | [] => (coordinator, [])
  | action :: actions =>
      let (handled, deliveries) := (coordinator.handle action current).getD (coordinator, [])
      let (final, more) := handled.handleAll current actions
      (final, deliveries ++ more)

end Coordinator

/-! ## What beginning a proposal can do -/

/-- A request is passed to Raft, waits for the proposal in flight, or is
completed from the replicated state. -/
inductive Begins (coordinator : Coordinator) (input : ProposalInput) :
    Coordinator × Option Event × List Delivery → Prop
  | passed (allowed : ∀ sessionID sequence,
      proposedMutation input.event = some (sessionID, sequence) →
        coordinator.duplicated sessionID sequence = none ∧
        (coordinator.state.evaluateMutation sessionID sequence).2 = true) :
      Begins coordinator input (coordinator, some input.event, [])
  | joined (index : Nat) :
      Begins coordinator input (coordinator.await index input.waiter, none, [])
  | completed (result : ProposalResult) :
      Begins coordinator input (coordinator, none, [.proposal input.result result])

theorem Coordinator.beginProposal_begins (coordinator : Coordinator) (input : ProposalInput) :
    Begins coordinator input (coordinator.beginProposal input) := by
  rw [beginProposal]
  cases isMutation : proposedMutation input.event with
  | none => exact .passed (by simp [isMutation])
  | some mutation =>
      rcases mutation with ⟨sessionID, sequence⟩
      simp only
      cases duplicate : coordinator.duplicated sessionID sequence with
      | some inFlight => exact .joined inFlight.index
      | none =>
          simp only
          split_ifs with shouldPropose
          · apply Begins.passed
            rintro _ _ same
            cases isMutation.symm.trans same
            exact ⟨duplicate, shouldPropose⟩
          · exact .completed _

/-! ## The calls of the run loop -/

/-- The core's answer to a proposal. -/
def isReply : Action → Bool
  | .proposalAccepted _ _ => true
  | .proposalRejected _ _ => true
  | _ => false

/-- The mutations that a step of the core took into its log. -/
def acceptedMutations (input : ProposalInput) (actions : List Action) : List (SessionID × Nat) :=
  actions.filterMap fun action =>
    match action with
    | .proposalAccepted _ _ => proposedMutation input.event
    | _ => none

/-- The coordinator, with everything it was asked and has answered. -/
structure Loop where
  commands : Coordinator
  delivered : List Delivery := []
  /-- The requests begun so far. -/
  requests : List PendingProposal := []
  /-- The identifiers of the reads begun so far. -/
  reads : List ReadID := []
  /-- The contexts that have ended. -/
  cancelled : List Context := []
  /-- The mutations taken into the log since leadership was last lost. -/
  accepted : List (SessionID × Nat) := []

/-- One thing that happens to the coordinator. The actions are those that the
core emits for the event that was passed to it. -/
inductive Call where
  | cancel (ctx : Context)
  | pruneCanceled
  | proposal (input : ProposalInput) (actions : List Action)
  | read (input : ReadInput) (actions : List Action)
  | raftEvent (event : Event) (actions : List Action)
  | lostLeadership (leaderID : NodeID)
  | restore (state : Snapshot.State)

namespace Loop

/-- A channel on which no request waits yet. -/
def unused (loop : Loop) (channel : Channel) : Bool :=
  !(loop.requests.map fun request => request.result).contains channel

/-- Pass the actions of a step to the coordinator. -/
def settle (loop : Loop) (begun : Coordinator) (current : RuntimeInput) (actions : List Action) :
    Loop :=
  let (commands, deliveries) := begun.handleAll current actions
  { loop with commands := commands, delivered := loop.delivered ++ deliveries }

/-- Every request has a channel of its own and every read its own identifier,
and the core answers a proposal once, in the step that it is proposed in. -/
def next (loop : Loop) : Call → Option Loop
  | .cancel ctx => some { loop with cancelled := ctx :: loop.cancelled }
  | .pruneCanceled =>
      some { loop with commands := loop.commands.pruneCanceled loop.cancelled.contains }
  | .proposal input actions =>
      if loop.unused input.result then
        let asked := { loop with requests := input.waiter :: loop.requests }
        match loop.commands.beginProposal input with
        | (commands, none, deliveries) =>
            some { asked with commands := commands, delivered := loop.delivered ++ deliveries }
        | (commands, some _, _) =>
            if actions.countP isReply = 1 then
              some { asked.settle commands (.proposal input) actions with
                accepted := loop.accepted ++ acceptedMutations input actions }
            else none
      else none
  | .read input actions =>
      if loop.unused input.result ∧ input.readID ∉ loop.reads then
        let asked := { loop with
          requests := { result := input.result, ctx := input.ctx } :: loop.requests
          reads := input.readID :: loop.reads }
        some (asked.settle (loop.commands.beginRead input).1 (.read input) actions)
      else none
  | .raftEvent event actions => some (loop.settle loop.commands (.raftEvent event) actions)
  | .lostLeadership leaderID =>
      let (commands, deliveries) := loop.commands.lostLeadership leaderID
      some { loop with
        commands := commands
        delivered := loop.delivered ++ deliveries
        accepted := [] }
  | .restore state =>
      match loop.commands.state.restore (some state) with
      | .ok restored => some { loop with commands := { loop.commands with state := restored } }
      | .error _ => none

theorem next_proposal {loop after : Loop} {input : ProposalInput} {actions : List Action}
    (taken : loop.next (.proposal input actions) = some after) :
    loop.unused input.result = true ∧ ∃ begun event deliveries,
      loop.commands.beginProposal input = (begun, event, deliveries) ∧
      ((event = none ∧ after = { loop with
        requests := input.waiter :: loop.requests
        commands := begun
        delivered := loop.delivered ++ deliveries }) ∨
      (event.isSome ∧ actions.countP isReply = 1 ∧ after = { loop with
        requests := input.waiter :: loop.requests
        commands := (begun.handleAll (.proposal input) actions).1
        delivered := loop.delivered ++ (begun.handleAll (.proposal input) actions).2
        accepted := loop.accepted ++ acceptedMutations input actions })) := by
  rw [next] at taken
  by_cases unused : loop.unused input.result = true
  · rw [if_pos unused] at taken
    rcases begins : loop.commands.beginProposal input with ⟨begun, event, deliveries⟩
    refine ⟨unused, begun, event, deliveries, rfl, ?_⟩
    rw [begins] at taken
    cases event with
    | none => exact .inl ⟨rfl, (Option.some.inj taken).symm⟩
    | some event =>
        simp only [settle] at taken
        split_ifs at taken with replied
        exact .inr ⟨rfl, replied, (Option.some.inj taken).symm⟩
  · rw [if_neg unused] at taken
    cases taken

/-- The run loop of a Node that starts with the given replicated state. -/
def system (state : Machine) : System Loop Call :=
  .ofNext { commands := { state := state } } next

end Loop

end Ternion.Command
