import Ternion.Command.Coordinator
import Ternion.Session.Transparency

/-! # One log entry per logical mutation

While a Node leads, no mutation is taken into its log twice. A mutation that
was taken is in flight until an entry with its sequence is applied, and from
then on the session has gone past it.
-/

namespace Ternion.Command

open Raft Session

variable {action : Action} {current : RuntimeInput} {input : ProposalInput} {actions : List Action}

/-! ## Sessions that went past a sequence -/

def Passed (machine : Machine) (id : SessionID) (sequence : Nat) : Prop :=
  ∃ record, machine.sessions[id]? = some record ∧
    (sequence ≤ record.lastSequence ∨ record.state = .permanentlyClosed)

def Reached (machine : Machine) (id : SessionID) (sequence : Nat) : Prop :=
  ∃ record, machine.sessions[id]? = some record ∧ sequence ≤ record.lastSequence + 1

section Sessions

variable {machine : Machine} {id : SessionID} {sequence : Nat}

theorem Passed.apply (passed : Passed machine id sequence) (entry : LogEntry) :
    Passed (machine.apply entry).1 id sequence := by
  rcases passed with ⟨record, found, passes⟩
  rcases Machine.apply_known entry found with ⟨later, foundLater, increased, stays⟩
  exact ⟨later, foundLater, passes.imp (fun reached => Nat.le_trans reached increased) stays⟩

theorem Reached.apply (reached : Reached machine id sequence) (entry : LogEntry) :
    Reached (machine.apply entry).1 id sequence := by
  rcases reached with ⟨record, found, bound⟩
  rcases Machine.apply_known entry found with ⟨later, foundLater, increased, _⟩
  exact ⟨later, foundLater, by omega⟩

theorem Reached.passes {entry : LogEntry} (isMutation : isMutationEntry entry = true)
    (reached : Reached machine entry.sessionID entry.sequence) :
    Passed (machine.apply entry).1 entry.sessionID entry.sequence := by
  rcases reached with ⟨record, found, bound⟩
  by_cases beyond : entry.sequence ≤ record.lastSequence
  · exact Passed.apply ⟨record, found, .inl beyond⟩ entry
  · cases state : record.state with
    | permanentlyClosed => exact Passed.apply ⟨record, found, .inr state⟩ entry
    | active =>
        have next : entry.sequence = record.lastSequence + 1 := by omega
        have notStale : ¬record.lastSequence + 1 < record.lastSequence := by omega
        have effective : machine.effective entry = true := by
          simp only [Machine.effective, Machine.evaluateMutation, found, state, next]
          simpa [isMutationEntry, notStale] using isMutation
        rcases Machine.Cached.of_effective effective with ⟨later, foundLater, _, last, _⟩
        exact ⟨later, foundLater, .inl (Nat.le_of_eq last.symm)⟩

end Sessions

/-! ## The guard of the coordinator -/

/-- Every mutation that was taken into the log is still in flight, or its
session has gone past it. What is in flight is next in its session. -/
structure Guards (coordinator : Coordinator) (accepted : List (SessionID × Nat)) : Prop where
  taken : ∀ id sequence, (id, sequence) ∈ accepted → Passed coordinator.state id sequence ∨
    ∃ inFlight, coordinator.inFlightMutations[id]? = some inFlight ∧ inFlight.sequence = sequence
  inFlight : ∀ id inFlight, coordinator.inFlightMutations[id]? = some inFlight →
    Reached coordinator.state id inFlight.sequence

/-- A mutation that may be taken: its session has gone past those taken before. -/
structure Ready (coordinator : Coordinator) (accepted : List (SessionID × Nat)) (id : SessionID)
    (sequence : Nat) : Prop where
  passed : ∀ earlier, (id, earlier) ∈ accepted → Passed coordinator.state id earlier
  reached : Reached coordinator.state id sequence

section Coordinator

variable {coordinator : Coordinator} {accepted : List (SessionID × Nat)}

theorem Guards.applyEntry (guards : Guards coordinator accepted) (entry : LogEntry) :
    Guards (coordinator.applyEntry entry).1 accepted where
  taken := by
    intro id sequence present
    simp only [Coordinator.applyEntry]
    rcases guards.taken id sequence present with passed | ⟨inFlight, found, isSequence⟩
    · exact .inl (passed.apply entry)
    · split_ifs with clears
      · by_cases same : entry.sessionID = id
        · -- The entry with the sequence in flight takes its session past it.
          subst same
          rw [found, Option.getD_some, isSequence] at clears
          left
          rw [clears.2]
          apply Reached.passes clears.1
          rw [← clears.2, ← isSequence]
          exact guards.inFlight _ _ found
        · refine .inr ⟨inFlight, ?_, isSequence⟩
          rw [Std.ExtTreeMap.getElem?_erase, if_neg]
          · exact found
          · exact fun equal => same (Std.LawfulEqCmp.eq_of_compare equal)
      · exact .inr ⟨inFlight, found, isSequence⟩
  inFlight := by
    intro id inFlight found
    simp only [Coordinator.applyEntry] at found ⊢
    apply Reached.apply
    apply guards.inFlight id
    split_ifs at found
    · rw [Std.ExtTreeMap.getElem?_erase] at found
      split_ifs at found
      exact found
    · exact found

theorem Ready.applyEntry {id : SessionID} {sequence : Nat}
    (ready : Ready coordinator accepted id sequence) (entry : LogEntry) :
    Ready (coordinator.applyEntry entry).1 accepted id sequence where
  passed := fun earlier present => (ready.passed earlier present).apply entry
  reached := ready.reached.apply entry

/-- An action that takes no mutation into the log. -/
def takes (current : RuntimeInput) (action : Action) : Bool :=
  match current, action with
  | .proposal _, .proposalAccepted _ _ => true
  | _, _ => false

theorem handle_state (coordinator : Coordinator) (quiet : takes current action = false) :
    let handled := ((coordinator.handle action current).getD (coordinator, [])).1
    (handled.state = coordinator.state ∧
      handled.inFlightMutations = coordinator.inFlightMutations) ∨
    ∃ entry, handled = (coordinator.applyEntry entry).1 := by
  cases action with
  | applyEntry entry => exact .inr ⟨entry, rfl⟩
  | proposalAccepted proposalID index =>
      cases current with
      | proposal input => cases quiet
      | _ => exact .inl ⟨rfl, rfl⟩
  | proposalRejected proposalID leaderID => cases current <;> exact .inl ⟨rfl, rfl⟩
  | _ => exact .inl ⟨rfl, rfl⟩

theorem Guards.handle (guards : Guards coordinator accepted)
    (quiet : takes current action = false) :
    Guards ((coordinator.handle action current).getD (coordinator, [])).1 accepted := by
  rcases handle_state coordinator quiet with ⟨state, inFlight⟩ | ⟨entry, applied⟩
  · constructor
    · rw [state, inFlight]
      exact guards.taken
    · rw [state, inFlight]
      exact guards.inFlight
  · rw [applied]
    exact guards.applyEntry entry

theorem Ready.handle {id : SessionID} {sequence : Nat}
    (ready : Ready coordinator accepted id sequence) (quiet : takes current action = false) :
    Ready ((coordinator.handle action current).getD (coordinator, [])).1 accepted id sequence := by
  rcases handle_state coordinator quiet with ⟨state, _⟩ | ⟨entry, applied⟩
  · constructor
    · rw [state]
      exact ready.passed
    · rw [state]
      exact ready.reached
  · rw [applied]
    exact ready.applyEntry entry

theorem Guards.proposalAccepted (index : Nat) (guards : Guards coordinator accepted)
    (ready : ∀ id sequence, proposedMutation input.event = some (id, sequence) →
      Ready coordinator accepted id sequence) :
    Guards (coordinator.proposalAccepted index input)
      (accepted ++ (proposedMutation input.event).toList) := by
  rw [Coordinator.proposalAccepted]
  cases isMutation : proposedMutation input.event with
  | none =>
      rw [Option.toList_none, List.append_nil]
      exact ⟨guards.taken, guards.inFlight⟩
  | some mutation =>
      rcases mutation with ⟨id, sequence⟩
      have ready := ready id sequence isMutation
      constructor
      · intro other earlier present
        rcases List.mem_append.mp present with before | isNew
        · by_cases same : other = id
          · subst same
            exact .inl (ready.passed earlier before)
          · rcases guards.taken other earlier before with passed | ⟨inFlight, found, isEarlier⟩
            · exact .inl passed
            · refine .inr ⟨inFlight, ?_, isEarlier⟩
              rw [Std.ExtTreeMap.getElem?_insert, if_neg]
              · exact found
              · exact fun equal => same (Std.LawfulEqCmp.eq_of_compare equal).symm
        · cases List.mem_singleton.mp isNew
          exact .inr ⟨_, Std.ExtTreeMap.getElem?_insert_self, rfl⟩
      · intro other inFlight found
        rw [Std.ExtTreeMap.getElem?_insert] at found
        split_ifs at found with same
        · rw [← Std.LawfulEqCmp.eq_of_compare same, ← Option.some.inj found]
          exact ready.reached
        · exact guards.inFlight other inFlight found

theorem Guards.handleAll_quiet (guards : Guards coordinator accepted)
    (quiet : ∀ action ∈ actions, takes current action = false) :
    Guards (coordinator.handleAll current actions).1 accepted := by
  induction actions generalizing coordinator with
  | nil => exact guards
  | cons action actions induction =>
      rw [List.forall_mem_cons] at quiet
      exact induction (guards.handle quiet.1) quiet.2

theorem isReply_of_takes (taken : takes current action = true) : isReply action = true := by
  cases action with
  | proposalAccepted proposalID index => rfl
  | _ => cases current <;> cases taken

theorem acceptedMutations_quiet (quiet : ∀ action ∈ actions,
    takes (.proposal input) action = false) :
    acceptedMutations input actions = [] := by
  apply List.filterMap_eq_nil_iff.mpr
  intro action present
  cases action with
  | proposalAccepted proposalID index => cases quiet _ present
  | _ => rfl

/-- The actions of a step that replies once take the proposed mutation at most
once. -/
theorem Guards.handleAll (guards : Guards coordinator accepted)
    (ready : ∀ id sequence, proposedMutation input.event = some (id, sequence) →
      Ready coordinator accepted id sequence) (replied : actions.countP isReply ≤ 1) :
    Guards (coordinator.handleAll (.proposal input) actions).1
        (accepted ++ acceptedMutations input actions) ∧
      (acceptedMutations input actions = [] ∨
        acceptedMutations input actions = (proposedMutation input.event).toList) := by
  induction actions generalizing coordinator with
  | nil =>
      rw [acceptedMutations, List.filterMap_nil, List.append_nil]
      exact ⟨guards, .inl rfl⟩
  | cons action actions induction =>
      rw [List.countP_cons] at replied
      cases taken : takes (.proposal input) action with
      | false =>
          have rest := induction (guards.handle taken)
            (fun id sequence isMutation => (ready id sequence isMutation).handle taken)
            (Nat.le_trans (Nat.le_add_right ..) replied)
          have same : acceptedMutations input (action :: actions) =
              acceptedMutations input actions := by
            rw [acceptedMutations, List.filterMap_cons_none]
            · rfl
            · cases action with
              | proposalAccepted proposalID index => cases taken
              | _ => rfl
          rw [same]
          exact rest
      | true =>
          have silent : ∀ later ∈ actions, takes (.proposal input) later = false := by
            intro later present
            rw [← Bool.not_eq_true]
            intro takesLater
            have positive := List.countP_pos_iff.mpr
              ⟨later, present, isReply_of_takes takesLater⟩
            rw [if_pos (isReply_of_takes taken)] at replied
            omega
          cases action with
          | proposalAccepted proposalID index =>
              have accepts := guards.proposalAccepted index ready
              have none_ := acceptedMutations_quiet silent
              have same : acceptedMutations input (.proposalAccepted proposalID index :: actions) =
                  (proposedMutation input.event).toList := by
                rw [acceptedMutations] at none_ ⊢
                rw [List.filterMap_cons, none_]
                cases proposedMutation input.event <;> rfl
              rw [same]
              exact ⟨accepts.handleAll_quiet silent, .inr rfl⟩
          | _ => cases taken

end Coordinator

/-! ## One leadership -/

namespace Loop

/-- The calls of an uninterrupted leadership. The loop also restores a received
Snapshot before the core has seen its Term; this call is not considered here. -/
def inLeadership (_ : Loop) : Call → Bool
  | .lostLeadership _ => false
  | .restore _ => false
  | _ => true

structure Deduplicated (loop : Loop) : Prop where
  guards : Guards loop.commands loop.accepted
  distinct : loop.accepted.Nodup

variable {loop after : Loop}

section

variable (deduplicated : loop.Deduplicated)

include deduplicated

theorem Deduplicated.ready {id : SessionID} {sequence : Nat}
    (single : loop.commands.duplicated id sequence = none)
    (allowed : (loop.commands.state.evaluateMutation id sequence).2 = true) :
    (id, sequence) ∉ loop.accepted ∧ Ready loop.commands loop.accepted id sequence := by
  rcases (Machine.evaluateMutation_next allowed).1 with ⟨record, found, active, next⟩
  have notClosed : record.state ≠ .permanentlyClosed := by
    rw [active]
    decide
  have passes : ∀ earlier, (id, earlier) ∈ loop.accepted → earlier ≤ record.lastSequence := by
    intro earlier present
    rcases deduplicated.guards.taken id earlier present with
      ⟨other, foundOther, passed | closed⟩ | ⟨inFlight, flies, isEarlier⟩
    · exact (Option.some.inj (found.symm.trans foundOther)) ▸ passed
    · exact absurd closed ((Option.some.inj (found.symm.trans foundOther)) ▸ notClosed)
    · -- Another mutation in flight is not the next one, so the session is past it.
      rcases deduplicated.guards.inFlight id inFlight flies with ⟨other, foundOther, bound⟩
      cases Option.some.inj (found.symm.trans foundOther)
      have different : inFlight.sequence ≠ sequence := by
        intro same
        simp [Coordinator.duplicated, flies, same] at single
      omega
  refine ⟨?_, ?_, ?_⟩
  · intro present
    have := passes sequence present
    omega
  · exact fun earlier present => ⟨record, found, .inl (passes earlier present)⟩
  · exact ⟨record, found, Nat.le_of_eq next⟩

theorem Deduplicated.proposal (taken : loop.next (.proposal input actions) = some after) :
    after.Deduplicated := by
  rcases next_proposal taken with ⟨_, begun, event, deliveries, begins, outcome⟩
  have begun_ := loop.commands.beginProposal_begins input
  rw [begins] at begun_
  rcases outcome with ⟨isNone, isAfter⟩ | ⟨passes, replied, isAfter⟩
  · subst isAfter
    cases begun_ with
    | passed => cases isNone
    | joined index =>
        exact ⟨⟨deduplicated.guards.taken, deduplicated.guards.inFlight⟩, deduplicated.distinct⟩
    | completed result => exact ⟨deduplicated.guards, deduplicated.distinct⟩
  · subst isAfter
    cases begun_ with
    | passed allowed =>
        have ready : ∀ id sequence, proposedMutation input.event = some (id, sequence) →
            (id, sequence) ∉ loop.accepted ∧ Ready loop.commands loop.accepted id sequence :=
          fun id sequence isMutation => deduplicated.ready
            (allowed id sequence isMutation).1 (allowed id sequence isMutation).2
        rcases deduplicated.guards.handleAll
          (fun id sequence isMutation => (ready id sequence isMutation).2)
          (Nat.le_of_eq replied) with ⟨guards, none_ | one⟩
        · refine ⟨guards, ?_⟩
          simp only [none_, List.append_nil]
          exact deduplicated.distinct
        · refine ⟨guards, ?_⟩
          simp only [one]
          cases isMutation : proposedMutation input.event with
          | none =>
              rw [Option.toList_none, List.append_nil]
              exact deduplicated.distinct
          | some mutation =>
              apply List.nodup_append.mpr
                ⟨deduplicated.distinct, List.nodup_singleton _, ?_⟩
              intro earlier present other isNew same
              rw [List.mem_singleton.mp isNew] at same
              exact (ready mutation.1 mutation.2 isMutation).1 (same ▸ present)
    | joined => cases passes
    | completed => cases passes

theorem Deduplicated.settle {begun : Coordinator} (guards : Guards begun loop.accepted)
    (quiet : ∀ action, takes current action = false) (actions : List Action) :
    (loop.settle begun current actions).Deduplicated :=
  ⟨guards.handleAll_quiet fun action _ => quiet action, deduplicated.distinct⟩

theorem Deduplicated.next {call : Call}
    (leads : inLeadership loop call = true) (taken : loop.next call = some after) :
    after.Deduplicated := by
  cases call with
  | cancel ctx =>
      rw [← Option.some.inj taken]
      exact ⟨deduplicated.guards, deduplicated.distinct⟩
  | pruneCanceled =>
      rw [← Option.some.inj taken]
      exact ⟨⟨deduplicated.guards.taken, deduplicated.guards.inFlight⟩, deduplicated.distinct⟩
  | proposal input actions => exact deduplicated.proposal taken
  | read input actions =>
      rw [Loop.next] at taken
      split_ifs at taken
      rw [← Option.some.inj taken]
      have asked : Deduplicated { loop with
          requests := { result := input.result, ctx := input.ctx } :: loop.requests
          reads := input.readID :: loop.reads } :=
        ⟨deduplicated.guards, deduplicated.distinct⟩
      have quiet : ∀ action, takes (.read input) action = false := fun _ => rfl
      have begun : Guards (loop.commands.beginRead input).1 loop.accepted :=
        ⟨deduplicated.guards.taken, deduplicated.guards.inFlight⟩
      exact asked.settle begun quiet actions
  | raftEvent event actions =>
      rw [← Option.some.inj taken]
      exact deduplicated.settle deduplicated.guards (fun _ => rfl) actions
  | lostLeadership leaderID => cases leads
  | restore state => cases leads

end

/-- During one leadership no mutation is taken into the log twice. -/
theorem accepted_once {state : Machine}
    (reachable : (system state).Reachable (fun loop call => inLeadership loop call) loop) :
    loop.accepted.Nodup := by
  have deduplicated : loop.Deduplicated := by
    apply reachable.invariant Deduplicated
    · intro start isStart
      rw [isStart]
      refine ⟨⟨?_, ?_⟩, List.nodup_nil⟩
      · exact fun _ _ present => absurd present List.not_mem_nil
      · intro id inFlight found
        simp at found
    · intro before call after deduplicated leads taken
      exact deduplicated.next leads taken
  exact deduplicated.distinct

/-- A mutation is retried while it is in flight, after an inherited entry with
its sequence was applied, and after its own entry was applied. -/
def retriedMutation : List Call :=
  let set : Event := .proposeSet
    { proposalID := 1, sessionID := SessionID.zero, sequence := 1, key := "a", value := [7] }
  let entry (index term : Nat) : LogEntry :=
    { index := index, term := term, type := .set, sequence := 1, key := "a", value := [7] }
  [.raftEvent .recoverCommitted
      [.applyEntry { index := 1, term := 1, type := .openSession }],
    .proposal { event := set, result := 1, ctx := 1 } [.proposalAccepted 1 4],
    .cancel 1,
    .pruneCanceled,
    .proposal { event := set, result := 2, ctx := 2 } [],
    .raftEvent .heartbeatTimeout [.applyEntry (entry 2 1)],
    .proposal { event := set, result := 3, ctx := 3 } [],
    .raftEvent .heartbeatTimeout [.applyEntry (entry 4 2)],
    .proposal { event := set, result := 4, ctx := 4 } []]

theorem accepted_once_retried :
    ∃ loop, (system { limit := 1 }).Reachable (fun loop call => inLeadership loop call) loop ∧
      loop.accepted = [(SessionID.zero, 1)] ∧ loop.accepted.Nodup := by
  have run : (System.execute Loop.next inLeadership retriedMutation
      { commands := { state := { limit := 1 } } }).map (fun loop => loop.accepted) =
        some [(SessionID.zero, 1)] := by
    decide +kernel
  rcases System.reachable_of_execute (fun _ _ => id) run with
    ⟨loop, reachable, accepted⟩
  exact ⟨loop, reachable, accepted, accepted_once reachable⟩

end Loop

end Ternion.Command
