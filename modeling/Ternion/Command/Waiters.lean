import Ternion.Command.Coordinator
import Ternion.Foundation.Desk
import Ternion.Foundation.Maps
import Ternion.Raft.Frame
import Ternion.Runtime.Synchronous

/-! # Every waiter is answered exactly once

The coordinator keeps its waiting requests as a desk does: a request stands in
the slot of one index or of one read, and leaves it with its only answer or
because its context ended.
-/

namespace Ternion.Command

open Raft Session

variable {input : ProposalInput}

inductive Slot where
  | index (index : Nat)
  | read (readID : ReadID)
  deriving DecidableEq

def PendingRead.waiter (read : PendingRead) : PendingProposal where
  result := read.result
  ctx := read.ctx

namespace Coordinator

variable {coordinator : Coordinator} {delivered : List Delivery}

def standing (coordinator : Coordinator) : Slot → List PendingProposal
  | .index index => coordinator.waiters index
  | .read readID => (coordinator.pendingReads[readID]?).toList.map PendingRead.waiter

/-- The channels on which requests wait in a slot. -/
def waiting (coordinator : Coordinator) (slot : Slot) : List Channel :=
  (coordinator.standing slot).map fun waiter => waiter.result

def desk (coordinator : Coordinator) (delivered : List Delivery) : Desk Slot Channel where
  slots := coordinator.waiting
  answered := delivered.map Delivery.channel

/-! ## What the operations do at the desk -/

theorem await_waiters (index other : Nat) (waiter : PendingProposal) :
    (coordinator.await index waiter).waiters other =
      if index = other then coordinator.waiters index ++ [waiter]
      else coordinator.waiters other := by
  simp only [waiters, await, Std.ExtTreeMap.getElem?_insert, Nat.compare_eq_eq]
  split_ifs <;> rfl

theorem await_standing (index : Nat) (waiter : PendingProposal) (slot : Slot) :
    (coordinator.await index waiter).standing slot =
      if slot = .index index then coordinator.waiters index ++ [waiter]
      else coordinator.standing slot := by
  cases slot with
  | index other =>
      simp only [standing, await_waiters, Slot.index.injEq]
      by_cases same : index = other
      · rw [if_pos same, if_pos same.symm]
      · rw [if_neg same, if_neg (Ne.symm same)]
  | read readID => rfl

theorem waiting_update {after : Coordinator} {slot : Slot} {waiters : List PendingProposal}
    (changed : ∀ other, after.standing other =
      if other = slot then waiters else coordinator.standing other) :
    after.waiting =
      Function.update coordinator.waiting slot (waiters.map fun waiter => waiter.result) := by
  funext other
  rw [waiting, changed]
  by_cases same : other = slot
  · rw [if_pos same, same, Function.update_self]
  · rw [if_neg same, Function.update_of_ne same]
    rfl

theorem await_desk (index : Nat) (waiter : PendingProposal) :
    (coordinator.await index waiter).desk delivered =
      (coordinator.desk delivered).register (.index index) waiter.result := by
  rw [desk, Desk.register, waiting_update (await_standing index waiter), List.map_append]
  rfl

theorem beginRead_standing (input : ReadInput) (slot : Slot) :
    (coordinator.beginRead input).1.standing slot =
      if slot = .read input.readID then [{ result := input.result, ctx := input.ctx }]
      else coordinator.standing slot := by
  cases slot with
  | index index => rfl
  | read readID =>
      simp only [standing, beginRead, Std.ExtTreeMap.getElem?_insert, Nat.compare_eq_eq,
        Slot.read.injEq]
      by_cases same : input.readID = readID
      · rw [if_pos same, if_pos same.symm]
        rfl
      · rw [if_neg same, if_neg (Ne.symm same)]

theorem beginRead_desk {input : ReadInput}
    (fresh : coordinator.pendingReads[input.readID]? = none) :
    (coordinator.beginRead input).1.desk delivered =
      (coordinator.desk delivered).register (.read input.readID) input.result := by
  have empty : coordinator.waiting (.read input.readID) = [] := by
    simp [waiting, standing, fresh]
  rw [desk, Desk.register, waiting_update (beginRead_standing input)]
  simp only [desk, empty, List.nil_append, List.map_cons, List.map_nil]

theorem applyEntry_standing (entry : LogEntry) (slot : Slot) :
    (coordinator.applyEntry entry).1.standing slot =
      if slot = .index entry.index then [] else coordinator.standing slot := by
  cases slot with
  | index index =>
      simp only [standing, waiters, applyEntry, Std.ExtTreeMap.getElem?_erase, Nat.compare_eq_eq,
        Slot.index.injEq]
      by_cases same : entry.index = index
      · rw [if_pos same, if_pos same.symm]
        rfl
      · rw [if_neg same, if_neg (Ne.symm same)]
  | read readID => rfl

theorem applyEntry_desk (entry : LogEntry) :
    (coordinator.applyEntry entry).1.desk (delivered ++ (coordinator.applyEntry entry).2) =
      (coordinator.desk delivered).serve (.index entry.index) := by
  have answers : (coordinator.applyEntry entry).2.map Delivery.channel =
      coordinator.waiting (.index entry.index) := by
    simp [applyEntry, waiting, standing, Delivery.channel, Function.comp_def]
  rw [desk, Desk.serve, waiting_update (applyEntry_standing entry), List.map_append, answers]
  rfl

theorem completeRead_standing (readID : ReadID) (result : PendingRead → ReadResult)
    (slot : Slot) :
    (coordinator.completeRead readID result).1.standing slot =
      if slot = .read readID then [] else coordinator.standing slot := by
  cases slot with
  | index index => rfl
  | read other =>
      simp only [standing, completeRead, Std.ExtTreeMap.getElem?_erase, Nat.compare_eq_eq,
        Slot.read.injEq]
      by_cases same : readID = other
      · rw [if_pos same, if_pos same.symm]
        rfl
      · rw [if_neg same, if_neg (Ne.symm same)]

theorem completeRead_desk (readID : ReadID) (result : PendingRead → ReadResult) :
    (coordinator.completeRead readID result).1.desk
        (delivered ++ (coordinator.completeRead readID result).2) =
      (coordinator.desk delivered).serve (.read readID) := by
  have answers : (coordinator.completeRead readID result).2.map Delivery.channel =
      coordinator.waiting (.read readID) := by
    simp [completeRead, waiting, standing, Delivery.channel, PendingRead.waiter,
      Function.comp_def]
  rw [desk, Desk.serve, waiting_update (completeRead_standing readID result), List.map_append,
    answers]
  rfl

theorem proposalAccepted_standing (index : Nat) (input : ProposalInput) :
    (coordinator.proposalAccepted index input).standing =
      (coordinator.await index input.waiter).standing := by
  funext slot
  rw [proposalAccepted]
  cases proposedMutation input.event with
  | none => rfl
  | some mutation => cases slot <;> rfl

theorem pruneCanceled_standing (ended : Context → Bool) (slot : Slot) :
    (coordinator.pruneCanceled ended).standing slot =
      (coordinator.standing slot).filter fun waiter => !ended waiter.ctx := by
  cases slot with
  | index index =>
      simp only [standing, waiters, pruneCanceled, Std.ExtTreeMap.getElem?_filterMap']
      cases coordinator.pending[index]? with
      | none => rfl
      | some proposals =>
          simp only [Option.bind_some, Option.getD_some]
          cases proposals.filter fun proposal => !ended proposal.ctx <;> rfl
  | read readID =>
      simp only [standing, pruneCanceled, Std.ExtTreeMap.getElem?_filter']
      cases coordinator.pendingReads[readID]? with
      | none => rfl
      | some read =>
          cases isEnded : ended read.ctx <;>
            simp [Option.filter, PendingRead.waiter, isEnded]

end Coordinator

/-! ## One action -/

/-- What a step of the coordinator may change: it answers waiters or lets
newcomers wait, and nobody else appears or disappears. -/
structure Settles (before : Coordinator) (earlier : List Delivery) (after : Coordinator)
    (later : List Delivery) (newcomers : List PendingProposal) : Prop where
  once : (after.desk later).Once
  known : ∀ channel, (after.desk later).Known channel ↔
    (before.desk earlier).Known channel ∨ ∃ waiter ∈ newcomers, waiter.result = channel
  standing : ∀ slot, ∀ waiter ∈ after.standing slot,
    waiter ∈ before.standing slot ∨ waiter ∈ newcomers
  reads : ∀ readID : ReadID, (after.pendingReads[readID]?).isSome →
    (before.pendingReads[readID]?).isSome

def newcomers (current : RuntimeInput) (action : Action) : List PendingProposal :=
  match current with
  | .proposal input => if isReply action then [input.waiter] else []
  | _ => []

theorem isReply_of_newcomer {current : RuntimeInput} {action : Action} {waiter : PendingProposal}
    (isNew : waiter ∈ newcomers current action) : isReply action = true := by
  cases current with
  | proposal input =>
      rw [newcomers] at isNew
      split_ifs at isNew with replies
      · exact replies
      · cases isNew
  | raftEvent event => cases isNew
  | read input => cases isNew

namespace Settles

variable {before after : Coordinator} {earlier later : List Delivery}
  {first second : List PendingProposal}

theorem refl (once : (before.desk earlier).Once) : Settles before earlier before earlier [] where
  once := once
  known := fun _ => by simp
  standing := fun _ _ present => .inl present
  reads := fun _ present => present

theorem trans {middle : Coordinator} {between : List Delivery}
    (one : Settles before earlier middle between first)
    (two : Settles middle between after later second) :
    Settles before earlier after later (first ++ second) where
  once := two.once
  known := by
    intro channel
    rw [two.known, one.known]
    simp only [List.mem_append, or_and_right, exists_or, or_assoc]
  standing := by
    intro slot waiter present
    rcases two.standing slot waiter present with stood | isNew
    · rcases one.standing slot waiter stood with stoodBefore | isNew
      · exact .inl stoodBefore
      · exact .inr (List.mem_append_left _ isNew)
    · exact .inr (List.mem_append_right _ isNew)
  reads := fun readID present => one.reads readID (two.reads readID present)

section

variable (once : (before.desk earlier).Once)

include once

theorem served {slot : Slot} (isServed : after.desk later = (before.desk earlier).serve slot)
    (standing : ∀ other, after.standing other =
      if other = slot then [] else before.standing other)
    (reads : ∀ readID : ReadID, (after.pendingReads[readID]?).isSome →
      (before.pendingReads[readID]?).isSome) :
    Settles before earlier after later [] where
  once := isServed ▸ once.serve slot
  known := by
    intro channel
    rw [isServed, Desk.known_serve]
    simp
  standing := by
    intro other waiter present
    rw [standing] at present
    split_ifs at present
    · cases present
    · exact .inl present
  reads := reads

theorem applyEntry (entry : LogEntry) :
    Settles before earlier (before.applyEntry entry).1
      (earlier ++ (before.applyEntry entry).2) [] :=
  served once (Coordinator.applyEntry_desk entry) (Coordinator.applyEntry_standing entry)
    fun _ present => present

theorem completeRead (readID : ReadID) (result : PendingRead → ReadResult) :
    Settles before earlier (before.completeRead readID result).1
      (earlier ++ (before.completeRead readID result).2) [] := by
  apply served once (Coordinator.completeRead_desk readID result)
    (Coordinator.completeRead_standing readID result)
  intro other present
  simp only [Coordinator.completeRead, Std.ExtTreeMap.getElem?_erase] at present
  split_ifs at present
  · cases present
  · exact present

section

variable {waiter : PendingProposal} (fresh : ¬(before.desk earlier).Known waiter.result)

include fresh

theorem await (index : Nat) :
    Settles before earlier (before.await index waiter) earlier [waiter] where
  once := Coordinator.await_desk index waiter ▸ once.register _ fresh
  known := by
    intro channel
    rw [Coordinator.await_desk]
    constructor
    · intro known
      rcases Desk.of_known_register known with before | isNew
      · exact .inl before
      · exact .inr ⟨waiter, List.mem_singleton_self _, isNew.symm⟩
    · rintro (known | ⟨newcomer, isWaiter, isChannel⟩)
      · exact known.register ..
      · rw [← isChannel, List.mem_singleton.mp isWaiter]
        exact Desk.known_register ..
  standing := by
    intro slot stands present
    rw [Coordinator.await_standing] at present
    split_ifs at present with same
    · rw [same]
      exact List.mem_append.mp present
    · exact .inl present
  reads := fun _ present => present

theorem answered (result : ProposalResult) :
    Settles before earlier before (earlier ++ [.proposal waiter.result result]) [waiter] := by
  have isAnswered : before.desk (earlier ++ [.proposal waiter.result result]) =
      (before.desk earlier).answer waiter.result := by
    rw [Coordinator.desk, List.map_append]
    rfl
  constructor
  · rw [isAnswered]
    exact once.answer fresh
  · intro channel
    rw [isAnswered]
    constructor
    · intro known
      rcases Desk.of_known_answer known with before | isNew
      · exact .inl before
      · exact .inr ⟨waiter, List.mem_singleton_self _, isNew.symm⟩
    · rintro (known | ⟨newcomer, isWaiter, isChannel⟩)
      · exact known.answer _
      · rw [← isChannel, List.mem_singleton.mp isWaiter]
        exact .inl (List.mem_append_right _ (List.mem_singleton_self _))
  · exact fun _ _ present => .inl present
  · exact fun _ present => present

end

end

theorem congr {other : Coordinator} (settles : Settles before earlier after later first)
    (standing : other.standing = after.standing)
    (reads : other.pendingReads = after.pendingReads) :
    Settles before earlier other later first := by
  have sameDesk : other.desk later = after.desk later := by
    rw [Coordinator.desk, Coordinator.desk]
    congr 1
    funext slot
    rw [Coordinator.waiting, standing]
    rfl
  constructor
  · rw [sameDesk]
    exact settles.once
  · rw [sameDesk]
    exact settles.known
  · rw [standing]
    exact settles.standing
  · rw [reads]
    exact settles.reads

theorem proposalAccepted (once : (before.desk earlier).Once)
    (fresh : ¬(before.desk earlier).Known input.result) (index : Nat) :
    Settles before earlier (before.proposalAccepted index input) earlier [input.waiter] := by
  have fresh : ¬(before.desk earlier).Known input.waiter.result := fresh
  apply (Settles.await once fresh index).congr (Coordinator.proposalAccepted_standing index input)
  rw [Coordinator.proposalAccepted]
  cases proposedMutation input.event <;> rfl

/-- An action answers those who wait for it, and settles the request that it
replies to. -/
theorem handle (once : (before.desk earlier).Once) (action : Action) (current : RuntimeInput)
    (fresh : ∀ waiter ∈ newcomers current action, ¬(before.desk earlier).Known waiter.result) :
    let handled := (before.handle action current).getD (before, [])
    Settles before earlier handled.1 (earlier ++ handled.2) (newcomers current action) := by
  have unchanged : Settles before earlier before (earlier ++ []) [] := by
    rw [List.append_nil]
    exact .refl once
  have ignored : isReply action = false → newcomers current action = [] := by
    intro noReply
    cases current with
    | proposal input => simp [newcomers, noReply]
    | _ => rfl
  cases action with
  | proposalAccepted proposalID index =>
      cases current with
      | proposal input =>
          have accepted := Settles.proposalAccepted once
            (fresh input.waiter (List.mem_singleton_self _)) index
          simp only [Coordinator.handle, Option.getD_some, List.append_nil]
          exact accepted
      | _ => exact unchanged
  | proposalRejected proposalID leaderID =>
      cases current with
      | proposal input =>
          exact .answered once (fresh input.waiter (List.mem_singleton_self _)) _
      | _ => exact unchanged
  | applyEntry entry =>
      rw [ignored rfl]
      exact .applyEntry once entry
  | readConfirmed readID commitIndex =>
      rw [ignored rfl]
      exact .completeRead once readID _
  | readRejected readID leaderID =>
      rw [ignored rfl]
      exact .completeRead once readID _
  | _ =>
      rw [ignored rfl]
      exact unchanged

/-- The actions of one step settle the request they reply to, if they reply
to it at most once. -/
theorem handleAll (once : (before.desk earlier).Once) (current : RuntimeInput)
    (actions : List Action)
    (fresh : ∀ waiter ∈ actions.flatMap (newcomers current),
      ¬(before.desk earlier).Known waiter.result)
    (replied : actions.countP isReply ≤ 1 ∨ ∀ action ∈ actions, newcomers current action = []) :
    let handled := before.handleAll current actions
    Settles before earlier handled.1 (earlier ++ handled.2)
      (actions.flatMap (newcomers current)) := by
  induction actions generalizing before earlier with
  | nil =>
      simp only [Coordinator.handleAll, List.append_nil, List.flatMap_nil]
      exact .refl once
  | cons action actions induction =>
      rw [List.flatMap_cons, List.forall_mem_append] at fresh
      have one := Settles.handle once action current fresh.1
      have rest := @induction ((before.handle action current).getD (before, [])).1
        (earlier ++ ((before.handle action current).getD (before, [])).2) one.once ?_ ?_
      · rw [List.flatMap_cons]
        simpa only [Coordinator.handleAll, List.append_assoc] using one.trans rest
      · -- A reply that already came leaves no newcomer among the later actions.
        intro waiter present known
        rcases (one.known _).mp known with before | ⟨first, isFirst, _⟩
        · exact fresh.2 waiter present before
        · rcases List.mem_flatMap.mp present with ⟨later, isLater, isNew⟩
          rcases replied with count | none
          · have isReplyFirst : isReply action = true := isReply_of_newcomer isFirst
            have isReplyLater : isReply later = true := isReply_of_newcomer isNew
            rw [List.countP_cons_of_pos isReplyFirst] at count
            have positive := List.countP_pos_iff.mpr ⟨later, isLater, isReplyLater⟩
            omega
          · rw [none action List.mem_cons_self] at isFirst
            cases isFirst
      · rcases replied with count | none
        · rw [List.countP_cons] at count
          exact .inl (Nat.le_trans (Nat.le_add_right ..) count)
        · exact .inr fun later present => none later (List.mem_cons_of_mem _ present)

end Settles

/-! ## The core replies to a proposal once -/

def proposes : Event → Bool
  | .proposeSession proposal => proposal.type = .openSession || proposal.type = .closeSession
  | .proposeSet _ => true
  | .proposeDelete _ => true
  | _ => false

theorem replicateNow_replies (node : Node) (entry : LogEntry) (proposalID : ProposalID) :
    (RaftRuntime.replicateNow node entry
      [.proposalAccepted proposalID entry.index]).emitted.countP isReply = 1 := by
  have quiet : ((node.logSaved entry.index).sendAppendEntries 0).2.countP isReply = 0 := by
    apply List.countP_eq_zero.mpr
    intro action emitted
    cases (node.logSaved entry.index).sendAppendEntries_supplies 0 emitted with
    | entries => exact Bool.false_ne_true
    | snapshot => exact Bool.false_ne_true
  rw [RaftRuntime.replicateNow, List.countP_append, quiet]
  rfl

theorem stepNow_replies (node : Node) {event : Event} (isProposal : proposes event = true) :
    (RaftRuntime.stepNow node event).emitted.countP isReply = 1 := by
  cases event with
  | proposeSession proposal =>
      simp only [RaftRuntime.stepNow, RaftRuntime.proposeSessionNow]
      split_ifs with follows unsupported
      · rfl
      · simp [proposes, unsupported] at isProposal
      · exact replicateNow_replies ..
  | proposeSet proposal =>
      simp only [RaftRuntime.stepNow, RaftRuntime.proposeSetNow]
      split_ifs with follows
      · rfl
      · exact replicateNow_replies ..
  | proposeDelete proposal =>
      simp only [RaftRuntime.stepNow, RaftRuntime.proposeDeleteNow]
      split_ifs with follows
      · rfl
      · exact replicateNow_replies ..
  | _ => cases isProposal

/-- What the core does with a proposal is a call that the loop takes. -/
theorem next_stepNow (loop : Loop) (node : Node) (input : ProposalInput)
    (unused : loop.unused input.result = true) (isProposal : proposes input.event = true) :
    ∃ after, loop.next (.proposal input (RaftRuntime.stepNow node input.event).emitted) =
      some after := by
  simp only [Loop.next, unused, stepNow_replies node isProposal, if_true]
  split <;> exact ⟨_, rfl⟩

/-! ## The run loop -/

namespace Loop

/-- Every request has been answered once, waits in one slot, or was cancelled. -/
structure Served (loop : Loop) : Prop where
  once : (loop.commands.desk loop.delivered).Once
  standing : ∀ slot, ∀ waiter ∈ loop.commands.standing slot, waiter ∈ loop.requests
  answered : ∀ channel ∈ loop.delivered.map Delivery.channel,
    channel ∈ loop.requests.map fun request => request.result
  channels : (loop.requests.map fun request => request.result).Nodup
  accounted : ∀ request ∈ loop.requests,
    (loop.commands.desk loop.delivered).Known request.result ∨ request.ctx ∈ loop.cancelled
  reads : ∀ readID : ReadID, (loop.commands.pendingReads[readID]?).isSome → readID ∈ loop.reads

variable {loop after : Loop}

theorem unused_iff {channel : Channel} : loop.unused channel = true ↔
    channel ∉ loop.requests.map fun request => request.result := by
  rw [unused, Bool.not_eq_true', ← Bool.not_eq_true, List.contains_iff_mem]

theorem Served.asked (served : loop.Served) {channel : Channel}
    (known : (loop.commands.desk loop.delivered).Known channel) :
    channel ∈ loop.requests.map fun request => request.result := by
  rcases known with answered | ⟨slot, present⟩
  · exact served.answered channel answered
  · rcases List.mem_map.mp present with ⟨waiter, stands, isChannel⟩
    exact List.mem_map.mpr ⟨waiter, served.standing slot waiter stands, isChannel⟩

theorem Served.fresh (served : loop.Served) {channel : Channel}
    (unused : loop.unused channel = true) :
    ¬(loop.commands.desk loop.delivered).Known channel :=
  fun known => unused_iff.mp unused (served.asked known)

theorem Served.settles (served : loop.Served) {newcomers : List PendingProposal}
    (settles : Settles loop.commands loop.delivered after.commands after.delivered newcomers)
    (requests : after.requests = newcomers ++ loop.requests)
    (channels : (after.requests.map fun request => request.result).Nodup)
    (cancelled : after.cancelled = loop.cancelled)
    (reads : ∀ readID ∈ loop.reads, readID ∈ after.reads) : after.Served where
  once := settles.once
  standing := by
    intro slot waiter present
    rw [requests]
    rcases settles.standing slot waiter present with stood | isNew
    · exact List.mem_append_right _ (served.standing slot waiter stood)
    · exact List.mem_append_left _ isNew
  answered := by
    intro channel answered
    rw [requests, List.map_append]
    rcases (settles.known channel).mp (.inl answered) with known | ⟨waiter, isNew, isChannel⟩
    · exact List.mem_append_right _ (served.asked known)
    · exact List.mem_append_left _ (List.mem_map.mpr ⟨waiter, isNew, isChannel⟩)
  channels := channels
  accounted := by
    intro request present
    rw [requests] at present
    rw [settles.known, cancelled]
    rcases List.mem_append.mp present with isNew | earlier
    · exact .inl (.inr ⟨request, isNew, rfl⟩)
    · rcases served.accounted request earlier with known | ended
      · exact .inl (.inl known)
      · exact .inr ended
  reads := fun readID present => reads readID (served.reads readID (settles.reads readID present))

theorem Served.initial (state : Machine) : ({ commands := { state := state } } : Loop).Served := by
  have empty : ∀ slot, ({ state := state } : Coordinator).standing slot = [] := by
    intro slot
    cases slot <;> simp [Coordinator.standing, Coordinator.waiters]
  have nobody : ∀ slot, (({ state := state } : Coordinator).desk []).slots slot = [] := by
    intro slot
    simp [Coordinator.desk, Coordinator.waiting, empty]
  constructor
  · constructor
    · intro slot
      rw [nobody]
      exact List.nodup_nil
    · intro first second channel present
      rw [nobody] at present
      cases present
    · intro slot channel present
      rw [nobody] at present
      cases present
    · exact List.nodup_nil
  · intro slot waiter present
    rw [empty] at present
    cases present
  · exact List.forall_mem_nil _
  · exact List.nodup_nil
  · exact List.forall_mem_nil _
  · intro readID present
    simp at present

theorem Served.prune (served : loop.Served) :
    ({ loop with commands := loop.commands.pruneCanceled loop.cancelled.contains } : Loop).Served :=
    by
  have standing := loop.commands.pruneCanceled_standing loop.cancelled.contains
  have remain : ∀ slot, (Coordinator.waiting
      (loop.commands.pruneCanceled loop.cancelled.contains) slot).Sublist
      (loop.commands.waiting slot) := by
    intro slot
    rw [Coordinator.waiting, standing]
    exact List.filter_sublist.map _
  constructor
  · exact served.once.leave remain
  · intro slot waiter present
    rw [standing] at present
    exact served.standing slot waiter (List.mem_filter.mp present).1
  · exact served.answered
  · exact served.channels
  · intro request present
    rcases served.accounted request present with (answered | ⟨slot, waits⟩) | ended
    · exact .inl (.inl answered)
    · rcases List.mem_map.mp waits with ⟨waiter, stands, sameChannel⟩
      -- The channel identifies the request.
      have same : waiter = request := List.inj_on_of_nodup_map served.channels
        (served.standing slot waiter stands) present sameChannel
      by_cases ended : request.ctx ∈ loop.cancelled
      · exact .inr ended
      · refine .inl (.inr ⟨slot, List.mem_map.mpr ⟨waiter, ?_, sameChannel⟩⟩)
        rw [standing]
        apply List.mem_filter.mpr ⟨stands, ?_⟩
        simpa [same] using ended
    · exact .inr ended
  · intro readID present
    apply served.reads readID
    simp only [Coordinator.pruneCanceled, Std.ExtTreeMap.getElem?_filter'] at present
    cases found : loop.commands.pendingReads[readID]? with
    | none => simp [found] at present
    | some read => rfl

theorem lostLeadership_channels (coordinator : Coordinator) (leaderID : NodeID)
    (channel : Channel) :
    channel ∈ (coordinator.lostLeadership leaderID).2.map Delivery.channel ↔
      ∃ slot, channel ∈ coordinator.waiting slot := by
  simp only [Coordinator.lostLeadership, List.map_append, List.mem_append, List.map_flatMap,
    List.mem_flatMap, List.map_map, List.mem_map, Function.comp_apply, Delivery.channel,
    Prod.exists, Std.ExtTreeMap.mem_toList_iff_getElem?_eq_some]
  constructor
  · rintro (⟨index, proposals, found, proposal, present, isChannel⟩ |
      ⟨readID, read, found, isChannel⟩)
    · refine ⟨.index index, List.mem_map.mpr ⟨proposal, ?_, isChannel⟩⟩
      simpa [Coordinator.standing, Coordinator.waiters, found] using present
    · refine ⟨.read readID, List.mem_map.mpr ⟨read.waiter, ?_, isChannel⟩⟩
      simp [Coordinator.standing, found]
  · rintro ⟨slot, present⟩
    rcases List.mem_map.mp present with ⟨waiter, stands, isChannel⟩
    cases slot with
    | index index =>
        cases found : coordinator.pending[index]? with
        | none => simp [Coordinator.standing, Coordinator.waiters, found] at stands
        | some proposals =>
            simp only [Coordinator.standing, Coordinator.waiters, found, Option.getD_some] at stands
            exact .inl ⟨index, proposals, found, waiter, stands, isChannel⟩
    | read readID =>
        cases found : coordinator.pendingReads[readID]? with
        | none => simp [Coordinator.standing, found] at stands
        | some read =>
            simp only [Coordinator.standing, found, Option.toList_some, List.map_cons,
              List.map_nil, List.mem_singleton] at stands
            exact .inr ⟨readID, read, found, by rw [← isChannel, stands]; rfl⟩

theorem lostLeadership_distinct {coordinator : Coordinator} {delivered : List Delivery}
    (once : (coordinator.desk delivered).Once) (leaderID : NodeID) :
    ((coordinator.lostLeadership leaderID).2.map Delivery.channel).Nodup := by
  have slotIndex : ∀ {index proposals}, (index, proposals) ∈ coordinator.pending.toList →
      (proposals.map fun proposal => proposal.result) = coordinator.waiting (.index index) := by
    intro index proposals present
    have found := Std.ExtTreeMap.mem_toList_iff_getElem?_eq_some.mp present
    simp [Coordinator.waiting, Coordinator.standing, Coordinator.waiters, found]
  have slotRead : ∀ {readID read}, (readID, read) ∈ coordinator.pendingReads.toList →
      read.result ∈ coordinator.waiting (.read readID) := by
    intro readID read present
    have found := Std.ExtTreeMap.mem_toList_iff_getElem?_eq_some.mp present
    simp [Coordinator.waiting, Coordinator.standing, found, PendingRead.waiter]
  have channels : (coordinator.lostLeadership leaderID).2.map Delivery.channel =
      (coordinator.pending.toList.flatMap fun slot =>
        slot.2.map fun proposal => proposal.result) ++
      coordinator.pendingReads.toList.map fun slot => slot.2.result := by
    simp [Coordinator.lostLeadership, List.map_flatMap, Function.comp_def, Delivery.channel]
  rw [channels]
  apply List.nodup_append.mpr ⟨List.nodup_flatMap.mpr ⟨?_, ?_⟩, List.pairwise_map.mpr ?_, ?_⟩
  · intro slot present
    rw [slotIndex present]
    exact once.distinct _
  · apply Std.ExtTreeMap.distinct_keys_toList.imp_of_mem
    intro first second inFirst inSecond different channel waitsFirst waitsSecond
    simp only [slotIndex inFirst] at waitsFirst
    simp only [slotIndex inSecond] at waitsSecond
    exact different (Nat.compare_eq_eq.mpr (Slot.index.inj (once.apart waitsFirst waitsSecond)))
  · apply Std.ExtTreeMap.distinct_keys_toList.imp_of_mem
    intro first second inFirst inSecond different sameChannel
    have waitsSecond := slotRead inSecond
    rw [← sameChannel] at waitsSecond
    exact different (Nat.compare_eq_eq.mpr
      (Slot.read.inj (once.apart (slotRead inFirst) waitsSecond)))
  · intro channel inIndex other inRead sameChannel
    rcases List.mem_flatMap.mp inIndex with ⟨slot, present, waits⟩
    rcases List.mem_map.mp inRead with ⟨read, presentRead, isChannel⟩
    rw [slotIndex present] at waits
    have waitsRead := slotRead presentRead
    rw [isChannel, ← sameChannel] at waitsRead
    exact nomatch once.apart waits waitsRead

theorem Served.lostLeadership (served : loop.Served) (leaderID : NodeID) :
    ({ loop with
      commands := (loop.commands.lostLeadership leaderID).1
      delivered := loop.delivered ++ (loop.commands.lostLeadership leaderID).2
      accepted := [] } : Loop).Served := by
  have empty : ∀ slot, (loop.commands.lostLeadership leaderID).1.standing slot = [] := by
    intro slot
    cases slot <;> simp [Coordinator.standing, Coordinator.waiters, Coordinator.lostLeadership]
  have closed := served.once.close (lostLeadership_distinct served.once leaderID)
    (lostLeadership_channels loop.commands leaderID)
  have isClosed : (loop.commands.lostLeadership leaderID).1.desk
      (loop.delivered ++ (loop.commands.lostLeadership leaderID).2) =
      { slots := fun _ => []
        answered := loop.delivered.map Delivery.channel ++
          (loop.commands.lostLeadership leaderID).2.map Delivery.channel } := by
    rw [Coordinator.desk, List.map_append]
    congr 1
    funext slot
    rw [Coordinator.waiting, empty]
    rfl
  constructor
  · rw [isClosed]
    exact closed
  · intro slot waiter present
    rw [empty] at present
    cases present
  · intro channel answered
    rw [List.map_append] at answered
    rcases List.mem_append.mp answered with earlier | isNew
    · exact served.answered channel earlier
    · exact served.asked (.inr ((lostLeadership_channels ..).mp isNew))
  · exact served.channels
  · intro request present
    rw [isClosed]
    rcases served.accounted request present with (answered | waits) | ended
    · exact .inl (.inl (List.mem_append_left _ answered))
    · exact .inl (.inl (List.mem_append_right _ ((lostLeadership_channels ..).mpr waits)))
    · exact .inr ended
  · intro readID present
    simp [Coordinator.lostLeadership] at present

theorem newcomers_of_reply {actions : List Action} (replied : actions.countP isReply = 1) :
    actions.flatMap (newcomers (.proposal input)) = [input.waiter] := by
  have newcomersOf : ∀ actions : List Action, actions.flatMap (newcomers (.proposal input)) =
      List.replicate (actions.countP isReply) input.waiter := by
    intro actions
    induction actions with
    | nil => rfl
    | cons action actions induction =>
        rw [List.flatMap_cons, induction, List.countP_cons, newcomers]
        cases isReply action with
        | false => rfl
        | true => rfl
  rw [newcomersOf, replied]
  rfl

theorem Served.proposal (served : loop.Served) {actions : List Action}
    (taken : loop.next (.proposal input actions) = some after) : after.Served := by
  rcases next_proposal taken with ⟨unused, begun, event, deliveries, begins, outcome⟩
  have fresh : ¬(loop.commands.desk loop.delivered).Known input.waiter.result :=
    served.fresh unused
  have channels : ((input.waiter :: loop.requests).map fun request => request.result).Nodup :=
    List.nodup_cons.mpr ⟨unused_iff.mp unused, served.channels⟩
  have begun_ := loop.commands.beginProposal_begins input
  rw [begins] at begun_
  rcases outcome with ⟨isNone, isAfter⟩ | ⟨passes, replied, isAfter⟩
  · subst isAfter
    cases begun_ with
    | passed => cases isNone
    | joined index =>
        rw [List.append_nil]
        exact served.settles (.await served.once fresh index) rfl channels rfl
          fun _ present => present
    | completed result =>
        exact served.settles (.answered served.once fresh result) rfl channels rfl
          fun _ present => present
  · subst isAfter
    cases begun_ with
    | passed =>
        have settles := Settles.handleAll served.once (.proposal input) actions
          (by
            rw [newcomers_of_reply replied]
            exact List.forall_mem_singleton.mpr fresh)
          (.inl (Nat.le_of_eq replied))
        rw [newcomers_of_reply replied] at settles
        exact served.settles settles rfl channels rfl fun _ present => present
    | joined => cases passes
    | completed => cases passes

theorem Served.settle (served : loop.Served) {current : RuntimeInput}
    (nobody : ∀ action, newcomers current action = []) (actions : List Action) :
    (loop.settle loop.commands current actions).Served := by
  have none_ : actions.flatMap (newcomers current) = [] :=
    List.flatMap_eq_nil_iff.mpr fun action _ => nobody action
  have settles := Settles.handleAll served.once current actions
    (by rw [none_]; exact List.forall_mem_nil _) (.inr fun action _ => nobody action)
  rw [none_] at settles
  exact served.settles settles rfl served.channels rfl fun _ present => present

theorem Served.beginRead (served : loop.Served) {input : ReadInput}
    (unused : loop.unused input.result = true) (isNew : input.readID ∉ loop.reads) :
    ({ loop with
      commands := (loop.commands.beginRead input).1
      requests := { result := input.result, ctx := input.ctx } :: loop.requests
      reads := input.readID :: loop.reads } : Loop).Served := by
  have unread : loop.commands.pendingReads[input.readID]? = none := by
    rw [← Option.not_isSome_iff_eq_none]
    exact fun present => isNew (served.reads _ present)
  constructor
  · rw [Coordinator.beginRead_desk unread]
    exact served.once.register _ (served.fresh unused)
  · intro slot waiter present
    rw [Coordinator.beginRead_standing] at present
    split_ifs at present
    · exact List.mem_cons.mpr (.inl (List.mem_singleton.mp present))
    · exact List.mem_cons_of_mem _ (served.standing slot waiter present)
  · exact fun channel answered => List.mem_cons_of_mem _ (served.answered channel answered)
  · exact List.nodup_cons.mpr ⟨unused_iff.mp unused, served.channels⟩
  · intro request present
    rw [Coordinator.beginRead_desk unread]
    rcases List.mem_cons.mp present with isRequest | earlier
    · rw [isRequest]
      exact .inl (Desk.known_register ..)
    · exact (served.accounted request earlier).imp_left fun known => known.register ..
  · intro readID present
    simp only [Coordinator.beginRead, Std.ExtTreeMap.getElem?_insert, Nat.compare_eq_eq] at present
    split_ifs at present with same
    · exact List.mem_cons.mpr (.inl same.symm)
    · exact List.mem_cons_of_mem _ (served.reads readID present)

theorem Served.next (served : loop.Served) {call : Call} (taken : loop.next call = some after) :
    after.Served := by
  cases call with
  | cancel ctx =>
      rw [← Option.some.inj taken]
      refine ⟨served.once, served.standing, served.answered, served.channels, ?_, served.reads⟩
      intro request present
      exact (served.accounted request present).imp_right (List.mem_cons_of_mem _)
  | pruneCanceled =>
      rw [← Option.some.inj taken]
      exact served.prune
  | proposal input actions => exact served.proposal taken
  | read input actions =>
      rw [Loop.next] at taken
      split_ifs at taken with isNew
      rw [← Option.some.inj taken]
      exact (served.beginRead isNew.1 isNew.2).settle (fun _ => rfl) actions
  | raftEvent event actions =>
      rw [← Option.some.inj taken]
      exact served.settle (fun _ => rfl) actions
  | lostLeadership leaderID =>
      rw [← Option.some.inj taken]
      exact served.lostLeadership leaderID
  | restore state =>
      rw [Loop.next] at taken
      cases restored : loop.commands.state.restore (some state) with
      | error => simp [restored] at taken
      | ok machine =>
          simp only [restored, Option.some.injEq] at taken
          subst taken
          exact served.settles ((Settles.refl served.once).congr (by
            funext slot
            cases slot <;> rfl) rfl) rfl served.channels rfl fun _ present => present

/-- Every waiter is answered exactly once: no channel receives two results, a
request that is neither answered nor cancelled waits in exactly one slot, and
losing leadership answers all of them. -/
theorem answered_exactly_once {state : Machine}
    (reachable : (system state).Reachable System.anyStep loop) :
    (loop.delivered.map Delivery.channel).Nodup ∧
    (∀ request ∈ loop.requests, request.result ∉ loop.delivered.map Delivery.channel →
      request.ctx ∉ loop.cancelled →
      ∃ slot, (loop.commands.waiting slot).count request.result = 1 ∧
        ∀ other, request.result ∈ loop.commands.waiting other → other = slot) ∧
    ∀ leaderID, ∀ request ∈ loop.requests, request.ctx ∉ loop.cancelled →
      request.result ∈ (loop.delivered ++ (loop.commands.lostLeadership leaderID).2).map
        Delivery.channel := by
  have served : loop.Served := by
    apply reachable.invariant Served
    · intro start isStart
      rw [isStart]
      exact .initial state
    · intro before call after served _ taken
      exact served.next taken
  refine ⟨served.once.answeredOnce, ?_, ?_⟩
  · intro request present unanswered active
    rcases served.accounted request present with (answered | ⟨slot, waits⟩) | ended
    · exact absurd answered unanswered
    · refine ⟨slot, List.count_eq_one_of_mem (served.once.distinct slot) waits, ?_⟩
      exact fun other waitsOther => served.once.apart waitsOther waits
    · exact absurd ended active
  · intro leaderID request present active
    rw [List.map_append]
    rcases served.accounted request present with (answered | waits) | ended
    · exact List.mem_append_left _ answered
    · exact List.mem_append_right _ ((lostLeadership_channels ..).mpr waits)
    · exact absurd ended active

def joinedRequests : List Call :=
  let set : Event := .proposeSet
    { proposalID := 1, sessionID := SessionID.zero, sequence := 1, key := "a", value := [7] }
  [.raftEvent .recoverCommitted
      [.applyEntry { index := 1, term := 1, type := .openSession }],
    .proposal { event := set, result := 1, ctx := 1 } [.proposalAccepted 1 2],
    .proposal { event := set, result := 2, ctx := 2 } [],
    .raftEvent .heartbeatTimeout
      [.applyEntry { index := 2, term := 1, type := .set, sequence := 1, key := "a", value := [7] }]]

theorem answered_exactly_once_joined :
    ∃ loop, (system { limit := 1 }).Reachable System.anyStep loop ∧
      loop.delivered.map Delivery.channel = [1, 2] ∧
      (loop.delivered.map Delivery.channel).Nodup := by
  have run : (System.execute next (fun _ _ => true) joinedRequests
      { commands := { state := { limit := 1 } } }).map
        (fun loop => loop.delivered.map Delivery.channel) = some [1, 2] := by
    decide +kernel
  rcases System.reachable_of_execute (fun _ _ _ => trivial) run with ⟨loop, reachable, delivered⟩
  exact ⟨loop, reachable, delivered, (answered_exactly_once reachable).1⟩

end Loop

end Ternion.Command
