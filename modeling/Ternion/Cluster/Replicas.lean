import Ternion.Cluster.Safety
import Ternion.Raft.Compacted
import Ternion.Raft.Progress
import Ternion.Session.Machine

/-! # What replicas have in common

Every process applies the entries of one sequence, in order and without a gap, so
that replicas differ only in how far they are. A Leader never changes what it
appended, and a Node is never stuck with what arrives.
-/

namespace Ternion.RaftRuntime

open Raft Cluster.Production

/-! ## What a turn applies -/

/-- A turn applies the next entries of its final log, if any, in their order. -/
structure Handled (node core : Node) (emitted : List Action) : Prop where
  applied : emitted.filterMap appliedEntry =
    (core.log.drop node.lastApplied).take (core.lastApplied - node.lastApplied)
  grows : node.lastApplied ≤ core.lastApplied
  level : node.lastApplied ≤ node.commitIndex → core.lastApplied ≤ core.commitIndex

/-- How far a Node applied and committed its log. -/
def reach (node : Node) : Nat × Nat × Nat :=
  (node.lastApplied, node.commitIndex, node.logBaseIndex)

variable {node core middle : Node} {emitted before after : List Action}

theorem appliedEntry_silent (silent : applies emitted = []) :
    emitted.filterMap appliedEntry = [] := by
  rw [applies, List.filterMap_eq_nil_iff] at silent
  apply List.filterMap_eq_nil_iff.mpr
  intro action present
  cases action with
  | applyEntry entry => cases silent _ present
  | _ => rfl

theorem appliedEntry_reportsOf (term : Nat) (waiting : Bool) (entries : List LogEntry) :
    (Node.reportsOf term waiting entries).filterMap appliedEntry = entries := by
  induction entries generalizing waiting with
  | nil => rfl
  | cons entry rest induction =>
      rw [Node.reportsOf]
      split_ifs
      · exact congrArg (entry :: ·) (induction false)
      · exact congrArg (entry :: ·) (induction waiting)

theorem supplies_silent (supplies : ∀ action ∈ emitted, node.Supplies action) :
    applies emitted = [] := by
  apply applies_eq_nil
  rintro action present entry rfl
  cases supplies _ present

namespace Handled

theorem silent (nothing : applies emitted = []) (same : core.lastApplied = node.lastApplied)
    (commit : node.commitIndex ≤ core.commitIndex) : Handled node core emitted where
  applied := by rw [appliedEntry_silent nothing, same, Nat.sub_self, List.take_zero]
  grows := same.ge
  level := fun level => same.le.trans (level.trans commit)

section

variable (base : middle.logBaseIndex = 0) (same : middle.lastApplied = node.lastApplied)

include base same

/-- A Node that commits, and applies what it committed. -/
theorem through
    (commit : node.commitIndex ≤ middle.commitIndex) (silentBefore : applies before = [])
    (silentAfter : applies after = []) :
    Handled node (middle.applyThrough middle.commitIndex).1
      (before ++ ((middle.applyThrough middle.commitIndex).2 ++ after)) := by
  have upcoming : middle.upcoming (middle.commitIndex - middle.lastApplied) =
      (middle.log.drop node.lastApplied).take (middle.commitIndex - node.lastApplied) := by
    rw [Node.upcoming, base, Nat.sub_zero, same]
  rw [Node.applyThrough_eq middle _ (base.symm ▸ Nat.zero_le _), upcoming]
  constructor
  case applied =>
    simp only [List.filterMap_append, appliedEntry_silent silentBefore,
      appliedEntry_silent silentAfter, appliedEntry_silent (Node.completeReads_silent _),
      appliedEntry_reportsOf, List.append_nil, List.nil_append]
    simp only [Node.completeReads, Node.applied, same, List.length_take, Nat.add_sub_cancel_left]
    exact List.take_eq_take_min
  case grows => exact same ▸ Nat.le_add_right ..
  case level =>
    intro level
    simp only [Node.completeReads, Node.applied, same, List.length_take]
    omega

theorem confirms (commit : middle.commitIndex = node.commitIndex) (request : AppendEntries) :
    Handled node (confirmNow middle request).core
      ([.resetElectionTimer] ++ (confirmNow middle request).emitted) := by
  simp only [confirmNow, followCommit]
  split_ifs with behind
  · exact through base same (commit ▸ behind.le) rfl rfl
  · exact through base same commit.ge rfl rfl

theorem takes (commit : middle.commitIndex = node.commitIndex) (request : AppendEntries) :
    Handled node (takeEntriesNow middle request).core
      ([.resetElectionTimer] ++ (takeEntriesNow middle request).emitted) := by
  unfold takeEntriesNow
  split_ifs
  · cases middle.entriesToAppend request.prevLogIndex request.entries with
    | none => exact silent rfl same commit.ge
    | some suffix =>
        rcases suffix with ⟨newEntries, truncateFrom⟩
        rcases middle.replaceSuffix_frame newEntries truncateFrom with ⟨_, _, _, _, frame⟩
        simp only
        split_ifs
        · refine confirms ?_ ?_ ?_ request <;> rw [stored, frame]
          · exact base
          · exact same
          · exact commit
        · exact confirms base same commit request
  · exact silent rfl same commit.ge

theorem commits
    (commit : node.commitIndex ≤ middle.commitIndex) (response : AppendEntriesResponse) :
    Handled node (commitNow middle response).core (commitNow middle response).emitted := by
  have confirmed := Node.applies_of_isLocal
    (Node.acknowledgeRead_local (middle.sendAppendEntries 0).1 response)
  have sent := supplies_silent fun _ present => middle.sendAppendEntries_supplies 0 present
  have kept : reach ((middle.sendAppendEntries 0).1.acknowledgeRead response).1 = reach middle := by
    rcases (middle.sendAppendEntries 0).1.acknowledgeRead_frame response with ⟨_, acknowledged⟩
    rcases middle.sendAppendEntries_frame 0 with ⟨_, _, _, supplied⟩
    rw [acknowledged, supplied]
    rfl
  simp only [commitNow]
  generalize (middle.sendAppendEntries 0).1.acknowledgeRead response = acknowledged at *
  simp only [reach, Prod.mk.injEq] at kept
  rcases kept with ⟨applied, committed, based⟩
  rw [← committed] at commit ⊢
  exact @through node acknowledged.1.commitSaved _ _ (based.trans base) (applied.trans same) commit
    confirmed sent

end

theorem supplies (same : middle.lastApplied = node.lastApplied)
    (commit : middle.commitIndex = node.commitIndex) (pending : PendingAppend)
    (response : AppendEntriesResponse) :
    Handled node (supplyNow middle pending response).core
      (supplyNow middle pending response).emitted := by
  simp only [supplyNow]
  generalize isSupplied : (if middle.needsSupply pending response then
    middle.sendAppendEntriesTo response.sender (middle.pendingReadFor response.sender)
    else (middle, [])) = supplied
  have sent : applies supplied.2 = [] ∧ reach supplied.1 = reach middle := by
    rw [← isSupplied]
    split_ifs
    · refine ⟨supplies_silent fun _ present =>
        middle.sendAppendEntriesTo_supplies _ _ present, ?_⟩
      rcases middle.sendAppendEntriesTo_frame response.sender
        (middle.pendingReadFor response.sender) with ⟨_, _, _, frame⟩
      rw [frame]
      rfl
    · exact ⟨rfl, rfl⟩
  simp only [reach, Prod.mk.injEq] at sent
  rcases sent with ⟨nothing, applied, committed, _⟩
  rcases supplied.1.acknowledgeRead_frame response with ⟨_, frame⟩
  apply silent
  · rw [applies_append, nothing, Node.applies_of_isLocal (Node.acknowledgeRead_local _ _)]
    rfl
  · rw [frame]
    exact applied.trans same
  · rw [frame]
    exact (committed.trans commit).ge

end Handled

theorem Turn.handled {event : Event} {outcome : Outcome} (turn : Turn node event outcome)
    (whole : node.Whole) : Handled node outcome.core outcome.emitted := by
  have quietly : ∀ {after : Node} {emitted : List Action}, holdings after = holdings node →
      (∀ action ∈ emitted, quiet action) → Handled node after emitted := by
    intro after emitted holds isQuiet
    refine .silent (applies_eq_nil ?_) (congrArg Holdings.lastApplied holds)
      (congrArg Holdings.commitIndex holds).ge
    rintro _ present entry rfl
    cases isQuiet _ present
  have sends : ∀ {middle : Node} {readID : ReadID} {before : List Action}, applies before = [] →
      middle.lastApplied = node.lastApplied → middle.commitIndex = node.commitIndex →
      Handled node (middle.sendAppendEntries readID).1
        (before ++ (middle.sendAppendEntries readID).2) := by
    intro middle readID before nothing same commit
    have sent := supplies_silent fun _ present =>
      middle.sendAppendEntries_supplies readID present
    rcases middle.sendAppendEntries_frame readID with ⟨_, _, _, frame⟩
    refine .silent (by rw [applies_append, nothing, sent]; rfl) ?_ ?_ <;> rw [frame]
    · exact same
    · exact commit.ge
  cases turn with
  | kept calm _ _ _ isQuiet => exact quietly calm.holds isQuiet
  | saved calm isQuiet => exact quietly calm.holds isQuiet
  | heartbeat => exact @sends node.expireAppends 0 [.resetHeartbeatTimer] rfl rfl rfl
  | registered readID => exact @sends (node.registerRead readID) readID [] rfl rfl rfl
  | led =>
      rw [leadNow, replicateNow, Node.appendEntries_single]
      exact sends rfl rfl rfl
  | proposed =>
      rw [proposeNow, replicateNow, Node.appendEntries_single]
      exact sends rfl rfl rfl
  | recovered =>
      have through := @Handled.through node node [] [] whole.base rfl le_rfl rfl rfl
      simpa using through
  | stale => exact .silent rfl rfl le_rfl
  | @followed request =>
      have holds := holdings_followNow node request.term request.sender
      exact .takes ((congrArg Holdings.logBaseIndex holds).trans whole.base)
        (congrArg Holdings.lastApplied holds) (congrArg Holdings.commitIndex holds) request
  | @committed response advanced leading sameTerm current advances =>
      rcases node.recordResponse_frame response with ⟨_, _, _, _, recorded⟩
      rcases Option.map_eq_some_iff.mp advances with ⟨index, found, rfl⟩
      have above := (Node.commitCandidate_bounds found).1
      rw [recorded] at above
      apply Handled.commits
      · rw [recorded]
        exact whole.base
      · rw [recorded]
      · exact above.le
  | @answered response =>
      rcases node.recordResponse_frame response with ⟨_, _, _, _, recorded⟩
      apply Handled.supplies
      · rw [recorded]
      · rw [recorded]

end Ternion.RaftRuntime

namespace Ternion.Cluster.Production

open Consensus Raft RaftRuntime Session

variable {membership : Membership} {ledger : Ledger NodeID LogEntry} {tally : Tally NodeID}
  {before state later : State}

/-! ## Replicas -/

/-- The entries that a process applied, in their order. -/
def Host.history (host : Host) : List LogEntry := host.emitted.filterMap appliedEntry

/-- The replicated state of a process. -/
def Host.machine (host : Host) (limit : Nat) : Machine :=
  Machine.applyAll { limit := limit } host.history

/-- A process applied the entries up to its applied index, once and in order. -/
structure Current (state : State) (host : Host) : Prop where
  level : host.core.lastApplied ≤ host.core.commitIndex
  length : host.history.length = host.core.lastApplied
  ordered : Consecutive LogEntry.index 0 host.history
  known : ∀ entry ∈ host.history, entry ∈ state.applied

theorem restart_current (id : NodeID) (store : Store) :
    Current state (restart membership id store) := by
  have fresh : (restart membership id store).core.lastApplied = 0 := by
    simp only [restart, Node.newNodeFromRecoveredState]
    rw [if_neg store.recovered_uncompacted]
    cases store.recovered.log.getLast? <;> rfl
  exact ⟨fresh ▸ Nat.zero_le _, fresh.symm, trivial, by simp [Host.history, restart]⟩

theorem Safe.commitIndex_le (safe : Safe membership ledger tally state) {id : NodeID}
    (member : id ∈ membership.members) :
    (state.hosts id).core.commitIndex ≤ (state.hosts id).core.log.length := by
  rcases (safe.reliable id member).holds with ⟨_, _, _, within, _⟩
  rw [show ledger.log (books (state.hosts id).core).id = (state.hosts id).core.log from
    (safe.grounded.followed.tracks id member).log] at within
  exact within

theorem Current.complete {id : NodeID} {event : Event} {outcome : Outcome}
    (current : Current before (before.hosts id))
    (handled : Handled (before.hosts id).core outcome.core outcome.emitted)
    (indexed : Indexed outcome.core.log)
    (within : outcome.core.commitIndex ≤ outcome.core.log.length) :
    Current (before.complete id event outcome)
      ((before.hosts id).step event before.commitIndexes outcome) := by
  have level := handled.level current.level
  have grows := handled.grows
  have history : ((before.hosts id).step event before.commitIndexes outcome).history =
      (before.hosts id).history ++ (outcome.core.log.drop (before.hosts id).core.lastApplied).take
        (outcome.core.lastApplied - (before.hosts id).core.lastApplied) := by
    rw [← handled.applied]
    exact List.filterMap_append ..
  have rest := indexed.consecutive.drop (grows.trans (level.trans within))
  constructor
  case level => exact level
  case length =>
    rw [history, List.length_append, current.length, List.length_take, List.length_drop]
    simp only [Host.step]
    omega
  case ordered =>
    rw [history]
    apply Consecutive.append_iff.mpr ⟨current.ordered, ?_⟩
    rw [current.length]
    exact rest.take _
  case known =>
    rw [history, ← handled.applied]
    intro entry present
    rcases List.mem_append.mp present with earlier | now
    · exact List.mem_append_left _ (current.known entry earlier)
    · exact List.mem_append_right _ now

theorem current_of_reachable
    (reachable : (system membership).Reachable
      (fun state label => guided membership state label) state) :
    ∀ id ∈ membership.members, Current state (state.hosts id) := by
  induction reachable with
  | initial isInitial =>
      cases isInitial
      exact fun id _ => restart_current id {}
  | @step before label after reached isGuided taken induction =>
      rcases Safe.of_reachable (.step reached isGuided taken) with ⟨_, _, safe⟩
      rcases Safe.of_reachable reached with ⟨_, _, safeBefore⟩
      have grounded := safeBefore.grounded
      rcases grounded.step_cases taken with ⟨id, event, outcome, moved, _, stepped, result⟩
      have kept : ∀ other ∈ membership.members, ∀ grown, before.applied ⊆ grown.applied →
          Current grown (before.hosts other) := by
        intro other member grown widens
        have current := induction other member
        exact { current with known := fun entry present => widens (current.known entry present) }
      intro other member
      rcases result with rfl | ⟨store, rfl, _⟩
      · by_cases same : other = id
        · subst same
          have within := safe.commitIndex_le member
          have indexed := (safe.grounded.followed.tracks other member).whole.indexed
          simp only [State.complete, Function.update_self] at within indexed ⊢
          exact (induction other member).complete
            (stepped.turn.handled (grounded.followed.tracks other member).whole) indexed within
        · simp only [State.complete, Function.update_of_ne same]
          exact kept other member _ (List.subset_append_left _ _)
      · by_cases same : other = id
        · simp only [State.restarted, same, Function.update_self]
          exact restart_current id store
        · simp only [State.restarted, Function.update_of_ne same]
          exact kept other member _ fun _ present => present

/-- Replicas agree: while no Leader is misled, what one process applied is the
beginning of what any other applied that is at least as far. At the same applied
index their sessions and values are the same. -/
theorem replicas_agree (membership : Membership) (limit : Nat) (state : State)
    (reachable : (system membership).Reachable
      (fun state label => guided membership state label) state)
    (left right : NodeID) (leftMember : left ∈ membership.members)
    (rightMember : right ∈ membership.members)
    (behind : (state.hosts left).core.lastApplied ≤ (state.hosts right).core.lastApplied) :
    (state.hosts left).history <+: (state.hosts right).history ∧
      ((state.hosts left).core.lastApplied = (state.hosts right).core.lastApplied →
        (state.hosts left).machine limit = (state.hosts right).machine limit) := by
  have leftCurrent := current_of_reachable reachable left leftMember
  have rightCurrent := current_of_reachable reachable right rightMember
  rcases Safe.of_reachable reachable with ⟨ledger, tally, safe⟩
  have prefix_ : (state.hosts left).history =
      (state.hosts right).history.take (state.hosts left).core.lastApplied := by
    apply List.ext_getElem
    · rw [List.length_take, leftCurrent.length, rightCurrent.length, Nat.min_eq_left behind]
    · intro offset inLeft inRight
      rw [List.getElem_take]
      have inside := Nat.lt_of_lt_of_le inRight (List.length_take_le' _ _)
      have leftIndex := leftCurrent.ordered.position_eq (List.getElem?_eq_getElem inLeft)
      have rightIndex := rightCurrent.ordered.position_eq (List.getElem?_eq_getElem inside)
      have leftCommitted := safe.applied _ (leftCurrent.known _ (List.getElem_mem inLeft))
      have rightCommitted := safe.applied _ (rightCurrent.known _ (List.getElem_mem inside))
      rw [leftIndex] at leftCommitted
      rw [rightIndex] at rightCommitted
      exact safe.secured.committed_unique safe.grounded.followed.sane.coherent leftCommitted
        rightCommitted
  refine ⟨prefix_ ▸ List.take_prefix _ _, ?_⟩
  intro level
  rw [Host.machine, Host.machine, prefix_, level, ← rightCurrent.length, List.take_length]

theorem replicas_agree_proposal : ∃ state,
    (system trio).Reachable (fun state label => guided trio state label) state ∧
      (state.hosts "b").core.lastApplied = 2 ∧
      (state.hosts "a").machine 1 = (state.hosts "b").machine 1 := by
  have executed : (System.execute (State.next trio) (guided trio) (electionRun ++ proposalRun)
      (.start trio)).map (fun state =>
        ((state.hosts "a").core.lastApplied, (state.hosts "b").core.lastApplied)) =
      some (2, 2) := by decide +kernel
  rcases System.reachable_of_execute (fun _ _ => id) executed with
    ⟨state, reachable, observed⟩
  rcases Prod.mk.injEq .. ▸ observed with ⟨first, second⟩
  have level := first.trans second.symm
  exact ⟨state, reachable, second, (replicas_agree trio 1 state reachable "a" "b" (by decide)
    (by decide) level.le).2 level⟩

/-! ## Leaders only append -/

theorem Grounded.moves {label : Label} (grounded : Grounded membership ledger before)
    (taken : (system membership).step before label state) :
    ∃ id after, membership.protocol.Moves id ledger after ∧ Grounded membership after state := by
  rcases grounded.step_cases taken with ⟨id, event, outcome, moved, _, stepped, result⟩
  rcases grounded.recorded stepped with ⟨moves, recorded⟩
  rcases result with rfl | ⟨store, rfl, rfl | ⟨⟨middle, toMiddle, sane, part⟩, _⟩⟩
  · exact ⟨id, moved, moves, grounded.complete stepped⟩
  · exact ⟨id, moved, moves, grounded.restarted moves stepped.refines.moved.sane recorded _⟩
  · exact ⟨id, middle, toMiddle, grounded.restarted toMiddle sane part _⟩

/-- A Term keeps its Leader, whose log only grows, whatever the run does next. -/
theorem Grounded.continued (grounded : Grounded membership ledger state)
    (continued : (System.ofNext state (State.next membership)).Reachable System.anyStep later) :
    ∃ after, Grounded membership after later ∧ ∀ term leader, ledger.leader term = some leader →
      after.leader term = some leader ∧ ledger.leaderLog term <+: after.leaderLog term := by
  apply continued.invariant fun later => ∃ after, Grounded membership after later ∧
    ∀ term leader, ledger.leader term = some leader →
      after.leader term = some leader ∧ ledger.leaderLog term <+: after.leaderLog term
  · rintro _ rfl
    exact ⟨ledger, grounded, fun _ _ isLeader => ⟨isLeader, List.prefix_rfl⟩⟩
  · rintro middle label final ⟨between, stillGrounded, kept⟩ _ taken
    rcases stillGrounded.moves taken with ⟨id, after, moves, grounded⟩
    refine ⟨after, grounded, ?_⟩
    intro term leader isLeader
    have advance := (Protocol.Moves.coherent moves stillGrounded.followed.sane.coherent).2
    rcases kept term leader isLeader with ⟨still, grown⟩
    exact ⟨advance.leader_kept still, grown.trans (advance.leaderLog_grows (by simp [still]))⟩

/-- Leaders only append: two Nodes that lead one Term at two moments of a run are
one Node, and its later log extends the earlier one. -/
theorem leader_appends_only (membership : Membership) (state later : State)
    (reachable : (system membership).Reachable System.anyStep state)
    (continued : (System.ofNext state (State.next membership)).Reachable System.anyStep later)
    (id other : NodeID) (member : id ∈ membership.members)
    (otherMember : other ∈ membership.members)
    (leads : (state.hosts id).core.role = .leader)
    (leadsLater : (later.hosts other).core.role = .leader)
    (sameTerm : (state.hosts id).core.term = (later.hosts other).core.term) :
    id = other ∧ (state.hosts id).core.log <+: (later.hosts other).core.log := by
  rcases Grounded.of_reachable reachable with ⟨ledger, grounded⟩
  rcases grounded.continued continued with ⟨after, stillGrounded, kept⟩
  rcases (grounded.followed.tracks id member).leader leads with ⟨isLeader, log⟩
  rcases (stillGrounded.followed.tracks other otherMember).leader leadsLater with ⟨still, grown⟩
  rcases kept _ _ isLeader with ⟨keptLeader, extends_⟩
  simp only [view] at isLeader log still grown keptLeader extends_
  rw [sameTerm, still, Option.some.injEq, grounded.followed.identity id member,
    stillGrounded.followed.identity other otherMember] at keptLeader
  rw [log, sameTerm, grown] at extends_
  exact ⟨keptLeader.symm, extends_⟩

theorem leader_appends_only_proposal : ∃ state later : State,
    (state.hosts "a").core.log.length = 1 ∧ (later.hosts "a").core.log.length = 2 ∧
      (state.hosts "a").core.log <+: (later.hosts "a").core.log := by
  have executed : ((System.execute (State.next trio) (fun _ _ => true) electionRun
      (.start trio)).bind fun state =>
        (System.execute (State.next trio) (fun _ _ => true) proposalRun state).map fun later =>
          [state, later].map fun moment => ((moment.hosts "a").core.role,
            (moment.hosts "a").core.term, (moment.hosts "a").core.log.length)) =
      some [(.leader, 1, 1), (.leader, 1, 2)] := by decide +kernel
  rcases System.continued_of_execute (fun _ _ _ => trivial) (fun _ _ _ => trivial) executed with
    ⟨state, later, reachable, continued, observed⟩
  simp only [List.map_cons, List.cons.injEq, Prod.mk.injEq] at observed
  rcases observed with ⟨⟨leads, term, one⟩, ⟨leadsLater, laterTerm, two⟩, _⟩
  exact ⟨state, later, one, two, (leader_appends_only trio state later reachable continued "a" "a"
    (by decide) (by decide) leads leadsLater (term.trans laterTerm.symm)).2⟩

/-! ## Nodes always answer -/

/-- A Node is never stuck: in every state that is reached, the loop of a step ends
for whatever arrives, and the Node may crash after any of its writes. -/
theorem input_taken (membership : Membership) (state : State)
    (reachable : (system membership).Reachable System.anyStep state) (input : Input)
    (id : NodeID) (event : Event) (arrives : state.input membership input = some (id, event)) :
    ∃ budget outcome, RaftRuntime.step budget (state.hosts id).core event = some outcome ∧
      (system membership).step state (.step input budget) (state.complete id event outcome) ∧
      ∀ count, (system membership).step state (.crash input budget count)
        (state.interrupt membership id outcome count) := by
  rcases Grounded.of_reachable reachable with ⟨ledger, grounded⟩
  have durable := (grounded.synced id (input_cases arrives).1).toDurable
  rcases step_terminates durable event with ⟨budget, ends⟩
  have steps : ∀ label, (system membership).step state label = fun after =>
      State.next membership state label = some after := fun _ => rfl
  refine ⟨budget, _, ends, ?_, fun count => ?_⟩ <;> simp [steps, State.next, arrives, ends]

/-- `b` takes the request with which `a` tells it what is committed. -/
theorem input_taken_commit : ∃ state request budget outcome,
    (system trio).Reachable System.anyStep state ∧ (state.hosts "a").core.role = .leader ∧
      state.input trio (.message 11) = some ("b", .appendEntries request) ∧
      request.leaderCommit = 1 ∧
      RaftRuntime.step budget (state.hosts "b").core (.appendEntries request) = some outcome ∧
      ∀ count, (system trio).step state (.crash (.message 11) budget count)
        (state.interrupt trio "b" outcome count) := by
  have executed : (System.execute (State.next trio) (fun _ _ => true) electionRun
      (.start trio)).map (fun state => ((state.hosts "a").core.role,
        state.input trio (.message 11))) =
      some (.leader, some ("b", .appendEntries {
        sender := "a", term := 1, requestID := 4, prevLogIndex := 1, prevLogTerm := 1
        entries := [], leaderCommit := 1, readID := 0 })) := by decide +kernel
  rcases System.reachable_of_execute (fun _ _ _ => trivial) executed with
    ⟨state, reachable, observed⟩
  rcases Prod.mk.injEq .. ▸ observed with ⟨leads, arrives⟩
  rcases input_taken trio state reachable (.message 11) "b" _ arrives with
    ⟨budget, outcome, ends, _, crashes⟩
  exact ⟨state, _, budget, outcome, reachable, leads, arrives, rfl, ends, crashes⟩

end Ternion.Cluster.Production
