import Ternion.Raft.Apply
import Ternion.Raft.Extent

/-! # Progress of one Node

The Term, the commit index and the applied index of a Node never decrease, and
the entries it applies are those right after the applied ones. Applied entries
are never parked behind a write: a Node that still has recovered entries to
apply takes no entries of a newer Term.
-/

namespace Ternion.Raft

/-- The positions that the actions apply, in their order. -/
def applies (actions : List Action) : List Nat :=
  actions.filterMap fun action =>
    match action with
    | .applyEntry entry => some entry.index
    | _ => none

theorem applies_append (actions more : List Action) :
    applies (actions ++ more) = applies actions ++ applies more :=
  List.filterMap_append ..

theorem applies_eq_nil {actions : List Action}
    (silent : ∀ action ∈ actions, ∀ entry, action ≠ .applyEntry entry) :
    applies actions = [] := by
  apply List.filterMap_eq_nil_iff.mpr
  intro action present
  cases action with
  | applyEntry entry => exact absurd rfl (silent _ present entry)
  | _ => rfl

namespace Node

/-- The applied index of a Node, and what it parked behind writes. -/
structure Tally where
  lastApplied : Nat
  pendingHardState : Nat → Option PendingHardStatePersistence
  pendingCommit : Nat → Option PendingCommitPersistence

def tally (node : Node) : Tally where
  lastApplied := node.lastApplied
  pendingHardState := node.pendingHardState
  pendingCommit := node.pendingCommit

/-- No parked action applies an entry. -/
structure Tally.Prompt (tally : Tally) : Prop where
  hardStates : ∀ {persistenceID pending}, tally.pendingHardState persistenceID = some pending →
    applies pending.after = []
  commits : ∀ {persistenceID pending}, tally.pendingCommit persistenceID = some pending →
    applies pending.after = []

/-- A transition, or a part of one, that makes progress. Only an installed
Snapshot moves the applied index without applying entries. -/
structure Progress (node : Node) (result : Node × List Action) : Prop where
  term : node.term ≤ result.1.term
  applied : node.lastApplied ≤ result.1.lastApplied
  reports : applies result.2 =
      List.range' (node.lastApplied + 1) (result.1.lastApplied - node.lastApplied) ∨
    applies result.2 = []
  prompt : result.1.tally.Prompt

namespace Progress

variable {node middle : Node} {result : Node × List Action}

theorem quiet (prompt : node.tally.Prompt) (same : result.1.tally = node.tally)
    (term : node.term ≤ result.1.term) (silent : applies result.2 = []) :
    Progress node result where
  term := term
  applied := Nat.le_of_eq (congrArg Tally.lastApplied same).symm
  reports := .inr silent
  prompt := same ▸ prompt

/-- What happens after a part that changes nothing of the tally. -/
theorem following (progress : Progress middle result) (same : middle.tally = node.tally)
    (term : node.term ≤ middle.term) : Progress node result := by
  have lastApplied : middle.lastApplied = node.lastApplied := congrArg Tally.lastApplied same
  constructor
  · exact Nat.le_trans term progress.term
  · exact lastApplied ▸ progress.applied
  · exact lastApplied ▸ progress.reports
  · exact progress.prompt

/-- Further actions that apply nothing, and changes outside the tally. -/
theorem surround {final : Node} {leading trailing : List Action} (progress : Progress node result)
    (same : final.tally = result.1.tally) (term : result.1.term ≤ final.term)
    (early : applies leading = []) (late : applies trailing = []) :
    Progress node (final, leading ++ (result.2 ++ trailing)) := by
  have lastApplied : final.lastApplied = result.1.lastApplied := congrArg Tally.lastApplied same
  constructor
  · exact Nat.le_trans progress.term term
  · exact lastApplied ▸ progress.applied
  · rw [lastApplied, applies_append, applies_append, early, late, List.nil_append, List.append_nil]
    exact progress.reports
  · exact same ▸ progress.prompt

/-- Actions that apply nothing may wait for the hard state. -/
theorem termChange {changed : Bool} (progress : Progress node result)
    (silent : changed = true → applies result.2 = []) :
    Progress node (persistTermChange changed result) := by
  rw [persistTermChange]
  split_ifs with isChanged
  · refine ⟨progress.term, progress.applied, .inr rfl, ?_, progress.prompt.commits⟩
    intro persistenceID pending found
    simp only [tally, persistHardState, Function.update_apply] at found
    split_ifs at found
    · rw [← Option.some.inj found]
      exact silent isChanged
    · exact progress.prompt.hardStates found
  · exact progress

/-- They may also wait for the commit index. -/
theorem persistCommit {after : Node} {actions : List Action} (prompt : node.tally.Prompt)
    (same : after.tally = node.tally) (term : node.term ≤ after.term)
    (silent : applies actions = []) : Progress node (after.persistCommit actions) := by
  have kept : Progress node (after, []) := .quiet prompt same term rfl
  refine ⟨kept.term, kept.applied, .inr rfl, kept.prompt.hardStates, ?_⟩
  intro persistenceID pending found
  simp only [tally, Node.persistCommit, Function.update_apply] at found
  split_ifs at found
  · rw [← Option.some.inj found]
    exact silent
  · exact kept.prompt.commits found

end Progress

/-! ## Applying -/

variable {node : Node}

theorem applies_reportsOf (term : Nat) (waiting : Bool) (entries : List LogEntry) :
    applies (reportsOf term waiting entries) = entries.map LogEntry.index := by
  induction entries generalizing waiting with
  | nil => rfl
  | cons entry rest induction =>
      rw [reportsOf]
      split_ifs
      · exact congrArg (entry.index :: ·) (induction false)
      · exact congrArg (entry.index :: ·) (induction waiting)

theorem completeReads_silent (node : Node) : applies node.completeReads.2 = [] := by
  apply applies_eq_nil
  intro action emitted entry isApply
  rcases node.completeReads_confirms emitted with ⟨_, _, isConfirmed⟩
  rw [isApply] at isConfirmed
  cases isConfirmed

/-- The entries after the applied ones are numbered from there. -/
theorem upcoming_indexes (represented : node.extent.Represented) {count : Nat}
    (within : node.lastApplied + count ≤ node.lastLogIndex) :
    (node.upcoming count).map LogEntry.index = List.range' (node.lastApplied + 1) count ∧
      (node.upcoming count).length = count := by
  have consecutive : Consecutive LogEntry.index node.logBaseIndex node.log :=
    represented.consecutive
  have last : node.lastLogIndex = node.logBaseIndex + node.log.length := represented.last
  have above : node.logBaseIndex ≤ node.lastApplied := represented.base
  have rest := consecutive.drop (show node.lastApplied - node.logBaseIndex ≤ node.log.length by
    omega)
  rw [show node.logBaseIndex + (node.lastApplied - node.logBaseIndex) = node.lastApplied by
    omega] at rest
  have length : (node.upcoming count).length = count := by
    rw [upcoming, List.length_take, List.length_drop]
    omega
  have indexes := (rest.take count).map_position
  refine ⟨?_, length⟩
  rw [← upcoming, length] at indexes
  exact indexes

theorem applyThrough_progress (represented : node.extent.Represented) (prompt : node.tally.Prompt)
    {index : Nat} (durable : index ≤ node.durableCommitIndex) :
    Progress node (node.applyThrough index) := by
  have applied : node.lastApplied ≤ node.commitIndex := represented.applied
  have commit : node.commitIndex ≤ node.lastLogIndex := represented.commit
  have committed : node.durableCommitIndex ≤ node.commitIndex := represented.durable
  rcases upcoming_indexes represented
    (show node.lastApplied + (index - node.lastApplied) ≤ node.lastLogIndex by omega) with
    ⟨indexes, length⟩
  rw [applyThrough_eq node index represented.base]
  refine ⟨Nat.le_refl _, Nat.le_add_right .., .inl ?_, prompt.hardStates, prompt.commits⟩
  rw [applies_append, applies_reportsOf, indexes, completeReads_silent, List.append_nil]
  simp only [completeReads, Node.applied, length, Nat.add_sub_cancel_left]

/-! ## Every transition -/

/-- Batches are numbered after the position they follow, and one of a newer Term
comes only when every recovered entry is applied. An installed Snapshot agrees
with what is committed, and includes what is applied. -/
def inSequence (node : Node) : Event → Bool
  | .appendEntries request =>
      decide (Consecutive LogEntry.index request.prevLogIndex request.entries) &&
        (decide (request.term ≤ node.term) || decide (node.durableCommitIndex ≤ node.lastApplied))
  | .installSnapshot request =>
      !request.installed || decide (request.term < node.term) ||
        decide (request.snapshotIndex ≤ node.logBaseIndex) ||
        (decide (node.lastApplied ≤ request.snapshotIndex) &&
          (decide (node.commitIndex < request.snapshotIndex) ||
            decide (node.termAt request.snapshotIndex = request.snapshotTerm)))
  | _ => true

variable {origin middle : Node} {event : Event} {result : Node × List Action}
  {actions : List Action}

theorem applies_of_isLocal (isLocal : ∀ action ∈ actions, action.isLocal = true) :
    applies actions = [] := by
  apply applies_eq_nil
  rintro action present entry rfl
  cases isLocal _ present

theorem Emits.applies (emits : ∀ action ∈ actions, Emits event origin node action) :
    Raft.applies actions = [] := by
  apply applies_eq_nil
  rintro action present entry rfl
  cases emits _ present with
  | runtime isLocal => cases isLocal

theorem Elects.applies (elects : ∀ action ∈ actions, Elects event node action) :
    Raft.applies actions = [] := by
  apply applies_eq_nil
  rintro action present entry rfl
  cases elects _ present

theorem Body.progress (body : Body event origin node result)
    (represented : node.extent.Represented) (prompt : node.tally.Prompt)
    (sequenced : node.inSequence event) : Progress node result := by
  cases body with
  | quiet keeps emits =>
      rcases keeps with ⟨_, rfl⟩
      exact .quiet prompt rfl (Nat.le_refl _) (Emits.applies emits)
  | @appended _ entry =>
      rcases node.appendEntries_frame [entry] with ⟨_, _, _, frame⟩
      simp only [proposeEntry, appendOwnEntry, frame]
      exact .quiet prompt rfl (Nat.le_refl _) rfl
  | @stored _ newEntries truncateFrom =>
      rcases node.replaceSuffix_frame newEntries truncateFrom with ⟨_, _, _, _, frame⟩
      simp only [storeEntries, frame]
      exact .quiet prompt rfl (Nat.le_refl _) rfl
  | @committed index _ _ _ parked _ _ _ keeps emits kept early late =>
      rcases keeps with ⟨notes, rfl⟩
      rcases kept with ⟨_, rfl⟩
      have committed : Progress node
          (({ node with commitIndex := index }.note notes).persistCommit parked) :=
        .persistCommit prompt rfl (Nat.le_refl _) (Emits.applies emits)
      exact committed.surround rfl (Nat.le_refl _) (applies_of_isLocal early)
        (applies_of_isLocal late)
  | applied _ within early emits =>
      exact (applyThrough_progress represented prompt within).surround rfl (Nat.le_refl _)
        (applies_of_isLocal early) (Emits.applies emits)
  | @installed request _ isRequest current isInstalled newer emits =>
      subst isRequest
      simp only [inSequence, isInstalled, current, Nat.lt_irrefl, decide_false, Bool.not_true,
        Bool.false_or, Bool.or_eq_true, Bool.and_eq_true, decide_eq_true_eq] at sequenced
      have covers : node.lastApplied ≤ request.snapshotIndex := by omega
      rcases node.installSnapshotBase_frame request with ⟨_, _, _, _, _, _, frame⟩
      rw [frame]
      exact ⟨Nat.le_refl _, covers, .inr (Emits.applies emits), prompt.hardStates, prompt.commits⟩
  | compacted =>
      rw [compactLog]
      split_ifs <;> exact .quiet prompt rfl (Nat.le_refl _) rfl

/-- Only a Node with recovered entries left to apply applies entries on a message. -/
theorem Body.applies (body : Body event origin node result) {term : Nat}
    (carried : event.carries = some term)
    (caughtUp : ∀ request, event = .appendEntries request →
      node.durableCommitIndex ≤ node.lastApplied) : Raft.applies result.2 = [] := by
  cases body with
  | quiet _ emits => exact Emits.applies emits
  | appended => rfl
  | stored => rfl
  | committed _ _ _ _ _ early late =>
      rw [applies_append, applies_append, applies_of_isLocal early, applies_of_isLocal late]
      rfl
  | applied told within early emits =>
      rcases told with silent | ⟨request, isRequest⟩
      · rw [carried] at silent
        cases silent
      · rw [applies_append, applies_append, applies_of_isLocal early, Emits.applies emits,
          applyThrough, if_pos (Nat.le_trans within (caughtUp request isRequest)),
          completeReads_silent]
        rfl
  | installed _ _ _ _ emits => exact Emits.applies emits
  | compacted => rfl

theorem Reaches.tally (reaches : Reaches node middle) : middle.tally = node.tally := by
  rcases reaches.same with ⟨_, _, rfl⟩
  rfl

theorem Reaches.inSequence (reaches : Reaches node middle) (sequenced : node.inSequence event) :
    middle.inSequence event := by
  have rises := reaches.term
  rcases reaches.same with ⟨_, _, rfl⟩
  cases event with
  | appendEntries request =>
      simp only [Node.inSequence, Bool.and_eq_true, Bool.or_eq_true, decide_eq_true_eq]
        at sequenced ⊢
      exact ⟨sequenced.1, sequenced.2.imp_left fun bound => Nat.le_trans bound rises⟩
  | installSnapshot request =>
      simp only [Node.inSequence, Bool.or_eq_true, decide_eq_true_eq] at sequenced ⊢
      exact sequenced.imp_left fun either => either.imp_left fun early =>
        early.imp_right fun stale => Nat.lt_of_lt_of_le stale rises
  | _ => rfl

/-- What waits for the hard state follows a message of a newer Term. -/
theorem Reach.delays {delayed : Bool} (reach : Reach event node middle delayed)
    (isDelayed : delayed = true) : ∃ term, event.carries = some term ∧ node.term < term := by
  cases reach with
  | stays => cases isDelayed
  | accepts _ carried => exact ⟨_, carried, of_decide_eq_true isDelayed⟩
  | deposed _ carried newer => exact ⟨_, carried, newer⟩
  | resigns => cases isDelayed

theorem step_progress (represented : node.extent.Represented) (prompt : node.tally.Prompt)
    {event : Event} (sequenced : node.inSequence event) : Progress node (node.step event) := by
  have course := node.step_course event
  generalize node.step event = result at course ⊢
  cases course with
  | @acts _ middle delayed result _ reach body =>
      have reaches := reach.reaches
      have same := reaches.tally
      have progress := body.progress (reaches.extent ▸ represented) (same ▸ prompt)
        (reaches.inSequence sequenced)
      apply (progress.following same reaches.term).termChange
      intro isDelayed
      rcases reach.delays isDelayed with ⟨term, carried, newer⟩
      apply body.applies carried
      rintro request rfl
      cases carried
      simp only [inSequence, Bool.and_eq_true, Bool.or_eq_true, decide_eq_true_eq] at sequenced
      have durable : middle.durableCommitIndex = node.durableCommitIndex :=
        congrArg Extent.durableCommitIndex reaches.extent
      have applied : middle.lastApplied = node.lastApplied := congrArg Tally.lastApplied same
      omega
  | @votes _ middle delayed leading actions ballots =>
      rcases ballots.elects with ⟨reaches, early, elects⟩
      have voted : Progress node (middle, actions) :=
        .quiet prompt reaches.tally reaches.term (Elects.applies elects)
      have changed : Progress node (persistTermChange delayed (middle, actions)) :=
        voted.termChange fun _ => Elects.applies elects
      have whole := changed.surround rfl (Nat.le_refl _) (Elects.applies early)
        (show applies [] = [] from rfl)
      rw [List.append_nil] at whole
      exact whole
  | @wins response =>
      rcases (node.recordVote response.sender).becomeLeader.appendEntries_frame
        [(node.recordVote response.sender).noOp] with ⟨_, _, _, frame⟩
      simp only [lead, appendOwnEntry, frame]
      exact .quiet prompt rfl (Nat.le_refl _) rfl
  | ignored => exact .quiet prompt rfl (Nat.le_refl _) rfl
  | released found =>
      refine ⟨Nat.le_refl _, Nat.le_refl _, .inr ?_, ?_⟩
      · dsimp only
        split_ifs
        · rfl
        · exact prompt.hardStates found
      · exact ⟨fun pending => prompt.hardStates (of_update_none pending), prompt.commits⟩
  | @written persistenceID pending _ _ body =>
      have same : (node.completeLog persistenceID pending).tally = node.tally := rfl
      exact (body.progress represented (same ▸ prompt) rfl).following same (Nat.le_refl _)
  | @completed persistenceID pending _ found isApplied =>
      subst isApplied
      have completed : (node.completeCommit persistenceID pending).extent.Represented :=
        represented.change (.completed found)
      have stillPrompt : (node.completeCommit persistenceID pending).tally.Prompt :=
        ⟨prompt.hardStates, fun stillPending => prompt.commits (of_update_none stillPending)⟩
      have applied := applyThrough_progress completed stillPrompt (Nat.le_max_right ..)
      have continued : Progress node
          ((node.completeCommit persistenceID pending).applyThrough pending.commitIndex) :=
        ⟨applied.term, applied.applied, applied.reports, applied.prompt⟩
      exact continued.surround rfl (Nat.le_refl _) (show applies [] = [] from rfl)
        (prompt.commits found)

theorem wellPosed_of_inSequence (sequenced : node.inSequence event) : node.wellPosed event := by
  cases event with
  | appendEntries request =>
      simp only [inSequence, Bool.and_eq_true] at sequenced
      exact sequenced.1
  | installSnapshot request =>
      simp only [inSequence, wellPosed, Bool.or_eq_true, Bool.and_eq_true] at sequenced ⊢
      tauto
  | _ => rfl

end Node

/-! ## Runs -/

/-- A core with the positions that it applied since it started. -/
structure Applier where
  core : Node
  applied : List Nat

namespace Applier

def next (applier : Applier) (event : Event) : Applier where
  core := (applier.core.step event).1
  applied := applier.applied ++ applies (applier.core.step event).2

def start (id : NodeID) (peers : List NodeID) (recovered : RecoveredState) : Applier where
  core := Node.newNodeFromRecoveredState id peers recovered
  applied := []

def system (id : NodeID) (peers : List NodeID) (recovered : RecoveredState) :
    System Applier Event :=
  .ofNext (start id peers recovered) fun applier event => some (applier.next event)

/-- What a core applied is behind its applied index, each position once. -/
structure InOrder (applier : Applier) : Prop where
  represented : applier.core.extent.Represented
  prompt : applier.core.tally.Prompt
  behind : ∀ index ∈ applier.applied, index ≤ applier.core.lastApplied
  increasing : applier.applied.Pairwise (· < ·)

theorem start_inOrder {recovered : RecoveredState} (startable : Startable recovered)
    (id : NodeID) (peers : List NodeID) : (start id peers recovered).InOrder := by
  have parked : (start id peers recovered).core.tally.Prompt := by
    rw [start, Node.newNodeFromRecoveredState]
    split_ifs <;> dsimp only <;> split
    all_goals
      constructor <;> intro _ _ waits
      all_goals cases waits
  exact ⟨Node.start_represented startable id peers, parked, List.forall_mem_nil _, .nil⟩

theorem InOrder.next {applier : Applier} (inOrder : applier.InOrder) {event : Event}
    (sequenced : applier.core.inSequence event) : (applier.next event).InOrder := by
  have progress := Node.step_progress inOrder.represented inOrder.prompt sequenced
  have later : ∀ index ∈ applies (applier.core.step event).2,
      applier.core.lastApplied < index ∧ index ≤ (applier.core.step event).1.lastApplied := by
    intro index emitted
    rcases progress.reports with isRange | nothing
    · rw [isRange, List.mem_range'_1] at emitted
      have := progress.applied
      omega
    · rw [nothing] at emitted
      cases emitted
  constructor
  · exact inOrder.represented.changes
      (Node.step_evolves inOrder.represented.commit (Node.wellPosed_of_inSequence sequenced))
  · exact progress.prompt
  · intro index present
    rcases List.mem_append.mp present with early | emitted
    · exact Nat.le_trans (inOrder.behind index early) progress.applied
    · exact (later index emitted).2
  · apply List.pairwise_append.mpr
    refine ⟨inOrder.increasing, ?_, ?_⟩
    · rcases progress.reports with isRange | nothing
      · rw [isRange]
        exact List.pairwise_lt_range' ..
      · rw [nothing]
        exact .nil
    · intro index early newer emitted
      exact Nat.lt_of_le_of_lt (inOrder.behind index early) (later newer emitted).1

/-- In every run in sequence of one incarnation that exhausts no counter, no
transition lowers the Term, the commit index or the applied index, entries are
applied right after the applied ones, and no position is applied twice. -/
theorem monotonic_progress {recovered : RecoveredState} (startable : Startable recovered)
    (id : NodeID) (peers : List NodeID) {applier : Applier}
    (reachable : (system id peers recovered).Reachable
      (fun applier event => applier.core.inRange event && applier.core.inSequence event)
      applier) :
    applier.applied.Pairwise (· < ·) ∧
      ∀ event, applier.core.inRange event → applier.core.inSequence event →
        applier.core.term ≤ (applier.core.step event).1.term ∧
        applier.core.commitIndex ≤ (applier.core.step event).1.commitIndex ∧
        applier.core.lastApplied ≤ (applier.core.step event).1.lastApplied ∧
        (applies (applier.core.step event).2 = List.range' (applier.core.lastApplied + 1)
            ((applier.core.step event).1.lastApplied - applier.core.lastApplied) ∨
          applies (applier.core.step event).2 = []) := by
  have inOrder : applier.InOrder := by
    apply reachable.invariant InOrder
    · rintro _ rfl
      exact start_inOrder startable id peers
    · rintro before event after inOrder permitted taken
      rw [← Option.some.inj taken]
      exact inOrder.next (Bool.and_eq_true_iff.mp permitted).2
  refine ⟨inOrder.increasing, ?_⟩
  intro event _ sequenced
  have progress := Node.step_progress inOrder.represented inOrder.prompt sequenced
  have evolves := Node.step_evolves inOrder.represented.commit
    (Node.wellPosed_of_inSequence sequenced)
  exact ⟨progress.term, evolves.commit_le, progress.applied, progress.reports⟩

theorem monotonic_progress_three : ∃ applier : Applier,
    applier.applied = [1, 2, 3] ∧ applier.core.lastApplied = 3 ∧
      applier.core.inRange (firstSnapshot 4) = true ∧
      applier.core.inSequence (firstSnapshot 4) = true ∧
      3 ≤ (applier.core.step (firstSnapshot 4)).1.lastApplied := by
  have startable : Startable {} := .following trivial (Nat.le_refl _) (Nat.le_refl _)
  have run : (System.execute (fun applier event => some (applier.next event))
      (fun applier event => applier.core.inRange event && applier.core.inSequence event)
      takesThree (start "b" ["a", "c"] {})).map
      (fun applier => (applier.applied, applier.core.lastApplied,
        applier.core.inRange (firstSnapshot 4), applier.core.inSequence (firstSnapshot 4))) =
      some ([1, 2, 3], 3, true, true) := by
    decide +kernel
  rcases System.reachable_of_execute (fun _ _ => id) run with
    ⟨applier, reachable, observed⟩
  simp only [Prod.mk.injEq] at observed
  rcases observed with ⟨applied, lastApplied, inRange, sequenced⟩
  have progress := monotonic_progress startable "b" ["a", "c"] reachable
  refine ⟨applier, applied, lastApplied, inRange, sequenced, ?_⟩
  exact Nat.le_trans lastApplied.ge (progress.2 _ inRange sequenced).2.2.1

/-- A Snapshot of a committed prefix takes the applied index back, and the next
request applies the entry after it again. -/
theorem progress_lost_reapplied :
    let took := takesThree.foldl next (start "b" ["a", "c"] {})
    let installed := took.next (firstSnapshot 2)
    let continued := installed.next (firstRequest 3 [] 3)
    took.core.commitIndex = 3 ∧ took.core.termAt 2 = 1 ∧
      took.core.lastApplied = 3 ∧ installed.core.lastApplied = 2 ∧
      continued.applied = [1, 2, 3, 3] := by
  decide +kernel

end Applier

end Ternion.Raft
