import Ternion.Raft.Start
import Ternion.Runtime.Durability

/-! # A compacted core and its log

Once Snapshots are installed, the core keeps the entries above a base of its
own, and the log those above its checkpoint. They agree when the log recovers
everything that the core holds.
-/

namespace Ternion.RaftRuntime

open Raft

/-- The log stands where the core does, and nothing waits. -/
structure Aligned (live : Wal.RecoveredState NodeID LogEntry) (core : Node) : Prop
    extends core.Durable where
  durableHardState : HardStateDurable core
  storedHardState : live.hardState = ⟨core.term, core.votedFor⟩
  storedCommit : live.commitIndex = core.commitIndex
  storedLast : live.lastIndex = core.lastLogIndex

/-- The log also recovers what the core holds above its base. -/
structure Agrees (live : Wal.RecoveredState NodeID LogEntry) (core : Node) : Prop
    extends Aligned live core where
  covered : live.snapshotIndex ≤ core.logBaseIndex
  based : core.logBaseIndex ≤ core.commitIndex
  storedLog : core.log = live.log.filter fun entry => core.logBaseIndex < entry.index

section

variable {checkpointSize : Wal.CompactionCheckpoint NodeID → Nat}
  {live : Wal.RecoveredState NodeID LogEntry} {core after : Node}

/-- The entries above a position within the log. -/
theorem filter_above (valid : live.Valid (walFormat checkpointSize)) {base : Nat}
    (covered : live.snapshotIndex ≤ base) (within : base ≤ live.lastIndex) :
    Consecutive LogEntry.index base (live.log.filter fun entry => base < entry.index) ∧
      live.lastIndex = base + (live.log.filter fun entry => base < entry.index).length := by
  have consecutive : Consecutive LogEntry.index live.snapshotIndex live.log := valid.consecutive
  have reaches := consecutive.filter_gt_length covered
  rw [Wal.RecoveredState.lastIndex] at within ⊢
  rw [Nat.max_eq_right within] at reaches
  exact ⟨consecutive.filter_gt_consecutive covered, reaches.symm⟩

/-- The hard state with which a Node follows a Leader of a Term. -/
def reachedHardState (core : Node) (term : Nat) : Wal.HardState NodeID :=
  if core.term < term then ⟨term, ""⟩ else ⟨core.term, core.votedFor⟩

theorem reachWrites_appends (stored : live.hardState = ⟨core.term, core.votedFor⟩) (term : Nat) :
    Wal.Appends (walFormat checkpointSize) live ((reachWrites core term).map Write.record)
      { live with hardState := reachedHardState core term } := by
  rw [reachWrites, reachedHardState]
  split_ifs with newer
  · have extending : (Wal.Record.hardState ⟨term, ""⟩).Extends (walFormat checkpointSize) live := by
      rw [Wal.Record.Extends, stored]
      exact .inl newer
    exact .single extending
  · rw [← stored]
    exact .nil

/-- Without compaction the log recovers the whole log of the core. -/
theorem InStep.agrees {identity : Wal.Identity NodeID} {store : Store}
    (inStep : InStep checkpointSize identity core store) : Agrees (store.live identity) core := by
  have consecutive : Consecutive LogEntry.index 0 store.log := inStep.valid.consecutive
  have base := inStep.whole.base
  have storedHardState := inStep.synced.storedHardState
  constructor
  case toAligned =>
    constructor
    case toDurable => exact inStep.synced.toDurable
    case durableHardState => exact inStep.synced.durableHardState
    case storedHardState => rw [Store.live, storedHardState]
    case storedCommit => exact inStep.synced.storedCommit
    case storedLast =>
      rw [inStep.whole.lastIndex, ← inStep.synced.storedLog]
      exact Nat.zero_add _
  case covered => exact Nat.zero_le _
  case based => exact base ▸ Nat.zero_le _
  case storedLog =>
    have all : ∀ entry ∈ store.log, decide (core.logBaseIndex < entry.index) = true := by
      intro entry present
      rw [base, decide_eq_true_eq]
      exact (consecutive.bounds present).1
    exact inStep.synced.storedLog.symm.trans (List.filter_eq_self.mpr all).symm

theorem Agrees.known (agrees : Agrees live core) (valid : live.Valid (walFormat checkpointSize)) :
    core.logBaseIndex ≤ live.lastIndex := by
  have known := valid.known
  rw [agrees.storedCommit] at known
  exact agrees.based.trans known

/-- The core's log is numbered from its base. -/
theorem Agrees.placed (agrees : Agrees live core) (valid : live.Valid (walFormat checkpointSize)) :
    core.journal.Placed := by
  rcases filter_above valid agrees.covered (agrees.known valid) with ⟨consecutive, ends⟩
  rw [← agrees.storedLog] at consecutive ends
  exact ⟨consecutive, agrees.storedLast.symm.trans ends, agrees.based⟩

/-! ## The next entries -/

namespace Aligned

/-- Following a Leader leads to the Term that is recorded. -/
theorem follow (aligned : Aligned live core) {term : Nat} (leader : NodeID)
    (reached : core.term ≤ term) :
    Aligned { live with hardState := reachedHardState core term } (followNow core term leader) := by
  have holds := holdings_followNow core term leader
  have last := congrArg Holdings.lastLogIndex holds
  have commit := congrArg Holdings.commitIndex holds
  have durable := durable_of_holdings holds aligned.toDurable
  have hardState : HardStateDurable (followNow core term leader) ∧ reachedHardState core term =
      ⟨(followNow core term leader).term, (followNow core term leader).votedFor⟩ := by
    rw [followNow, reachedHardState]
    split_ifs with newer
    · have termNow := Node.acceptLeader_term reached leader
      have voteNow := Node.acceptLeader_votedFor newer leader
      rw [Node.hardStateSaved, termNow, voteNow]
      exact ⟨⟨rfl, rfl⟩, rfl⟩
    · have same : core.acceptLeader term leader = { core with
          role := .follower
          leaderID := leader
          readReady := false
          recentLeaderContact := true } := by
        simp only [Node.acceptLeader, if_neg newer]
      rw [same]
      exact ⟨aligned.durableHardState, rfl⟩
  exact {
    toDurable := durable
    durableHardState := hardState.1
    storedHardState := hardState.2
    storedCommit := aligned.storedCommit.trans commit.symm
    storedLast := aligned.storedLast.trans last.symm }

section

variable (aligned : Aligned live core) (valid : live.Valid (walFormat checkpointSize))
  {request : AppendEntries}
  (consecutive : Consecutive LogEntry.index request.prevLogIndex request.entries)

include aligned valid consecutive

/-- Entries that the core takes extend the log. -/
theorem takeEntries :
    ∃ final, Wal.Appends (walFormat checkpointSize) live
      ((takeEntriesNow core request).writes.map Write.record) final := by
  -- The commit index that follows lies within what was stored.
  have confirms : ∀ {held : Wal.RecoveredState NodeID LogEntry} {node : Node},
      held.commitIndex = node.commitIndex → held.lastIndex = node.lastLogIndex →
      ∃ final, Wal.Appends (walFormat checkpointSize) held
        ((confirmNow node request).writes.map Write.record) final := by
    intro held node commit last
    rw [confirmNow]
    split_ifs with behind
    · have extending : (Wal.Record.commitIndex (min request.leaderCommit node.lastLogIndex)).Extends
          (walFormat checkpointSize) held := by
        rw [Wal.Record.Extends, commit, last]
        exact ⟨behind, Nat.min_le_right ..⟩
      exact ⟨_, .single extending⟩
    · exact ⟨held, .nil⟩
  rw [takeEntriesNow]
  split_ifs
  · cases taken : core.entriesToAppend request.prevLogIndex request.entries with
    | none => exact ⟨live, .nil⟩
    | some suffix =>
        simp only
        split_ifs with isNew
        · rcases core.entriesToAppendFrom_placed request.entries request.prevLogIndex consecutive
            taken isNew with ⟨cut, follows⟩
          rcases appends_storeWrites valid aligned.storedLast aligned.storedCommit cut follows with
            ⟨held, stores, commit, last⟩
          have replaced := core.replaceSuffix_journal isNew follows
          have sameCommit : (stored core suffix.1 suffix.2).commitIndex = core.commitIndex := by
            have kept : (core.journal.keep suffix.2).commitIndex = core.commitIndex := by
              rw [Book.keep]
              split_ifs <;> rfl
            exact (congrArg (fun journal => journal.commitIndex) replaced).trans kept
          have sameLast : (stored core suffix.1 suffix.2).lastLogIndex =
              (core.journal.keep suffix.2).lastLogIndex + suffix.1.length :=
            congrArg (fun journal => journal.lastLogIndex) replaced
          rcases confirms (commit.trans (aligned.storedCommit.trans sameCommit.symm))
            (last.trans sameLast.symm) with ⟨final, confirmed⟩
          rw [Outcome.wrote, List.map_append]
          exact ⟨final, stores.append confirmed⟩
        · exact confirms aligned.storedCommit aligned.storedLast
  · exact ⟨live, .nil⟩

theorem appendEntries :
    ∃ final, Wal.Appends (walFormat checkpointSize) live
      ((stepNow core (.appendEntries request)).writes.map Write.record) final := by
  rw [stepNow, appendEntriesNow]
  split_ifs with stale
  · exact ⟨live, .nil⟩
  · have reaches : Wal.Appends (walFormat checkpointSize) live
        ((reachWrites core request.term).map Write.record) _ :=
      reachWrites_appends aligned.storedHardState request.term
    have following := aligned.follow request.sender (Nat.le_of_not_lt stale)
    rcases following.takeEntries (reaches.valid valid) consecutive with ⟨final, taken⟩
    rw [Outcome.wrote, List.map_append]
    exact ⟨final, reaches.append taken⟩

end

end Aligned

/-- A Leader that is followed leaves the log alone. -/
theorem Agrees.follow (agrees : Agrees live core) {term : Nat} (leader : NodeID)
    (reached : core.term ≤ term) :
    Agrees { live with hardState := reachedHardState core term } (followNow core term leader) := by
  have holds := holdings_followNow core term leader
  have log := congrArg Holdings.log holds
  have base := congrArg Holdings.logBaseIndex holds
  have commit := congrArg Holdings.commitIndex holds
  simp only [holdings] at log base commit
  constructor
  case toAligned => exact agrees.toAligned.follow leader reached
  case covered =>
    rw [base]
    exact agrees.covered
  case based =>
    rw [base, commit]
    exact agrees.based
  case storedLog =>
    rw [log, base]
    exact agrees.storedLog

/-! ## Starting from a Snapshot -/

/-- What a core starts from at a position of the recovered history. -/
def startingAt (live : Wal.RecoveredState NodeID LogEntry) (index term : Nat) : RecoveredState where
  hardState := ⟨live.hardState.term, live.hardState.votedFor⟩
  log := live.log.filter fun entry => index < entry.index
  commitIndex := live.commitIndex
  snapshotIndex := index
  snapshotTerm := term

theorem recoveredCore_some (valid : live.Valid (walFormat checkpointSize))
    (loaded : Snapshot.State) : recoveredCore live (some loaded) =
      startingAt live loaded.includedIndex loaded.includedTerm := by
  have consecutive : Consecutive LogEntry.index live.snapshotIndex live.log := valid.consecutive
  rw [recoveredCore, startingAt, consecutive.dropWhile_eq_filter]

/-! ## An installed Snapshot -/

/-- What the log recovers after a Snapshot of the Leader was installed. -/
def installed (live : Wal.RecoveredState NodeID LogEntry) (snapshotIndex snapshotTerm : Nat) :
    Wal.RecoveredState NodeID LogEntry :=
  { live with
    log := live.log.filter fun entry => snapshotIndex < entry.index
    commitIndex := max live.commitIndex snapshotIndex
    snapshotIndex := snapshotIndex
    snapshotTerm := snapshotTerm }

section

variable (valid : live.Valid (walFormat checkpointSize))

include valid

/-- Nothing of the log is above its end. -/
theorem filter_beyond {index : Nat} (beyond : live.lastIndex ≤ index) :
    (live.log.filter fun entry => index < entry.index) = [] := by
  have consecutive : Consecutive LogEntry.index live.snapshotIndex live.log := valid.consecutive
  rw [consecutive.filter_gt, List.drop_eq_nil_iff]
  rw [Wal.RecoveredState.lastIndex] at beyond
  omega

/-- The log reaches as far as the Snapshot, or as far as its entries above. -/
theorem installed_lastIndex
    {snapshotIndex snapshotTerm : Nat} (later : live.snapshotIndex ≤ snapshotIndex) :
    (installed live snapshotIndex snapshotTerm).lastIndex = max live.lastIndex snapshotIndex := by
  rcases Nat.le_total snapshotIndex live.lastIndex with within | beyond
  · have ends := (filter_above valid later within).2
    rw [Nat.max_eq_left within, ends]
    rfl
  · rw [Nat.max_eq_right beyond, Wal.RecoveredState.lastIndex, installed,
      filter_beyond valid beyond]
    rfl

theorem installed_valid
    {snapshotIndex : Nat} (snapshotTerm : Nat) (later : live.snapshotIndex ≤ snapshotIndex) :
    (installed live snapshotIndex snapshotTerm).Valid (walFormat checkpointSize) where
  clusterID := valid.clusterID
  nodeID := valid.nodeID
  consecutive := valid.consecutive.filter_gt_consecutive later
  committed := Nat.le_max_right ..
  known := by
    have known := valid.known
    rw [installed_lastIndex valid later]
    simp only [installed]
    omega

end

/-- A core that moves its base to the Snapshot. -/
theorem Agrees.rebased (agrees : Agrees live core) {snapshotIndex snapshotTerm last durable : Nat}
    (lastTerm : Nat) (ends : (installed live snapshotIndex snapshotTerm).lastIndex = last)
    (durably : last ≤ durable) :
    Agrees (installed live snapshotIndex snapshotTerm) { core with
      log := live.log.filter fun entry => snapshotIndex < entry.index
      logBaseIndex := snapshotIndex
      logBaseTerm := snapshotTerm
      commitIndex := max core.commitIndex snapshotIndex
      durableCommitIndex := max core.durableCommitIndex snapshotIndex
      lastApplied := snapshotIndex
      lastLogIndex := last
      lastLogTerm := lastTerm
      durableLogIndex := durable } :=
  { agrees with
    log_le := durably
    commit_eq := congrArg (max · snapshotIndex) agrees.commit_eq
    above := Nat.le_refl _
    storedCommit := congrArg (max · snapshotIndex) agrees.storedCommit
    covered := Nat.le_refl _
    based := Nat.le_max_right ..
    storedLog := (filter_gt_filter_gt LogEntry.index (Nat.le_refl snapshotIndex) live.log).symm
    storedLast := ends }

/-- The core keeps the entries above a Snapshot that its log leads to, or that
lies at its end. -/
theorem Agrees.installs (agrees : Agrees live core)
    (valid : live.Valid (walFormat checkpointSize)) {request : InstallSnapshot}
    (later : core.logBaseIndex < request.snapshotIndex)
    (leads : core.lastLogIndex ≤ request.snapshotIndex ∨
      core.termAt request.snapshotIndex = request.snapshotTerm) :
    Agrees (installed live request.snapshotIndex request.snapshotTerm)
      (core.installSnapshotBase request) := by
  have covered := agrees.covered
  have known := agrees.known valid
  have last := agrees.storedLast
  have placed := agrees.placed valid
  have durableLast := agrees.log_le
  have ends : (installed live request.snapshotIndex request.snapshotTerm).lastIndex =
      max live.lastIndex request.snapshotIndex :=
    installed_lastIndex valid (covered.trans later.le)
  -- What the core drops is what the log covers.
  have kept : (core.log.dropWhile fun entry => entry.index ≤ request.snapshotIndex) =
      live.log.filter fun entry => request.snapshotIndex < entry.index := by
    have consecutive : Consecutive LogEntry.index core.logBaseIndex core.log := placed.consecutive
    rw [consecutive.dropWhile_eq_filter, agrees.storedLog,
      filter_gt_filter_gt LogEntry.index later.le]
  by_cases matched : request.snapshotIndex ≤ core.lastLogIndex ∧
      core.termAt request.snapshotIndex = request.snapshotTerm
  · have within : request.snapshotIndex ≤ live.lastIndex := last ▸ matched.1
    rcases filter_above valid (covered.trans later.le) within with ⟨consecutive, reaches⟩
    rw [Node.installSnapshotBase_matched matched kept]
    apply agrees.rebased
    · rw [ends, Nat.max_eq_left within]
      cases isLast : (live.log.filter fun entry =>
          request.snapshotIndex < entry.index).getLast? with
      | none => exact last
      | some entry => exact reaches.trans (consecutive.getLast isLast).symm
    · cases (live.log.filter fun entry => request.snapshotIndex < entry.index).getLast? with
      | none => exact durableLast
      | some entry => exact Nat.le_refl _
  · have beyond : live.lastIndex ≤ request.snapshotIndex := by
      rcases leads with short | same
      · exact last ▸ short
      · rw [last]
        exact Nat.le_of_lt (Nat.lt_of_not_le fun within => matched ⟨within, same⟩)
    have rebased := agrees.rebased request.snapshotTerm (ends.trans (Nat.max_eq_right beyond))
      (Nat.le_refl _)
    rw [filter_beyond valid beyond] at rebased
    rw [Node.installSnapshotBase_unmatched matched]
    exact rebased

end

end Ternion.RaftRuntime
