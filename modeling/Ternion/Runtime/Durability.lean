import Ternion.Raft.Words
import Ternion.Runtime.LockStep

/-! # Steps on the log, and opening it again

The loop makes its calls while the core waits for their completion. Its writes
are known from `stepNow`, so every call finds the log as its checks want it.
-/

namespace Ternion.Raft.Journal

variable {replaces trims : Prop} {journal after : Journal} {event : Event}
  {actions : List Action} {writes : List LogWrite}

variable {records : List (Wal.Record NodeID LogEntry)}

/-- Every write that waits has entries. -/
structure Substantial (journal : Journal) : Prop where
  commits : journal.CommitsWriteNothing
  held : ∀ {persistenceID pending}, journal.pendingHardState persistenceID = some pending →
    ∀ write ∈ pending.after.filterMap Action.logWrite, write.entries ≠ []

theorem Move.entries_ne_nil (move : journal.Move replaces trims after writes) :
    ∀ write ∈ writes, write.entries ≠ [] := by
  intro write present
  cases move with
  | same => cases present
  | committed => cases present
  | stored isNew =>
      cases List.mem_singleton.mp present
      exact isNew
  | trimmed => cases present

theorem Step.substantial (step : journal.Step replaces trims event after actions)
    (substantial : journal.Substantial) :
    after.Substantial ∧ ∀ write ∈ actions.filterMap Action.logWrite, write.entries ≠ [] := by
  have commits : after.CommitsWriteNothing := step.commitsWriteNothing substantial.commits
  have none_ : ∀ {durable : Nat} {idle : List Action}, Idle durable idle →
      ∀ write ∈ idle.filterMap Action.logWrite, write.entries ≠ [] := by
    intro durable idle isIdle write present
    rw [isIdle.2] at present
    cases present
  cases step with
  | moved _ move _ =>
      refine ⟨⟨commits, fun found => ?_⟩, move.entries_ne_nil⟩
      rw [move.pendingHardState.1] at found
      exact substantial.held found
  | voted _ idle => exact ⟨⟨commits, substantial.held⟩, none_ idle⟩
  | @delayed _ term votedFor middle later leading _ move _ idle =>
      constructor
      · refine ⟨commits, fun {persistenceID pending} found => ?_⟩
        by_cases newest : persistenceID = middle.nextHardStatePersistence + 1
        · simp only [persistHardState, newest, Function.update_self, Option.some.injEq] at found
          rw [← found]
          exact move.entries_ne_nil
        · simp only [persistHardState, Function.update_of_ne newest] at found
          rw [move.pendingHardState.1] at found
          exact substantial.held found
      · rw [List.filterMap_append]
        intro write present
        rcases List.mem_append.mp present with early | late
        · exact none_ idle write early
        · cases late
  | ignored => exact ⟨⟨commits, substantial.held⟩, fun _ present => by cases present⟩
  | released found =>
      refine ⟨⟨commits, fun other => substantial.held (of_update_none other)⟩, ?_⟩
      split_ifs
      · exact fun _ present => by cases present
      · exact substantial.held found
  | written _ move idle =>
      refine ⟨⟨commits, fun found => ?_⟩, none_ idle⟩
      rw [move.pendingHardState.1] at found
      exact substantial.held found
  | applied found idle =>
      refine ⟨⟨commits, substantial.held⟩, ?_⟩
      rw [List.filterMap_append, substantial.commits found, List.append_nil]
      exact none_ idle

end Ternion.Raft.Journal

namespace Ternion.RaftRuntime

open Raft

/-- Completions keep every waiting write substantial. -/
theorem completion_substantial {node : Node} {action : Action} {event : Event}
    (completes : completion action = some event) (substantial : node.journal.Substantial) :
    (node.step event).1.journal.Substantial ∧
      ∀ write ∈ (node.step event).2.filterMap Action.logWrite, write.entries ≠ [] := by
  have isCompletion : event.trimsLog = false ∧ node.sane event = true := by
    cases action <;> cases completes <;> exact ⟨rfl, rfl⟩
  exact (Node.step_journal (by simp [isCompletion]) isCompletion.2).substantial substantial

/-! ## The calls of the loop -/

section Calls

variable {checkpointSize : Wal.CompactionCheckpoint NodeID → Nat}
  {live final : Wal.RecoveredState NodeID LogEntry}

/-- The calls of a persistence are accepted where its records extend the log. -/
theorem callsOf_accepts {action : Action}
    (substantial : ∀ write ∈ action.logWrite, write.entries ≠ [])
    (small : ∀ write ∈ writesOf action, write.record.Small (walFormat checkpointSize))
    (appends : Wal.Appends (walFormat checkpointSize) live ((writesOf action).map Write.record)
      final) : Wal.Accepts (walFormat checkpointSize) live (callsOf action) final := by
  cases action with
  | persistHardState persistenceID term votedFor =>
      cases appends with
      | cons extending rest =>
          cases rest
          exact .cons ⟨extending, small _ List.mem_cons_self⟩ .nil
  | persistCommitIndex persistenceID commitIndex =>
      cases appends with
      | cons extending rest =>
          cases rest
          exact .cons ⟨Nat.le_of_lt extending.1, extending.2, small _ List.mem_cons_self⟩ .nil
  | persistLogEntries persistenceID truncateFrom entries =>
      have isNew : entries ≠ [] := substantial ⟨persistenceID, truncateFrom, entries⟩ rfl
      have saves : ∀ {middle : Wal.RecoveredState NodeID LogEntry},
          Wal.Appends (walFormat checkpointSize) middle
            ((entries.map Write.saveLogEntry).map Write.record) final →
          Wal.Accepts (walFormat checkpointSize) middle [.saveLogEntries entries] final := by
        intro middle recorded
        rw [List.map_map] at recorded
        rcases Wal.Appends.of_entries recorded with ⟨consecutive, same⟩
        rw [same]
        refine .cons ⟨isNew, consecutive, fun entry present => ?_⟩ .nil
        exact small _ (List.mem_append_right _ (List.mem_map_of_mem present))
      rw [writesOf] at appends small
      rw [List.map_append] at appends
      rw [callsOf]
      split_ifs at appends small ⊢
      · cases appends with
        | cons extending rest =>
            exact .cons ⟨extending.1, extending.2, small _ List.mem_cons_self⟩ (saves rest)
      · exact saves appends
  | _ =>
      cases appends
      exact .nil

/-- The log stands for a state, with records on disk. -/
structure Keeps (checkpointSize : Wal.CompactionCheckpoint NodeID → Nat) (wal : Log)
    (records : List (Wal.Record NodeID LogEntry)) (live : Wal.RecoveredState NodeID LogEntry) :
    Prop where
  sound : wal.Sound (walMedium checkpointSize) (fun _ => True) records live
  valid : live.Valid (walFormat checkpointSize)

/-- The log recovers a state. -/
def Recovers (checkpointSize : Wal.CompactionCheckpoint NodeID → Nat) (wal : Log)
    (live : Wal.RecoveredState NodeID LogEntry) : Prop :=
  ∃ records, wal.Sound (walMedium checkpointSize) (fun _ => True) records live ∧
    Wal.Intact (walFormat checkpointSize) records live

theorem persist_succeeds {wal : Log} {action : Action}
    (substantial : ∀ write ∈ action.logWrite, write.entries ≠ [])
    (small : ∀ write ∈ writesOf action, write.record.Small (walFormat checkpointSize))
    (keeps : Keeps checkpointSize wal records live)
    (appends : Wal.Appends (walFormat checkpointSize) live ((writesOf action).map Write.record)
      final) :
    ∃ after more, persist checkpointSize wal action = .ok after ∧
      Wal.Appends (walFormat checkpointSize) live more final ∧
      Keeps checkpointSize after (records ++ more) final := by
  rcases keeps.sound.accepts (fun _ => trivial) keeps.valid
    (callsOf_accepts substantial small appends) with ⟨after, more, called, extended, sound⟩
  exact ⟨after, more, called, extended, sound, extended.valid keeps.valid⟩

end Calls

/-! ## The loop -/

/-- The loop on the log ends as the loop on the core does. -/
theorem Drained.onLog {checkpointSize : Wal.CompactionCheckpoint NodeID → Nat} {core : Node}
    {pending : List Action} {outcome : Outcome} (drained : Drained core pending outcome)
    {runtime : Runtime} (isCore : runtime.core = core)
    {live final : Wal.RecoveredState NodeID LogEntry}
    (keeps : Keeps checkpointSize runtime.wal records live)
    (small : ∀ write ∈ outcome.writes, write.record.Small (walFormat checkpointSize))
    (appends : Wal.Appends (walFormat checkpointSize) live (outcome.writes.map Write.record) final)
    (substantial : core.journal.Substantial)
    (queued : ∀ write ∈ pending.filterMap Action.logWrite, write.entries ≠ []) :
    ∃ budget more, Wal.Appends (walFormat checkpointSize) live more final ∧
      ∀ larger, budget ≤ larger → ∃ after : Runtime,
        runtime.drain checkpointSize larger pending = some (.ok (after, outcome.emitted)) ∧
          after.core = outcome.core ∧ Keeps checkpointSize after.wal (records ++ more) final := by
  induction drained generalizing runtime records live with
  | done core =>
      cases appends
      rw [← List.append_nil records] at keeps
      refine ⟨0, [], .nil, fun larger _ => ⟨runtime, ?_, isCore, keeps⟩⟩
      cases larger <;> rfl
  | @persist core action pending event outcome completes _ induction =>
      rw [Outcome.wrote, List.map_append] at appends
      rcases Wal.Appends.split appends with ⟨middle, first, rest⟩
      have own : ∀ write ∈ action.logWrite, write.entries ≠ [] := by
        intro write isWrite
        apply queued write
        rw [List.mem_filterMap]
        exact ⟨action, List.mem_cons_self, isWrite⟩
      rcases completion_substantial completes substantial with ⟨substantialLater, emitted⟩
      have queuedLater : ∀ write ∈ (pending ++ (core.step event).2).filterMap Action.logWrite,
          write.entries ≠ [] := by
        intro write present
        rw [List.filterMap_append] at present
        rcases List.mem_append.mp present with waiting | new
        · rcases List.mem_filterMap.mp waiting with ⟨other, otherPending, isWrite⟩
          exact queued write (List.mem_filterMap.mpr
            ⟨other, List.mem_cons_of_mem _ otherPending, isWrite⟩)
        · exact emitted write new
      have smallFirst : ∀ write ∈ writesOf action, write.record.Small (walFormat checkpointSize) :=
        fun write present => small write (List.mem_append_left _ present)
      have smallRest : ∀ write ∈ outcome.writes, write.record.Small (walFormat checkpointSize) :=
        fun write present => small write (List.mem_append_right _ present)
      rcases persist_succeeds own smallFirst keeps first with
        ⟨after, written, persisted, extended, keepsLater⟩
      have later :
        Keeps checkpointSize { runtime with core := (core.step event).1, wal := after }.wal
          (records ++ written) middle := keepsLater
      rcases induction rfl later smallRest rest substantialLater queuedLater with
        ⟨budget, more, appended, ends⟩
      rw [List.append_assoc] at ends
      refine ⟨budget + 1, written ++ more, extended.append appended, fun larger enough => ?_⟩
      cases larger with
      | zero => cases enough
      | succ larger =>
          rw [Runtime.drain, completes]
          simp only [persisted, isCore]
          exact ends larger (Nat.le_of_succ_le_succ enough)
  | @emit core action pending outcome nothing _ induction =>
      have queuedLater : ∀ write ∈ pending.filterMap Action.logWrite, write.entries ≠ [] := by
        intro write present
        rcases List.mem_filterMap.mp present with ⟨other, otherPending, isWrite⟩
        exact queued write (List.mem_filterMap.mpr
          ⟨other, List.mem_cons_of_mem _ otherPending, isWrite⟩)
      rcases induction isCore keeps small appends substantial queuedLater with
        ⟨budget, more, appended, ends⟩
      refine ⟨budget + 1, more, appended, fun larger enough => ?_⟩
      cases larger with
      | zero => cases enough
      | succ larger =>
          rcases ends larger (Nat.le_of_succ_le_succ enough) with ⟨after, found, ending⟩
          rw [Runtime.drain, nothing]
          simp only [found, Option.map_some]
          exact ⟨after, rfl, ending⟩

/-- Nothing waits in an idle core. -/
theorem Idle.substantial {node : Node} (idle : node.Idle) : node.journal.Substantial where
  commits := fun {persistenceID pending} found => by
    have none_ : node.journal.pendingCommit persistenceID = none :=
      congrFun idle.commit persistenceID
    rw [none_] at found
    cases found
  held := fun {persistenceID pending} found => by
    have none_ : node.journal.pendingHardState persistenceID = none :=
      congrFun idle.hardState persistenceID
    rw [none_] at found
    cases found

section

variable {checkpointSize : Wal.CompactionCheckpoint NodeID → Nat} {runtime : Runtime}

/-- A step whose writes extend the log ends as the step of the core does. -/
theorem Runtime.steps {event : Event} {live final : Wal.RecoveredState NodeID LogEntry}
    (durable : runtime.core.Durable) (placed : runtime.core.journal.Placed)
    (sane : runtime.core.sane event) (keeps : Keeps checkpointSize runtime.wal records live)
    (allowed : ∀ write ∈ (stepNow runtime.core event).writes, Allowed runtime.core write)
    (appends : Wal.Appends (walFormat checkpointSize) live
      ((stepNow runtime.core event).writes.map Write.record) final) :
    ∃ budget more, Wal.Appends (walFormat checkpointSize) live more final ∧
      ∀ larger, budget ≤ larger → ∃ after : Runtime,
        runtime.step checkpointSize larger event =
            some (.ok (after, (stepNow runtime.core event).emitted)) ∧
          after.core = (stepNow runtime.core event).core ∧
          Keeps checkpointSize after.wal (records ++ more) final := by
  have drained := stepNow_drained durable event
  have quiet := Idle.substantial durable.toIdle
  rcases (runtime.core.step_journal (fun _ => placed) sane).substantial quiet with
    ⟨substantial, queued⟩
  have isCore : { runtime with core := (runtime.core.step event).1 }.core =
      (runtime.core.step event).1 := rfl
  exact drained.onLog isCore keeps (fun write present => (allowed write present).small _) appends
    substantial queued

/-- A larger budget finds the same result. -/
theorem Runtime.drain_mono {budget larger : Nat} {pending : List Action}
    {result : Except Wal.Error (Runtime × List Action)}
    (drained : runtime.drain checkpointSize budget pending = some result)
    (enough : budget ≤ larger) : runtime.drain checkpointSize larger pending = some result := by
  induction budget generalizing larger runtime pending result with
  | zero =>
      cases pending with
      | nil =>
          cases drained
          cases larger <;> rfl
      | cons action pending => cases drained
  | succ budget induction =>
      cases pending with
      | nil =>
          cases drained
          cases larger <;> rfl
      | cons action pending =>
          cases larger with
          | zero => cases enough
          | succ larger =>
              have within := Nat.le_of_succ_le_succ enough
              rw [Runtime.drain] at drained ⊢
              cases completes : completion action with
              | none =>
                  simp only [completes, Option.map_eq_some_iff] at drained ⊢
                  rcases drained with ⟨rest, found, same⟩
                  exact ⟨rest, induction found within, same⟩
              | some event =>
                  simp only [completes] at drained ⊢
                  cases persisted : persist checkpointSize runtime.wal action with
                  | error error =>
                      simp only [persisted] at drained ⊢
                      exact drained
                  | ok wal =>
                      simp only [persisted] at drained ⊢
                      exact induction drained within

end

/-! ## Runs -/

inductive Input where
  | event (event : Event)
  | reopen

/-- A Node that starts in an empty data directory, takes events and is closed
and opened again. -/
def runtimeSystem (checkpointSize : Wal.CompactionCheckpoint NodeID → Nat) (config : Config)
    (peers : List NodeID) : System Runtime Input where
  initial := fun runtime => openRaftRuntime checkpointSize config peers {} = .ok runtime
  step := fun before input after =>
    match input with
    | .event event => ∃ budget emitted,
        before.step checkpointSize budget event = some (.ok (after, emitted))
    | .reopen =>
        openRaftRuntime checkpointSize config peers { segments := before.wal.segments } = .ok after

/-- No Snapshot is installed and nothing is compacted, and batches of entries
follow the position they name. Every record fits a frame, and no counter of the
core reaches its end. -/
def Runtime.permits (runtime : Runtime) : Input → Bool
  | .event event => uninstalledEvent event && runtime.core.sane event &&
      (fitsFrames runtime.core event && runtime.core.inRange event)
  | .reopen => true

/-- Core and log agree. -/
def Agree (checkpointSize : Wal.CompactionCheckpoint NodeID → Nat) (config : Config)
    (runtime : Runtime) : Prop :=
  ∃ store, InStep checkpointSize (walIdentity config) runtime.core store ∧
    Recovers checkpointSize runtime.wal (store.live (walIdentity config))

section Runs

variable {checkpointSize : Wal.CompactionCheckpoint NodeID → Nat} {config : Config}
  {peers : List NodeID} {runtime : Runtime}

/-- A Node that restarts from a log without compaction is in step with it. -/
theorem InStep.recovered {identity : Wal.Identity NodeID} {store : Store}
    (valid : (store.live identity).Valid (walFormat checkpointSize)) (id : NodeID) :
    InStep checkpointSize identity
      (.newNodeFromRecoveredState id peers (recoveredCore (store.live identity) none)) store where
  synced := .recovered id peers store
  valid := valid
  whole := by
    have consecutive : Consecutive LogEntry.index 0 store.log := valid.consecutive
    have indexed : Indexed store.log := by
      intro offset entry found
      rw [consecutive.position_eq found, Nat.zero_add]
    simp only [recoveredCore, Node.newNodeFromRecoveredState]
    rw [if_neg fun compacted => Nat.lt_irrefl 0 compacted.1]
    cases last : store.log.getLast? with
    | none =>
        have empty : store.log = [] := List.getLast?_eq_none_iff.mp last
        simp only [Store.live, empty, List.getLast?_nil]
        exact ⟨rfl, rfl, empty ▸ indexed, rfl, rfl⟩
    | some entry =>
        simp only [Store.live, last]
        refine ⟨rfl, rfl, indexed, ?_, ?_⟩
        · rw [consecutive.getLast last, Nat.zero_add]
        · rw [Consensus.lastTerm, last]
          rfl

theorem InStep.placed {identity : Wal.Identity NodeID} {store : Store} {node : Node}
    (inStep : InStep checkpointSize identity node store) : node.journal.Placed where
  consecutive := by
    have consecutive := inStep.valid.consecutive
    have base : node.journal.logBaseIndex = 0 := inStep.whole.base
    have log : node.journal.log = store.log := inStep.synced.storedLog.symm
    rw [base, log]
    exact consecutive
  last := by
    have base := inStep.whole.base
    have last := inStep.whole.lastIndex
    simp only [Node.journal]
    omega
  base := by
    have base := inStep.whole.base
    simp only [Node.journal]
    omega

/-- A Node whose core and log agree can be closed and opened again. -/
theorem Agree.reopens (agree : Agree checkpointSize config runtime) :
    ∃ reopened store,
      openRaftRuntime checkpointSize config peers { segments := runtime.wal.segments } =
          .ok reopened ∧
        Synced runtime.core store ∧ Synced reopened.core store ∧
        Agree checkpointSize config reopened := by
  rcases agree with ⟨store, inStep, records, sound, intact⟩
  have roomy : Wal.segmentHeaderSize + Wal.frameHeaderSize < defaultSegmentSize := by decide
  rcases sound.reopens intact (Wal.recordMedium_lawful _) roomy with ⟨wal, opened, soundAfter⟩
  have recovered : InStep checkpointSize (walIdentity config)
      (.newNodeFromRecoveredState config.nodeID peers
        (recoveredCore (store.live (walIdentity config)) none)) store :=
    .recovered inStep.valid config.nodeID
  refine ⟨{
    core := .newNodeFromRecoveredState config.nodeID peers
      (recoveredCore (store.live (walIdentity config)) none)
    wal := wal }, store, ?_, inStep.synced, recovered.synced, store, recovered, records,
    soundAfter, intact⟩
  have openedHere : Wal.WAL.openWAL (walMedium checkpointSize) (walIdentity config)
      defaultSegmentSize runtime.wal.segments =
        .ok (wal, store.live (walIdentity config)) := opened
  rw [openRaftRuntime, openLog_whole, openedHere]
  rfl

theorem Agree.opened
    (opened : openRaftRuntime checkpointSize config peers {} = .ok runtime) :
    Agree checkpointSize config runtime := by
  rw [openRaftRuntime] at opened
  rcases Fallible.bind_eq_ok.mp opened with ⟨⟨wal, recovered⟩, isOpened, rest⟩
  have created : Wal.WAL.openWAL (walMedium checkpointSize) (walIdentity config)
      defaultSegmentSize [] = .ok (wal, recovered) := Fallible.mapError_eq_ok.mp isOpened
  have fresh : recovered = .fresh (walIdentity config) := by
    rw [Wal.WAL.openWAL] at created
    split_ifs at created with _ _ some_
    · rcases Fallible.bind_eq_ok.mp created with ⟨made, _, same⟩
      cases same
      rfl
    · exact absurd rfl some_
  rcases Wal.WAL.openWAL_eq_ok created with ⟨clusterID, nodeID, _⟩
  have sound : wal.Sound (walMedium checkpointSize) (fun _ => True) _
      (.fresh (walIdentity config)) := Wal.WAL.openWAL_nil_sound trivial trivial created
  have intact := Wal.Intact.start clusterID nodeID
  have valid : (Store.live (walIdentity config) {}).Valid (walFormat checkpointSize) :=
    intact.valid
  have started : InStep checkpointSize (walIdentity config)
      (.newNodeFromRecoveredState config.nodeID peers
        (recoveredCore (Store.live (walIdentity config) {}) none)) {} :=
    .recovered valid config.nodeID
  rw [fresh] at rest
  cases rest
  exact ⟨{}, started, _, sound, intact⟩

/-- One step on the log keeps core and log in agreement. -/
theorem Agree.step (agree : Agree checkpointSize config runtime) {event : Event}
    (permitted : runtime.permits (.event event)) :
    ∃ budget, ∀ larger, budget ≤ larger → ∃ after emitted,
      runtime.step checkpointSize larger event = some (.ok (after, emitted)) ∧
        Agree checkpointSize config after := by
  rcases agree with ⟨store, inStep, records, sound, intact⟩
  simp only [Runtime.permits, Bool.and_eq_true] at permitted
  rcases permitted with ⟨⟨uninstalled, sane⟩, fits, _⟩
  have allowed := stepNow_allowed fits fun request same => by
    rw [same] at uninstalled
    cases uninstalled
  have takes := inStep.stepNow sane uninstalled allowed
  rcases Runtime.steps inStep.synced.toDurable inStep.placed sane ⟨sound, intact.valid⟩ allowed
    takes.records with ⟨budget, more, appends, ends⟩
  refine ⟨budget, fun larger enough => ?_⟩
  rcases ends larger enough with ⟨after, stepped, isOutcome, keeps⟩
  exact ⟨after, _, stepped, _, isOutcome ▸ takes.inStep, _, keeps.sound, intact.appends appends⟩

/-- Core and log agree in every run. -/
theorem Agree.reachable
    (reachable : (runtimeSystem checkpointSize config peers).Reachable
      (fun runtime input => runtime.permits input) runtime) :
    Agree checkpointSize config runtime := by
  apply reachable.invariant (Agree checkpointSize config)
  · exact fun _ opened => .opened opened
  · intro before input after agree permitted taken
    cases input with
    | event event =>
        rcases taken with ⟨budget, emitted, stepped⟩
        rcases agree.step permitted with ⟨enough, ends⟩
        rcases ends (max enough budget) (Nat.le_max_left ..) with
          ⟨reached, actions, found, agreeAfter⟩
        have more := Runtime.drain_mono stepped (Nat.le_max_right enough budget)
        cases Option.some.inj (found.symm.trans more)
        exact agreeAfter
    | reopen =>
        rcases agree.reopens with ⟨reopened, _, opened, _, _, agreeAfter⟩
        cases Except.ok.inj (opened.symm.trans taken)
        exact agreeAfter

/-- In every run no call of a step is refused by the log, which can be closed and
opened again at any time. This gives the core its Term, vote, log and durable
commit index back. -/
theorem steps_in_lockStep
    (reachable : (runtimeSystem checkpointSize config peers).Reachable
      (fun runtime input => runtime.permits input) runtime) :
    (∀ event, runtime.permits (.event event) →
      ∃ budget, ∀ larger, budget ≤ larger →
        ∃ after emitted, runtime.step checkpointSize larger event = some (.ok (after, emitted))) ∧
    ∃ reopened,
      openRaftRuntime checkpointSize config peers { segments := runtime.wal.segments } =
          .ok reopened ∧
        reopened.core.term = runtime.core.term ∧
        reopened.core.votedFor = runtime.core.votedFor ∧
        reopened.core.log = runtime.core.log ∧
        reopened.core.durableCommitIndex = runtime.core.durableCommitIndex := by
  have agree := Agree.reachable reachable
  constructor
  · intro event permitted
    rcases agree.step permitted with ⟨budget, ends⟩
    refine ⟨budget, fun larger enough => ?_⟩
    rcases ends larger enough with ⟨after, emitted, stepped, _⟩
    exact ⟨after, emitted, stepped⟩
  · rcases agree.reopens with ⟨reopened, store, opened, before, after, _⟩
    have hardState := after.storedHardState.symm.trans before.storedHardState
    refine ⟨reopened, opened, congrArg HardState.term hardState,
      congrArg HardState.votedFor hardState, after.storedLog.symm.trans before.storedLog, ?_⟩
    rw [after.commit_eq, before.commit_eq]
    exact after.storedCommit.symm.trans before.storedCommit

end Runs

/-- One of three Nodes. -/
def memberConfig : Config where
  clusterID := "cluster"
  nodeID := "a"
  memberIDs := ["a", "b", "c"]
  activeSessionLimit := 10

def voteEvent : Event :=
  .voteRequest { sender := "b", term := 1, lastLogIndex := 0, lastLogTerm := 0 }

/-- A vote survives closing and opening the log. -/
theorem steps_in_lockStep_voted :
    ∃ opened after emitted reopened,
      openRaftRuntime (fun _ => 0) memberConfig ["b", "c"] {} = .ok opened ∧
        Runtime.step (fun _ => 0) 10 opened voteEvent = some (.ok (after, emitted)) ∧
        openRaftRuntime (fun _ => 0) memberConfig ["b", "c"] { segments := after.wal.segments } =
          .ok reopened ∧
        after.core.votedFor = "b" ∧ reopened.core.votedFor = "b" := by
  have run : ∃ opened after emitted,
      openRaftRuntime (fun _ => 0) memberConfig ["b", "c"] {} = .ok opened ∧
        opened.permits (.event voteEvent) = true ∧
        Runtime.step (fun _ => 0) 10 opened voteEvent = some (.ok (after, emitted)) ∧
        after.core.votedFor = "b" := ⟨_, _, _, rfl, rfl, rfl, rfl⟩
  rcases run with ⟨opened, after, emitted, isOpened, permitted, stepped, voted⟩
  have reached : (runtimeSystem (fun _ => 0) memberConfig ["b", "c"]).Reachable
      (fun runtime input => runtime.permits input) after :=
    .step (.initial isOpened) permitted ⟨10, emitted, stepped⟩
  rcases steps_in_lockStep reached with ⟨_, reopened, isReopened, _, vote, _⟩
  exact ⟨opened, after, emitted, reopened, isOpened, stepped, isReopened, voted, vote.trans voted⟩

/-- The first entry of a Leader. -/
def firstEntry (value : List UInt8) : LogEntry where
  index := 1
  term := 1
  type := .set
  sequence := 1
  key := "k"
  value := value

def firstBatch (value : List UInt8) : Event :=
  .appendEntries {
    sender := "b"
    term := 1
    requestID := 1
    prevLogIndex := 0
    prevLogTerm := 0
    entries := [firstEntry value]
    leaderCommit := 0
    readID := 0 }

theorem persist_large {wal : Log} {value : List UInt8} (start : wal.lastLogIndex = 0)
    (long : Wal.maxRecordSize ≤ value.length) (persistenceID : Nat) :
    persist (fun _ => 0) wal (.persistLogEntries persistenceID 0 [firstEntry value]) =
      .error (.recordTooLarge (51 + value.length)) := by
  have size : 1 + (walMedium fun _ => 0).payloadSize (.logEntry (firstEntry value)) =
      51 + value.length := by
    change 1 + (49 + 1 + value.length) = _
    omega
  have ordered : Wal.WAL.checkOrder (walMedium fun _ => 0).toFormat wal.lastLogIndex
      [firstEntry value] = .ok () := by
    rw [start]
    rfl
  have refused : wal.appendRecord (walMedium fun _ => 0) (.logEntry (firstEntry value)) =
      .error (.recordTooLarge (51 + value.length)) := by
    simp only [Wal.WAL.appendRecord, size]
    exact if_pos (by omega)
  have called : Wal.WAL.call (walMedium fun _ => 0) wal (.saveLogEntries [firstEntry value]) =
      .error (.recordTooLarge (51 + value.length)) := by
    rw [Wal.WAL.call, Wal.WAL.saveLogEntries, if_neg (List.cons_ne_nil _ _), ordered,
      List.foldlM_cons, Wal.WAL.appendEntry, refused]
    rfl
  rw [persist, callsOf, if_neg (not_not.mpr rfl), List.nil_append, List.foldlM_cons, called]
  rfl

/-- An entry with a value as large as a frame is refused by the log. -/
theorem step_refuses_large : ∃ value : List UInt8, value.length = Wal.maxRecordSize ∧
    ∃ opened runtime emitted,
      openRaftRuntime (fun _ => 0) memberConfig ["b", "c"] {} = .ok opened ∧
        Runtime.step (fun _ => 0) 10 opened voteEvent = some (.ok (runtime, emitted)) ∧
        uninstalledEvent (firstBatch value) ∧ runtime.core.sane (firstBatch value) ∧
        runtime.core.inRange (firstBatch value) ∧
        Runtime.step (fun _ => 0) 10 runtime (firstBatch value) =
          some (.error (.recordTooLarge (51 + Wal.maxRecordSize))) := by
  have bulk : ∃ value : List UInt8, value.length = Wal.maxRecordSize :=
    ⟨List.replicate _ 7, List.length_replicate⟩
  rcases bulk with ⟨value, long⟩
  have run : ∃ opened runtime emitted,
      openRaftRuntime (fun _ => 0) memberConfig ["b", "c"] {} = .ok opened ∧
        Runtime.step (fun _ => 0) 10 opened voteEvent = some (.ok (runtime, emitted)) ∧
        runtime.core.sane (firstBatch value) = true ∧
        runtime.core.inRange (firstBatch value) = true ∧ runtime.wal.lastLogIndex = 0 ∧
        (runtime.core.step (firstBatch value)).2 =
          [.resetElectionTimer, .persistLogEntries 1 0 [firstEntry value]] :=
    ⟨_, _, _, rfl, rfl, rfl, rfl, rfl, rfl⟩
  rcases run with ⟨opened, runtime, emitted, isOpened, stepped, sane, inRange, start, actions⟩
  refine ⟨value, long, opened, runtime, emitted, isOpened, stepped, rfl, sane, inRange, ?_⟩
  have refused := fun persistenceID => persist_large start long.ge persistenceID
  rw [long] at refused
  rw [Runtime.step, actions]
  simp only [Runtime.drain, completion, refused, Option.map_some]
  rfl

end Ternion.RaftRuntime
