import Ternion.Foundation.Transition
import Ternion.Wal.Sound

/-! # Sequences of calls

A log from its creation on: any sequence of successful calls, closed and opened
again in between. The history of the calls says what the log should hold.
-/

namespace Ternion.Wal

variable {Name Entry Content : Type}

inductive Call (Name Entry : Type) where
  | saveHardState (state : HardState Name)
  | saveLogEntries (entries : List Entry)
  | truncateLog (firstIndex : Nat)
  | saveCommitIndex (index : Nat)
  | compact (snapshotIndex snapshotTerm : Nat)
  | installSnapshot (snapshotIndex snapshotTerm : Nat)

namespace Call

/-- The records that the call may append. -/
def records (wal : WAL Name Content) : Call Name Entry → List (Record Name Entry)
  | .saveHardState state => [.hardState state]
  | .saveLogEntries entries => entries.map .logEntry
  | .truncateLog firstIndex => [.logTruncation firstIndex]
  | .saveCommitIndex index => [.commitIndex index]
  | .compact snapshotIndex snapshotTerm =>
      [.checkpoint (wal.checkpointAt snapshotIndex snapshotTerm wal.commitIndex)]
  | .installSnapshot snapshotIndex snapshotTerm =>
      [.checkpoint (wal.checkpointAt snapshotIndex snapshotTerm
        (max wal.commitIndex snapshotIndex))]

def Fits (fits : Record Name Entry → Prop) (wal : WAL Name Content) (call : Call Name Entry) :
    Prop :=
  ∀ record ∈ call.records wal, fits record

theorem truncation_mem {wal : WAL Name Content} {firstIndex : Nat} (call : Call Name Entry)
    (recorded : .logTruncation firstIndex ∈ call.records wal) :
    call = .truncateLog firstIndex := by
  cases call with
  | truncateLog index =>
      cases List.mem_singleton.mp recorded
      rfl
  | saveLogEntries entries =>
      rcases List.mem_map.mp recorded with ⟨entry, _, impossible⟩
      cases impossible
  | saveHardState state => cases List.mem_singleton.mp recorded
  | saveCommitIndex index => cases List.mem_singleton.mp recorded
  | compact snapshotIndex snapshotTerm => cases List.mem_singleton.mp recorded
  | installSnapshot snapshotIndex snapshotTerm => cases List.mem_singleton.mp recorded

instance (fits : Record Name Entry → Prop) [DecidablePred fits] (wal : WAL Name Content)
    (call : Call Name Entry) : Decidable (call.Fits fits wal) :=
  inferInstanceAs (Decidable (∀ record ∈ call.records wal, fits record))

def truncates : Call Name Entry → Bool
  | .truncateLog _ => true
  | _ => false

/-- The Snapshot was received from the Leader. -/
def receives : Call Name Entry → Bool
  | .installSnapshot _ _ => true
  | _ => false

/-- The position of the Snapshot that the call records. -/
def position : Call Name Entry → Option (Nat × Nat)
  | .compact snapshotIndex snapshotTerm => some (snapshotIndex, snapshotTerm)
  | .installSnapshot snapshotIndex snapshotTerm => some (snapshotIndex, snapshotTerm)
  | _ => none

end Call

variable [Inhabited Name]

def WAL.call (medium : Medium Name Entry Content) (wal : WAL Name Content) :
    Call Name Entry → Except Error (WAL Name Content)
  | .saveHardState state => wal.saveHardState medium state
  | .saveLogEntries entries => wal.saveLogEntries medium entries
  | .truncateLog firstIndex => wal.truncateLog medium firstIndex
  | .saveCommitIndex index => wal.saveCommitIndex medium index
  | .compact snapshotIndex snapshotTerm => wal.compact medium snapshotIndex snapshotTerm
  | .installSnapshot snapshotIndex snapshotTerm =>
      wal.installSnapshot medium snapshotIndex snapshotTerm

/-! ## The reference store -/

/-- What the calls mean. Entries stay until they are truncated. -/
structure Reference (Name Entry : Type) where
  hardState : HardState Name
  log : List Entry
  commitIndex : Nat
  snapshotIndex : Nat
  snapshotTerm : Nat

namespace Reference

def empty : Reference Name Entry where
  hardState := ⟨0, default⟩
  log := []
  commitIndex := 0
  snapshotIndex := 0
  snapshotTerm := 0

def apply (format : Format Name Entry) (reference : Reference Name Entry) :
    Call Name Entry → Reference Name Entry
  | .saveHardState state => { reference with hardState := state }
  | .saveLogEntries entries => { reference with log := reference.log ++ entries }
  | .truncateLog firstIndex =>
      { reference with log := reference.log.filter fun entry => format.index entry < firstIndex }
  | .saveCommitIndex index => { reference with commitIndex := index }
  | .compact snapshotIndex snapshotTerm =>
      { reference with snapshotIndex := snapshotIndex, snapshotTerm := snapshotTerm }
  | .installSnapshot snapshotIndex snapshotTerm =>
      { reference with
        commitIndex := max reference.commitIndex snapshotIndex
        snapshotIndex := snapshotIndex
        snapshotTerm := snapshotTerm }

/-- What opening must recover: the entries above the Snapshot, and the rest as
it was saved last. -/
def recovered (format : Format Name Entry) (identity : Identity Name)
    (reference : Reference Name Entry) : RecoveredState Name Entry where
  identity := identity
  hardState := reference.hardState
  log := format.above reference.snapshotIndex reference.log
  commitIndex := reference.commitIndex
  snapshotIndex := reference.snapshotIndex
  snapshotTerm := reference.snapshotTerm

end Reference

/-! ## Sessions -/

/-- An open log with the calls made so far, each with the end of the log
before it. -/
structure Session (Name Entry Content : Type) where
  wal : WAL Name Content
  history : List (Nat × Call Name Entry) := []

inductive Action (Name Entry : Type) where
  | call (call : Call Name Entry)
  | reopen (segmentSize : Nat)

namespace Session

def reference (format : Format Name Entry) (session : Session Name Entry Content) :
    Reference Name Entry :=
  (session.history.map Prod.snd).foldl (Reference.apply format) .empty

/-- The truncations so far: where each began, and where the log ended before. -/
def truncations (session : Session Name Entry Content) : List (Nat × Nat) :=
  session.history.filterMap fun made =>
    match made.2 with
    | .truncateLog firstIndex => some (firstIndex, made.1)
    | _ => none

/-- The largest Snapshot index so far. -/
def largestIndex (session : Session Name Entry Content) : Nat :=
  (session.history.filterMap fun made => made.2.position).foldl
    (fun largest position => max largest position.1) 0

def next [DecidableEq Name] (medium : Medium Name Entry Content)
    (session : Session Name Entry Content) :
    Action Name Entry → Option (Session Name Entry Content)
  | .call call =>
      (session.wal.call medium call).toOption.map fun wal =>
        { wal := wal, history := session.history ++ [(session.wal.lastLogIndex, call)] }
  | .reopen segmentSize =>
      (WAL.openWAL medium session.wal.identity segmentSize session.wal.segments).toOption.map
        fun opened => { session with wal := opened.1 }

section Next

variable [DecidableEq Name] {medium : Medium Name Entry Content}
  {session after : Session Name Entry Content}

theorem next_call {call : Call Name Entry} (taken : session.next medium (.call call) = some after) :
    session.wal.call medium call = .ok after.wal ∧
      after.history = session.history ++ [(session.wal.lastLogIndex, call)] := by
  rcases Option.map_eq_some_iff.mp taken with ⟨wal, called, same⟩
  cases same
  exact ⟨Fallible.toOption_eq_some.mp called, rfl⟩

theorem next_reopen {segmentSize : Nat}
    (taken : session.next medium (.reopen segmentSize) = some after) :
    ∃ recovered, WAL.openWAL medium session.wal.identity segmentSize session.wal.segments =
        .ok (after.wal, recovered) ∧ after.history = session.history := by
  rcases Option.map_eq_some_iff.mp taken with ⟨⟨wal, recovered⟩, opened, same⟩
  cases same
  exact ⟨recovered, Fallible.toOption_eq_some.mp opened, rfl⟩

end Next

section History

variable {session after : Session Name Entry Content} {call : Call Name Entry}

theorem reference_call (history : after.history =
      session.history ++ [(session.wal.lastLogIndex, call)]) (format : Format Name Entry) :
    after.reference format = (session.reference format).apply format call := by
  rw [reference, history, List.map_append, List.foldl_append]
  rfl

omit [Inhabited Name] in
theorem truncations_call
    (history : after.history = session.history ++ [(session.wal.lastLogIndex, call)]) :
    (∀ cut ∈ session.truncations, cut ∈ after.truncations) ∧
      ∀ firstIndex, call = .truncateLog firstIndex →
        (firstIndex, session.wal.lastLogIndex) ∈ after.truncations := by
  rw [truncations, truncations, history, List.filterMap_append]
  constructor
  · intro cut made
    exact List.mem_append_left _ made
  · rintro firstIndex rfl
    exact List.mem_append_right _ List.mem_cons_self

end History

end Session

/-- All sequences of successful calls on a log. -/
def sessionSystem [DecidableEq Name] (medium : Medium Name Entry Content)
    (wal : WAL Name Content) : System (Session Name Entry Content) (Action Name Entry) :=
  .ofNext { wal := wal } (Session.next medium)

/-! ## A small log

Entries that are only an index and a Term, in frames of seventeen bytes.
-/

def pairFormat : Format String (Nat × Nat) where
  index := Prod.fst
  term := Prod.snd
  blank := fun name => name == ""
  blank_default := rfl
  payloadSize := fun _ => 8

def pairIdentity : Identity String := ⟨"cluster", "node"⟩

/-- A new log, whose first segment has room for the identity. -/
def pairLog (segmentSize : Nat) : WAL String (List (Record String (Nat × Nat))) where
  segmentSize := segmentSize
  older := []
  active := [.clusterIdentity "cluster", .nodeIdentity "node"]
  offset := 46
  lastLogIndex := 0
  commitIndex := 0
  hardState := ⟨0, ""⟩
  identity := pairIdentity
  snapshotIndex := 0
  snapshotTerm := 0
  entryBytes := fun _ => 0

/-! ## What a call does -/

/-- The live state after a call. -/
def Call.effect (format : Format Name Entry) (live : RecoveredState Name Entry) :
    Call Name Entry → RecoveredState Name Entry
  | .saveHardState state => { live with hardState := state }
  | .saveLogEntries entries => live.withLog (live.log ++ entries)
  | .truncateLog firstIndex =>
      live.withLog (live.log.take (firstIndex - live.snapshotIndex - 1))
  | .saveCommitIndex index => { live with commitIndex := index }
  | .compact snapshotIndex snapshotTerm =>
      { live with
        log := format.above snapshotIndex live.log
        snapshotIndex := snapshotIndex
        snapshotTerm := snapshotTerm }
  | .installSnapshot snapshotIndex snapshotTerm =>
      { live with
        log := format.above snapshotIndex live.log
        commitIndex := max live.commitIndex snapshotIndex
        snapshotIndex := snapshotIndex
        snapshotTerm := snapshotTerm }

/-- The hard state that the call saves. -/
def Call.saved : Call Name Entry → Option (HardState Name)
  | .saveHardState state => some state
  | _ => none

/-- Hard states follow each other. -/
def Call.Ordered (wal : WAL Name Content) (call : Call Name Entry) : Prop :=
  ∀ state ∈ call.saved, wal.hardState.Precedes state

instance [DecidableEq Name] (wal : WAL Name Content) (call : Call Name Entry) :
    Decidable (call.Ordered wal) :=
  inferInstanceAs (Decidable (∀ state ∈ call.saved, wal.hardState.Precedes state))

theorem Appends.entries {format : Format Name Entry} {live : RecoveredState Name Entry}
    {entries : List Entry} (consecutive : Consecutive format.index live.lastIndex entries) :
    Appends format live (entries.map .logEntry) (live.withLog (live.log ++ entries)) := by
  induction entries generalizing live with
  | nil =>
      rw [List.append_nil]
      exact .nil
  | cons entry entries induction =>
      have rest : Consecutive format.index (live.withLog (live.log ++ [entry])).lastIndex
          entries := by
        rw [RecoveredState.lastIndex, RecoveredState.withLog_log, List.length_append]
        exact consecutive.2
      have later := induction rest
      rw [RecoveredState.withLog_log, List.append_assoc, List.singleton_append] at later
      exact .cons consecutive.1 later

/-- Any calls but Snapshots of the Leader, with hard states in order and with
Snapshot positions that do not go back. -/
def Session.Local (fits : Record Name Entry → Prop) (session : Session Name Entry Content) :
    Action Name Entry → Prop
  | .reopen _ => True
  | .call call => call.Fits fits session.wal ∧ call.Ordered session.wal ∧
      call.receives = false ∧ ∀ position ∈ call.position, session.wal.snapshotIndex ≤ position.1

instance [DecidableEq Name] (fits : Record Name Entry → Prop) [DecidablePred fits]
    (session : Session Name Entry Content) :
    (action : Action Name Entry) → Decidable (session.Local fits action)
  | .reopen _ => .isTrue trivial
  | .call _ => inferInstanceAs (Decidable (_ ∧ _))

theorem Call.effect_recovered {format : Format Name Entry} {identity : Identity Name}
    {reference : Reference Name Entry} (call : Call Name Entry)
    (valid : (reference.recovered format identity).Valid format)
    (following : ∀ entries, call = .saveLogEntries entries →
      Consecutive format.index (reference.recovered format identity).lastIndex entries)
    (later : ∀ position ∈ call.position, reference.snapshotIndex ≤ position.1) :
    call.effect format (reference.recovered format identity) =
      (reference.apply format call).recovered format identity := by
  cases call with
  | saveHardState state => rfl
  | saveCommitIndex index => rfl
  | saveLogEntries entries =>
      have all : format.above reference.snapshotIndex entries = entries := by
        rw [Format.above_eq_drop (following entries rfl), RecoveredState.lastIndex,
          Reference.recovered, Nat.sub_eq_zero_of_le (Nat.le_add_right ..), List.drop_zero]
      have whole : format.above reference.snapshotIndex (reference.log ++ entries) =
          format.above reference.snapshotIndex reference.log ++ entries := by
        rw [Format.above, List.filter_append]
        exact congrArg _ all
      exact congrArg (RecoveredState.withLog _) whole.symm
  | truncateLog firstIndex =>
      have kept : (reference.recovered format identity).log.take
            (firstIndex - reference.snapshotIndex - 1) =
          format.above reference.snapshotIndex
            (reference.log.filter fun entry => format.index entry < firstIndex) := by
        have cut := valid.consecutive.filter_lt firstIndex
        rw [Nat.sub_right_comm]
        refine cut.symm.trans ?_
        rw [Reference.recovered, Format.above, Format.above, List.filter_filter, List.filter_filter]
        exact List.filter_congr fun entry _ => Bool.and_comm ..
      exact congrArg (RecoveredState.withLog _) kept
  | compact snapshotIndex snapshotTerm =>
      have above : format.above snapshotIndex (reference.recovered format identity).log =
        format.above snapshotIndex reference.log := Format.above_above (later _ rfl)
      rw [Call.effect, above]
      rfl
  | installSnapshot snapshotIndex snapshotTerm =>
      have above : format.above snapshotIndex (reference.recovered format identity).log =
        format.above snapshotIndex reference.log := Format.above_above (later _ rfl)
      rw [Call.effect, above]
      rfl

section Calls

variable {medium : Medium Name Entry Content} {fits : Record Name Entry → Prop}
  {wal after : WAL Name Content} {records : List (Record Name Entry)}
  {live : RecoveredState Name Entry} {call : Call Name Entry}

theorem WAL.Sound.appends (sound : wal.Sound medium fits records live)
    (valid : live.Valid medium.toFormat) (fit : call.Fits fits wal) (ordered : call.Ordered wal)
    (appending : call.position = none) (called : wal.call medium call = .ok after) :
    ∃ more, Appends medium.toFormat live more (call.effect medium.toFormat live) ∧
      (more = call.records wal ∨ more = []) ∧
      after.Sound medium fits (records ++ more) (call.effect medium.toFormat live) := by
  cases call with
  | saveHardState state =>
      have extending : (Record.hardState state).Extends medium.toFormat live := by
        rw [Record.Extends, ← sound.mirrors.hardState]
        exact ordered state rfl
      exact ⟨_, .single extending, .inl rfl,
        sound.saveHardState (fit _ List.mem_cons_self) called⟩
  | saveLogEntries entries =>
      have fitting : ∀ entry ∈ entries, fits (.logEntry entry) := fun entry present =>
        fit _ (List.mem_map_of_mem present)
      rcases sound.saveLogEntries fitting called with ⟨consecutive, saved⟩
      exact ⟨_, Appends.entries consecutive, .inl rfl, saved⟩
  | truncateLog firstIndex =>
      rcases sound.truncateLog valid (fit _ List.mem_cons_self) called with ⟨extending, truncated⟩
      exact ⟨_, .single extending, .inl rfl, truncated⟩
  | saveCommitIndex index =>
      rcases sound.saveCommitIndex (fit _ List.mem_cons_self) called with
        ⟨same, unchanged⟩ | ⟨extending, saved⟩
      · have nothing : (Call.saveCommitIndex index).effect medium.toFormat live = live := by
          rw [Call.effect, same]
        rw [nothing, unchanged]
        refine ⟨[], .nil, .inr rfl, ?_⟩
        rwa [List.append_nil]
      · exact ⟨_, .single extending, .inl rfl, saved⟩
  | compact snapshotIndex snapshotTerm => cases appending
  | installSnapshot snapshotIndex snapshotTerm => cases appending

theorem WAL.Mirrors.result (mirrors : wal.Mirrors medium.toFormat live)
    (snapshotIndex snapshotTerm commitIndex : Nat) :
    Advances.result medium.toFormat live
        (wal.checkpointAt snapshotIndex snapshotTerm commitIndex) =
      { live with
        log := medium.above snapshotIndex live.log
        commitIndex := commitIndex
        snapshotIndex := snapshotIndex
        snapshotTerm := snapshotTerm } := by
  rw [Advances.result, WAL.checkpointAt, mirrors.identity, mirrors.hardState]
  rfl

/-- A call that records a Snapshot takes covered records away and appends a
checkpoint. -/
theorem WAL.Sound.compacts [DecidableEq Name] (sound : wal.Sound medium fits records live)
    (lawful : medium.Lawful fits) (valid : live.Valid medium.toFormat)
    (fit : call.Fits fits wal) {snapshotIndex snapshotTerm : Nat}
    (compacting : call.position = some (snapshotIndex, snapshotTerm))
    (later : live.snapshotIndex ≤ snapshotIndex) (called : wal.call medium call = .ok after) :
    ∃ left saved, Trimmed medium.toFormat saved.snapshotIndex records left ∧
      saved.commitIndex = max wal.commitIndex snapshotIndex ∧
      saved.snapshotIndex = snapshotIndex ∧ Advances live saved ∧
      (snapshotTerm ≠ 0 → (Record.checkpoint saved : Record Name Entry).Positioned) ∧
      Advances.result medium.toFormat live saved = call.effect medium.toFormat live ∧
      after.Sound medium fits (left ++ [.checkpoint saved]) (call.effect medium.toFormat live) := by
  have lastIndex := sound.mirrors.lastLogIndex
  have commitIndex := sound.mirrors.commitIndex
  have known := valid.known
  cases call with
  | compact index term =>
      cases compacting
      rw [WAL.call, WAL.compact] at called
      split_ifs at called with outside
      have committed : snapshotIndex ≤ wal.commitIndex := by omega
      rcases sound.checkpoint lawful valid (fit _ List.mem_cons_self) later called with
        ⟨left, trimmed, checkpointed⟩
      have fields := (WAL.installSnapshotCheckpoint_eq_ok lawful sound.holds
        (fit _ List.mem_cons_self) called).1
      have same : { after with
          commitIndex := wal.commitIndex
          lastLogIndex := max wal.lastLogIndex snapshotIndex } = after := by
        rw [fields, Nat.max_eq_left (by omega)]
      have result : Advances.result medium.toFormat live
          (wal.checkpointAt snapshotIndex snapshotTerm wal.commitIndex) =
            (Call.compact snapshotIndex snapshotTerm).effect medium.toFormat live := by
        rw [sound.mirrors.result, commitIndex]
        rfl
      rw [same] at checkpointed
      refine ⟨left, _, trimmed, (Nat.max_eq_left committed).symm, rfl, ?_, ?_, result,
        result ▸ checkpointed⟩
      · exact sound.mirrors.advances later (Nat.le_refl _) committed (by omega)
      · intro someTerm
        exact ⟨fun none => outside (.inl none), someTerm, committed⟩
  | installSnapshot index term =>
      cases compacting
      rw [WAL.call, WAL.installSnapshot] at called
      split_ifs at called with invalid
      rcases Fallible.bind_eq_ok.mp called with ⟨middle, installed, same⟩
      rcases sound.checkpoint lawful valid (fit _ List.mem_cons_self) later installed with
        ⟨left, trimmed, checkpointed⟩
      have fields := (WAL.installSnapshotCheckpoint_eq_ok lawful sound.holds
        (fit _ List.mem_cons_self) installed).1
      have result : Advances.result medium.toFormat live
          (wal.checkpointAt snapshotIndex snapshotTerm (max wal.commitIndex snapshotIndex)) =
            (Call.installSnapshot snapshotIndex snapshotTerm).effect medium.toFormat live := by
        rw [sound.mirrors.result, commitIndex]
        rfl
      have set : { middle with
          commitIndex := max wal.commitIndex snapshotIndex
          lastLogIndex := max wal.lastLogIndex snapshotIndex } = after := by
        rw [← Except.ok.inj same, fields]
      rw [set] at checkpointed
      refine ⟨left, _, trimmed, rfl, rfl, ?_, ?_, result, result ▸ checkpointed⟩
      · exact sound.mirrors.advances later (Nat.le_max_left ..) (Nat.le_max_right ..) (by omega)
      · intro someTerm
        exact ⟨fun none => invalid (.inl none), someTerm, Nat.le_max_right ..⟩
  | saveHardState state => cases compacting
  | saveLogEntries entries => cases compacting
  | truncateLog firstIndex => cases compacting
  | saveCommitIndex index => cases compacting

end Calls

end Ternion.Wal
