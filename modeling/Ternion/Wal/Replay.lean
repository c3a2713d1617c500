import Ternion.Wal.Record

/-! # Replay of one record

Replay starts from the newest checkpoint, so most records are replayed from a
state that is later than the one they were written in. From such a ceiling a
record has nothing to say but which entries follow.
-/

namespace Ternion.Wal

variable {Name Entry : Type} [Inhabited Name]

/-! ## Hard states -/

/-- Terms do not decrease, and the vote of a Term is set at most once. -/
def HardState.Precedes (earlier later : HardState Name) : Prop :=
  earlier.term < later.term ∨
    earlier.term = later.term ∧
      (earlier.votedFor = default ∨ earlier.votedFor = later.votedFor)

instance [DecidableEq Name] (earlier later : HardState Name) :
    Decidable (earlier.Precedes later) :=
  inferInstanceAs (Decidable (_ ∨ _))

theorem HardState.Precedes.refl (state : HardState Name) : state.Precedes state :=
  .inr ⟨rfl, .inr rfl⟩

theorem HardState.Precedes.trans {first second third : HardState Name}
    (earlier : first.Precedes second) (later : second.Precedes third) :
    first.Precedes third := by
  rcases earlier with older | ⟨sameTerm, vote⟩
  · rcases later with younger | ⟨alsoSame, _⟩
    · exact .inl (Nat.lt_trans older younger)
    · exact .inl (alsoSame ▸ older)
  · rcases later with younger | ⟨alsoSame, later⟩
    · exact .inl (sameTerm ▸ younger)
    · rcases vote with none | same
      · exact .inr ⟨sameTerm.trans alsoSame, .inl none⟩
      · exact .inr ⟨sameTerm.trans alsoSame, same ▸ later⟩

/-! ## Positions in a recovered log -/

namespace Format

variable (format : Format Name Entry)

/-- The entries after a position. -/
def above (index : Nat) (log : List Entry) : List Entry :=
  log.filter fun entry => index < format.index entry

variable {format} {start index : Nat} {log : List Entry}

section

variable (consecutive : Consecutive format.index start log)

include consecutive

theorem above_eq_drop :
    format.above index log = log.drop (index - start) :=
  consecutive.filter_gt index

theorem above_consecutive
    (later : start ≤ index) : Consecutive format.index index (format.above index log) :=
  consecutive.filter_gt_consecutive later

theorem above_length (later : start ≤ index) :
    index + (format.above index log).length = max index (start + log.length) :=
  consecutive.filter_gt_length later

end

theorem above_above (earlier : start ≤ index) :
    format.above index (format.above start log) = format.above index log :=
  filter_gt_filter_gt format.index earlier log

end Format

/-! ## Live states and ceilings -/

namespace RecoveredState

def withLog (state : RecoveredState Name Entry) (log : List Entry) :
    RecoveredState Name Entry :=
  { state with log := log }

omit [Inhabited Name] in
@[simp] theorem withLog_log (state : RecoveredState Name Entry) (log : List Entry) :
    (state.withLog log).log = log := rfl

/-- A state that a log can be in. -/
structure Valid (format : Format Name Entry) (state : RecoveredState Name Entry) : Prop where
  clusterID : format.blank state.identity.clusterID = false
  nodeID : format.blank state.identity.nodeID = false
  consecutive : Consecutive format.index state.snapshotIndex state.log
  committed : state.snapshotIndex ≤ state.commitIndex
  known : state.commitIndex ≤ state.lastIndex

/-- Both names of the identity are known. -/
def Identified (state : RecoveredState Name Entry) : Prop :=
  state.identity.clusterID ≠ default ∧ state.identity.nodeID ≠ default

/-- Replay that starts from the ceiling has nothing to learn from a record of
the live state but entries. -/
structure Below (live ceiling : RecoveredState Name Entry) : Prop where
  identity : ceiling.identity = live.identity
  hardState : live.hardState.Precedes ceiling.hardState
  commitIndex : live.commitIndex ≤ ceiling.commitIndex
  snapshotIndex : live.snapshotIndex ≤ ceiling.snapshotIndex
  committed : ceiling.snapshotIndex ≤ ceiling.commitIndex

end RecoveredState

namespace Record

/-- Nothing that replay from the ceiling must learn, entries apart. -/
def Within (ceiling : RecoveredState Name Entry) : Record Name Entry → Prop
  | .clusterIdentity clusterID => clusterID = ceiling.identity.clusterID
  | .nodeIdentity nodeID => nodeID = ceiling.identity.nodeID
  | .hardState state => state.Precedes ceiling.hardState
  | .legacyEntries _ => False
  | .logEntry _ => True
  | .logTruncation _ => True
  | .commitIndex index => index ≤ ceiling.commitIndex
  | .checkpoint saved =>
      saved.identity = ceiling.identity ∧ saved.snapshotIndex ≤ ceiling.snapshotIndex

/-- A checkpoint records a position that recovery accepts. -/
def Positioned : Record Name Entry → Prop
  | .checkpoint saved => saved.snapshotIndex ≠ 0 ∧ saved.snapshotTerm ≠ 0 ∧
      saved.snapshotIndex ≤ saved.commitIndex
  | _ => True

theorem Within.mono {live ceiling : RecoveredState Name Entry} {record : Record Name Entry}
    (within : record.Within live) (below : live.Below ceiling) : record.Within ceiling := by
  cases record with
  | clusterIdentity clusterID => exact within.trans (congrArg _ below.identity.symm)
  | nodeIdentity nodeID => exact within.trans (congrArg _ below.identity.symm)
  | hardState state => exact within.trans below.hardState
  | legacyEntries entries => exact within
  | logEntry entry => trivial
  | logTruncation firstIndex => trivial
  | commitIndex index => exact Nat.le_trans (show index ≤ _ from within) below.commitIndex
  | checkpoint checkpoint =>
      rcases within with ⟨identity, earlier⟩
      exact ⟨identity.trans below.identity.symm, Nat.le_trans earlier below.snapshotIndex⟩

/-- The records that an open log appends to a live state. -/
def Extends (format : Format Name Entry) (live : RecoveredState Name Entry) :
    Record Name Entry → Prop
  | .hardState state => live.hardState.Precedes state
  | .logEntry entry => format.index entry = live.lastIndex + 1
  | .logTruncation firstIndex => live.commitIndex < firstIndex ∧ firstIndex ≤ live.lastIndex + 1
  | .commitIndex index => live.commitIndex < index ∧ index ≤ live.lastIndex
  | _ => False

/-- What such a record changes. -/
def extend (live : RecoveredState Name Entry) : Record Name Entry → RecoveredState Name Entry
  | .hardState state => { live with hardState := state }
  | .logEntry entry => live.withLog (live.log ++ [entry])
  | .logTruncation firstIndex => live.withLog (live.log.take (firstIndex - live.snapshotIndex - 1))
  | .commitIndex index => { live with commitIndex := index }
  | _ => live

end Record

/-! ## Replay of one record -/

section Apply

variable {format : Format Name Entry} {state ceiling live : RecoveredState Name Entry}

theorem ne_default_of_not_blank {format : Format Name Entry} {name : Name}
    (notBlank : format.blank name = false) : name ≠ default := by
  intro empty
  rw [empty, format.blank_default] at notBlank
  cases notBlank

theorem RecoveredState.Valid.identified (valid : state.Valid format) : state.Identified :=
  ⟨ne_default_of_not_blank valid.clusterID, ne_default_of_not_blank valid.nodeID⟩

theorem applyEntry_skip {entry : Entry} (included : format.index entry ≤ state.snapshotIndex) :
    format.applyEntry state entry = .ok state := by
  rw [Format.applyEntry, if_pos included]

theorem applyEntry_next {entry : Entry} (next : format.index entry = state.lastIndex + 1) :
    format.applyEntry state entry = .ok (state.withLog (state.log ++ [entry])) := by
  have after : ¬format.index entry ≤ state.snapshotIndex := by
    rw [next, RecoveredState.lastIndex]
    omega
  rw [Format.applyEntry, if_neg after, if_neg (not_not_intro next)]
  rfl

variable [DecidableEq Name]

theorem applyRecord_clusterIdentity {clusterID : Name} (known : state.Identified)
    (same : clusterID = state.identity.clusterID) :
    format.applyRecord state (.clusterIdentity clusterID) = .ok state := by
  rw [Format.applyRecord, if_pos known.1, if_neg (not_not_intro same.symm)]

theorem applyRecord_nodeIdentity {nodeID : Name} (known : state.Identified)
    (same : nodeID = state.identity.nodeID) :
    format.applyRecord state (.nodeIdentity nodeID) = .ok state := by
  rw [Format.applyRecord, if_neg known.1, if_pos known.2, if_neg (not_not_intro same.symm)]

theorem applyRecord_hardState {hardState : HardState Name}
    (node : state.identity.nodeID ≠ default) (precedes : hardState.Precedes state.hardState) :
    format.applyRecord state (.hardState hardState) = .ok state := by
  rw [Format.applyRecord, if_neg node]
  rcases precedes with older | ⟨sameTerm, vote⟩
  · rw [if_pos older]
  · rw [if_neg (by omega)]
    split_ifs with voted
    · rfl
    · have unvoted : state.hardState.votedFor = default := by
        by_contra other
        exact voted ⟨sameTerm, other⟩
      have same : hardState = state.hardState := by
        rcases hardState with ⟨term, votedFor⟩
        rcases vote with none | equal
        · exact congrArg₂ HardState.mk sameTerm (none.trans unvoted.symm)
        · exact congrArg₂ HardState.mk sameTerm equal
      rw [same]

theorem applyRecord_truncation {firstIndex : Nat} (after : state.snapshotIndex < firstIndex)
    (uncommitted : state.commitIndex < firstIndex) (within : firstIndex ≤ state.lastIndex + 1) :
    format.applyRecord state (.logTruncation firstIndex) =
      .ok (state.withLog (state.log.take (firstIndex - state.snapshotIndex - 1))) := by
  rw [Format.applyRecord, if_neg (by omega), if_neg (by omega)]
  rfl

theorem applyRecord_commitIndex {index : Nat} (within : index ≤ state.commitIndex)
    (known : index < state.commitIndex ∨ index ≤ state.lastIndex) :
    format.applyRecord state (.commitIndex index) = .ok state := by
  rw [Format.applyRecord]
  split_ifs with earlier beyond
  · rfl
  · omega
  · have same : index = state.commitIndex := by omega
    rw [same]

theorem applyRecord_checkpoint {saved : CompactionCheckpoint Name}
    (identity : saved.identity = state.identity)
    (earlier : saved.snapshotIndex ≤ state.snapshotIndex) :
    format.applyRecord state (.checkpoint saved) = .ok state := by
  rw [Format.applyRecord, if_neg (not_not_intro identity), if_neg (by omega)]

section

variable {log : List Entry} {after : RecoveredState Name Entry} (identified : ceiling.Identified)

include identified

theorem applyRecord_within {record : Record Name Entry} (within : record.Within ceiling)
    (applied : format.applyRecord (ceiling.withLog log) record = .ok after) :
    after = ceiling.withLog after.log := by
  cases record with
  | clusterIdentity clusterID =>
      have known : (ceiling.withLog log).Identified := identified
      rw [applyRecord_clusterIdentity known within] at applied
      cases applied
      rfl
  | nodeIdentity nodeID =>
      have known : (ceiling.withLog log).Identified := identified
      rw [applyRecord_nodeIdentity known within] at applied
      cases applied
      rfl
  | hardState hardState =>
      have node : (ceiling.withLog log).identity.nodeID ≠ default := identified.2
      rw [applyRecord_hardState node within] at applied
      cases applied
      rfl
  | legacyEntries entries => exact within.elim
  | logEntry entry =>
      rw [Format.applyRecord, Format.applyEntry] at applied
      split_ifs at applied
      all_goals
        cases applied
        rfl
  | logTruncation firstIndex =>
      rw [Format.applyRecord] at applied
      split_ifs at applied
      cases applied
      rfl
  | commitIndex index =>
      rw [Format.applyRecord] at applied
      split_ifs at applied with earlier
      · cases applied
        rfl
      · have same : index = ceiling.commitIndex :=
          Nat.le_antisymm within (Nat.le_of_not_lt earlier)
        cases applied
        rw [same]
        rfl
  | checkpoint saved =>
      rw [Format.applyRecord] at applied
      split_ifs at applied
      cases applied
      rfl

theorem replay_within {records : List (Record Name Entry)}
    (within : ∀ record ∈ records, record.Within ceiling)
    (replayed : records.foldlM format.applyRecord (ceiling.withLog log) = .ok after) :
    after = ceiling.withLog after.log := by
  induction records generalizing log with
  | nil =>
      cases replayed
      rfl
  | cons record records induction =>
      rcases Fallible.foldlM_cons_eq_ok.mp replayed with ⟨middle, first, rest⟩
      rw [applyRecord_within identified (within record List.mem_cons_self) first] at rest
      exact induction (fun other present => within other (List.mem_cons_of_mem _ present)) rest

end

end Apply

/-! ## Records of an open log -/

section Extend

variable {format : Format Name Entry} {live : RecoveredState Name Entry}
  {record : Record Name Entry}

section

variable (extending : record.Extends format live)

include extending

theorem Record.Extends.applies [DecidableEq Name] (valid : live.Valid format) :
    format.applyRecord live record = .ok (record.extend live) := by
  cases record with
  | hardState state =>
      have node := valid.identified.2
      rw [Format.applyRecord, if_neg node]
      rcases extending with newer | ⟨sameTerm, vote⟩
      · rw [if_neg (by omega), if_neg (by omega)]
        rfl
      · rw [if_neg (by omega)]
        split_ifs with voted
        · rcases vote with none | equal
          · exact absurd none voted.2
          · have same : state = live.hardState := by
              rcases state with ⟨term, votedFor⟩
              exact congrArg₂ HardState.mk sameTerm.symm equal.symm
            rw [Record.extend, same]
        · rfl
  | logEntry entry => exact applyEntry_next extending
  | logTruncation firstIndex =>
      have committed := valid.committed
      apply applyRecord_truncation _ extending.1 extending.2
      exact Nat.lt_of_le_of_lt committed extending.1
  | commitIndex index =>
      rcases extending with ⟨newer, known⟩
      rw [Format.applyRecord, if_neg (by omega), if_neg (by omega)]
      rfl
  | _ => exact extending.elim

theorem Record.Extends.valid (valid : live.Valid format) : (record.extend live).Valid format := by
  cases record with
  | hardState state => exact { valid with }
  | logEntry entry =>
      exact { valid with
        consecutive := valid.consecutive.snoc extending
        known := by
          have known := valid.known
          simp only [RecoveredState.lastIndex, Record.extend, RecoveredState.withLog,
            List.length_append, List.length_singleton] at known ⊢
          omega }
  | logTruncation firstIndex =>
      have known := valid.known
      rcases extending with ⟨uncommitted, inside⟩
      exact { valid with
        consecutive := valid.consecutive.take _
        known := by
          simp only [RecoveredState.lastIndex, Record.extend, RecoveredState.withLog,
            List.length_take] at known inside ⊢
          omega }
  | commitIndex index =>
      have committed := valid.committed
      exact { valid with
        committed := Nat.le_trans committed (Nat.le_of_lt extending.1)
        known := extending.2 }
  | _ => exact extending.elim

theorem Record.Extends.below (valid : live.Valid format) : live.Below (record.extend live) := by
  have after := (extending.valid valid).committed
  cases record with
  | hardState state => exact ⟨rfl, extending, Nat.le_refl _, Nat.le_refl _, after⟩
  | logEntry entry => exact ⟨rfl, .refl _, Nat.le_refl _, Nat.le_refl _, after⟩
  | logTruncation firstIndex => exact ⟨rfl, .refl _, Nat.le_refl _, Nat.le_refl _, after⟩
  | commitIndex index =>
      exact ⟨rfl, .refl _, Nat.le_of_lt extending.1, Nat.le_refl _, after⟩
  | _ => exact extending.elim

theorem Record.Extends.within :
    record.Within (record.extend live) := by
  cases record with
  | hardState state => exact .refl _
  | logEntry entry => trivial
  | logTruncation firstIndex => trivial
  | commitIndex index => exact Nat.le_refl _
  | _ => exact extending.elim

theorem Record.Extends.positioned :
    record.Positioned := by
  cases record with
  | checkpoint saved => exact extending.elim
  | _ => trivial

end

end Extend

end Ternion.Wal
