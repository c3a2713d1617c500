import Ternion.Wal.Replay

/-! # Intact records

The records of a log are intact when they recover its live state. Appended
records keep a log intact. So does a checkpoint that takes obsolete records away,
as long as no truncation that stays reaches down to its commit index, and none
that goes found entries above its Snapshot.
-/

namespace Ternion.Wal

variable {Name Entry : Type} [Inhabited Name]

inductive Trimmed (format : Format Name Entry) (snapshotIndex : Nat) :
    List (Record Name Entry) → List (Record Name Entry) → Prop
  | nil : Trimmed format snapshotIndex [] []
  | keep {record records kept} : Trimmed format snapshotIndex records kept →
      Trimmed format snapshotIndex (record :: records) (record :: kept)
  | remove {record records kept} : format.coveredBySnapshot snapshotIndex record = true →
      Trimmed format snapshotIndex records kept →
      Trimmed format snapshotIndex (record :: records) kept

namespace Trimmed

variable {format : Format Name Entry} {snapshotIndex : Nat}
  {records kept more moreKept : List (Record Name Entry)}

theorem refl : ∀ records : List (Record Name Entry), Trimmed format snapshotIndex records records
  | [] => .nil
  | _ :: records => .keep (refl records)

theorem append (first : Trimmed format snapshotIndex records kept)
    (second : Trimmed format snapshotIndex more moreKept) :
    Trimmed format snapshotIndex (records ++ more) (kept ++ moreKept) := by
  induction first with
  | nil => exact second
  | keep _ induction => exact .keep induction
  | remove covered _ induction => exact .remove covered induction

theorem all (covered : records.all (format.coveredBySnapshot snapshotIndex) = true) :
    Trimmed format snapshotIndex records [] := by
  induction records with
  | nil => exact .nil
  | cons record records induction =>
      rw [List.all_cons, Bool.and_eq_true] at covered
      exact .remove covered.1 (induction covered.2)

theorem subset (trimmed : Trimmed format snapshotIndex records kept) :
    ∀ record ∈ kept, record ∈ records := by
  induction trimmed with
  | nil => simp
  | keep _ induction =>
      intro record present
      rcases List.mem_cons.mp present with here | later
      · exact here ▸ List.mem_cons_self
      · exact List.mem_cons_of_mem _ (induction record later)
  | remove _ _ induction =>
      intro record present
      exact List.mem_cons_of_mem _ (induction record present)

end Trimmed

def TruncatesAfter (index : Nat) (records : List (Record Name Entry)) : Prop :=
  ∀ firstIndex, .logTruncation firstIndex ∈ records → index < firstIndex

instance (index : Nat) (records : List (Record Name Entry)) :
    Decidable (TruncatesAfter index records) :=
  decidable_of_iff (records.all (fun
    | .logTruncation firstIndex => decide (index < firstIndex)
    | _ => true) = true) {
      mp := fun all firstIndex present => of_decide_eq_true (List.all_eq_true.mp all _ present)
      mpr := fun truncates => List.all_eq_true.mpr fun record present => by
        cases record with
        | logTruncation firstIndex => exact decide_eq_true (truncates firstIndex present)
        | _ => rfl }

variable [DecidableEq Name]

structure Intact (format : Format Name Entry) (records : List (Record Name Entry))
    (live : RecoveredState Name Entry) : Prop where
  valid : live.Valid format
  within : ∀ record ∈ records, record.Within live
  positioned : ∀ record ∈ records, record.Positioned
  recovers : format.recoverRecords records = .ok live

/-! ## Replay from a ceiling -/

namespace Format

variable (format : Format Name Entry)

def keepAbove (index : Nat) (log : List Entry) : Record Name Entry → List Entry
  | .legacyEntries entries => log ++ format.above index entries
  | .logEntry entry => if format.index entry ≤ index then log else log ++ [entry]
  | .logTruncation firstIndex => log.filter fun entry => format.index entry < firstIndex
  | _ => log

variable {format} {state after : RecoveredState Name Entry} {record : Record Name Entry}

theorem applyRecord_keepAbove (isNew : ∀ entries, record ≠ .legacyEntries entries)
    (consecutive : Consecutive format.index state.snapshotIndex state.log)
    (applied : format.applyRecord state record = .ok after) :
    after.log = format.keepAbove state.snapshotIndex state.log record ∧
      after.snapshotIndex = state.snapshotIndex ∧ state.commitIndex ≤ after.commitIndex ∧
      Consecutive format.index after.snapshotIndex after.log := by
  cases record with
  | legacyEntries entries => exact absurd rfl (isNew entries)
  | logEntry entry =>
      rw [Format.applyRecord, Format.applyEntry] at applied
      rw [keepAbove]
      split_ifs at applied with included next
      · cases applied
        rw [if_pos included]
        exact ⟨rfl, rfl, Nat.le_refl _, consecutive⟩
      · cases applied
        rw [if_neg included]
        exact ⟨rfl, rfl, Nat.le_refl _, consecutive.snoc (not_not.mp next)⟩
  | logTruncation firstIndex =>
      rw [Format.applyRecord] at applied
      split_ifs at applied
      cases applied
      refine ⟨?_, rfl, Nat.le_refl _, consecutive.take _⟩
      rw [keepAbove, consecutive.filter_lt, Nat.sub_right_comm]
  | commitIndex index =>
      rw [Format.applyRecord] at applied
      split_ifs at applied with earlier
      · cases applied
        exact ⟨rfl, rfl, Nat.le_refl _, consecutive⟩
      · cases applied
        exact ⟨rfl, rfl, Nat.le_of_not_lt earlier, consecutive⟩
  | clusterIdentity _ | nodeIdentity _ | hardState _ | checkpoint _ =>
      rw [Format.applyRecord] at applied
      split_ifs at applied
      all_goals
        cases applied
        exact ⟨rfl, rfl, Nat.le_refl _, consecutive⟩

end Format

section Replay

variable {format : Format Name Entry} {records kept : List (Record Name Entry)}
  {live ceiling : RecoveredState Name Entry} {record : Record Name Entry}

/-- From the ceiling a record does to the entries above it what it did to the
whole log. -/
theorem applyRecord_raised {state after : RecoveredState Name Entry}
    (consecutive : Consecutive format.index state.snapshotIndex state.log)
    (later : state.snapshotIndex ≤ ceiling.snapshotIndex)
    (bounded : state.commitIndex ≤ ceiling.commitIndex)
    (committed : ceiling.snapshotIndex ≤ ceiling.commitIndex) (identified : ceiling.Identified)
    (within : record.Within ceiling)
    (uncommitted : ∀ firstIndex, record = .logTruncation firstIndex →
      ceiling.commitIndex < firstIndex)
    (applied : format.applyRecord state record = .ok after) :
    format.applyRecord (ceiling.withLog (format.above ceiling.snapshotIndex state.log)) record =
      .ok (ceiling.withLog (format.above ceiling.snapshotIndex after.log)) := by
  have isNew : ∀ entries, record ≠ .legacyEntries entries := by
    rintro entries rfl
    exact within
  have log := (Format.applyRecord_keepAbove isNew consecutive applied).1
  have ends := Format.above_length consecutive later
  cases record with
  | clusterIdentity clusterID =>
      rw [log]
      exact applyRecord_clusterIdentity identified within
  | nodeIdentity nodeID =>
      rw [log]
      exact applyRecord_nodeIdentity identified within
  | hardState hardState =>
      rw [log]
      exact applyRecord_hardState identified.2 within
  | legacyEntries entries => exact within.elim
  | logEntry entry =>
      rw [Format.applyRecord, Format.applyEntry] at applied
      split_ifs at applied with included next
      · cases applied
        exact applyEntry_skip (Nat.le_trans included later)
      · cases applied
        have position : format.index entry = state.snapshotIndex + state.log.length + 1 :=
          not_not.mp next
        have split : format.above ceiling.snapshotIndex (state.log ++ [entry]) =
            format.above ceiling.snapshotIndex state.log ++
              format.above ceiling.snapshotIndex [entry] := List.filter_append ..
        simp only [split]
        by_cases covered : format.index entry ≤ ceiling.snapshotIndex
        · have nothing : format.above ceiling.snapshotIndex [entry] = [] :=
            List.filter_cons_of_neg (by simpa using covered)
          rw [nothing, List.append_nil]
          exact applyEntry_skip covered
        · have itself : format.above ceiling.snapshotIndex [entry] = [entry] :=
            List.filter_cons_of_pos (by simpa using covered)
          rw [itself]
          apply applyEntry_next
          rw [RecoveredState.lastIndex]
          simp only [RecoveredState.withLog]
          omega
  | logTruncation firstIndex =>
      have beyond := uncommitted firstIndex rfl
      rw [Format.applyRecord] at applied
      split_ifs at applied with outside
      cases applied
      rw [RecoveredState.lastIndex] at outside
      rw [applyRecord_truncation]
      · simp only [RecoveredState.withLog]
        rw [Format.above_eq_drop consecutive, Format.above_eq_drop (consecutive.take _),
          List.drop_take, show firstIndex - ceiling.snapshotIndex - 1 =
            firstIndex - state.snapshotIndex - 1 -
              (ceiling.snapshotIndex - state.snapshotIndex) by omega]
      · exact Nat.lt_of_le_of_lt committed beyond
      · exact beyond
      · rw [RecoveredState.lastIndex]
        simp only [RecoveredState.withLog]
        omega
  | commitIndex index =>
      rw [log]
      apply applyRecord_commitIndex
      · exact within
      · rw [Format.applyRecord, RecoveredState.lastIndex] at applied
        rw [RecoveredState.lastIndex]
        simp only [RecoveredState.withLog]
        split_ifs at applied with earlier beyond
        · exact .inl (Nat.lt_of_lt_of_le earlier bounded)
        · omega
  | checkpoint saved =>
      rw [log]
      exact applyRecord_checkpoint within.1 within.2

/-- A truncation at or below the Snapshot found a log that ended there. -/
def FindNothingAbove (format : Format Name Entry) (snapshotIndex : Nat)
    (start : RecoveredState Name Entry) (records : List (Record Name Entry)) : Prop :=
  ∀ before firstIndex after, records = before ++ .logTruncation firstIndex :: after →
    firstIndex ≤ snapshotIndex → ∀ found, before.foldlM format.applyRecord start = .ok found →
      found.lastIndex ≤ snapshotIndex

theorem TruncatesAfter.findNothingAbove {snapshotIndex : Nat}
    (uncovered : TruncatesAfter snapshotIndex records) (start : RecoveredState Name Entry) :
    FindNothingAbove format snapshotIndex start records := by
  intro before firstIndex after split covered
  have beyond := uncovered firstIndex (split ▸ List.mem_append_right _ List.mem_cons_self)
  exact absurd covered (Nat.not_le_of_lt beyond)

theorem above_covered {start middle : RecoveredState Name Entry} {snapshotIndex index : Nat}
    (consecutive : Consecutive format.index start.snapshotIndex start.log)
    (isNew : ∀ entries, record ≠ .legacyEntries entries)
    (applied : format.applyRecord start record = .ok middle)
    (covered : format.coveredBySnapshot snapshotIndex record = true)
    (later : snapshotIndex ≤ index)
    (nothing : ∀ firstIndex, record = .logTruncation firstIndex → start.lastIndex ≤ snapshotIndex) :
    format.above index middle.log = format.above index start.log := by
  rw [(Format.applyRecord_keepAbove isNew consecutive applied).1]
  cases record with
  | logEntry entry =>
      have included : format.index entry ≤ index :=
        Nat.le_trans (of_decide_eq_true covered) later
      have gone : format.above index [entry] = [] :=
        List.filter_cons_of_neg (by simpa using included)
      rw [Format.keepAbove]
      split_ifs
      · rfl
      · rw [Format.above, List.filter_append]
        exact (congrArg _ gone).trans (List.append_nil _)
  | logTruncation firstIndex =>
      have ends : start.snapshotIndex + start.log.length ≤ index :=
        Nat.le_trans (nothing firstIndex rfl) later
      rw [Format.keepAbove, consecutive.filter_lt, Format.above_eq_drop (consecutive.take _),
        Format.above_eq_drop consecutive, List.drop_eq_nil_of_le, List.drop_eq_nil_of_le]
      · omega
      · rw [List.length_take]
        omega
  | legacyEntries entries => exact absurd rfl (isNew entries)
  | _ => rfl

/-- Replay of what is left, from a ceiling that is not below the Snapshot. -/
theorem Trimmed.replays {snapshotIndex : Nat} {start : RecoveredState Name Entry}
    (trimmed : Trimmed format snapshotIndex records kept)
    (later : snapshotIndex ≤ ceiling.snapshotIndex)
    (consecutive : Consecutive format.index start.snapshotIndex start.log)
    (below : live.Below ceiling) (identified : ceiling.Identified)
    (within : ∀ record ∈ records, record.Within ceiling)
    (uncommitted : TruncatesAfter ceiling.commitIndex kept)
    (nothing : FindNothingAbove format snapshotIndex start records)
    (replayed : records.foldlM format.applyRecord start = .ok live) :
    start.snapshotIndex = live.snapshotIndex ∧ start.commitIndex ≤ live.commitIndex ∧
      kept.foldlM format.applyRecord
          (ceiling.withLog (format.above ceiling.snapshotIndex start.log)) =
        .ok (ceiling.withLog (format.above ceiling.snapshotIndex live.log)) := by
  have shifted : ∀ {record records} {start middle : RecoveredState Name Entry},
      FindNothingAbove format snapshotIndex start (record :: records) →
      format.applyRecord start record = .ok middle →
      FindNothingAbove format snapshotIndex middle records := by
    intro record records start middle nothing first before firstIndex after split covered found rest
    exact nothing (record :: before) firstIndex after (split ▸ rfl) covered found
      (Fallible.foldlM_cons_eq_ok.mpr ⟨middle, first, rest⟩)
  have old : ∀ {record : Record Name Entry}, record.Within ceiling →
      ∀ entries, record ≠ .legacyEntries entries := by
    rintro _ within entries rfl
    exact within
  induction trimmed generalizing start with
  | nil =>
      cases replayed
      exact ⟨rfl, Nat.le_refl _, rfl⟩
  | @keep record records kept _ induction =>
      rcases Fallible.foldlM_cons_eq_ok.mp replayed with ⟨middle, first, rest⟩
      rcases List.forall_mem_cons.mp within with ⟨here, others⟩
      rcases Format.applyRecord_keepAbove (old here) consecutive first with
        ⟨_, sameIndex, advanced, next⟩
      rcases induction next others (fun _ present => uncommitted _ (List.mem_cons_of_mem _ present))
        (shifted nothing first) rest with ⟨index, commit, replays⟩
      have isIndex := sameIndex.symm.trans index
      have reaches := Nat.le_trans advanced commit
      refine ⟨isIndex, reaches, Fallible.foldlM_cons_eq_ok.mpr ⟨_, ?_, replays⟩⟩
      apply applyRecord_raised consecutive _ _ below.committed identified here _ first
      · rw [isIndex]
        exact below.snapshotIndex
      · exact Nat.le_trans reaches below.commitIndex
      · rintro firstIndex rfl
        exact uncommitted firstIndex List.mem_cons_self
  | @remove record records kept covered _ induction =>
      rcases Fallible.foldlM_cons_eq_ok.mp replayed with ⟨middle, first, rest⟩
      rcases List.forall_mem_cons.mp within with ⟨here, others⟩
      rcases Format.applyRecord_keepAbove (old here) consecutive first with
        ⟨_, sameIndex, advanced, next⟩
      rcases induction next others uncommitted (shifted nothing first) rest with
        ⟨index, commit, replays⟩
      refine ⟨sameIndex.symm.trans index, Nat.le_trans advanced commit, ?_⟩
      rw [← above_covered consecutive (old here) first covered later]
      · exact replays
      · rintro firstIndex rfl
        exact nothing [] firstIndex records rfl (of_decide_eq_true covered) start rfl

/-! ### Recovery -/

theorem recoverRecords_eq_ok {state : RecoveredState Name Entry} :
    format.recoverRecords records = .ok state ↔
      ∃ checkpoint, format.newestCompactionCheckpoint records = .ok checkpoint ∧
        records.foldlM format.applyRecord (.ofCheckpoint checkpoint) = .ok state ∧
        state.Identified := by
  rw [Format.recoverRecords, Fallible.bind_eq_ok]
  apply exists_congr
  intro checkpoint
  apply and_congr_right
  intro _
  rw [Fallible.bind_eq_ok]
  constructor
  · rintro ⟨middle, replayed, complete⟩
    rw [Format.identified] at complete
    split_ifs at complete with empty
    cases complete
    exact ⟨replayed, not_or.mp empty⟩
  · rintro ⟨replayed, identified⟩
    refine ⟨state, replayed, ?_⟩
    rw [Format.identified, if_neg (not_or.mpr identified)]

omit [DecidableEq Name] in
theorem visitCheckpoint_within {saved newest : CompactionCheckpoint Name}
    (valid : live.Valid format) (within : (Record.checkpoint saved).Within live)
    (positioned : (Record.checkpoint saved : Record Name Entry).Positioned) :
    format.visitCheckpoint newest (.checkpoint saved) = .ok saved := by
  rcases within with ⟨identity, _⟩
  rcases positioned with ⟨index, term, committed⟩
  have named : ¬(format.blank saved.identity.clusterID ∨ format.blank saved.identity.nodeID) := by
    rw [identity, valid.clusterID, valid.nodeID]
    simp
  rw [Format.visitCheckpoint, if_neg named, if_neg]
  omega

omit [DecidableEq Name] in
theorem newest_of_within (valid : live.Valid format)
    (within : ∀ record ∈ records, record.Within live)
    (positioned : ∀ record ∈ records, record.Positioned) :
    ∃ checkpoint, format.newestCompactionCheckpoint records = .ok checkpoint := by
  suffices ∀ newest, ∃ checkpoint,
      records.foldlM format.visitCheckpoint newest = .ok checkpoint from this .zero
  induction records with
  | nil => exact fun newest => ⟨newest, rfl⟩
  | cons record records induction =>
      intro newest
      have visited : ∃ next, format.visitCheckpoint newest record = .ok next := by
        cases record with
        | checkpoint saved =>
            exact ⟨saved, visitCheckpoint_within valid (within _ List.mem_cons_self)
              (positioned _ List.mem_cons_self)⟩
        | _ => exact ⟨newest, rfl⟩
      rcases visited with ⟨next, first⟩
      rcases induction (fun _ present => within _ (List.mem_cons_of_mem _ present))
        (fun _ present => positioned _ (List.mem_cons_of_mem _ present)) next with
        ⟨checkpoint, rest⟩
      exact ⟨checkpoint, Fallible.foldlM_cons_eq_ok.mpr ⟨next, first, rest⟩⟩

omit [DecidableEq Name] in
theorem Record.Extends.visitCheckpoint (extending : record.Extends format live)
    (newest : CompactionCheckpoint Name) :
    format.visitCheckpoint newest record = .ok newest := by
  cases record with
  | checkpoint saved => exact extending.elim
  | _ => rfl

end Replay

namespace Intact

variable {format : Format Name Entry} {records kept : List (Record Name Entry)}
  {live : RecoveredState Name Entry} {record : Record Name Entry}

theorem start {identity : Identity Name} (clusterID : format.blank identity.clusterID = false)
    (nodeID : format.blank identity.nodeID = false) :
    Intact format [.clusterIdentity identity.clusterID, .nodeIdentity identity.nodeID]
      (.fresh identity) where
  valid := {
    clusterID := clusterID
    nodeID := nodeID
    consecutive := trivial
    committed := Nat.le_refl 0
    known := Nat.le_refl 0 }
  within := by
    intro record present
    rcases List.mem_cons.mp present with first | rest
    · exact first ▸ rfl
    · exact List.mem_singleton.mp rest ▸ rfl
  positioned := by
    intro record present
    rcases List.mem_cons.mp present with first | rest
    · exact first ▸ trivial
    · exact List.mem_singleton.mp rest ▸ trivial
  recovers := by
    have cluster := ne_default_of_not_blank clusterID
    have node := ne_default_of_not_blank nodeID
    apply recoverRecords_eq_ok.mpr ⟨.zero, rfl, ?_, cluster, node⟩
    apply Fallible.foldlM_cons_eq_ok.mpr ⟨.fresh ⟨identity.clusterID, default⟩, ?_, ?_⟩
    · exact if_neg (not_not_intro rfl)
    · rw [Fallible.foldlM_singleton]
      exact (if_neg cluster).trans (if_neg (not_not_intro rfl))

theorem append (intact : Intact format records live) (extending : record.Extends format live) :
    Intact format (records ++ [record]) (record.extend live) where
  valid := extending.valid intact.valid
  within := by
    intro other present
    rcases List.mem_append.mp present with earlier | last
    · exact (intact.within other earlier).mono (extending.below intact.valid)
    · exact List.mem_singleton.mp last ▸ extending.within
  positioned := by
    intro other present
    rcases List.mem_append.mp present with earlier | last
    · exact intact.positioned other earlier
    · exact List.mem_singleton.mp last ▸ extending.positioned
  recovers := by
    rcases recoverRecords_eq_ok.mp intact.recovers with ⟨checkpoint, newest, replayed, _⟩
    apply recoverRecords_eq_ok.mpr ⟨checkpoint, ?_, ?_, (extending.valid intact.valid).identified⟩
    · rw [Format.newestCompactionCheckpoint, Fallible.foldlM_append newest,
        Fallible.foldlM_singleton, extending.visitCheckpoint]
    · rw [Fallible.foldlM_append replayed, Fallible.foldlM_singleton,
        extending.applies intact.valid]

end Intact

inductive Appends (format : Format Name Entry) :
    RecoveredState Name Entry → List (Record Name Entry) → RecoveredState Name Entry → Prop
  | nil {live} : Appends format live [] live
  | cons {live record records final} : record.Extends format live →
      Appends format (record.extend live) records final →
      Appends format live (record :: records) final

omit [DecidableEq Name] in
theorem Appends.single {format : Format Name Entry} {live : RecoveredState Name Entry}
    {record : Record Name Entry} (extending : record.Extends format live) :
    Appends format live [record] (record.extend live) :=
  .cons extending .nil

omit [DecidableEq Name] in
theorem Appends.valid {format : Format Name Entry} {live final : RecoveredState Name Entry}
    {more : List (Record Name Entry)} (appends : Appends format live more final)
    (valid : live.Valid format) : final.Valid format := by
  induction appends with
  | nil => exact valid
  | cons extending _ induction => exact induction (extending.valid valid)

theorem Intact.appends {format : Format Name Entry} {records more : List (Record Name Entry)}
    {live final : RecoveredState Name Entry} (intact : Intact format records live)
    (appends : Appends format live more final) : Intact format (records ++ more) final := by
  induction appends generalizing records with
  | nil => rwa [List.append_nil]
  | cons extending _ induction =>
      rw [List.append_cons]
      exact induction (intact.append extending)

structure Advances (live : RecoveredState Name Entry) (saved : CompactionCheckpoint Name) :
    Prop where
  identity : saved.identity = live.identity
  hardState : saved.hardState = live.hardState
  snapshotIndex : live.snapshotIndex ≤ saved.snapshotIndex
  commitIndex : live.commitIndex ≤ saved.commitIndex
  committed : saved.snapshotIndex ≤ saved.commitIndex
  known : saved.commitIndex ≤ max saved.snapshotIndex live.lastIndex

namespace Advances

variable {format : Format Name Entry} {live : RecoveredState Name Entry}
  {saved : CompactionCheckpoint Name}

/-- The live state with the Snapshot of the checkpoint. -/
def result (format : Format Name Entry) (live : RecoveredState Name Entry)
    (saved : CompactionCheckpoint Name) : RecoveredState Name Entry :=
  RecoveredState.withLog (.ofCheckpoint saved) (format.above saved.snapshotIndex live.log)

omit [DecidableEq Name] in
theorem valid (advances : Advances live saved) (valid : live.Valid format) :
    (result format live saved).Valid format where
  clusterID := by
    rw [← valid.clusterID, ← advances.identity]
    rfl
  nodeID := by
    rw [← valid.nodeID, ← advances.identity]
    rfl
  consecutive := Format.above_consecutive valid.consecutive advances.snapshotIndex
  committed := advances.committed
  known := by
    have ends := Format.above_length valid.consecutive advances.snapshotIndex
    have known := advances.known
    rw [RecoveredState.lastIndex] at known ⊢
    simp only [result, RecoveredState.withLog, RecoveredState.ofCheckpoint]
    omega

omit [DecidableEq Name] in
theorem below (advances : Advances live saved) : live.Below (result format live saved) where
  identity := advances.identity
  hardState := by
    rw [← advances.hardState]
    exact .refl _
  commitIndex := advances.commitIndex
  snapshotIndex := advances.snapshotIndex
  committed := advances.committed

omit [DecidableEq Name] in
theorem within :
    (Record.checkpoint saved).Within (result format live saved) :=
  ⟨rfl, Nat.le_refl _⟩

end Advances

/-- A checkpoint takes covered records away. -/
theorem Intact.checkpoint_kept {format : Format Name Entry}
    {records kept : List (Record Name Entry)} {live : RecoveredState Name Entry}
    {saved : CompactionCheckpoint Name} (intact : Intact format records live)
    (advances : Advances live saved)
    (positioned : (Record.checkpoint saved : Record Name Entry).Positioned)
    (trimmed : Trimmed format saved.snapshotIndex records kept)
    (uncommitted : TruncatesAfter saved.commitIndex kept)
    (nothing : ∀ checkpoint, format.newestCompactionCheckpoint records = .ok checkpoint →
      FindNothingAbove format saved.snapshotIndex (.ofCheckpoint checkpoint) records) :
    Intact format (kept ++ [.checkpoint saved]) (Advances.result format live saved) := by
  have valid := advances.valid intact.valid
  have below : live.Below (Advances.result format live saved) := advances.below
  have within : ∀ record ∈ records, record.Within (Advances.result format live saved) :=
    fun record present => (intact.within record present).mono below
  have positionedKept : ∀ record ∈ kept, record.Positioned := fun record present =>
    intact.positioned record (trimmed.subset record present)
  exact {
    valid := valid
    within := by
      intro record present
      rcases List.mem_append.mp present with earlier | last
      · exact within record (trimmed.subset record earlier)
      · exact List.mem_singleton.mp last ▸ Advances.within
    positioned := by
      intro record present
      rcases List.mem_append.mp present with earlier | last
      · exact positionedKept record earlier
      · exact List.mem_singleton.mp last ▸ positioned
    recovers := by
      rcases recoverRecords_eq_ok.mp intact.recovers with ⟨checkpoint, isNewest, replayed, _⟩
      rcases newest_of_within valid (fun record present => within record
        (trimmed.subset record present)) positionedKept with ⟨newest, searched⟩
      apply recoverRecords_eq_ok.mpr ⟨saved, ?_, ?_, valid.identified⟩
      · rw [Format.newestCompactionCheckpoint, Fallible.foldlM_append searched,
          Fallible.foldlM_singleton, visitCheckpoint_within valid Advances.within positioned]
      · have empty : Consecutive format.index
            (RecoveredState.ofCheckpoint checkpoint : RecoveredState Name Entry).snapshotIndex [] :=
          trivial
        have replays : kept.foldlM format.applyRecord (.ofCheckpoint saved) =
            .ok (Advances.result format live saved) :=
          (trimmed.replays (Nat.le_refl _) empty below valid.identified within uncommitted
            (nothing checkpoint isNewest) replayed).2.2
        rw [Fallible.foldlM_append replays, Fallible.foldlM_singleton]
        exact applyRecord_checkpoint rfl (Nat.le_refl _) }

theorem Intact.checkpoint {format : Format Name Entry} {records kept : List (Record Name Entry)}
    {live : RecoveredState Name Entry} {saved : CompactionCheckpoint Name}
    (intact : Intact format records live) (advances : Advances live saved)
    (positioned : (Record.checkpoint saved : Record Name Entry).Positioned)
    (uncommitted : TruncatesAfter saved.commitIndex records)
    (trimmed : Trimmed format saved.snapshotIndex records kept) :
    Intact format (kept ++ [.checkpoint saved]) (Advances.result format live saved) := by
  apply intact.checkpoint_kept advances positioned trimmed
  · exact fun firstIndex present => uncommitted firstIndex (trimmed.subset _ present)
  · intro checkpoint _
    apply TruncatesAfter.findNothingAbove
    exact fun firstIndex present =>
      Nat.lt_of_le_of_lt advances.committed (uncommitted firstIndex present)

end Ternion.Wal
