import Ternion.Wal.Calls

/-! # What a successful recovery returns

A truncation that compaction takes away may bring entries back, because an older
segment with the truncated entries can stay. A recovery that succeeds returns
the live state as long as every truncation that a Snapshot covers was made when
the log ended at or below the Snapshot.
-/

namespace Ternion.Wal

variable {Name Entry Content : Type} [Inhabited Name]

/-! ## The entries that replay keeps -/

namespace Format

variable (format : Format Name Entry)

def logAbove (index : Nat) (records : List (Record Name Entry)) : List Entry :=
  records.foldl (format.keepAbove index) []

variable {format}

theorem logAbove_snoc (index : Nat) (records : List (Record Name Entry))
    (record : Record Name Entry) :
    format.logAbove index (records ++ [record]) =
      format.keepAbove index (format.logAbove index records) record :=
  List.foldl_append ..

variable [DecidableEq Name] {state after : RecoveredState Name Entry}
  {record : Record Name Entry}

theorem replay_keepAbove {records : List (Record Name Entry)}
    (isNew : ∀ record ∈ records, ∀ entries, record ≠ .legacyEntries entries)
    (consecutive : Consecutive format.index state.snapshotIndex state.log)
    (replayed : records.foldlM format.applyRecord state = .ok after) :
    after.log = records.foldl (format.keepAbove state.snapshotIndex) state.log := by
  induction records generalizing state with
  | nil =>
      cases replayed
      rfl
  | cons record records induction =>
      rcases Fallible.foldlM_cons_eq_ok.mp replayed with ⟨middle, first, rest⟩
      rcases applyRecord_keepAbove (isNew record List.mem_cons_self) consecutive first with
        ⟨log, snapshotIndex, _, later⟩
      rw [induction (fun other present => isNew other (List.mem_cons_of_mem _ present)) later rest,
        snapshotIndex, log]
      rfl

end Format

/-! ## Covered records -/

namespace Trimmed

variable {format : Format Name Entry} {snapshotIndex : Nat}
  {records kept : List (Record Name Entry)}

/-- Covered records go without a trace, if every truncation among them found
nothing above the Snapshot. -/
theorem foldl_keepAbove {index : Nat} {log : List Entry}
    (trimmed : Trimmed format snapshotIndex records kept) (later : snapshotIndex ≤ index)
    (isNew : ∀ record ∈ records, ∀ entries, record ≠ .legacyEntries entries)
    (harmless : ∀ before firstIndex after,
      records = before ++ .logTruncation firstIndex :: after → firstIndex ≤ snapshotIndex →
      before.foldl (format.keepAbove index) log = []) :
    kept.foldl (format.keepAbove index) log = records.foldl (format.keepAbove index) log := by
  induction trimmed generalizing log with
  | nil => rfl
  | @keep record records kept _ induction =>
      apply induction fun other present => isNew other (List.mem_cons_of_mem _ present)
      intro before firstIndex after split covered
      exact harmless (record :: before) firstIndex after (split ▸ rfl) covered
  | @remove record records kept covered _ induction =>
      have unchanged : format.keepAbove index log record = log := by
        cases record with
        | logEntry entry =>
            exact if_pos (Nat.le_trans (of_decide_eq_true covered) later)
        | logTruncation firstIndex =>
            have empty := harmless [] firstIndex records rfl (of_decide_eq_true covered)
            rw [List.foldl_nil] at empty
            rw [empty]
            rfl
        | legacyEntries entries => exact absurd rfl (isNew _ List.mem_cons_self entries)
        | _ => rfl
      rw [List.foldl_cons, unchanged]
      apply induction fun other present => isNew other (List.mem_cons_of_mem _ present)
      intro before firstIndex after split beyond
      have nothing := harmless (record :: before) firstIndex after (split ▸ rfl) beyond
      rwa [List.foldl_cons, unchanged] at nothing

theorem split {before after : List (Record Name Entry)} {record : Record Name Entry}
    (trimmed : Trimmed format snapshotIndex records (before ++ record :: after)) :
    ∃ earlier later, records = earlier ++ record :: later ∧
      Trimmed format snapshotIndex earlier before := by
  generalize whole : before ++ record :: after = kept at trimmed
  induction trimmed generalizing before with
  | nil => simp at whole
  | @keep first records kept rest induction =>
      cases before with
      | nil =>
          cases whole
          exact ⟨[], records, rfl, .nil⟩
      | cons head before =>
          cases whole
          rcases induction rfl with ⟨earlier, later, same, trimmed⟩
          exact ⟨first :: earlier, later, same ▸ rfl, .keep trimmed⟩
  | @remove first records kept covered rest induction =>
      rcases induction whole with ⟨earlier, later, same, trimmed⟩
      exact ⟨first :: earlier, later, same ▸ rfl, .remove covered trimmed⟩

end Trimmed

/-! ## Faithful records -/

variable [DecidableEq Name]

/-- Records from which nothing but the live state is recovered, now and after
further Snapshots. Each truncation on disk is one of the cuts: it found nothing
above the end of the log at its time. -/
structure Faithful (format : Format Name Entry) (records : List (Record Name Entry))
    (live : RecoveredState Name Entry) (cuts : List (Nat × Nat)) : Prop where
  valid : live.Valid format
  within : ∀ record ∈ records, record.Within live
  above : ∀ index, live.snapshotIndex ≤ index →
    format.logAbove index records = format.above index live.log
  truncations : ∀ before firstIndex after,
    records = before ++ .logTruncation firstIndex :: after →
    ∃ cut ∈ cuts, cut.1 = firstIndex ∧ ∀ index, live.snapshotIndex ≤ index →
      cut.2 ≤ index → format.logAbove index before = []
  recovers : ∀ state, format.recoverRecords records = .ok state → state = live

namespace Faithful

variable {format : Format Name Entry} {records kept : List (Record Name Entry)}
  {live : RecoveredState Name Entry} {cuts moreCuts : List (Nat × Nat)}
  {record : Record Name Entry}

omit [DecidableEq Name] in
theorem isNew (within : ∀ record ∈ records, record.Within live) :
    ∀ record ∈ records, ∀ entries, record ≠ .legacyEntries entries := by
  intro record present entries same
  have impossible := within record present
  rw [same] at impossible
  exact impossible

theorem start {identity : Identity Name} (clusterID : format.blank identity.clusterID = false)
    (nodeID : format.blank identity.nodeID = false) :
    Faithful format [.clusterIdentity identity.clusterID, .nodeIdentity identity.nodeID]
      (.fresh identity) [] where
  valid := (Intact.start clusterID nodeID).valid
  within := (Intact.start clusterID nodeID).within
  above := fun _ _ => rfl
  truncations := by
    intro before firstIndex after split
    have present : (Record.logTruncation firstIndex : Record Name Entry) ∈
        [Record.clusterIdentity identity.clusterID, .nodeIdentity identity.nodeID] := by
      rw [split]
      exact List.mem_append_right _ List.mem_cons_self
    simp at present
  recovers := by
    intro state recovered
    rw [(Intact.start clusterID nodeID).recovers] at recovered
    exact (Except.ok.inj recovered).symm

omit [DecidableEq Name] in
theorem above_end (valid : live.Valid format) {index : Nat} (beyond : live.lastIndex ≤ index) :
    format.above index live.log = [] := by
  rw [Format.above_eq_drop valid.consecutive]
  apply List.drop_eq_nil_of_le
  rw [RecoveredState.lastIndex] at beyond
  omega

omit [DecidableEq Name] in
theorem keepAbove_extend (valid : live.Valid format) (extending : record.Extends format live)
    (index : Nat) :
    format.keepAbove index (format.above index live.log) record =
      format.above index (record.extend live).log := by
  cases record with
  | logEntry entry =>
      rw [Record.extend, RecoveredState.withLog_log, Format.above, Format.above,
        List.filter_append, Format.keepAbove]
      split_ifs with included
      · rw [List.filter_cons_of_neg (by simpa using included), List.filter_nil, List.append_nil]
      · rw [List.filter_cons_of_pos (by simpa using included), List.filter_nil]
  | logTruncation firstIndex =>
      have kept : live.log.take (firstIndex - live.snapshotIndex - 1) =
          live.log.filter fun entry => format.index entry < firstIndex := by
        rw [valid.consecutive.filter_lt, Nat.sub_right_comm]
      rw [Record.extend, RecoveredState.withLog_log, kept, Format.above, Format.above,
        Format.keepAbove, List.filter_filter, List.filter_filter]
      exact List.filter_congr fun entry _ => Bool.and_comm ..
  | hardState state => rfl
  | commitIndex position => rfl
  | _ => exact extending.elim

theorem applyRecord_identity {state after : RecoveredState Name Entry}
    (extending : record.Extends format live)
    (applied : format.applyRecord state record = .ok after) : after.identity = state.identity := by
  cases record with
  | logEntry entry =>
      rw [Format.applyRecord, Format.applyEntry] at applied
      split_ifs at applied
      all_goals
        cases applied
        rfl
  | hardState _ | logTruncation _ | commitIndex _ =>
      rw [Format.applyRecord] at applied
      split_ifs at applied
      all_goals
        cases applied
        rfl
  | _ => exact extending.elim

section

variable (faithful : Faithful format records live cuts)

include faithful

theorem append (extending : record.Extends format live) (kept : ∀ cut ∈ cuts, cut ∈ moreCuts)
    (recorded : ∀ firstIndex, record = .logTruncation firstIndex →
      (firstIndex, live.lastIndex) ∈ moreCuts) :
    Faithful format (records ++ [record]) (record.extend live) moreCuts where
  valid := extending.valid faithful.valid
  within := by
    intro other present
    rcases List.mem_append.mp present with earlier | last
    · exact (faithful.within other earlier).mono (extending.below faithful.valid)
    · exact List.mem_singleton.mp last ▸ extending.within
  above := by
    intro index later
    have before := (extending.below faithful.valid).snapshotIndex
    rw [Format.logAbove_snoc, faithful.above index (Nat.le_trans before later),
      keepAbove_extend faithful.valid extending]
  truncations := by
    intro before firstIndex after split
    have earlier := (extending.below faithful.valid).snapshotIndex
    rcases List.eq_nil_or_concat' after with empty | ⟨rest, last, same⟩
    · rw [empty] at split
      rcases List.append_inj' split rfl with ⟨whole, truncation⟩
      refine ⟨_, recorded firstIndex (List.singleton_inj.mp truncation), rfl, ?_⟩
      intro index later beyond
      rw [← whole, faithful.above index (Nat.le_trans earlier later)]
      exact above_end faithful.valid beyond
    · rw [same, ← List.cons_append, ← List.append_assoc] at split
      rcases List.append_inj' split rfl with ⟨whole, _⟩
      rcases faithful.truncations before firstIndex rest whole with ⟨cut, made, same, found⟩
      exact ⟨cut, kept cut made, same, fun index later => found index (Nat.le_trans earlier later)⟩
  recovers := by
    intro state recovered
    rcases recoverRecords_eq_ok.mp recovered with ⟨checkpoint, newest, replayed, identified⟩
    rcases Fallible.foldlM_append_eq_ok.mp newest with ⟨found, searched, visited⟩
    rcases Fallible.foldlM_append_eq_ok.mp replayed with ⟨middle, replayedEarlier, applied⟩
    rw [Fallible.foldlM_singleton] at visited applied
    rw [extending.visitCheckpoint] at visited
    cases visited
    have identifiedEarlier : middle.Identified := by
      rw [RecoveredState.Identified, ← applyRecord_identity extending applied]
      exact identified
    have same := faithful.recovers middle
      (recoverRecords_eq_ok.mpr ⟨checkpoint, searched, replayedEarlier, identifiedEarlier⟩)
    rw [same, extending.applies faithful.valid] at applied
    exact (Except.ok.inj applied).symm

theorem mono (kept : ∀ cut ∈ cuts, cut ∈ moreCuts) : Faithful format records live moreCuts :=
  { faithful with
    truncations := by
      intro before firstIndex after split
      rcases faithful.truncations before firstIndex after split with ⟨cut, made, found⟩
      exact ⟨cut, kept cut made, found⟩ }

theorem appends {more : List (Record Name Entry)} {final : RecoveredState Name Entry}
    (appends : Appends format live more final)
    (uncut : ∀ firstIndex, .logTruncation firstIndex ∉ more) :
    Faithful format (records ++ more) final cuts := by
  induction appends generalizing records with
  | nil => rwa [List.append_nil]
  | cons extending _ induction =>
      rw [List.append_cons]
      apply induction
      · apply faithful.append extending (fun _ made => made)
        intro firstIndex same
        exact absurd (same ▸ List.mem_cons_self) (uncut firstIndex)
      · intro firstIndex present
        exact uncut firstIndex (List.mem_cons_of_mem _ present)

theorem checkpoint {saved : CompactionCheckpoint Name}
    (advances : Advances live saved) (trimmed : Trimmed format saved.snapshotIndex records kept)
    (harmless : ∀ cut ∈ cuts, cut.1 ≤ saved.snapshotIndex → cut.2 ≤ saved.snapshotIndex) :
    Faithful format (kept ++ [.checkpoint saved]) (Advances.result format live saved) cuts := by
  have isNew := isNew faithful.within
  have below : live.Below (Advances.result format live saved) := advances.below
  have valid := advances.valid faithful.valid
  have later : live.snapshotIndex ≤ saved.snapshotIndex := below.snapshotIndex
  -- What is left of a part of the records has the entries of that part.
  have logAbove_kept : ∀ {index : Nat} {part left rest : List (Record Name Entry)},
      saved.snapshotIndex ≤ index → records = part ++ rest →
      Trimmed format saved.snapshotIndex part left →
      format.logAbove index left = format.logAbove index part := by
    intro index part left rest beyond split trimmed
    apply trimmed.foldl_keepAbove beyond
    · intro record present
      exact isNew record (split ▸ List.mem_append_left _ present)
    · intro before firstIndex after same covered
      have whole : records = before ++ .logTruncation firstIndex :: (after ++ rest) := by
        rw [split, same, List.append_assoc, List.cons_append]
      rcases faithful.truncations before firstIndex _ whole with ⟨cut, made, start, found⟩
      exact found index (Nat.le_trans later beyond)
        (Nat.le_trans (harmless cut made (start ▸ covered)) beyond)
  have logAbove_all : ∀ index, saved.snapshotIndex ≤ index →
      format.logAbove index kept = format.above index live.log := by
    intro index beyond
    rw [logAbove_kept beyond (List.append_nil records).symm trimmed,
      faithful.above index (Nat.le_trans later beyond)]
  exact {
    valid := valid
    within := by
      intro record present
      rcases List.mem_append.mp present with earlier | last
      · exact (faithful.within record (trimmed.subset record earlier)).mono below
      · exact List.mem_singleton.mp last ▸ Advances.within
    above := by
      intro index beyond
      have after : saved.snapshotIndex ≤ index := beyond
      rw [Format.logAbove_snoc]
      change format.logAbove index kept = _
      rw [logAbove_all index after, Advances.result, RecoveredState.withLog_log,
        Format.above_above after]
    truncations := by
      intro before firstIndex after split
      rcases List.eq_nil_or_concat' after with empty | ⟨rest, last, same⟩
      · rw [empty] at split
        cases List.singleton_inj.mp (List.append_inj' split rfl).2
      · rw [same, ← List.cons_append, ← List.append_assoc] at split
        rw [(List.append_inj' split rfl).1] at trimmed
        rcases trimmed.split with ⟨earlier, following, whole, left⟩
        rcases faithful.truncations earlier firstIndex following whole with
          ⟨cut, made, start, found⟩
        refine ⟨cut, made, start, fun index beyond passed => ?_⟩
        have after : saved.snapshotIndex ≤ index := beyond
        rw [logAbove_kept after whole left]
        exact found index (Nat.le_trans later after) passed
    recovers := by
      intro state recovered
      rcases recoverRecords_eq_ok.mp recovered with ⟨newest, searched, replayed, _⟩
      rcases Fallible.foldlM_append_eq_ok.mp searched with ⟨_, _, visited⟩
      rcases Fallible.foldlM_append_eq_ok.mp replayed with ⟨middle, earlier, last⟩
      rw [Fallible.foldlM_singleton] at visited last
      have found : newest = saved := by
        rw [Format.visitCheckpoint] at visited
        split_ifs at visited
        exact (Except.ok.inj visited).symm
      rw [found] at earlier
      have framed := replay_within valid.identified (fun record present =>
        (faithful.within record (trimmed.subset record present)).mono below) earlier
      have empty : Consecutive format.index
        (RecoveredState.ofCheckpoint saved : RecoveredState Name Entry).snapshotIndex [] := trivial
      have entries := Format.replay_keepAbove
        (fun record present => isNew record (trimmed.subset record present)) empty earlier
      have whole : middle = Advances.result format live saved := by
        rw [framed, entries]
        exact congrArg _ (logAbove_all saved.snapshotIndex (Nat.le_refl _))
      rw [Format.applyRecord] at last
      split_ifs at last
      rw [← Except.ok.inj last, whole] }

end

end Faithful

/-! ## Sessions -/

structure Referenced (medium : Medium Name Entry Content) (fits : Record Name Entry → Prop)
    (identity : Identity Name) (session : Session Name Entry Content)
    (records : List (Record Name Entry)) : Prop where
  sound : session.wal.Sound medium fits records
    ((session.reference medium.toFormat).recovered medium.toFormat identity)
  faithful : Faithful medium.toFormat records
    ((session.reference medium.toFormat).recovered medium.toFormat identity) session.truncations

/-- Compaction at the Term of the entry, as far as the reference store knows. -/
def Session.Captures (format : Format Name Entry) (fits : Record Name Entry → Prop)
    (session : Session Name Entry Content) (action : Action Name Entry) : Prop :=
  session.Local fits action ∧
    match action with
    | .reopen _ => True
    | .call call => ∀ position ∈ call.position,
        ((session.reference format).log.find? fun entry =>
          format.index entry = position.1).map format.term = some position.2

/-- Every truncation at or below the Snapshot found the log ending at or below
the Snapshot. -/
def Session.CompactsWhole (session : Session Name Entry Content) : Action Name Entry → Prop
  | .reopen _ => True
  | .call call => ∀ position ∈ call.position, ∀ cut ∈ session.truncations,
      cut.1 ≤ position.1 → cut.2 ≤ position.1

instance (format : Format Name Entry) (fits : Record Name Entry → Prop) [DecidablePred fits]
    (session : Session Name Entry Content) :
    (action : Action Name Entry) → Decidable (session.Captures format fits action)
  | .reopen _ => .isTrue ⟨trivial, trivial⟩
  | .call call => inferInstanceAs (Decidable (session.Local fits (.call call) ∧
      ∀ position ∈ call.position, ((session.reference format).log.find? fun entry =>
        format.index entry = position.1).map format.term = some position.2))

instance (session : Session Name Entry Content) :
    (action : Action Name Entry) → Decidable (session.CompactsWhole action)
  | .reopen _ => .isTrue trivial
  | .call call => inferInstanceAs (Decidable (∀ position ∈ call.position,
      ∀ cut ∈ session.truncations, cut.1 ≤ position.1 → cut.2 ≤ position.1))

namespace Referenced

variable {medium : Medium Name Entry Content} {fits : Record Name Entry → Prop}
  {identity : Identity Name} {segmentSize : Nat} {session after : Session Name Entry Content}
  {records : List (Record Name Entry)}

theorem start {wal : WAL Name Content} {recovered : RecoveredState Name Entry}
    (cluster : fits (.clusterIdentity identity.clusterID))
    (node : fits (.nodeIdentity identity.nodeID))
    (opened : WAL.openWAL medium identity segmentSize [] = .ok (wal, recovered)) :
    Referenced medium fits identity { wal := wal }
      [.clusterIdentity identity.clusterID, .nodeIdentity identity.nodeID] := by
  rcases WAL.openWAL_eq_ok opened with ⟨clusterID, nodeID, _⟩
  exact {
    sound := WAL.openWAL_nil_sound cluster node opened
    faithful := .start clusterID nodeID }

section

variable (referenced : Referenced medium fits identity session records)
  (lawful : medium.Lawful fits)

include referenced lawful

theorem opens {reopened : WAL Name Content} {recovered : RecoveredState Name Entry}
    (opened : WAL.openWAL medium identity segmentSize session.wal.segments =
      .ok (reopened, recovered)) :
    recovered = (session.reference medium.toFormat).recovered medium.toFormat identity ∧
      reopened.Sound medium fits records recovered := by
  rcases WAL.openWAL_eq_ok opened with ⟨clusterID, nodeID, roomy⟩
  have someSegment : session.wal.segments ≠ [] := List.append_ne_nil_of_right_ne_nil _ (by simp)
  rw [WAL.openWAL_eq lawful referenced.sound.holds someSegment clusterID nodeID roomy] at opened
  rcases Fallible.bind_eq_ok.mp opened with ⟨state, replayed, same⟩
  split_ifs at same with conflict
  have resumed := congrArg Prod.fst (Except.ok.inj same)
  have found := congrArg Prod.snd (Except.ok.inj same)
  dsimp only at resumed found
  rw [← found, ← resumed]
  exact ⟨referenced.faithful.recovers state replayed,
    WAL.resume_sound referenced.sound.holds someSegment (not_not.mp conflict)⟩

theorem call {call : Call Name Entry}
    (proper : session.Local fits (.call call)) (whole : session.CompactsWhole (.call call))
    (taken : session.next medium (.call call) = some after) :
    ∃ left, Referenced medium fits identity after left := by
  rcases proper with ⟨fit, ordered, _, forwards⟩
  rcases Session.next_call taken with ⟨called, history⟩
  rcases Session.truncations_call history with ⟨cuts, cutNow⟩
  have sound := referenced.sound
  have valid := referenced.faithful.valid
  have later : ∀ position ∈ call.position,
      (session.reference medium.toFormat).snapshotIndex ≤ position.1 := by
    intro position recorded
    have forward := forwards position recorded
    rwa [sound.mirrors.snapshotIndex] at forward
  have following : ∀ entries, call = .saveLogEntries entries → Consecutive medium.index
      ((session.reference medium.toFormat).recovered medium.toFormat identity).lastIndex
        entries := by
    rintro entries rfl
    exact (sound.saveLogEntries (fun entry present => fit _ (List.mem_map_of_mem present))
      called).1
  have effect := call.effect_recovered valid following later
  rw [← Session.reference_call history] at effect
  cases position : call.position with
  | none =>
      rcases sound.appends valid fit ordered position called with
        ⟨more, appends, written, afterwards⟩
      rw [effect] at appends afterwards
      refine ⟨records ++ more, afterwards, ?_⟩
      by_cases cut : ∃ firstIndex, .logTruncation firstIndex ∈ more
      · rcases cut with ⟨firstIndex, present⟩
        rcases written with all | none
        · have same : call = .truncateLog firstIndex := call.truncation_mem (all ▸ present)
          rw [all, same] at appends ⊢
          generalize (after.reference medium.toFormat).recovered medium.toFormat identity = final
            at appends ⊢
          cases appends with
          | cons extending nothing =>
              cases nothing
              apply referenced.faithful.append extending cuts
              intro other truncation
              cases truncation
              rw [← sound.mirrors.lastLogIndex]
              exact cutNow firstIndex same
        · rw [none] at present
          cases present
      · exact (referenced.faithful.appends appends (not_exists.mp cut)).mono cuts
  | some recorded =>
      rcases recorded with ⟨snapshotIndex, snapshotTerm⟩
      rcases sound.compacts lawful valid fit position (later _ position) called with
        ⟨left, saved, trimmed, _, index, advances, _, result, afterwards⟩
      have harmless : ∀ cut ∈ session.truncations, cut.1 ≤ saved.snapshotIndex →
          cut.2 ≤ saved.snapshotIndex := by
        rw [index]
        exact whole (snapshotIndex, snapshotTerm) position
      have faithful := (referenced.faithful.checkpoint advances trimmed harmless).mono cuts
      rw [result, effect] at faithful
      rw [effect] at afterwards
      exact ⟨_, afterwards, faithful⟩

theorem step {action : Action Name Entry}
    (proper : session.Local fits action) (whole : session.CompactsWhole action)
    (taken : session.next medium action = some after) :
    ∃ left, Referenced medium fits identity after left := by
  cases action with
  | call made => exact referenced.call lawful proper whole taken
  | reopen segmentSize =>
      rcases Session.next_reopen taken with ⟨recovered, opened, history⟩
      have same : session.wal.identity = identity := referenced.sound.mirrors.identity
      rw [same] at opened
      rcases referenced.opens lawful opened with ⟨found, sound⟩
      rw [found] at sound
      refine ⟨records, ?_, ?_⟩
      · rw [Session.reference, history]
        exact sound
      · rw [Session.reference, Session.truncations, history]
        exact referenced.faithful

end

end Referenced

/-- A successful recovery returns exactly the live entries above the Snapshot,
and the rest as it was saved last. -/
theorem recovered_live {medium : Medium Name Entry Content} {fits : Record Name Entry → Prop}
    {identity : Identity Name} {segmentSize : Nat} {wal : WAL Name Content}
    {recovered : RecoveredState Name Entry} {session : Session Name Entry Content}
    (lawful : medium.Lawful fits) (cluster : fits (.clusterIdentity identity.clusterID))
    (node : fits (.nodeIdentity identity.nodeID))
    (opened : WAL.openWAL medium identity segmentSize [] = .ok (wal, recovered))
    (reachable : (sessionSystem medium wal).Reachable
      (fun session action => session.Captures medium.toFormat fits action ∧
        session.CompactsWhole action) session)
    {newSize : Nat} {reopened : WAL Name Content} {result : RecoveredState Name Entry}
    (success : WAL.openWAL medium identity newSize session.wal.segments =
      .ok (reopened, result)) :
    result = (session.reference medium.toFormat).recovered medium.toFormat identity := by
  have invariant := reachable.invariant
    (fun session => ∃ records, Referenced medium fits identity session records)
    (fun session started => started ▸ ⟨_, .start cluster node opened⟩)
    (fun before action after holds allowed taken => by
      rcases holds with ⟨records, referenced⟩
      exact referenced.step lawful allowed.1.1 allowed.2 taken)
  rcases invariant with ⟨records, referenced⟩
  exact (referenced.opens lawful success).1

/-- Both entries are removed again before the first is replaced and compacted. -/
def removedRun : List (Action String (Nat × Nat)) := [
  .call (.saveLogEntries [(1, 1), (2, 1)]),
  .call (.truncateLog 1),
  .call (.saveLogEntries [(1, 2)]),
  .call (.saveCommitIndex 1),
  .call (.compact 1 2)]

/-- The last entry is replaced, and both are compacted. -/
theorem recovered_live_replaced :
    ∃ session reopened result, (sessionSystem pairFormat.recordMedium (pairLog 46)).Reachable
        (fun session action => session.Captures pairFormat (fun _ => True) action ∧
          session.CompactsWhole action) session ∧
      WAL.openWAL pairFormat.recordMedium pairIdentity 46 session.wal.segments =
        .ok (reopened, result) ∧
      result = (session.reference pairFormat).recovered pairFormat pairIdentity := by
  have executed : (System.execute (Session.next pairFormat.recordMedium)
      (fun session action => decide (session.Captures pairFormat (fun _ => True) action ∧
        session.CompactsWhole action))
      [.call (.saveLogEntries [(1, 1), (2, 1)]), .call (.truncateLog 2),
        .call (.saveLogEntries [(2, 2)]), .call (.saveCommitIndex 2), .call (.compact 2 2)]
      { wal := pairLog 46 }).map (fun session =>
        (WAL.openWAL pairFormat.recordMedium pairIdentity 46
          session.wal.segments).toOption.map Prod.snd) =
        some (some ⟨pairIdentity, ⟨0, ""⟩, [], 2, 2, 2⟩) := by
    decide +kernel
  rcases System.reachable_of_execute (fun _ _ => of_decide_eq_true) executed with
    ⟨session, reachable, observed⟩
  rcases Option.map_eq_some_iff.mp observed with ⟨⟨reopened, result⟩, success, _⟩
  have opened : WAL.openWAL pairFormat.recordMedium pairIdentity 46 [] =
    .ok (pairLog 46, .fresh pairIdentity) := rfl
  have success := Fallible.toOption_eq_some.mp success
  exact ⟨session, reopened, result, reachable, success,
    recovered_live (recordMedium_lawful pairFormat) trivial trivial opened reachable success⟩

/-- The segment with the truncation goes, and the one with the truncated entries
stays. -/
theorem recovered_truncated :
    WAL.openWAL pairFormat.recordMedium pairIdentity 46 [] =
        .ok (pairLog 46, .fresh pairIdentity) ∧
      ∃ session reopened result, (sessionSystem pairFormat.recordMedium (pairLog 46)).Reachable
          (fun session action => session.Captures pairFormat (fun _ => True) action) session ∧
        WAL.openWAL pairFormat.recordMedium pairIdentity 46 session.wal.segments =
          .ok (reopened, result) ∧
        result.log = [(2, 1)] ∧ (session.reference pairFormat).log = [(1, 2)] := by
  have executed : (System.execute (Session.next pairFormat.recordMedium)
      (fun session action => decide (session.Captures pairFormat (fun _ => True) action))
      removedRun { wal := pairLog 46 }).map (fun session =>
        ((WAL.openWAL pairFormat.recordMedium pairIdentity 46
          session.wal.segments).toOption.map fun opened => opened.2.log,
          (session.reference pairFormat).log)) = some (some [(2, 1)], [(1, 2)]) := by
    decide +kernel
  rcases System.reachable_of_execute (fun _ _ => of_decide_eq_true) executed with
    ⟨session, reachable, observed⟩
  rw [Prod.mk.injEq] at observed
  rcases Option.map_eq_some_iff.mp observed.1 with ⟨⟨reopened, result⟩, success, log⟩
  exact ⟨rfl, session, reopened, result, reachable, Fallible.toOption_eq_some.mp success, log,
    observed.2⟩

end Ternion.Wal
