import Ternion.Wal.Calls

/-! # Reopening a compacted log

Replay checks records that are older than the newest checkpoint against that
checkpoint. A log can be opened again, also in the middle of a compaction, as
long as no checkpoint goes back and none commits an index that was truncated.
-/

namespace Ternion.Wal

variable {Name Entry Content : Type} [Inhabited Name] [DecidableEq Name]

variable {wal : WAL Name Content} {fits : Record Name Entry → Prop}
  {session : Session Name Entry Content} {medium : Medium Name Entry Content}

structure Kept (medium : Medium Name Entry Content) (fits : Record Name Entry → Prop)
    (identity : Identity Name) (session : Session Name Entry Content)
    (records : List (Record Name Entry)) (live : RecoveredState Name Entry) : Prop where
  sound : session.wal.Sound medium fits records live
  intact : Intact medium.toFormat records live
  identified : live.identity = identity
  truncations : ∀ firstIndex, .logTruncation firstIndex ∈ records →
    ∃ cut ∈ session.truncations, cut.1 = firstIndex

/-- What a session must keep to: hard states in order, and Snapshot positions
that neither go back nor reach a truncated index. -/
def Session.Admits (fits : Record Name Entry → Prop) (session : Session Name Entry Content) :
    Action Name Entry → Prop
  | .reopen _ => True
  | .call call => call.Fits fits session.wal ∧ call.Ordered session.wal ∧
      ∀ position ∈ call.position, session.wal.snapshotIndex ≤ position.1 ∧ position.2 ≠ 0 ∧
        ∀ cut ∈ session.truncations, max session.wal.commitIndex position.1 < cut.1

namespace Kept

variable {medium : Medium Name Entry Content} {fits : Record Name Entry → Prop}
  {identity : Identity Name} {segmentSize : Nat} {session after : Session Name Entry Content}
  {records : List (Record Name Entry)} {live : RecoveredState Name Entry}

theorem start {recovered : RecoveredState Name Entry}
    (cluster : fits (.clusterIdentity identity.clusterID))
    (node : fits (.nodeIdentity identity.nodeID))
    (opened : WAL.openWAL medium identity segmentSize [] = .ok (wal, recovered)) :
    Kept medium fits identity { wal := wal }
      [.clusterIdentity identity.clusterID, .nodeIdentity identity.nodeID] (.fresh identity) := by
  rcases WAL.openWAL_eq_ok opened with ⟨clusterID, nodeID, _⟩
  exact {
    sound := WAL.openWAL_nil_sound cluster node opened
    intact := .start clusterID nodeID
    identified := rfl
    truncations := by
      intro firstIndex present
      simp at present }

section

variable (kept : Kept medium fits identity session records live)

include kept

theorem identity_wal :
    session.wal.identity = identity :=
  kept.sound.mirrors.identity.trans kept.identified

theorem reopen (lawful : medium.Lawful fits)
    (taken : session.next medium (.reopen segmentSize) = some after) :
    Kept medium fits identity after records live := by
  rcases Session.next_reopen taken with ⟨recovered, opened, history⟩
  have someSegment : session.wal.segments ≠ [] := List.append_ne_nil_of_right_ne_nil _ (by simp)
  have roomy := (WAL.openWAL_eq_ok opened).2.2
  rw [kept.identity_wal, WAL.opens lawful kept.sound.holds someSegment kept.intact
    kept.identified roomy] at opened
  have resumed : WAL.resume medium identity segmentSize session.wal.segments.dropLast
      (session.wal.segments.getLast?.getD medium.create) live = after.wal :=
    congrArg Prod.fst (Except.ok.inj opened)
  exact { kept with
    sound := resumed ▸ WAL.resume_sound kept.sound.holds someSegment kept.identified
    truncations := by
      rw [Session.truncations, history]
      exact kept.truncations }

theorem call {call : Call Name Entry}
    (lawful : medium.Lawful fits) (admitted : session.Admits fits (.call call))
    (taken : session.next medium (.call call) = some after) :
    ∃ left, Kept medium fits identity after left (call.effect medium.toFormat live) := by
  rcases admitted with ⟨fit, ordered, advancing⟩
  rcases Session.next_call taken with ⟨called, history⟩
  have valid := kept.intact.valid
  have identified : (call.effect medium.toFormat live).identity = identity := by
    rw [← kept.identified]
    cases call <;> rfl
  rcases Session.truncations_call history with ⟨cuts, cutNow⟩
  have earlier : ∀ firstIndex, .logTruncation firstIndex ∈ records →
      ∃ cut ∈ after.truncations, cut.1 = firstIndex := by
    intro firstIndex present
    rcases kept.truncations firstIndex present with ⟨cut, made, same⟩
    exact ⟨cut, cuts cut made, same⟩
  cases position : call.position with
  | none =>
      rcases kept.sound.appends valid fit ordered position called with
        ⟨more, appends, written, sound⟩
      refine ⟨records ++ more, sound, kept.intact.appends appends, identified, ?_⟩
      intro firstIndex present
      rcases List.mem_append.mp present with old | new
      · exact earlier firstIndex old
      · have same : call = .truncateLog firstIndex := by
          rcases written with all | none
          · exact call.truncation_mem (all ▸ new)
          · rw [none] at new
            cases new
        exact ⟨_, cutNow firstIndex same, rfl⟩
  | some recorded =>
      rcases recorded with ⟨snapshotIndex, snapshotTerm⟩
      rcases advancing (snapshotIndex, snapshotTerm) position with ⟨later, someTerm, uncut⟩
      rw [kept.sound.mirrors.snapshotIndex] at later
      rcases kept.sound.compacts lawful valid fit position later called with
        ⟨left, saved, trimmed, commits, _, advances, positioned, result, sound⟩
      have uncommitted : TruncatesAfter saved.commitIndex records := by
        intro firstIndex present
        rcases kept.truncations firstIndex present with ⟨cut, made, same⟩
        rw [commits, ← same]
        exact uncut cut made
      have intact := kept.intact.checkpoint advances (positioned someTerm) uncommitted trimmed
      rw [result] at intact
      refine ⟨_, sound, intact, identified, ?_⟩
      intro firstIndex present
      rcases List.mem_append.mp present with old | new
      · exact earlier firstIndex (trimmed.subset _ old)
      · cases List.mem_singleton.mp new

theorem interrupted {snapshotIndex snapshotTerm examined : Nat} {image : List Content}
    (lawful : medium.Lawful fits)
    (admitted : session.Admits fits (.call (.compact snapshotIndex snapshotTerm)))
    (position : 0 < snapshotIndex ∧ snapshotIndex ≤ session.wal.commitIndex)
    (left : session.wal.interruptedSegments medium snapshotIndex snapshotTerm
      session.wal.commitIndex examined = .ok image)
    (roomy : segmentHeaderSize + frameHeaderSize < segmentSize) :
    ∃ opened, WAL.openWAL medium identity segmentSize image = .ok opened := by
  rcases admitted with ⟨fit, _, advancing⟩
  rcases advancing (snapshotIndex, snapshotTerm) rfl with ⟨later, someTerm, uncut⟩
  rcases WAL.interruptedSegments_holds lawful kept.sound.holds (fit _ List.mem_cons_self) left with
    ⟨remaining, trimmed, holds⟩
  have mirrors := kept.sound.mirrors
  have advances : Advances live
      (session.wal.checkpointAt snapshotIndex snapshotTerm session.wal.commitIndex) := by
    have known := kept.intact.valid.known
    have commitIndex := mirrors.commitIndex
    rw [mirrors.snapshotIndex] at later
    exact mirrors.advances later (Nat.le_refl _) position.2 (by omega)
  have uncommitted : TruncatesAfter session.wal.commitIndex records := by
    intro firstIndex present
    rcases kept.truncations firstIndex present with ⟨cut, made, same⟩
    have beyond := uncut cut made
    omega
  have intact := kept.intact.checkpoint advances
    ⟨Nat.ne_of_gt position.1, someTerm, position.2⟩ uncommitted trimmed
  have someSegment : image ≠ [] := by
    rcases holds with ⟨_, parts, written, records⟩
    intro empty
    rw [empty] at written
    rw [List.map_eq_nil_iff.mp written.symm] at records
    simp at records
  exact ⟨_, WAL.opens lawful holds someSegment intact
    (mirrors.identity.trans kept.identified) roomy⟩

end

end Kept

/-! ## Compaction of local Snapshots -/

/-- A compaction needs a Term, and must not commit an index that was ever
truncated. -/
def Session.CompactsUntruncated (session : Session Name Entry Content) :
    Action Name Entry → Prop
  | .reopen _ => True
  | .call call => ∀ position ∈ call.position,
      position.2 ≠ 0 ∧ ∀ cut ∈ session.truncations, session.wal.commitIndex < cut.1

instance (session : Session Name Entry Content) :
    (action : Action Name Entry) → Decidable (session.CompactsUntruncated action)
  | .reopen _ => .isTrue trivial
  | .call call => inferInstanceAs (Decidable (∀ position ∈ call.position,
      position.2 ≠ 0 ∧ ∀ cut ∈ session.truncations, session.wal.commitIndex < cut.1))

omit [DecidableEq Name] in
theorem Session.admits_of_local {action : Action Name Entry} (proper : session.Local fits action)
    (untruncated : session.CompactsUntruncated action)
    (within : ∀ snapshotIndex snapshotTerm, action = .call (.compact snapshotIndex snapshotTerm) →
      snapshotIndex ≤ session.wal.commitIndex) : session.Admits fits action := by
  cases action with
  | reopen segmentSize => trivial
  | call call =>
      rcases proper with ⟨fit, ordered, notReceived, forwards⟩
      refine ⟨fit, ordered, ?_⟩
      intro position recorded
      refine ⟨forwards position recorded, (untruncated position recorded).1, ?_⟩
      cases call with
      | compact snapshotIndex snapshotTerm =>
          cases recorded
          rw [Nat.max_eq_left (within _ _ rfl)]
          exact (untruncated _ rfl).2
      | installSnapshot snapshotIndex snapshotTerm => cases notReceived
      | saveHardState state => cases recorded
      | saveLogEntries entries => cases recorded
      | truncateLog firstIndex => cases recorded
      | saveCommitIndex index => cases recorded

omit [DecidableEq Name] in
theorem WAL.compact_within {after : WAL Name Content} {snapshotIndex snapshotTerm : Nat}
    (compacted : wal.compact medium snapshotIndex snapshotTerm = .ok after) :
    snapshotIndex ≤ wal.commitIndex := by
  rw [WAL.compact] at compacted
  split_ifs at compacted with outside
  omega

theorem Kept.reachable {identity : Identity Name} {segmentSize : Nat}
    {recovered : RecoveredState Name Entry}
    {permitted : Session Name Entry Content → Action Name Entry → Prop}
    (lawful : medium.Lawful fits) (cluster : fits (.clusterIdentity identity.clusterID))
    (node : fits (.nodeIdentity identity.nodeID))
    (opened : WAL.openWAL medium identity segmentSize [] = .ok (wal, recovered))
    (admits : ∀ {before after : Session Name Entry Content} {action : Action Name Entry},
      permitted before action → before.next medium action = some after →
      before.Admits fits action)
    (reachable : (sessionSystem medium wal).Reachable permitted session) :
    ∃ records live, Kept medium fits identity session records live := by
  apply reachable.invariant fun session =>
    ∃ records live, Kept medium fits identity session records live
  · intro session started
    exact started ▸ ⟨_, _, .start cluster node opened⟩
  · rintro before action after ⟨records, live, kept⟩ allowed taken
    have admitted := admits allowed taken
    cases action with
    | reopen size => exact ⟨records, live, kept.reopen lawful taken⟩
    | call call =>
        rcases kept.call lawful admitted taken with ⟨left, keeps⟩
        exact ⟨left, _, keeps⟩

/-- A compacted log can be opened again, with the segments that are left after
any of the deletions. -/
theorem compacted_opens {medium : Medium Name Entry Content} {fits : Record Name Entry → Prop}
    {identity : Identity Name} {segmentSize : Nat} {wal : WAL Name Content}
    {recovered : RecoveredState Name Entry} {session : Session Name Entry Content}
    (lawful : medium.Lawful fits) (cluster : fits (.clusterIdentity identity.clusterID))
    (node : fits (.nodeIdentity identity.nodeID))
    (opened : WAL.openWAL medium identity segmentSize [] = .ok (wal, recovered))
    (reachable : (sessionSystem medium wal).Reachable
      (fun session action => session.Local fits action ∧ session.CompactsUntruncated action)
      session) {newSize : Nat} (roomy : segmentHeaderSize + frameHeaderSize < newSize) :
    (∃ result, WAL.openWAL medium identity newSize session.wal.segments = .ok result) ∧
      ∀ snapshotIndex snapshotTerm examined image,
        session.Local fits (.call (.compact snapshotIndex snapshotTerm)) →
        session.CompactsUntruncated (.call (.compact snapshotIndex snapshotTerm)) →
        0 < snapshotIndex → snapshotIndex ≤ session.wal.commitIndex →
        session.wal.interruptedSegments medium snapshotIndex snapshotTerm
          session.wal.commitIndex examined = .ok image →
        ∃ result, WAL.openWAL medium identity newSize image = .ok result := by
  have admits : ∀ {before after : Session Name Entry Content} {action : Action Name Entry},
      before.Local fits action ∧ before.CompactsUntruncated action →
      before.next medium action = some after → before.Admits fits action := by
    rintro before after action ⟨proper, untruncated⟩ taken
    apply Session.admits_of_local proper untruncated
    rintro snapshotIndex snapshotTerm rfl
    exact WAL.compact_within (Session.next_call taken).1
  rcases Kept.reachable lawful cluster node opened admits reachable with ⟨records, live, kept⟩
  constructor
  · have someSegment : session.wal.segments ≠ [] :=
      List.append_ne_nil_of_right_ne_nil _ (by simp)
    exact ⟨_, WAL.opens lawful kept.sound.holds someSegment kept.intact kept.identified roomy⟩
  · intro snapshotIndex snapshotTerm examined image proper untruncated some within left
    have admitted := Session.admits_of_local proper untruncated
      fun _ _ same => by
        cases same
        exact within
    exact kept.interrupted lawful admitted ⟨some, within⟩ left roomy

def replacedRun : List (Action String (Nat × Nat)) := [
  .call (.saveLogEntries [(1, 1), (2, 1), (3, 1)]),
  .call (.truncateLog 3),
  .call (.saveLogEntries [(3, 2)]),
  .call (.saveCommitIndex 3),
  .call (.compact 3 2)]

/-- The last call of the run above commits and compacts less. -/
theorem compacted_opens_earlier :
    ∃ session, (sessionSystem pairFormat.recordMedium (pairLog 46)).Reachable
        (fun session action => session.Local (fun _ => True) action ∧
          session.CompactsUntruncated action) session ∧
      session.wal.snapshotIndex = 2 ∧
      ∃ result, WAL.openWAL pairFormat.recordMedium pairIdentity 46 session.wal.segments =
        .ok result := by
  have executed : (System.execute (Session.next pairFormat.recordMedium)
      (fun session action => decide (session.Local (fun _ => True) action ∧
        session.CompactsUntruncated action))
      (replacedRun.take 3 ++ [.call (.saveCommitIndex 2), .call (.compact 2 1), .reopen 46])
      { wal := pairLog 46 }).map (fun session => session.wal.snapshotIndex) = some 2 := by
    decide +kernel
  rcases System.reachable_of_execute (fun _ _ => of_decide_eq_true) executed with
    ⟨session, reachable, compacted⟩
  have opened : WAL.openWAL pairFormat.recordMedium pairIdentity 46 [] =
    .ok (pairLog 46, .fresh pairIdentity) := rfl
  exact ⟨session, reachable, compacted,
    (compacted_opens (recordMedium_lawful pairFormat) trivial trivial opened reachable
      (by decide)).1⟩

/-- The truncation is replayed after the checkpoint that covers it. -/
theorem compacted_not_opened :
    WAL.openWAL pairFormat.recordMedium pairIdentity 1000 [] =
        .ok (pairLog 1000, .fresh pairIdentity) ∧
      ∃ session, (sessionSystem pairFormat.recordMedium (pairLog 1000)).Reachable
          (fun session action => session.Local (fun _ => True) action) session ∧
        ∀ result, WAL.openWAL pairFormat.recordMedium pairIdentity 1000 session.wal.segments ≠
          .ok result := by
  have executed : (System.execute (Session.next pairFormat.recordMedium)
      (fun session action => decide (session.Local (fun _ => True) action)) replacedRun
      { wal := pairLog 1000 }).map (fun session =>
        (WAL.openWAL pairFormat.recordMedium pairIdentity 1000 session.wal.segments).toOption.isSome) =
      some false := by
    decide +kernel
  rcases System.reachable_of_execute (fun _ _ => of_decide_eq_true) executed with
    ⟨session, reachable, refused⟩
  refine ⟨rfl, session, reachable, fun result opened => ?_⟩
  rw [opened] at refused
  cases refused

/-! ## Snapshots of the Leader -/

/-- The calls of the run loop, without truncations, among which a Snapshot of
the Leader is newer than the last one. -/
def Session.Receiving (fits : Record Name Entry → Prop) (session : Session Name Entry Content) :
    Action Name Entry → Prop
  | .reopen _ => True
  | .call call => call.Fits fits session.wal ∧ call.Ordered session.wal ∧
      call.truncates = false ∧
      ∀ position ∈ call.position, call.receives = true → session.wal.snapshotIndex < position.1

/-- A local Snapshot has a Term, and is not older than the last one. -/
def Session.CompactsForward (session : Session Name Entry Content) : Action Name Entry → Prop
  | .reopen _ => True
  | .call call => ∀ position ∈ call.position, call.receives = false →
      session.wal.snapshotIndex ≤ position.1 ∧ position.2 ≠ 0

instance (fits : Record Name Entry → Prop) [DecidablePred fits]
    (session : Session Name Entry Content) :
    (action : Action Name Entry) → Decidable (session.Receiving fits action)
  | .reopen _ => .isTrue trivial
  | .call _ => inferInstanceAs (Decidable (_ ∧ _))

instance (session : Session Name Entry Content) :
    (action : Action Name Entry) → Decidable (session.CompactsForward action)
  | .reopen _ => .isTrue trivial
  | .call call => inferInstanceAs (Decidable (∀ position ∈ call.position,
      call.receives = false → session.wal.snapshotIndex ≤ position.1 ∧ position.2 ≠ 0))

omit [DecidableEq Name] in
theorem Session.forwards_of_receiving {call : Call Name Entry}
    (receiving : session.Receiving fits (.call call))
    (forward : session.CompactsForward (.call call)) :
    ∀ position ∈ call.position, session.wal.snapshotIndex ≤ position.1 := by
  intro position recorded
  cases received : call.receives with
  | false => exact (forward position recorded received).1
  | true => exact Nat.le_of_lt (receiving.2.2.2 position recorded received)

structure Newest (medium : Medium Name Entry Content) (fits : Record Name Entry → Prop)
    (identity : Identity Name) (session : Session Name Entry Content)
    (records : List (Record Name Entry)) (live : RecoveredState Name Entry) : Prop
    extends Kept medium fits identity session records live where
  uncut : session.truncations = []
  largest : live.snapshotIndex = session.largestIndex

omit [DecidableEq Name] in
theorem WAL.installSnapshot_term {after : WAL Name Content} {snapshotIndex snapshotTerm : Nat}
    (installed : wal.installSnapshot medium snapshotIndex snapshotTerm = .ok after) :
    snapshotTerm ≠ 0 := by
  rw [WAL.installSnapshot] at installed
  split_ifs at installed with invalid
  omega

namespace Newest

variable {medium : Medium Name Entry Content} {fits : Record Name Entry → Prop}
  {identity : Identity Name} {session after : Session Name Entry Content}
  {records : List (Record Name Entry)} {live : RecoveredState Name Entry}

theorem admits {call : Call Name Entry}
    (newest : Newest medium fits identity session records live)
    (receiving : session.Receiving fits (.call call))
    (forward : session.CompactsForward (.call call))
    (called : session.wal.call medium call = .ok after.wal) :
    session.Admits fits (.call call) := by
  refine ⟨receiving.1, receiving.2.1, ?_⟩
  intro position recorded
  refine ⟨Session.forwards_of_receiving receiving forward position recorded, ?_, ?_⟩
  · cases call with
    | installSnapshot snapshotIndex snapshotTerm =>
        cases recorded
        exact WAL.installSnapshot_term called
    | compact snapshotIndex snapshotTerm => exact (forward position recorded rfl).2
    | saveHardState state => cases recorded
    | saveLogEntries entries => cases recorded
    | truncateLog firstIndex => cases recorded
    | saveCommitIndex index => cases recorded
  · intro cut made
    rw [newest.uncut] at made
    cases made

theorem step {action : Action Name Entry}
    (newest : Newest medium fits identity session records live) (lawful : medium.Lawful fits)
    (receiving : session.Receiving fits action) (forward : session.CompactsForward action)
    (taken : session.next medium action = some after) :
    ∃ left result, Newest medium fits identity after left result ∧
      live.snapshotIndex ≤ result.snapshotIndex := by
  cases action with
  | reopen segmentSize =>
      have same := (Session.next_reopen taken).choose_spec.2
      refine ⟨records, live, { newest.toKept.reopen lawful taken with
        uncut := ?_, largest := ?_ }, Nat.le_refl _⟩
      · rw [← newest.uncut, Session.truncations, same, Session.truncations]
      · rw [newest.largest, Session.largestIndex, Session.largestIndex, same]
  | call call =>
      rcases Session.next_call taken with ⟨called, history⟩
      rcases newest.toKept.call lawful (newest.admits receiving forward called) taken with
        ⟨left, kept⟩
      have forwards := Session.forwards_of_receiving receiving forward
      rw [newest.sound.mirrors.snapshotIndex] at forwards
      have uncut : after.truncations = [] := by
        rw [Session.truncations, history, List.filterMap_append]
        change session.truncations ++ _ = []
        rw [newest.uncut]
        cases call with
        | truncateLog firstIndex => cases receiving.2.2.1
        | _ => rfl
      have largest : after.largestIndex =
          call.position.elim session.largestIndex fun position =>
            max session.largestIndex position.1 := by
        rw [Session.largestIndex, history, List.filterMap_append, List.foldl_append]
        cases call <;> rfl
      cases position : call.position with
      | none =>
          have same : (call.effect medium.toFormat live).snapshotIndex = live.snapshotIndex := by
            cases call <;> first | rfl | cases position
          rw [position, Option.elim_none, ← newest.largest, ← same] at largest
          exact ⟨left, _, { kept with uncut := uncut, largest := largest.symm },
            Nat.le_of_eq same.symm⟩
      | some recorded =>
          have moved : (call.effect medium.toFormat live).snapshotIndex = recorded.1 := by
            cases call <;> first | (cases position; rfl) | cases position
          have later := forwards recorded position
          rw [position, Option.elim_some, ← newest.largest, Nat.max_eq_right later,
            ← moved] at largest
          exact ⟨left, _, { kept with uncut := uncut, largest := largest.symm },
            moved ▸ later⟩

end Newest

/-- The durable Snapshot position does not move backwards, and opening finds the
largest index that was ever installed or compacted. -/
theorem snapshotIndex_newest {medium : Medium Name Entry Content}
    {fits : Record Name Entry → Prop} {identity : Identity Name} {segmentSize : Nat}
    {wal : WAL Name Content} {recovered : RecoveredState Name Entry}
    {session : Session Name Entry Content} (lawful : medium.Lawful fits)
    (cluster : fits (.clusterIdentity identity.clusterID))
    (node : fits (.nodeIdentity identity.nodeID))
    (opened : WAL.openWAL medium identity segmentSize [] = .ok (wal, recovered))
    (reachable : (sessionSystem medium wal).Reachable
      (fun session action => session.Receiving fits action ∧ session.CompactsForward action)
      session) :
    (∀ action after, session.Receiving fits action → session.CompactsForward action →
      session.next medium action = some after →
      session.wal.snapshotIndex ≤ after.wal.snapshotIndex) ∧
    ∀ newSize, segmentHeaderSize + frameHeaderSize < newSize →
      ∃ reopened result, WAL.openWAL medium identity newSize session.wal.segments =
          .ok (reopened, result) ∧ result.snapshotIndex = session.largestIndex := by
  have invariant := reachable.invariant
    (fun session => ∃ records live, Newest medium fits identity session records live)
    (fun session started => started ▸ ⟨_, _, { Kept.start cluster node opened with
      uncut := rfl, largest := rfl }⟩)
    (fun before action after holds allowed taken => by
      rcases holds with ⟨records, live, newest⟩
      rcases newest.step lawful allowed.1 allowed.2 taken with ⟨left, result, next, _⟩
      exact ⟨left, result, next⟩)
  rcases invariant with ⟨records, live, newest⟩
  constructor
  · intro action after receiving forward taken
    rcases newest.step lawful receiving forward taken with ⟨left, result, next, later⟩
    rwa [newest.sound.mirrors.snapshotIndex, next.sound.mirrors.snapshotIndex]
  · intro newSize roomy
    have someSegment : session.wal.segments ≠ [] :=
      List.append_ne_nil_of_right_ne_nil _ (by simp)
    exact ⟨_, live, WAL.opens lawful newest.sound.holds someSegment newest.intact
      newest.identified roomy, newest.largest⟩

/-- A Snapshot of the Leader arrives between the capture of a local Snapshot
and its compaction. -/
def overtakenRun : List (Action String (Nat × Nat)) := [
  .call (.saveLogEntries [(1, 1), (2, 1)]),
  .call (.saveCommitIndex 2),
  .call (.installSnapshot 5 1)]

theorem snapshotIndex_newest_received :
    ∃ session, (sessionSystem pairFormat.recordMedium (pairLog 46)).Reachable
        (fun session action => session.Receiving (fun _ => True) action ∧
          session.CompactsForward action) session ∧
      ∃ reopened result, WAL.openWAL pairFormat.recordMedium pairIdentity 46
          session.wal.segments = .ok (reopened, result) ∧ result.snapshotIndex = 5 := by
  have executed : (System.execute (Session.next pairFormat.recordMedium)
      (fun session action => decide (session.Receiving (fun _ => True) action ∧
        session.CompactsForward action)) overtakenRun { wal := pairLog 46 }).map
        (fun session => session.largestIndex) = some 5 := by
    decide +kernel
  rcases System.reachable_of_execute (fun _ _ => of_decide_eq_true) executed with
    ⟨session, reachable, largest⟩
  have opened : WAL.openWAL pairFormat.recordMedium pairIdentity 46 [] =
    .ok (pairLog 46, .fresh pairIdentity) := rfl
  have found := (snapshotIndex_newest (recordMedium_lawful pairFormat) trivial trivial opened
    reachable).2 46 (by decide)
  rw [largest] at found
  exact ⟨session, reachable, found⟩

/-- The late compaction moves the position back, and the log does not open
again. -/
theorem snapshotIndex_moves_back :
    WAL.openWAL pairFormat.recordMedium pairIdentity 1000 [] =
        .ok (pairLog 1000, .fresh pairIdentity) ∧
      ∃ before session, (sessionSystem pairFormat.recordMedium (pairLog 1000)).Reachable
          (fun session action => session.Receiving (fun _ => True) action) before ∧
        before.next pairFormat.recordMedium (.call (.compact 2 1)) = some session ∧
        session.wal.snapshotIndex < before.wal.snapshotIndex ∧
        ∀ result, WAL.openWAL pairFormat.recordMedium pairIdentity 1000 session.wal.segments ≠
          .ok result := by
  have executed : (System.execute (Session.next pairFormat.recordMedium)
      (fun session action => decide (session.Receiving (fun _ => True) action)) overtakenRun
      { wal := pairLog 1000 }).map (fun before =>
        ((before.next pairFormat.recordMedium (.call (.compact 2 1))).map fun session =>
          (decide (session.wal.snapshotIndex < before.wal.snapshotIndex),
            (WAL.openWAL pairFormat.recordMedium pairIdentity 1000
              session.wal.segments).toOption.isSome))) = some (some (true, false)) := by
    decide +kernel
  rcases System.reachable_of_execute (fun _ _ => of_decide_eq_true) executed with
    ⟨before, reachable, observed⟩
  rcases Option.map_eq_some_iff.mp observed with ⟨session, taken, facts⟩
  rw [Prod.mk.injEq, decide_eq_true_eq] at facts
  refine ⟨rfl, before, session, reachable, taken, facts.1, fun result opened => ?_⟩
  have refused := facts.2
  rw [opened] at refused
  cases refused

end Ternion.Wal
