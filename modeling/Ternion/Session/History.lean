import Ternion.Session.Capture

/-! # Histories of applied entries

Every mutation takes effect at most once and in the order of its session's
sequences: the values are those that the effective entries alone write.
-/

namespace Ternion.Session

open Raft

/-! ## What applying an entry does -/

namespace Machine

/-- Whether applying the entry has an effect on the values. -/
def effective (machine : Machine) (entry : LogEntry) : Bool :=
  (entry.type = .set || entry.type = .delete) &&
    (machine.evaluateMutation entry.sessionID entry.sequence).2

def mutated (machine : Machine) (entry : LogEntry) (record : SessionRecord) : SessionRecord :=
  { record with
    lastSequence := entry.sequence
    lastMutationResult := .succeeded
    lastDeleteExisted := entry.type = .delete && (machine.values[entry.key]?).isSome }

end Machine

def write (values : Std.ExtTreeMap String (List UInt8)) (entry : LogEntry) :
    Std.ExtTreeMap String (List UInt8) :=
  match entry.type with
  | .set => values.insert entry.key entry.value
  | .delete => values.erase entry.key
  | _ => values

inductive Change (machine : Machine) (entry : LogEntry) : Machine → ProposalResult → Prop
  | unchanged {result} (ineffective : machine.effective entry = false)
      (failed : entry.type = .openSession ∨ entry.type = .closeSession →
        result.failure ≠ .succeeded) : Change machine entry machine result
  | opened (opens : entry.type = .openSession)
      (fresh : machine.sessions[entry.sessionID]? = none) :
      Change machine entry
        { machine with
          sessions := machine.sessions.insert entry.sessionID {}
          active := machine.active + 1 }
        { sessionID := entry.sessionID }
  | closed {record} (closes : entry.type = .closeSession)
      (found : machine.sessions[entry.sessionID]? = some record) :
      Change machine entry
        { machine with
          sessions := machine.sessions.insert entry.sessionID
            { record with state := .permanentlyClosed }
          active := machine.active - 1 }
        { sessionID := entry.sessionID }
  | mutated {record} (effective : machine.effective entry = true)
      (found : machine.sessions[entry.sessionID]? = some record)
      (active : record.state = .active) (next : entry.sequence = record.lastSequence + 1) :
      Change machine entry
        { machine with
          sessions := machine.sessions.insert entry.sessionID (machine.mutated entry record)
          values := write machine.values entry }
        { sessionID := entry.sessionID
          sequence := entry.sequence
          existed := (machine.mutated entry record).lastDeleteExisted }

namespace Machine

variable {machine : Machine} {entry : LogEntry}

/-- A command is the next to apply exactly if it is the next of an active
session; it has then succeeded. -/
theorem evaluateMutation_next {sessionID : SessionID} {sequence : Nat}
    (applies : (machine.evaluateMutation sessionID sequence).2 = true) :
    (∃ record, machine.sessions[sessionID]? = some record ∧ record.state = .active ∧
      sequence = record.lastSequence + 1) ∧
    (machine.evaluateMutation sessionID sequence).1 =
      { sessionID := sessionID, sequence := sequence } := by
  rcases evaluateMutation_applies applies with ⟨record, found, active⟩
  have isOpen : record.state ≠ .permanentlyClosed := by
    rw [active]
    decide
  simp only [evaluateMutation, found, if_neg isOpen] at applies ⊢
  split_ifs at applies ⊢ with cached stale skipped
  exact ⟨⟨record, rfl, active, not_not.mp skipped⟩, rfl⟩

theorem evaluateMutation_accepts {sessionID : SessionID} {sequence : Nat} {record : SessionRecord}
    (found : machine.sessions[sessionID]? = some record)
    (isOpen : record.state ≠ .permanentlyClosed) (next : sequence = record.lastSequence + 1) :
    (machine.evaluateMutation sessionID sequence).2 = true := by
  have notCached : ¬ (sequence = record.lastSequence ∧ sequence ≠ 0) := by omega
  have notStale : ¬ sequence < record.lastSequence := by omega
  simp only [evaluateMutation, found, if_neg isOpen, if_neg notCached, if_neg notStale,
    if_neg (not_not_intro next)]

theorem effective_of_set (machine : Machine) (isSet : entry.type = .set) :
    machine.effective entry = (machine.evaluateMutation entry.sessionID entry.sequence).2 := by
  simp [effective, isSet]

theorem effective_of_delete (machine : Machine) (isDelete : entry.type = .delete) :
    machine.effective entry = (machine.evaluateMutation entry.sessionID entry.sequence).2 := by
  simp [effective, isDelete]

theorem ineffective (noSet : entry.type ≠ .set) (noDelete : entry.type ≠ .delete) :
    machine.effective entry = false := by
  simp [effective, noSet, noDelete]

theorem type_of_effective (machine : Machine) (effective : machine.effective entry = true) :
    entry.type = .set ∨ entry.type = .delete := by
  simp only [Machine.effective, Bool.and_eq_true, Bool.or_eq_true, decide_eq_true_eq] at effective
  exact effective.1

theorem applyOpen_changes (opens : entry.type = .openSession) :
    Change machine entry (machine.applyOpen entry).1 (machine.applyOpen entry).2 := by
  have noEffect : machine.effective entry = false := ineffective (by simp [opens]) (by simp [opens])
  rw [applyOpen]
  split_ifs with exists_ full
  · exact .unchanged noEffect (by simp)
  · exact .unchanged noEffect (by simp)
  · exact .opened opens (by simpa using exists_)

theorem applyClose_changes (closes : entry.type = .closeSession) :
    Change machine entry (machine.applyClose entry).1 (machine.applyClose entry).2 := by
  have noEffect : machine.effective entry = false :=
    ineffective (by simp [closes]) (by simp [closes])
  rw [applyClose]
  cases found : machine.sessions[entry.sessionID]? with
  | none => exact .unchanged noEffect (by simp)
  | some record =>
      simp only
      split_ifs
      · exact .unchanged noEffect (by simp)
      · exact .closed closes found

theorem applySet_changes (isSet : entry.type = .set) :
    Change machine entry (machine.applySet entry).1 (machine.applySet entry).2 := by
  have effective := machine.effective_of_set isSet
  simp only [applySet]
  split_ifs with applies
  · rcases evaluateMutation_next applies with ⟨⟨record, found, active, next⟩, result⟩
    have change := Change.mutated (effective.trans applies) found active next
    simpa only [mutated, write, isSet, result, recordMutation, found, Option.getD_some,
      reduceCtorEq, decide_false, Bool.false_and] using change
  · exact .unchanged (effective.trans (Bool.eq_false_iff.mpr applies)) (by simp [isSet])

theorem applyDelete_changes (isDelete : entry.type = .delete) :
    Change machine entry (machine.applyDelete entry).1 (machine.applyDelete entry).2 := by
  have effective := machine.effective_of_delete isDelete
  simp only [applyDelete]
  split_ifs with applies
  · rcases evaluateMutation_next applies with ⟨⟨record, found, active, next⟩, result⟩
    have change := Change.mutated (effective.trans applies) found active next
    simpa only [mutated, write, isDelete, result, recordMutation, found, Option.getD_some,
      decide_true, Bool.true_and] using change
  · exact .unchanged (effective.trans (Bool.eq_false_iff.mpr applies)) (by simp [isDelete])

theorem apply_changes (machine : Machine) (entry : LogEntry) :
    Change machine entry (machine.apply entry).1 (machine.apply entry).2 := by
  rw [apply]
  cases isType : entry.type with
  | noOp =>
      exact .unchanged (ineffective (by simp [isType]) (by simp [isType])) (by simp [isType])
  | openSession => exact applyOpen_changes isType
  | closeSession => exact applyClose_changes isType
  | set => exact applySet_changes isType
  | delete => exact applyDelete_changes isType

end Machine

/-! ## Histories -/

structure Applied where
  entry : LogEntry
  result : ProposalResult
  effective : Bool

namespace Applied

def Opens (applied : Applied) (id : SessionID) : Prop :=
  applied.entry.type = .openSession ∧ applied.entry.sessionID = id ∧
    applied.result.failure = .succeeded

/-- The session is closed successfully. -/
def Closes (applied : Applied) (id : SessionID) : Prop :=
  applied.entry.type = .closeSession ∧ applied.entry.sessionID = id ∧
    applied.result.failure = .succeeded

/-- The entry is an effective mutation of the session. -/
def mutates (applied : Applied) (id : SessionID) : Bool :=
  applied.effective && applied.entry.sessionID = id

end Applied

namespace Machine

/-- The entry as the machine applies it. -/
def applied (machine : Machine) (entry : LogEntry) : Applied where
  entry := entry
  result := (machine.apply entry).2
  effective := machine.effective entry

def history (machine : Machine) : List LogEntry → List Applied
  | [] => []
  | entry :: entries => machine.applied entry :: (machine.apply entry).1.history entries

theorem history_append (machine : Machine) (entries more : List LogEntry) :
    machine.history (entries ++ more) =
      machine.history entries ++ (machine.applyAll entries).history more := by
  induction entries generalizing machine with
  | nil => rfl
  | cons entry entries induction => exact congrArg (machine.applied entry :: ·) (induction _)

end Machine

/-- The sequences of a session's effective mutations, in the order of the log. -/
def sequencesOf (id : SessionID) (history : List Applied) : List Nat :=
  (history.filter fun applied => applied.mutates id).map fun applied => applied.entry.sequence

/-- The values that the effective entries alone lead to, as plain writes. -/
def replay (history : List Applied) : Std.ExtTreeMap String (List UInt8) :=
  (history.filter fun applied => applied.effective).foldl
    (fun values applied => write values applied.entry) ∅

theorem sequencesOf_concat (id : SessionID) (history : List Applied) (applied : Applied) :
    sequencesOf id (history ++ [applied]) = sequencesOf id history ++
      if applied.mutates id then [applied.entry.sequence] else [] := by
  rw [sequencesOf, List.filter_append, List.map_append]
  by_cases mutates : applied.mutates id
  · rw [if_pos mutates, List.filter_singleton, mutates]
    rfl
  · rw [if_neg mutates, List.filter_singleton, Bool.eq_false_iff.mpr mutates]
    rfl

theorem sequencesOf_skips {id : SessionID} {history : List Applied} {applied : Applied}
    (skips : applied.mutates id = false) :
    sequencesOf id (history ++ [applied]) = sequencesOf id history := by
  rw [sequencesOf_concat, if_neg (Bool.not_eq_true _ ▸ skips), List.append_nil]

theorem replay_concat (history : List Applied) (applied : Applied) :
    replay (history ++ [applied]) =
      if applied.effective then write (replay history) applied.entry else replay history := by
  rw [replay, List.filter_append, List.foldl_append]
  by_cases effective : applied.effective
  · rw [if_pos effective, List.filter_singleton, effective]
    rfl
  · rw [if_neg effective, List.filter_singleton, Bool.eq_false_iff.mpr effective]
    rfl

/-! ## A session's part in the history -/

/-- What the history says about a session: it was opened if it is known, its
mutations are numbered, and it was not closed while it is active. -/
structure Recorded (history : List Applied) (id : SessionID) (record : SessionRecord) : Prop where
  sequences : sequencesOf id history = List.range' 1 record.lastSequence
  opened : ∃ applied ∈ history, applied.Opens id
  unclosed : record.state = .active → ∀ applied ∈ history, ¬applied.Closes id

structure Unheard (history : List Applied) (id : SessionID) : Prop where
  sequences : sequencesOf id history = []
  unopened : ∀ applied ∈ history, ¬applied.Opens id
  unclosed : ∀ applied ∈ history, ¬applied.Closes id

/-- The place of an effective mutation in the history: after its session's
open, before its close. A deletion reports whether its key was held. -/
structure InPlace (earlier : List Applied) (applied : Applied) (later : List Applied) : Prop where
  opened : ∃ opening ∈ earlier, opening.Opens applied.entry.sessionID
  openedOnce : ∀ opening ∈ later, ¬opening.Opens applied.entry.sessionID
  unclosed : ∀ closing ∈ earlier, ¬closing.Closes applied.entry.sessionID
  existed : applied.entry.type = .delete →
    applied.result.existed = ((replay earlier)[applied.entry.key]?).isSome

/-- The history explains the state of the machine. -/
structure Explains (history : List Applied) (machine : Machine) : Prop where
  values : machine.values = replay history
  absent : ∀ id, machine.sessions[id]? = none → Unheard history id
  present : ∀ id record, machine.sessions[id]? = some record → Recorded history id record
  inPlace : ∀ earlier applied later, history = earlier ++ applied :: later →
    applied.effective = true → InPlace earlier applied later

section

variable {history : List Applied} {id : SessionID} {record : SessionRecord} {applied : Applied}

theorem Unheard.skips (unheard : Unheard history id) (ineffective : applied.mutates id = false)
    (unopened : ¬applied.Opens id) (unclosed : ¬applied.Closes id) :
    Unheard (history ++ [applied]) id where
  sequences := (sequencesOf_skips ineffective).trans unheard.sequences
  unopened := List.forall_mem_append.mpr ⟨unheard.unopened, List.forall_mem_singleton.mpr unopened⟩
  unclosed := List.forall_mem_append.mpr ⟨unheard.unclosed, List.forall_mem_singleton.mpr unclosed⟩

theorem Recorded.opened_concat (recorded : Recorded history id record) (applied : Applied) :
    ∃ opening ∈ history ++ [applied], opening.Opens id := by
  rcases recorded.opened with ⟨opening, present, opens⟩
  exact ⟨opening, List.mem_append_left _ present, opens⟩

theorem Recorded.skips (recorded : Recorded history id record)
    (ineffective : applied.mutates id = false) (unclosed : ¬applied.Closes id) :
    Recorded (history ++ [applied]) id record where
  sequences := (sequencesOf_skips ineffective).trans recorded.sequences
  opened := recorded.opened_concat applied
  unclosed := fun active =>
    List.forall_mem_append.mpr ⟨recorded.unclosed active, List.forall_mem_singleton.mpr unclosed⟩

theorem mem_sequencesOf (present : applied ∈ history) (mutates : applied.mutates id = true) :
    applied.entry.sequence ∈ sequencesOf id history :=
  List.mem_map_of_mem (List.mem_filter.mpr ⟨present, mutates⟩)

end

/-! ## One entry -/

namespace Explains

variable {history : List Applied} {machine : Machine} {entry : LogEntry}

theorem inPlace_concat (explains : Explains history machine)
    (last : machine.effective entry = true → InPlace history (machine.applied entry) [])
    (opens : (machine.applied entry).Opens entry.sessionID →
      machine.sessions[entry.sessionID]? = none)
    (earlier : List Applied) (applied : Applied) (later : List Applied)
    (split : history ++ [machine.applied entry] = earlier ++ applied :: later)
    (effective : applied.effective = true) : InPlace earlier applied later := by
  rcases List.eq_nil_or_concat later with isEmpty | ⟨before, final, isConcat⟩
  · subst isEmpty
    rcases List.append_inj' split rfl with ⟨sameHistory, sameApplied⟩
    rw [List.cons.injEq] at sameApplied
    rw [← sameHistory, ← sameApplied.1]
    apply last
    rw [← sameApplied.1] at effective
    exact effective
  · rw [List.concat_eq_append] at isConcat
    rw [isConcat, ← List.cons_append, ← List.append_assoc] at split
    rcases List.append_inj' split rfl with ⟨sameHistory, sameApplied⟩
    rw [List.cons.injEq] at sameApplied
    have place := explains.inPlace earlier applied before sameHistory effective
    refine ⟨place.opened, ?_, place.unclosed, place.existed⟩
    rw [isConcat]
    apply List.forall_mem_append.mpr ⟨place.openedOnce, List.forall_mem_singleton.mpr ?_⟩
    rw [← sameApplied.1]
    intro opening
    -- A session with an effective mutation is known, so it cannot be opened.
    have sameID : entry.sessionID = applied.entry.sessionID := opening.2.1
    have unheard := explains.absent _ (opens (sameID ▸ opening))
    have present : applied ∈ history := by
      rw [sameHistory]
      exact List.mem_append_right _ List.mem_cons_self
    have mutates : applied.mutates entry.sessionID = true := by
      simp [Applied.mutates, effective, sameID]
    have listed := mem_sequencesOf present mutates
    rw [unheard.sequences] at listed
    exact nomatch listed

theorem unchanged (explains : Explains history machine)
    (ineffective : machine.effective entry = false)
    (failed : entry.type = .openSession ∨ entry.type = .closeSession →
      (machine.applied entry).result.failure ≠ .succeeded) :
    Explains (history ++ [machine.applied entry]) machine := by
  have mutatesNone : ∀ id, (machine.applied entry).mutates id = false := fun id => by
    simp [Applied.mutates, Machine.applied, ineffective]
  have opensNone : ∀ id, ¬(machine.applied entry).Opens id :=
    fun _ opens => failed (.inl opens.1) opens.2.2
  have closesNone : ∀ id, ¬(machine.applied entry).Closes id :=
    fun _ closes => failed (.inr closes.1) closes.2.2
  constructor
  · rw [replay_concat, if_neg (by simp [Machine.applied, ineffective])]
    exact explains.values
  · intro id absent
    exact (explains.absent id absent).skips (mutatesNone id) (opensNone id) (closesNone id)
  · intro id record present
    exact (explains.present id record present).skips (mutatesNone id) (closesNone id)
  · apply explains.inPlace_concat
    · intro effective
      rw [ineffective] at effective
      cases effective
    · exact fun opens => absurd opens (opensNone _)

theorem skipped (machine : Machine) (entry : LogEntry) {id : SessionID}
    (other : entry.sessionID ≠ id) :
    (machine.applied entry).mutates id = false ∧ ¬(machine.applied entry).Opens id ∧
      ¬(machine.applied entry).Closes id := by
  refine ⟨?_, fun opens => other opens.2.1, fun closes => other closes.2.1⟩
  simp [Applied.mutates, Machine.applied, other]

section

variable (explains : Explains history machine)

include explains

theorem updates {after : Machine} {record : SessionRecord}
    (sessions : after.sessions = machine.sessions.insert entry.sessionID record)
    (values : after.values = replay (history ++ [machine.applied entry]))
    (recorded : Recorded (history ++ [machine.applied entry]) entry.sessionID record)
    (last : machine.effective entry = true → InPlace history (machine.applied entry) [])
    (opens : (machine.applied entry).Opens entry.sessionID →
      machine.sessions[entry.sessionID]? = none) :
    Explains (history ++ [machine.applied entry]) after where
  values := values
  absent := by
    intro id absent
    rw [sessions, Std.ExtTreeMap.getElem?_insert] at absent
    split_ifs at absent with same
    have other : entry.sessionID ≠ id := fun equal => same (by
      rw [equal]
      exact Std.ReflCmp.compare_self)
    rcases skipped machine entry other with ⟨mutates, opens, closes⟩
    exact (explains.absent id absent).skips mutates opens closes
  present := by
    intro id found present
    rw [sessions, Std.ExtTreeMap.getElem?_insert] at present
    split_ifs at present with same
    · rw [← Std.LawfulEqCmp.eq_of_compare same, ← Option.some.inj present]
      exact recorded
    · have other : entry.sessionID ≠ id := fun equal => same (by
        rw [equal]
        exact Std.ReflCmp.compare_self)
      rcases skipped machine entry other with ⟨mutates, _, closes⟩
      exact (explains.present id found present).skips mutates closes
  inPlace := explains.inPlace_concat last opens

theorem updates_session {record : SessionRecord}
    (ineffective : machine.effective entry = false) (active : Nat)
    (recorded : Recorded (history ++ [machine.applied entry]) entry.sessionID record)
    (opens : (machine.applied entry).Opens entry.sessionID →
      machine.sessions[entry.sessionID]? = none) :
    Explains (history ++ [machine.applied entry])
      { machine with
        sessions := machine.sessions.insert entry.sessionID record
        active := active } := by
  have noEffect : ¬(machine.applied entry).effective = true := by
    simp [Machine.applied, ineffective]
  apply explains.updates rfl
  · rw [replay_concat, if_neg noEffect]
    exact explains.values
  · exact recorded
  · exact fun effective => absurd effective noEffect
  · exact opens

theorem opened (opens : entry.type = .openSession)
    (fresh : machine.sessions[entry.sessionID]? = none)
    (result : (machine.applied entry).result = { sessionID := entry.sessionID }) :
    Recorded (history ++ [machine.applied entry]) entry.sessionID {} := by
  have unheard := explains.absent _ fresh
  constructor
  · apply (sequencesOf_skips _).trans unheard.sequences
    simp [Applied.mutates, Machine.applied, Machine.effective, opens]
  · exact ⟨_, List.mem_append_right _ List.mem_cons_self, opens, rfl, by rw [result]⟩
  · intro _
    apply List.forall_mem_append.mpr ⟨unheard.unclosed, List.forall_mem_singleton.mpr ?_⟩
    rintro ⟨closes, _⟩
    exact nomatch opens.symm.trans closes

theorem closed {record : SessionRecord} (closes : entry.type = .closeSession)
    (found : machine.sessions[entry.sessionID]? = some record) :
    Recorded (history ++ [machine.applied entry]) entry.sessionID
      { record with state := .permanentlyClosed } where
  sequences := by
    apply (sequencesOf_skips _).trans (explains.present _ _ found).sequences
    simp [Applied.mutates, Machine.applied, Machine.effective, closes]
  opened := (explains.present _ _ found).opened_concat _
  unclosed := fun active => nomatch active

theorem mutated {record : SessionRecord} (effective : machine.effective entry = true)
    (found : machine.sessions[entry.sessionID]? = some record)
    (active : record.state = .active) (next : entry.sequence = record.lastSequence + 1) :
    Recorded (history ++ [machine.applied entry]) entry.sessionID
      (machine.mutated entry record) := by
  have recorded := explains.present _ _ found
  constructor
  · rw [sequencesOf_concat, recorded.sequences,
      if_pos (by simp [Applied.mutates, Machine.applied, effective])]
    simp only [Machine.mutated, Machine.applied, next]
    rw [List.range'_concat, Nat.one_mul, Nat.add_comm]
  · exact recorded.opened_concat _
  · intro _
    apply List.forall_mem_append.mpr
      ⟨recorded.unclosed active, List.forall_mem_singleton.mpr ?_⟩
    rintro ⟨closes, _⟩
    have isClose : entry.type = .closeSession := closes
    rcases machine.type_of_effective effective with isSet | isDelete
    · exact nomatch isSet.symm.trans isClose
    · exact nomatch isDelete.symm.trans isClose

theorem applies (entry : LogEntry) :
    Explains (history ++ [machine.applied entry]) (machine.apply entry).1 := by
  have change := machine.apply_changes entry
  generalize (machine.apply entry).1 = after at change ⊢
  rw [show (machine.apply entry).2 = (machine.applied entry).result from rfl] at change
  generalize isResult : (machine.applied entry).result = result at change
  cases change with
  | unchanged ineffective failed => exact explains.unchanged ineffective (isResult ▸ failed)
  | opened opens fresh =>
      exact explains.updates_session (Machine.ineffective (by simp [opens]) (by simp [opens])) _
        (explains.opened opens fresh isResult) fun _ => fresh
  | closed closes found =>
      apply explains.updates_session (Machine.ineffective (by simp [closes]) (by simp [closes])) _
        (explains.closed closes found)
      rintro ⟨opens, _⟩
      exact nomatch closes.symm.trans opens
  | @mutated record effective found active next =>
      have recorded := explains.present _ _ found
      apply explains.updates rfl _ (explains.mutated effective found active next)
      · intro _
        refine ⟨recorded.opened, List.forall_mem_nil _, recorded.unclosed active, ?_⟩
        intro isDelete
        have deletes : entry.type = .delete := isDelete
        rw [isResult, ← explains.values]
        simp [Machine.mutated, deletes, Machine.applied]
      · rintro ⟨opens, _⟩
        have isOpen : entry.type = .openSession := opens
        have isMutation := machine.type_of_effective effective
        simp [isOpen] at isMutation
      · rw [replay_concat, if_pos (by simpa [Machine.applied] using effective)]
        exact congrArg (write · entry) explains.values

end

end Explains

/-! ## Whole logs -/

theorem Explains.initial (limit : Nat) : Explains [] { limit := limit } where
  values := rfl
  absent := fun _ _ => ⟨rfl, List.forall_mem_nil _, List.forall_mem_nil _⟩
  present := fun _ _ found => by simp at found
  inPlace := by simp

theorem Explains.history (limit : Nat) (entries : List LogEntry) :
    Explains (({ limit := limit } : Machine).history entries)
      (({ limit := limit } : Machine).applyAll entries) := by
  induction entries using List.reverseRecOn with
  | nil => exact .initial limit
  | append_singleton entries entry induction =>
      rw [Machine.history_append, Machine.applyAll_append]
      exact induction.applies entry

/-- Mutations take effect at most once and in order: each session's effective
mutations are numbered from one, lie between its open and its close, and alone
determine the values. -/
theorem effects_in_order (limit : Nat) (entries : List LogEntry) :
    let machine : Machine := { limit := limit }
    (∀ id, ∃ count, sequencesOf id (machine.history entries) = List.range' 1 count) ∧
    (∀ earlier applied later, machine.history entries = earlier ++ applied :: later →
      applied.effective = true → InPlace earlier applied later) ∧
    (machine.applyAll entries).values = replay (machine.history entries) := by
  intro machine
  have explains : Explains (machine.history entries) (machine.applyAll entries) :=
    Explains.history limit entries
  refine ⟨?_, explains.inPlace, explains.values⟩
  intro id
  cases found : (machine.applyAll entries).sessions[id]? with
  | none => exact ⟨0, (explains.absent id found).sequences⟩
  | some record => exact ⟨record.lastSequence, (explains.present id record found).sequences⟩

end Ternion.Session
