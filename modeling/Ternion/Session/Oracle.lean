import Ternion.Session.History

/-! # The oracle of the fault simulator

The simulator applies committed entries to a model of its own, and compares
Nodes by the states of their models. The model keeps what the session machine
keeps, except cached results and the number of active sessions.
-/

namespace Ternion.Simulation

open Raft Session

structure ModelSession where
  closed : Bool := false
  lastSequence : Nat := 0
  deleteResult : Bool := false
  deriving DecidableEq

structure ModelState where
  values : Std.ExtTreeMap String (List UInt8) := ∅
  sessions : Std.ExtTreeMap SessionID ModelSession := ∅

namespace ModelState

/-- One guard for everything that can be wrong with a mutation. -/
def applyMutation (model : ModelState) (entry : LogEntry) : ModelState :=
  match model.sessions[entry.sessionID]? with
  | none => model
  | some session =>
      if session.closed ∨ entry.sequence ≠ session.lastSequence + 1 then model
      else if entry.type = .set then
        { values := model.values.insert entry.key entry.value
          sessions := model.sessions.insert entry.sessionID
            { session with deleteResult := false, lastSequence := entry.sequence } }
      else
        { values := model.values.erase entry.key
          sessions := model.sessions.insert entry.sessionID
            { session with
              deleteResult := (model.values[entry.key]?).isSome
              lastSequence := entry.sequence } }

def apply (model : ModelState) (entry : LogEntry) : ModelState :=
  match entry.type with
  | .noOp => model
  | .openSession =>
      if (model.sessions[entry.sessionID]?).isSome then model
      else { model with sessions := model.sessions.insert entry.sessionID {} }
  | .closeSession =>
      match model.sessions[entry.sessionID]? with
      | none => model
      | some session =>
          if session.closed then model
          else { model with
            sessions := model.sessions.insert entry.sessionID { session with closed := true } }
  | .set | .delete => model.applyMutation entry

def applyAll (model : ModelState) (entries : List LogEntry) : ModelState :=
  entries.foldl apply model

end ModelState

/-- What the model keeps of a session. -/
def ModelSession.ofRecord (record : SessionRecord) : ModelSession where
  closed := record.state = .permanentlyClosed
  lastSequence := record.lastSequence
  deleteResult := record.lastDeleteExisted

/-- The model keeps the values and what it knows of each session. -/
structure Matches (model : ModelState) (machine : Machine) : Prop where
  values : model.values = machine.values
  sessions : ∀ id : SessionID,
    model.sessions[id]? = (machine.sessions[id]?).map ModelSession.ofRecord

namespace Matches

variable {model : ModelState} {machine : Machine} {entry : LogEntry}

theorem initial (limit : Nat) : Matches {} { limit := limit } where
  values := rfl
  sessions := fun id => by
    rw [Std.ExtTreeMap.getElem?_empty, Std.ExtTreeMap.getElem?_empty]
    rfl

section

variable (matched : Matches model machine)

include matched

theorem insert (record : SessionRecord) {after : Machine}
    {values : Std.ExtTreeMap String (List UInt8)} (sameValues : values = after.values)
    (replaced : after.sessions = machine.sessions.insert entry.sessionID record) :
    Matches ⟨values, model.sessions.insert entry.sessionID (.ofRecord record)⟩ after where
  values := sameValues
  sessions := fun id => by
    rw [replaced, Std.ExtTreeMap.getElem?_insert, Std.ExtTreeMap.getElem?_insert,
      matched.sessions id]
    split
    · rfl
    · rfl

theorem applyOpen (opens : entry.type = .openSession)
    (within : (machine.applyOpen entry).2.failure ≠ .limitReached) :
    Matches (model.apply entry) (machine.applyOpen entry).1 := by
  have known := matched.sessions entry.sessionID
  rw [ModelState.apply, opens]
  rw [Machine.applyOpen] at within ⊢
  cases found : machine.sessions[entry.sessionID]? with
  | some record =>
      rw [found] at known
      simp only [known, Option.map_some, Option.isSome_some, if_true]
      exact matched
  | none =>
      rw [found] at known
      simp only [known, found, Option.map_none, Option.isSome_none, Bool.false_eq_true, if_false]
        at within ⊢
      split_ifs at within ⊢ with full
      · exact absurd rfl within
      · exact matched.insert {} matched.values rfl

theorem applyClose (closes : entry.type = .closeSession) :
    Matches (model.apply entry) (machine.applyClose entry).1 := by
  have known := matched.sessions entry.sessionID
  rw [ModelState.apply, Machine.applyClose, closes]
  cases found : machine.sessions[entry.sessionID]? with
  | none =>
      rw [found] at known
      simp only [known, Option.map_none]
      exact matched
  | some record =>
      rw [found] at known
      simp only [known, Option.map_some, ModelSession.ofRecord, decide_eq_true_eq]
      split_ifs with isClosed
      · exact matched
      · exact matched.insert { record with state := .permanentlyClosed } matched.values rfl

/-- The combined guard lets through what the ordered checks of the machine let
through. -/
theorem guard (mutates : entry.type = .set ∨ entry.type = .delete)
    (ineffective : machine.effective entry = false) : model.applyMutation entry = model := by
  have known := matched.sessions entry.sessionID
  rw [ModelState.applyMutation]
  cases found : machine.sessions[entry.sessionID]? with
  | none =>
      rw [found] at known
      rw [known]
      rfl
  | some record =>
      rw [found] at known
      simp only [known, Option.map_some, ModelSession.ofRecord, decide_eq_true_eq]
      by_cases stopped : record.state = .permanentlyClosed ∨ entry.sequence ≠
        record.lastSequence + 1
      · rw [if_pos stopped]
      · rcases not_or.mp stopped with ⟨isOpen, next⟩
        have applies := Machine.evaluateMutation_accepts found isOpen (not_not.mp next)
        have effective : machine.effective entry = true := by
          rcases mutates with isSet | isDelete
          · exact (machine.effective_of_set isSet).trans applies
          · exact (machine.effective_of_delete isDelete).trans applies
        exact absurd (ineffective.symm.trans effective) Bool.false_ne_true

theorem applyMutation (mutates : entry.type = .set ∨ entry.type = .delete) :
    Matches (model.applyMutation entry) (machine.apply entry).1 := by
  have changes := machine.apply_changes entry
  generalize (machine.apply entry).1 = after, (machine.apply entry).2 = result at changes ⊢
  cases changes with
  | unchanged ineffective _ =>
      rw [matched.guard mutates ineffective]
      exact matched
  | opened opens _ => simp [opens] at mutates
  | closed closes _ => simp [closes] at mutates
  | mutated effective found active next =>
      rename_i record
      have known := matched.sessions entry.sessionID
      rw [found] at known
      have passes : ¬ ((ModelSession.ofRecord record).closed ∨
          entry.sequence ≠ (ModelSession.ofRecord record).lastSequence + 1) := by
        simp [ModelSession.ofRecord, active, next]
      simp only [ModelState.applyMutation, known, Option.map_some, if_neg passes]
      have replaced : ∀ existed, existed = (machine.mutated entry record).lastDeleteExisted →
          { ModelSession.ofRecord record with
            deleteResult := existed
            lastSequence := entry.sequence } =
          ModelSession.ofRecord (machine.mutated entry record) := by
        rintro _ rfl
        rfl
      rcases mutates with isSet | isDelete
      · rw [if_pos isSet, replaced false (by simp [Machine.mutated, isSet])]
        exact matched.insert _ (by simp [write, isSet, matched.values]) rfl
      · rw [if_neg (by simp [isDelete]), replaced _ (by simp [Machine.mutated, isDelete,
          matched.values])]
        exact matched.insert _ (by simp [write, isDelete, matched.values]) rfl

theorem apply
    (within : entry.type = .openSession → (machine.apply entry).2.failure ≠ .limitReached) :
    Matches (model.apply entry) (machine.apply entry).1 := by
  cases isType : entry.type with
  | noOp =>
      rw [ModelState.apply, Machine.apply, isType]
      exact matched
  | openSession =>
      have applied : machine.apply entry = machine.applyOpen entry := by
        rw [Machine.apply, isType]
      rw [applied] at within ⊢
      exact matched.applyOpen isType (within isType)
  | closeSession =>
      rw [Machine.apply, isType]
      exact matched.applyClose isType
  | set =>
      rw [ModelState.apply, isType]
      exact matched.applyMutation (.inl isType)
  | delete =>
      rw [ModelState.apply, isType]
      exact matched.applyMutation (.inr isType)

theorem applyAll {entries : List LogEntry}
    (within : ∀ applied ∈ machine.history entries, applied.entry.type = .openSession →
      applied.result.failure ≠ .limitReached) :
    Matches (model.applyAll entries) (machine.applyAll entries) := by
  induction entries generalizing model machine with
  | nil => exact matched
  | cons entry entries induction =>
      have first := matched.apply (within _ List.mem_cons_self)
      exact induction first fun applied present => within applied (List.mem_cons_of_mem _ present)

end

end Matches

/-- The oracle refines the session machine, as long as the limit of active
sessions is not met. -/
theorem oracle_refines (limit : Nat) (entries : List LogEntry)
    (within : ∀ applied ∈ ({ limit := limit } : Machine).history entries,
      applied.entry.type = .openSession → applied.result.failure ≠ .limitReached) :
    let model := ({} : ModelState).applyAll entries
    let machine := ({ limit := limit } : Machine).applyAll entries
    model.values = machine.values ∧
      ∀ id : SessionID, model.sessions[id]? = (machine.sessions[id]?).map fun record =>
        { closed := record.state = .permanentlyClosed
          lastSequence := record.lastSequence
          deleteResult := record.lastDeleteExisted } := by
  have matched := (Matches.initial limit).applyAll within
  exact ⟨matched.values, matched.sessions⟩

/-- A retried deletion, a gap, and a mutation after the session is closed. -/
def oracleLog : List LogEntry :=
  let entry (type : EntryType) (sequence : Nat) (value : List UInt8) : LogEntry :=
    { index := 1, term := 1, type := type, sequence := sequence, key := "k", value := value }
  [entry .openSession 0 [], entry .set 1 [7], entry .delete 2 [], entry .delete 2 [],
    entry .set 4 [8], entry .openSession 0 [], entry .closeSession 0 [], entry .set 3 [9]]

theorem oracle_refines_retries :
    (∀ applied ∈ ({ limit := 1 } : Machine).history oracleLog,
        applied.entry.type = .openSession → applied.result.failure ≠ .limitReached) ∧
      (({} : ModelState).applyAll oracleLog).sessions[SessionID.zero]? =
        some { closed := true, lastSequence := 2, deleteResult := true } := by
  have within : ∀ applied ∈ ({ limit := 1 } : Machine).history oracleLog,
      applied.entry.type = .openSession → applied.result.failure ≠ .limitReached := by
    decide +kernel
  rcases oracle_refines 1 oracleLog within with ⟨_, sessions⟩
  have record : (({ limit := 1 } : Machine).applyAll oracleLog).sessions[SessionID.zero]? =
      some { state := .permanentlyClosed, lastSequence := 2, lastDeleteExisted := true } := by
    decide +kernel
  exact ⟨within, (sessions SessionID.zero).trans (by rw [record]; rfl)⟩

end Ternion.Simulation
