import Ternion.Snapshot.State

/-! # The session machine

The replicated state of a Node: its Client Sessions and its values. Applying
the same committed entries produces the same state on every Node.
-/

namespace Ternion.Session

open Raft

inductive Failure where
  | succeeded
  | limitReached
  | unknown
  | closed
  | alreadyExists
  | staleSequence
  | outOfOrderSequence
  deriving DecidableEq

structure ProposalResult where
  sessionID : SessionID
  failure : Failure := .succeeded
  sequence : Nat := 0
  wantSequence : Nat := 0
  leaderID : NodeID := ""
  rejected : Bool := false
  existed : Bool := false
  deriving DecidableEq

inductive SessionState where
  | active
  | permanentlyClosed
  deriving DecidableEq

structure SessionRecord where
  state : SessionState := .active
  lastSequence : Nat := 0
  lastMutationResult : Failure := .succeeded
  lastDeleteExisted : Bool := false
  deriving DecidableEq

structure Machine where
  limit : Nat
  active : Nat := 0
  sessions : Std.ExtTreeMap SessionID SessionRecord := ∅
  values : Std.ExtTreeMap String (List UInt8) := ∅

namespace Machine

/-- Whether a command is the next mutation to apply. The latest sequence
replays its cached result, so a retry never creates a second effect. -/
def evaluateMutation (machine : Machine) (sessionID : SessionID) (sequence : Nat) :
    ProposalResult × Bool :=
  let result : ProposalResult := { sessionID := sessionID, sequence := sequence }
  match machine.sessions[sessionID]? with
  | none => ({ result with failure := .unknown }, false)
  | some record =>
      if record.state = .permanentlyClosed then ({ result with failure := .closed }, false)
      else if sequence = record.lastSequence ∧ sequence ≠ 0 then
        ({ result with
          failure := record.lastMutationResult
          existed := record.lastDeleteExisted }, false)
      else if sequence < record.lastSequence then
        ({ result with
          failure := .staleSequence
          wantSequence := record.lastSequence }, false)
      else if sequence ≠ record.lastSequence + 1 then
        ({ result with
          failure := .outOfOrderSequence
          wantSequence := record.lastSequence + 1 }, false)
      else (result, true)

def applyOpen (machine : Machine) (entry : LogEntry) : Machine × ProposalResult :=
  let result : ProposalResult := { sessionID := entry.sessionID }
  if (machine.sessions[entry.sessionID]?).isSome then
    (machine, { result with failure := .alreadyExists })
  else if machine.limit ≤ machine.active then
    (machine, { result with failure := .limitReached })
  else
    ({ machine with
      sessions := machine.sessions.insert entry.sessionID {}
      active := machine.active + 1 }, result)

def applyClose (machine : Machine) (entry : LogEntry) : Machine × ProposalResult :=
  let result : ProposalResult := { sessionID := entry.sessionID }
  match machine.sessions[entry.sessionID]? with
  | none => (machine, { result with failure := .unknown })
  | some record =>
      if record.state = .permanentlyClosed then (machine, { result with failure := .closed })
      else
        ({ machine with
          sessions := machine.sessions.insert entry.sessionID
            { record with state := .permanentlyClosed }
          active := machine.active - 1 }, result)

/-- Record an applied mutation in its session. -/
def recordMutation (machine : Machine) (entry : LogEntry) (failure : Failure) (existed : Bool) :
    Machine :=
  { machine with
    sessions := machine.sessions.insert entry.sessionID
      { (machine.sessions[entry.sessionID]?).getD {} with
        lastSequence := entry.sequence
        lastMutationResult := failure
        lastDeleteExisted := existed } }

def applySet (machine : Machine) (entry : LogEntry) : Machine × ProposalResult :=
  let (result, apply) := machine.evaluateMutation entry.sessionID entry.sequence
  if ¬apply then (machine, result)
  else
    ({ machine with values := machine.values.insert entry.key entry.value }.recordMutation entry
      result.failure false, result)

def applyDelete (machine : Machine) (entry : LogEntry) : Machine × ProposalResult :=
  let (result, apply) := machine.evaluateMutation entry.sessionID entry.sequence
  if ¬apply then (machine, result)
  else
    let existed := (machine.values[entry.key]?).isSome
    ({ machine with values := machine.values.erase entry.key }.recordMutation entry
      result.failure existed, { result with existed := existed })

def apply (machine : Machine) (entry : LogEntry) : Machine × ProposalResult :=
  match entry.type with
  | .noOp => (machine, { sessionID := entry.sessionID })
  | .openSession => machine.applyOpen entry
  | .closeSession => machine.applyClose entry
  | .set => machine.applySet entry
  | .delete => machine.applyDelete entry

def get (machine : Machine) (key : String) : Option (List UInt8) :=
  machine.values[key]?

/-- The state that committed entries lead to. -/
def applyAll (machine : Machine) (entries : List LogEntry) : Machine :=
  entries.foldl (fun machine entry => (machine.apply entry).1) machine

end Machine

/-! ## Images of the state -/

def Failure.code : Failure → UInt8
  | .succeeded => 0
  | .limitReached => 1
  | .unknown => 2
  | .closed => 3
  | .alreadyExists => 4
  | .staleSequence => 5
  | .outOfOrderSequence => 6

def Failure.ofCode (code : UInt8) : Option Failure :=
  match code.toNat with
  | 0 => some .succeeded
  | 1 => some .limitReached
  | 2 => some .unknown
  | 3 => some .closed
  | 4 => some .alreadyExists
  | 5 => some .staleSequence
  | 6 => some .outOfOrderSequence
  | _ => none

theorem Failure.ofCode_code (failure : Failure) : ofCode failure.code = some failure := by
  cases failure <;> rfl

inductive RestoreError where
  | unknownResult (id : SessionID) (result : UInt8)
  | limitExceeded (active limit : Nat)
  deriving DecidableEq

def savedSession (id : SessionID) (record : SessionRecord) : Snapshot.Session where
  id := id
  closed := record.state = .permanentlyClosed
  lastSequence := record.lastSequence
  lastResult := record.lastMutationResult.code
  lastDeleteExisted := record.lastDeleteExisted

namespace Machine

/-- Sessions are listed in the order of their identities. -/
def snapshot (machine : Machine) (identity : Snapshot.Identity)
    (includedIndex includedTerm : Nat) : Snapshot.State where
  identity := identity
  includedIndex := includedIndex
  includedTerm := includedTerm
  values := machine.values
  sessions := machine.sessions.toList.map fun session => savedSession session.1 session.2

def restoreSession (machine : Machine) (saved : Snapshot.Session) :
    Except RestoreError Machine :=
  match Failure.ofCode saved.lastResult with
  | none => .error (.unknownResult saved.id saved.lastResult)
  | some result => .ok { machine with
      active := if saved.closed then machine.active else machine.active + 1
      sessions := machine.sessions.insert saved.id {
        state := if saved.closed then .permanentlyClosed else .active
        lastSequence := saved.lastSequence
        lastMutationResult := result
        lastDeleteExisted := saved.lastDeleteExisted } }

def restore (machine : Machine) : Option Snapshot.State → Except RestoreError Machine
  | none => .ok machine
  | some state => do
      let emptied := { machine with active := 0, sessions := ∅, values := state.values }
      let restored ← state.sessions.foldlM restoreSession emptied
      if restored.limit < restored.active then
        .error (.limitExceeded restored.active restored.limit)
      else return restored

end Machine

end Ternion.Session
