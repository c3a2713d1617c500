import Ternion.Raft.Step

/-! # The synchronous runtime of a Node

The runtime steps the core and performs every requested durability at once. It
delivers a completion only after the write is durable, and hands the remaining
actions out only when nothing is left to persist.
-/

namespace Ternion.RaftRuntime

open Raft

/-! ## Durable writes -/

/-- One durable write. Entries are saved one after another. -/
inductive Write where
  | saveHardState (hardState : HardState)
  | truncateLog (firstIndex : Nat)
  | saveLogEntry (entry : LogEntry)
  | saveCommitIndex (commitIndex : Nat)
  deriving DecidableEq

/-- What a Node recovers after a crash. -/
structure Store where
  hardState : HardState := {}
  log : List LogEntry := []
  commitIndex : Nat := 0
  deriving DecidableEq

namespace Store

def write (store : Store) : Write → Store
  | .saveHardState hardState => { store with hardState := hardState }
  | .truncateLog firstIndex =>
      { store with log := store.log.filter fun entry => entry.index < firstIndex }
  | .saveLogEntry entry => { store with log := store.log ++ [entry] }
  | .saveCommitIndex commitIndex => { store with commitIndex := commitIndex }

def writeAll (store : Store) (writes : List Write) : Store :=
  writes.foldl write store

def recovered (store : Store) : RecoveredState where
  hardState := store.hardState
  log := store.log
  commitIndex := store.commitIndex

end Store

/-- The writes that perform a requested persistence. -/
def writesOf : Action → List Write
  | .persistHardState _ term votedFor => [.saveHardState ⟨term, votedFor⟩]
  | .persistLogEntries _ truncateFrom entries =>
      (if truncateFrom ≠ 0 then [.truncateLog truncateFrom] else []) ++
        entries.map .saveLogEntry
  | .persistCommitIndex _ commitIndex => [.saveCommitIndex commitIndex]
  | _ => []

/-- The event that reports a requested persistence as durable. -/
def completion : Action → Option Event
  | .persistHardState persistenceID _ _ => some (.hardStatePersisted persistenceID)
  | .persistLogEntries persistenceID _ _ => some (.logEntriesPersisted persistenceID)
  | .persistCommitIndex persistenceID _ => some (.commitIndexPersisted persistenceID)
  | _ => none

/-! ## The loop -/

/-- What a step leaves behind: the core, the writes it made and the actions it
returns to the caller. -/
structure Outcome where
  core : Node
  writes : List Write := []
  emitted : List Action := []

namespace Outcome

def wrote (outcome : Outcome) (writes : List Write) : Outcome :=
  { outcome with writes := writes ++ outcome.writes }

def emits (outcome : Outcome) (actions : List Action) : Outcome :=
  { outcome with emitted := actions ++ outcome.emitted }

end Outcome

/-- Work off the pending actions, first in, first out. A persistence is
performed and its completion stepped at once; what the completion asks for is
queued. Nothing when the budget of iterations does not suffice. -/
def drain : Nat → Node → List Action → Option Outcome
  | _, core, [] => some { core := core }
  | 0, _, _ :: _ => none
  | budget + 1, core, action :: pending =>
      match completion action with
      | some event =>
          (drain budget (core.step event).1 (pending ++ (core.step event).2)).map fun outcome =>
            outcome.wrote (writesOf action)
      | none => (drain budget core pending).map fun outcome => outcome.emits [action]

/-- One step of the runtime. -/
def step (budget : Nat) (core : Node) (event : Event) : Option Outcome :=
  drain budget (core.step event).1 (core.step event).2

end Ternion.RaftRuntime
