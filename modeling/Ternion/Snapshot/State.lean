import Mathlib.Tactic.Common
import Ternion.Raft.Types

/-! # Snapshots

An immutable image of the replicated state through one position of the log.
-/

namespace Ternion.Snapshot

open Raft

/-- Binds a Snapshot to one Node and the fixed membership of its Cluster. -/
structure Identity where
  clusterID : String
  nodeID : String
  memberIDs : List String
  deriving DecidableEq

/-- The replicated state retained for one Client Session. -/
structure Session where
  id : SessionID
  closed : Bool
  lastSequence : Nat
  lastResult : UInt8
  lastDeleteExisted : Bool
  deriving DecidableEq

/-- The complete replicated state through the included index. -/
structure State where
  identity : Identity
  includedIndex : Nat
  includedTerm : Nat
  values : Std.ExtTreeMap String (List UInt8)
  sessions : List Session

/-- White space as the source trims it. -/
def isSpace (character : Char) : Bool :=
  (0x09 ≤ character.toNat && character.toNat ≤ 0x0D) || character.toNat == 0x20 ||
    character.toNat == 0x85 || character.toNat == 0xA0 || character.toNat == 0x1680 ||
    (0x2000 ≤ character.toNat && character.toNat ≤ 0x200A) || character.toNat == 0x2028 ||
    character.toNat == 0x2029 || character.toNat == 0x202F || character.toNat == 0x205F ||
    character.toNat == 0x3000

/-- Nothing is left of the name without the spaces around it. -/
def blank (name : String) : Bool :=
  name.toList.all isSpace

/-- Why a stored or received Snapshot is refused. -/
inductive Error where
  | undecodable (name : String)
  | identityIncomplete
  | memberCount (count : Nat)
  | memberBlank
  | membersUnsorted
  | nodeNotMember
  | positionHalfZero
  | duplicateSession (id : SessionID)
  | identityMismatch (name : String)
  | noneCompatible
  deriving DecidableEq

/-- Members are named, unique and sorted. -/
def validateMembers (previous : Option String) : List String → Except Error Unit
  | [] => .ok ()
  | member :: rest =>
      if blank member then .error .memberBlank
      else if ∃ earlier ∈ previous, member ≤ earlier then .error .membersUnsorted
      else validateMembers (some member) rest

/-- No session identity occurs twice. -/
def validateSessions (seen : List SessionID) : List Session → Except Error Unit
  | [] => .ok ()
  | session :: rest =>
      if session.id ∈ seen then .error (.duplicateSession session.id)
      else validateSessions (session.id :: seen) rest

def validateState (state : State) : Except Error Unit :=
  if blank state.identity.clusterID ∨ blank state.identity.nodeID then
    .error .identityIncomplete
  else if state.identity.memberIDs.length ≠ 3 then
    .error (.memberCount state.identity.memberIDs.length)
  else do
    validateMembers none state.identity.memberIDs
    if state.identity.nodeID ∉ state.identity.memberIDs then .error .nodeNotMember
    else if ¬(state.includedIndex = 0 ↔ state.includedTerm = 0) then .error .positionHalfZero
    else validateSessions [] state.sessions

end Ternion.Snapshot
