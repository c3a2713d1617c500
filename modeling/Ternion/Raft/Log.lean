import Mathlib.Algebra.GroupWithZero.Nat
import Ternion.Raft.Types

/-! # The log of a Node

Reading and changing the in-memory log, and the hints with which a Follower
and its Leader find the position where their logs part.
-/

namespace Ternion.Raft.Node

/-- The Term of a log position. A position outside the log has Term zero; the
source indexes its slice only within bounds. -/
def termAt (node : Node) (index : Nat) : Nat :=
  if index = node.logBaseIndex then node.logBaseTerm
  else if index ≤ node.logBaseIndex ∨ node.lastLogIndex < index then 0
  else ((node.log[index - node.logBaseIndex - 1]?).map LogEntry.term).getD 0

/-- Called `matches` in the source. -/
def matchesAt (node : Node) (index term : Nat) : Bool :=
  (index = 0 ∧ term = 0) ∨ (index ≤ node.lastLogIndex ∧ node.termAt index = term)

def appendEntries (node : Node) (entries : List LogEntry) : Node :=
  let log := node.log ++ entries
  match log.getLast? with
  | none => node
  | some last => { node with log := log, lastLogIndex := last.index, lastLogTerm := last.term }

def truncateLog (node : Node) (firstIndex : Nat) : Node :=
  let node := { node with
    log := node.log.take (firstIndex - node.logBaseIndex - 1)
    lastLogIndex := firstIndex - 1 }
  { node with
    lastLogTerm := node.termAt node.lastLogIndex
    durableLogIndex := min node.durableLogIndex node.lastLogIndex }

def compactLog (node : Node) (index term : Nat) : Node :=
  if index ≤ node.logBaseIndex ∨ node.lastApplied < index ∨ node.termAt index ≠ term then node
  else { node with
    log := node.log.drop (index - node.logBaseIndex)
    logBaseIndex := index
    logBaseTerm := term }

/-- The suffix of a request that is new to this log, and the position from
which the log is replaced, zero for none. Nothing when the request cannot be
taken. -/
def entriesToAppendFrom (node : Node) (wantIndex : Nat) :
    List LogEntry → Option (List LogEntry × Nat)
  | [] => some ([], 0)
  | entry :: rest =>
      if entry.index ≠ wantIndex then none
      else if entry.index ≤ node.lastLogIndex then
        if node.termAt entry.index ≠ entry.term then
          if entry.index ≤ node.commitIndex then none
          else some (entry :: rest, entry.index)
        else entriesToAppendFrom node (wantIndex + 1) rest
      else if entry.index ≠ node.lastLogIndex + 1 then none
      else some (entry :: rest, 0)

def entriesToAppend (node : Node) (prevIndex : Nat) (entries : List LogEntry) :
    Option (List LogEntry × Nat) :=
  node.entriesToAppendFrom (prevIndex + 1) entries

/-! ## Bounded batches -/

def maxAppendEntriesBytes : Nat := 2 ^ 20 + 4 * 2 ^ 10

def entryBytes (entry : LogEntry) : Nat :=
  64 + entry.key.utf8ByteSize + entry.value.length

/-- How many entries a batch takes: it stops before the entry that would
exceed the limit, but never before the first. -/
def batchLength (bytes taken : Nat) : List LogEntry → Nat
  | [] => taken
  | entry :: rest =>
      if maxAppendEntriesBytes < bytes + entryBytes entry ∧ 0 < taken then taken
      else batchLength (bytes + entryBytes entry) (taken + 1) rest

def entriesBatch (node : Node) (first last : Nat) : List LogEntry :=
  if first = 0 ∨ last < first ∨ node.lastLogIndex < last then []
  else if first ≤ node.logBaseIndex then []
  else
    let available := (node.log.drop (first - node.logBaseIndex - 1)).take (last - first + 1)
    available.take (batchLength 0 0 available)

/-! ## Conflict hints -/

/-- The first position of the run of `term` that ends at the given position. -/
def firstOfTerm (node : Node) (term : Nat) : Nat → Nat
  | 0 => 0
  | first + 1 =>
      if node.logBaseIndex < first ∧ node.termAt first = term then
        firstOfTerm node term first
      else first + 1

def conflictHint (node : Node) (index : Nat) : Nat × Nat :=
  if index = 0 ∨ node.lastLogIndex < index then (0, node.lastLogIndex + 1)
  else (node.termAt index, node.firstOfTerm (node.termAt index) index)

/-- The last position of `term` at or below the given one. -/
def lastOfTerm (node : Node) (term : Nat) : Nat → Option Nat
  | 0 => none
  | index + 1 =>
      if node.termAt (index + 1) = term then some (index + 1)
      else lastOfTerm node term index

def nextIndexFromConflict (node : Node) (response : AppendEntriesResponse) : Nat :=
  let next :=
    if response.conflictTerm ≠ 0 then
      match node.lastOfTerm response.conflictTerm node.lastLogIndex with
      | some index => index + 1
      | none => response.conflictIndex
    else response.conflictIndex
  let next := if next = 0 then 1 else next
  min next (node.lastLogIndex + 1)

end Ternion.Raft.Node
