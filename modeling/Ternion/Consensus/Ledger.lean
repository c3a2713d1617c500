import Ternion.Foundation.Agreement
import Mathlib.Data.Finset.Basic
import Mathlib.Logic.Function.Basic
import Mathlib.Logic.Relation

/-! # Leader-based replication, abstractly

A `Ledger` is the history of a replicated log that a proof refers to: the
durable Term and log of every member together with the votes, candidacies and
leader logs that no later step takes back. The rules below are the moves of one
member. They mention neither messages nor storage, so an implementation is
related to them by showing which moves each of its transitions makes.
-/

namespace Ternion.Consensus

/-- The parameters of a protocol: the Term an entry was created in, and the
sets of members that count as a quorum. Any two quorums share a member. -/
structure Protocol (Member Entry : Type) where
  termOf : Entry → Nat
  Quorum : Finset Member → Prop
  quorums_meet : ∀ {left right : Finset Member}, Quorum left → Quorum right →
    ∃ member, member ∈ left ∧ member ∈ right

structure Ledger (Member Entry : Type) where
  term : Member → Nat
  log : Member → List Entry
  vote : Member → Nat → Option Member
  candidateLog : Member → Nat → Option (List Entry)
  leader : Nat → Option Member
  leaderLog : Nat → List Entry
  electors : Nat → Finset Member

def lastTerm (termOf : Entry → Nat) (log : List Entry) : Nat :=
  (log.getLast?.map termOf).getD 0

def UpToDate (termOf : Entry → Nat) (candidate local_ : List Entry) : Prop :=
  lastTerm termOf local_ < lastTerm termOf candidate ∨
    lastTerm termOf candidate = lastTerm termOf local_ ∧
      local_.length ≤ candidate.length

namespace Ledger

variable {Member Entry : Type} [DecidableEq Member]

def raiseTerm (ledger : Ledger Member Entry) (member : Member) (term : Nat) :
    Ledger Member Entry :=
  { ledger with term := Function.update ledger.term member term }

def castVote (ledger : Ledger Member Entry) (member candidate : Member) :
    Ledger Member Entry :=
  { ledger with
    vote := Function.update ledger.vote member
      (Function.update (ledger.vote member) (ledger.term member) (some candidate)) }

def campaign (ledger : Ledger Member Entry) (member : Member) :
    Ledger Member Entry :=
  let term := ledger.term member + 1
  { ledger with
    term := Function.update ledger.term member term
    vote := Function.update ledger.vote member
      (Function.update (ledger.vote member) term (some member))
    candidateLog := Function.update ledger.candidateLog member
      (Function.update (ledger.candidateLog member) term
        (some (ledger.log member))) }

def elect (ledger : Ledger Member Entry) (member : Member)
    (voters : Finset Member) (entry : Entry) : Ledger Member Entry :=
  let term := ledger.term member
  { ledger with
    log := Function.update ledger.log member (ledger.log member ++ [entry])
    leader := Function.update ledger.leader term (some member)
    leaderLog := Function.update ledger.leaderLog term
      (ledger.log member ++ [entry])
    electors := Function.update ledger.electors term voters }

def append (ledger : Ledger Member Entry) (member : Member) (entry : Entry) :
    Ledger Member Entry :=
  let term := ledger.term member
  { ledger with
    log := Function.update ledger.log member (ledger.log member ++ [entry])
    leaderLog := Function.update ledger.leaderLog term
      (ledger.log member ++ [entry]) }

def follow (ledger : Ledger Member Entry) (member : Member) (count : Nat) :
    Ledger Member Entry :=
  { ledger with
    log := Function.update ledger.log member
      ((ledger.leaderLog (ledger.term member)).take count) }

end Ledger

variable {Member Entry : Type} [DecidableEq Member]

inductive Protocol.Move (protocol : Protocol Member Entry) (member : Member) :
    Ledger Member Entry → Ledger Member Entry → Prop
  | raiseTerm {ledger} {term : Nat} :
      ledger.term member ≤ term →
      Move protocol member ledger (ledger.raiseTerm member term)
  | castVote {ledger} {candidate : Member} {requested : List Entry} :
      ledger.vote member (ledger.term member) = none →
      ledger.candidateLog candidate (ledger.term member) = some requested →
      UpToDate protocol.termOf requested (ledger.log member) →
      Move protocol member ledger (ledger.castVote member candidate)
  | campaign {ledger} :
      Move protocol member ledger (ledger.campaign member)
  | elect {ledger} {voters : Finset Member} {entry : Entry} :
      ledger.leader (ledger.term member) = none →
      ledger.candidateLog member (ledger.term member) =
        some (ledger.log member) →
      protocol.Quorum voters →
      (∀ voter, voter ∈ voters →
        ledger.vote voter (ledger.term member) = some member) →
      protocol.termOf entry = ledger.term member →
      Move protocol member ledger (ledger.elect member voters entry)
  | append {ledger} {entry : Entry} :
      ledger.leader (ledger.term member) = some member →
      ledger.leaderLog (ledger.term member) = ledger.log member →
      protocol.termOf entry = ledger.term member →
      Move protocol member ledger (ledger.append member entry)
  -- A follower copies the Leader's log, and never gives up a position through
  -- which the two logs already agree.
  | follow {ledger} {count : Nat} :
      ledger.leader (ledger.term member) ≠ none →
      (∀ index, AgreeThrough (ledger.log member)
        (ledger.leaderLog (ledger.term member)) index → index ≤ count) →
      Move protocol member ledger (ledger.follow member count)

abbrev Protocol.Moves (protocol : Protocol Member Entry) (member : Member) :
    Ledger Member Entry → Ledger Member Entry → Prop :=
  Relation.ReflTransGen (protocol.Move member)

end Ternion.Consensus
