import Ternion.Foundation.Fallible
import Ternion.Foundation.Maps
import Ternion.Session.Machine

/-! # Captured state

An image of the state that committed entries lead to is valid, and restores
exactly this state.
-/

namespace Ternion.Session

open Raft

/-! ## The active sessions are counted -/

/-- The machine counts its active sessions, and admits no more than its limit. -/
structure Machine.Counted (machine : Machine) : Prop where
  active : machine.active =
    Maps.count (fun record : SessionRecord => decide (record.state = .active)) machine.sessions
  limited : machine.active ≤ machine.limit

namespace Machine

variable {machine : Machine}

theorem evaluateMutation_applies {sessionID : SessionID} {sequence : Nat}
    (applies : (machine.evaluateMutation sessionID sequence).2 = true) :
    ∃ record, machine.sessions[sessionID]? = some record ∧ record.state = .active := by
  rw [evaluateMutation] at applies
  cases found : machine.sessions[sessionID]? with
  | none =>
      rw [found] at applies
      cases applies
  | some record =>
      cases state : record.state with
      | active => exact ⟨record, rfl, state⟩
      | permanentlyClosed =>
          simp only [found, state, if_true] at applies
          cases applies

theorem recordMutation_counted (counted : machine.Counted) {entry : LogEntry}
    {record : SessionRecord} (found : machine.sessions[entry.sessionID]? = some record)
    (active : record.state = .active) (failure : Failure) (existed : Bool) :
    (machine.recordMutation entry failure existed).Counted where
  active := by
    rw [recordMutation, Maps.count_insert]
    simp only [found, Option.getD_some, active, decide_true, if_true, Option.any_some]
    exact counted.active
  limited := counted.limited

section

variable (counted : machine.Counted) (entry : LogEntry)

include counted entry

theorem applyOpen_counted : (machine.applyOpen entry).1.Counted := by
  rw [applyOpen]
  split_ifs with exists_ full
  · exact counted
  · exact counted
  · constructor
    · have none_ : machine.sessions[entry.sessionID]? = none := by simpa using exists_
      simp only [Maps.count_insert, none_, Option.any_none, Bool.false_eq_true, if_false,
        decide_true, if_true]
      exact congrArg (· + 1) counted.active
    · exact Nat.lt_of_not_le full

theorem applyClose_counted : (machine.applyClose entry).1.Counted := by
  rw [applyClose]
  cases found : machine.sessions[entry.sessionID]? with
  | none => exact counted
  | some record =>
      simp only
      split_ifs with closed
      · exact counted
      · have active : record.state = .active := by
          cases state : record.state with
          | active => rfl
          | permanentlyClosed => exact absurd state closed
        constructor
        · simp only [Maps.count_insert, found, Option.any_some, active, decide_true, if_true]
          exact congrArg (· - 1) counted.active
        · exact Nat.le_trans (Nat.sub_le ..) counted.limited

theorem apply_counted : (machine.apply entry).1.Counted := by
  rw [apply]
  cases entry.type with
  | noOp => exact counted
  | openSession => exact applyOpen_counted counted entry
  | closeSession => exact applyClose_counted counted entry
  | set =>
      simp only [applySet]
      split_ifs with applies
      · rcases evaluateMutation_applies applies with ⟨record, found, active⟩
        have valued : { machine with
          values := machine.values.insert entry.key entry.value }.Counted :=
            ⟨counted.active, counted.limited⟩
        exact recordMutation_counted valued found active _ _
      · exact counted
  | delete =>
      simp only [applyDelete]
      split_ifs with applies
      · rcases evaluateMutation_applies applies with ⟨record, found, active⟩
        have valued : { machine with values := machine.values.erase entry.key }.Counted :=
          ⟨counted.active, counted.limited⟩
        exact recordMutation_counted valued found active _ _
      · exact counted

end

theorem new_counted (limit : Nat) : ({ limit := limit } : Machine).Counted where
  active := (Maps.count_empty _).symm
  limited := Nat.zero_le limit

theorem applyAll_counted (counted : machine.Counted) (entries : List LogEntry) :
    (machine.applyAll entries).Counted := by
  induction entries generalizing machine with
  | nil => exact counted
  | cons entry entries induction => exact induction (apply_counted counted entry)

theorem applyAll_append (machine : Machine) (entries more : List LogEntry) :
    machine.applyAll (entries ++ more) = (machine.applyAll entries).applyAll more :=
  List.foldl_append ..

theorem apply_limit (machine : Machine) (entry : LogEntry) :
    (machine.apply entry).1.limit = machine.limit := by
  rw [apply]
  cases entry.type with
  | noOp => rfl
  | openSession =>
      simp only [applyOpen]
      split_ifs <;> rfl
  | closeSession =>
      simp only [applyClose]
      cases machine.sessions[entry.sessionID]? with
      | none => rfl
      | some record =>
          simp only
          split_ifs <;> rfl
  | set =>
      simp only [applySet]
      split_ifs <;> rfl
  | delete =>
      simp only [applyDelete]
      split_ifs <;> rfl

theorem applyAll_limit (machine : Machine) (entries : List LogEntry) :
    (machine.applyAll entries).limit = machine.limit := by
  induction entries generalizing machine with
  | nil => rfl
  | cons entry entries induction => exact (induction _).trans (apply_limit machine entry)

/-! ## Restoring an image -/

theorem restoreSession_saved (machine : Machine) (id : SessionID) (record : SessionRecord) :
    machine.restoreSession (savedSession id record) = .ok { machine with
      active := machine.active + if record.state = .active then 1 else 0
      sessions := machine.sessions.insert id record } := by
  rw [restoreSession, savedSession]
  simp only [Failure.ofCode_code]
  rcases record with ⟨state, lastSequence, lastMutationResult, lastDeleteExisted⟩
  cases state with
  | active => rfl
  | permanentlyClosed => rfl

theorem foldlM_restoreSession (machine : Machine) (saved : List (SessionID × SessionRecord)) :
    (saved.map fun session => savedSession session.1 session.2).foldlM restoreSession machine =
      .ok { machine with
        active := machine.active +
          (saved.filter fun session => decide (session.2.state = .active)).length
        sessions := saved.foldl (fun built session => built.insert session.1 session.2)
          machine.sessions } := by
  induction saved generalizing machine with
  | nil => rfl
  | cons session saved induction =>
      rw [List.map_cons, List.foldlM_cons, restoreSession_saved]
      refine (induction _).trans ?_
      congr 2
      by_cases active : session.2.state = .active
      · rw [if_pos active, List.filter_cons_of_pos (by simpa using active), List.length_cons]
        dsimp only
        omega
      · rw [if_neg active, List.filter_cons_of_neg (by simpa using active)]
        rfl

theorem restore_snapshot (counted : machine.Counted) {other : Machine}
    (sameLimit : other.limit = machine.limit) (identity : Snapshot.Identity)
    (includedIndex includedTerm : Nat) :
    other.restore (some (machine.snapshot identity includedIndex includedTerm)) = .ok machine := by
  have restored := foldlM_restoreSession
    { other with active := 0, sessions := ∅, values := machine.values } machine.sessions.toList
  have active := counted.active
  rw [Maps.count_eq] at active
  rw [Maps.foldl_insert_toList, Nat.zero_add, ← active] at restored
  have same : { other with
      active := machine.active
      sessions := machine.sessions
      values := machine.values } = machine := by
    rw [sameLimit]
  rw [same] at restored
  rw [restore]
  apply Fallible.bind_eq_ok.mpr
  refine ⟨machine, restored, ?_⟩
  rw [if_neg (Nat.not_lt.mpr counted.limited)]
  rfl

theorem validateSessions_captured (seen : List SessionID)
    (saved : List (SessionID × SessionRecord))
    (distinct : saved.Pairwise fun first second => first.1 ≠ second.1)
    (fresh : ∀ session ∈ saved, session.1 ∉ seen) :
    Snapshot.validateSessions seen
      (saved.map fun session => savedSession session.1 session.2) = .ok () := by
  induction saved generalizing seen with
  | nil => rfl
  | cons session saved induction =>
      rcases List.pairwise_cons.mp distinct with ⟨apart, rest⟩
      have unseen : (savedSession session.1 session.2).id ∉ seen :=
        fresh session List.mem_cons_self
      rw [List.map_cons, Snapshot.validateSessions, if_neg unseen]
      apply induction _ rest
      intro other present seenToo
      rcases List.mem_cons.mp seenToo with same | earlier
      · exact apart other present same.symm
      · exact fresh other (List.mem_cons_of_mem _ present) earlier

def ValidIdentity (identity : Snapshot.Identity) : Prop :=
  Snapshot.blank identity.clusterID = false ∧ Snapshot.blank identity.nodeID = false ∧
    identity.memberIDs.length = 3 ∧ Snapshot.validateMembers none identity.memberIDs = .ok () ∧
    identity.nodeID ∈ identity.memberIDs

theorem validateState_snapshot (machine : Machine) {identity : Snapshot.Identity}
    (valid : ValidIdentity identity) {includedIndex includedTerm : Nat}
    (position : includedIndex = 0 ↔ includedTerm = 0) :
    Snapshot.validateState (machine.snapshot identity includedIndex includedTerm) = .ok () := by
  rcases valid with ⟨clusterID, nodeID, count, members, member⟩
  have apart : machine.sessions.toList.Pairwise fun first second => first.1 ≠ second.1 :=
    Std.ExtTreeMap.distinct_keys_toList.imp fun differ same => differ (by
      rw [same]
      exact Std.ReflCmp.compare_self)
  have sessions := validateSessions_captured [] machine.sessions.toList apart
    fun _ _ => List.not_mem_nil
  rw [Snapshot.validateState, if_neg (by simp [snapshot, clusterID, nodeID]),
    if_neg (by simpa [snapshot] using count)]
  apply Fallible.bind_eq_ok.mpr
  refine ⟨(), members, ?_⟩
  simp only [snapshot, member, position, not_true_eq_false, if_false]
  exact sessions

end Machine

end Ternion.Session
