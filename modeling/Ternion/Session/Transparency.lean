import Ternion.Session.History

/-! # Retries and restarts

Two changes to a run of the machine that no later result shows: submitting a
mutation again after it took effect, and restoring the machine from its own
image.
-/

namespace Ternion.Session

open Raft

/-! ## What an entry leaves of a session -/

namespace Machine

variable {machine : Machine} {entry : LogEntry} {id : SessionID} {record : SessionRecord}

/-- A session's sequence does not fall, and a closed session stays closed. -/
theorem apply_known (entry : LogEntry) (found : machine.sessions[id]? = some record) :
    ∃ later, (machine.apply entry).1.sessions[id]? = some later ∧
      record.lastSequence ≤ later.lastSequence ∧
      (record.state = .permanentlyClosed → later.state = .permanentlyClosed) := by
  have change := machine.apply_changes entry
  generalize (machine.apply entry).1 = after at change ⊢
  generalize (machine.apply entry).2 = result at change
  cases change with
  | unchanged => exact ⟨record, found, Nat.le_refl _, fun closed => closed⟩
  | opened opens fresh =>
      simp only [Std.ExtTreeMap.getElem?_insert]
      split_ifs with same
      · rw [Std.LawfulEqCmp.eq_of_compare same, found] at fresh
        cases fresh
      · exact ⟨record, found, Nat.le_refl _, fun closed => closed⟩
  | closed closes known =>
      simp only [Std.ExtTreeMap.getElem?_insert]
      split_ifs with same
      · rw [Std.LawfulEqCmp.eq_of_compare same, found] at known
        exact ⟨_, rfl, (Option.some.inj known) ▸ Nat.le_refl _, fun _ => rfl⟩
      · exact ⟨record, found, Nat.le_refl _, fun closed => closed⟩
  | mutated effective known active next =>
      simp only [Std.ExtTreeMap.getElem?_insert]
      split_ifs with same
      · rw [Std.LawfulEqCmp.eq_of_compare same, found] at known
        rw [← Option.some.inj known] at active next
        refine ⟨_, rfl, ?_, fun closed => ?_⟩
        · rw [mutated, next]
          exact Nat.le_succ _
        · rw [active] at closed
          cases closed
      · exact ⟨record, found, Nat.le_refl _, fun closed => closed⟩

theorem apply_kept (found : machine.sessions[id]? = some record)
    (unmutated : (machine.applied entry).mutates id = false)
    (unclosed : ¬(machine.applied entry).Closes id) :
    (machine.apply entry).1.sessions[id]? = some record := by
  have change := machine.apply_changes entry
  have isResult : (machine.applied entry).result = (machine.apply entry).2 := rfl
  generalize (machine.apply entry).1 = after at change ⊢
  generalize (machine.apply entry).2 = result at change isResult
  cases change with
  | unchanged => exact found
  | opened opens fresh =>
      simp only [Std.ExtTreeMap.getElem?_insert]
      split_ifs with same
      · rw [Std.LawfulEqCmp.eq_of_compare same, found] at fresh
        cases fresh
      · exact found
  | closed closes known =>
      simp only [Std.ExtTreeMap.getElem?_insert]
      split_ifs with same
      · exact absurd ⟨closes, Std.LawfulEqCmp.eq_of_compare same, by rw [isResult]⟩ unclosed
      · exact found
  | mutated effective known active next =>
      simp only [Std.ExtTreeMap.getElem?_insert]
      split_ifs with same
      · have mutates : (machine.applied entry).mutates id = true := by
          simp [Applied.mutates, applied, effective, Std.LawfulEqCmp.eq_of_compare same]
        rw [unmutated] at mutates
        cases mutates
      · exact found

end Machine

/-! ## Retries -/

def Settled (machine : Machine) (id : SessionID) (sequence : Nat) : Prop :=
  ∃ record, machine.sessions[id]? = some record ∧ sequence ≤ record.lastSequence

/-- The entry asks for the same mutation, possibly with another content. -/
def Retries (entry original : LogEntry) : Prop :=
  (entry.type = .set ∨ entry.type = .delete) ∧ entry.sessionID = original.sessionID ∧
    entry.sequence = original.sequence

/-- An entry of a log, which may have been inserted as a retry. -/
structure Submitted where
  entry : LogEntry
  retry : Bool

/-- The log without the retries. -/
def original (log : List Submitted) : List Submitted :=
  log.filter fun submitted => !submitted.retry

namespace Machine

variable {machine : Machine}

/-- The results that a log's entries return. -/
def answers (machine : Machine) : List Submitted → List (Submitted × ProposalResult)
  | [] => []
  | submitted :: log =>
      (submitted, (machine.apply submitted.entry).2) ::
        (machine.apply submitted.entry).1.answers log

/-- The state that a log leads to. -/
def runs (machine : Machine) (log : List Submitted) : Machine :=
  machine.applyAll (log.map fun submitted => submitted.entry)

theorem Settled.apply {id : SessionID} {sequence : Nat} (settled : Settled machine id sequence)
    (entry : LogEntry) : Settled (machine.apply entry).1 id sequence := by
  rcases settled with ⟨record, found, reached⟩
  rcases apply_known entry found with ⟨later, foundLater, increased, _⟩
  exact ⟨later, foundLater, Nat.le_trans reached increased⟩

theorem Settled.ineffective {entry : LogEntry}
    (settled : Settled machine entry.sessionID entry.sequence) :
    machine.effective entry = false := by
  rcases settled with ⟨record, found, reached⟩
  have stale : (machine.evaluateMutation entry.sessionID entry.sequence).2 = false := by
    rw [← Bool.not_eq_true]
    intro applies
    rcases (evaluateMutation_next applies).1 with ⟨known, foundKnown, _, next⟩
    have same := Option.some.inj (found.symm.trans foundKnown)
    rw [next, same] at reached
    exact Nat.not_succ_le_self _ reached
  rw [effective, stale, Bool.and_false]

theorem apply_ineffective {entry : LogEntry}
    (isMutation : entry.type = .set ∨ entry.type = .delete)
    (ineffective : machine.effective entry = false) : (machine.apply entry).1 = machine := by
  have change := machine.apply_changes entry
  generalize (machine.apply entry).1 = after at change ⊢
  generalize (machine.apply entry).2 = result at change
  cases change with
  | unchanged => rfl
  | opened opens => simp [opens] at isMutation
  | closed closes => simp [closes] at isMutation
  | mutated effective =>
      rw [ineffective] at effective
      cases effective

theorem Settled.runs_original {entry : LogEntry} {log : List Submitted}
    (settled : Settled machine entry.sessionID entry.sequence)
    (retries : ∀ submitted ∈ log, submitted.retry = true → Retries submitted.entry entry) :
    machine.runs log = machine.runs (original log) ∧
      (machine.answers log).filter (fun answer => !answer.1.retry) =
        machine.answers (original log) := by
  induction log generalizing machine with
  | nil => exact ⟨rfl, rfl⟩
  | cons submitted log induction =>
      have rest := induction (Settled.apply settled submitted.entry)
        fun later present => retries later (List.mem_cons_of_mem _ present)
      cases isRetry : submitted.retry with
      | false =>
          rw [original, List.filter_cons_of_pos (by simp [isRetry]), answers,
            List.filter_cons_of_pos (by simp [isRetry])]
          exact ⟨rest.1, congrArg _ rest.2⟩
      | true =>
          rcases retries submitted List.mem_cons_self isRetry with ⟨isMutation, session, sequence⟩
          have same : (machine.apply submitted.entry).1 = machine := by
            apply apply_ineffective isMutation
            apply Settled.ineffective
            rw [session, sequence]
            exact settled
          rw [same] at rest
          rw [original, List.filter_cons_of_neg (by simp [isRetry]), answers,
            List.filter_cons_of_neg (by simp [isRetry]), same]
          refine ⟨Eq.trans ?_ rest.1, rest.2⟩
          exact congrArg (applyAll · _) same

def Cached (machine : Machine) (entry : LogEntry) (result : ProposalResult) : Prop :=
  ∃ record, machine.sessions[entry.sessionID]? = some record ∧ record.state = .active ∧
    record.lastSequence = entry.sequence ∧ entry.sequence ≠ 0 ∧
    record.lastMutationResult = result.failure ∧ record.lastDeleteExisted = result.existed

theorem Cached.of_effective {entry : LogEntry} (effective : machine.effective entry = true) :
    Cached (machine.apply entry).1 entry (machine.apply entry).2 := by
  have change := machine.apply_changes entry
  generalize (machine.apply entry).1 = after at change ⊢
  generalize (machine.apply entry).2 = result at change ⊢
  have isMutation := machine.type_of_effective effective
  cases change with
  | unchanged ineffective =>
      rw [ineffective] at effective
      cases effective
  | opened opens => simp [opens] at isMutation
  | closed closes => simp [closes] at isMutation
  | mutated _ found active next =>
      refine ⟨_, Std.ExtTreeMap.getElem?_insert_self, active, rfl, ?_, rfl, rfl⟩
      rw [next]
      exact Nat.succ_ne_zero _

section

variable {entry : LogEntry} {result : ProposalResult} (cached : Cached machine entry result)

include cached

theorem Cached.settled :
    Settled machine entry.sessionID entry.sequence := by
  rcases cached with ⟨record, found, _, last, _⟩
  exact ⟨record, found, Nat.le_of_eq last.symm⟩

theorem Cached.runs {log : List Submitted}
    (unmutated : ∀ applied ∈ machine.history (log.map fun submitted => submitted.entry),
      applied.mutates entry.sessionID = false ∧ ¬applied.Closes entry.sessionID) :
    Cached (machine.runs log) entry result := by
  induction log generalizing machine with
  | nil => exact cached
  | cons submitted log induction =>
      rw [List.map_cons, history, List.forall_mem_cons] at unmutated
      rcases cached with ⟨record, found, rest⟩
      apply induction _ unmutated.2
      exact ⟨record, apply_kept found unmutated.1.1 unmutated.1.2, rest⟩

end

theorem Cached.answers {entry retry : LogEntry} {result : ProposalResult}
    (cached : Cached machine entry result) (retries : Retries retry entry) :
    (machine.apply retry).2.failure = result.failure ∧
      (machine.apply retry).2.existed = result.existed := by
  have ineffective : machine.effective retry = false := by
    apply Settled.ineffective
    rw [retries.2.1, retries.2.2]
    exact cached.settled
  rcases cached with ⟨record, found, active, last, positive, failure, existed⟩
  have evaluated : (machine.evaluateMutation retry.sessionID retry.sequence).1 =
      { sessionID := retry.sessionID, sequence := retry.sequence
        failure := result.failure, existed := result.existed } := by
    simp only [evaluateMutation, retries.2.1, retries.2.2, found, active, reduceCtorEq, if_false,
      last, positive, ne_eq, not_false_eq_true, and_self, if_true, failure, existed]
  rcases retries.1 with isSet | isDelete
  · rw [machine.effective_of_set isSet] at ineffective
    simp only [apply, isSet, applySet, ineffective, Bool.false_eq_true, not_false_eq_true, if_true,
      evaluated, and_self]
  · rw [machine.effective_of_delete isDelete] at ineffective
    simp only [apply, isDelete, applyDelete, ineffective, Bool.false_eq_true, not_false_eq_true,
      if_true, evaluated, and_self]

theorem answers_append (machine : Machine) (log more : List Submitted) :
    machine.answers (log ++ more) = machine.answers log ++ (machine.runs log).answers more := by
  induction log generalizing machine with
  | nil => rfl
  | cons submitted log induction => exact congrArg (_ :: ·) (induction _)

theorem runs_append (machine : Machine) (log more : List Submitted) :
    machine.runs (log ++ more) = (machine.runs log).runs more := by
  rw [runs, List.map_append, applyAll_append]
  rfl

theorem answers_retry (machine : Machine) {log : List Submitted}
    (originals : ∀ submitted ∈ log, submitted.retry = false) :
    ∀ answer ∈ machine.answers log, answer.1.retry = false := by
  induction log generalizing machine with
  | nil => exact List.forall_mem_nil _
  | cons submitted log induction =>
      rw [List.forall_mem_cons] at originals
      exact List.forall_mem_cons.mpr ⟨originals.1, induction _ originals.2⟩

end Machine

/-- Retries are invisible: entries inserted after an effective mutation, for
the same session and sequence, change neither the final state nor the result
of any original entry. Until the session's next mutation and its close they
return what the mutation returned. -/
theorem retries_invisible (limit : Nat) (earlier later : List Submitted) (entry : LogEntry)
    (originals : ∀ submitted ∈ earlier, submitted.retry = false)
    (effective :
      ((({ limit := limit } : Machine).runs earlier).effective entry) = true)
    (retries : ∀ submitted ∈ later, submitted.retry = true → Retries submitted.entry entry) :
    let machine : Machine := { limit := limit }
    let log := earlier ++ ⟨entry, false⟩ :: later
    machine.runs log = machine.runs (original log) ∧
    (machine.answers log).filter (fun answer => !answer.1.retry) =
      machine.answers (original log) ∧
    ∀ between submitted after, later = between ++ submitted :: after → submitted.retry = true →
      (∀ applied ∈ (machine.runs (earlier ++ [⟨entry, false⟩])).history
          (between.map fun submitted => submitted.entry),
        applied.mutates entry.sessionID = false ∧ ¬applied.Closes entry.sessionID) →
      let repeated := (machine.runs (earlier ++ ⟨entry, false⟩ :: between)).apply submitted.entry
      let result := ((machine.runs earlier).apply entry).2
      repeated.2.failure = result.failure ∧ repeated.2.existed = result.existed := by
  intro machine log
  have cached := Machine.Cached.of_effective effective
  have applied : machine.runs (earlier ++ [⟨entry, false⟩]) =
      ((machine.runs earlier).apply entry).1 := machine.runs_append _ _
  have kept : original earlier = earlier := by
    apply List.filter_eq_self.mpr
    intro submitted present
    rw [originals submitted present]
    rfl
  have rest := Machine.Settled.runs_original cached.settled retries
  have split : original log = earlier ++ ⟨entry, false⟩ :: original later := by
    rw [original, List.filter_append]
    exact congrArg (· ++ _) kept
  refine ⟨?_, ?_, ?_⟩
  · rw [split, machine.runs_append, machine.runs_append]
    exact rest.1
  · rw [split, machine.answers_append, machine.answers_append, List.filter_append,
      List.filter_eq_self.mpr fun answer present => by
        rw [machine.answers_retry originals answer present]
        rfl]
    exact congrArg (_ ++ _ :: ·) rest.2
  · intro between submitted after isLater isRetry unmutated repeated result
    rw [applied] at unmutated
    apply Machine.Cached.answers _ (retries submitted _ isRetry)
    · rw [machine.runs_append]
      exact cached.runs unmutated
    · rw [isLater]
      exact List.mem_append_right _ List.mem_cons_self

/-- A deletion that reuses the sequence of the write before it. -/
theorem retries_invisible_deletion :
    let machine : Machine := { limit := 1 }
    let opening : LogEntry := { index := 1, term := 1, type := .openSession }
    let entry : LogEntry :=
      { index := 2, term := 1, type := .set, sequence := 1, key := "a", value := [7] }
    let retry : LogEntry := { index := 3, term := 1, type := .delete, sequence := 1, key := "a" }
    machine.runs [⟨opening, false⟩, ⟨entry, false⟩, ⟨retry, true⟩] =
      machine.runs [⟨opening, false⟩, ⟨entry, false⟩] :=
  (retries_invisible 1 [⟨{ index := 1, term := 1, type := .openSession }, false⟩]
    [⟨{ index := 3, term := 1, type := .delete, sequence := 1, key := "a" }, true⟩]
    { index := 2, term := 1, type := .set, sequence := 1, key := "a", value := [7] }
    (by decide) (by decide +kernel) (by
      intro submitted present _
      rw [List.mem_singleton.mp present]
      exact ⟨.inr rfl, rfl, rfl⟩)).1

/-! ## Restarts -/

/-- A turn of the machine: it applies an entry, or it is replaced by what a
new machine restores from its image. -/
inductive Turn where
  | apply (entry : LogEntry)
  | restart (identity : Snapshot.Identity) (includedIndex includedTerm : Nat)

/-- The entries that a list of turns applies. -/
def entriesOf : List Turn → List LogEntry
  | [] => []
  | .apply entry :: turns => entry :: entriesOf turns
  | .restart _ _ _ :: turns => entriesOf turns

namespace Machine

/-- The results that a list of entries returns. -/
def results (machine : Machine) (entries : List LogEntry) : List ProposalResult :=
  (machine.history entries).map fun applied => applied.result

/-- The final state and the results of a list of turns. -/
def takes (machine : Machine) : List Turn → Except RestoreError (Machine × List ProposalResult)
  | [] => .ok (machine, [])
  | .apply entry :: turns => do
      let (final, results) ← (machine.apply entry).1.takes turns
      return (final, (machine.apply entry).2 :: results)
  | .restart identity includedIndex includedTerm :: turns => do
      let restored ← ({ limit := machine.limit } : Machine).restore
        (some (machine.snapshot identity includedIndex includedTerm))
      restored.takes turns

theorem takes_eq {machine : Machine} (counted : machine.Counted) (turns : List Turn) :
    machine.takes turns =
      .ok (machine.applyAll (entriesOf turns), machine.results (entriesOf turns)) := by
  induction turns generalizing machine with
  | nil => rfl
  | cons turn turns induction =>
      cases turn with
      | apply entry =>
          rw [takes, induction (apply_counted counted entry)]
          rfl
      | restart identity includedIndex includedTerm =>
          have restored : ({ limit := machine.limit } : Machine).restore
              (some (machine.snapshot identity includedIndex includedTerm)) = .ok machine :=
            restore_snapshot counted rfl identity includedIndex includedTerm
          rw [takes, restored]
          exact induction counted

end Machine

/-- Restarts are transparent: replacing the machine by its restored image, at
any points of a run, never fails and changes neither the results nor the final
state, in which the active sessions are counted and within the limit. -/
theorem restarts_transparent (limit : Nat) (turns : List Turn) :
    let machine : Machine := { limit := limit }
    let final := machine.applyAll (entriesOf turns)
    machine.takes turns = .ok (final, machine.results (entriesOf turns)) ∧
      final.active = Maps.count (fun record => decide (record.state = .active)) final.sessions ∧
      final.active ≤ limit := by
  intro machine final
  have counted := Machine.applyAll_counted (Machine.new_counted limit) (entriesOf turns)
  have limited := counted.limited
  rw [Machine.applyAll_limit] at limited
  exact ⟨Machine.takes_eq (Machine.new_counted limit) turns, counted.active, limited⟩

end Ternion.Session
