import Ternion.Consensus.Probing
import Ternion.Raft.Matching

/-! # Conflict hints

The hint of a rejection is true of the two logs it compares, and the position a
Leader derives from it is either the end of its log or one after which the logs
part.
-/

namespace Ternion.Raft

open Consensus

theorem termAt_iff {log : List LogEntry} {index term : Nat} :
    TermAt LogEntry.term log index term ↔
      0 < index ∧ index ≤ log.length ∧ entryTerm log index = term := by
  constructor
  · intro here
    have within := here.le_length
    rcases here with ⟨positive, entry, found, isTerm⟩
    exact ⟨positive, within, (entryTerm_found positive found).trans isTerm⟩
  · rintro ⟨positive, within, isTerm⟩
    have found := List.getElem?_eq_getElem (show index - 1 < log.length by omega)
    exact ⟨positive, _, found, (entryTerm_found positive found).symm.trans isTerm⟩

namespace Node

theorem firstOfTerm_spec (node : Node) (term : Nat) {index : Nat} (positive : 0 < index)
    (here : node.termAt index = term) :
    0 < node.firstOfTerm term index ∧ node.firstOfTerm term index ≤ index ∧
      node.termAt (node.firstOfTerm term index) = term := by
  induction index with
  | zero => omega
  | succ first induction =>
      rw [firstOfTerm]
      split_ifs with earlier
      · have found := induction (by omega) earlier.2
        exact ⟨found.1, found.2.1.trans (Nat.le_succ first), found.2.2⟩
      · exact ⟨positive, le_rfl, here⟩

theorem lastOfTerm_some {node : Node} {term bound index : Nat}
    (found : node.lastOfTerm term bound = some index) :
    0 < index ∧ index ≤ bound ∧ node.termAt index = term ∧
      ∀ later, index < later → later ≤ bound → node.termAt later ≠ term := by
  induction bound with
  | zero => cases found
  | succ bound induction =>
      rw [lastOfTerm] at found
      split_ifs at found with here
      · cases found
        exact ⟨Nat.succ_pos bound, le_rfl, here, fun later above below => by omega⟩
      · rcases induction found with ⟨positive, within, isTerm, final⟩
        refine ⟨positive, within.trans (Nat.le_succ bound), isTerm, fun later above below => ?_⟩
        rcases Nat.eq_or_lt_of_le below with rfl | earlier
        · exact here
        · exact final later above (by omega)

theorem lastOfTerm_none {node : Node} {term bound : Nat}
    (missing : node.lastOfTerm term bound = none) {index : Nat} (positive : 0 < index)
    (within : index ≤ bound) : node.termAt index ≠ term := by
  induction bound with
  | zero => omega
  | succ bound induction =>
      rw [lastOfTerm] at missing
      split_ifs at missing with here
      rcases Nat.eq_or_lt_of_le within with rfl | earlier
      · exact here
      · exact induction missing (by omega)

theorem nextIndexFromConflict_congr {left right : Node}
    (last : left.lastLogIndex = right.lastLogIndex)
    (terms : ∀ index, left.termAt index = right.termAt index) (response : AppendEntriesResponse) :
    left.nextIndexFromConflict response = right.nextIndexFromConflict response := by
  have sameLast : ∀ term bound, left.lastOfTerm term bound = right.lastOfTerm term bound := by
    intro term bound
    induction bound with
    | zero => rfl
    | succ bound induction => simp only [lastOfTerm, terms, induction]
  simp only [nextIndexFromConflict, last, sameLast]

theorem taken_le_batchLength (bytes taken : Nat) (entries : List LogEntry) :
    taken ≤ batchLength bytes taken entries := by
  induction entries generalizing bytes taken with
  | nil => exact le_rfl
  | cons entry rest induction =>
      rw [batchLength]
      split_ifs
      · exact le_rfl
      · exact (Nat.le_succ taken).trans (induction _ _)

theorem batch_ne_nil (entry : LogEntry) (rest : List LogEntry) :
    (entry :: rest).take (batchLength 0 0 (entry :: rest)) ≠ [] := by
  simp only [batchLength, Nat.lt_irrefl, and_false, if_false]
  intro isEmpty
  have none_ := congrArg List.length isEmpty
  simp only [List.length_take, List.length_cons, List.length_nil] at none_
  have := taken_le_batchLength (0 + entryBytes entry) (0 + 1) rest
  omega

namespace Whole

variable {node : Node}

theorem conflictHint (whole : node.Whole) {leaderLog : List LogEntry} {prev : Nat}
    (within : prev ≤ leaderLog.length)
    (positiveTerms : ∀ entry ∈ node.log, 0 < entry.term)
    (unmatched : ¬node.matchesAt prev (entryTerm leaderLog prev)) :
    Conflict LogEntry.term (node.conflictHint prev).1 (node.conflictHint prev).2 node.log
      leaderLog := by
  simp only [Node.matchesAt, whole.termAt, whole.lastIndex, decide_eq_true_eq, not_or,
    not_and] at unmatched
  have positive : 0 < prev := by
    rcases Nat.eq_zero_or_pos prev with rfl | positive
    · exact absurd rfl (unmatched.1 rfl)
    · exact positive
  rw [Node.conflictHint, whole.lastIndex]
  by_cases beyond : node.log.length < prev
  · rw [if_pos (.inr beyond)]
    refine ⟨Nat.succ_pos _, ?_, fun _ agree => ?_, fun known => absurd rfl known⟩
    · exact Nat.le_trans beyond within
    · have := agree.1
      omega
  · rw [if_neg (by omega)]
    have inside : prev ≤ node.log.length := not_lt.mp beyond
    have found := List.getElem?_eq_getElem (show prev - 1 < node.log.length by omega)
    have isTerm : node.termAt prev = (node.log[prev - 1]).term :=
      (whole.termAt prev).trans (entryTerm_found positive found)
    have nonzero : 0 < node.termAt prev := by
      rw [isTerm]
      exact positiveTerms _ (List.getElem_mem _)
    rcases node.firstOfTerm_spec _ positive rfl with ⟨firstPositive, firstLe, firstTerm⟩
    refine ⟨firstPositive, firstLe.trans within, fun unknown => ?_, fun _ =>
      ⟨?_, prev, within, ?_, ?_⟩⟩
    · simp only at unknown
      omega
    · exact termAt_iff.mpr ⟨firstPositive, firstLe.trans inside,
        (whole.termAt _).symm.trans firstTerm⟩
    · exact termAt_iff.mpr ⟨positive, inside, (whole.termAt prev).symm⟩
    · intro there
      refine unmatched.2 inside ?_
      exact ((termAt_iff.mp there).2.2.trans (whole.termAt prev)).symm

/-- Where a Leader continues after a hint: at the end of its log, at the hinted
position when it holds no entry of the hinted Term, or after its last entry of
that Term. -/
theorem nextIndexFromConflict (whole : node.Whole) {response : AppendEntriesResponse}
    (positive : 0 < response.conflictIndex)
    (within : response.conflictIndex ≤ node.log.length) :
    node.nextIndexFromConflict response = node.log.length + 1 ∨
      (node.nextIndexFromConflict response = response.conflictIndex ∧
        (response.conflictTerm ≠ 0 →
          ∀ index, ¬TermAt LogEntry.term node.log index response.conflictTerm)) ∨
      ∃ last, node.nextIndexFromConflict response = last + 1 ∧ last < node.log.length ∧
        response.conflictTerm ≠ 0 ∧ TermAt LogEntry.term node.log last response.conflictTerm ∧
        ¬TermAt LogEntry.term node.log (last + 1) response.conflictTerm := by
  have lastIndex := whole.lastIndex
  have hinted : min (if response.conflictIndex = 0 then 1 else response.conflictIndex)
      (node.lastLogIndex + 1) = response.conflictIndex := by
    rw [if_neg (by omega)]
    omega
  simp only [Node.nextIndexFromConflict]
  by_cases known : response.conflictTerm ≠ 0
  · rw [if_pos known]
    cases found : node.lastOfTerm response.conflictTerm node.lastLogIndex with
    | none =>
        refine .inr (.inl ⟨hinted, fun _ index here => ?_⟩)
        rcases termAt_iff.mp here with ⟨later, inside, isTerm⟩
        exact lastOfTerm_none found later (lastIndex ▸ inside) ((whole.termAt index).trans isTerm)
    | some last =>
        rcases lastOfTerm_some found with ⟨lastPositive, lastWithin, isTerm, final⟩
        simp only [Nat.succ_ne_zero, if_false]
        rcases Nat.eq_or_lt_of_le lastWithin with atEnd | inside
        · left
          omega
        · refine .inr (.inr ⟨last, by omega, by omega, known, ?_, fun there => ?_⟩)
          · exact termAt_iff.mpr ⟨lastPositive, by omega, (whole.termAt last).symm.trans isTerm⟩
          · exact final (last + 1) (Nat.lt_succ_self last) inside
              ((whole.termAt (last + 1)).trans (termAt_iff.mp there).2.2)
  · rw [if_neg known]
    exact .inr (.inl ⟨hinted, fun isKnown => absurd isKnown known⟩)

theorem entriesBatch_ne_nil (whole : node.Whole) {first last : Nat} (positive : 0 < first)
    (ordered : first ≤ last) (within : last ≤ node.lastLogIndex) :
    node.entriesBatch first last ≠ [] := by
  have lastIndex := whole.lastIndex
  rw [Node.entriesBatch, whole.base, if_neg (by omega), if_neg (by omega)]
  simp only [Nat.sub_zero]
  have inside : first - 1 < node.log.length := by omega
  rw [List.drop_eq_getElem_cons inside, List.take_succ_cons]
  exact batch_ne_nil _ _

end Whole

end Node

end Ternion.Raft
