import Ternion.Foundation.Consecutive
import Ternion.Raft.Step

/-! # Batches that a Leader sends

A batch starts at a requested entry and takes as many of the following ones as
its limit allows. The first entry is taken whatever its size, so that replication
never stalls.
-/

namespace Ternion.Raft

/-- The longest key and the longest value that a Node takes from a Client. -/
def maxKeyBytes : Nat := 1024

def maxValueBytes : Nat := 2 ^ 20

namespace Node

/-- What a batch counts for. -/
def batchBytes (entries : List LogEntry) : Nat :=
  (entries.map entryBytes).sum

theorem batchBytes_append (entries : List LogEntry) (next : LogEntry) :
    batchBytes (entries ++ [next]) = batchBytes entries + entryBytes next := by
  simp [batchBytes]

/-! ## The scan -/

/-- A batch that has some bytes already takes `count` of the remaining entries:
as many as the limit allows, and none if the limit is exceeded already. -/
structure Fills (bytes : Nat) (entries : List LogEntry) (count : Nat) : Prop where
  within : count ≤ entries.length
  fits : bytes ≤ maxAppendEntriesBytes →
    bytes + batchBytes (entries.take count) ≤ maxAppendEntriesBytes
  alone : maxAppendEntriesBytes < bytes → count = 0
  maximal : count < entries.length →
    maxAppendEntriesBytes < bytes + batchBytes (entries.take (count + 1))

theorem Fills.none {bytes : Nat} {entries : List LogEntry}
    (full : ∀ entry rest, entries = entry :: rest →
      maxAppendEntriesBytes < bytes + entryBytes entry) : Fills bytes entries 0 where
  within := Nat.zero_le _
  fits := fun fitting => fitting
  alone := fun _ => rfl
  maximal := by
    intro more
    cases entries with
    | nil => cases more
    | cons entry rest => exact full entry rest rfl

theorem Fills.next {bytes count : Nat} {entry : LogEntry} {rest : List LogEntry}
    (fitting : bytes + entryBytes entry ≤ maxAppendEntriesBytes)
    (fills : Fills (bytes + entryBytes entry) rest count) :
    Fills bytes (entry :: rest) (count + 1) where
  within := Nat.succ_le_succ fills.within
  fits := by
    intro _
    have total := fills.fits fitting
    rw [Nat.add_assoc] at total
    exact total
  alone := by
    intro exceeded
    omega
  maximal := by
    intro more
    have total := fills.maximal (Nat.lt_of_succ_lt_succ more)
    rw [Nat.add_assoc] at total
    exact total

theorem batchLength_fills {taken : Nat} (begun : 0 < taken) (bytes : Nat)
    (entries : List LogEntry) :
    ∃ count, batchLength bytes taken entries = taken + count ∧ Fills bytes entries count := by
  induction entries generalizing bytes taken with
  | nil => exact ⟨0, rfl, .none nofun⟩
  | cons entry rest induction =>
      rw [batchLength]
      split_ifs with exceeds
      · refine ⟨0, rfl, .none ?_⟩
        rintro _ _ ⟨⟩
        exact exceeds.1
      · rcases induction (Nat.succ_pos taken) (bytes + entryBytes entry) with
          ⟨count, isLength, fills⟩
        have fitting : bytes + entryBytes entry ≤ maxAppendEntriesBytes := by omega
        exact ⟨count + 1, by rw [isLength]; omega, fills.next fitting⟩

theorem batchLength_first (entry : LogEntry) (rest : List LogEntry) :
    ∃ count, batchLength 0 0 (entry :: rest) = count + 1 ∧ Fills (entryBytes entry) rest count := by
  rcases batchLength_fills Nat.one_pos (entryBytes entry) rest with ⟨count, isLength, fills⟩
  refine ⟨count, ?_, fills⟩
  rw [batchLength, if_neg (by simp), Nat.zero_add, isLength, Nat.add_comm]

/-! ## The batch -/

variable {node : Node} {first last : Nat}

theorem entriesBatch_fills (isLast : node.lastLogIndex = node.logBaseIndex + node.log.length)
    (above : node.logBaseIndex < first) (ordered : first ≤ last)
    (within : last ≤ node.lastLogIndex) :
    ∃ entry rest count, rest.length = last - first ∧ Fills (entryBytes entry) rest count ∧
      entry :: rest =
        (node.log.drop (first - node.logBaseIndex - 1)).take (last - first + 1) ∧
      node.entriesBatch first last = (entry :: rest).take (count + 1) := by
  have inside : first - node.logBaseIndex - 1 < node.log.length := by omega
  have range := List.drop_eq_getElem_cons inside
  rcases batchLength_first (node.log[first - node.logBaseIndex - 1])
    ((node.log.drop (first - node.logBaseIndex - 1 + 1)).take (last - first)) with
    ⟨count, isLength, fills⟩
  refine ⟨_, _, count, ?_, fills, ?_, ?_⟩
  · rw [List.length_take, List.length_drop]
    omega
  · rw [range, List.take_succ_cons]
  · rw [entriesBatch, if_neg (by omega), if_neg (by omega)]
    dsimp only
    rw [range, List.take_succ_cons, isLength]

section

variable (consecutive : Consecutive LogEntry.index node.logBaseIndex node.log)
  (above : node.logBaseIndex < first)

include consecutive above

theorem range_consecutive (within : first ≤ node.logBaseIndex + node.log.length) :
    Consecutive LogEntry.index (first - 1)
      ((node.log.drop (first - node.logBaseIndex - 1)).take (last - first + 1)) := by
  have rest := consecutive.drop (show first - node.logBaseIndex - 1 ≤ node.log.length by omega)
  rw [show node.logBaseIndex + (first - node.logBaseIndex - 1) = first - 1 by omega] at rest
  exact rest.take _

theorem range_take {count : Nat} (reach : count ≤ last - first) :
    ((node.log.drop (first - node.logBaseIndex - 1)).take (last - first + 1)).take (count + 1) =
      node.log.filter fun entry => first ≤ entry.index ∧ entry.index ≤ first + count := by
  have later : node.log.drop (first - node.logBaseIndex - 1) =
      node.log.filter fun entry => first - 1 < entry.index := by
    rw [consecutive.filter_gt, Nat.sub_right_comm]
  have numbered := consecutive.filter_gt_consecutive (show node.logBaseIndex ≤ first - 1 by omega)
  have part := numbered.filter_lt (first + count + 1)
  rw [List.filter_filter, show first + count + 1 - 1 - (first - 1) = count + 1 by omega] at part
  rw [List.take_take, Nat.min_eq_left (by omega), later, ← part]
  apply List.filter_congr
  intro entry _
  simp only [← Bool.decide_and, decide_eq_decide]
  omega

end

/-- A batch is not empty, and holds the entries of the log from the first one
requested. It respects the limit if its entries do, and an entry that exceeds the
limit is sent alone. It ends where the next entry would exceed the limit. -/
theorem entriesBatch_maximal (node : Node) (first last : Nat)
    (consecutive : Consecutive LogEntry.index node.logBaseIndex node.log)
    (isLast : node.lastLogIndex = node.logBaseIndex + node.log.length)
    (above : node.logBaseIndex < first) (ordered : first ≤ last)
    (within : last ≤ node.lastLogIndex) :
    ∃ stop, first ≤ stop ∧ stop ≤ last ∧ node.entriesBatch first last ≠ [] ∧
      (node.entriesBatch first last =
        node.log.filter fun entry => first ≤ entry.index ∧ entry.index ≤ stop) ∧
      (node.entriesBatch first last).map LogEntry.index = List.range' first (stop + 1 - first) ∧
      ((∀ entry ∈ node.entriesBatch first last, entryBytes entry ≤ maxAppendEntriesBytes) →
        batchBytes (node.entriesBatch first last) ≤ maxAppendEntriesBytes) ∧
      ((∀ entry ∈ node.entriesBatch first last,
          entry.key.utf8ByteSize ≤ maxKeyBytes ∧ entry.value.length ≤ maxValueBytes) →
        batchBytes (node.entriesBatch first last) ≤ maxAppendEntriesBytes) ∧
      (∀ entry ∈ node.log, entry.index = first → maxAppendEntriesBytes < entryBytes entry →
        node.entriesBatch first last = [entry]) ∧
      (stop < last → ∃ next ∈ node.log, next.index = stop + 1 ∧
        maxAppendEntriesBytes < batchBytes (node.entriesBatch first last) + entryBytes next) := by
  rcases entriesBatch_fills isLast above ordered within with
    ⟨entry, rest, count, length, fills, range, batch⟩
  have reach := fills.within
  have numbered : Consecutive LogEntry.index (first - 1) (entry :: rest) :=
    range ▸ range_consecutive consecutive above (by omega)
  have part : (entry :: rest).take (count + 1) = node.log.filter fun entry =>
      first ≤ entry.index ∧ entry.index ≤ first + count :=
    range ▸ range_take consecutive above (by omega)
  have fitting : entryBytes entry ≤ maxAppendEntriesBytes →
      batchBytes ((entry :: rest).take (count + 1)) ≤ maxAppendEntriesBytes := fills.fits
  have isFirst : entry.index = first - 1 + 1 := numbered.1
  rw [batch]
  refine ⟨first + count, by omega, by omega, by simp, part, ?_, ?_, ?_, ?_, ?_⟩
  · rw [(numbered.take (count + 1)).map_position, List.length_take, List.length_cons]
    congr 1 <;> omega
  · intro small
    exact fitting (small entry List.mem_cons_self)
  · intro small
    apply fitting
    rcases small entry List.mem_cons_self with ⟨key, value⟩
    rw [entryBytes, maxAppendEntriesBytes]
    rw [maxKeyBytes] at key
    rw [maxValueBytes] at value
    omega
  · intro large present isIndex exceeds
    have taken : large ∈ node.log.filter fun entry =>
        first ≤ entry.index ∧ entry.index ≤ first + count :=
      List.mem_filter.mpr ⟨present, by simp [isIndex]⟩
    rw [← part] at taken
    rcases List.mem_cons.mp taken with rfl | later
    · rw [fills.alone exceeds]
      rfl
    · have position := (numbered.2.bounds (List.mem_of_mem_take later)).1
      omega
  · intro more
    have inside : count < rest.length := by omega
    refine ⟨rest[count], ?_, ?_, ?_⟩
    · have present : rest[count] ∈ entry :: rest := List.mem_cons_of_mem _ (List.getElem_mem inside)
      rw [range] at present
      exact List.mem_of_mem_drop (List.mem_of_mem_take present)
    · rw [numbered.2.position_eq (List.getElem?_eq_getElem inside)]
      omega
    · have exceeds := fills.maximal inside
      rw [List.take_succ_eq_append_getElem inside, batchBytes_append, ← Nat.add_assoc] at exceeds
      exact exceeds

def largeEntry (size : Nat) : LogEntry where
  index := 2
  term := 1
  type := .set
  value := List.replicate size 0

/-- A Node whose second entry has a value of the given size. -/
def holdsLarge (size : Nat) : Node :=
  { newNodeFromRecoveredState "a" ["b", "c"] {} with
    log := [
      { index := 1, term := 1, type := .noOp }, largeEntry size,
      { index := 3, term := 1, type := .noOp }]
    lastLogIndex := 3 }

theorem entryBytes_largeEntry (size : Nat) : entryBytes (largeEntry size) = 64 + size := by
  simp [entryBytes, largeEntry]

/-- The second entry exceeds the limit, and neither of the others goes with it. -/
theorem entriesBatch_maximal_large :
    (holdsLarge maxAppendEntriesBytes).entriesBatch 2 3 = [largeEntry maxAppendEntriesBytes] := by
  rcases entriesBatch_maximal (holdsLarge maxAppendEntriesBytes) 2 3 ⟨rfl, rfl, rfl, trivial⟩ rfl
    (Nat.zero_lt_succ 1) (Nat.le_succ 2) (Nat.le_refl 3) with ⟨_, _, _, _, _, _, _, _, alone, _⟩
  apply alone
  · exact List.mem_cons_of_mem _ List.mem_cons_self
  · rfl
  · rw [entryBytes_largeEntry]
    omega

end Node

end Ternion.Raft
