import Ternion.Consensus.Replication
import Ternion.Raft.Frame

/-! # Matching a Leader's log

What a Follower does with entries cut from the log of a Leader, while nothing
has been compacted. Log matching enters as a hypothesis on the two logs.
-/

namespace Ternion.Raft

open Consensus

variable {log leaderLog newEntries : List LogEntry} {index : Nat} {node : Node}

def entryTerm (log : List LogEntry) (index : Nat) : Nat :=
  if index = 0 then 0 else ((log[index - 1]?).map LogEntry.term).getD 0

@[simp] theorem entryTerm_zero (log : List LogEntry) : entryTerm log 0 = 0 := rfl

theorem entryTerm_found {entry : LogEntry} (positive : 0 < index)
    (found : log[index - 1]? = some entry) : entryTerm log index = entry.term := by
  simp [entryTerm, found, show index ≠ 0 by omega]

theorem entryTerm_outside (outside : log.length < index) : entryTerm log index = 0 := by
  have missing : log[index - 1]? = none := List.getElem?_eq_none (by omega)
  simp [entryTerm, missing]

theorem entryTerm_agree {left right : List LogEntry} {lower : Nat}
    (agree : AgreeThrough left right index) (below : lower ≤ index) :
    entryTerm left lower = entryTerm right lower := by
  rcases Nat.eq_zero_or_pos lower with rfl | positive
  · rfl
  · simp only [entryTerm, show lower ≠ 0 by omega, if_false,
      agree.getElem?_eq (show lower - 1 < index by omega)]

theorem lastTerm_eq_entryTerm (log : List LogEntry) :
    lastTerm LogEntry.term log = entryTerm log log.length := by
  cases log with
  | nil => rfl
  | cons first rest =>
      simp [lastTerm, entryTerm, List.getLast?_eq_getElem?]

def Indexed (log : List LogEntry) : Prop :=
  ∀ offset entry, log[offset]? = some entry → entry.index = offset + 1

theorem Indexed.take (indexed : Indexed log) (count : Nat) : Indexed (log.take count) := by
  intro offset entry found
  rw [List.getElem?_take] at found
  split_ifs at found
  exact indexed offset entry found

theorem Indexed.snoc (indexed : Indexed log) {entry : LogEntry}
    (next : entry.index = log.length + 1) : Indexed (log ++ [entry]) := by
  intro offset item found
  by_cases early : offset < log.length
  · rw [List.getElem?_append_left early] at found
    exact indexed offset item found
  · have within := (List.getElem?_eq_some_iff.mp found).1
    rw [List.getElem?_append_right (by omega)] at found
    have same : item = entry := by simpa using List.mem_of_getElem? found
    simp only [List.length_append, List.length_singleton] at within
    rw [same, next]
    omega

structure WholeLog (base baseTerm : Nat) (log : List LogEntry)
    (lastLogIndex lastLogTerm : Nat) : Prop where
  base : base = 0
  baseTerm : baseTerm = 0
  indexed : Indexed log
  lastIndex : lastLogIndex = log.length
  lastTerm : lastLogTerm = lastTerm LogEntry.term log

namespace Node

abbrev Whole (node : Node) : Prop :=
  WholeLog node.logBaseIndex node.logBaseTerm node.log node.lastLogIndex node.lastLogTerm

def setLog (node : Node) (log : List LogEntry) : Node :=
  { node with
    log := log
    lastLogIndex := log.length
    lastLogTerm := lastTerm LogEntry.term log }

theorem appendEntries_eq {entries : List LogEntry} (some_ : entries ≠ [])
    (indexed : Indexed (node.log ++ entries)) :
    node.appendEntries entries = node.setLog (node.log ++ entries) := by
  have nonempty : node.log ++ entries ≠ [] := by simp [some_]
  have lastFound := List.getLast?_eq_some_getLast nonempty
  have lastIndex : ((node.log ++ entries).getLast nonempty).index =
      (node.log ++ entries).length := by
    rw [List.getLast_eq_getElem]
    rw [indexed _ _ (List.getElem?_eq_getElem _)]
    have := List.length_pos_iff.mpr nonempty
    omega
  simp only [Node.appendEntries, setLog, lastFound, lastIndex, lastTerm, Option.map_some,
    Option.getD_some]

namespace Whole

variable {node : Node}

theorem termAt (whole : node.Whole) (index : Nat) :
    node.termAt index = entryTerm node.log index := by
  rw [Node.termAt, whole.base, whole.baseTerm, whole.lastIndex]
  rcases Nat.eq_zero_or_pos index with rfl | positive
  · rfl
  · rw [if_neg (by omega)]
    split_ifs with outside
    · rw [entryTerm_outside (by omega)]
    · simp [entryTerm, show index ≠ 0 by omega]

theorem truncateLog (whole : node.Whole) {firstIndex : Nat} (positive : 0 < firstIndex)
    (within : firstIndex ≤ node.log.length) :
    node.truncateLog firstIndex = { node.setLog (node.log.take (firstIndex - 1)) with
      durableLogIndex := min node.durableLogIndex (firstIndex - 1) } := by
  have length : (node.log.take (firstIndex - 1)).length = firstIndex - 1 := by
    simp only [List.length_take]
    omega
  simp only [Node.truncateLog, setLog, length, whole.base, Nat.sub_zero]
  congr 1
  rw [lastTerm_eq_entryTerm, length]
  rcases Nat.eq_zero_or_pos (firstIndex - 1) with zero | later
  · simp [Node.termAt, whole.baseTerm, zero]
  · simp only [Node.termAt, show firstIndex - 1 ≠ 0 by omega, if_false, Nat.sub_zero, entryTerm]
    rw [if_neg (by omega)]

theorem entriesBatch (whole : node.Whole) (first last : Nat) :
    node.entriesBatch first last <+: node.log.drop (first - 1) := by
  rw [Node.entriesBatch, whole.base]
  split_ifs
  · exact List.nil_prefix
  · exact List.nil_prefix
  · simp only [Nat.sub_zero]
    exact (List.take_prefix _ _).trans (List.take_prefix _ _)

end Whole

/-! ## Taking entries of a Leader -/

/-- Log matching between two logs: entries of one Term at one position make
the logs equal up to it. -/
def LogsMatch (log leaderLog : List LogEntry) : Prop :=
  ∀ index, 0 < index → index ≤ log.length → index ≤ leaderLog.length →
    entryTerm log index = entryTerm leaderLog index → AgreeThrough log leaderLog index

/-- What a log that matches the Leader's makes of entries that reach from an
agreed position through `reach`. -/
inductive Intake (log leaderLog : List LogEntry) (commitIndex reach : Nat) :
    Option (List LogEntry × Nat) → Prop
  | covered : AgreeThrough log leaderLog reach →
      Intake log leaderLog commitIndex reach (some ([], 0))
  | extended {entries : List LogEntry} : entries ≠ [] →
      AgreeThrough log leaderLog log.length →
      log ++ entries = leaderLog.take reach → log.length < reach →
      Intake log leaderLog commitIndex reach (some (entries, 0))
  | replaced {entries : List LogEntry} {first : Nat} : entries ≠ [] →
      0 < first → first ≤ log.length → commitIndex < first →
      AgreeThrough log leaderLog (first - 1) →
      entryTerm log first ≠ entryTerm leaderLog first →
      log.take (first - 1) ++ entries = leaderLog.take reach → first ≤ reach →
      Intake log leaderLog commitIndex reach (some (entries, first))
  | refused {first : Nat} : 0 < first → first ≤ log.length → first ≤ commitIndex →
      first ≤ reach → AgreeThrough log leaderLog (first - 1) →
      entryTerm log first ≠ entryTerm leaderLog first →
      Intake log leaderLog commitIndex reach none

theorem entriesToAppendFrom_intake (lastIndex : node.lastLogIndex = log.length)
    (leaderIndexed : Indexed leaderLog) (logsMatch : LogsMatch log leaderLog) :
    ∀ (entries : List LogEntry) (prev : Nat), AgreeThrough log leaderLog prev →
      (∀ index, prev < index → node.termAt index = entryTerm log index) →
      entries <+: leaderLog.drop prev →
      Intake log leaderLog node.commitIndex (prev + entries.length)
        (node.entriesToAppendFrom (prev + 1) entries)
  | [], prev, agree, _, _ => .covered agree
  | entry :: rest, prev, agree, terms, leading => by
      rcases leading with ⟨beyond, shape⟩
      have dropped : leaderLog.drop prev = entry :: (rest ++ beyond) := by
        rw [← shape]
        rfl
      have entryFound : leaderLog[prev]? = some entry := by
        have := congrArg List.head? dropped
        simpa [List.head?_drop] using this
      have entryIndex : entry.index = prev + 1 := leaderIndexed prev entry entryFound
      have leaderTerm : entryTerm leaderLog (prev + 1) = entry.term :=
        entryTerm_found (Nat.succ_pos prev) entryFound
      have leaderReaches := (List.getElem?_eq_some_iff.mp entryFound).1
      -- The request from here on is the Leader's log up to its last entry.
      have whole_ : leaderLog.take prev ++ (entry :: rest) =
          leaderLog.take (prev + (entry :: rest).length) := by
        rw [List.take_add, dropped]
        simp
      rw [Node.entriesToAppendFrom, if_neg (by simp [entryIndex]), entryIndex, lastIndex,
        terms _ (Nat.lt_succ_self prev)]
      by_cases inside : prev + 1 ≤ log.length
      · rw [if_pos inside]
        by_cases sameTerm : entryTerm log (prev + 1) = entry.term
        · rw [if_neg (by simp [sameTerm])]
          have further := logsMatch (prev + 1) (Nat.succ_pos prev) inside leaderReaches
            (sameTerm.trans leaderTerm.symm)
          have restLeading : rest <+: leaderLog.drop (prev + 1) := by
            rw [← List.drop_drop, dropped]
            exact ⟨beyond, by simp⟩
          have intake := entriesToAppendFrom_intake lastIndex leaderIndexed logsMatch
            rest (prev + 1)
            further (fun index later => terms index (by omega)) restLeading
          rwa [List.length_cons, show prev + (rest.length + 1) = prev + 1 + rest.length by omega]
        · rw [if_pos (by simpa using sameTerm)]
          have differ : entryTerm log (prev + 1) ≠ entryTerm leaderLog (prev + 1) := by
            rw [leaderTerm]
            exact sameTerm
          split_ifs with committed
          · exact .refused (Nat.succ_pos prev) inside committed (by simp) agree differ
          · refine .replaced (by simp) (Nat.succ_pos prev) inside
              (by omega) agree differ ?_ (by simp)
            rw [Nat.add_sub_cancel, agree.take_eq]
            exact whole_
      · have ends : prev = log.length := by
          have := agree.1
          omega
        rw [if_neg inside, if_neg (by omega)]
        refine .extended (by simp) (ends ▸ agree) ?_ (by simp only [List.length_cons]; omega)
        rw [← whole_, ← agree.take_eq, ends, List.take_length]

theorem Whole.entriesToAppend (whole : node.Whole) (leaderIndexed : Indexed leaderLog)
    (logsMatch : LogsMatch node.log leaderLog) {prev : Nat} {entries : List LogEntry}
    (agree : AgreeThrough node.log leaderLog prev) (leading : entries <+: leaderLog.drop prev) :
    Intake node.log leaderLog node.commitIndex (prev + entries.length)
      (node.entriesToAppend prev entries) :=
  entriesToAppendFrom_intake whole.lastIndex leaderIndexed logsMatch entries prev agree
    (fun index _ => whole.termAt index) leading

theorem Intake.keeps {commitIndex reach truncateFrom : Nat} (some_ : newEntries ≠ [])
    (intake : Intake log leaderLog commitIndex reach (some (newEntries, truncateFrom)))
    (agree : AgreeThrough log leaderLog index) : index ≤ reach := by
  cases intake with
  | covered => exact absurd rfl some_
  | extended _ _ _ longer => exact agree.1.trans longer.le
  | replaced _ _ _ _ _ differ _ reaches =>
      by_contra beyond
      exact differ (entryTerm_agree agree (by omega))

def keptLog (log : List LogEntry) (truncateFrom : Nat) : List LogEntry :=
  if truncateFrom ≠ 0 then log.take (truncateFrom - 1) else log

/-- The part that is kept is the part through which the logs agree, and the new
entries continue it along the Leader's log. -/
theorem Intake.kept {commitIndex reach truncateFrom : Nat} (some_ : newEntries ≠ [])
    (intake : Intake log leaderLog commitIndex reach (some (newEntries, truncateFrom))) :
    keptLog log truncateFrom ++ newEntries = leaderLog.take reach ∧
      ∀ index, AgreeThrough log leaderLog index → index ≤ (keptLog log truncateFrom).length := by
  cases intake with
  | covered => exact absurd rfl some_
  | extended _ _ shape _ => exact ⟨shape, fun _ agree => agree.1⟩
  | replaced _ positive within _ _ differ shape _ =>
      have nonzero : truncateFrom ≠ 0 := by omega
      simp only [keptLog, if_pos nonzero, List.length_take]
      refine ⟨shape, fun index agree => ?_⟩
      by_contra beyond
      exact differ (entryTerm_agree agree (by omega))

def durableAfter (node : Node) (truncateFrom : Nat) : Nat :=
  if truncateFrom ≠ 0 then min node.durableLogIndex (truncateFrom - 1)
  else node.durableLogIndex

theorem Whole.replaceSuffix (whole : node.Whole) {commitIndex reach truncateFrom : Nat}
    (leaderIndexed : Indexed leaderLog) (some_ : newEntries ≠ [])
    (intake : Intake node.log leaderLog commitIndex reach (some (newEntries, truncateFrom))) :
    node.replaceSuffix newEntries truncateFrom =
      { node.setLog (leaderLog.take reach) with
        durableLogIndex := node.durableAfter truncateFrom } := by
  cases intake with
  | covered => exact absurd rfl some_
  | extended _ _ shape _ =>
      have indexed : Indexed (node.log ++ newEntries) := shape ▸ leaderIndexed.take reach
      simp only [Node.replaceSuffix, durableAfter, ne_eq, not_true_eq_false, if_false]
      rw [appendEntries_eq some_ indexed, shape]
      rfl
  | replaced _ positive within _ _ _ shape _ =>
      have truncated := whole.truncateLog positive within
      have indexed : Indexed ((node.truncateLog truncateFrom).log ++ newEntries) := by
        rw [truncated]
        exact shape ▸ leaderIndexed.take reach
      simp only [Node.replaceSuffix, durableAfter, show truncateFrom ≠ 0 by omega, ne_eq,
        not_false_eq_true, if_true]
      rw [appendEntries_eq some_ indexed, truncated, ← shape]
      rfl

theorem Whole.matchesAt (whole : node.Whole) (logsMatch : LogsMatch node.log leaderLog) {prev : Nat}
    (within : prev ≤ leaderLog.length) (matched : node.matchesAt prev (entryTerm leaderLog prev)) :
    AgreeThrough node.log leaderLog prev := by
  rcases Nat.eq_zero_or_pos prev with rfl | positive
  · exact ⟨Nat.zero_le _, Nat.zero_le _, rfl⟩
  · simp only [Node.matchesAt, whole.termAt, whole.lastIndex, decide_eq_true_eq] at matched
    rcases matched with ⟨zero, _⟩ | ⟨inside, sameTerm⟩
    · omega
    · exact logsMatch prev positive inside within sameTerm

end Node

end Ternion.Raft
