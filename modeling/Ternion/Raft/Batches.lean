import Ternion.Raft.Extent

/-! # Batches that a Follower takes

A Follower skips what it knows of a batch, and takes everything from the first
entry on that is missing or has another Term. The rest of the batch is taken as
it comes, without a look at its positions.
-/

namespace Ternion.Raft

/-- Every entry of a batch follows the one before it. -/
def Chained (entries : List LogEntry) : Prop :=
  entries.IsChain fun earlier later => later.index = earlier.index + 1

instance (entries : List LogEntry) : Decidable (Chained entries) :=
  inferInstanceAs (Decidable (entries.IsChain _))

theorem Chained.consecutive {entry : LogEntry} {rest : List LogEntry}
    (chained : Chained (entry :: rest)) : Consecutive LogEntry.index entry.index rest := by
  induction rest generalizing entry with
  | nil => trivial
  | cons next rest induction =>
      rcases List.isChain_cons_cons.mp chained with ⟨follows, later⟩
      refine ⟨follows, ?_⟩
      rw [← follows]
      exact induction later

theorem Chained.of_consecutive {last : Nat} {entries : List LogEntry}
    (consecutive : Consecutive LogEntry.index last entries) : Chained entries := by
  induction entries generalizing last with
  | nil => exact .nil
  | cons entry rest induction =>
      rcases consecutive with ⟨index, later⟩
      have chained := induction later
      cases rest with
      | nil => exact .singleton entry
      | cons next rest =>
          apply List.isChain_cons_cons.mpr
          exact ⟨by rw [later.1, index], chained⟩

namespace Node

variable {node : Node}

structure Split (node : Node) (prevIndex : Nat) (entries known newEntries : List LogEntry)
    (truncateFrom : Nat) : Prop where
  split : entries = known ++ newEntries
  consecutive : Consecutive LogEntry.index prevIndex entries
  matched : ∀ entry ∈ known, entry.index ≤ node.lastLogIndex ∧ node.termAt entry.index = entry.term
  cut : truncateFrom = 0 ∧ prevIndex + known.length = node.lastLogIndex ∨
    truncateFrom = prevIndex + known.length + 1 ∧ node.commitIndex < truncateFrom ∧
      truncateFrom ≤ node.lastLogIndex ∧
      ∀ entry ∈ newEntries.head?, node.termAt truncateFrom ≠ entry.term

theorem entriesToAppendFrom_split {prevIndex truncateFrom : Nat}
    {entries newEntries : List LogEntry} (chained : Chained newEntries)
    (taken : node.entriesToAppendFrom (prevIndex + 1) entries = some (newEntries, truncateFrom))
    (isNew : newEntries ≠ []) : ∃ known, node.Split prevIndex entries known newEntries
    truncateFrom := by
  induction entries generalizing prevIndex with
  | nil =>
      cases taken
      exact absurd rfl isNew
  | cons entry rest induction =>
      rw [entriesToAppendFrom] at taken
      split_ifs at taken with misplaced inside differs committed beyond
      · have index := not_not.mp misplaced
        cases taken
        refine ⟨[], rfl, ⟨index, index ▸ chained.consecutive⟩, by simp, .inr ?_⟩
        refine ⟨index, Nat.not_le.mp committed, inside, ?_⟩
        rintro _ ⟨⟩
        exact differs
      · have index := not_not.mp misplaced
        rcases induction taken with ⟨known, split, consecutive, isKnown, cut⟩
        refine ⟨entry :: known, congrArg (entry :: ·) split, ⟨index, consecutive⟩, ?_, ?_⟩
        · intro other present
          rcases List.mem_cons.mp present with rfl | later
          · exact ⟨inside, not_not.mp differs⟩
          · exact isKnown other later
        · rw [List.length_cons, show prevIndex + (known.length + 1) =
            prevIndex + 1 + known.length by omega]
          exact cut
      · have index := not_not.mp misplaced
        cases taken
        refine ⟨[], rfl, ⟨index, index ▸ chained.consecutive⟩, by simp, .inl ⟨rfl, ?_⟩⟩
        rw [List.length_nil]
        omega

/-! ## What a Follower is left with -/

def slice (node : Node) : Nat × List LogEntry × Nat :=
  (node.logBaseIndex, node.log, node.lastLogIndex)

theorem advanceFollowerCommit_slice (node : Node) (leaderCommit : Nat) (answer : List Action) :
    (node.advanceFollowerCommit leaderCommit answer).1.slice = node.slice := by
  simp only [advanceFollowerCommit]
  split_ifs
  · rfl
  · rcases node.applyThrough_frame node.durableCommitIndex with ⟨_, _, _, frame⟩
    rw [frame]
    rfl

/-- The entries of a batch that a Node takes, and the position from which they
replace its log, zero for the end. -/
def taken (node : Node) (request : AppendEntries) : Option (List LogEntry × Nat) :=
  if request.term < node.term ∨ ¬node.matchesAt request.prevLogIndex request.prevLogTerm then none
  else node.entriesToAppend request.prevLogIndex request.entries

/-- What is taken is numbered without a gap, and replaces nothing below the log. -/
def TakesChain (node : Node) (request : AppendEntries) : Prop :=
  ∀ newEntries truncateFrom, node.taken request = some (newEntries, truncateFrom) →
    Chained newEntries ∧ (truncateFrom ≠ 0 → node.logBaseIndex < truncateFrom)

theorem entriesToAppend_of_taken {request : AppendEntries} {suffix : List LogEntry × Nat}
    (taken : node.taken request = some suffix) :
    node.entriesToAppend request.prevLogIndex request.entries = some suffix := by
  rw [Node.taken] at taken
  split_ifs at taken
  exact taken

/-- A suffix is replaced from the position of the first entry that is taken. -/
theorem entriesToAppendFrom_head {wantIndex truncateFrom : Nat}
    {entries newEntries : List LogEntry}
    (taken : node.entriesToAppendFrom wantIndex entries = some (newEntries, truncateFrom))
    (nonzero : truncateFrom ≠ 0) :
    ∃ first rest, newEntries = first :: rest ∧ first.index = truncateFrom := by
  induction entries generalizing wantIndex with
  | nil =>
      cases taken
      exact absurd rfl nonzero
  | cons entry rest induction =>
      rw [entriesToAppendFrom] at taken
      split_ifs at taken
      · cases taken
        exact ⟨entry, rest, rfl, rfl⟩
      · exact induction taken
      · cases taken
        exact absurd rfl nonzero

theorem storeEntries_slice (node : Node) (request : AppendEntries) {newEntries : List LogEntry}
    {last : LogEntry} (ends : newEntries.getLast? = some last) (truncateFrom : Nat) :
    (node.storeEntries request newEntries truncateFrom).1.slice =
      (node.logBaseIndex, node.extent.before truncateFrom ++ newEntries, last.index) := by
  have replaced := node.replaceSuffix_extent ends truncateFrom
  exact congrArg (fun extent => (extent.logBaseIndex, extent.log, extent.lastLogIndex)) replaced

theorem confirmEntries_slice (node : Node) (request : AppendEntries) :
    (node.confirmEntries request).1.slice = node.slice := by
  rw [confirmEntries]
  split_ifs
  · rfl
  · exact node.advanceFollowerCommit_slice ..

/-- Entries that are taken replace a suffix of the log, anything else leaves the
log alone. -/
def replaced (extent : Extent) : Option (List LogEntry × Nat) → Nat × List LogEntry × Nat
  | none => (extent.logBaseIndex, extent.log, extent.lastLogIndex)
  | some (newEntries, truncateFrom) =>
      match newEntries.getLast? with
      | none => (extent.logBaseIndex, extent.log, extent.lastLogIndex)
      | some last => (extent.logBaseIndex, extent.before truncateFrom ++ newEntries, last.index)

theorem takeAppendEntries_slice (node : Node) (request : AppendEntries)
    (current : ¬request.term < node.term) :
    (node.takeAppendEntries request).1.slice = replaced node.extent (node.taken request) := by
  rw [takeAppendEntries, taken]
  by_cases matched : node.matchesAt request.prevLogIndex request.prevLogTerm = true
  · rw [if_neg (not_not.mpr matched), if_neg (by simp [current, matched])]
    cases node.entriesToAppend request.prevLogIndex request.entries with
    | none => rfl
    | some suffix =>
        dsimp only
        split_ifs with isNew
        · have ends := List.getLast?_eq_some_getLast isNew
          rw [replaced, ends, node.storeEntries_slice request ends]
          rfl
        · rw [replaced, not_not.mp isNew]
          exact node.confirmEntries_slice request
  · rw [if_pos matched, if_pos (.inr matched)]
    rfl

theorem acceptLeader_taken {node : Node} {request : AppendEntries}
    (current : ¬request.term < node.term) :
    (node.acceptLeader request.term request.sender).taken request = node.taken request := by
  have reached := acceptLeader_term (Nat.not_lt.mp current) request.sender
  simp only [taken, reached, acceptLeader_matchesAt, acceptLeader_entriesToAppend, current,
    Nat.lt_irrefl]

theorem handleAppendEntries_slice (node : Node) (request : AppendEntries) :
    (node.handleAppendEntries request).1.slice = replaced node.extent (node.taken request) := by
  have waits : ∀ changed result, (persistTermChange changed result).1.slice = result.1.slice := by
    intro changed result
    rw [persistTermChange]
    split_ifs
    · rfl
    · rfl
  rw [handleAppendEntries]
  split_ifs with stale
  · rw [taken, if_pos (.inl stale)]
    rfl
  · have reached := acceptLeader_term (Nat.not_lt.mp stale) request.sender
    have sliced := (node.acceptLeader request.term request.sender).takeAppendEntries_slice request
      (by rw [reached]; exact Nat.lt_irrefl _)
    rw [acceptLeader_taken stale, node.acceptLeader_extent] at sliced
    rw [waits]
    exact sliced

theorem Split.log {prevIndex truncateFrom : Nat} {entries known newEntries : List LogEntry}
    (last : node.lastLogIndex = node.logBaseIndex + node.log.length)
    (split : node.Split prevIndex entries known newEntries truncateFrom) :
    node.extent.before truncateFrom =
      node.log.take (prevIndex + known.length - node.logBaseIndex) := by
  rw [Extent.before]
  rcases split.cut with ⟨zero, atEnd⟩ | ⟨isCut, _, _, _⟩
  · rw [if_pos zero, atEnd, last, Nat.add_sub_cancel_left]
    exact (List.take_length ..).symm
  · have offset : truncateFrom - node.extent.logBaseIndex - 1 =
        prevIndex + known.length - node.logBaseIndex := by
      have base : node.extent.logBaseIndex = node.logBaseIndex := rfl
      omega
    rw [if_neg (by omega), offset]
    rfl

section Taken

variable {prevIndex truncateFrom : Nat} {entries known newEntries : List LogEntry}
  (consecutive : Consecutive LogEntry.index node.logBaseIndex node.log)
  (last : node.lastLogIndex = node.logBaseIndex + node.log.length)
  (above : truncateFrom ≠ 0 → node.logBaseIndex < truncateFrom)
  (split : node.Split prevIndex entries known newEntries truncateFrom)

include last split

theorem Split.committed :
    node.log.take (node.commitIndex - node.logBaseIndex) <+:
      node.log.take (prevIndex + known.length - node.logBaseIndex) ++ newEntries := by
  apply List.IsPrefix.trans _ (List.prefix_append ..)
  rcases split.cut with ⟨_, atEnd⟩ | ⟨isCut, above, _⟩
  · rw [atEnd, last, Nat.add_sub_cancel_left, List.take_length]
    exact List.take_prefix ..
  · exact List.take_prefix_take_left (by omega)

include above

theorem Split.bounds : node.logBaseIndex ≤ prevIndex + known.length ∧
    prevIndex + known.length ≤ node.lastLogIndex ∧
    (node.log.take (prevIndex + known.length - node.logBaseIndex)).length =
      prevIndex + known.length - node.logBaseIndex := by
  have cut := split.cut
  rw [List.length_take]
  omega

include consecutive

theorem Split.consecutive_log :
    Consecutive LogEntry.index node.logBaseIndex
      (node.log.take (prevIndex + known.length - node.logBaseIndex) ++ newEntries) := by
  rcases split.bounds last above with ⟨lower, _, length⟩
  have later := split.consecutive
  rw [split.split] at later
  apply Consecutive.append_iff.mpr
  refine ⟨consecutive.take _, ?_⟩
  rw [length, Nat.add_sub_cancel' lower]
  exact (Consecutive.append_iff.mp later).2

theorem Split.held {entry : LogEntry} (present : entry ∈ entries)
    (beyond : node.logBaseIndex < entry.index) :
    ∃ held, (node.log.take (prevIndex + known.length - node.logBaseIndex) ++
        newEntries)[entry.index - node.logBaseIndex - 1]? = some held ∧
      held.index = entry.index ∧ held.term = entry.term := by
  rcases split.bounds last above with ⟨lower, upper, length⟩
  rcases List.mem_iff_getElem?.mp present with ⟨offset, found⟩
  have index := split.consecutive.position_eq found
  rw [split.split] at found
  by_cases isKnown : offset < known.length
  · rw [List.getElem?_append_left isKnown] at found
    rcases split.matched entry (List.mem_of_getElem? found) with ⟨inside, isTerm⟩
    have within : entry.index - node.logBaseIndex - 1 < node.log.length := by omega
    have kept : (node.log.take (prevIndex + known.length - node.logBaseIndex) ++
        newEntries)[entry.index - node.logBaseIndex - 1]? =
        some node.log[entry.index - node.logBaseIndex - 1] := by
      rw [List.getElem?_append_left (by omega), List.getElem?_take_of_lt (by omega),
        List.getElem?_eq_getElem within]
    refine ⟨_, kept, ?_, ?_⟩
    · rw [consecutive.position_eq (List.getElem?_eq_getElem within)]
      omega
    · rw [← isTerm, termAt, if_neg (by omega), if_neg (by omega), List.getElem?_eq_getElem within]
      rfl
  · rw [List.getElem?_append_right (by omega)] at found
    refine ⟨entry, ?_, rfl, rfl⟩
    rw [List.getElem?_append_right (by omega), length, ← found]
    congr 1
    omega

end Taken

/-- What a message may do to a log that is numbered from its base on: nothing, or
to replace it from the first entry on that is missing or has another Term. -/
structure View (node : Node) (request : AppendEntries) (after : Node) : Prop where
  base : after.logBaseIndex = node.logBaseIndex
  consecutive : Consecutive LogEntry.index after.logBaseIndex after.log
  last : after.lastLogIndex = after.logBaseIndex + after.log.length
  committed : node.log.take (node.commitIndex - node.logBaseIndex) <+: after.log
  replaced : after.log = node.log ∨ ∃ known first rest, request.entries = known ++ first :: rest ∧
    (∀ entry ∈ known, entry.index ≤ node.lastLogIndex ∧ node.termAt entry.index = entry.term) ∧
    (node.lastLogIndex < first.index ∨ node.termAt first.index ≠ first.term) ∧
    after.log = node.log.take (first.index - node.logBaseIndex - 1) ++ first :: rest ∧
    Consecutive LogEntry.index request.prevLogIndex request.entries ∧
    after.lastLogIndex = request.prevLogIndex + request.entries.length ∧
    ∀ entry ∈ request.entries, node.logBaseIndex < entry.index →
      ∃ held, after.log[entry.index - node.logBaseIndex - 1]? = some held ∧
        held.index = entry.index ∧ held.term = entry.term

section View

variable {request : AppendEntries} {after : Node}

theorem View.of_same (same : after.slice = node.slice)
    (consecutive : Consecutive LogEntry.index node.logBaseIndex node.log)
    (last : node.lastLogIndex = node.logBaseIndex + node.log.length) :
    node.View request after := by
  have sameBase : after.logBaseIndex = node.logBaseIndex := congrArg Prod.fst same
  have sameLog : after.log = node.log := congrArg (fun slice => slice.2.1) same
  have sameLast : after.lastLogIndex = node.lastLogIndex := congrArg (fun slice => slice.2.2) same
  constructor
  · exact sameBase
  · rw [sameBase, sameLog]
    exact consecutive
  · rw [sameBase, sameLog, sameLast]
    exact last
  · rw [sameLog]
    exact List.take_prefix ..
  · exact .inl sameLog

theorem View.of_split {truncateFrom : Nat} {known newEntries : List LogEntry} {final : LogEntry}
    (consecutive : Consecutive LogEntry.index node.logBaseIndex node.log)
    (last : node.lastLogIndex = node.logBaseIndex + node.log.length)
    (above : truncateFrom ≠ 0 → node.logBaseIndex < truncateFrom)
    (split : node.Split request.prevLogIndex request.entries known newEntries truncateFrom)
    (ends : newEntries.getLast? = some final)
    (same : after.slice =
      (node.logBaseIndex, node.extent.before truncateFrom ++ newEntries, final.index)) :
    node.View request after := by
  have sameBase : after.logBaseIndex = node.logBaseIndex := congrArg Prod.fst same
  have sameLog : after.log = node.log.take (request.prevLogIndex + known.length -
      node.logBaseIndex) ++ newEntries :=
    (congrArg (fun slice => slice.2.1) same).trans (congrArg (· ++ newEntries) (split.log last))
  have sameLast : after.lastLogIndex = final.index := congrArg (fun slice => slice.2.2) same
  rcases split.bounds last above with ⟨lower, upper, length⟩
  have following := split.consecutive
  rw [split.split] at following
  have lastIndex := (Consecutive.append_iff.mp following).2.getLast ends
  have counts := congrArg List.length split.split
  rw [List.length_append] at counts
  constructor
  · exact sameBase
  · rw [sameBase, sameLog]
    exact split.consecutive_log consecutive last above
  · rw [sameBase, sameLog, sameLast, List.length_append, length]
    omega
  · rw [sameLog]
    exact split.committed last
  · rw [sameLog, sameLast]
    apply Or.inr
    cases isEntries : newEntries with
    | nil =>
        rw [isEntries] at ends
        cases ends
    | cons first rest =>
        rw [isEntries] at following split
        have firstIndex : first.index = request.prevLogIndex + known.length + 1 :=
          (Consecutive.append_iff.mp following).2.1
        refine ⟨known, first, rest, split.split, split.matched, ?_, ?_, split.consecutive, ?_,
          fun entry => split.held consecutive last above⟩
        · rcases split.cut with ⟨_, atEnd⟩ | ⟨isCut, _, _, differs⟩
          · exact .inl (by omega)
          · rw [firstIndex, ← isCut]
            exact .inr (differs first rfl)
        · rw [firstIndex, show request.prevLogIndex + known.length + 1 - node.logBaseIndex - 1 =
            request.prevLogIndex + known.length - node.logBaseIndex by omega]
        · omega

/-- What was taken into a log that is numbered from its base on has no gap. -/
theorem View.chain (view : node.View request after) {truncateFrom : Nat}
    {newEntries : List LogEntry} {final : LogEntry}
    (taken : node.taken request = some (newEntries, truncateFrom))
    (same : after.slice =
      (node.logBaseIndex, node.extent.before truncateFrom ++ newEntries, final.index)) :
    Chained newEntries ∧ (truncateFrom ≠ 0 → node.logBaseIndex < truncateFrom) := by
  have consecutive := view.consecutive
  have sameBase : after.logBaseIndex = node.logBaseIndex := congrArg Prod.fst same
  have sameLog : after.log = node.extent.before truncateFrom ++ newEntries :=
    congrArg (fun slice => slice.2.1) same
  rw [sameBase, sameLog] at consecutive
  rcases Consecutive.append_iff.mp consecutive with ⟨_, later⟩
  refine ⟨.of_consecutive later, fun nonzero => ?_⟩
  rcases entriesToAppendFrom_head (entriesToAppend_of_taken taken) nonzero with
    ⟨first, rest, rfl, index⟩
  have next := later.1
  by_contra below
  have nothing : node.extent.before truncateFrom = [] := by
    have base : node.extent.logBaseIndex = node.logBaseIndex := rfl
    rw [Extent.before, if_neg nonzero, show truncateFrom - node.extent.logBaseIndex - 1 = 0 by
      omega]
    rfl
  rw [nothing, List.length_nil] at next
  omega

/-- A message leaves the log unchanged, or brings it to the view of the Leader
from the first new entry on, exactly when what is taken of it has no gap. -/
theorem appendEntries_view (node : Node) (request : AppendEntries)
    (consecutive : Consecutive LogEntry.index node.logBaseIndex node.log)
    (last : node.lastLogIndex = node.logBaseIndex + node.log.length) :
    node.View request (node.handleAppendEntries request).1 ↔ node.TakesChain request := by
  have sliced := node.handleAppendEntries_slice request
  constructor
  · intro view newEntries truncateFrom taken
    rw [taken] at sliced
    cases ends : newEntries.getLast? with
    | none =>
        have nothing := List.getLast?_eq_none_iff.mp ends
        refine ⟨nothing ▸ .nil, fun nonzero => ?_⟩
        rcases entriesToAppendFrom_head (entriesToAppend_of_taken taken) nonzero with
          ⟨_, _, something, _⟩
        rw [nothing] at something
        cases something
    | some final =>
        simp only [replaced, ends] at sliced
        exact view.chain taken sliced
  · intro chains
    cases taken : node.taken request with
    | none =>
        rw [taken] at sliced
        exact .of_same sliced consecutive last
    | some suffix =>
        rcases suffix with ⟨newEntries, truncateFrom⟩
        rcases chains newEntries truncateFrom taken with ⟨chained, above⟩
        rw [taken] at sliced
        cases ends : newEntries.getLast? with
        | none =>
            simp only [replaced, ends] at sliced
            exact .of_same sliced consecutive last
        | some final =>
            simp only [replaced, ends] at sliced
            have isNew : newEntries ≠ [] := by
              rintro rfl
              cases ends
            rcases entriesToAppendFrom_split chained (entriesToAppend_of_taken taken) isNew with
              ⟨known, split⟩
            exact .of_split consecutive last above split ends sliced

end View

/-- A Follower with the entries 1 to 3 of Term 1. -/
def holdsThree : Node :=
  { newNodeFromRecoveredState "b" ["a", "c"] {} with
    term := 1
    log := [1, 2, 3].map fun index => { index, term := 1, type := .noOp }
    lastLogIndex := 3
    lastLogTerm := 1
    commitIndex := 1 }

/-- A batch of the Leader of a Term, after the entry at an index. -/
def batch (term prevLogIndex prevLogTerm : Nat) (entries : List (Nat × Nat)) : AppendEntries where
  sender := "a"
  term := term
  requestID := 1
  prevLogIndex := prevLogIndex
  prevLogTerm := prevLogTerm
  entries := entries.map fun (index, term) => { index, term, type := .noOp }
  leaderCommit := 0
  readID := 0

/-- A batch that repeats the second entry, and replaces the third. -/
theorem appendEntries_view_replaces :
    let after := (holdsThree.handleAppendEntries (batch 2 1 1 [(2, 1), (3, 2), (4, 2)])).1
    after.log.map (fun entry => (entry.index, entry.term)) = [(1, 1), (2, 1), (3, 2), (4, 2)] ∧
      holdsThree.View (batch 2 1 1 [(2, 1), (3, 2), (4, 2)]) after := by
  refine ⟨by decide +kernel, ?_⟩
  apply (appendEntries_view holdsThree (batch 2 1 1 [(2, 1), (3, 2), (4, 2)])
    ⟨rfl, rfl, rfl, trivial⟩ rfl).mpr
  have taken : holdsThree.taken (batch 2 1 1 [(2, 1), (3, 2), (4, 2)]) =
      some ((batch 2 1 1 [(3, 2), (4, 2)]).entries, 3) := by decide +kernel
  intro newEntries truncateFrom found
  cases Option.some.inj (taken.symm.trans found)
  exact ⟨by decide, by decide⟩

/-- The entries after the first new one are stored wherever they claim to be. -/
theorem appendEntries_gap :
    let node := newNodeFromRecoveredState "b" ["a", "c"] {}
    let after := (node.handleAppendEntries (batch 1 0 0 [(1, 1), (5, 1)])).1
    node.log = [] ∧ node.logBaseIndex = 0 ∧ node.lastLogIndex = 0 ∧ node.term ≤ 1 ∧
      after.log.map LogEntry.index = [1, 5] ∧ after.logBaseIndex = 0 ∧ after.lastLogIndex = 5 := by
  decide +kernel

end Node

end Ternion.Raft
