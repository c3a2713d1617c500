import Mathlib.Data.List.Sort
import Ternion.Foundation.Fallible
import Ternion.Snapshot.State

/-! # The Snapshots of a data directory

Start-up takes the newest stored Snapshot whose position is in the durable
committed history, and refuses a directory in which there are Snapshots but
none of them is.
-/

namespace Ternion.Snapshot

variable {state : State}

/-- An installed file, with what its bytes decode to. -/
structure File where
  name : String
  contents : Option State

/-- The durable history that a Snapshot must match. -/
structure Compatibility where
  identity : Identity
  commitIndex : Nat
  logStartIndex : Nat
  logTerms : List Nat
  snapshotIndex : Nat
  snapshotTerm : Nat

def read (file : File) : Except Error State :=
  match file.contents with
  | none => .error (.undecodable file.name)
  | some state => do
      validateState state
      return state

def matchesWAL (state : State) (compatibility : Compatibility) : Bool :=
  if compatibility.commitIndex < state.includedIndex then false
  else if state.includedIndex = 0 then state.includedTerm == 0
  else if state.includedIndex = compatibility.snapshotIndex then
    state.includedTerm == compatibility.snapshotTerm
  else
    let start := if compatibility.logStartIndex = 0 then 1 else compatibility.logStartIndex
    if state.includedIndex < start then false
    else compatibility.logTerms[state.includedIndex - start]? == some state.includedTerm

/-- A Snapshot at a later position, or the same position under a later name. -/
def newer (state : State) (name : String) (newest : State × String) : Bool :=
  newest.1.includedIndex < state.includedIndex ||
    state.includedIndex == newest.1.includedIndex &&
      (newest.1.includedTerm < state.includedTerm ||
        state.includedTerm == newest.1.includedTerm && newest.2 < name)

/-- Visit the candidates. A file that cannot be read, or belongs to another
Node, stops the search. -/
def visit (compatibility : Compatibility) :
    Option (State × String) → List File → Except Error (Option (State × String))
  | newest, [] => .ok newest
  | newest, file :: files => do
      let state ← read file
      if state.identity ≠ compatibility.identity then .error (.identityMismatch file.name)
      else if ¬matchesWAL state compatibility then visit compatibility newest files
      else if newest.all (newer state file.name) then
        visit compatibility (some (state, file.name)) files
      else visit compatibility newest files

def loadNewest (files : List File) (compatibility : Compatibility) :
    Except Error (Option State) := do
  let newest ← visit compatibility none
    (files.insertionSort fun first second => second.name ≤ first.name)
  if ¬files.isEmpty ∧ newest.isNone then .error .noneCompatible
  else return newest.map Prod.fst

/-- Install a state as a new immutable file. -/
def save (files : List File) (name : String) (state : State) : Except Error (List File) := do
  validateState state
  return { name := name, contents := some state } :: files

/-! ## What is loaded -/

variable {compatibility : Compatibility} {files : List File}

/-- Every file is a valid Snapshot of this Node. -/
def Readable (identity : Identity) (files : List File) : Prop :=
  ∀ file ∈ files, ∃ state, read file = .ok state ∧ state.identity = identity

/-- A compatible Snapshot of the directory. -/
def Offers (compatibility : Compatibility) (files : List File) (state : State) : Prop :=
  matchesWAL state compatibility = true ∧ ∃ file ∈ files, read file = .ok state

/-- The newest Snapshot among those visited. -/
structure Newest (compatibility : Compatibility) (files : List File) (newest : Option State) :
    Prop where
  offered : ∀ state ∈ newest, Offers compatibility files state
  latest : ∀ state, Offers compatibility files state →
    ∃ best ∈ newest, state.includedIndex ≤ best.includedIndex

theorem Offers.cons {file : File} (offers : Offers compatibility files state) :
    Offers compatibility (file :: files) state := by
  rcases offers with ⟨compatible, other, present, isRead⟩
  exact ⟨compatible, other, List.mem_cons_of_mem _ present, isRead⟩

theorem Offers.of_cons {file : File} {own : State} (isRead : read file = .ok own)
    (offers : Offers compatibility (file :: files) state) :
    state = own ∨ Offers compatibility files state := by
  rcases offers with ⟨compatible, other, present, otherRead⟩
  rcases List.mem_cons.mp present with same | earlier
  · rw [same, isRead] at otherRead
    exact .inl (Except.ok.inj otherRead).symm
  · exact .inr ⟨compatible, other, earlier, otherRead⟩

section

variable {file : File} {own : State} {newest : Option State}
  (newestSoFar : Newest compatibility files newest) (isRead : read file = .ok own)

include newestSoFar isRead

theorem Newest.skip (older : matchesWAL own compatibility = true →
      ∃ best ∈ newest, own.includedIndex ≤ best.includedIndex) :
    Newest compatibility (file :: files) newest where
  offered := fun state taken => (newestSoFar.offered state taken).cons
  latest := by
    intro state offers
    rcases offers.of_cons isRead with same | earlier
    · exact same ▸ older (same ▸ offers.1)
    · exact newestSoFar.latest state earlier

theorem Newest.take (compatible : matchesWAL own compatibility = true)
    (later : ∀ best ∈ newest, best.includedIndex ≤ own.includedIndex) :
    Newest compatibility (file :: files) (some own) where
  offered := by
    rintro state ⟨⟩
    exact ⟨compatible, file, List.mem_cons_self, isRead⟩
  latest := by
    intro state offers
    rcases offers.of_cons isRead with same | earlier
    · exact ⟨own, rfl, Nat.le_of_eq (congrArg State.includedIndex same)⟩
    · rcases newestSoFar.latest state earlier with ⟨best, isBest, bound⟩
      exact ⟨own, rfl, bound.trans (later best isBest)⟩

end

theorem newer_index {name : String} {newest : State × String}
    (isNewer : newer state name newest = true) : newest.1.includedIndex ≤ state.includedIndex := by
  simp only [newer, Bool.or_eq_true, Bool.and_eq_true, decide_eq_true_eq, beq_iff_eq] at isNewer
  omega

theorem not_newer_index {name : String} {newest : State × String}
    (isNewer : newer state name newest = false) : state.includedIndex ≤ newest.1.includedIndex := by
  simp only [newer, Bool.or_eq_false_iff, decide_eq_false_iff_not] at isNewer
  omega

section

variable (readable : Readable compatibility.identity files)

include readable

theorem visit_newest {seen : List File} {newest : Option (State × String)}
    (newestSoFar : Newest compatibility seen (newest.map Prod.fst)) :
    ∃ found, visit compatibility newest files = .ok found ∧
      Newest compatibility (files.reverse ++ seen) (found.map Prod.fst) := by
  induction files generalizing seen newest with
  | nil => exact ⟨newest, rfl, newestSoFar⟩
  | cons file files induction =>
      rcases readable file List.mem_cons_self with ⟨own, isRead, sameIdentity⟩
      have rest : Readable compatibility.identity files := fun other present =>
        readable other (List.mem_cons_of_mem _ present)
      have unfolded : visit compatibility newest (file :: files) =
          if ¬matchesWAL own compatibility then visit compatibility newest files
          else if newest.all (newer own file.name) then
            visit compatibility (some (own, file.name)) files
          else visit compatibility newest files := by
        rw [visit, isRead]
        exact if_neg (not_not.mpr sameIdentity)
      rw [unfolded, List.reverse_cons, List.append_assoc, List.singleton_append]
      by_cases compatible : matchesWAL own compatibility = true
      · rw [if_neg (not_not.mpr compatible)]
        by_cases isNewer : newest.all (newer own file.name) = true
        · rw [if_pos isNewer]
          apply induction rest
          apply newestSoFar.take isRead compatible
          intro best isBest
          rcases Option.map_eq_some_iff.mp isBest with ⟨pair, isPair, same⟩
          rw [isPair] at isNewer
          exact same ▸ newer_index isNewer
        · rw [if_neg isNewer]
          apply induction rest
          apply newestSoFar.skip isRead
          intro _
          cases isPair : newest with
          | none =>
              rw [isPair] at isNewer
              exact absurd rfl isNewer
          | some pair =>
              rw [isPair] at isNewer
              exact ⟨pair.1, rfl, not_newer_index (by simpa using isNewer)⟩
      · rw [if_pos compatible]
        apply induction rest
        exact newestSoFar.skip isRead fun isCompatible => absurd isCompatible compatible

theorem loadNewest_eq :
    ∃ newest, Newest compatibility files newest ∧
      loadNewest files compatibility =
        if ¬files.isEmpty ∧ newest.isNone then .error .noneCompatible else .ok newest := by
  have sorted := List.perm_insertionSort (fun first second : File => second.name ≤ first.name) files
  have sortedReadable : Readable compatibility.identity
      (files.insertionSort fun first second => second.name ≤ first.name) :=
    fun file present => readable file (sorted.mem_iff.mp present)
  have nothing : Newest compatibility [] ((none : Option (State × String)).map Prod.fst) := {
    offered := by simp
    latest := by
      rintro state ⟨_, file, present, _⟩
      cases present }
  rcases visit_newest sortedReadable nothing with ⟨found, visited, newest⟩
  have same : ∀ state, Offers compatibility
      ((files.insertionSort fun first second => second.name ≤ first.name).reverse ++ []) state ↔
        Offers compatibility files state := by
    intro state
    simp only [Offers, List.append_nil, List.mem_reverse, sorted.mem_iff]
  refine ⟨found.map Prod.fst, ⟨?_, ?_⟩, ?_⟩
  · exact fun state taken => (same state).mp (newest.offered state taken)
  · exact fun state offers => newest.latest state ((same state).mpr offers)
  · rw [loadNewest, visited, Option.isNone_map]
    rfl

theorem loadNewest_newest
    {newest : Option State} (loaded : loadNewest files compatibility = .ok newest) :
    Newest compatibility files newest ∧ (newest = none → files = []) := by
  rcases loadNewest_eq readable with ⟨found, isNewest, same⟩
  rw [same] at loaded
  split_ifs at loaded with refused
  cases loaded
  refine ⟨isNewest, fun isNone => ?_⟩
  rw [isNone] at refused
  simpa using refused

theorem loadNewest_eq_ok (some_ : files = [] ∨ ∃ state, Offers compatibility files state) :
    ∃ newest, loadNewest files compatibility = .ok newest ∧
      Newest compatibility files newest := by
  rcases loadNewest_eq readable with ⟨newest, isNewest, same⟩
  refine ⟨newest, ?_, isNewest⟩
  rw [same, if_neg]
  rintro ⟨isSome, isNone⟩
  rcases some_ with empty | ⟨state, offers⟩
  · rw [empty] at isSome
    exact isSome rfl
  · rcases isNewest.latest state offers with ⟨best, isBest, _⟩
    rw [Option.isNone_iff_eq_none.mp isNone] at isBest
    cases isBest

end

/-! ## What a successful search says -/

theorem visit_readable {newest found : Option (State × String)}
    (visited : visit compatibility newest files = .ok found) :
    Readable compatibility.identity files := by
  induction files generalizing newest with
  | nil =>
      intro file present
      cases present
  | cons file files induction =>
      rcases Fallible.bind_eq_ok.mp visited with ⟨state, isRead, rest⟩
      have both : state.identity = compatibility.identity ∧
          Readable compatibility.identity files := by
        split_ifs at rest with other
        all_goals exact ⟨not_not.mp other, induction rest⟩
      intro candidate present
      rcases List.mem_cons.mp present with same | later
      · exact ⟨state, same ▸ isRead, both.1⟩
      · exact both.2 candidate later

theorem loadNewest_readable {newest : Option State}
    (loaded : loadNewest files compatibility = .ok newest) :
    Readable compatibility.identity files := by
  rcases Fallible.bind_eq_ok.mp loaded with ⟨found, visited, _⟩
  have sorted := List.perm_insertionSort (fun first second : File => second.name ≤ first.name) files
  intro file present
  exact visit_readable visited file (sorted.mem_iff.mpr present)

theorem save_eq_ok (files : List File) (name : String) (validated : validateState state = .ok ()) :
    ∃ file, save files name state = .ok (file :: files) ∧ read file = .ok state := by
  have saves : save files name state =
      (validateState state >>= fun _ => .ok ({ name := name, contents := some state } :: files)) :=
    rfl
  have reads : read { name := name, contents := some state } =
      (validateState state >>= fun _ => .ok state) := rfl
  rw [validated] at saves reads
  exact ⟨_, saves, reads⟩

theorem validateState_position (validated : validateState state = .ok ()) :
    state.includedIndex = 0 ↔ state.includedTerm = 0 := by
  rw [validateState] at validated
  by_contra halfZero
  rw [if_pos halfZero] at validated
  split_ifs at validated
  all_goals
    rcases Fallible.bind_eq_ok.mp validated with ⟨_, _, refused⟩
    cases refused

/-- Captures of one history are the same at the same position. -/
theorem Offers.eq_of_index {contents : Nat → State} {first second : State}
    (captures : ∀ file ∈ files, ∀ state, read file = .ok state →
      state = contents state.includedIndex)
    (offersFirst : Offers compatibility files first)
    (offersSecond : Offers compatibility files second)
    (same : first.includedIndex = second.includedIndex) : first = second := by
  rcases offersFirst with ⟨_, file, present, isRead⟩
  rcases offersSecond with ⟨_, other, otherPresent, otherRead⟩
  rw [captures file present first isRead, captures other otherPresent second otherRead, same]

/-- The position from which a core starts. -/
def positionOf (loaded : Option State) : Nat × Nat :=
  (loaded.map fun state => (state.includedIndex, state.includedTerm)).getD (0, 0)

theorem Readable.cons {identity : Identity} {file : File} {own : State}
    (readable : Readable identity files) (isRead : read file = .ok own)
    (sameIdentity : own.identity = identity) : Readable identity (file :: files) := by
  intro candidate present
  rcases List.mem_cons.mp present with same | later
  · exact ⟨own, same ▸ isRead, sameIdentity⟩
  · exact readable candidate later

end Ternion.Snapshot
