import Mathlib.Data.List.Sort
import Ternion.Foundation.Transition
import Ternion.Snapshot.Format

/-! # Snapshots in chunks

A Leader sends a file in chunks, each with the position, the length and the
checksum of the file. A Follower has one staging buffer for all of them. It
starts over with every first chunk, and takes any other one only if it
continues the staged bytes of a file with the same metadata.
-/

namespace Ternion.Snapshot

open Raft

/-! ## Sending -/

structure Stored where
  includedIndex : Nat
  includedTerm : Nat
  suffix : String
  contents : Bytes

inductive TransferError where
  | notInstalled (index term : Nat)
  | unreadable (error : FormatError)
  | offsetExceedsLength (offset length : Nat)
  deriving DecidableEq

def chunkSize : Nat := 64 * 2 ^ 10

def lastStored (files : List Stored) (index term : Nat) : Option Stored :=
  ((files.filter fun file => file.includedIndex = index ∧ file.includedTerm = term).insertionSort
    fun first second => first.suffix ≤ second.suffix).getLast?

namespace Codec

variable (codec : Codec)

def save (state : State) (suffix : String) : Except FormatError Stored := do
  let contents ← codec.encode state
  return {
    includedIndex := state.includedIndex
    includedTerm := state.includedTerm
    suffix := suffix
    contents := contents }

def encoded (files : List Stored) (index term : Nat) : Except TransferError Bytes :=
  match lastStored files index term with
  | none => .error (.notInstalled index term)
  | some file =>
      match codec.decode file.contents with
      | .error error => .error (.unreadable error)
      | .ok _ => .ok file.contents

/-- A chunk of a file. -/
def chunk (sender : NodeID) (term requestID snapshotIndex snapshotTerm offset : Nat)
    (contents : Bytes) : InstallSnapshot where
  sender := sender
  term := term
  requestID := requestID
  snapshotIndex := snapshotIndex
  snapshotTerm := snapshotTerm
  length := contents.length
  checksum := codec.checksum contents
  offset := offset
  data := (contents.drop offset).take (min (offset + chunkSize) contents.length - offset)
  done := min (offset + chunkSize) contents.length == contents.length

def sendSnapshot (sender : NodeID) (files : List Stored)
    (term requestID snapshotIndex snapshotTerm offset : Nat) :
    Except TransferError InstallSnapshot :=
  match codec.encoded files snapshotIndex snapshotTerm with
  | .error error => .error error
  | .ok contents =>
      if contents.length < offset then .error (.offsetExceedsLength offset contents.length)
      else .ok (codec.chunk sender term requestID snapshotIndex snapshotTerm offset contents)

end Codec

/-! ## Receiving -/

structure IncomingSnapshot where
  index : Nat
  term : Nat
  length : Nat
  checksum : UInt32
  data : Bytes
  deriving DecidableEq

def startOver (incoming : Option IncomingSnapshot) (request : InstallSnapshot) :
    Option IncomingSnapshot :=
  if request.offset = 0 then
    some {
      index := request.snapshotIndex
      term := request.snapshotTerm
      length := request.length
      checksum := request.checksum
      data := [] }
  else incoming

def IncomingSnapshot.continues (incoming : IncomingSnapshot) (request : InstallSnapshot) : Bool :=
  incoming.index = request.snapshotIndex ∧ incoming.term = request.snapshotTerm ∧
    incoming.length = request.length ∧ incoming.checksum = request.checksum ∧
    request.offset = incoming.data.length ∧
    request.offset + request.data.length ≤ incoming.length

/-- The buffer with the bytes of a chunk, unless the chunk is refused. -/
def stage (incoming : Option IncomingSnapshot) (request : InstallSnapshot) :
    Option IncomingSnapshot :=
  ((startOver incoming request).filter (·.continues request)).map fun staged =>
    { staged with data := staged.data ++ request.data }

def clusterMatches (got want : Identity) : Bool :=
  got.clusterID = want.clusterID ∧ got.memberIDs = want.memberIDs

def Codec.completed (codec : Codec) (identity : Identity) (staged : IncomingSnapshot) :
    Option State :=
  if staged.data.length = staged.length ∧ codec.checksum staged.data = staged.checksum then
    match codec.decode staged.data with
    | .error _ => none
    | .ok state =>
        if state.includedIndex = staged.index ∧ state.includedTerm = staged.term ∧
            clusterMatches state.identity identity then some state
        else none
  else none

/-- What the loop makes of a chunk: the buffer it keeps, the request as the core
sees it, and the state to install. -/
structure Received where
  incoming : Option IncomingSnapshot
  request : InstallSnapshot
  state : Option State

def refuse (request : InstallSnapshot) : InstallSnapshot :=
  { request with
    success := false
    nextOffset := 0 }

def accept (request : InstallSnapshot) (staged : IncomingSnapshot) : InstallSnapshot :=
  { request with
    success := true
    nextOffset := staged.data.length }

/-- The state is installed as one of this Node, whoever captured it. -/
def Codec.receive (codec : Codec) (identity : Identity) (incoming : Option IncomingSnapshot)
    (request : InstallSnapshot) : Received :=
  match stage incoming request with
  | none => ⟨startOver incoming request, refuse request, none⟩
  | some staged =>
      if request.done then
        match codec.completed identity staged with
        | none => ⟨none, refuse request, none⟩
        | some state =>
            ⟨none, { accept request staged with installed := true },
              some { state with identity := identity }⟩
      else ⟨some staged, accept request staged, none⟩

/-! ## Chunks of a file -/

structure Carries (checksum : Bytes → UInt32) (file : Stored) (request : InstallSnapshot) :
    Prop where
  index : request.snapshotIndex = file.includedIndex
  term : request.snapshotTerm = file.includedTerm
  length : request.length = file.contents.length
  checksum : request.checksum = checksum file.contents
  data : request.data = (file.contents.drop request.offset).take request.data.length
  done : request.done → file.contents.length ≤ request.offset + request.data.length

/-- Staged bytes are the beginning of a file. -/
structure Begins (checksum : Bytes → UInt32) (file : Stored) (incoming : IncomingSnapshot) :
    Prop where
  index : incoming.index = file.includedIndex
  term : incoming.term = file.includedTerm
  length : incoming.length = file.contents.length
  checksum : incoming.checksum = checksum file.contents
  data : incoming.data <+: file.contents

/-- Files with the same metadata have the same bytes, whoever stores them. -/
def Distinct (checksum : Bytes → UInt32) (directories : NodeID → List Stored) : Prop :=
  ∀ owner other, ∀ file ∈ directories owner, ∀ second ∈ directories other,
    file.includedIndex = second.includedIndex → file.includedTerm = second.includedTerm →
    file.contents.length = second.contents.length →
    checksum file.contents = checksum second.contents → file.contents = second.contents

/-- The buffer holds the beginning of a file that some Node stores. -/
def Staged (checksum : Bytes → UInt32) (directories : NodeID → List Stored)
    (incoming : Option IncomingSnapshot) : Prop :=
  ∀ staged ∈ incoming, ∃ owner, ∃ file ∈ directories owner, Begins checksum file staged

def Sent (checksum : Bytes → UInt32) (directories : NodeID → List Stored)
    (request : InstallSnapshot) : Prop :=
  request.installed = false ∧ ∃ file ∈ directories request.sender, Carries checksum file request

section Chunks

variable {codec : Codec} {files : List Stored} {index term : Nat}

theorem lastStored_eq_some {file : Stored} (found : lastStored files index term = some file) :
    file ∈ files ∧ file.includedIndex = index ∧ file.includedTerm = term := by
  have present := List.mem_of_getLast? found
  rw [List.mem_insertionSort, List.mem_filter] at present
  exact ⟨present.1, of_decide_eq_true present.2⟩

theorem encoded_eq_ok {contents : Bytes} (found : codec.encoded files index term = .ok contents) :
    ∃ file ∈ files, file.includedIndex = index ∧ file.includedTerm = term ∧
      file.contents = contents := by
  rw [Codec.encoded] at found
  cases isLast : lastStored files index term with
  | none =>
      rw [isLast] at found
      cases found
  | some file =>
      rcases lastStored_eq_some isLast with ⟨present, sameIndex, sameTerm⟩
      simp only [isLast] at found
      cases readable : codec.decode file.contents with
      | error error =>
          rw [readable] at found
          cases found
      | ok state =>
          rw [readable] at found
          exact ⟨file, present, sameIndex, sameTerm, Except.ok.inj found⟩

theorem sendSnapshot_carries {sender : NodeID} {leaderTerm requestID offset : Nat}
    {request : InstallSnapshot}
    (sent : codec.sendSnapshot sender files leaderTerm requestID index term offset = .ok request) :
    request.sender = sender ∧ request.installed = false ∧
      ∃ file ∈ files, Carries codec.checksum file request := by
  rw [Codec.sendSnapshot] at sent
  cases found : codec.encoded files index term with
  | error error =>
      rw [found] at sent
      cases sent
  | ok contents =>
      rcases encoded_eq_ok found with ⟨file, present, rfl, rfl, rfl⟩
      rw [found] at sent
      dsimp only at sent
      split_ifs at sent with beyond
      have length : (codec.chunk sender leaderTerm requestID file.includedIndex file.includedTerm
          offset file.contents).data.length =
          min (offset + chunkSize) file.contents.length - offset := by
        rw [Codec.chunk, List.length_take, List.length_drop]
        omega
      rw [← Except.ok.inj sent]
      refine ⟨rfl, rfl, file, present, rfl, rfl, rfl, rfl, ?_, fun done => ?_⟩
      · rw [length]
        rfl
      · have atEnd : min (offset + chunkSize) file.contents.length = file.contents.length :=
          beq_iff_eq.mp done
        have offset : (codec.chunk sender leaderTerm requestID file.includedIndex
            file.includedTerm offset file.contents).offset = offset := rfl
        rw [length, offset]
        omega

end Chunks

/-! ## What is staged -/

section Staging

variable {checksum : Bytes → UInt32} {directories : NodeID → List Stored}
  {incoming : Option IncomingSnapshot} {request : InstallSnapshot} {staged : IncomingSnapshot}

theorem Staged.begins (held : Staged checksum directories incoming)
    (sent : Sent checksum directories request) :
    Staged checksum directories (startOver incoming request) := by
  rw [startOver]
  split_ifs
  · rintro _ ⟨⟩
    rcases sent with ⟨_, file, present, carries⟩
    exact ⟨_, file, present, carries.index, carries.term, carries.length, carries.checksum,
      List.nil_prefix⟩
  · exact held

theorem Carries.continues {file : Stored} {data : Bytes} (carries : Carries checksum file request)
    (part : data <+: file.contents) (follows : request.offset = data.length) :
    data ++ request.data = file.contents.take (request.offset + request.data.length) := by
  have isPart : data = file.contents.take request.offset := by
    rw [follows]
    exact List.prefix_iff_eq_take.mp part
  have added := carries.data
  rw [List.take_add, ← added, ← isPart]

theorem Staged.stage (distinct : Distinct checksum directories)
    (held : Staged checksum directories incoming) (sent : Sent checksum directories request)
    (isStaged : stage incoming request = some staged) :
    ∃ file ∈ directories request.sender, Carries checksum file request ∧
      Begins checksum file staged ∧
      staged.data = file.contents.take (request.offset + request.data.length) := by
  rcases Option.map_eq_some_iff.mp isStaged with ⟨earlier, taken, rfl⟩
  rcases Option.filter_eq_some_iff.mp taken with ⟨begun, continues⟩
  rcases held.begins sent earlier begun with ⟨owner, other, otherPresent, part⟩
  rcases sent with ⟨_, file, present, carries⟩
  rcases of_decide_eq_true continues with
    ⟨sameIndex, sameTerm, sameLength, sameChecksum, follows, _⟩
  -- Both files have the metadata of the chunk.
  have same : other.contents = file.contents := by
    apply distinct _ _ other otherPresent file present
    · rw [← part.index, sameIndex, carries.index]
    · rw [← part.term, sameTerm, carries.term]
    · rw [← part.length, sameLength, carries.length]
    · rw [← part.checksum, sameChecksum, carries.checksum]
  have longer := carries.continues (same ▸ part.data) follows
  refine ⟨file, present, carries, ⟨?_, ?_, ?_, ?_, ?_⟩, longer⟩
  · exact sameIndex.trans carries.index
  · exact sameTerm.trans carries.term
  · exact sameLength.trans carries.length
  · exact sameChecksum.trans carries.checksum
  · rw [longer]
    exact List.take_prefix ..

section

variable {codec : Codec} {identity : Identity}

theorem receive_incoming (kept : (codec.receive identity incoming request).incoming = some staged) :
    startOver incoming request = some staged ∨ stage incoming request = some staged := by
  rw [Codec.receive] at kept
  cases isStaged : stage incoming request with
  | none =>
      rw [isStaged] at kept
      exact .inl kept
  | some longer =>
      simp only [isStaged] at kept
      split_ifs at kept
      · cases isComplete : codec.completed identity longer with
        | none =>
            rw [isComplete] at kept
            cases kept
        | some state =>
            rw [isComplete] at kept
            cases kept
      · exact .inr kept

/-- A request is marked as installed only with the last chunk of a file that
decodes to a Snapshot of the request's position. -/
theorem receive_installed (fresh : request.installed = false)
    (installed : (codec.receive identity incoming request).request.installed = true) :
    ∃ staged state, stage incoming request = some staged ∧ request.done = true ∧
      codec.completed identity staged = some state ∧
      (codec.receive identity incoming request).state =
        some { state with identity := identity } := by
  rw [Codec.receive] at installed ⊢
  cases isStaged : stage incoming request with
  | none =>
      rw [isStaged] at installed
      rw [refuse, fresh] at installed
      cases installed
  | some staged =>
      simp only [isStaged] at installed ⊢
      split_ifs at installed ⊢ with done
      · cases isComplete : codec.completed identity staged with
        | none =>
            simp only [isComplete, refuse, fresh] at installed
            cases installed
        | some state => exact ⟨staged, state, rfl, done, isComplete, rfl⟩
      · rw [accept, fresh] at installed
        cases installed

theorem completed_eq_some {state : State}
    (completed : codec.completed identity staged = some state) :
    staged.data.length = staged.length ∧ codec.decode staged.data = .ok state ∧
      state.includedIndex = staged.index ∧ state.includedTerm = staged.term := by
  rw [Codec.completed] at completed
  split_ifs at completed with whole
  cases decoded : codec.decode staged.data with
  | error error =>
      rw [decoded] at completed
      cases completed
  | ok other =>
      simp only [decoded] at completed
      split_ifs at completed with positioned
      cases completed
      exact ⟨whole.1, rfl, positioned.1, positioned.2.1⟩

end

section

variable {codec : Codec} {identity : Identity} (distinct : Distinct codec.checksum directories)
  (held : Staged codec.checksum directories incoming)
  (sent : Sent codec.checksum directories request)

include distinct held sent

theorem Staged.receive :
    Staged codec.checksum directories (codec.receive identity incoming request).incoming := by
  intro staged kept
  rcases receive_incoming kept with begun | isStaged
  · exact held.begins sent staged begun
  · rcases held.stage distinct sent isStaged with ⟨file, present, _, begins, _⟩
    exact ⟨_, file, present, begins⟩

theorem Staged.installs
    (installed : (codec.receive identity incoming request).request.installed = true) :
    ∃ staged ∈ Snapshot.stage incoming request, ∃ file ∈ directories request.sender,
      file.includedIndex = request.snapshotIndex ∧ file.includedTerm = request.snapshotTerm ∧
      staged.data = file.contents ∧
      ∃ state, codec.decode staged.data = .ok state ∧
        state.includedIndex = request.snapshotIndex ∧ state.includedTerm = request.snapshotTerm ∧
        (codec.receive identity incoming request).state =
          some { state with identity := identity } := by
  rcases receive_installed sent.1 installed with ⟨staged, state, isStaged, done, completed, isState⟩
  rcases held.stage distinct sent isStaged with ⟨file, present, carries, begins, longer⟩
  rcases completed_eq_some completed with ⟨_, decoded, sameIndex, sameTerm⟩
  rw [List.take_of_length_le (carries.done done)] at longer
  refine ⟨staged, isStaged, file, present, carries.index.symm, carries.term.symm, longer, state,
    decoded, ?_, ?_, isState⟩
  · rw [sameIndex, begins.index, carries.index]
  · rw [sameTerm, begins.term, carries.term]

end

/-! ## Chunks in order -/

section Ordered

variable {codec : Codec} {identity : Identity} {incoming : Option IncomingSnapshot}
  {sender : NodeID} {term requestID index snapshotTerm offset : Nat} {contents : Bytes}
  (within : offset ≤ contents.length)
  (held : offset = 0 ∨ incoming = some
    ⟨index, snapshotTerm, contents.length, codec.checksum contents, contents.take offset⟩)

include within held

/-- A chunk is taken if the bytes before it are staged. -/
theorem stage_chunk :
    stage incoming (codec.chunk sender term requestID index snapshotTerm offset contents) =
      some ⟨index, snapshotTerm, contents.length, codec.checksum contents,
        contents.take (offset + chunkSize)⟩ := by
  have begun : startOver incoming
      (codec.chunk sender term requestID index snapshotTerm offset contents) =
        some ⟨index, snapshotTerm, contents.length, codec.checksum contents,
          contents.take offset⟩ := by
    rw [startOver]
    rcases held with rfl | rfl
    · rfl
    · split_ifs with first
      · have start : offset = 0 := first
        rw [start]
        rfl
      · rfl
  have continues : IncomingSnapshot.continues
      ⟨index, snapshotTerm, contents.length, codec.checksum contents, contents.take offset⟩
      (codec.chunk sender term requestID index snapshotTerm offset contents) = true := by
    simp only [IncomingSnapshot.continues, Codec.chunk, List.length_take, List.length_drop,
      true_and, decide_eq_true_eq]
    omega
  have extended : contents.take offset ++
      (contents.drop offset).take (min (offset + chunkSize) contents.length - offset) =
        contents.take (offset + chunkSize) := by
    rw [List.take_add]
    congr 1
    rw [List.take_eq_take_iff, List.length_drop]
    omega
  rw [stage, begun, Option.filter_some, if_pos continues, ← extended]
  rfl

theorem receive_chunk (more : offset + chunkSize < contents.length) :
    (codec.receive identity incoming
      (codec.chunk sender term requestID index snapshotTerm offset contents)).incoming =
        some ⟨index, snapshotTerm, contents.length, codec.checksum contents,
          contents.take (offset + chunkSize)⟩ := by
  have unfinished : (codec.chunk sender term requestID index snapshotTerm offset contents).done =
      false := by
    simp only [Codec.chunk, beq_eq_false_iff_ne]
    omega
  rw [Codec.receive, stage_chunk within held]
  simp only [unfinished, Bool.false_eq_true, if_false]

/-- The last chunk completes the file. -/
theorem receive_lastChunk (last : contents.length ≤ offset + chunkSize)
    {state : State} (decoded : codec.decode contents = .ok state)
    (sameIndex : state.includedIndex = index) (sameTerm : state.includedTerm = snapshotTerm)
    (cluster : clusterMatches state.identity identity = true) :
    (codec.receive identity incoming
      (codec.chunk sender term requestID index snapshotTerm offset contents)).request.installed =
        true := by
  have finished : (codec.chunk sender term requestID index snapshotTerm offset contents).done =
      true := by
    simp only [Codec.chunk, beq_iff_eq]
    omega
  have whole : contents.take (offset + chunkSize) = contents := List.take_of_length_le last
  have completed : codec.completed identity ⟨index, snapshotTerm, contents.length,
      codec.checksum contents, contents⟩ = some state := by
    rw [Codec.completed, if_pos ⟨rfl, rfl⟩, decoded]
    exact if_pos ⟨sameIndex, sameTerm, cluster⟩
  rw [Codec.receive, stage_chunk within held, whole]
  simp only [finished, if_true, completed]

end Ordered

end Staging

/-! ## Transfers by any Leaders -/

namespace Transfer

/-- The files of all Nodes, every message that was ever sent to one Follower, and
its staging buffer. -/
structure State where
  directories : NodeID → List Stored := fun _ => []
  network : List InstallSnapshot := []
  incoming : Option IncomingSnapshot := none

/-- A message stays in the network. It is lost if no step delivers it. -/
inductive Label where
  | save (owner : NodeID) (state : Snapshot.State) (suffix : String)
  | send (sender : NodeID) (term requestID snapshotIndex snapshotTerm offset : Nat)
  | deliver (position : Nat)
  | restart

def State.next (codec : Codec) (identity : Identity) (state : State) : Label → Option State
  | .save owner captured suffix =>
      (codec.save captured suffix).toOption.map fun file =>
        { state with
          directories := Function.update state.directories owner
            (file :: state.directories owner) }
  | .send sender term requestID snapshotIndex snapshotTerm offset =>
      (codec.sendSnapshot sender (state.directories sender) term requestID snapshotIndex
        snapshotTerm offset).toOption.map fun request =>
        { state with network := state.network ++ [request] }
  | .deliver position =>
      state.network[position]?.map fun request =>
        { state with incoming := (codec.receive identity state.incoming request).incoming }
  | .restart => some { state with incoming := none }

def system (codec : Codec) (identity : Identity) : System State Label :=
  .ofNext {} (State.next codec identity)

variable {codec : Codec} {identity : Identity}

theorem next_directories {before after : State} {label : Label}
    (taken : before.next codec identity label = some after) {owner : NodeID} {file : Stored}
    (present : file ∈ before.directories owner) : file ∈ after.directories owner := by
  cases label with
  | save saver captured suffix =>
      rcases Option.map_eq_some_iff.mp taken with ⟨added, _, rfl⟩
      dsimp only
      by_cases same : owner = saver
      · rw [same] at present ⊢
        rw [Function.update_self]
        exact List.mem_cons_of_mem _ present
      · rw [Function.update_of_ne same]
        exact present
  | send sender term requestID snapshotIndex snapshotTerm offset =>
      rcases Option.map_eq_some_iff.mp taken with ⟨request, _, rfl⟩
      exact present
  | deliver position =>
      rcases Option.map_eq_some_iff.mp taken with ⟨request, _, rfl⟩
      exact present
  | restart =>
      cases taken
      exact present

/-- Messages carry chunks, and the buffer the beginning of a file as long as the
metadata tell files apart. -/
structure Sound (codec : Codec) (state : State) : Prop where
  saved : ∀ owner, ∀ file ∈ state.directories owner,
    ∃ captured suffix, codec.save captured suffix = .ok file
  sent : ∀ request ∈ state.network, Sent codec.checksum state.directories request
  staged : Distinct codec.checksum state.directories →
    Staged codec.checksum state.directories state.incoming

theorem Sound.next {before after : State} {label : Label} (sound : Sound codec before)
    (taken : before.next codec identity label = some after) : Sound codec after := by
  have grows : ∀ owner, before.directories owner ⊆ after.directories owner :=
    fun owner file present => next_directories taken present
  have sent : ∀ request, Sent codec.checksum before.directories request →
      Sent codec.checksum after.directories request := by
    rintro request ⟨fresh, file, present, carries⟩
    exact ⟨fresh, file, grows _ present, carries⟩
  have staged : ∀ incoming, Staged codec.checksum before.directories incoming →
      Staged codec.checksum after.directories incoming := by
    intro incoming held buffer isBuffer
    rcases held buffer isBuffer with ⟨owner, file, present, begins⟩
    exact ⟨owner, file, grows owner present, begins⟩
  have earlier : Distinct codec.checksum after.directories →
      Distinct codec.checksum before.directories :=
    fun distinct owner other file present second otherPresent =>
      distinct owner other file (grows owner present) second (grows other otherPresent)
  cases label with
  | save saver captured suffix =>
      rcases Option.map_eq_some_iff.mp taken with ⟨added, isSaved, rfl⟩
      refine ⟨fun owner file present => ?_,
        fun request present => sent request (sound.sent request present),
        fun distinct => staged _ (sound.staged (earlier distinct))⟩
      dsimp only at present
      by_cases same : owner = saver
      · rw [same, Function.update_self] at present
        rcases List.mem_cons.mp present with rfl | older
        · exact ⟨captured, suffix, Fallible.toOption_eq_some.mp isSaved⟩
        · exact sound.saved saver file older
      · rw [Function.update_of_ne same] at present
        exact sound.saved owner file present
  | send sender term requestID snapshotIndex snapshotTerm offset =>
      rcases Option.map_eq_some_iff.mp taken with ⟨request, isSent, rfl⟩
      refine ⟨sound.saved, fun message present => ?_, sound.staged⟩
      rcases List.mem_append.mp present with old | new
      · exact sound.sent message old
      · rcases sendSnapshot_carries (Fallible.toOption_eq_some.mp isSent) with
          ⟨isSender, fresh, file, stored, carries⟩
        rw [List.mem_singleton.mp new]
        exact ⟨fresh, file, isSender ▸ stored, carries⟩
  | deliver position =>
      rcases Option.map_eq_some_iff.mp taken with ⟨request, found, rfl⟩
      have delivered := sound.sent request (List.mem_of_getElem? found)
      exact ⟨sound.saved, sound.sent, fun distinct =>
        (sound.staged distinct).receive distinct delivered⟩
  | restart =>
      cases taken
      exact ⟨sound.saved, sound.sent, fun _ _ none_ => nomatch none_⟩

theorem sound_of_reachable {state : State}
    (reachable : (system codec identity).Reachable System.anyStep state) : Sound codec state := by
  apply reachable.invariant (Sound codec)
  · rintro _ rfl
    exact ⟨fun _ _ present => absurd present List.not_mem_nil,
      fun _ present => absurd present List.not_mem_nil, fun _ _ none_ => nomatch none_⟩
  · intro before label after sound _ taken
    exact sound.next taken

theorem save_eq_ok {captured : Snapshot.State} {suffix : String} {file : Stored}
    (saved : codec.save captured suffix = .ok file) :
    codec.encode captured = .ok file.contents ∧ file.includedIndex = captured.includedIndex ∧
      file.includedTerm = captured.includedTerm := by
  rcases Fallible.bind_eq_ok.mp saved with ⟨contents, encoded, isFile⟩
  rw [← Except.ok.inj isFile]
  exact ⟨encoded, rfl, rfl⟩

/-- At every moment the staged bytes are the beginning of one Node's file, and
what is installed is the whole file of the request's sender. -/
theorem reassembles (codec : Codec) (identity : Identity) (state : State)
    (reachable : (system codec identity).Reachable System.anyStep state)
    (distinct : Distinct codec.checksum state.directories) :
    Staged codec.checksum state.directories state.incoming ∧
      ∀ request ∈ state.network,
        (∀ staged ∈ stage state.incoming request, ∃ file ∈ state.directories request.sender,
          Begins codec.checksum file staged) ∧
        ((codec.receive identity state.incoming request).request.installed = true →
          ∃ staged ∈ stage state.incoming request, ∃ file ∈ state.directories request.sender,
            file.includedIndex = request.snapshotIndex ∧
            file.includedTerm = request.snapshotTerm ∧ staged.data = file.contents ∧
            ∃ decoded, codec.decode staged.data = .ok decoded ∧
              decoded.includedIndex = request.snapshotIndex ∧
              decoded.includedTerm = request.snapshotTerm ∧
              (codec.receive identity state.incoming request).state =
                some { decoded with identity := identity }) := by
  have sound := sound_of_reachable reachable
  have held := sound.staged distinct
  refine ⟨held, fun request present => ⟨fun staged isStaged => ?_, ?_⟩⟩
  · rcases held.stage distinct (sound.sent request present) isStaged with
      ⟨file, stored, _, begins, _⟩
    exact ⟨file, stored, begins⟩
  · exact held.installs distinct (sound.sent request present)

/-! ## A file of two chunks

Two Nodes captured one history at different positions. The receiver gets the
first chunk of either file in turns, and then the rest of one of them. -/

section Sample

variable (value : Bytes)

/-- A session that has set a value, as a Node captured it at a position. -/
def sampleState (owner : NodeID) (index : Nat) : Snapshot.State where
  identity := ⟨"cluster", owner, ["a", "b", "c"]⟩
  includedIndex := index
  includedTerm := 1
  values := (∅ : Std.ExtTreeMap String Bytes).insert "k" value
  sessions := [⟨.replicate 16 1, false, 1, 0, false⟩]

def sessionBytes (session : Session) : Bytes :=
  session.id.toList ++ bigEndian 8 session.lastSequence ++
    [session.lastResult, UInt8.ofNat session.closed.toNat,
      UInt8.ofNat session.lastDeleteExisted.toNat]

def valueBytes (key : String) (value : Bytes) : Bytes :=
  bigEndian 4 key.utf8ByteSize ++ key.toUTF8.data.toList ++ (bigEndian 4 value.length ++ value)

/-- The position, the sessions and the values of a state. -/
def sampleBytes (state : Snapshot.State) : Bytes :=
  bigEndian 8 state.includedIndex ++ (bigEndian 8 state.includedTerm ++
    (state.sessions.flatMap sessionBytes ++
      state.values.toList.flatMap fun (key, value) => valueBytes key value))

/-- The two states are told apart by their bytes. -/
def sampleCodec : Codec where
  checksum := fun contents => UInt32.ofNat contents.length
  marshal := sampleBytes
  unmarshal := fun payload =>
    [sampleState value "a" 3, sampleState value "c" 2].find? fun state =>
      decide (sampleBytes state = payload)

def sampleFile (owner : NodeID) (index : Nat) : Stored where
  includedIndex := index
  includedTerm := 1
  suffix := "1"
  contents := (sampleCodec value).header (sampleBytes (sampleState value owner index)) ++
    sampleBytes (sampleState value owner index)

def sampleChunk (owner : NodeID) (index requestID offset : Nat) : InstallSnapshot :=
  (sampleCodec value).chunk owner 1 requestID index 1 offset (sampleFile value owner index).contents

/-- The receiver holds the first chunk of the file of `a`, after one of `c`. -/
def sampleTransfer : State where
  directories := Function.update (Function.update (fun _ => []) "a" [sampleFile value "a" 3]) "c"
    [sampleFile value "c" 2]
  network := [sampleChunk value "a" 3 1 0, sampleChunk value "c" 2 2 0,
    sampleChunk value "a" 3 3 chunkSize]
  incoming := some ⟨3, 1, (sampleFile value "a" 3).contents.length,
    (sampleCodec value).checksum (sampleFile value "a" 3).contents,
    (sampleFile value "a" 3).contents.take chunkSize⟩

def receiver : Identity := ⟨"cluster", "b", ["a", "b", "c"]⟩

variable {value : Bytes}

theorem sampleFile_length (value : Bytes) (owner : NodeID) (index : Nat) :
    (sampleFile value owner index).contents.length = 76 + value.length := by
  have stored : (sampleState value owner index).values.toList = [("k", value)] := rfl
  have key : "k".toUTF8.data.toList = [107] := by decide +kernel
  rw [sampleFile, List.length_append, Codec.length_header, sampleBytes, stored]
  simp only [sampleState, valueBytes, sessionBytes, key, List.flatMap_cons, List.flatMap_nil,
    List.length_append, List.append_nil, length_bigEndian, Vector.length_toList, List.length_cons,
    List.length_nil, headerSize, magic]
  omega

theorem sampleBytes_ne :
    sampleBytes (sampleState value "a" 3) ≠ sampleBytes (sampleState value "c" 2) := by
  intro same
  have first := congrArg (List.take 8) same
  rw [sampleBytes, sampleBytes, List.take_left' (length_bigEndian ..),
    List.take_left' (length_bigEndian ..)] at first
  have equal : bigEndian 8 3 = bigEndian 8 2 := first
  exact absurd equal (by decide)

/-- A state that can be saved and read back. -/
structure Saves (value : Bytes) (owner : NodeID) (index : Nat) : Prop where
  validated : validateState (sampleState value owner index) = .ok ()
  readBack : (sampleCodec value).unmarshal (sampleBytes (sampleState value owner index)) =
    some (sampleState value owner index)

/-- The values are not validated. -/
theorem validateState_sample (owner : NodeID) (index : Nat) :
    validateState (sampleState value owner index) = validateState (sampleState [] owner index) :=
  rfl

theorem saves_a : Saves value "a" 3 where
  validated := (validateState_sample ..).trans (by decide +kernel)
  readBack := by simp [sampleCodec]

theorem saves_c : Saves value "c" 2 where
  validated := (validateState_sample ..).trans (by decide +kernel)
  readBack := by simp [sampleCodec, sampleBytes_ne]

namespace Saves

variable {owner : NodeID} {index : Nat} (saves : Saves value owner index)
  (long : value.length = 70000)

include saves long

theorem encoded : (sampleCodec value).encode (sampleState value owner index) =
    .ok (sampleFile value owner index).contents := by
  apply Codec.encode_eq saves.validated
  have length := sampleFile_length value owner index
  rw [sampleFile, List.length_append, Codec.length_header] at length
  change (sampleBytes (sampleState value owner index)).length ≤ _
  rw [maxPayloadSize]
  omega

theorem decoded : (sampleCodec value).decode (sampleFile value owner index).contents =
    .ok (sampleState value owner index) :=
  Codec.decode_encode saves.readBack (saves.encoded long)

theorem save (state : State) :
    (system (sampleCodec value) receiver).step state
      (.save owner (sampleState value owner index) "1")
      { state with
        directories := Function.update state.directories owner
          (sampleFile value owner index :: state.directories owner) } := by
  have saved : (sampleCodec value).save (sampleState value owner index) "1" =
      .ok (sampleFile value owner index) := by
    rw [Codec.save, saves.encoded long]
    rfl
  change State.next _ _ _ _ = _
  rw [State.next, saved]
  rfl

theorem send (state : State) (stored : state.directories owner = [sampleFile value owner index])
    (requestID : Nat) {offset : Nat}
    (within : offset ≤ (sampleFile value owner index).contents.length) :
    (system (sampleCodec value) receiver).step state (.send owner 1 requestID index 1 offset)
      { state with network := state.network ++
        [sampleChunk value owner index requestID offset] } := by
  have last : lastStored [sampleFile value owner index] index 1 =
      some (sampleFile value owner index) := by
    simp [lastStored, sampleFile]
  have found : (sampleCodec value).encoded [sampleFile value owner index] index 1 =
      .ok (sampleFile value owner index).contents := by
    rw [Codec.encoded, last]
    dsimp only
    rw [saves.decoded long]
  have sent : (sampleCodec value).sendSnapshot owner [sampleFile value owner index] 1 requestID
      index 1 offset = .ok (sampleChunk value owner index requestID offset) := by
    rw [Codec.sendSnapshot, found]
    exact if_neg (Nat.not_lt.mpr within)
  change State.next _ _ _ _ = _
  rw [State.next, stored, sent]
  rfl

end Saves

theorem deliver_first (long : value.length = 70000) {owner : NodeID} {index requestID : Nat}
    {state : State} {position : Nat}
    (found : state.network[position]? = some (sampleChunk value owner index requestID 0)) :
    (system (sampleCodec value) receiver).step state (.deliver position) { state with
      incoming := some ⟨index, 1, (sampleFile value owner index).contents.length,
        (sampleCodec value).checksum (sampleFile value owner index).contents,
        (sampleFile value owner index).contents.take chunkSize⟩ } := by
  have length := sampleFile_length value owner index
  have more : 0 + chunkSize < (sampleFile value owner index).contents.length := by
    rw [length, long]
    decide
  have taken : ((sampleCodec value).receive receiver state.incoming
      (sampleChunk value owner index requestID 0)).incoming = _ :=
    receive_chunk (Nat.zero_le _) (.inl rfl) more
  rw [Nat.zero_add] at taken
  change State.next _ _ _ _ = _
  rw [State.next, found, Option.map_some, taken]

theorem sampleTransfer_reachable (long : value.length = 70000) {permitted : State → Label → Prop}
    (saveA : ∀ state, permitted state (.save "a" (sampleState value "a" 3) "1"))
    (saveC : ∀ state, permitted state (.save "c" (sampleState value "c" 2) "1"))
    (sends : ∀ state sender term requestID index snapshotTerm offset,
      permitted state (.send sender term requestID index snapshotTerm offset))
    (delivers : ∀ state position, permitted state (.deliver position)) :
    (system (sampleCodec value) receiver).Reachable permitted (sampleTransfer value) := by
  have inside : chunkSize ≤ (sampleFile value "a" 3).contents.length := by
    rw [sampleFile_length, long]
    decide
  have storedA : (sampleTransfer value).directories "a" = [sampleFile value "a" 3] := by
    simp [sampleTransfer]
  have storedC : (sampleTransfer value).directories "c" = [sampleFile value "c" 2] := by
    simp [sampleTransfer]
  have saved : (system (sampleCodec value) receiver).Reachable permitted
      ⟨(sampleTransfer value).directories, [], none⟩ :=
    .step (.step (.initial rfl) (saveA _) (saves_a.save long {})) (saveC _) (saves_c.save long _)
  have sentA := saved.step (sends ..) (saves_a.send long
    ⟨(sampleTransfer value).directories, [], none⟩ storedA 1 (Nat.zero_le _))
  have sentC := sentA.step (sends ..) (saves_c.send long
    ⟨(sampleTransfer value).directories, [sampleChunk value "a" 3 1 0], none⟩ storedC 2
    (Nat.zero_le _))
  have sent := sentC.step (sends ..) (saves_a.send long
    ⟨(sampleTransfer value).directories,
      [sampleChunk value "a" 3 1 0, sampleChunk value "c" 2 2 0], none⟩ storedA 3 inside)
  exact .step (.step (.step sent (delivers _ 0) (deliver_first long rfl))
    (delivers _ 1) (deliver_first long rfl)) (delivers _ 0) (deliver_first long rfl)

theorem sampleTransfer_distinct :
    Distinct (sampleCodec value).checksum (sampleTransfer value).directories := by
  have only : ∀ owner, ∀ file ∈ (sampleTransfer value).directories owner,
      file = sampleFile value "a" 3 ∨ file = sampleFile value "c" 2 := by
    intro owner file present
    simp only [sampleTransfer, Function.update_apply] at present
    split_ifs at present
    · exact .inr (List.mem_singleton.mp present)
    · exact .inl (List.mem_singleton.mp present)
    · cases present
  intro owner other file present second otherPresent sameIndex _ _ _
  rcases only owner file present with rfl | rfl
  · rcases only other second otherPresent with rfl | rfl
    · rfl
    · cases sameIndex
  · rcases only other second otherPresent with rfl | rfl
    · cases sameIndex
    · rfl

theorem sampleTransfer_installs (long : value.length = 70000) :
    ((sampleCodec value).receive receiver (sampleTransfer value).incoming
      (sampleChunk value "a" 3 3 chunkSize)).request.installed = true := by
  have length := sampleFile_length value "a" 3
  rw [long] at length
  apply receive_lastChunk _ (.inr rfl) _ (saves_a.decoded long) rfl rfl rfl
  · rw [length]
    decide
  · rw [length]
    decide

end Sample

/-- The file of `a` is installed from its two chunks. -/
theorem reassembles_saved : ∃ value : Bytes, value.length = 70000 ∧
    let request := sampleChunk value "a" 3 3 chunkSize
    ((sampleCodec value).receive receiver (sampleTransfer value).incoming
        request).request.installed = true ∧
      ∃ staged ∈ stage (sampleTransfer value).incoming request,
        ∃ file ∈ (sampleTransfer value).directories request.sender,
          staged.data = file.contents ∧ request.length = 70076 := by
  have bulk : ∃ value : Bytes, value.length = 70000 :=
    ⟨List.replicate 70000 7, List.length_replicate⟩
  rcases bulk with ⟨value, long⟩
  have reachable : (system (sampleCodec value) receiver).Reachable System.anyStep
      (sampleTransfer value) :=
    sampleTransfer_reachable long (fun _ => trivial) (fun _ => trivial)
      (fun _ _ _ _ _ _ _ => trivial) fun _ _ => trivial
  have sent : sampleChunk value "a" 3 3 chunkSize ∈ (sampleTransfer value).network := by
    simp [sampleTransfer]
  have installs := sampleTransfer_installs long
  rcases ((reassembles _ _ _ reachable sampleTransfer_distinct).2 _ sent).2 installs with
    ⟨staged, isStaged, file, stored, _, _, whole, _⟩
  have length : (sampleChunk value "a" 3 3 chunkSize).length = 76 + value.length :=
    sampleFile_length value "a" 3
  exact ⟨value, long, installs, staged, isStaged, file, stored, whole, by rw [length, long]⟩

end Transfer

end Ternion.Snapshot
