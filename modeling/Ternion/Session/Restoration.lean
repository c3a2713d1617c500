import Ternion.Session.Capture
import Ternion.Snapshot.Transfer

/-! # Snapshots carry the state of a Node

The file of a Snapshot restores the state it was captured from, on the Node that
saved it and on any Node that received it in chunks.
-/

namespace Ternion.Session

open Raft Snapshot

/-- A Snapshot of the state that entries lead to, which its JSON preserves. -/
structure Captured (codec : Codec) (limit : Nat) (entries : List LogEntry)
    (state : Snapshot.State) : Prop where
  image : (Machine.applyAll { limit := limit } entries).snapshot state.identity
    state.includedIndex state.includedTerm = state
  readBack : codec.unmarshal (codec.marshal state) = some state

/-- A machine with the same limit restores what the entries lead to. -/
def Restores (limit : Nat) (entries : List LogEntry) (state : Snapshot.State) : Prop :=
  ∀ machine : Machine, machine.limit = limit →
    machine.restore (some state) = .ok (Machine.applyAll { limit := limit } entries)

variable {codec : Codec} {limit : Nat} {entries : List LogEntry} {state : Snapshot.State}

/-- The identity of the Node plays no part. -/
theorem Captured.restores (captured : Captured codec limit entries state) (identity : Identity) :
    Restores limit entries { state with identity := identity } := by
  intro machine sameLimit
  have restored := Machine.restore_snapshot
    (Machine.applyAll_counted (Machine.new_counted limit) entries)
    (sameLimit.trans (Machine.applyAll_limit { limit := limit } entries).symm) identity
    state.includedIndex state.includedTerm
  rw [← captured.image]
  exact restored

/-- A captured state can be saved, and its file restores the state. -/
theorem saved_restores (codec : Codec) (limit : Nat) (entries : List LogEntry)
    (state : Snapshot.State) (captured : Captured codec limit entries state)
    (valid : Machine.ValidIdentity state.identity)
    (position : state.includedIndex = 0 ↔ state.includedTerm = 0)
    (small : (codec.marshal state).length ≤ maxPayloadSize) :
    ∃ contents decoded, codec.encode state = .ok contents ∧
      codec.decode contents = .ok decoded ∧ Restores limit entries decoded := by
  have validated : validateState state = .ok () := by
    rw [← captured.image]
    exact Machine.validateState_snapshot _ valid position
  have encoded := Codec.encode_eq validated small
  exact ⟨_, state, encoded, Codec.decode_encode captured.readBack encoded,
    captured.restores state.identity⟩

/-- A session is opened and sets a value, before an entry of the next Leader. -/
def sampleEntries (value : Bytes) : List LogEntry :=
  [{ index := 1, term := 1, type := .openSession, sessionID := .replicate 16 1 },
    { index := 2, term := 1, type := .set, sessionID := .replicate 16 1, sequence := 1, key := "k",
      value := value },
    { index := 3, term := 1, type := .noOp }]

/-- A value set in a session opened just before. -/
theorem applyAll_sampleEntries (value : Bytes) :
    Machine.applyAll { limit := 1 } ((sampleEntries value).take 2) = {
      limit := 1
      active := 1
      sessions := (∅ : Std.ExtTreeMap SessionID SessionRecord).insert (.replicate 16 1)
        { lastSequence := 1 }
      values := (∅ : Std.ExtTreeMap String Bytes).insert "k" value } := by
  have overwritten (id : SessionID) (first second : SessionRecord) :
      ((∅ : Std.ExtTreeMap SessionID SessionRecord).insert id first).insert id second =
        (∅ : Std.ExtTreeMap SessionID SessionRecord).insert id second := by
    apply Std.ExtTreeMap.ext_getElem?
    intro other
    simp only [Std.ExtTreeMap.getElem?_insert]
    split <;> rfl
  simp [sampleEntries, Machine.applyAll, Machine.apply, Machine.applyOpen, Machine.applySet,
    Machine.evaluateMutation, Machine.recordMutation, overwritten]

theorem captured_a (value : Bytes) : Captured (Transfer.sampleCodec value) 1 (sampleEntries value)
    (Transfer.sampleState value "a" 3) where
  image := by
    have applied : Machine.applyAll { limit := 1 } (sampleEntries value) =
        Machine.applyAll { limit := 1 } ((sampleEntries value).take 2) := rfl
    rw [applied, applyAll_sampleEntries]
    rfl
  readBack := Transfer.saves_a.readBack

theorem captured_c (value : Bytes) : Captured (Transfer.sampleCodec value) 1
    ((sampleEntries value).take 2) (Transfer.sampleState value "c" 2) where
  image := by
    rw [applyAll_sampleEntries]
    rfl
  readBack := Transfer.saves_c.readBack

theorem saved_restores_sample : ∃ contents decoded,
    (Transfer.sampleCodec [7, 8]).encode (Transfer.sampleState [7, 8] "a" 3) = .ok contents ∧
      (Transfer.sampleCodec [7, 8]).decode contents = .ok decoded ∧
      Restores 1 (sampleEntries [7, 8]) decoded :=
  saved_restores _ 1 _ _ (captured_a [7, 8]) ⟨by decide +kernel, by decide +kernel, rfl,
    by decide +kernel, by decide⟩ (by decide) (by decide +kernel)

/-! ## Transfers -/

open Transfer

/-- Nodes save captured states only. -/
def capturesOnly (codec : Codec) (limit : Nat) : Transfer.State → Label → Prop
  | _, .save _ state _ => ∃ entries, Captured codec limit entries state
  | _, _ => True

theorem stored_captured {identity : Identity} {transfer : Transfer.State}
    (reachable : (system codec identity).Reachable (capturesOnly codec limit) transfer) :
    ∀ owner, ∀ file ∈ transfer.directories owner, ∃ state suffix entries,
      codec.save state suffix = .ok file ∧ Captured codec limit entries state := by
  induction reachable with
  | initial isInitial =>
      cases isInitial
      exact fun _ _ present => (List.not_mem_nil present).elim
  | @step before label after _ captures taken induction =>
      intro owner file present
      cases label with
      | save saver state suffix =>
          rcases Option.map_eq_some_iff.mp taken with ⟨added, isSaved, rfl⟩
          rcases captures with ⟨entries, captured⟩
          dsimp only at present
          by_cases same : owner = saver
          · rw [same, Function.update_self] at present
            rcases List.mem_cons.mp present with rfl | older
            · exact ⟨state, suffix, entries, Fallible.toOption_eq_some.mp isSaved, captured⟩
            · exact induction saver file older
          · rw [Function.update_of_ne same] at present
            exact induction owner file present
      | send | deliver =>
          rcases Option.map_eq_some_iff.mp taken with ⟨_, _, rfl⟩
          exact induction owner file present
      | restart =>
          cases taken
          exact induction owner file present

/-- What a Follower installs restores the state that the sender captured at the
position of the request. -/
theorem transfer_restores (codec : Codec) (identity : Identity) (limit : Nat)
    (transfer : Transfer.State)
    (reachable : (system codec identity).Reachable (capturesOnly codec limit) transfer)
    (distinct : Distinct codec.checksum transfer.directories) (request : InstallSnapshot)
    (sent : request ∈ transfer.network)
    (installed : (codec.receive identity transfer.incoming request).request.installed = true) :
    ∃ entries state received, ∃ file ∈ transfer.directories request.sender,
      codec.encode state = .ok file.contents ∧ Captured codec limit entries state ∧
      state.includedIndex = request.snapshotIndex ∧ state.includedTerm = request.snapshotTerm ∧
      (codec.receive identity transfer.incoming request).state = some received ∧
      Restores limit entries received := by
  have sound := sound_of_reachable (reachable.weaken fun _ _ _ => trivial)
  rcases (sound.staged distinct).installs distinct (sound.sent request sent) installed with
    ⟨staged, _, file, present, sameIndex, sameTerm, whole, decoded, isDecoded, _, _, isState⟩
  rcases stored_captured reachable _ file present with ⟨state, suffix, entries, isSaved, captured⟩
  rcases save_eq_ok isSaved with ⟨encoded, isIndex, isTerm⟩
  rw [whole, Codec.decode_encode captured.readBack encoded] at isDecoded
  rw [← Except.ok.inj isDecoded] at isState
  exact ⟨entries, state, _, file, present, encoded, captured, isIndex.symm.trans sameIndex,
    isTerm.symm.trans sameTerm, isState, captured.restores identity⟩

/-- The file of `a` arrives in two chunks, between which one of `c` does, and
restores the session and its value. -/
theorem transfer_restores_sample : ∃ value : Bytes, value.length = 70000 ∧
    ∃ received, ((sampleCodec value).receive receiver (sampleTransfer value).incoming
        (sampleChunk value "a" 3 3 chunkSize)).state = some received ∧
      ∃ entries, Restores 1 entries received := by
  have bulk : ∃ value : Bytes, value.length = 70000 :=
    ⟨List.replicate 70000 7, List.length_replicate⟩
  rcases bulk with ⟨value, long⟩
  have reachable : (system (sampleCodec value) receiver).Reachable
      (capturesOnly (sampleCodec value) 1) (sampleTransfer value) :=
    sampleTransfer_reachable long (fun _ => ⟨_, captured_a value⟩) (fun _ => ⟨_, captured_c value⟩)
      (fun _ _ _ _ _ _ _ => trivial) fun _ _ => trivial
  have sent : sampleChunk value "a" 3 3 chunkSize ∈ (sampleTransfer value).network := by
    simp [sampleTransfer]
  rcases transfer_restores _ _ 1 _ reachable sampleTransfer_distinct _ sent
    (sampleTransfer_installs long) with ⟨entries, _, received, _, _, _, _, _, _, isState, restores⟩
  exact ⟨value, long, received, isState, entries, restores⟩

end Ternion.Session
