import Ternion.Cluster.Basic
import Ternion.Raft.Course

/-! # What leaves a Node

A Node names itself as the sender of its messages, addresses other Nodes, and
carries no Term above its own. It speaks as a Leader only in Terms that it led.
Messages that wait for something to become durable keep to the same rules.
-/

namespace Ternion.Cluster

open Raft

section Proper

variable (led : Nat → Prop) (id : NodeID) (term : Nat)

variable {action : Action}

/-- What Node `id` may send in `term`, other than an answer to a pre-vote. -/
def Proper : Action → Prop
  | .sendPreVoteRequest receiver request => receiver ≠ id ∧ request.sender = id
  | .sendPreVoteResponse _ _ => False
  | .sendVoteRequest receiver request =>
      receiver ≠ id ∧ request.sender = id ∧ request.term ≤ term
  | .sendVoteResponse receiver response =>
      receiver ≠ id ∧ response.sender = id ∧ response.term ≤ term
  | .sendAppendEntries receiver request =>
      receiver ≠ id ∧ request.sender = id ∧ request.term ≤ term ∧ led request.term
  | .sendAppendEntriesResponse receiver response =>
      receiver ≠ id ∧ response.sender = id ∧ response.term ≤ term
  | .sendInstallSnapshotResponse receiver response =>
      receiver ≠ id ∧ response.sender = id ∧ response.term ≤ term
  | _ => True

end Proper

variable {led wider : Nat → Prop} {id : NodeID} {term later : Nat}

theorem Proper.mono (proper : Proper led id term action)
    (widens : ∀ {reached}, led reached → wider reached) (grows : term ≤ later) :
    Proper wider id later action := by
  cases action with
  | sendVoteRequest | sendVoteResponse | sendAppendEntriesResponse
  | sendInstallSnapshotResponse => exact ⟨proper.1, proper.2.1, Nat.le_trans proper.2.2 grows⟩
  | sendAppendEntries =>
      exact ⟨proper.1, proper.2.1, Nat.le_trans proper.2.2.1 grows, widens proper.2.2.2⟩
  | sendPreVoteRequest => exact proper
  | sendPreVoteResponse => exact proper
  | _ => trivial

/-- What the envelope of a proper message says. -/
structure Courteous (led : Nat → Prop) (id : NodeID) (term : Nat) (sent : Envelope) : Prop where
  sender : sent.message.sender = some id
  receiver : sent.receiver ≠ id
  carries : ∀ carried, sent.message.carries = some carried → carried ≤ term
  leads : ∀ request, sent.message = .appendEntries request → led request.term
  decided : ∀ response, sent.message ≠ .preVoteResponse response

theorem Proper.courteous (proper : Proper led id term action) {sent : Envelope}
    (isSent : envelope action = some sent) : Courteous led id term sent := by
  have within : ∀ {reached : Nat}, reached ≤ term →
      ∀ carried, some reached = some carried → carried ≤ term := by
    intro reached bound carried same
    exact Option.some.inj same ▸ bound
  cases action <;> cases isSent
  case sendPreVoteResponse => exact proper.elim
  case sendPreVoteRequest => exact ⟨congrArg some proper.2, proper.1, nofun, nofun, nofun⟩
  case sendAppendEntries receiver request =>
    rcases proper with ⟨other, own, bound, isLed⟩
    refine ⟨congrArg some own, other, within bound, ?_, nofun⟩
    rintro _ ⟨⟩
    exact isLed
  all_goals
    rcases proper with ⟨other, own, bound⟩
    exact ⟨congrArg some own, other, within bound, nofun, nofun⟩

/-! ## Parts of a transition -/

/-- The part of a Node that its messages depend on. -/
structure Mail where
  id : NodeID
  peers : List NodeID
  term : Nat
  pendingHardState : Nat → Option PendingHardStatePersistence
  pendingLog : Nat → Option PendingLogPersistence
  pendingCommit : Nat → Option PendingCommitPersistence

def mail (node : Node) : Mail where
  id := node.id
  peers := node.peers
  term := node.term
  pendingHardState := node.pendingHardState
  pendingLog := node.pendingLog
  pendingCommit := node.pendingCommit

/-- Whatever waits is proper, and the answers that will follow a write go to
other Nodes. -/
structure Poised (led : Nat → Prop) (mail : Mail) : Prop where
  others : ∀ peer ∈ mail.peers, peer ≠ mail.id
  hardStates : ∀ {persistenceID pending}, mail.pendingHardState persistenceID = some pending →
    ∀ action ∈ pending.after, Proper led mail.id mail.term action
  logs : ∀ {persistenceID pending}, mail.pendingLog persistenceID = some pending →
    pending.leader ≠ mail.id ∨ pending.purpose = .persistLeaderEntry
  commits : ∀ {persistenceID pending}, mail.pendingCommit persistenceID = some pending →
    ∀ action ∈ pending.after, Proper led mail.id mail.term action

/-- A transition, or a part of one, that only sends what is proper. -/
structure Sends (led : Nat → Prop) (node : Node) (result : Node × List Action) : Prop where
  id : result.1.id = node.id
  term : node.term ≤ result.1.term
  poised : Poised led (mail result.1)
  actions : ∀ action ∈ result.2, Proper led node.id result.1.term action

/-- A new Term keeps proper what was. -/
theorem Poised.reach {node : Mail} (poised : Poised led node) (grows : node.term ≤ later) :
    Poised led { node with term := later } where
  others := poised.others
  hardStates := fun found action present =>
    (poised.hardStates found action present).mono (fun isLed => isLed) grows
  logs := poised.logs
  commits := fun found action present =>
    (poised.commits found action present).mono (fun isLed => isLed) grows

theorem Poised.widen {led wider : Nat → Prop} {mail : Mail} (poised : Poised led mail)
    (widens : ∀ {term}, led term → wider term) : Poised wider mail where
  others := poised.others
  hardStates := fun found action present =>
    (poised.hardStates found action present).mono widens (Nat.le_refl _)
  logs := poised.logs
  commits := fun found action present =>
    (poised.commits found action present).mono widens (Nat.le_refl _)

namespace Sends

variable {node middle : Node} {result : Node × List Action}

theorem quiet (poised : Poised led (mail node)) (same : mail result.1 = mail node)
    (proper : ∀ action ∈ result.2, Proper led node.id node.term action) :
    Sends led node result := by
  have sameTerm : result.1.term = node.term := congrArg Mail.term same
  refine ⟨congrArg Mail.id same, sameTerm.ge, same ▸ poised, ?_⟩
  rw [sameTerm]
  exact proper

theorem following (sends : Sends led middle result) (sameID : middle.id = node.id)
    (grows : node.term ≤ middle.term) : Sends led node result where
  id := sends.id.trans sameID
  term := Nat.le_trans grows sends.term
  poised := sends.poised
  actions := sameID ▸ sends.actions

section

variable (sends : Sends led node result)

include sends

theorem cons (proper : Proper led node.id result.1.term action) :
    Sends led node (result.1, action :: result.2) :=
  ⟨sends.id, sends.term, sends.poised, List.forall_mem_cons.mpr ⟨proper, sends.actions⟩⟩

/-- Further actions, and changes that leave the messages alone. -/
theorem surround {after : Node} {leading trailing : List Action} (same : mail after = mail result.1)
    (early : ∀ action ∈ leading, Proper led node.id result.1.term action)
    (late : ∀ action ∈ trailing, Proper led node.id result.1.term action) :
    Sends led node (after, leading ++ (result.2 ++ trailing)) := by
  have sameTerm : after.term = result.1.term := congrArg Mail.term same
  refine ⟨(congrArg Mail.id same).trans sends.id, ?_, same ▸ sends.poised, ?_⟩
  · rw [sameTerm]
    exact sends.term
  · rw [sameTerm]
    intro action present
    rcases List.mem_append.mp present with first | later
    · exact early action first
    rcases List.mem_append.mp later with second | last
    · exact sends.actions action second
    · exact late action last

theorem persistHardState :
    Sends led node (result.1.persistHardState result.2) where
  id := sends.id
  term := sends.term
  poised := by
    refine ⟨sends.poised.others, ?_, sends.poised.logs, sends.poised.commits⟩
    intro persistenceID pending found
    simp only [mail, Node.persistHardState, Function.update_apply] at found
    split_ifs at found
    · rw [← Option.some.inj found]
      have proper := sends.actions
      rw [← sends.id] at proper
      exact proper
    · exact sends.poised.hardStates found
  actions := List.forall_mem_singleton.mpr trivial

theorem persistTermChange (changed : Bool) :
    Sends led node (Node.persistTermChange changed result) := by
  cases changed with
  | false => exact sends
  | true => exact sends.persistHardState

theorem persistCommit :
    Sends led node (result.1.persistCommit result.2) where
  id := sends.id
  term := sends.term
  poised := by
    refine ⟨sends.poised.others, sends.poised.hardStates, sends.poised.logs, ?_⟩
    intro persistenceID pending found
    simp only [mail, Node.persistCommit, Function.update_apply] at found
    split_ifs at found
    · rw [← Option.some.inj found]
      have proper := sends.actions
      rw [← sends.id] at proper
      exact proper
    · exact sends.poised.commits found
  actions := List.forall_mem_singleton.mpr trivial

end

theorem persistLog (poised : Poised led (mail node)) (entries : List LogEntry)
    {pending : PendingLogPersistence}
    (addressed : pending.leader ≠ node.id ∨ pending.purpose = .persistLeaderEntry) :
    Sends led node (node.persistLog entries pending) where
  id := rfl
  term := Nat.le_refl _
  poised := by
    refine ⟨poised.others, poised.hardStates, ?_, poised.commits⟩
    intro persistenceID other found
    simp only [mail, Node.persistLog, Function.update_apply] at found
    split_ifs at found
    · rw [← Option.some.inj found]
      exact addressed
    · exact poised.logs found
  actions := List.forall_mem_singleton.mpr trivial

end Sends

/-! ## Every transition -/

variable {node origin : Node} {event : Event} {result : Node × List Action}

theorem reports_proper (reports : Node.Reports action) : Proper led id term action := by
  cases reports <;> trivial

theorem isLocal_proper (isLocal : action.isLocal = true) : Proper led id term action := by
  cases action <;> trivial

theorem Poised.elects (poised : Poised led (mail node))
    (foreign : ∀ sender, event.sender = some sender → sender ≠ node.id)
    (elects : node.Elects event action) : Proper led node.id node.term action := by
  cases elects with
  | resetElectionTimer => trivial
  | preVoteRequest isPeer own => exact ⟨poised.others _ isPeer, own⟩
  | voteRequest isPeer own current => exact ⟨poised.others _ isPeer, own, current.le⟩
  | grantedVote isRequest => exact ⟨foreign _ (by rw [isRequest]; rfl), rfl, Nat.le_refl _⟩

/-- What makes the messages of a transition proper. -/
structure Polite (led : Nat → Prop) (event : Event) (node : Node) : Prop where
  poised : Poised led (mail node)
  leads : node.role = .leader → led node.term
  foreign : ∀ sender, event.sender = some sender → sender ≠ node.id
  unprobed : ∀ request, event ≠ .preVoteRequest request

theorem Polite.emits (polite : Polite led event node) (waits : Poised led (mail origin))
    (sameID : node.id = origin.id) (emits : Node.Emits event origin node action) :
    Proper led node.id node.term action := by
  have foreign : ∀ sender, event.sender = some sender → sender ≠ node.id := polite.foreign
  cases emits with
  | runtime isLocal => exact isLocal_proper isLocal
  | entries leads keeps known =>
      rcases keeps with ⟨_, rfl⟩
      exact ⟨known.elim (polite.poised.others _) (foreign _), rfl, Nat.le_refl _,
        polite.leads leads⟩
  | snapshot => trivial
  | preVoteResponse isRequest => exact absurd isRequest (polite.unprobed _)
  | acknowledged _ found follower =>
      rcases waits.logs found with other | leader
      · exact ⟨sameID ▸ other, rfl, Nat.le_refl _⟩
      · rw [follower] at leader
        cases leader
  | refusedVote isRequest | rejected isRequest | confirmed isRequest | installResponse isRequest =>
      exact ⟨foreign _ (by rw [isRequest]; rfl), rfl, Nat.le_refl _⟩

theorem appendOwnEntry_sends (poised : Poised led (mail node)) (entry : LogEntry) :
    Sends led node (node.appendOwnEntry entry) := by
  rcases node.appendEntries_frame [entry] with ⟨_, _, _, frame⟩
  have appended : mail (node.appendEntries [entry]) = mail node := by
    rw [frame]
    rfl
  have stored : Sends led (node.appendEntries [entry]) (node.appendOwnEntry entry) :=
    .persistLog (appended ▸ poised) [entry] (.inr rfl)
  exact stored.following (congrArg Mail.id appended) (congrArg Mail.term appended).ge

theorem applyThrough_sends (poised : Poised led (mail node)) (index : Nat) :
    Sends led node (node.applyThrough index) := by
  rcases node.applyThrough_frame index with ⟨_, _, _, frame⟩
  apply Sends.quiet poised
  · rw [frame]
    rfl
  · exact fun _ emitted => reports_proper (node.applyThrough_reports index emitted)

theorem body_sends (polite : Polite led event node) (waits : Poised led (mail origin))
    (sameID : node.id = origin.id) (body : Node.Body event origin node result) :
    Sends led node result := by
  have proper : ∀ {actions : List Action},
      (∀ action ∈ actions, Node.Emits event origin node action) →
      ∀ action ∈ actions, Proper led node.id node.term action :=
    fun emits action present => polite.emits waits sameID (emits action present)
  cases body with
  | quiet keeps emits =>
      rcases keeps with ⟨_, rfl⟩
      exact .quiet polite.poised rfl (proper emits)
  | appended => exact (appendOwnEntry_sends polite.poised _).cons trivial
  | @stored request newEntries truncateFrom isRequest =>
      rcases node.replaceSuffix_frame newEntries truncateFrom with ⟨_, _, _, _, frame⟩
      have replaced : mail (node.replaceSuffix newEntries truncateFrom) = mail node := by
        rw [frame]
        rfl
      have own : (node.replaceSuffix newEntries truncateFrom).id = node.id :=
        congrArg Mail.id replaced
      have foreign : request.sender ≠ node.id := polite.foreign _ (by rw [isRequest]; rfl)
      have stored : Sends led (node.replaceSuffix newEntries truncateFrom)
          (node.storeEntries request newEntries truncateFrom) :=
        .persistLog (replaced ▸ polite.poised) newEntries (.inl (own.symm ▸ foreign))
      exact (stored.following own (congrArg Mail.term replaced).ge).cons trivial
  | @committed index _ _ _ parked _ _ _ keeps emits kept early late =>
      rcases keeps with ⟨notes, rfl⟩
      rcases kept with ⟨_, rfl⟩
      have advanced : Sends led node ({ node with commitIndex := index }.note notes, parked) :=
        .quiet polite.poised rfl (proper emits)
      exact advanced.persistCommit.surround rfl (fun _ present => isLocal_proper (early _ present))
        (fun _ present => isLocal_proper (late _ present))
  | @applied index _ _ _ _ early emits =>
      have applied := applyThrough_sends polite.poised index
      exact applied.surround rfl (fun _ present => isLocal_proper (early _ present))
        (fun action present => (proper emits action present).mono (fun isLed => isLed) applied.term)
  | @installed request _ _ _ _ _ emits =>
      rcases node.installSnapshotBase_frame request with ⟨_, _, _, _, _, _, frame⟩
      rw [frame]
      exact .quiet polite.poised rfl (proper emits)
  | compacted =>
      rw [Node.compactLog]
      split_ifs <;> exact .quiet polite.poised rfl (List.forall_mem_nil _)

theorem Poised.reaches (poised : Poised led (mail node)) {middle : Node}
    (reaches : node.Reaches middle) : middle.id = node.id ∧ Poised led (mail middle) := by
  have rises := reaches.term
  rcases reaches.same with ⟨_, _, rfl⟩
  exact ⟨rfl, poised.reach rises⟩

/-- A transition sends only what is proper, other than the answer to a pre-vote. -/
theorem step_sends (poised : Poised led (mail node))
    (leads : node.role = .leader → led node.term) {event : Event}
    (foreign : ∀ sender, event.sender = some sender → sender ≠ node.id)
    (unprobed : ∀ request, event ≠ .preVoteRequest request) :
    Sends led node (node.step event) := by
  have course := node.step_course event
  generalize node.step event = result at course ⊢
  cases course with
  | @acts _ middle _ _ _ reach body =>
      rcases poised.reaches reach.reaches with ⟨sameID, reached⟩
      have acts : Polite led event middle := by
        refine ⟨reached, fun still => ?_, sameID.symm ▸ foreign, unprobed⟩
        cases reach.of_leader still
        exact leads still
      apply Sends.persistTermChange
      exact (body_sends acts poised sameID body).following sameID reach.reaches.term
  | @votes _ middle delayed leading actions ballots =>
      rcases ballots.elects with ⟨reaches, early, elects⟩
      rcases poised.reaches reaches with ⟨sameID, reached⟩
      have voted : Sends led middle (middle, actions) := .quiet reached rfl fun action present =>
        reached.elects (sameID.symm ▸ foreign) (elects action present)
      have sends := (voted.following sameID reaches.term).persistTermChange delayed
      have whole := sends.surround rfl (fun action present => (poised.elects foreign
        (early action present)).mono (fun isLed => isLed) sends.term) (List.forall_mem_nil _)
      rw [List.append_nil] at whole
      exact whole
  | @wins response =>
      have leads : Poised led (mail (node.recordVote response.sender).becomeLeader) := poised
      have appended : Sends led node ((node.recordVote response.sender).becomeLeader.appendOwnEntry
          (node.recordVote response.sender).noOp) :=
        (appendOwnEntry_sends leads _).following rfl (Nat.le_refl _)
      have early : ∀ action ∈ [.becameLeader node.term, .resetHeartbeatTimer,
          .resetCheckQuorumTimer], Proper led node.id node.term action := by
        simp [Proper]
      have settled : mail (node.recordVote response.sender).lead.1 =
          mail ((node.recordVote response.sender).becomeLeader.appendOwnEntry
            (node.recordVote response.sender).noOp).1 := rfl
      have announced := appended.surround settled
        (fun action present => (early action present).mono (fun isLed => isLed) appended.term)
        (List.forall_mem_nil _)
      rw [List.append_nil] at announced
      exact announced
  | ignored => exact .quiet poised rfl (List.forall_mem_nil _)
  | released found =>
      refine ⟨rfl, Nat.le_refl _, ?_, ?_⟩
      · exact ⟨poised.others, fun isPending => poised.hardStates (of_update_none isPending),
          poised.logs, poised.commits⟩
      · dsimp only
        split_ifs
        · exact List.forall_mem_nil _
        · exact poised.hardStates found
  | @written persistenceID pending _ found body =>
      have completed : Poised led (mail (node.completeLog persistenceID pending)) :=
        ⟨poised.others, poised.hardStates, fun isPending => poised.logs (of_update_none isPending),
          poised.commits⟩
      have acts : Polite led (.logEntriesPersisted persistenceID)
          (node.completeLog persistenceID pending) := ⟨completed, leads, foreign, unprobed⟩
      exact (body_sends acts poised rfl body).following rfl (Nat.le_refl _)
  | @completed persistenceID pending _ found isApplied =>
      have completed : Poised led (mail (node.completeCommit persistenceID pending)) :=
        ⟨poised.others, poised.hardStates, poised.logs,
          fun isPending => poised.commits (of_update_none isPending)⟩
      have applied : Sends led node
          ((node.completeCommit persistenceID pending).applyThrough pending.commitIndex) :=
        (applyThrough_sends completed pending.commitIndex).following rfl (Nat.le_refl _)
      subst isApplied
      exact applied.surround rfl (List.forall_mem_nil _) fun action released =>
        (poised.commits found action released).mono (fun isLed => isLed) applied.term

end Ternion.Cluster
