import Ternion.Cluster.Basic
import Ternion.Raft.Matching

/-! # The ledger tracks a Cluster

The history of a Cluster is a ledger. A Node is tracked when its volatile
Term, vote and log are the ledger's, and a message is genuine when it states
what the ledger records. Moves of one Node leave every other Node tracked and
every message genuine.
-/

namespace Ternion.Cluster

open Consensus Raft

variable {member : NodeID}

structure View where
  id : NodeID
  peers : List NodeID
  role : Role
  term : Nat
  votedFor : NodeID
  votes : Finset NodeID
  logBaseIndex : Nat
  logBaseTerm : Nat
  log : List LogEntry
  lastLogIndex : Nat
  lastLogTerm : Nat
  pendingHardState : Nat → Option PendingHardStatePersistence
  pendingCommit : Nat → Option PendingCommitPersistence

def view (node : Node) : View where
  id := node.id
  peers := node.peers
  role := node.role
  term := node.term
  votedFor := node.votedFor
  votes := node.votes
  logBaseIndex := node.logBaseIndex
  logBaseTerm := node.logBaseTerm
  log := node.log
  lastLogIndex := node.lastLogIndex
  lastLogTerm := node.lastLogTerm
  pendingHardState := node.pendingHardState
  pendingCommit := node.pendingCommit

def View.setLog (current : View) (log : List LogEntry) : View :=
  { current with
    log := log
    lastLogIndex := log.length
    lastLogTerm := lastTerm LogEntry.term log }

/-! ## Genuine messages -/

/-- The position and entries of a request are cut from `log`. -/
structure Segment (log : List LogEntry) (prev prevTerm : Nat) (entries : List LogEntry) :
    Prop where
  within : prev ≤ log.length
  term : prevTerm = entryTerm log prev
  leading : entries <+: log.drop prev

theorem Segment.mono {log extended : List LogEntry} {prev prevTerm : Nat}
    {entries : List LogEntry} (segment : Segment log prev prevTerm entries)
    (grows : log <+: extended) : Segment extended prev prevTerm entries where
  within := segment.within.trans grows.length_le
  term := by
    rw [segment.term]
    exact entryTerm_agree (AgreeThrough.of_isPrefix grows segment.within) le_rfl
  leading := by
    rcases grows with ⟨rest, rfl⟩
    rw [List.drop_append_of_le_length segment.within]
    exact segment.leading.trans (List.prefix_append _ _)

section

variable (membership : Membership) (ledger : Ledger NodeID LogEntry)

/-- What the ledger says about a message. Without compaction nothing is ever
sent as a Snapshot. -/
def Genuine (receiver : NodeID) : Event → Prop
  | .voteRequest request =>
      request.sender ∈ membership.members ∧
        ∃ requested, ledger.candidateLog request.sender request.term = some requested ∧
          request.lastLogIndex = requested.length ∧
          request.lastLogTerm = lastTerm LogEntry.term requested
  | .voteResponse response =>
      response.sender ∈ membership.members ∧
        (response.granted → ledger.vote response.sender response.term = some receiver)
  | .appendEntries request =>
      ledger.leader request.term = some request.sender ∧
        Segment (ledger.leaderLog request.term) request.prevLogIndex request.prevLogTerm
          request.entries
  | .snapshotCompacted _ _ => False
  | .installSnapshot _ => False
  | .installSnapshotResponse _ => False
  | _ => True

def Sound (action : Action) : Prop :=
  ∀ sent, envelope action = some sent → Genuine membership ledger sent.receiver sent.message

structure Tracks (view : View) : Prop where
  member : view.id ∈ membership.members
  peers : view.peers.Perm (membership.peersOf view.id)
  whole : WholeLog view.logBaseIndex view.logBaseTerm view.log view.lastLogIndex
    view.lastLogTerm
  term : ledger.term view.id = view.term
  log : ledger.log view.id = view.log
  vote : ledger.vote view.id view.term =
    if view.votedFor = "" then none else some view.votedFor
  candidate : view.role = .candidate →
    ledger.candidateLog view.id view.term = some view.log ∧
      ledger.leader view.term ≠ some view.id ∧
      ∀ voter ∈ view.votes, voter ∈ membership.members ∧
        ledger.vote voter view.term = some view.id
  leader : view.role = .leader →
    ledger.leader view.term = some view.id ∧ ledger.leaderLog view.term = view.log
  pendingHardState : ∀ {persistenceID pending},
    view.pendingHardState persistenceID = some pending →
    ∀ action ∈ pending.after, Sound membership ledger action
  pendingCommit : ∀ {persistenceID pending},
    view.pendingCommit persistenceID = some pending →
    ∀ action ∈ pending.after, Sound membership ledger action

structure Sane : Prop where
  coherent : Coherent membership.protocol ledger
  indexed : ∀ {term}, ledger.leader term ≠ none → Indexed (ledger.leaderLog term)

end

variable {membership : Membership} {ledger after : Ledger NodeID LogEntry}

theorem Genuine.mono {receiver : NodeID} (advance : Advance member ledger after) {message : Event}
    (genuine : Genuine membership ledger receiver message) :
    Genuine membership after receiver message := by
  cases message with
  | voteRequest request =>
      rcases genuine with ⟨sender, requested, ran, last⟩
      exact ⟨sender, requested, advance.candidateLog_kept ran, last⟩
  | voteResponse response =>
      exact ⟨genuine.1, fun granted => advance.vote_kept (genuine.2 granted)⟩
  | appendEntries request =>
      rcases genuine with ⟨led, segment⟩
      have isLed : ledger.leader request.term ≠ none := by simp [led]
      exact ⟨advance.leader_kept led, segment.mono (advance.leaderLog_grows isLed)⟩
  | snapshotCompacted => exact genuine
  | installSnapshot => exact genuine
  | installSnapshotResponse => exact genuine
  | _ => trivial

theorem Sound.mono (advance : Advance member ledger after) {action : Action}
    (sound : Sound membership ledger action) : Sound membership after action :=
  fun sent isSent => (sound sent isSent).mono advance

theorem Sound.of_local {action : Action} (nothing : envelope action = none) :
    Sound membership ledger action := by
  intro sent isSent
  rw [nothing] at isSent
  cases isSent

theorem Sound.of_reports {action : Action} (reports : Node.Reports action) :
    Sound membership ledger action := by
  cases reports with
  | applyEntry => exact .of_local rfl
  | becameReadReady => exact .of_local rfl
  | readConfirmed => exact .of_local rfl

namespace Tracks

variable {current next : View}

section

variable (tracks : Tracks membership ledger current)

include tracks

/-- What a Node is to release later stays sound. -/
theorem promises (advance : Advance member ledger after) :
    (∀ {persistenceID pending}, current.pendingHardState persistenceID = some pending →
        ∀ action ∈ pending.after, Sound membership after action) ∧
      ∀ {persistenceID pending}, current.pendingCommit persistenceID = some pending →
        ∀ action ∈ pending.after, Sound membership after action :=
  ⟨fun pending action released => (tracks.pendingHardState pending action released).mono advance,
    fun pending action released => (tracks.pendingCommit pending action released).mono advance⟩

theorem other (advance : Advance member ledger after) (different : current.id ≠ member) :
    Tracks membership after current where
  member := tracks.member
  peers := tracks.peers
  whole := tracks.whole
  term := (advance.other_term different).trans tracks.term
  log := (advance.other_log different).trans tracks.log
  vote := by
    rw [advance.other_vote different]
    exact tracks.vote
  candidate := by
    intro running
    rcases tracks.candidate running with ⟨ran, notLeader, votes⟩
    refine ⟨advance.candidateLog_kept ran, ?_, ?_⟩
    · exact fun led => notLeader (advance.other_leader different led)
    · exact fun voter counted =>
        ⟨(votes voter counted).1, advance.vote_kept (votes voter counted).2⟩
  leader := by
    intro leading
    rcases tracks.leader leading with ⟨led, sameLog⟩
    exact ⟨advance.leader_kept led, (advance.other_leaderLog different led).trans sameLog⟩
  pendingHardState := (tracks.promises advance).1
  pendingCommit := (tracks.promises advance).2

theorem demote {role : Role}
    (passive : role = .follower ∨ role = .preCandidate) (votes : Finset NodeID) :
    Tracks membership ledger { current with role := role, votes := votes } :=
  { tracks with
    candidate := by rcases passive with rfl | rfl <;> exact fun active => by cases active
    leader := by rcases passive with rfl | rfl <;> exact fun active => by cases active }

theorem persistHardState (persistenceID : Nat) {pending : PendingHardStatePersistence}
    (sound : ∀ action ∈ pending.after, Sound membership ledger action) :
    Tracks membership ledger { current with
      pendingHardState := Function.update current.pendingHardState persistenceID
        (some pending) } :=
  { tracks with
    pendingHardState := by
      intro id found isPending
      by_cases same : id = persistenceID
      · simp only [same, Function.update_self, Option.some.injEq] at isPending
        exact isPending ▸ sound
      · simp only [Function.update_of_ne same] at isPending
        exact tracks.pendingHardState isPending }

theorem persistCommit (persistenceID : Nat) {pending : PendingCommitPersistence}
    (sound : ∀ action ∈ pending.after, Sound membership ledger action) :
    Tracks membership ledger { current with
      pendingCommit := Function.update current.pendingCommit persistenceID
        (some pending) } :=
  { tracks with
    pendingCommit := by
      intro id found isPending
      by_cases same : id = persistenceID
      · simp only [same, Function.update_self, Option.some.injEq] at isPending
        exact isPending ▸ sound
      · simp only [Function.update_of_ne same] at isPending
        exact tracks.pendingCommit isPending }

theorem forget {hardStates : Nat → Option PendingHardStatePersistence}
    {commits : Nat → Option PendingCommitPersistence}
    (hardState : ∀ {id pending}, hardStates id = some pending →
      current.pendingHardState id = some pending)
    (commit : ∀ {id pending}, commits id = some pending →
      current.pendingCommit id = some pending) :
    Tracks membership ledger { current with
      pendingHardState := hardStates
      pendingCommit := commits } :=
  { tracks with
    pendingHardState := fun isPending => tracks.pendingHardState (hardState isPending)
    pendingCommit := fun isPending => tracks.pendingCommit (commit isPending) }

end

end Tracks

end Ternion.Cluster
