import Ternion.Cluster.Deferred
import Ternion.Cluster.Refinement
import Ternion.Raft.Claims

/-! # Soundness of match indexes

A successful response claims that the log of its sender equals the log of the
Leader of its Term up to the match index. While persistence completes late the
claim can be wrong in two ways, and `Covered` excludes both: a request that
brings nothing new may leave a longer log unverified, and a response that waits
for a commit index may be sent after its sender moved to another Term.
-/

namespace Ternion.Cluster.Deferred

open Consensus Raft RaftRuntime

variable {term : Nat} {request : AppendEntries}

/-- Steps of a Cluster that neither compacts nor crashes. -/
def uncompacted : Label → Bool
  | .deliver _ (.snapshotCompacted _ _) => false
  | .deliver _ (.installSnapshot _) => false
  | .deliver _ _ => true
  | .complete _ => true
  | .crash _ _ _ => false

/-- The Node that takes a step. -/
def Label.host : Label → NodeID
  | .deliver id _ => id
  | .complete id => id
  | .crash id _ _ => id

/-- What a step emits. -/
def State.emissions (state : State) : Label → List Action
  | .deliver id event => ((state.hosts id).take event).2
  | .complete id => ((state.hosts id).complete.map Prod.snd).getD []
  | .crash _ _ _ => []

/-- A request of a Term not below the Node's own that changes nothing in its
log. -/
def bringsNothingNew (node : Node) (request : AppendEntries) : Bool :=
  decide (node.term ≤ request.term) &&
    node.matchesAt request.prevLogIndex request.prevLogTerm &&
    (node.entriesToAppend request.prevLogIndex request.entries).any fun suffix =>
      suffix.1.isEmpty

/-- The request reaches the end of the log, or the log ends in its Term. -/
def reachesEnd (node : Node) (request : AppendEntries) : Bool :=
  decide (node.lastLogIndex ≤ request.prevLogIndex + request.entries.length) ||
    decide (node.lastLogTerm = request.term)

/-- All claims among actions are of one Term. -/
def claimsOf (term : Nat) (actions : List Action) : Bool :=
  actions.all fun action => action.claim.all fun claim => decide (claim.1 = term)

/-- Under this condition on a step every claim is sound. A request that brings
nothing new reaches the end of the log, or the log already ends in the Term of
the request. A commit index that becomes durable releases only claims of the
current Term. -/
def covered (state : State) : Label → Bool
  | .deliver id (.appendEntries request) =>
      !bringsNothingNew (state.hosts id).core request ||
        reachesEnd (state.hosts id).core request
  | .complete id =>
      match (state.hosts id).outstanding.head? with
      | some (.persistCommitIndex persistenceID _) =>
          ((state.hosts id).core.pendingCommit persistenceID).all fun pending =>
            claimsOf (state.hosts id).core.term pending.after
      | _ => true
  | _ => true

/-- Steps that neither compact nor crash, and are covered. -/
def coveredStep (state : State) (label : Label) : Bool :=
  uncompacted label && covered state label

theorem claims_of_claimsOf {actions : List Action} (current : claimsOf term actions) :
    Claims (fun claimed _ => claimed = term) actions := by
  intro action present claim made
  have all := List.all_eq_true.mp current action present
  simpa [made] using all

/-- A claim of the current Term is true; one of an earlier Term is past. -/
def Agrees (ledger : Ledger NodeID LogEntry) (node : Node) (term index : Nat) : Prop :=
  term ≤ node.term ∧ ledger.leader term ≠ none ∧
    (term = node.term → AgreeThrough node.log (ledger.leaderLog term) index)

section Claims

variable {membership : Membership} {ledger after : Ledger NodeID LogEntry} {node result : Node}

/-- Claims survive every step of the Node. -/
theorem Agrees.mono (sane : Sane membership ledger) (tracks : Tracks membership ledger (view node))
    (moved : Moved membership ledger (view node) after (view result)) {index : Nat}
    (agrees : Agrees ledger node term index) : Agrees after result term index := by
  rcases agrees with ⟨notNewer, led, agree⟩
  have rises : node.term ≤ result.term := moved.term_le sane tracks
  refine ⟨notNewer.trans rises, (moved.advance sane).leader_ne_none led, fun current => ?_⟩
  have sameTerm : term = node.term := le_antisymm notNewer (by omega)
  subst sameTerm
  exact moved.keeps_agreement sane tracks current.symm led (agree rfl)

/-- A log that ends in the Term of a Leader is a prefix of the Leader's log. -/
theorem isPrefix_of_lastTerm (sane : Sane membership ledger)
    (tracks : Tracks membership ledger (view node)) (positive : 0 < term)
    (ends : node.lastLogTerm = term) : node.log <+: ledger.leaderLog term := by
  have whole : node.Whole := tracks.whole
  have matched := sane.coherent.logMatched node.id
  rw [show ledger.log node.id = node.log from tracks.log] at matched
  have nonempty : node.log ≠ [] := by
    intro empty
    rw [whole.lastTerm, empty] at ends
    exact positive.ne ends
  have leading := (Coherent.isPrefix_leaderLog matched nonempty).2
  rwa [show lastTerm membership.protocol.termOf node.log = term from
    whole.lastTerm.symm.trans ends] at leading

theorem acceptLeader_log (node : Node) (term : Nat) (leader : NodeID) :
    (node.acceptLeader term leader).log = node.log ∧
      (node.acceptLeader term leader).lastLogIndex = node.lastLogIndex ∧
      (node.acceptLeader term leader).lastLogTerm = node.lastLogTerm := by
  rcases node.acceptLeader_frame term leader with ⟨_, _, _, _, _, _, _, _, _, _, frame⟩
  rw [frame]
  exact ⟨rfl, rfl, rfl⟩

theorem bringsNothingNew_acceptLeader (notOlder : node.term ≤ request.term) (leader : NodeID) :
    bringsNothingNew (node.acceptLeader request.term leader) request =
      bringsNothingNew node request := by
  simp only [bringsNothingNew, Node.acceptLeader_matchesAt, Node.acceptLeader_entriesToAppend,
    Node.acceptLeader_term notOlder, le_refl, notOlder, decide_true]

theorem reachesEnd_acceptLeader (node : Node) (request : AppendEntries) (term : Nat)
    (leader : NodeID) :
    reachesEnd (node.acceptLeader term leader) request = reachesEnd node request := by
  simp only [reachesEnd, acceptLeader_log]

/-- The answer to a request of the Leader that a Node accepted is true. -/
theorem takeAppendEntries_answerable (sane : Sane membership ledger)
    (tracks : Tracks membership ledger (view node)) (current : node.term = request.term)
    (genuine : Genuine membership ledger node.id (.appendEntries request))
    (covered : bringsNothingNew node request → reachesEnd node request)
    (moved : Moved membership ledger (view node) after
      (view (node.takeAppendEntries request).1)) :
    Node.Answerable (Agrees after (node.takeAppendEntries request).1) node request := by
  have led : ledger.leader request.term ≠ none := by simp [genuine.1]
  have whole : node.Whole := tracks.whole
  have intake := tracks.intake sane genuine
  constructor
  · intro matched truncateFrom nothing
    have taken := intake matched
    rw [nothing] at taken
    have agree : AgreeThrough node.log (ledger.leaderLog request.term) node.lastLogIndex := by
      have reaches := covered (by simp [bringsNothingNew, current, matched, nothing])
      simp only [reachesEnd, Bool.or_eq_true, decide_eq_true_eq] at reaches
      rcases reaches with reaches | ends
      · cases taken with
        | covered agree => exact agree.mono reaches
        | extended isNew => exact absurd rfl isNew
        | replaced isNew => exact absurd rfl isNew
      · have leading := isPrefix_of_lastTerm sane tracks (sane.coherent.leader_positive led) ends
        exact .of_isPrefix leading whole.lastIndex.le
    have before : Agrees ledger node node.term node.lastLogIndex :=
      ⟨le_rfl, by rwa [current], fun _ => by rwa [current]⟩
    exact before.mono sane tracks moved
  · intro matched newEntries truncateFrom isNew brings
    have taken := intake matched
    rw [brings] at taken
    have replaced := whole.replaceSuffix (sane.indexed led) isNew taken
    have result : (node.takeAppendEntries request).1 =
        (node.storeEntries request newEntries truncateFrom).1 := by
      simp only [Node.takeAppendEntries, matched, brings, isNew, not_true_eq_false, if_false,
        ne_eq, not_false_eq_true, if_true]
    have grows := (moved.advance sane).leaderLog_grows led
    rw [result]
    simp only [Node.storeEntries, Node.persistLog, replaced, Node.setLog]
    refine ⟨current.ge, (moved.advance sane).leader_ne_none led, fun _ => ?_⟩
    exact .of_isPrefix ((List.take_prefix _ _).trans grows) le_rfl

/-- A transition together with the claims that it parks or sends. -/
def Answers (membership : Membership) (ledger : Ledger NodeID LogEntry) (node : Node)
    (result : Node × List Action) : Prop :=
  ∃ after, RefinesTo membership ledger (view node) result after ∧
    Node.Parks (Agrees after result.1) node result

theorem handleAppendEntries_answers (sane : Sane membership ledger)
    (tracks : Tracks membership ledger (view node))
    (genuine : Genuine membership ledger node.id (.appendEntries request))
    (parked : Node.Parked (Agrees ledger node) node)
    (covered : bringsNothingNew node request → reachesEnd node request) :
    Answers membership ledger node (node.handleAppendEntries request) := by
  unfold Node.handleAppendEntries
  split_ifs with stale
  · refine ⟨ledger, ⟨.still sane tracks rfl, List.forall_mem_singleton.mpr (.sent rfl trivial)⟩, ?_⟩
    exact .quiet rfl rfl rfl (by simp [Node.appendEntriesResponse, Action.claim])
  · rcases acceptLeader_moved tracks sane request.term request.sender with
      ⟨middle, moved, unwritten⟩
    have genuineAfter := genuine.mono (moved.advance sane)
    rw [← show (node.acceptLeader request.term request.sender).id = node.id from
      moved.sameID] at genuineAfter
    have current : (node.acceptLeader request.term request.sender).term = request.term :=
      Node.acceptLeader_term (by omega) request.sender
    have body : Node.Body _ node _ _ := Node.takeAppendEntries_body current
    rcases body_refines moved.tracks moved.sane body genuineAfter
      (fun _ _ _ => Node.acceptLeader_role ..) with ⟨after, refines, _⟩
    have answerable := takeAppendEntries_answerable moved.sane moved.tracks current genuineAfter
      (by rwa [bringsNothingNew_acceptLeader (not_lt.mp stale), reachesEnd_acceptLeader])
      refines.moved
    have whole := refines.following moved unwritten
    have taken := body.parks (by rintro _ ⟨⟩ _; exact answerable)
      (parked.mono fun _ _ agrees => agrees.mono sane tracks whole.moved)
    refine ⟨after, whole.persistTermChange _, ?_⟩
    have reach : node.Reach (.appendEntries request) _ _ := .accepts rfl rfl (not_lt.mp stale)
    have same : ∀ changed : Bool, Agrees after (Node.persistTermChange changed
        (((node.acceptLeader request.term request.sender).takeAppendEntries request).1,
          .resetElectionTimer ::
            ((node.acceptLeader request.term request.sender).takeAppendEntries request).2)).1 =
        Agrees after
          ((node.acceptLeader request.term request.sender).takeAppendEntries request).1 := by
      intro changed
      cases changed <;> rfl
    rw [same]
    exact (taken.reached reach.reaches).persistTermChange _

/-- Every event the condition allows keeps the claims true. -/
theorem step_answers (sane : Sane membership ledger)
    (tracks : Tracks membership ledger (view node)) {event : Event}
    (genuine : Genuine membership ledger node.id event)
    (parked : Node.Parked (Agrees ledger node) node)
    (covered : ∀ request, event = .appendEntries request → bringsNothingNew node request →
      reachesEnd node request)
    (released : ∀ persistenceID pending, event = .commitIndexPersisted persistenceID →
      node.pendingCommit persistenceID = some pending →
      Claims (fun term _ => term = node.term) pending.after) :
    Answers membership ledger node (node.step event) := by
  cases isRequest : event with
  | appendEntries request =>
      subst isRequest
      exact handleAppendEntries_answers sane tracks genuine parked (covered request rfl)
  | _ =>
      rcases step_refines tracks sane genuine with ⟨after, refines⟩
      rw [isRequest] at refines genuine
      refine ⟨after, refines, Node.step_parks
        (parked.mono fun _ _ agrees => agrees.mono sane tracks refines.moved) ?_⟩
      first
        | trivial
        | exact genuine
        | exact fun pending => released _ pending isRequest

end Claims

/-! ## The Cluster -/

/-- The ledger follows the Cluster, nothing waits that claims too much, and the
recorded logs of Leaders are the ledger's. -/
structure Attested (membership : Membership) (ledger : Ledger NodeID LogEntry)
    (state : State) : Prop where
  followed : Followed membership ledger (fun id => (state.hosts id).core) state.network
  parked : ∀ id ∈ membership.members,
    Node.Parked (Agrees ledger (state.hosts id).core) (state.hosts id).core
  leaderLogs : ∀ term, ledger.leader term ≠ none →
    state.leaderLogs term = ledger.leaderLog term

section Cluster

variable {membership : Membership} {ledger : Ledger NodeID LogEntry} {state : State}

theorem start_attested (membership : Membership) :
    Attested membership .initial (.start membership) where
  followed := .start membership
  parked := fun _ _ =>
    ⟨fun found => (by cases found), fun found => (by cases found), fun found => (by cases found)⟩
  leaderLogs := by simp [Ledger.initial]

theorem Agrees.other {after : Ledger NodeID LogEntry} {mover : NodeID} {node : Node}
    (advance : Advance mover ledger after) {index : Nat} (agrees : Agrees ledger node term index) :
    Agrees after node term index :=
  ⟨agrees.1, advance.leader_ne_none agrees.2.1, fun current =>
    (agrees.2.2 current).extend_right (advance.leaderLog_grows agrees.2.1)⟩

theorem record_cores (state : State) (id : NodeID) (result : Host × List Action) :
    (fun other => ((state.record id result).hosts other).core) =
      Function.update (fun other => (state.hosts other).core) id result.1.core := by
  funext other
  by_cases same : other = id
  · simp [State.record, same]
  · simp [State.record, Function.update_of_ne same]

/-- The recorded logs of Leaders follow the ledger. -/
theorem record_leaderLogs {after : Ledger NodeID LogEntry} {id : NodeID}
    {result : Host × List Action} {current : View}
    (leaderLogs : ∀ term, ledger.leader term ≠ none →
      state.leaderLogs term = ledger.leaderLog term)
    (moved : Moved membership ledger current after (view result.1.core)) :
    ∀ term, after.leader term ≠ none →
      (state.record id result).leaderLogs term = after.leaderLog term := by
  intro term led
  have own : result.1.core.role = .leader →
      after.leaderLog result.1.core.term = result.1.core.log :=
    fun leading => (moved.tracks.leader leading).2
  by_cases leads : result.1.core.role = .leader ∧ result.1.core.term = term
  · rcases leads with ⟨leading, rfl⟩
    simp [State.record, leading, own leading]
  · have same : Undisturbed ledger after term := (moved.written term).resolve_right leads
    have earlier := leaderLogs term (by rwa [← same.1])
    have unchanged : (state.record id result).leaderLogs term = state.leaderLogs term := by
      simp only [State.record]
      split_ifs with leading
      · exact Function.update_of_ne (fun isTerm => leads ⟨leading, isTerm.symm⟩) _ _
      · rfl
    rw [unchanged, earlier, same.2]

/-- What a step claims is true once the step is recorded. -/
theorem Attested.take (attested : Attested membership ledger state) {id : NodeID}
    (member : id ∈ membership.members) (host : Host) (sameCore : host.core = (state.hosts id).core)
    {event : Event} (genuine : Genuine membership ledger id event)
    (covered : ∀ request, event = .appendEntries request →
      bringsNothingNew host.core request → reachesEnd host.core request)
    (released : ∀ persistenceID pending, event = .commitIndexPersisted persistenceID →
      host.core.pendingCommit persistenceID = some pending →
      Claims (fun term _ => term = host.core.term) pending.after) :
    ∃ after, Attested membership after (state.record id (host.take event)) ∧
      Claims (fun term index => AgreeThrough (host.take event).1.core.log
        ((state.record id (host.take event)).leaderLogs term) index) (host.take event).2 := by
  have followed := attested.followed
  have parked := attested.parked id member
  have tracks := followed.tracks id member
  have identity := followed.identity id member
  rw [sameCore] at covered released
  rcases step_answers followed.sane tracks (identity.symm ▸ genuine) parked covered released with
    ⟨after, refines, parks⟩
  have advance := refines.moved.advance followed.sane
  have taken : (host.take event).1.core = ((state.hosts id).core.step event).1 := by
    rw [← sameCore]
    rfl
  have emitted : (host.take event).2 = ((state.hosts id).core.step event).2 := by
    rw [← sameCore]
    rfl
  have leaderLogs : ∀ term, after.leader term ≠ none →
      (state.record id (host.take event)).leaderLogs term = after.leaderLog term :=
    record_leaderLogs attested.leaderLogs (taken ▸ refines.moved)
  refine ⟨after, ⟨?_, ?_, leaderLogs⟩, ?_⟩
  · rw [record_cores, taken]
    simpa [State.record, emitted] using followed.step member refines
  · intro other isMember
    by_cases same : other = id
    · subst same
      simp only [State.record, Function.update_self, taken]
      exact parks.parked
        (parked.mono fun _ _ agrees => agrees.mono followed.sane tracks refines.moved)
    · simp only [State.record, Function.update_of_ne same]
      exact (attested.parked other isMember).mono fun _ _ agrees => agrees.other advance
  · rw [emitted, taken]
    refine parks.actions.mono fun term index both => ?_
    rw [leaderLogs term both.2.2.1]
    exact both.2.2.2 both.1

/-- A step that the condition allows keeps the ledger, and claims the truth. -/
theorem Attested.step {after : State} {label : Label} (attested : Attested membership ledger state)
    (permitted : coveredStep state label)
    (taken : (system membership).step state label after) :
    ∃ moved, Attested membership moved after ∧
      Claims (fun term index => AgreeThrough (after.hosts label.host).core.log
        (after.leaderLogs term) index) (state.emissions label) := by
  rcases Bool.and_eq_true_iff.mp permitted with ⟨isUncompacted, isCovered⟩
  rcases step_cases taken with
    ⟨id, event, rfl, member, arrives, rfl⟩ | ⟨id, result, rfl, member, completed, rfl⟩ |
    ⟨id, flushed, recovered, rfl, member, last, rfl⟩
  · have genuine : Genuine membership ledger id event := by
      rcases arrives with isSpontaneous | sent
      · cases event with
        | snapshotCompacted _ _ => cases isUncompacted
        | installSnapshot _ => cases isUncompacted
        | _ => trivial
      · exact attested.followed.genuine _ sent
    have claims := attested.take member (state.hosts id) rfl genuine
      (fun request isRequest nothing => by
        subst isRequest
        simpa [covered, nothing] using isCovered)
      (fun persistenceID _ isCompletion => by
        subst isCompletion
        rcases arrives with isSpontaneous | sent
        · cases isSpontaneous
        · cases attested.followed.messages _ sent)
    simpa [Label.host, State.emissions, State.record] using claims
  · rcases complete_cases completed with ⟨action, host, event, flushed, reported, rfl⟩
    rcases flush_cases flushed with ⟨rest, outstanding, rfl⟩
    have genuine : Genuine membership ledger id event := by
      cases action <;> cases reported <;> trivial
    have claims := attested.take member { state.hosts id with
        outstanding := rest
        hardStates := (state.hosts id).hardStates ++ (hardStateOf action).toList } rfl genuine
      (fun request isRequest => by
        subst isRequest
        cases action <;> cases reported)
      (fun persistenceID pending isCompletion found => by
        subst isCompletion
        cases action <;> cases reported
        have isPending : (state.hosts id).core.pendingCommit persistenceID = some pending := found
        exact claims_of_claimsOf (by simpa [covered, outstanding, isPending] using isCovered))
    simpa [Label.host, State.emissions, State.record, completed] using claims
  · cases isUncompacted

theorem reachable_attested
    (reachable : (system membership).Reachable (coveredStep · ·) state) :
    ∃ ledger, Attested membership ledger state := by
  refine reachable.invariant (fun state => ∃ ledger, Attested membership ledger state) ?_ ?_
  · rintro _ rfl
    exact ⟨_, start_attested membership⟩
  · rintro _ _ _ ⟨ledger, attested⟩ permitted taken
    rcases attested.step permitted taken with ⟨moved, now, _⟩
    exact ⟨moved, now⟩

/-- Where every step is covered, a Node that sends a successful response holds
the log of the Leader of its Term up to the match index. -/
theorem matchIndex_agrees {after : State} {label : Label}
    (reachable : (system membership).Reachable (coveredStep · ·) state)
    (permitted : coveredStep state label)
    (taken : (system membership).step state label after) {receiver : NodeID}
    {response : AppendEntriesResponse}
    (emitted : .sendAppendEntriesResponse receiver response ∈ state.emissions label)
    (success : response.success) :
    AgreeThrough (after.hosts label.host).core.log (after.leaderLogs response.term)
      response.matchIndex := by
  rcases reachable_attested reachable with ⟨ledger, attested⟩
  rcases attested.step permitted taken with ⟨_, _, claims⟩
  exact claims _ emitted (response.term, response.matchIndex) (by simp [Action.claim, success])

end Cluster

/-- `a` is elected with the vote of `b`, and its no-op becomes durable. -/
def leadingRun : List Label := votedRun ++ [.complete "a"]

/-- The first probe of `a` is rejected by `b`, the second brings the no-op. -/
def replicationRun : List Label :=
  leadingRun ++
    [.deliver "b" (.appendEntries ⟨"a", 1, 1, 1, 1, [], 0, 0⟩),
      .deliver "a" (.appendEntriesResponse ⟨"b", 1, 1, false, 0, 0, 1, 0⟩),
      .deliver "b" (.appendEntries ⟨"a", 1, 3, 0, 0, [{ index := 1, term := 1, type := .noOp }],
        0, 0⟩)]

theorem matchIndex_agrees_replication :
    ∃ before after, (system trio).Reachable (coveredStep · ·) before ∧
      (system trio).step before (.complete "b") after ∧
      .sendAppendEntriesResponse "a" ⟨"b", 1, 3, true, 1, 0, 0, 0⟩ ∈
        before.emissions (.complete "b") ∧
      AgreeThrough (after.hosts "b").core.log (after.leaderLogs 1) 1 := by
  have executed : (System.execute (State.next trio) coveredStep replicationRun
      (.start trio)).map (fun state => coveredStep state (.complete "b") &&
        (State.next trio state (.complete "b")).isSome &&
        decide (.sendAppendEntriesResponse "a" ⟨"b", 1, 3, true, 1, 0, 0, 0⟩ ∈
          state.emissions (.complete "b"))) = some true := by decide +kernel
  rcases System.reachable_of_execute (fun _ _ => id) executed with
    ⟨state, reachable, observed⟩
  simp only [Bool.and_eq_true, decide_eq_true_eq] at observed
  rcases observed with ⟨⟨permitted, taken⟩, emitted⟩
  rcases Option.isSome_iff_exists.mp taken with ⟨after, taken⟩
  exact ⟨state, after, reachable, taken, emitted,
    matchIndex_agrees reachable permitted taken emitted rfl⟩

/-- While the no-op of `a` exists on `a` only, `b` is elected with the vote of
`c` and sends a heartbeat before its own no-op is durable. -/
def heartbeatRun : List Label :=
  leadingRun ++
    [.deliver "b" .electionTimeout,
      .deliver "c" (.preVoteRequest ⟨"b", 2, 0, 0⟩),
      .deliver "b" (.preVoteResponse ⟨"c", 2, 0, true⟩),
      .complete "b",
      .deliver "c" (.voteRequest ⟨"b", 2, 0, 0⟩),
      .complete "c",
      .deliver "b" (.voteResponse ⟨"c", 2, true⟩),
      .deliver "b" .heartbeatTimeout,
      .deliver "a" (.appendEntries ⟨"b", 2, 1, 0, 0, [], 0, 0⟩)]

/-- The heartbeat brings nothing new, and `a` answers for its whole log. -/
theorem matchIndex_disagrees_heartbeat :
    ∃ before after, (system trio).Reachable (fun _ label => uncompacted label) before ∧
      (system trio).step before (.complete "a") after ∧
      .sendAppendEntriesResponse "b" ⟨"a", 2, 1, true, 1, 0, 0, 0⟩ ∈
        before.emissions (.complete "a") ∧
      ¬ AgreeThrough (after.hosts "a").core.log (after.leaderLogs 2) 1 := by
  have executed : (System.execute (State.next trio) (fun _ label => uncompacted label)
      heartbeatRun (.start trio)).map (fun state =>
        decide (.sendAppendEntriesResponse "b" ⟨"a", 2, 1, true, 1, 0, 0, 0⟩ ∈
          state.emissions (.complete "a")) &&
        (State.next trio state (.complete "a")).any fun after =>
          !decide (AgreeThrough (after.hosts "a").core.log (after.leaderLogs 2) 1)) =
      some true := by decide +kernel
  have reached := System.reachable_of_execute (fun _ _ => id) executed
  rcases reached with ⟨state, reachable, observed⟩
  simp only [Bool.and_eq_true, decide_eq_true_eq, Option.any_eq_true, Bool.not_eq_true',
    decide_eq_false_iff_not] at observed
  rcases observed with ⟨emitted, after, taken, disagree⟩
  exact ⟨state, after, reachable, taken, emitted, disagree⟩

end Ternion.Cluster.Deferred
