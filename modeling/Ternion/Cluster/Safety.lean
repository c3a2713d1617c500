import Ternion.Cluster.Endorsement

/-! # State machine safety

Every run of a Cluster in production in which no Leader is misled keeps a
ledger and a tally that account for everything applied and committed.
-/

namespace Ternion.Cluster.Production

open Consensus Raft RaftRuntime

variable {membership : Membership} {ledger middle after : Ledger NodeID LogEntry}
  {tally grown : Tally NodeID} {before state : State} {id : NodeID} {event : Event}
  {outcome : Outcome}

/-! ## Log matching -/

theorem Grounded.of_reachable {permitted : State → Label → Prop}
    (reachable : (system membership).Reachable permitted state) :
    ∃ ledger, Grounded membership ledger state := by
  refine reachable.invariant (fun state => ∃ ledger, Grounded membership ledger state) ?_ ?_
  · rintro state rfl
    exact ⟨_, .start membership⟩
  · rintro before label after ⟨ledger, grounded⟩ _ taken
    rcases grounded.step_cases taken with ⟨id, event, outcome, moved, _, stepped, result⟩
    rcases result with rfl | ⟨store, rfl, rfl | ⟨⟨middle, moves, sane, recorded⟩, _⟩⟩
    · exact ⟨moved, grounded.complete stepped⟩
    · rcases grounded.recorded stepped with ⟨moves, recorded⟩
      exact ⟨moved, grounded.restarted moves stepped.refines.moved.sane recorded _⟩
    · exact ⟨middle, grounded.restarted moves sane recorded _⟩

/-- **Log matching.** Two logs that hold entries of one index and Term are equal
up to it, and Terms never decrease along a log. -/
theorem logs_match (membership : Membership) (state : State)
    (reachable : (system membership).Reachable System.anyStep state) :
    (∀ left ∈ membership.members, ∀ right ∈ membership.members,
      ∀ leftEntry ∈ (state.hosts left).core.log, ∀ rightEntry ∈ (state.hosts right).core.log,
        leftEntry.index = rightEntry.index → leftEntry.term = rightEntry.term →
        AgreeThrough (state.hosts left).core.log (state.hosts right).core.log leftEntry.index) ∧
    ∀ id ∈ membership.members, ∀ (lower upper : Nat) (earlier later : LogEntry), lower ≤ upper →
      (state.hosts id).core.log[lower]? = some earlier →
      (state.hosts id).core.log[upper]? = some later → earlier.term ≤ later.term := by
  rcases Grounded.of_reachable reachable with ⟨ledger, grounded⟩
  have coherent := grounded.followed.sane.coherent
  have matched : ∀ id ∈ membership.members,
      Matched LogEntry.term ledger (state.hosts id).core.log ∧
        Indexed (state.hosts id).core.log := by
    intro id member
    have tracks := grounded.followed.tracks id member
    refine ⟨?_, tracks.whole.indexed⟩
    rw [← show ledger.log (state.hosts id).core.id = (state.hosts id).core.log from tracks.log]
    exact coherent.logMatched _
  refine ⟨?_, ?_⟩
  · intro left leftMember right rightMember leftEntry inLeft rightEntry inRight sameIndex sameTerm
    rcases List.mem_iff_getElem?.mp inLeft with ⟨offset, leftFound⟩
    rcases List.mem_iff_getElem?.mp inRight with ⟨rightOffset, rightFound⟩
    have leftIndex := (matched left leftMember).2 offset leftEntry leftFound
    have rightIndex := (matched right rightMember).2 rightOffset rightEntry rightFound
    rw [show rightOffset = offset by omega] at rightFound
    rw [leftIndex]
    exact (matched left leftMember).1.agree (matched right rightMember).1 leftFound rightFound
      sameTerm
  · intro id member lower upper earlier later ordered lowerFound upperFound
    exact coherent.terms_sorted (matched id member).1 ordered lowerFound upperFound

def deliver (position : Nat) : Label := .step (.message position) 400

def fire (id : NodeID) (event : Event) : Label := .step (.event id event) 400

def electionRun : List Label :=
  fire "a" .electionTimeout :: [0, 2, 3, 5, 6, 8, 9, 10].map deliver

/-- A client of `a` sets a value, which `a` and `b` apply. -/
def proposalRun : List Label :=
  fire "a" (.proposeSet ⟨1, SessionID.zero, 1, "k", [1]⟩) :: [11, 12, 13, 14, 15].map deliver

/-- Then `b` is elected by `c`, and commits its no-op with `a`. -/
def reelectionRun : List Label :=
  electionRun ++ proposalRun ++
    fire "b" .electionTimeout :: [18, 19, 21, 22, 23, 25, 26, 27].map deliver

theorem logs_match_reelection :
    ∃ state, (system trio).Reachable System.anyStep state ∧
      (state.hosts "a").core.log.map LogEntry.term = [1, 1, 2] ∧
      (state.hosts "b").core.log.map LogEntry.term = [1, 1, 2] ∧
      ∀ leftEntry ∈ (state.hosts "a").core.log, ∀ rightEntry ∈ (state.hosts "b").core.log,
        leftEntry.index = rightEntry.index → leftEntry.term = rightEntry.term →
        AgreeThrough (state.hosts "a").core.log (state.hosts "b").core.log leftEntry.index := by
  have executed : (System.execute (State.next trio) (fun _ _ => true) reelectionRun
      (.start trio)).map (fun state => ((state.hosts "a").core.log.map LogEntry.term,
        (state.hosts "b").core.log.map LogEntry.term)) = some ([1, 1, 2], [1, 1, 2]) := by
    decide +kernel
  rcases System.reachable_of_execute (fun _ _ _ => trivial) executed with
    ⟨state, reachable, observed⟩
  rcases Prod.mk.injEq .. ▸ observed with ⟨left, right⟩
  exact ⟨state, reachable, left, right,
    (logs_match trio state reachable).1 "a" (by decide) "b" (by decide)⟩

/-! ## The invariant -/

structure Safe (membership : Membership) (ledger : Ledger NodeID LogEntry)
    (tally : Tally NodeID) (state : State) : Prop where
  grounded : Grounded membership ledger state
  secured : Secured membership.protocol ledger tally
  reliable : ∀ id ∈ membership.members, Reliable ledger tally (books (state.hosts id).core)
  honest : ∀ sent ∈ state.network, Honest ledger tally sent.receiver sent.message
  applied : ∀ entry ∈ state.applied, IsCommitted ledger tally entry.index entry
  commitments : ∀ made ∈ state.commitments, Upheld ledger tally made

/-- No Leader takes a rejection without a hint for an answer to its request. -/
def guided (membership : Membership) (state : State) (label : Label) : Bool :=
  match state.input membership label.input with
  | some (id, event) => !misled (state.hosts id).core event
  | none => true

namespace Safe

theorem start (membership : Membership) :
    Safe membership .initial .initial (.start membership) where
  grounded := .start membership
  secured := .initial membership.protocol
  reliable := by
    intro id _
    refine ⟨HoldsCommitted.zero _ _ _, fun leading => ?_⟩
    cases leading
  honest := by simp [State.start]
  applied := by simp [State.start]
  commitments := by simp [State.start]

theorem carry (safe : Safe membership ledger tally before)
    (moves : membership.protocol.Moves id ledger after) (grows : tally.Grows grown) :
    (∀ other ∈ membership.members, Reliable after grown (books (before.hosts other).core)) ∧
    (∀ sent ∈ before.network, Honest after grown sent.receiver sent.message) ∧
    (∀ entry ∈ before.applied, IsCommitted after grown entry.index entry) ∧
    ∀ made ∈ before.commitments, Upheld after grown made := by
  have coherent := safe.grounded.followed.sane.coherent
  have advance := (Protocol.Moves.coherent moves coherent).2
  refine ⟨fun other member => ?_, fun sent isSent => ?_, fun entry isApplied => ?_,
    fun made isMade => ?_⟩
  · exact (safe.reliable other member).mono moves coherent safe.secured grows
  · exact (safe.honest sent isSent).mono moves coherent grows
  · exact ((safe.applied entry isApplied).advance safe.secured advance).grow grows
  · exact (safe.commitments made isMade).mono moves coherent grows

theorem trusted (safe : Safe membership ledger tally before)
    (stepped : Stepped membership ledger before id event outcome after)
    {input : Input} (arrives : before.input membership input = some (id, event))
    (notMisled : misled (before.hosts id).core event = false) :
    Trusted membership ledger tally (before.hosts id).core event := by
  have followed := safe.grounded.followed
  have identity : (before.hosts id).core.id = id := followed.identity id stepped.member
  have honest : Honest ledger tally id event := by
    rcases (input_cases arrives).2 with isSpontaneous | sent
    · cases event <;> trivial
    · exact safe.honest _ sent
  exact {
    sane := followed.sane
    tracks := followed.tracks id stepped.member
    durable := (safe.grounded.synced id stepped.member).toDurable
    secured := safe.secured
    reliable := safe.reliable id stepped.member
    genuine := identity.symm ▸ stepped.genuine
    honest := identity.symm ▸ honest
    guided := notMisled }

theorem restart_reliable {store : Store} (recorded : Recorded membership ledger id store)
    (holds : HoldsCommitted ledger tally id store.commitIndex) :
    Reliable ledger tally (books (restart membership id store).core) := by
  have shape := newNodeFromRecoveredState_view id (membership.peersOf id) recorded.indexed
  have committed := (Synced.recovered id (membership.peersOf id) store).storedCommit
  refine ⟨?_, fun leads => ?_⟩
  · rw [show (books (restart membership id store).core).id = id from congrArg View.id shape,
      show (books (restart membership id store).core).commitIndex = store.commitIndex from
        committed.symm]
    exact holds
  · have follows : (restart membership id store).core.role = .follower :=
      congrArg View.role shape
    cases follows.symm.trans leads

section

variable (safe : Safe membership ledger tally before)

include safe

theorem complete (stepped : Stepped membership ledger before id event outcome after)
    (grows : tally.Grows grown) (secured : Secured membership.protocol after grown)
    (reliable : Reliable after grown (books outcome.core))
    (backed : ∀ action ∈ outcome.emitted, Backed after grown action)
    (upheld : ∀ made ∈ commitment (before.hosts id).core outcome.core, Upheld after grown made) :
    Safe membership after grown (before.complete id event outcome) := by
  have identity : (view (before.hosts id).core).id = id :=
    safe.grounded.followed.identity id stepped.member
  rcases safe.carry (identity ▸ stepped.refines.moved.moves) grows with
    ⟨others, sent, applied, made⟩
  refine ⟨safe.grounded.complete stepped, secured, ?_, ?_, ?_, ?_⟩
  · intro other member
    by_cases same : other = id
    · simpa [State.complete, Host.step, same] using reliable
    · simpa [State.complete, Function.update_of_ne same] using others other member
  · intro message isSent
    rcases List.mem_append.mp isSent with earlier | now
    · exact sent message earlier
    · rcases List.mem_filterMap.mp now with ⟨action, emitted, isEnvelope⟩
      exact (backed action emitted).1 message isEnvelope
  · intro entry isApplied
    rcases List.mem_append.mp isApplied with earlier | now
    · exact applied entry earlier
    · rcases List.mem_filterMap.mp now with ⟨action, emitted, isEntry⟩
      exact (backed action emitted).2 entry isEntry
  · intro commitment isMade
    rcases List.mem_append.mp isMade with earlier | now
    · exact made commitment earlier
    · exact upheld commitment (Option.mem_toList.mp now)

theorem restarted {store : Store} {committed : List Commitment}
    (moves : membership.protocol.Moves id ledger after) (grows : tally.Grows grown)
    (sane : Sane membership after) (recorded : Recorded membership after id store)
    (secured : Secured membership.protocol after grown)
    (holds : HoldsCommitted after grown id store.commitIndex)
    (upheld : ∀ made ∈ committed, Upheld after grown made) :
    Safe membership after grown (before.restarted membership id store committed) := by
  rcases safe.carry moves grows with ⟨others, sent, applied, made⟩
  refine ⟨safe.grounded.restarted moves sane recorded committed, secured, ?_, sent, applied, ?_⟩
  · intro other member
    by_cases same : other = id
    · simp only [State.restarted, same, Function.update_self]
      exact restart_reliable recorded holds
    · simpa [State.restarted, Function.update_of_ne same] using others other member
  · intro commitment isMade
    rcases List.mem_append.mp isMade with earlier | now
    · exact made commitment earlier
    · exact upheld commitment now

theorem step {label : Label} (isGuided : guided membership before label)
    (taken : (system membership).step before label state) :
    ∃ after grown, Safe membership after grown state := by
  rcases safe.grounded.step_cases taken with ⟨id, event, outcome, after, arrives, stepped, result⟩
  have notMisled : misled (before.hosts id).core event = false := by
    simpa [guided, arrives] using isGuided
  have trusted := safe.trusted stepped arrives notMisled
  have coherent := safe.grounded.followed.sane.coherent
  have moved := stepped.refines.moved
  rcases safe.grounded.recorded stepped with ⟨moves, recorded⟩
  rcases trusted.commitment_upheld stepped.turn with ⟨counted, counts, countedSecured, upheld⟩
  rcases (trusted.grow counts countedSecured).endorsed stepped.turn upheld moved with
    ⟨grown, grows, secured, reliable, backed⟩
  have stillUpheld : ∀ made ∈ commitment (before.hosts id).core outcome.core,
      Upheld after grown made := fun made isMade =>
    (upheld made isMade).mono moves coherent grows
  rcases result with rfl | ⟨store, rfl, rfl | ⟨⟨middle, toMiddle, sane, part⟩, level⟩⟩
  · exact ⟨after, grown, safe.complete stepped (counts.trans grows) secured reliable backed
      stillUpheld⟩
  · refine ⟨after, grown, safe.restarted moves (counts.trans grows) moved.sane recorded secured ?_
      fun made isMade => stillUpheld made (Option.mem_toList.mp isMade)⟩
    have sameID : outcome.core.id = id := moved.sameID.trans
      (safe.grounded.followed.identity id stepped.member)
    rw [stepped.synced.storedCommit, ← sameID]
    exact reliable.holds
  · -- The tally counts the commitment, although the Node may lose its commit index.
    have held : HoldsCommitted ledger tally id (before.hosts id).core.commitIndex := by
      have own := (safe.reliable id stepped.member).holds
      rwa [show (books (before.hosts id).core).id = id from
        safe.grounded.followed.identity id stepped.member] at own
    have kept := Protocol.Moves.holdsCommitted toMiddle coherent safe.secured held
    refine ⟨middle, counted, safe.restarted toMiddle counts sane part
      (Protocol.Moves.secured toMiddle coherent countedSecured) ?_ fun made isMade => ?_⟩
    · rw [level]
      exact kept.grow counts
    · exact (upheld made (Option.mem_toList.mp isMade)).mono toMiddle coherent (.refl counted)

end

theorem of_reachable
    (reachable : (system membership).Reachable
      (fun state label => guided membership state label) state) :
    ∃ ledger tally, Safe membership ledger tally state := by
  refine reachable.invariant (fun state => ∃ ledger tally, Safe membership ledger tally state) ?_ ?_
  · rintro state rfl
    exact ⟨_, _, .start membership⟩
  · rintro before label after ⟨ledger, tally, safe⟩ isGuided taken
    exact safe.step isGuided taken

end Safe

/-! ## Results -/

/-- **State machine safety.** While no Leader is misled, entries applied at one
index are equal. -/
theorem applied_unique (membership : Membership) (state : State)
    (reachable : (system membership).Reachable
      (fun state label => guided membership state label) state) :
    ∀ left ∈ state.applied, ∀ right ∈ state.applied, left.index = right.index →
      left = right := by
  rcases Safe.of_reachable reachable with ⟨ledger, tally, safe⟩
  intro left leftApplied right rightApplied sameIndex
  have rightCommitted := safe.applied right rightApplied
  rw [← sameIndex] at rightCommitted
  exact safe.secured.committed_unique safe.grounded.followed.sane.coherent
    (safe.applied left leftApplied) rightCommitted

theorem applied_unique_proposal :
    ∃ state, (system trio).Reachable (fun state label => guided trio state label) state ∧
      state.applied.map LogEntry.index = [1, 1, 2, 2] ∧
      ∀ left ∈ state.applied, ∀ right ∈ state.applied, left.index = right.index →
        left = right := by
  have executed : (System.execute (State.next trio) (guided trio) (electionRun ++ proposalRun)
      (.start trio)).map (fun state => state.applied.map LogEntry.index) = some [1, 1, 2, 2] := by
    decide +kernel
  rcases System.reachable_of_execute (fun _ _ => id) executed with
    ⟨state, reachable, observed⟩
  exact ⟨state, reachable, observed, applied_unique trio state reachable⟩

/-- **Leader completeness and durability.** While no Leader is misled, what a
Leader committed stays in the log of every later Leader and in the durable logs
of two Nodes. -/
theorem committed_kept (membership : Membership) (state : State)
    (reachable : (system membership).Reachable
      (fun state label => guided membership state label) state) :
    ∀ made ∈ state.commitments, ∀ (offset : Nat) (entry : LogEntry),
      made.entries[offset]? = some entry →
      (∀ id ∈ membership.members, (state.hosts id).core.role = .leader →
        made.term < (state.hosts id).core.term →
        (state.hosts id).core.log[offset]? = some entry) ∧
      ∃ first ∈ membership.members, ∃ second ∈ membership.members, first ≠ second ∧
        (state.hosts first).store.log[offset]? = some entry ∧
        (state.hosts second).store.log[offset]? = some entry := by
  rcases Safe.of_reachable reachable with ⟨ledger, tally, safe⟩
  have coherent := safe.grounded.followed.sane.coherent
  intro made isMade offset entry found
  have upheld := safe.commitments made isMade
  have within := (List.getElem?_eq_some_iff.mp found).1
  have inside : offset + 1 ≤ tally.committed made.term := by
    have := upheld.committed
    omega
  have leaderFound : (ledger.leaderLog made.term)[offset]? = some entry := by
    rw [← (AgreeThrough.of_isPrefix upheld.leading within).getElem?_eq (Nat.lt_succ_self offset)]
    exact found
  refine ⟨fun id member leading newer => ?_, ?_⟩
  · have tracks := safe.grounded.followed.tracks id member
    have led := ((safe.reliable id member).leads leading).led
    have agree := safe.secured.leader_holds coherent newer.le led
    rw [← show ledger.leaderLog (state.hosts id).core.term = (state.hosts id).core.log from
      (tracks.leader leading).2]
    exact ((agree.mono inside).getElem?_eq (Nat.lt_succ_self offset)).trans leaderFound
  · rcases safe.secured.committed_durable coherent (Nat.lt_of_lt_of_le (Nat.succ_pos offset) inside)
      with ⟨voters, quorum, kept⟩
    rcases Finset.one_lt_card.mp quorum.2 with ⟨first, inFirst, second, inSecond, different⟩
    have stored : ∀ voter ∈ voters, (state.hosts voter).store.log[offset]? = some entry := by
      intro voter isVoter
      have member := quorum.1 voter isVoter
      have identity : (state.hosts voter).core.id = voter :=
        safe.grounded.followed.identity voter member
      have tracks := safe.grounded.followed.tracks voter member
      have agree := (kept voter isVoter).mono inside
      rw [(safe.grounded.synced voter member).storedLog,
        ← show ledger.log (state.hosts voter).core.id =
          (state.hosts voter).core.log from tracks.log,
        identity]
      exact (agree.getElem?_eq (Nat.lt_succ_self offset)).trans leaderFound
    exact ⟨first, quorum.1 first inFirst, second, quorum.1 second inSecond, different,
      stored first inFirst, stored second inSecond⟩

/-- What `a` committed in Term 1 is in the log of `b`, which leads Term 2. -/
theorem committed_kept_reelection :
    ∃ state, (system trio).Reachable (fun state label => guided trio state label) state ∧
      (state.hosts "b").core.role = .leader ∧ (state.hosts "b").core.term = 2 ∧
      ∃ made ∈ state.commitments, made.term = 1 ∧ ∃ entry, made.entries[1]? = some entry ∧
        (state.hosts "b").core.log[1]? = some entry ∧
        ∃ first ∈ trio.members, ∃ second ∈ trio.members, first ≠ second ∧
          (state.hosts first).store.log[1]? = some entry ∧
          (state.hosts second).store.log[1]? = some entry := by
  have executed : (System.execute (State.next trio) (guided trio) reelectionRun
      (.start trio)).map (fun state => ((state.hosts "b").core.role, (state.hosts "b").core.term,
        state.commitments.any fun made => made.term = 1 && made.entries[1]?.isSome)) =
      some (.leader, 2, true) := by
    decide +kernel
  rcases System.reachable_of_execute (fun _ _ => id) executed with
    ⟨state, reachable, observed⟩
  simp only [Prod.mk.injEq] at observed
  rcases observed with ⟨leads, term, committed⟩
  rcases List.any_eq_true.mp committed with ⟨made, isMade, found⟩
  rw [Bool.and_eq_true, decide_eq_true_eq] at found
  rcases Option.isSome_iff_exists.mp found.2 with ⟨entry, holds⟩
  rcases committed_kept trio state reachable made isMade 1 entry holds with ⟨led, stored⟩
  have held := led "b" (by decide) leads (by rw [found.1, term]; decide)
  exact ⟨state, reachable, leads, term, made, isMade, found.1, entry, holds, held, stored⟩

/-! ## A misled Leader

A request of a Term that has passed is rejected in the receiver's current Term
and without a hint. After a restart the sender may lead that Term, and may have
given the request's identifier to another request. It then starts over from its
first entry, and the batch it sends ends before the logs part. -/

def bulk : List UInt8 := List.replicate 16384 0

def proposeBulk : Label :=
  fire "a" (.proposeSet ⟨1, SessionID.zero, 1, "k", bulk⟩)

/-- `a` commits more than a batch with `b` in Term 1, and `b` is elected in Term
2 and appends its no-op. `a` restarts, learns of Term 2 and is elected in Term 3.
`b` reaches Term 3, and rejects the first request of Term 1. `a` takes this for an
answer and sends a batch that brings `b` nothing new. `b` answers for its whole
log, which `a` commits. Then `b` is elected in Term 4 and commits its own log. -/
def misledRun : List Label :=
  electionRun ++ List.replicate 65 proposeBulk ++ [11, 12, 13, 14, 15, 16].map deliver ++
    fire "b" .electionTimeout :: [19, 20, 22, 23].map deliver ++
    .crash (.event "a" .heartbeatTimeout) 400 0 ::
    fire "a" .electionTimeout :: [27, 28].map deliver ++
    fire "a" .electionTimeout :: [30, 31, 33, 34, 32, 6, 38, 39, 40].map deliver ++
    fire "b" .electionTimeout :: [43, 44, 46, 47, 49, 50, 51, 52, 53, 54].map deliver

/-- What the run leaves at index 67: `a` applied and committed the no-op of Term
3, which nobody else holds, and `b` applied that of Term 2. -/
theorem misledRun_reaches :
    ∃ state, (system trio).Reachable System.anyStep state ∧
      ((state.applied.any fun entry => entry.index == 67 && entry.term == 3) &&
        (state.applied.any fun entry => entry.index == 67 && entry.term == 2) &&
        (state.commitments.any fun made =>
          made.entries[66]?.any fun entry => entry.term == 3) &&
        (["b", "c"].all fun id =>
          (state.hosts id).store.log[66]?.all fun entry => entry.term == 2)) = true := by
  have executed : (System.execute (State.next trio) (fun _ _ => true) misledRun
      (.start trio)).map (fun state =>
        (state.applied.any fun entry => entry.index == 67 && entry.term == 3) &&
        (state.applied.any fun entry => entry.index == 67 && entry.term == 2) &&
        (state.commitments.any fun made =>
          made.entries[66]?.any fun entry => entry.term == 3) &&
        (["b", "c"].all fun id =>
          (state.hosts id).store.log[66]?.all fun entry => entry.term == 2)) = some true := by
    decide +kernel
  exact System.reachable_of_execute (fun _ _ _ => trivial) executed

theorem applied_differ_misled :
    ∃ state, (system trio).Reachable System.anyStep state ∧
      ∃ left ∈ state.applied, ∃ right ∈ state.applied, left.index = right.index ∧
        left ≠ right := by
  rcases misledRun_reaches with ⟨state, reachable, observed⟩
  simp only [Bool.and_eq_true, List.any_eq_true, beq_iff_eq] at observed
  rcases observed with ⟨⟨⟨⟨left, leftApplied, leftIndex, leftTerm⟩, right, rightApplied, rightIndex,
    rightTerm⟩, _⟩, _⟩
  refine ⟨state, reachable, left, leftApplied, right, rightApplied,
    leftIndex.trans rightIndex.symm, ?_⟩
  rintro rfl
  omega

theorem committed_lost_misled :
    ∃ state, (system trio).Reachable System.anyStep state ∧
      ∃ made ∈ state.commitments, ∃ entry, made.entries[66]? = some entry ∧
        ¬∃ first ∈ trio.members, ∃ second ∈ trio.members, first ≠ second ∧
          (state.hosts first).store.log[66]? = some entry ∧
          (state.hosts second).store.log[66]? = some entry := by
  rcases misledRun_reaches with ⟨state, reachable, observed⟩
  simp only [Bool.and_eq_true, List.any_eq_true, Option.any_eq_true, beq_iff_eq,
    List.all_eq_true] at observed
  rcases observed with ⟨⟨_, made, isMade, entry, found, isTerm⟩, others⟩
  have differ : ∀ id ∈ ["b", "c"], (state.hosts id).store.log[66]? ≠ some entry := by
    intro id other holds
    have second := others id other
    rw [holds] at second
    simp only [Option.all_some, beq_iff_eq] at second
    omega
  refine ⟨state, reachable, made, isMade, entry, found, ?_⟩
  rintro ⟨first, firstMember, second, secondMember, different, firstHolds, secondHolds⟩
  simp only [trio, List.mem_cons, List.not_mem_nil, or_false] at firstMember secondMember
  rcases firstMember with rfl | rfl | rfl
  · rcases secondMember with rfl | rfl | rfl
    · exact different rfl
    · exact differ "b" (by decide) secondHolds
    · exact differ "c" (by decide) secondHolds
  · exact differ "b" (by decide) firstHolds
  · exact differ "c" (by decide) firstHolds

end Ternion.Cluster.Production
