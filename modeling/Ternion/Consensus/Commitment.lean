import Ternion.Consensus.Replication

/-! # Acknowledgement and commitment

A `Tally` records, for every Term, how far each member acknowledged the
Leader's log and how far the Leader committed it. The invariant ties what a
member acknowledged to the votes it gives later, and leader completeness
follows from it by induction on Terms.
-/

namespace Ternion.Consensus

variable {Member Entry : Type}

variable {later : Nat} {requested : List Entry}

structure Tally (Member : Type) where
  acknowledged : Member → Nat → Nat
  committed : Nat → Nat

def TermAt (termOf : Entry → Nat) (log : List Entry) (index term : Nat) : Prop :=
  0 < index ∧ ∃ entry, log[index - 1]? = some entry ∧ termOf entry = term

namespace TermAt

variable {termOf : Entry → Nat} {log extended : List Entry} {index term : Nat}

theorem le_length (here : TermAt termOf log index term) : index ≤ log.length := by
  rcases here with ⟨positive, entry, found, _⟩
  have within := (List.getElem?_eq_some_iff.mp found).1
  omega

theorem agree (here : TermAt termOf log index term)
    (same : AgreeThrough log extended index) : TermAt termOf extended index term := by
  rcases here with ⟨positive, entry, found, entryTerm⟩
  refine ⟨positive, entry, ?_, entryTerm⟩
  rw [← same.getElem?_eq (by omega)]
  exact found

end TermAt

/-- The Leader of `later` was elected without the log of the Leader of `term`
through `index`. -/
def Lacks (ledger : Ledger Member Entry) (later term index : Nat) : Prop :=
  ∃ leader requested, ledger.leader later = some leader ∧
    ledger.candidateLog leader later = some requested ∧
    ¬AgreeThrough requested (ledger.leaderLog term) index

theorem Lacks.mono {member : Member} {before after : Ledger Member Entry}
    (advance : Advance member before after) {term index : Nat} (led : before.leader term ≠ none)
    (within : index ≤ (before.leaderLog term).length) (lacks : Lacks before later term index) :
    Lacks after later term index := by
  rcases lacks with ⟨leader, requested, isLeader, ran, differ⟩
  refine ⟨leader, requested, advance.leader_kept isLeader,
    advance.candidateLog_kept ran, fun agree => differ ?_⟩
  have grown := AgreeThrough.of_isPrefix (advance.leaderLog_grows led) within
  exact agree.trans grown.symm

/-- What acknowledgements and commitments promise. Positions of an earlier
Term are covered by the position of the Term itself that follows them. -/
structure Secured (protocol : Protocol Member Entry)
    (ledger : Ledger Member Entry) (tally : Tally Member) : Prop where
  acknowledgedTerm : ∀ {member term}, 0 < tally.acknowledged member term →
    term ≤ ledger.term member ∧ ledger.leader term ≠ none
  acknowledgedLength : ∀ member term,
    tally.acknowledged member term ≤ (ledger.leaderLog term).length
  acknowledgedKept : ∀ {member term index},
    index ≤ tally.acknowledged member term →
    TermAt protocol.termOf (ledger.leaderLog term) index term →
    AgreeThrough (ledger.log member) (ledger.leaderLog term) index ∨
      ∃ later, term < later ∧ later ≤ ledger.term member ∧
        Lacks ledger later term index
  -- A vote given after the Term had a Leader elects nobody, and promises nothing.
  votesKept : ∀ {voter later candidate requested},
    ledger.vote voter later = some candidate →
    (ledger.leader later = none ∨ voter ∈ ledger.electors later) →
    ledger.candidateLog candidate later = some requested →
    ∀ {term index}, term < later → index ≤ tally.acknowledged voter term →
      TermAt protocol.termOf (ledger.leaderLog term) index term →
      AgreeThrough requested (ledger.leaderLog term) index ∨
        ∃ between, term < between ∧ between < later ∧
          Lacks ledger between term index
  committedQuorum : ∀ {term}, 0 < tally.committed term →
    TermAt protocol.termOf (ledger.leaderLog term) (tally.committed term) term ∧
      ∃ voters, protocol.Quorum voters ∧
        ∀ voter ∈ voters, tally.committed term ≤ tally.acknowledged voter term

def Tally.initial : Tally Member where
  acknowledged := fun _ _ => 0
  committed := fun _ => 0

theorem Secured.initial (protocol : Protocol Member Entry) :
    Secured protocol Ledger.initial (Tally.initial : Tally Member) where
  acknowledgedTerm := by simp [Tally.initial]
  acknowledgedLength := by simp [Tally.initial]
  acknowledgedKept := by
    intro member term index _ here
    simp [Ledger.initial, TermAt] at here
  votesKept := by simp [Ledger.initial]
  committedQuorum := by simp [Tally.initial]

namespace Secured

variable {protocol : Protocol Member Entry} {ledger : Ledger Member Entry}
  {tally : Tally Member}

variable (secured : Secured protocol ledger tally)

include secured

section

variable (coherent : Coherent protocol ledger)

include coherent

/-- **Leader completeness.** What the Leader of `term` committed is in the log
every later Leader was elected with. -/
theorem leader_completeness {term : Nat} (someCommitted : 0 < tally.committed term) :
    ∀ later, term < later → ¬Lacks ledger later term (tally.committed term) := by
  rcases secured.committedQuorum someCommitted with
    ⟨here, voters, quorum, acknowledged⟩
  intro later
  induction later using Nat.strong_induction_on with
  | _ later induction =>
      intro newer lacks
      rcases lacks with ⟨leader, requested, led, ran, differ⟩
      rcases coherent.leaderElected led with ⟨electorsQuorum, votes⟩
      rcases protocol.quorums_meet quorum electorsQuorum with
        ⟨voter, member, elector⟩
      rcases secured.votesKept (votes voter elector) (.inr elector) ran newer
        (acknowledged voter member) here with agree | ⟨between, above, below, earlier⟩
      · exact differ agree
      · exact induction between below above earlier

theorem committed_agree {earlier index : Nat} (ordered : earlier ≤ later)
    (inEarlier : index ≤ tally.committed earlier)
    (inLater : index ≤ (ledger.leaderLog later).length) (led : ledger.leader later ≠ none) :
    AgreeThrough (ledger.leaderLog later) (ledger.leaderLog earlier) index := by
  rcases Nat.eq_zero_or_pos index with rfl | positive
  · exact ⟨Nat.zero_le _, Nat.zero_le _, rfl⟩
  have someCommitted : 0 < tally.committed earlier := by omega
  rcases Nat.eq_or_lt_of_le ordered with rfl | newer
  · exact AgreeThrough.refl _ inLater
  · rcases Option.ne_none_iff_exists'.mp led with ⟨leader, isLeader⟩
    rcases coherent.leaderShape isLeader with ⟨requested, own, ran, shape, _⟩
    have complete := secured.leader_completeness coherent someCommitted later newer
    have agree : AgreeThrough requested (ledger.leaderLog earlier)
        (tally.committed earlier) := by
      by_contra differ
      exact complete ⟨leader, requested, isLeader, ran, differ⟩
    have leading : requested <+: ledger.leaderLog later := by
      rw [shape]
      exact List.prefix_append _ _
    exact (agree.mono inEarlier).extend_left leading

theorem committed_in_requested {earlier : Nat} (newer : earlier < later) {leader : Member}
    (led : ledger.leader later = some leader)
    (ran : ledger.candidateLog leader later = some requested) :
    tally.committed earlier ≤ requested.length := by
  rcases Nat.eq_zero_or_pos (tally.committed earlier) with zero | someCommitted
  · omega
  · by_contra short
    exact secured.leader_completeness coherent someCommitted later newer
      ⟨leader, requested, led, ran, fun agree => short agree.1⟩

/-- The log of a newer Leader that was not elected without an acknowledged
position holds that position. -/
theorem leader_agrees {holder : Member} {term index : Nat} (led : ledger.leader later ≠ none)
    (reached : term ≤ later) (acknowledged : index ≤ tally.acknowledged holder term)
    (kept : term < later → ¬Lacks ledger later term index) :
    AgreeThrough (ledger.leaderLog later) (ledger.leaderLog term) index := by
  rcases Nat.eq_or_lt_of_le reached with rfl | newer
  · exact AgreeThrough.refl _ (acknowledged.trans (secured.acknowledgedLength holder term))
  · rcases Option.ne_none_iff_exists'.mp led with ⟨leader, isLeader⟩
    rcases coherent.leaderShape isLeader with ⟨requested, own, ran, shape, _⟩
    have agree : AgreeThrough requested (ledger.leaderLog term) index := by
      by_contra differ
      exact kept newer ⟨leader, requested, isLeader, ran, differ⟩
    have leading : requested <+: ledger.leaderLog later := by
      rw [shape]
      exact List.prefix_append _ _
    exact agree.extend_left leading

theorem committed_durable {term : Nat} (someCommitted : 0 < tally.committed term) :
    ∃ voters, protocol.Quorum voters ∧ ∀ voter ∈ voters,
      AgreeThrough (ledger.log voter) (ledger.leaderLog term)
        (tally.committed term) := by
  rcases secured.committedQuorum someCommitted with
    ⟨here, voters, quorum, acknowledged⟩
  refine ⟨voters, quorum, fun voter member => ?_⟩
  rcases secured.acknowledgedKept (acknowledged voter member) here with
    agree | ⟨later, newer, _, lacks⟩
  · exact agree
  · exact absurd lacks (secured.leader_completeness coherent someCommitted later newer)

end

end Secured

/-! ## Moves keep the promises -/

/-- A vote carries an acknowledged position into the candidate's log, unless
a Leader in between was already without it. -/
theorem Coherent.vote_carries {protocol : Protocol Member Entry} {ledger : Ledger Member Entry}
    (coherent : Coherent protocol ledger) {candidate : Member} {held : List Entry}
    (ran : ledger.candidateLog candidate later = some requested)
    (heldMatched : Matched protocol.termOf ledger held)
    (upToDate : UpToDate protocol.termOf requested held) {term index : Nat}
    (here : TermAt protocol.termOf (ledger.leaderLog term) index term)
    (agree : AgreeThrough held (ledger.leaderLog term) index) :
    AgreeThrough requested (ledger.leaderLog term) index ∨
      ∃ between, term < between ∧ between < later ∧
        Lacks ledger between term index := by
  have requestedMatched := coherent.candidateMatched ran
  rcases here.agree agree.symm with ⟨positive, entry, found, entryTerm⟩
  have heldLast : term ≤ lastTerm protocol.termOf held := by
    rw [← entryTerm]
    exact coherent.term_le_lastTerm heldMatched (List.mem_of_getElem? found)
  have requestedLast : lastTerm protocol.termOf held ≤
      lastTerm protocol.termOf requested := by
    rcases upToDate with newer | ⟨same, _⟩
    · exact newer.le
    · exact same.ge
  -- The held entry is of a positive Term, so the request is not empty.
  have termPositive : 0 < term := by
    rw [← entryTerm]
    exact coherent.leader_positive (heldMatched _ entry found).1
  have nonempty : requested ≠ [] := by
    rintro rfl
    simp only [lastTerm, List.getLast?_nil, Option.map_none, Option.getD_none] at requestedLast
    simp only [lastTerm] at heldLast
    omega
  rcases Coherent.isPrefix_leaderLog requestedMatched nonempty with ⟨led, leading⟩
  rcases Nat.eq_or_lt_of_le (heldLast.trans requestedLast) with sameTerm | newerTerm
  · -- Both logs end in `term`, so the request is the longer part of one log.
    left
    have long : held.length ≤ requested.length := by
      rcases upToDate with newer | ⟨_, long⟩
      · omega
      · exact long
    rw [← sameTerm] at leading
    exact AgreeThrough.of_isPrefix leading (agree.1.trans long)
  · rcases Option.ne_none_iff_exists'.mp led with ⟨leader, isLeader⟩
    rcases coherent.leaderShape isLeader with ⟨first, own, firstRan, shape, _, ownTerm⟩
    have lastOld : lastTerm protocol.termOf requested < later := by
      have member := List.getLast_mem nonempty
      have older := coherent.candidateOlder ran _ member
      simpa [lastTerm, List.getLast?_eq_some_getLast nonempty] using older
    by_cases carried : AgreeThrough first (ledger.leaderLog term) index
    · left
      -- The request reaches past the log its last Term started from.
      have reaches : first.length < requested.length := by
        by_contra short
        have inFirst : requested <+: first := by
          rw [shape] at leading
          exact List.prefix_of_prefix_length_le leading
            (List.prefix_append _ _) (by omega)
        have older := coherent.candidateOlder firstRan _
          (inFirst.subset (List.getLast_mem nonempty))
        simp [lastTerm, List.getLast?_eq_some_getLast nonempty] at older
      have agreeLeader : AgreeThrough requested
          (ledger.leaderLog (lastTerm protocol.termOf requested)) index :=
        AgreeThrough.of_isPrefix leading (by have := carried.1; omega)
      have leadingFirst : first <+:
          ledger.leaderLog (lastTerm protocol.termOf requested) := by
        rw [shape]
        exact List.prefix_append _ _
      exact agreeLeader.trans (carried.extend_left leadingFirst)
    · exact .inr ⟨_, newerTerm, lastOld, leader, first, isLeader, firstRan, carried⟩

section Moves

variable {protocol : Protocol Member Entry} {member : Member}
  {before after : Ledger Member Entry} {tally : Tally Member}

theorem TermAt.earlier (advance : Advance member before after) {term index : Nat}
    (led : before.leader term ≠ none) (within : index ≤ (before.leaderLog term).length)
    (here : TermAt protocol.termOf (after.leaderLog term) index term) :
    TermAt protocol.termOf (before.leaderLog term) index term :=
  here.agree (AgreeThrough.of_isPrefix (advance.leaderLog_grows led) within).symm

section

variable (secured : Secured protocol before tally) (advance : Advance member before after)

include secured advance

theorem Secured.votes_carried {voter candidate : Member}
    (cast : before.vote voter later = some candidate)
    (counts : before.leader later = none ∨ voter ∈ before.electors later)
    (ran : before.candidateLog candidate later = some requested) {term index : Nat}
    (newer : term < later) (acknowledged : index ≤ tally.acknowledged voter term)
    (here : TermAt protocol.termOf (after.leaderLog term) index term) :
    AgreeThrough requested (after.leaderLog term) index ∨
      ∃ between, term < between ∧ between < later ∧ Lacks after between term index := by
  have positive : 0 < tally.acknowledged voter term := by
    have := here.1
    omega
  have led := (secured.acknowledgedTerm positive).2
  have within := acknowledged.trans (secured.acknowledgedLength voter term)
  rcases secured.votesKept cast counts ran newer acknowledged
    (here.earlier advance led within) with agree | ⟨between, above, below, lacks⟩
  · exact .inl (agree.extend_right (advance.leaderLog_grows led))
  · exact .inr ⟨between, above, below, lacks.mono advance led within⟩

theorem Secured.acknowledged_carried {holder : Member} {term index : Nat}
    (logKept : before.log holder <+: after.log holder)
    (termKept : before.term holder ≤ after.term holder)
    (acknowledged : index ≤ tally.acknowledged holder term)
    (here : TermAt protocol.termOf (after.leaderLog term) index term) :
    AgreeThrough (after.log holder) (after.leaderLog term) index ∨
      ∃ later, term < later ∧ later ≤ after.term holder ∧
        Lacks after later term index := by
  have positive : 0 < tally.acknowledged holder term := by
    have := here.1
    omega
  have led := (secured.acknowledgedTerm positive).2
  have within := acknowledged.trans (secured.acknowledgedLength holder term)
  rcases secured.acknowledgedKept acknowledged (here.earlier advance led within) with
    agree | ⟨later, newer, reached, lacks⟩
  · exact .inl ((agree.extend_right (advance.leaderLog_grows led)).extend_left logKept)
  · exact .inr ⟨later, newer, reached.trans termKept, lacks.mono advance led within⟩

theorem Secured.of_advance
    (acknowledgedKept : ∀ {term index}, index ≤ tally.acknowledged member term →
      TermAt protocol.termOf (after.leaderLog term) index term →
      AgreeThrough (after.log member) (after.leaderLog term) index ∨
        ∃ later, term < later ∧ later ≤ after.term member ∧
          Lacks after later term index)
    (votesKept : ∀ {voter later candidate requested},
      after.vote voter later = some candidate →
      (after.leader later = none ∨ voter ∈ after.electors later) →
      after.candidateLog candidate later = some requested →
      (before.vote voter later = some candidate ∧
        (before.leader later = none ∨ voter ∈ before.electors later) ∧
        before.candidateLog candidate later = some requested) ∨
      ∀ {term index}, term < later → index ≤ tally.acknowledged voter term →
        TermAt protocol.termOf (after.leaderLog term) index term →
        AgreeThrough requested (after.leaderLog term) index ∨
          ∃ between, term < between ∧ between < later ∧ Lacks after between term index) :
    Secured protocol after tally where
  acknowledgedTerm := by
    intro holder term positive
    rcases secured.acknowledgedTerm positive with ⟨reached, led⟩
    refine ⟨?_, advance.leader_ne_none led⟩
    by_cases same : holder = member
    · subst holder
      exact reached.trans advance.term_le
    · rw [advance.other_term same]
      exact reached
  acknowledgedLength := by
    intro holder term
    rcases Nat.eq_zero_or_pos (tally.acknowledged holder term) with zero | positive
    · omega
    · have led := (secured.acknowledgedTerm positive).2
      exact (secured.acknowledgedLength holder term).trans
        (advance.leaderLog_grows led).length_le
  acknowledgedKept := by
    intro holder term index acknowledged here
    by_cases same : holder = member
    · subst holder
      exact acknowledgedKept acknowledged here
    · exact secured.acknowledged_carried advance
        (by rw [advance.other_log same]) (advance.other_term same).ge acknowledged here
  votesKept := by
    intro voter later candidate requested cast counts ran term index newer acknowledged here
    rcases votesKept cast counts ran with ⟨cast', counts', ran'⟩ | fresh
    · exact secured.votes_carried advance cast' counts' ran' newer acknowledged here
    · exact fresh newer acknowledged here
  committedQuorum := by
    intro term someCommitted
    rcases secured.committedQuorum someCommitted with ⟨here, voters, quorum, acknowledged⟩
    refine ⟨here.agree ?_, voters, quorum, acknowledged⟩
    rcases here with ⟨positive, entry, found, entryTerm⟩
    have within := (List.getElem?_eq_some_iff.mp found).1
    have led : before.leader term ≠ none := by
      rcases protocol.quorums_meet quorum quorum with ⟨voter, inside, _⟩
      exact (secured.acknowledgedTerm
        (someCommitted.trans_le (acknowledged voter inside))).2
    exact AgreeThrough.of_isPrefix (advance.leaderLog_grows led) (by omega)

end

variable [DecidableEq Member]

theorem Protocol.Move.secured (move : protocol.Move member before after)
    (coherent : Coherent protocol before) (secured : Secured protocol before tally) :
    Secured protocol after tally := by
  have advance := move.advance coherent
  cases move with
  | raiseTerm ordered =>
      exact secured.of_advance advance
        (fun acknowledged here =>
          secured.acknowledged_carried advance List.prefix_rfl advance.term_le acknowledged here)
        (fun cast counts ran => .inl ⟨cast, counts, ran⟩)
  | @castVote candidate requested fresh ran upToDate =>
      refine secured.of_advance advance
        (fun acknowledged here =>
          secured.acknowledged_carried advance List.prefix_rfl advance.term_le acknowledged here)
        ?_
      intro voter later chosen chosenLog cast counts chosenRan
      rcases Ledger.castVote_cases cast with earlier | ⟨rfl, rfl, rfl⟩
      · exact .inl ⟨earlier, counts, chosenRan⟩
      · right
        intro term index newer acknowledged here
        have sameLog : requested = chosenLog := Option.some.inj (ran.symm.trans chosenRan)
        subst sameLog
        rcases secured.acknowledgedKept acknowledged here with
          agree | ⟨between, above, below, lacks⟩
        · exact coherent.vote_carries ran (coherent.logMatched voter) upToDate here agree
        · -- The Term itself has no Leader yet, or this vote would be one of its electors'.
          refine .inr ⟨between, above, lt_of_le_of_ne below ?_, lacks⟩
          rintro rfl
          rcases lacks with ⟨leader, _, led, _⟩
          rcases counts with vacant | elector
          · exact absurd (led.symm.trans vacant) (Option.some_ne_none leader)
          · have cast := (coherent.leaderElected led).2 voter elector
            exact absurd (cast.symm.trans fresh) (Option.some_ne_none leader)
  | campaign =>
      refine secured.of_advance advance
        (fun acknowledged here =>
          secured.acknowledged_carried advance List.prefix_rfl advance.term_le acknowledged here)
        ?_
      intro voter later chosen chosenLog cast counts chosenRan
      rcases Ledger.campaign_vote_cases cast with earlier | ⟨rfl, rfl, rfl⟩
      · rcases Option.ne_none_iff_exists'.mp (coherent.voteCandidate earlier) with ⟨log, ran⟩
        have sameLog : log = chosenLog :=
          Option.some.inj ((advance.candidateLog_kept ran).symm.trans chosenRan)
        exact .inl ⟨earlier, counts, sameLog ▸ ran⟩
      · right
        intro term index newer acknowledged here
        have sameLog : before.log voter = chosenLog := by
          simpa [Ledger.campaign] using chosenRan
        rcases secured.acknowledgedKept acknowledged here with
          agree | ⟨between, above, below, lacks⟩
        · exact .inl (sameLog ▸ agree)
        · have positive : 0 < tally.acknowledged voter term := by
            have := here.1
            omega
          exact .inr ⟨between, above, Nat.lt_succ_of_le below,
            lacks.mono advance (secured.acknowledgedTerm positive).2 here.le_length⟩
  | @elect voters entry vacant ran quorum votes entryTerm =>
      refine secured.of_advance advance
        (fun acknowledged here => secured.acknowledged_carried advance
          (by simp [Ledger.elect]) advance.term_le acknowledged here) ?_
      intro voter later chosen chosenLog cast counts chosenRan
      refine .inl ⟨cast, ?_, chosenRan⟩
      by_cases same : later = before.term member
      · exact .inl (same ▸ vacant)
      · simpa [Ledger.elect, same] using counts
  | @append entry led sameLog entryTerm =>
      exact secured.of_advance advance
        (fun acknowledged here => secured.acknowledged_carried advance
          (by simp [Ledger.append]) advance.term_le acknowledged here)
        (fun cast counts ran => .inl ⟨cast, counts, ran⟩)
  | @follow count led keeps =>
      refine secured.of_advance advance ?_ (fun cast counts ran => .inl ⟨cast, counts, ran⟩)
      intro term index acknowledged here
      rcases secured.acknowledgedKept acknowledged here with agree | lost
      · by_cases lacks : term < before.term member ∧
            Lacks before (before.term member) term index
        · exact .inr ⟨before.term member, lacks.1, le_rfl, lacks.2⟩
        · left
          have positive : 0 < tally.acknowledged member term := by
            have := here.1
            omega
          have leaders : AgreeThrough (before.leaderLog (before.term member))
              (before.leaderLog term) index :=
            secured.leader_agrees coherent led (secured.acknowledgedTerm positive).1
              acknowledged (fun newer lost => lacks ⟨newer, lost⟩)
          have kept := keeps index (agree.trans leaders.symm)
          have copied : AgreeThrough ((before.follow member count).log member)
              (before.leaderLog (before.term member)) index := by
            simp only [Ledger.follow, Function.update_self]
            exact agreeThrough_take _ kept leaders.1
          exact copied.trans leaders
      · exact .inr lost

theorem Protocol.Moves.secured (moves : protocol.Moves member before after)
    (coherent : Coherent protocol before) (secured : Secured protocol before tally) :
    Secured protocol after tally := by
  induction moves with
  | refl => exact secured
  | tail earlier move induction =>
      exact move.secured (Protocol.Moves.coherent earlier coherent).1 induction

end Moves

/-! ## Acknowledging and committing -/

structure Tally.Grows (before after : Tally Member) : Prop where
  acknowledged : ∀ member term,
    before.acknowledged member term ≤ after.acknowledged member term
  committed : ∀ term, before.committed term ≤ after.committed term

theorem Tally.Grows.refl (tally : Tally Member) : tally.Grows tally where
  acknowledged := fun _ _ => le_rfl
  committed := fun _ => le_rfl

theorem Tally.Grows.trans {first second third : Tally Member}
    (left : first.Grows second) (right : second.Grows third) : first.Grows third where
  acknowledged := fun member term =>
    (left.acknowledged member term).trans (right.acknowledged member term)
  committed := fun term => (left.committed term).trans (right.committed term)

def Tally.commit (tally : Tally Member) (term index : Nat) : Tally Member :=
  { tally with
    committed := Function.update tally.committed term
      (max (tally.committed term) index) }

theorem Tally.grows_commit (tally : Tally Member) (term index : Nat) :
    tally.Grows (tally.commit term index) where
  acknowledged := fun _ _ => le_rfl
  committed := by
    intro other
    by_cases same : other = term
    · simp [commit, same]
    · simp [commit, same]

theorem Secured.commit {protocol : Protocol Member Entry} {ledger : Ledger Member Entry}
    {tally : Tally Member} (secured : Secured protocol ledger tally) {term index : Nat}
    (here : TermAt protocol.termOf (ledger.leaderLog term) index term)
    {voters : Finset Member} (quorum : protocol.Quorum voters)
    (acknowledged : ∀ voter ∈ voters, index ≤ tally.acknowledged voter term) :
    Secured protocol ledger (tally.commit term index) :=
  { secured with
    committedQuorum := by
      intro other someCommitted
      by_cases same : other = term
      · subst other
        simp only [Tally.commit, Function.update_self] at someCommitted ⊢
        rcases le_total (tally.committed term) index with newer | older
        · rw [Nat.max_eq_right newer]
          exact ⟨here, voters, quorum, acknowledged⟩
        · rw [Nat.max_eq_left older] at someCommitted ⊢
          exact secured.committedQuorum someCommitted
      · simp only [Tally.commit, Function.update_of_ne same] at someCommitted ⊢
        exact secured.committedQuorum someCommitted }

section Acknowledge

variable [DecidableEq Member]

def Tally.acknowledge (tally : Tally Member) (member : Member) (term count : Nat) :
    Tally Member :=
  { tally with
    acknowledged := Function.update tally.acknowledged member
      (Function.update (tally.acknowledged member) term
        (max (tally.acknowledged member term) count)) }

theorem Tally.acknowledged_self (tally : Tally Member) (member : Member)
    (term count : Nat) :
    count ≤ (tally.acknowledge member term count).acknowledged member term := by
  simp [acknowledge]

theorem Tally.acknowledge_cases {tally : Tally Member} {member holder : Member}
    {term other count index : Nat}
    (within : index ≤ (tally.acknowledge member term count).acknowledged holder other) :
    index ≤ tally.acknowledged holder other ∨
      holder = member ∧ other = term ∧ index ≤ count := by
  by_cases sameHolder : holder = member
  · subst holder
    by_cases sameTerm : other = term
    · subst other
      simp only [acknowledge, Function.update_self, le_max_iff] at within
      rcases within with old | new
      · exact .inl old
      · exact .inr ⟨rfl, rfl, new⟩
    · simp only [acknowledge, Function.update_self, Function.update_of_ne sameTerm] at within
      exact .inl within
  · simp only [acknowledge, Function.update_of_ne sameHolder] at within
    exact .inl within

theorem Tally.grows_acknowledge (tally : Tally Member) (member : Member)
    (term count : Nat) : tally.Grows (tally.acknowledge member term count) where
  committed := fun _ => le_rfl
  acknowledged := by
    intro holder other
    by_cases sameHolder : holder = member
    · subst holder
      by_cases sameTerm : other = term
      · simp [acknowledge, sameTerm]
      · simp [acknowledge, sameTerm]
    · simp [acknowledge, sameHolder]

theorem Secured.acknowledge {protocol : Protocol Member Entry}
    {ledger : Ledger Member Entry} {tally : Tally Member}
    (secured : Secured protocol ledger tally) (coherent : Coherent protocol ledger)
    {member : Member} {count : Nat}
    (led : ledger.leader (ledger.term member) ≠ none)
    (agree : AgreeThrough (ledger.log member)
      (ledger.leaderLog (ledger.term member)) count) :
    Secured protocol ledger
      (tally.acknowledge member (ledger.term member) count) where
  acknowledgedTerm := by
    intro holder other positive
    rcases Tally.acknowledge_cases positive with old | ⟨rfl, rfl, _⟩
    · exact secured.acknowledgedTerm old
    · exact ⟨le_rfl, led⟩
  acknowledgedLength := by
    intro holder other
    have within := le_refl ((tally.acknowledge member (ledger.term member)
      count).acknowledged holder other)
    rcases Tally.acknowledge_cases within with old | ⟨rfl, rfl, new⟩
    · exact old.trans (secured.acknowledgedLength holder other)
    · exact new.trans agree.2.1
  acknowledgedKept := by
    intro holder other index acknowledged here
    rcases Tally.acknowledge_cases acknowledged with old | ⟨rfl, rfl, new⟩
    · exact secured.acknowledgedKept old here
    · exact .inl (agree.mono new)
  votesKept := by
    intro voter later candidate requested cast counts ran term index newer acknowledged here
    rcases Tally.acknowledge_cases acknowledged with old | ⟨rfl, rfl, _⟩
    · exact secured.votesKept cast counts ran newer old here
    · -- Nobody has voted in a Term it has not reached.
      exact absurd (coherent.voteTerm cast) (by omega)
  committedQuorum := by
    intro term someCommitted
    rcases secured.committedQuorum someCommitted with ⟨here, voters, quorum, acknowledged⟩
    exact ⟨here, voters, quorum, fun voter inside =>
      (acknowledged voter inside).trans
        ((Tally.grows_acknowledge tally member _ count).acknowledged voter term)⟩

end Acknowledge

/-! ## Committed prefixes -/

def Announced (tally : Tally Member) (term index : Nat) : Prop :=
  ∃ earlier, earlier ≤ term ∧ index ≤ tally.committed earlier

def HoldsCommitted (ledger : Ledger Member Entry) (tally : Tally Member) (member : Member)
    (index : Nat) : Prop :=
  ∃ term, term ≤ ledger.term member ∧ index ≤ tally.committed term ∧
    AgreeThrough (ledger.log member) (ledger.leaderLog term) index

def IsCommitted (ledger : Ledger Member Entry) (tally : Tally Member) (index : Nat)
    (entry : Entry) : Prop :=
  0 < index ∧ ∃ term, index ≤ tally.committed term ∧
    (ledger.leaderLog term)[index - 1]? = some entry

theorem Announced.mono {before after : Tally Member} (grows : before.Grows after) {term index : Nat}
    (announced : Announced before term index) : Announced after term index := by
  rcases announced with ⟨earlier, ordered, within⟩
  exact ⟨earlier, ordered, within.trans (grows.committed earlier)⟩

theorem HoldsCommitted.zero (ledger : Ledger Member Entry) (tally : Tally Member)
    (member : Member) : HoldsCommitted ledger tally member 0 :=
  ⟨0, Nat.zero_le _, Nat.zero_le _, Nat.zero_le _, Nat.zero_le _, rfl⟩

section Committed

variable {protocol : Protocol Member Entry} {ledger before after : Ledger Member Entry}
  {tally : Tally Member} {member actor : Member} {index : Nat}

theorem HoldsCommitted.grow {grown : Tally Member} (grows : tally.Grows grown)
    (holds : HoldsCommitted ledger tally member index) :
    HoldsCommitted ledger grown member index := by
  rcases holds with ⟨term, reached, within, agree⟩
  exact ⟨term, reached, within.trans (grows.committed term), agree⟩

theorem HoldsCommitted.announced (holds : HoldsCommitted ledger tally member index) :
    Announced tally (ledger.term member) index := by
  rcases holds with ⟨term, reached, within, _⟩
  exact ⟨term, reached, within⟩

section

variable (secured : Secured protocol ledger tally)

include secured

theorem Secured.committed_led {term : Nat}
    (someCommitted : 0 < tally.committed term) : ledger.leader term ≠ none := by
  rcases secured.committedQuorum someCommitted with ⟨_, voters, quorum, acknowledged⟩
  rcases protocol.quorums_meet quorum quorum with ⟨voter, inside, _⟩
  exact (secured.acknowledgedTerm (someCommitted.trans_le (acknowledged voter inside))).2

section

variable (coherent : Coherent protocol ledger)

include coherent

theorem Secured.leader_holds {earlier : Nat} (ordered : earlier ≤ later)
    (led : ledger.leader later ≠ none) :
    AgreeThrough (ledger.leaderLog later) (ledger.leaderLog earlier)
      (tally.committed earlier) := by
  refine secured.committed_agree coherent ordered le_rfl ?_ led
  rcases Nat.eq_zero_or_pos (tally.committed earlier) with zero | someCommitted
  · omega
  · rcases Nat.eq_or_lt_of_le ordered with rfl | newer
    · exact (secured.committedQuorum someCommitted).1.le_length
    · rcases Option.ne_none_iff_exists'.mp led with ⟨leader, isLeader⟩
      rcases coherent.leaderShape isLeader with ⟨requested, own, ran, shape, _⟩
      have inside := secured.committed_in_requested coherent newer isLeader ran
      rw [shape, List.length_append]
      omega

/-- A member whose log is a part of the Leader's holds what the Leader
announces, as far as its log reaches. -/
theorem Secured.holds_announced (led : ledger.leader (ledger.term member) ≠ none)
    (leading : ledger.log member <+: ledger.leaderLog (ledger.term member)) {announced : Nat}
    (isAnnounced : Announced tally (ledger.term member) announced)
    (below : index ≤ announced) (within : index ≤ (ledger.log member).length) :
    HoldsCommitted ledger tally member index := by
  rcases isAnnounced with ⟨term, reached, committed⟩
  have leaders := secured.leader_holds coherent reached led
  exact ⟨term, reached, below.trans committed,
    (AgreeThrough.of_isPrefix leading within).trans (leaders.mono (below.trans committed))⟩

/-- What a member holds as committed is in the log of every Leader that it may
still hear of. -/
theorem Secured.leader_keeps (holds : HoldsCommitted ledger tally member index)
    (led : ledger.leader later ≠ none) (ordered : ledger.term member ≤ later) :
    AgreeThrough (ledger.log member) (ledger.leaderLog later) index := by
  rcases holds with ⟨term, reached, committed, agree⟩
  have leaders := secured.leader_holds coherent (reached.trans ordered) led
  exact agree.trans (leaders.mono committed).symm

theorem Secured.committed_unique {left right : Entry}
    (leftCommitted : IsCommitted ledger tally index left)
    (rightCommitted : IsCommitted ledger tally index right) : left = right := by
  rcases leftCommitted with ⟨positive, leftTerm, leftWithin, leftFound⟩
  rcases rightCommitted with ⟨_, rightTerm, rightWithin, rightFound⟩
  have same : (ledger.leaderLog leftTerm)[index - 1]? =
      (ledger.leaderLog rightTerm)[index - 1]? := by
    rcases le_total leftTerm rightTerm with ordered | ordered
    · have leaders := secured.leader_holds coherent ordered
        (secured.committed_led (positive.trans_le rightWithin))
      exact ((leaders.mono leftWithin).getElem?_eq (by omega)).symm
    · have leaders := secured.leader_holds coherent ordered
        (secured.committed_led (positive.trans_le leftWithin))
      exact (leaders.mono rightWithin).getElem?_eq (by omega)
  rw [leftFound, rightFound] at same
  exact Option.some.inj same

end

end

theorem HoldsCommitted.isCommitted (holds : HoldsCommitted ledger tally member index)
    {position : Nat} (positive : 0 < position) (within : position ≤ index) {entry : Entry}
    (found : (ledger.log member)[position - 1]? = some entry) :
    IsCommitted ledger tally position entry := by
  rcases holds with ⟨term, _, committed, agree⟩
  refine ⟨positive, term, within.trans committed, ?_⟩
  rw [← agree.getElem?_eq (by omega)]
  exact found

theorem IsCommitted.grow {grown : Tally Member} (grows : tally.Grows grown) {entry : Entry}
    (isCommitted : IsCommitted ledger tally index entry) :
    IsCommitted ledger grown index entry := by
  rcases isCommitted with ⟨positive, term, within, found⟩
  exact ⟨positive, term, within.trans (grows.committed term), found⟩

theorem IsCommitted.advance (secured : Secured protocol before tally)
    (advance : Advance actor before after) {entry : Entry}
    (isCommitted : IsCommitted before tally index entry) :
    IsCommitted after tally index entry := by
  rcases isCommitted with ⟨positive, term, within, found⟩
  have grows := advance.leaderLog_grows (secured.committed_led (positive.trans_le within))
  refine ⟨positive, term, within, ?_⟩
  have reached := (List.getElem?_eq_some_iff.mp found).1
  rw [← (AgreeThrough.of_isPrefix grows (show index ≤ _ by omega)).getElem?_eq (by omega)]
  exact found

theorem HoldsCommitted.extend (secured : Secured protocol before tally)
    (advance : Advance actor before after)
    (termKept : before.term member ≤ after.term member)
    (logKept : before.log member <+: after.log member)
    (holds : HoldsCommitted before tally member index) :
    HoldsCommitted after tally member index := by
  rcases Nat.eq_zero_or_pos index with rfl | positive
  · exact .zero after tally member
  · rcases holds with ⟨term, reached, within, agree⟩
    have grows := advance.leaderLog_grows (secured.committed_led (positive.trans_le within))
    exact ⟨term, reached.trans termKept, within,
      (agree.extend_right grows).extend_left logKept⟩

variable [DecidableEq Member]

theorem Protocol.Move.holdsCommitted (move : protocol.Move member before after)
    (coherent : Coherent protocol before) (secured : Secured protocol before tally)
    (holds : HoldsCommitted before tally member index) :
    HoldsCommitted after tally member index := by
  have advance := move.advance coherent
  cases move with
  | raiseTerm => exact holds.extend secured advance advance.term_le List.prefix_rfl
  | castVote => exact holds.extend secured advance advance.term_le List.prefix_rfl
  | campaign => exact holds.extend secured advance advance.term_le List.prefix_rfl
  | elect => exact holds.extend secured advance advance.term_le (by simp [Ledger.elect])
  | append => exact holds.extend secured advance advance.term_le (by simp [Ledger.append])
  | follow led keeps =>
      rcases holds with ⟨term, reached, within, agree⟩
      have leaders := (secured.leader_holds coherent reached led).mono within
      have kept := keeps index (agree.trans leaders.symm)
      refine ⟨term, reached, within, ?_⟩
      simp only [Ledger.follow, Function.update_self]
      exact (agreeThrough_take _ kept leaders.1).trans leaders

theorem Protocol.Moves.holdsCommitted (moves : protocol.Moves actor before after)
    (coherent : Coherent protocol before) (secured : Secured protocol before tally)
    (holds : HoldsCommitted before tally member index) :
    HoldsCommitted after tally member index := by
  by_cases own : member = actor
  · subst own
    induction moves with
    | refl => exact holds
    | tail earlier move induction =>
        exact move.holdsCommitted (Protocol.Moves.coherent earlier coherent).1
          (Protocol.Moves.secured earlier coherent secured) induction
  · have advance := (Protocol.Moves.coherent moves coherent).2
    exact holds.extend secured advance (advance.other_term own).ge
      (by rw [advance.other_log own])

end Committed

end Ternion.Consensus
