import Ternion.Consensus.Ledger

/-! # Elections and log matching

The invariant of elections and replication, which every move preserves. It
does not depend on acknowledgements, so it holds whatever is later committed.
-/

namespace Ternion.Consensus

variable {Member Entry : Type}

variable {log : List Entry} {entry : Entry}

/-- What moves of `member` keep: the past of every Term, and everything that
belongs to another member. -/
structure Advance (member : Member) (before after : Ledger Member Entry) :
    Prop where
  term_le : before.term member ≤ after.term member
  vote_kept : ∀ {voter term candidate},
    before.vote voter term = some candidate →
    after.vote voter term = some candidate
  candidateLog_kept : ∀ {candidate term log},
    before.candidateLog candidate term = some log →
    after.candidateLog candidate term = some log
  leader_kept : ∀ {term leader}, before.leader term = some leader →
    after.leader term = some leader
  leaderLog_grows : ∀ {term}, before.leader term ≠ none →
    before.leaderLog term <+: after.leaderLog term
  electors_kept : ∀ {term}, before.leader term ≠ none →
    after.electors term = before.electors term
  other_term : ∀ {other}, other ≠ member → after.term other = before.term other
  other_log : ∀ {other}, other ≠ member → after.log other = before.log other
  other_vote : ∀ {other}, other ≠ member → after.vote other = before.vote other
  other_candidateLog : ∀ {other}, other ≠ member →
    after.candidateLog other = before.candidateLog other
  other_leader : ∀ {other term}, other ≠ member →
    after.leader term = some other → before.leader term = some other
  other_leaderLog : ∀ {other term}, other ≠ member →
    before.leader term = some other →
    after.leaderLog term = before.leaderLog term

namespace Advance

theorem refl (member : Member) (ledger : Ledger Member Entry) :
    Advance member ledger ledger where
  term_le := le_rfl
  vote_kept := id
  candidateLog_kept := id
  leader_kept := id
  leaderLog_grows := fun _ => List.prefix_rfl
  electors_kept := fun _ => rfl
  other_term := fun _ => rfl
  other_log := fun _ => rfl
  other_vote := fun _ => rfl
  other_candidateLog := fun _ => rfl
  other_leader := fun _ => id
  other_leaderLog := fun _ _ => rfl

section

variable {member : Member} {before after : Ledger Member Entry}
  (advance : Advance member before after)

include advance

theorem term_mono (other : Member) :
    before.term other ≤ after.term other := by
  by_cases same : other = member
  · rw [same]
    exact advance.term_le
  · exact (advance.other_term same).ge

theorem leader_ne_none {term : Nat} (led : before.leader term ≠ none) :
    after.leader term ≠ none := by
  rcases Option.ne_none_iff_exists'.mp led with ⟨leader, isLeader⟩
  rw [advance.leader_kept isLeader]
  exact Option.some_ne_none leader

end

theorem trans {member : Member} {first second third : Ledger Member Entry}
    (left : Advance member first second) (right : Advance member second third) :
    Advance member first third where
  term_le := left.term_le.trans right.term_le
  vote_kept := fun cast => right.vote_kept (left.vote_kept cast)
  candidateLog_kept := fun ran => right.candidateLog_kept (left.candidateLog_kept ran)
  leader_kept := fun led => right.leader_kept (left.leader_kept led)
  leaderLog_grows := fun led =>
    (left.leaderLog_grows led).trans (right.leaderLog_grows (left.leader_ne_none led))
  electors_kept := fun led =>
    (right.electors_kept (left.leader_ne_none led)).trans (left.electors_kept led)
  other_term := fun different => (right.other_term different).trans (left.other_term different)
  other_log := fun different => (right.other_log different).trans (left.other_log different)
  other_vote := fun different => (right.other_vote different).trans (left.other_vote different)
  other_candidateLog := fun different =>
    (right.other_candidateLog different).trans (left.other_candidateLog different)
  other_leader := fun different led =>
    left.other_leader different (right.other_leader different led)
  other_leaderLog := fun different led =>
    (right.other_leaderLog different (left.leader_kept led)).trans
      (left.other_leaderLog different led)

end Advance

/-! ## Log matching -/

/-- Every entry of `log` was created by the Leader of its Term, and the log up
to that entry is the Leader's. -/
def Matched (termOf : Entry → Nat) (ledger : Ledger Member Entry)
    (log : List Entry) : Prop :=
  ∀ offset entry, log[offset]? = some entry →
    ledger.leader (termOf entry) ≠ none ∧
      AgreeThrough log (ledger.leaderLog (termOf entry)) (offset + 1)

namespace Matched

variable {termOf : Entry → Nat} {ledger : Ledger Member Entry}

theorem mono {member : Member} {before after : Ledger Member Entry}
    (advance : Advance member before after) (matched : Matched termOf before log) :
    Matched termOf after log := by
  intro offset entry found
  rcases matched offset entry found with ⟨led, agree⟩
  exact ⟨advance.leader_ne_none led,
    agree.extend_right (advance.leaderLog_grows led)⟩

theorem of_isPrefix {leading : List Entry} (matched : Matched termOf ledger log)
    (isPrefix : leading <+: log) : Matched termOf ledger leading := by
  intro offset entry found
  have within := (List.getElem?_eq_some_iff.mp found).1
  have agree : AgreeThrough leading log (offset + 1) :=
    AgreeThrough.of_isPrefix isPrefix within
  have foundWhole : log[offset]? = some entry := by
    rw [← agree.getElem?_eq (Nat.lt_succ_self offset)]
    exact found
  rcases matched offset entry foundWhole with ⟨led, agreeLeader⟩
  exact ⟨led, agree.trans agreeLeader⟩

theorem snoc {term : Nat} (matched : Matched termOf ledger log) (entryTerm : termOf entry = term)
    (led : ledger.leader term ≠ none) (isLeaderLog : ledger.leaderLog term = log ++ [entry]) :
    Matched termOf ledger (log ++ [entry]) := by
  intro offset item found
  by_cases early : offset < log.length
  · rw [List.getElem?_append_left early] at found
    have old := matched offset item found
    exact ⟨old.1, old.2.extend_left (List.prefix_append _ _)⟩
  · have within := (List.getElem?_eq_some_iff.mp found).1
    rw [List.getElem?_append_right (by omega)] at found
    have itemEntry : item = entry := by
      simpa using List.mem_of_getElem? found
    rw [itemEntry, entryTerm, isLeaderLog]
    exact ⟨led, AgreeThrough.refl _ within⟩

/-- Two matched logs that hold entries of one Term at one position are equal
up to that position. -/
theorem agree {left right : List Entry} (leftMatched : Matched termOf ledger left)
    (rightMatched : Matched termOf ledger right) {offset : Nat}
    {leftEntry rightEntry : Entry} (leftFound : left[offset]? = some leftEntry)
    (rightFound : right[offset]? = some rightEntry)
    (sameTerm : termOf leftEntry = termOf rightEntry) :
    AgreeThrough left right (offset + 1) := by
  have leftAgree := (leftMatched offset leftEntry leftFound).2
  have rightAgree := (rightMatched offset rightEntry rightFound).2
  rw [sameTerm] at leftAgree
  exact leftAgree.trans rightAgree.symm

end Matched

/-! ## The invariant -/

structure Coherent (protocol : Protocol Member Entry)
    (ledger : Ledger Member Entry) : Prop where
  voteTerm : ∀ {voter term candidate},
    ledger.vote voter term = some candidate → term ≤ ledger.term voter
  voteCandidate : ∀ {voter term candidate},
    ledger.vote voter term = some candidate →
    ledger.candidateLog candidate term ≠ none
  candidateTerm : ∀ {candidate term log},
    ledger.candidateLog candidate term = some log →
    0 < term ∧ term ≤ ledger.term candidate
  candidateOlder : ∀ {candidate term log},
    ledger.candidateLog candidate term = some log →
    ∀ entry ∈ log, protocol.termOf entry < term
  candidateMatched : ∀ {candidate term log},
    ledger.candidateLog candidate term = some log →
    Matched protocol.termOf ledger log
  leaderElected : ∀ {term leader}, ledger.leader term = some leader →
    protocol.Quorum (ledger.electors term) ∧
      ∀ voter ∈ ledger.electors term, ledger.vote voter term = some leader
  leaderShape : ∀ {term leader}, ledger.leader term = some leader →
    ∃ requested own, ledger.candidateLog leader term = some requested ∧
      ledger.leaderLog term = requested ++ own ∧ own ≠ [] ∧
      ∀ entry ∈ own, protocol.termOf entry = term
  logTerm : ∀ {member entry}, entry ∈ ledger.log member →
    protocol.termOf entry ≤ ledger.term member
  logMatched : ∀ member, Matched protocol.termOf ledger (ledger.log member)

def Ledger.initial : Ledger Member Entry where
  term := fun _ => 0
  log := fun _ => []
  vote := fun _ _ => none
  candidateLog := fun _ _ => none
  leader := fun _ => none
  leaderLog := fun _ => []
  electors := fun _ => ∅

theorem Coherent.initial (protocol : Protocol Member Entry) :
    Coherent protocol (Ledger.initial : Ledger Member Entry) := by
  constructor <;> simp [Ledger.initial, Matched]

namespace Coherent

variable {protocol : Protocol Member Entry} {ledger : Ledger Member Entry}

section

variable (coherent : Coherent protocol ledger)

include coherent

/-- At most one member is ever the Leader of a Term: two Leaders would share
an elector, who voted only once. -/
theorem leader_unique {term : Nat}
    {member : Member} {voters : Finset Member} (quorum : protocol.Quorum voters)
    (votes : ∀ voter ∈ voters, ledger.vote voter term = some member)
    {leader : Member} (led : ledger.leader term = some leader) :
    leader = member := by
  rcases coherent.leaderElected led with ⟨electorsQuorum, electorsVotes⟩
  rcases protocol.quorums_meet electorsQuorum quorum with ⟨voter, elector, also⟩
  have same := (electorsVotes voter elector).symm.trans (votes voter also)
  exact Option.some.inj same

theorem leaderLog_matched {term : Nat} (led : ledger.leader term ≠ none) :
    Matched protocol.termOf ledger (ledger.leaderLog term) := by
  rcases Option.ne_none_iff_exists'.mp led with ⟨leader, isLeader⟩
  rcases coherent.leaderShape isLeader with
    ⟨requested, own, ran, shape, _, ownTerm⟩
  intro offset entry found
  rw [shape] at found
  by_cases early : offset < requested.length
  · rw [List.getElem?_append_left early] at found
    rcases coherent.candidateMatched ran offset entry found with ⟨entryLed, agree⟩
    refine ⟨entryLed, ?_⟩
    rw [shape]
    exact agree.extend_left (List.prefix_append requested own)
  · have within := (List.getElem?_eq_some_iff.mp found).1
    rw [List.getElem?_append_right (by omega)] at found
    have entryTerm := ownTerm entry (List.mem_of_getElem? found)
    rw [entryTerm]
    refine ⟨led, AgreeThrough.refl _ ?_⟩
    rw [shape]
    exact within

theorem leaderLog_term {term : Nat} (led : ledger.leader term ≠ none)
    (member : entry ∈ ledger.leaderLog term) : protocol.termOf entry ≤ term := by
  rcases Option.ne_none_iff_exists'.mp led with ⟨leader, isLeader⟩
  rcases coherent.leaderShape isLeader with
    ⟨requested, own, ran, shape, _, ownTerm⟩
  rw [shape] at member
  rcases List.mem_append.mp member with early | late
  · exact (coherent.candidateOlder ran entry early).le
  · exact (ownTerm entry late).le

theorem terms_sorted (matched : Matched protocol.termOf ledger log) {lower upper : Nat}
    (ordered : lower ≤ upper) {early late : Entry} (earlyFound : log[lower]? = some early)
    (lateFound : log[upper]? = some late) : protocol.termOf early ≤ protocol.termOf late := by
  rcases matched upper late lateFound with ⟨led, agree⟩
  have inLeader :
      (ledger.leaderLog (protocol.termOf late))[lower]? = some early := by
    rw [← agree.getElem?_eq (by omega)]
    exact earlyFound
  exact coherent.leaderLog_term led (List.mem_of_getElem? inLeader)

theorem leader_positive {term : Nat} (led : ledger.leader term ≠ none) : 0 < term := by
  rcases Option.ne_none_iff_exists'.mp led with ⟨leader, isLeader⟩
  rcases coherent.leaderShape isLeader with ⟨_, _, ran, _⟩
  exact (coherent.candidateTerm ran).1

theorem term_le_lastTerm (matched : Matched protocol.termOf ledger log) (member : entry ∈ log) :
    protocol.termOf entry ≤ lastTerm protocol.termOf log := by
  rcases List.mem_iff_getElem?.mp member with ⟨offset, found⟩
  have within := (List.getElem?_eq_some_iff.mp found).1
  have lastFound : log[log.length - 1]? =
      some (log.getLast (List.ne_nil_of_mem member)) := by
    rw [List.getLast_eq_getElem, List.getElem?_eq_getElem]
  have bound := coherent.terms_sorted matched (by omega) found lastFound
  simpa [lastTerm, List.getLast?_eq_some_getLast (List.ne_nil_of_mem member)]
    using bound

end

/-- A matched log whose last entry is of a Term is a prefix of that Term's
Leader log. -/
theorem isPrefix_leaderLog (matched : Matched protocol.termOf ledger log) (nonempty : log ≠ []) :
    ledger.leader (lastTerm protocol.termOf log) ≠ none ∧
      log <+: ledger.leaderLog (lastTerm protocol.termOf log) := by
  have lastFound : log[log.length - 1]? = some (log.getLast nonempty) := by
    rw [List.getLast_eq_getElem, List.getElem?_eq_getElem]
  have termEqual : lastTerm protocol.termOf log =
      protocol.termOf (log.getLast nonempty) := by
    simp [lastTerm, List.getLast?_eq_some_getLast nonempty]
  rcases matched _ _ lastFound with ⟨led, agree⟩
  have positive := List.length_pos_iff.mpr nonempty
  rw [Nat.sub_add_cancel positive] at agree
  rw [termEqual]
  exact ⟨led, agree.isPrefix⟩

section

variable {member : Member} {before after : Ledger Member Entry}
  (coherent : Coherent protocol before) (advance : Advance member before after)

include coherent advance

/-- What is to be shown about all logs when the log of one member changes. -/
theorem logs (ownTerm : ∀ entry ∈ after.log member, protocol.termOf entry ≤ after.term member)
    (ownMatched : Matched protocol.termOf after (after.log member)) :
    (∀ {other entry}, entry ∈ after.log other → protocol.termOf entry ≤ after.term other) ∧
      ∀ other, Matched protocol.termOf after (after.log other) := by
  constructor
  · intro other entry inLog
    by_cases same : other = member
    · rw [same] at inLog ⊢
      exact ownTerm entry inLog
    · rw [advance.other_log same] at inLog
      exact (coherent.logTerm inLog).trans (advance.term_mono other)
  · intro other
    by_cases same : other = member
    · rw [same]
      exact ownMatched
    · rw [advance.other_log same]
      exact (coherent.logMatched other).mono advance

/-- A Leader's log grows by an entry of its Term. -/
theorem logs_snoc (entryTerm : protocol.termOf entry = before.term member)
    (led : after.leader (before.term member) ≠ none)
    (newLeaderLog : after.leaderLog (before.term member) = before.log member ++ [entry])
    (newLog : after.log member = before.log member ++ [entry]) :
    (∀ {other entry}, entry ∈ after.log other → protocol.termOf entry ≤ after.term other) ∧
      ∀ other, Matched protocol.termOf after (after.log other) := by
  apply coherent.logs advance
  · intro item inLog
    rw [newLog] at inLog
    apply le_trans _ advance.term_le
    rcases List.mem_append.mp inLog with old | new
    · exact coherent.logTerm old
    · rw [List.mem_singleton.mp new, entryTerm]
  · rw [newLog]
    exact ((coherent.logMatched member).mono advance).snoc entryTerm led newLeaderLog

end

end Coherent

/-! ## Moves keep the past -/

variable [DecidableEq Member]

namespace Ledger

variable {ledger : Ledger Member Entry} {member candidate voter chosen : Member}
  {term : Nat}

theorem castVote_cases
    (cast : (ledger.castVote member candidate).vote voter term = some chosen) :
    ledger.vote voter term = some chosen ∨
      voter = member ∧ term = ledger.term member ∧ candidate = chosen := by
  by_cases sameVoter : voter = member
  · subst voter
    by_cases sameTerm : term = ledger.term member
    · simp only [castVote, sameTerm, Function.update_self, Option.some.injEq] at cast
      exact .inr ⟨rfl, sameTerm, cast⟩
    · simp only [castVote, Function.update_self, Function.update_of_ne sameTerm] at cast
      exact .inl cast
  · simp only [castVote, Function.update_of_ne sameVoter] at cast
    exact .inl cast

theorem campaign_vote_cases
    (cast : (ledger.campaign member).vote voter term = some chosen) :
    ledger.vote voter term = some chosen ∨
      voter = member ∧ term = ledger.term member + 1 ∧ member = chosen := by
  by_cases sameVoter : voter = member
  · subst voter
    by_cases sameTerm : term = ledger.term member + 1
    · simp only [campaign, sameTerm, Function.update_self, Option.some.injEq] at cast
      exact .inr ⟨rfl, sameTerm, cast⟩
    · simp only [campaign, Function.update_self, Function.update_of_ne sameTerm] at cast
      exact .inl cast
  · simp only [campaign, Function.update_of_ne sameVoter] at cast
    exact .inl cast

theorem campaign_log_cases (ran : (ledger.campaign member).candidateLog candidate term = some log) :
    ledger.candidateLog candidate term = some log ∨
      candidate = member ∧ term = ledger.term member + 1 ∧ log = ledger.log member := by
  by_cases sameCandidate : candidate = member
  · subst candidate
    by_cases sameTerm : term = ledger.term member + 1
    · simp only [campaign, sameTerm, Function.update_self, Option.some.injEq] at ran
      exact .inr ⟨rfl, sameTerm, ran.symm⟩
    · simp only [campaign, Function.update_self, Function.update_of_ne sameTerm] at ran
      exact .inl ran
  · simp only [campaign, Function.update_of_ne sameCandidate] at ran
    exact .inl ran

end Ledger

section

variable {protocol : Protocol Member Entry} {member : Member} {before after : Ledger Member Entry}

theorem Protocol.Move.advance (move : protocol.Move member before after)
    (coherent : Coherent protocol before) : Advance member before after := by
  cases move with
  | raiseTerm ordered =>
      constructor <;> simp +contextual [Ledger.raiseTerm, ordered]
  | castVote fresh requested upToDate =>
      constructor <;> simp +contextual [Ledger.castVote]
      intro voter term cast given
      by_cases sameVoter : voter = member
      · subst voter
        by_cases sameTerm : term = before.term member
        · rw [sameTerm, fresh] at given
          cases given
        · simpa [sameTerm] using given
      · simpa [sameVoter] using given
  | campaign =>
      constructor <;> simp +contextual [Ledger.campaign]
      · intro voter term cast given
        by_cases sameVoter : voter = member
        · subst voter
          have bounded := coherent.voteTerm given
          simpa [show term ≠ before.term member + 1 by omega] using given
        · simpa [sameVoter] using given
      · intro candidate term log ran
        by_cases sameCandidate : candidate = member
        · subst candidate
          have bounded := (coherent.candidateTerm ran).2
          simpa [show term ≠ before.term member + 1 by omega] using ran
        · simpa [sameCandidate] using ran
  | elect vacant ran quorum votes entryTerm =>
      have elsewhere : ∀ {term}, before.leader term ≠ none →
          term ≠ before.term member := by
        intro term led same
        exact led (same ▸ vacant)
      constructor <;> simp +contextual [Ledger.elect]
      · intro term leader led
        have apart := elsewhere (Option.ne_none_iff_exists'.mpr ⟨leader, led⟩)
        simpa [apart] using led
      · intro term led
        simp [elsewhere led]
      · intro term led
        simp [elsewhere led]
      · intro other term different led
        by_cases same : term = before.term member
        · simp only [same, Function.update_self, Option.some.injEq] at led
          exact absurd led.symm different
        · simpa [same] using led
      · intro other term different led
        have apart := elsewhere (Option.ne_none_iff_exists'.mpr ⟨other, led⟩)
        simp [apart]
  | append led sameLog entryTerm =>
      constructor <;> simp +contextual [Ledger.append]
      · intro term _
        by_cases same : term = before.term member
        · subst term
          simp [sameLog]
        · simp [same]
      · intro other term different otherLed
        have apart : term ≠ before.term member := by
          intro same
          rw [same, led] at otherLed
          exact different (Option.some.inj otherLed).symm
        simp [apart]
  | follow led keeps =>
      constructor <;> simp +contextual [Ledger.follow]

theorem Protocol.Move.coherent (move : protocol.Move member before after)
    (coherent : Coherent protocol before) : Coherent protocol after := by
  have advance := move.advance coherent
  cases move with
  | @raiseTerm term ordered =>
      exact { coherent with
        voteTerm := fun cast => (coherent.voteTerm cast).trans (advance.term_mono _)
        candidateTerm := fun ran =>
          ⟨(coherent.candidateTerm ran).1,
            (coherent.candidateTerm ran).2.trans (advance.term_mono _)⟩
        candidateMatched := fun ran => (coherent.candidateMatched ran).mono advance
        logTerm := fun inLog => (coherent.logTerm inLog).trans (advance.term_mono _)
        logMatched := fun other => (coherent.logMatched other).mono advance }
  | @castVote candidate requested fresh ran upToDate =>
      exact { coherent with
        voteTerm := by
          intro voter term chosen cast
          rcases Ledger.castVote_cases cast with earlier | ⟨rfl, rfl, _⟩
          · exact coherent.voteTerm earlier
          · exact le_rfl
        voteCandidate := by
          intro voter term chosen cast
          rcases Ledger.castVote_cases cast with earlier | ⟨rfl, rfl, rfl⟩
          · exact coherent.voteCandidate earlier
          · simp [Ledger.castVote, ran]
        candidateMatched := fun ran => (coherent.candidateMatched ran).mono advance
        leaderElected := fun led =>
          ⟨(coherent.leaderElected led).1, fun voter elector =>
            advance.vote_kept ((coherent.leaderElected led).2 voter elector)⟩
        logMatched := fun other => (coherent.logMatched other).mono advance }
  | campaign =>
      have termMember : (before.campaign member).term member = before.term member + 1 := by
        simp [Ledger.campaign]
      exact {
        voteTerm := by
          intro voter term chosen cast
          rcases Ledger.campaign_vote_cases cast with earlier | ⟨rfl, rfl, _⟩
          · exact (coherent.voteTerm earlier).trans (advance.term_mono _)
          · exact termMember.ge
        voteCandidate := by
          intro voter term chosen cast
          rcases Ledger.campaign_vote_cases cast with earlier | ⟨rfl, rfl, rfl⟩
          · rcases Option.ne_none_iff_exists'.mp (coherent.voteCandidate earlier) with
              ⟨log, ran⟩
            simp [advance.candidateLog_kept ran]
          · simp [Ledger.campaign]
        candidateTerm := by
          intro candidate term log ran
          rcases Ledger.campaign_log_cases ran with earlier | ⟨rfl, rfl, _⟩
          · exact ⟨(coherent.candidateTerm earlier).1,
              (coherent.candidateTerm earlier).2.trans (advance.term_mono _)⟩
          · exact ⟨Nat.succ_pos _, termMember.ge⟩
        candidateOlder := by
          intro candidate term log ran entry inLog
          rcases Ledger.campaign_log_cases ran with earlier | ⟨rfl, rfl, rfl⟩
          · exact coherent.candidateOlder earlier entry inLog
          · exact Nat.lt_succ_of_le (coherent.logTerm inLog)
        candidateMatched := by
          intro candidate term log ran
          rcases Ledger.campaign_log_cases ran with earlier | ⟨rfl, rfl, rfl⟩
          · exact (coherent.candidateMatched earlier).mono advance
          · exact (coherent.logMatched candidate).mono advance
        leaderElected := fun led =>
          ⟨(coherent.leaderElected led).1, fun voter elector =>
            advance.vote_kept ((coherent.leaderElected led).2 voter elector)⟩
        leaderShape := by
          intro term leader led
          rcases coherent.leaderShape led with ⟨requested, own, ran, rest⟩
          exact ⟨requested, own, advance.candidateLog_kept ran, rest⟩
        logTerm := fun inLog => (coherent.logTerm inLog).trans (advance.term_mono _)
        logMatched := fun other => (coherent.logMatched other).mono advance }
  | @elect voters entry vacant ran quorum votes entryTerm =>
      have leaderCases : ∀ {term leader},
          (before.elect member voters entry).leader term = some leader →
          (term = before.term member ∧ leader = member) ∨
            (term ≠ before.term member ∧ before.leader term = some leader) := by
        intro term leader led
        by_cases same : term = before.term member
        · simp only [Ledger.elect, same, Function.update_self, Option.some.injEq] at led
          exact .inl ⟨same, led.symm⟩
        · exact .inr ⟨same, by simpa [Ledger.elect, same] using led⟩
      have newLed : (before.elect member voters entry).leader (before.term member) ≠ none := by
        simp [Ledger.elect]
      have newLeaderLog : (before.elect member voters entry).leaderLog (before.term member) =
          before.log member ++ [entry] := by
        simp [Ledger.elect]
      have newLog : (before.elect member voters entry).log member =
          before.log member ++ [entry] := by
        simp [Ledger.elect]
      have logs := coherent.logs_snoc advance entryTerm newLed newLeaderLog newLog
      exact { coherent with
        candidateMatched := fun ran => (coherent.candidateMatched ran).mono advance
        leaderElected := by
          intro term leader led
          rcases leaderCases led with ⟨rfl, rfl⟩ | ⟨apart, earlier⟩
          · refine ⟨by simpa [Ledger.elect] using quorum, ?_⟩
            intro voter elector
            exact votes voter (by simpa [Ledger.elect] using elector)
          · have led' : before.leader term ≠ none :=
              Option.ne_none_iff_exists'.mpr ⟨leader, earlier⟩
            rw [advance.electors_kept led']
            exact coherent.leaderElected earlier
        leaderShape := by
          intro term leader led
          rcases leaderCases led with ⟨rfl, rfl⟩ | ⟨apart, earlier⟩
          · exact ⟨before.log leader, [entry], ran, newLeaderLog, by simp,
              by simpa using entryTerm⟩
          · rcases coherent.leaderShape earlier with ⟨requested, own, shape⟩
            refine ⟨requested, own, shape.1, ?_, shape.2.2⟩
            simpa [Ledger.elect, apart] using shape.2.1
        logTerm := logs.1
        logMatched := logs.2 }
  | @append entry led sameLog entryTerm =>
      have newLeaderLog : (before.append member entry).leaderLog (before.term member) =
          before.log member ++ [entry] := by
        simp [Ledger.append]
      have newLog : (before.append member entry).log member =
          before.log member ++ [entry] := by
        simp [Ledger.append]
      have newLed := advance.leader_ne_none (Option.ne_none_iff_exists'.mpr ⟨member, led⟩)
      have logs := coherent.logs_snoc advance entryTerm newLed newLeaderLog newLog
      exact { coherent with
        candidateMatched := fun ran => (coherent.candidateMatched ran).mono advance
        leaderShape := by
          intro term leader led'
          rcases coherent.leaderShape led' with ⟨requested, own, ran, shape, _, ownTerm⟩
          by_cases same : term = before.term member
          · subst term
            refine ⟨requested, own ++ [entry], ran, ?_, by simp, ?_⟩
            · rw [newLeaderLog, ← sameLog, shape, List.append_assoc]
            · intro item inOwn
              rcases List.mem_append.mp inOwn with old | new
              · exact ownTerm item old
              · rw [List.mem_singleton.mp new, entryTerm]
          · refine ⟨requested, own, ran, ?_, ‹_›, ownTerm⟩
            simpa [Ledger.append, same] using shape
        logTerm := logs.1
        logMatched := logs.2 }
  | @follow count led keeps =>
      have copied : (before.follow member count).log member <+:
          before.leaderLog (before.term member) := by
        simp only [Ledger.follow, Function.update_self]
        exact List.take_prefix _ _
      have logs := coherent.logs advance
        (fun entry inLog => coherent.leaderLog_term led (copied.subset inLog))
        (((coherent.leaderLog_matched led).of_isPrefix copied).mono advance)
      exact { coherent with
        logTerm := logs.1
        logMatched := logs.2 }

theorem Protocol.Moves.coherent (moves : protocol.Moves member before after)
    (coherent : Coherent protocol before) :
    Coherent protocol after ∧ Advance member before after := by
  induction moves with
  | refl => exact ⟨coherent, Advance.refl member before⟩
  | tail _ move induction =>
      rcases induction with ⟨middleCoherent, advance⟩
      exact ⟨move.coherent middleCoherent, advance.trans (move.advance middleCoherent)⟩

/-! ## Agreement with the current Leader -/

/-- While a member stays in a Term it never gives up agreement with the Leader
of that Term. -/
theorem Protocol.Move.keeps_agreement {index : Nat} (move : protocol.Move member before after)
    (sameTerm : after.term member = before.term member)
    (led : before.leader (before.term member) ≠ none)
    (agree : AgreeThrough (before.log member) (before.leaderLog (before.term member)) index) :
    AgreeThrough (after.log member) (after.leaderLog (before.term member)) index := by
  cases move with
  | raiseTerm => exact agree
  | castVote => exact agree
  | campaign => simp [Ledger.campaign] at sameTerm
  | elect vacant => exact absurd vacant led
  | append _ sameLog =>
      simp only [Ledger.append, Function.update_self]
      exact .refl _ (by simpa using agree.1.trans (Nat.le_succ _))
  | follow _ keeps =>
      simp only [Ledger.follow, Function.update_self]
      exact agreeThrough_take _ (keeps index agree) agree.2.1

theorem Protocol.Moves.keeps_agreement {index : Nat}
    (moves : protocol.Moves member before after) (coherent : Coherent protocol before)
    (sameTerm : after.term member = before.term member)
    (led : before.leader (before.term member) ≠ none)
    (agree : AgreeThrough (before.log member) (before.leaderLog (before.term member)) index) :
    AgreeThrough (after.log member) (after.leaderLog (before.term member)) index := by
  induction moves with
  | refl => exact agree
  | @tail middle last earlier move induction =>
      rcases Protocol.Moves.coherent earlier coherent with ⟨middleCoherent, advance⟩
      have rises := (move.advance middleCoherent).term_le
      have reached : middle.term member = before.term member :=
        le_antisymm (rises.trans sameTerm.le) advance.term_le
      have middleLed : middle.leader (middle.term member) ≠ none := by
        rw [reached]
        exact advance.leader_ne_none led
      have kept := induction reached
      rw [← reached] at kept ⊢
      exact move.keeps_agreement (sameTerm.trans reached.symm) middleLed kept

end

end Ternion.Consensus
