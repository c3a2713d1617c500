import Ternion.Consensus.Commitment

/-! # Probing a log

A Leader finds the position where the log of a member parts from its own by
probing: it sends entries after a position that the member may or may not hold.
What it learned about the member is a fact about one Term. It stays true until
the member copied the Leader's log, and from then on its whole log is a part of
the Leader's for as long as the Term lasts.
-/

namespace Ternion.Consensus

variable {Member Entry : Type}

variable {log leaderLog extended : List Entry}

/-- The log of the member is a part of the log of the Leader of `term`, or the
member has left the Term. -/
def Settled (ledger : Ledger Member Entry) (member : Member) (term : Nat) : Prop :=
  term ≤ ledger.term member ∧
    (ledger.term member = term → ledger.log member <+: ledger.leaderLog term)

/-- What the Leader of `term` learned about the log of a member: `fact` relates
it to the log of the Leader until the member is settled. -/
def Learned (fact : List Entry → List Entry → Prop) (ledger : Ledger Member Entry)
    (member : Member) (term : Nat) : Prop :=
  Settled ledger member term ∨
    ledger.term member = term ∧ fact (ledger.log member) (ledger.leaderLog term)

def PartedBy (index : Nat) (log leaderLog : List Entry) : Prop :=
  index ≤ leaderLog.length ∧ ¬AgreeThrough log leaderLog index

/-- The hint of a rejection: a position by which the logs part, or the first
position of a Term whose entries the two logs do not hold alike. -/
def Conflict (termOf : Entry → Nat) (conflictTerm conflictIndex : Nat)
    (log leaderLog : List Entry) : Prop :=
  0 < conflictIndex ∧ conflictIndex ≤ leaderLog.length ∧
    (conflictTerm = 0 → ¬AgreeThrough log leaderLog conflictIndex) ∧
    (conflictTerm ≠ 0 → TermAt termOf log conflictIndex conflictTerm ∧
      ∃ index, index ≤ leaderLog.length ∧ TermAt termOf log index conflictTerm ∧
        ¬TermAt termOf leaderLog index conflictTerm)

/-- A position from which a request is safe: if the member holds the Leader's
entry there, then its log is a part of the Leader's or the next entry differs. -/
def Probe (termOf : Entry → Nat) (ledger : Ledger Member Entry) (member : Member)
    (term index : Nat) : Prop :=
  TermAt termOf (ledger.leaderLog term) index term ∨
    Learned (PartedBy (index + 1)) ledger member term

/-! ## Longer logs of the Leader -/

theorem PartedBy.mono {index : Nat} (parted : PartedBy index log leaderLog)
    (grows : leaderLog <+: extended) : PartedBy index log extended := by
  refine ⟨parted.1.trans grows.length_le, fun agree => parted.2 ?_⟩
  exact agree.trans (AgreeThrough.of_isPrefix grows parted.1).symm

theorem TermAt.mono {termOf : Entry → Nat} {index term : Nat} (here : TermAt termOf log index term)
    (grows : log <+: extended) : TermAt termOf extended index term :=
  here.agree (AgreeThrough.of_isPrefix grows here.le_length)

theorem Conflict.mono {termOf : Entry → Nat} {conflictTerm conflictIndex : Nat}
    (conflict : Conflict termOf conflictTerm conflictIndex log leaderLog)
    (grows : leaderLog <+: extended) : Conflict termOf conflictTerm conflictIndex log extended := by
  rcases conflict with ⟨positive, within, short, runs⟩
  refine ⟨positive, within.trans grows.length_le, fun unknown agree => ?_, fun known => ?_⟩
  · exact short unknown (agree.trans (AgreeThrough.of_isPrefix grows within).symm)
  · rcases runs known with ⟨first, index, reached, here, missing⟩
    refine ⟨first, index, reached.trans grows.length_le, here, fun there => missing ?_⟩
    exact there.agree (AgreeThrough.of_isPrefix grows reached).symm

/-! ## Facts outlive moves -/

section Moves

variable {protocol : Protocol Member Entry} {actor member : Member}
  {before after : Ledger Member Entry} {term : Nat}
  {fact : List Entry → List Entry → Prop}

theorem Learned.other (advance : Advance actor before after) (different : member ≠ actor)
    (led : before.leader term ≠ none)
    (stable : ∀ {log leaderLog extended}, fact log leaderLog → leaderLog <+: extended →
      fact log extended)
    (learned : Learned fact before member term) : Learned fact after member term := by
  have sameTerm := advance.other_term different
  have sameLog := advance.other_log different
  have grows := advance.leaderLog_grows led
  rcases learned with settled | ⟨current, known⟩
  · left
    refine ⟨settled.1.trans sameTerm.ge, fun current => ?_⟩
    rw [sameLog]
    exact (settled.2 (sameTerm.symm.trans current)).trans grows
  · right
    refine ⟨sameTerm.trans current, ?_⟩
    rw [sameLog]
    exact stable known grows

variable [DecidableEq Member]

theorem Protocol.Move.settled (move : protocol.Move member before after)
    (led : before.leader term ≠ none)
    (settled : Settled before member term) : Settled after member term := by
  rcases settled with ⟨reached, leading⟩
  cases move with
  | raiseTerm rises =>
      refine ⟨by simpa [Ledger.raiseTerm] using reached.trans rises, fun current => ?_⟩
      simp only [Ledger.raiseTerm, Function.update_self] at current
      exact leading (le_antisymm (current ▸ rises) reached)
  | castVote => exact ⟨reached, leading⟩
  | campaign =>
      refine ⟨by simp only [Ledger.campaign, Function.update_self]; omega, fun current => ?_⟩
      simp only [Ledger.campaign, Function.update_self] at current
      omega
  | elect vacant =>
      refine ⟨reached, fun current => ?_⟩
      exact absurd (current ▸ vacant) led
  | append =>
      refine ⟨reached, fun current => ?_⟩
      have own : before.term member = term := current
      simp [Ledger.append, own]
  | follow =>
      refine ⟨reached, fun current => ?_⟩
      have own : before.term member = term := current
      simp only [Ledger.follow, Function.update_self, own]
      exact List.take_prefix _ _

theorem Protocol.Move.learned (move : protocol.Move member before after)
    (led : before.leader term ≠ none)
    (learned : Learned fact before member term) : Learned fact after member term := by
  rcases learned with settled | ⟨current, known⟩
  · exact .inl (move.settled led settled)
  · cases move with
    | @raiseTerm raised rises =>
        by_cases same : raised = term
        · right
          exact ⟨by simp [Ledger.raiseTerm, same], known⟩
        · left
          simp only [Settled, Ledger.raiseTerm, Function.update_self]
          exact ⟨by omega, fun isTerm => absurd isTerm same⟩
    | castVote => exact .inr ⟨current, known⟩
    | campaign =>
        left
        simp only [Settled, Ledger.campaign, Function.update_self]
        exact ⟨by omega, fun isTerm => by omega⟩
    | elect vacant => exact absurd (current ▸ vacant) led
    | append =>
        left
        refine ⟨current.ge, fun _ => ?_⟩
        simp [Ledger.append, current]
    | follow =>
        left
        refine ⟨current.ge, fun _ => ?_⟩
        simp only [Ledger.follow, Function.update_self, current]
        exact List.take_prefix _ _

section

variable (moves : protocol.Moves actor before after) (coherent : Coherent protocol before)
  (led : before.leader term ≠ none)

include moves coherent led

theorem Protocol.Moves.learned
    (stable : ∀ {log leaderLog extended}, fact log leaderLog → leaderLog <+: extended →
      fact log extended)
    (learned : Learned fact before member term) : Learned fact after member term := by
  by_cases own : member = actor
  · subst own
    induction moves with
    | refl => exact learned
    | tail earlier move induction =>
        have advance := (Protocol.Moves.coherent earlier coherent).2
        exact move.learned (advance.leader_ne_none led) induction
  · exact learned.other (Protocol.Moves.coherent moves coherent).2 own led stable

theorem Protocol.Moves.settled (settled : Settled before member term) :
    Settled after member term := by
  -- Being settled is learning something that is never true.
  have learned : Learned (fun _ _ => False) before member term := .inl settled
  rcases Protocol.Moves.learned moves coherent led (fun never _ => never) learned with
    kept | ⟨_, never⟩
  · exact kept
  · exact never.elim

theorem Protocol.Moves.probe {index : Nat}
    (probe : Probe protocol.termOf before member term index) :
    Probe protocol.termOf after member term index := by
  have grows := (Protocol.Moves.coherent moves coherent).2.leaderLog_grows led
  rcases probe with here | learned
  · exact .inl (here.mono grows)
  · exact .inr (Protocol.Moves.learned moves coherent led
      (fun known grows => known.mono grows) learned)

end

end Moves

/-! ## What a probe finds -/

section Logs

variable {protocol : Protocol Member Entry} {ledger : Ledger Member Entry} {member : Member}
  {term index : Nat}

section

variable (coherent : Coherent protocol ledger)

include coherent

/-- A log that agrees with the Leader's through an entry of its Term is a part
of it: whatever follows is of the same Term. -/
theorem Coherent.isPrefix_of_termAt (reached : ledger.term member ≤ term)
    (agree : AgreeThrough (ledger.log member) (ledger.leaderLog term) index)
    (here : TermAt protocol.termOf (ledger.leaderLog term) index term) :
    ledger.log member <+: ledger.leaderLog term := by
  have matched := coherent.logMatched member
  rcases here.agree agree.symm with ⟨positive, entry, found, entryTerm⟩
  have present := List.mem_of_getElem? found
  have nonempty : ledger.log member ≠ [] := List.ne_nil_of_mem present
  have atLeast := coherent.term_le_lastTerm matched present
  have atMost : lastTerm protocol.termOf (ledger.log member) ≤ ledger.term member := by
    have bounded := coherent.logTerm (List.getLast_mem nonempty)
    simpa [lastTerm, List.getLast?_eq_some_getLast nonempty] using bounded
  have leading := (Coherent.isPrefix_leaderLog matched nonempty).2
  rwa [show lastTerm protocol.termOf (ledger.log member) = term by omega] at leading

/-- A log that holds all a request carries from a safe position is a part of
the Leader's. -/
theorem Coherent.isPrefix_of_probe {reach : Nat} (current : ledger.term member = term)
    (agree : AgreeThrough (ledger.log member) (ledger.leaderLog term) reach)
    (probe : Probe protocol.termOf ledger member term index) (covers : index ≤ reach)
    (empty : index = reach → TermAt protocol.termOf (ledger.leaderLog term) index term ∨
      Settled ledger member term) :
    ledger.log member <+: ledger.leaderLog term := by
  rcases probe with here | settled | ⟨_, parted⟩
  · exact coherent.isPrefix_of_termAt current.le (agree.mono covers) here
  · exact settled.2 current
  · rcases Nat.eq_or_lt_of_le covers with same | longer
    · rcases empty same with here | settled
      · exact coherent.isPrefix_of_termAt current.le (agree.mono covers) here
      · exact settled.2 current
    · exact absurd (agree.mono longer) parted.2

theorem Coherent.leaderLog_last (led : ledger.leader term ≠ none) :
    TermAt protocol.termOf (ledger.leaderLog term) (ledger.leaderLog term).length term := by
  rcases Option.ne_none_iff_exists'.mp led with ⟨leader, isLeader⟩
  rcases coherent.leaderShape isLeader with ⟨requested, own, _, shape, nonempty, ownTerm⟩
  have found : (ledger.leaderLog term)[(ledger.leaderLog term).length - 1]? =
      some (own.getLast nonempty) := by
    rw [← List.getLast?_eq_getElem?, shape, List.getLast?_append_of_ne_nil _ nonempty,
      List.getLast?_eq_some_getLast nonempty]
  refine ⟨?_, _, found, ownTerm _ (List.getLast_mem nonempty)⟩
  rw [shape, List.length_append]
  have := List.length_pos_iff.mpr nonempty
  omega

theorem Conflict.partedBy_succ {conflictTerm conflictIndex last : Nat}
    (matched : Matched protocol.termOf ledger log)
    (conflict : Conflict protocol.termOf conflictTerm conflictIndex log leaderLog)
    (known : conflictTerm ≠ 0) (here : TermAt protocol.termOf leaderLog last conflictTerm)
    (final : ¬TermAt protocol.termOf leaderLog (last + 1) conflictTerm)
    (within : last < leaderLog.length) : PartedBy (last + 1) log leaderLog := by
  refine ⟨within, fun agree => ?_⟩
  rcases conflict.2.2.2 known with ⟨_, index, _, held, missing⟩
  by_cases early : index ≤ last + 1
  · exact missing (held.agree (agree.mono early))
  · -- The entry after `last` lies between two entries of the conflicting Term.
    rcases here.agree (agree.mono (Nat.le_succ last)).symm with
      ⟨positive, first, firstFound, firstTerm⟩
    rcases held with ⟨_, later, laterFound, laterTerm⟩
    have nextFound := List.getElem?_eq_getElem (show last < log.length by have := agree.1; omega)
    have lower := coherent.terms_sorted matched (show last - 1 ≤ last by omega) firstFound nextFound
    have upper := coherent.terms_sorted matched
      (show last ≤ index - 1 by omega) nextFound laterFound
    have between : TermAt protocol.termOf log (last + 1) conflictTerm :=
      ⟨Nat.succ_pos last, _, nextFound, by omega⟩
    exact final (between.agree agree)

end

end Logs

end Ternion.Consensus
