import Ternion.Raft.Frame

/-! # Applying entries, as a whole

The loop that applies entries one by one takes the next segment of the log,
reports it in order, and makes a Leader ready for reads when the segment holds
a no-op of its Term.
-/

namespace Ternion.Raft.Node

def upcoming (node : Node) (count : Nat) : List LogEntry :=
  (node.log.drop (node.lastApplied - node.logBaseIndex)).take count

def isOwnNoOp (term : Nat) (entry : LogEntry) : Bool :=
  decide (entry.type = .noOp ∧ entry.term = term)

/-- What applying entries reports, while a Leader may still wait to be ready. -/
def reportsOf (term : Nat) (waiting : Bool) : List LogEntry → List Action
  | [] => []
  | entry :: rest =>
      if waiting && isOwnNoOp term entry then
        .applyEntry entry :: .becameReadReady term :: reportsOf term false rest
      else .applyEntry entry :: reportsOf term waiting rest

/-- The Node after a segment was applied. -/
def applied (node : Node) (entries : List LogEntry) : Node :=
  { node with
    lastApplied := node.lastApplied + entries.length
    readReady := node.readReady ||
      (decide (node.role = .leader) && entries.any (isOwnNoOp node.term)) }

def awaitsReadiness (node : Node) : Bool :=
  decide (node.role = .leader) && !node.readReady

theorem mem_reportsOf {term : Nat} {waiting : Bool} {entries : List LogEntry} {action : Action}
    (reported : action ∈ reportsOf term waiting entries) :
    (∃ entry ∈ entries, action = .applyEntry entry) ∨ action = .becameReadReady term := by
  induction entries generalizing waiting with
  | nil => cases reported
  | cons entry rest induction =>
      rw [reportsOf] at reported
      split_ifs at reported
      all_goals
        simp only [List.mem_cons] at reported
        grind

theorem mem_upcoming {node : Node} {count : Nat} {entry : LogEntry}
    (upcoming_ : entry ∈ node.upcoming count) :
    ∃ offset, node.log[offset]? = some entry ∧ node.lastApplied - node.logBaseIndex ≤ offset ∧
      offset < node.lastApplied - node.logBaseIndex + count := by
  rcases List.mem_iff_getElem?.mp upcoming_ with ⟨position, found⟩
  rw [upcoming, List.getElem?_take] at found
  split_ifs at found with within
  rw [List.getElem?_drop] at found
  exact ⟨_, found, by omega, by omega⟩

theorem upcoming_succ {node : Node} {entry : LogEntry} (count : Nat)
    (above : node.logBaseIndex ≤ node.lastApplied)
    (found : node.log[node.lastApplied - node.logBaseIndex]? = some entry) :
    node.upcoming (count + 1) =
      entry :: { node with lastApplied := node.lastApplied + 1 }.upcoming count := by
  have inside := (List.getElem?_eq_some_iff.mp found).1
  have value := (List.getElem?_eq_some_iff.mp found).2
  simp only [upcoming, List.drop_eq_getElem_cons inside, value, List.take_succ_cons,
    Nat.succ_sub above]

theorem applyEntries_eq (count : Nat) (node : Node)
    (above : node.logBaseIndex ≤ node.lastApplied) :
    node.applyEntries count = (node.applied (node.upcoming count),
      reportsOf node.term node.awaitsReadiness (node.upcoming count)) := by
  induction count generalizing node with
  | zero => simp [applyEntries, upcoming, applied, reportsOf]
  | succ count induction =>
      cases found : node.log[node.lastApplied - node.logBaseIndex]? with
      | none =>
          have nothing : node.upcoming (count + 1) = [] := by
            simp [upcoming, List.drop_eq_nil_of_le (List.getElem?_eq_none_iff.mp found)]
          simp [applyEntries, found, nothing, applied, reportsOf]
      | some entry =>
          have later : node.logBaseIndex ≤ node.lastApplied + 1 := by omega
          rw [upcoming_succ count above found]
          simp only [applyEntries, found]
          split_ifs with becomes
          · rcases becomes with ⟨leading, notReady, isNoOp, ownTerm⟩
            have rest := induction
              { node with lastApplied := node.lastApplied + 1, readReady := true } later
            simp only [rest]
            simp [applied, reportsOf, awaitsReadiness, isOwnNoOp, leading, notReady, isNoOp,
              ownTerm, upcoming]
            omega
          · have rest := induction { node with lastApplied := node.lastApplied + 1 } later
            have unready : (node.awaitsReadiness && isOwnNoOp node.term entry) = false := by
              simp only [awaitsReadiness, isOwnNoOp, Bool.and_eq_false_imp, Bool.and_eq_true,
                decide_eq_true_eq, Bool.not_eq_true', decide_eq_false_iff_not]
              intro waiting own
              exact becomes ⟨waiting.1, by simp [waiting.2], own⟩
            have sameReady : (node.readReady ||
                (decide (node.role = .leader) && (isOwnNoOp node.term entry ||
                  ({ node with lastApplied := node.lastApplied + 1 }.upcoming count).any
                    (isOwnNoOp node.term)))) = (node.readReady ||
                (decide (node.role = .leader) &&
                  ({ node with lastApplied := node.lastApplied + 1 }.upcoming count).any
                    (isOwnNoOp node.term))) := by
              simp only [awaitsReadiness] at unready
              revert unready
              cases decide (node.role = .leader) <;> cases node.readReady <;>
                cases isOwnNoOp node.term entry <;> simp
            simp only [rest, reportsOf, unready, Bool.false_eq_true, if_false]
            simp only [applied, List.length_cons, List.any_cons, sameReady, Nat.add_assoc,
              Nat.add_comm 1]
            rfl

theorem applyThrough_eq (node : Node) (index : Nat)
    (above : node.logBaseIndex ≤ node.lastApplied) :
    node.applyThrough index =
      ((node.applied (node.upcoming (index - node.lastApplied))).completeReads.1,
        reportsOf node.term node.awaitsReadiness (node.upcoming (index - node.lastApplied)) ++
          (node.applied (node.upcoming (index - node.lastApplied))).completeReads.2) := by
  unfold applyThrough
  split_ifs with reached
  · have nothing : node.upcoming (index - node.lastApplied) = [] := by
      simp [upcoming, Nat.sub_eq_zero_of_le reached]
    simp [nothing, applied, reportsOf]
  · simp only [applyEntries_eq _ node above]

end Ternion.Raft.Node
