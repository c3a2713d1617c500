import Ternion.Session.History

/-! # The model of the history checker

Clients record histories of operations, which a checker explains by runs of a
sequential model. The model learns of a session by its first mutation and keeps
the outcome of the latest one. The server keeps a record of each session from
its opening on.
-/

namespace Ternion.Linearizability

open Raft Session

inductive Kind where
  | set
  | get
  | delete
  deriving DecidableEq

/-- The observable result of one client command. The error is a category. -/
structure Outcome where
  value : List UInt8 := []
  found : Bool := false
  existed : Bool := false
  error : String := ""
  deriving DecidableEq

/-- One invocation. The time zero is no time, and an operation without a
completion is pending. -/
structure Operation where
  kind : Kind
  session : SessionID := SessionID.zero
  sequence : Nat := 0
  key : String
  value : List UInt8 := []
  invoke : Int
  complete : Int := 0
  outcome : Outcome := {}
  deriving DecidableEq

def Operation.mutates (operation : Operation) : Bool :=
  operation.kind = .set || operation.kind = .delete

structure SessionState where
  last : Nat
  result : Outcome
  deriving DecidableEq

structure Model where
  values : Std.ExtTreeMap String (List UInt8) := ∅
  sessions : Std.ExtTreeMap SessionID SessionState := ∅

namespace Model

/-- The outcome of a mutation that takes effect. -/
def effect (model : Model) (operation : Operation) : Outcome :=
  if operation.kind = .set then {}
  else { existed := (model.values[operation.key]?).isSome }

/-- A mutation that takes effect. -/
def perform (model : Model) (operation : Operation) : Model where
  values :=
    if operation.kind = .set then model.values.insert operation.key operation.value
    else model.values.erase operation.key
  sessions := model.sessions.insert operation.session
    ⟨operation.sequence, model.effect operation⟩

/-- The outcome that a mutation gets without taking effect. -/
def replay (model : Model) (operation : Operation) : Option Outcome :=
  match model.sessions[operation.session]? with
  | none => none
  | some state =>
      if operation.sequence = state.last then some state.result
      else if operation.sequence ≤ state.last then some { error := "stale_sequence" }
      else if operation.sequence ≠ state.last + 1 then some { error := "out_of_order" }
      else none

def read (values : Std.ExtTreeMap String (List UInt8)) (key : String) : Outcome :=
  match values[key]? with
  | none => { error := "not_found" }
  | some value => { found := true, value := value }

def apply (model : Model) (operation : Operation) : Model × Outcome :=
  if operation.mutates then
    match model.replay operation with
    | some outcome => (model, outcome)
    | none => (model.perform operation, model.effect operation)
  else (model, read model.values operation.key)

/-- The outcomes of a list of operations. -/
def run (model : Model) : List Operation → Model × List Outcome
  | [] => (model, [])
  | operation :: operations =>
      let (next, outcome) := model.apply operation
      let (final, outcomes) := next.run operations
      (final, outcome :: outcomes)

end Model

/-! ## The server -/

/-- The log entry of a mutation. -/
def Operation.entry (operation : Operation) : LogEntry where
  index := 0
  term := 0
  type := if operation.kind = .set then .set else .delete
  sessionID := operation.session
  sequence := operation.sequence
  key := operation.key
  value := operation.value

/-- The category of a result, if the checker has one for it. -/
def categorize (result : ProposalResult) : Option Outcome :=
  match result.failure with
  | .succeeded => some { existed := result.existed }
  | .staleSequence => some { error := "stale_sequence" }
  | .outOfOrderSequence => some { error := "out_of_order" }
  | _ => none

/-- Mutations are applied, reads look up the value. -/
def serve (machine : Machine) (operation : Operation) : Machine × Option Outcome :=
  if operation.mutates then
    let (after, result) := machine.apply operation.entry
    (after, categorize result)
  else
    (machine, some (match machine.get operation.key with
      | none => { error := "not_found" }
      | some value => { found := true, value := value }))

def serveAll (machine : Machine) : List Operation → Machine × List (Option Outcome)
  | [] => (machine, [])
  | operation :: operations =>
      let (next, outcome) := serve machine operation
      let (final, outcomes) := serveAll next operations
      (final, outcome :: outcomes)

/-! ## Sessions on both sides -/

/-- What the model knows of a session that the server keeps open. -/
def Tracks (record : SessionRecord) : Option SessionState → Prop
  | none => record.state = .active ∧ record.lastSequence = 0
  | some state => record.state = .active ∧ state.last = record.lastSequence ∧ state.last ≠ 0 ∧
      record.lastMutationResult = .succeeded ∧
      state.result = { existed := record.lastDeleteExisted }

/-- The model and the server agree, as far as the model knows the sessions. -/
structure Agrees (model : Model) (machine : Machine) : Prop where
  values : model.values = machine.values
  sessions : ∀ (id : SessionID) record, machine.sessions[id]? = some record →
    Tracks record model.sessions[id]?

variable {model : Model} {machine : Machine} {operation : Operation} {record : SessionRecord}

theorem Tracks.active {known : Option SessionState} (tracks : Tracks record known) :
    record.state = .active := by
  cases known with
  | none => exact tracks.1
  | some state => exact tracks.1

theorem entry_mutates (operation : Operation) :
    operation.entry.type = .set ∨ operation.entry.type = .delete := by
  rw [Operation.entry]
  split_ifs
  · exact .inl rfl
  · exact .inr rfl

theorem apply_refused
    (refused : (machine.evaluateMutation operation.session operation.sequence).2 = false) :
    machine.apply operation.entry =
      (machine, (machine.evaluateMutation operation.session operation.sequence).1) := by
  rcases entry_mutates operation with isSet | isDelete
  · rw [Machine.apply, isSet]
    simp only [Machine.applySet]
    rw [if_pos]
    · rfl
    · exact Bool.eq_false_iff.mp refused
  · rw [Machine.apply, isDelete]
    simp only [Machine.applyDelete]
    rw [if_pos]
    · rfl
    · exact Bool.eq_false_iff.mp refused

theorem serve_refused (mutates : operation.mutates = true) {result : ProposalResult}
    (evaluated : machine.evaluateMutation operation.session operation.sequence = (result, false)) :
    serve machine operation = (machine, categorize result) := by
  rw [serve, if_pos mutates, apply_refused (congrArg Prod.snd evaluated), evaluated]

theorem serve_skipped (mutates : operation.mutates = true)
    (found : machine.sessions[operation.session]? = some record)
    (active : record.state = .active)
    (unrepeated : ¬(operation.sequence = record.lastSequence ∧ operation.sequence ≠ 0))
    (newer : ¬operation.sequence < record.lastSequence)
    (skipped : operation.sequence ≠ record.lastSequence + 1) :
    serve machine operation = (machine, some { error := "out_of_order" }) := by
  have isOpen : record.state ≠ .permanentlyClosed := by simp [active]
  have evaluated : machine.evaluateMutation operation.session operation.sequence =
      ({ sessionID := operation.session
         sequence := operation.sequence
         failure := .outOfOrderSequence
         wantSequence := record.lastSequence + 1 }, false) := by
    simp only [Machine.evaluateMutation, found]
    rw [if_neg isOpen, if_neg unrepeated, if_neg newer, if_pos skipped]
  exact serve_refused mutates evaluated

theorem apply_accepted (found : machine.sessions[operation.session]? = some record)
    (active : record.state = .active) (next : operation.sequence = record.lastSequence + 1) :
    machine.apply operation.entry =
      ({ machine with
          sessions := machine.sessions.insert operation.session
            (machine.mutated operation.entry record)
          values := write machine.values operation.entry },
        { sessionID := operation.session
          sequence := operation.sequence
          existed := (machine.mutated operation.entry record).lastDeleteExisted }) := by
  have accepts : (machine.evaluateMutation operation.session operation.sequence).2 = true :=
    Machine.evaluateMutation_accepts found (by simp [active]) next
  have effective : machine.effective operation.entry = true := by
    rcases entry_mutates operation with isSet | isDelete
    · exact (machine.effective_of_set isSet).trans accepts
    · exact (machine.effective_of_delete isDelete).trans accepts
  have changes := machine.apply_changes operation.entry
  have mutates := entry_mutates operation
  generalize machine.apply operation.entry = applied at changes ⊢
  rcases applied with ⟨after, result⟩
  cases changes with
  | unchanged ineffective _ => exact absurd (ineffective.symm.trans effective) Bool.false_ne_true
  | opened opens _ => simp [opens] at mutates
  | closed closes _ => simp [closes] at mutates
  | mutated _ other _ _ =>
      cases Option.some.inj (found.symm.trans other)
      rfl

namespace Agrees

section

variable (agrees : Agrees model machine) (mutates : operation.mutates = true)
  (found : machine.sessions[operation.session]? = some record)

include agrees mutates found

theorem perform
    (active : record.state = .active) (next : operation.sequence = record.lastSequence + 1) :
    (serve machine operation).2 = some (model.effect operation) ∧
      Agrees (model.perform operation) (serve machine operation).1 := by
  have same : model.effect operation =
      { existed := (machine.mutated operation.entry record).lastDeleteExisted } := by
    rw [Model.effect, Machine.mutated, Operation.entry, agrees.values]
    split_ifs
    · rfl
    · rfl
  have positive : operation.sequence ≠ 0 := by omega
  rw [serve, if_pos mutates, apply_accepted found active next]
  constructor
  · rw [same]
    rfl
  · constructor
    · rw [Model.perform, agrees.values]
      simp only [write, Operation.entry]
      split_ifs
      · rfl
      · rfl
    · intro id other present
      rw [Model.perform, Std.ExtTreeMap.getElem?_insert]
      rw [Std.ExtTreeMap.getElem?_insert] at present
      split_ifs at present ⊢ with isSession
      · cases present
        exact ⟨active, rfl, positive, rfl, same⟩
      · exact agrees.sessions id other present

theorem replay {outcome : Outcome} (replayed : model.replay operation = some outcome) :
    serve machine operation = (machine, some outcome) := by
  have tracks := agrees.sessions operation.session record found
  rw [Model.replay] at replayed
  cases known : model.sessions[operation.session]? with
  | none =>
      rw [known] at replayed
      cases replayed
  | some state =>
      rw [known] at replayed tracks
      rcases tracks with ⟨active, last, positive, succeeded, result⟩
      have isOpen : record.state ≠ .permanentlyClosed := by simp [active]
      dsimp only at replayed
      rw [last] at replayed positive
      by_cases repeated : operation.sequence = record.lastSequence
      · have evaluated : machine.evaluateMutation operation.session operation.sequence =
            ({ sessionID := operation.session
               sequence := operation.sequence
               failure := record.lastMutationResult
               existed := record.lastDeleteExisted }, false) := by
          simp only [Machine.evaluateMutation, found, if_neg isOpen, repeated, positive, ne_eq,
            not_false_eq_true, and_self, if_true]
        rw [if_pos repeated] at replayed
        cases replayed
        rw [serve_refused mutates evaluated, categorize, succeeded, result]
      rw [if_neg repeated] at replayed
      by_cases stale : operation.sequence ≤ record.lastSequence
      · have evaluated : machine.evaluateMutation operation.session operation.sequence =
            ({ sessionID := operation.session
               sequence := operation.sequence
               failure := .staleSequence
               wantSequence := record.lastSequence }, false) := by
          simp only [Machine.evaluateMutation, found, if_neg isOpen, repeated, false_and, if_false]
          rw [if_pos (by omega)]
        rw [if_pos stale] at replayed
        cases replayed
        exact serve_refused mutates evaluated
      rw [if_neg stale] at replayed
      by_cases skipped : operation.sequence ≠ record.lastSequence + 1
      · rw [if_pos skipped] at replayed
        cases replayed
        exact serve_skipped mutates found active (fun same => repeated same.1) (by omega) skipped
      · rw [if_neg skipped] at replayed
        cases replayed

/-- The server takes the first mutation of a session only with the sequence one. -/
theorem first (unknown : model.sessions[operation.session]? = none)
    (same : (serve machine operation).2 = some (model.apply operation).2) :
    operation.sequence = 1 := by
  have tracks := agrees.sessions operation.session record found
  rw [unknown] at tracks
  rcases tracks with ⟨active, unused⟩
  by_contra skipped
  rw [serve_skipped mutates found active (by omega) (by omega) (by omega), Model.apply,
    if_pos mutates, Model.replay, unknown] at same
  simp only [Model.effect, Option.some.injEq] at same
  split_ifs at same <;> simp at same

end

theorem read (agrees : Agrees model machine) (reads : operation.mutates = false) :
    serve machine operation = (machine, some (model.apply operation).2) := by
  rw [serve, Model.apply, if_neg (by simp [reads]), if_neg (by simp [reads]), Model.read,
    agrees.values]
  rfl

end Agrees

/-! ## Lists of operations -/

/-- The first mutation of a session, if there is one, has the first sequence. -/
def StartsAtOne (operations : List Operation) (id : SessionID) : Prop :=
  ∀ operation, operations.find? (fun operation => operation.mutates && operation.session = id) =
    some operation → operation.sequence = 1

theorem StartsAtOne.tail {operations : List Operation} {id : SessionID}
    (starts : StartsAtOne (operation :: operations) id)
    (other : (operation.mutates && operation.session = id) = false) :
    StartsAtOne operations id := by
  intro first found
  apply starts first
  rw [List.find?_cons, other]
  exact found

theorem StartsAtOne.head {operations : List Operation} (mutates : operation.mutates = true)
    (starts : StartsAtOne (operation :: operations) operation.session) :
    operation.sequence = 1 := by
  apply starts operation
  simp [mutates]

theorem Agrees.apply (agrees : Agrees model machine)
    (known : operation.mutates = true → (machine.sessions[operation.session]?).isSome)
    (first : operation.mutates = true → model.sessions[operation.session]? = none →
      operation.sequence = 1) :
    (serve machine operation).2 = some (model.apply operation).2 ∧
      Agrees (model.apply operation).1 (serve machine operation).1 := by
  cases mutates : operation.mutates with
  | false =>
      rw [agrees.read mutates]
      rw [Model.apply, if_neg (by simp [mutates])]
      exact ⟨rfl, agrees⟩
  | true =>
      rcases Option.isSome_iff_exists.mp (known mutates) with ⟨record, found⟩
      rw [Model.apply, if_pos mutates]
      cases replayed : model.replay operation with
      | some outcome =>
          rw [agrees.replay mutates found replayed]
          exact ⟨rfl, agrees⟩
      | none =>
          have tracks := agrees.sessions operation.session record found
          have next : operation.sequence = record.lastSequence + 1 := by
            rw [Model.replay] at replayed
            cases isKnown : model.sessions[operation.session]? with
            | none =>
                rw [isKnown] at tracks
                rw [first mutates isKnown, tracks.2]
            | some state =>
                rw [isKnown] at tracks replayed
                rcases tracks with ⟨_, last, _⟩
                dsimp only at replayed
                split_ifs at replayed with repeated stale skipped
                omega
          exact agrees.perform mutates found tracks.active next

theorem serve_isSome {id : SessionID} (known : (machine.sessions[id]?).isSome) :
    ((serve machine operation).1.sessions[id]?).isSome := by
  rw [serve]
  split_ifs with mutates
  · have changes := machine.apply_changes operation.entry
    generalize machine.apply operation.entry = applied at changes ⊢
    rcases applied with ⟨after, result⟩
    cases changes with
    | unchanged _ _ => exact known
    | opened _ _ | closed _ _ | mutated _ _ _ _ =>
        rw [Std.ExtTreeMap.getElem?_insert]
        split_ifs
        · rfl
        · exact known
  · exact known

theorem Model.apply_sessions {id : SessionID} :
    (model.apply operation).1.sessions[id]? = none ↔
      model.sessions[id]? = none ∧ (operation.mutates && operation.session = id) = false := by
  rw [apply]
  split_ifs with mutates
  · cases replayed : model.replay operation with
    | some outcome =>
        rw [mutates, Bool.true_and, decide_eq_false_iff_not]
        constructor
        · intro unknown
          refine ⟨unknown, ?_⟩
          rintro rfl
          rw [replay, unknown] at replayed
          cases replayed
        · exact fun unknown => unknown.1
    | none =>
        rw [mutates, Bool.true_and, decide_eq_false_iff_not, perform,
          Std.ExtTreeMap.getElem?_insert]
        by_cases same : operation.session = id
        · simp [same]
        · simp [same]
  · simp [mutates]

section

variable (agrees : Agrees model machine) {operations : List Operation}
  (known : ∀ operation ∈ operations, operation.mutates = true →
    (machine.sessions[operation.session]?).isSome)

include agrees known

theorem Agrees.run
    (first : ∀ id : SessionID, model.sessions[id]? = none → StartsAtOne operations id) :
    (serveAll machine operations).2 = (model.run operations).2.map some ∧
      Agrees (model.run operations).1 (serveAll machine operations).1 := by
  induction operations generalizing model machine with
  | nil => exact ⟨rfl, agrees⟩
  | cons operation operations induction =>
      rcases agrees.apply (known operation List.mem_cons_self)
        (fun mutates unknown => (first _ unknown).head mutates) with ⟨same, after⟩
      have later : ∀ id : SessionID, (model.apply operation).1.sessions[id]? = none →
          StartsAtOne operations id := by
        intro id unknown
        rcases Model.apply_sessions.mp unknown with ⟨before, other⟩
        exact (first id before).tail other
      rcases induction after (fun other present mutates =>
        serve_isSome (known other (List.mem_cons_of_mem _ present) mutates)) later with
        ⟨rest, final⟩
      refine ⟨?_, final⟩
      rw [serveAll, Model.run, List.map_cons, ← rest, ← same]

/-- Answers that are alike tell that the first mutations have the sequence one. -/
theorem Agrees.starts
    (same : (serveAll machine operations).2 = (model.run operations).2.map some) (id : SessionID)
    (unknown : model.sessions[id]? = none) : StartsAtOne operations id := by
  induction operations generalizing model machine with
  | nil => exact nofun
  | cons operation operations induction =>
      rw [serveAll, Model.run, List.map_cons, List.cons.injEq] at same
      rcases same with ⟨now, rest⟩
      have first : operation.mutates = true → model.sessions[operation.session]? = none →
          operation.sequence = 1 := by
        intro mutates fresh
        rcases Option.isSome_iff_exists.mp (known operation List.mem_cons_self mutates) with
          ⟨record, found⟩
        exact agrees.first mutates found fresh now
      have after := (agrees.apply (known operation List.mem_cons_self) first).2
      intro start found
      rw [List.find?_cons] at found
      cases chosen : operation.mutates && decide (operation.session = id) with
      | true =>
          rw [chosen] at found
          cases found
          rw [Bool.and_eq_true, decide_eq_true_eq] at chosen
          exact first chosen.1 (chosen.2 ▸ unknown)
      | false =>
          rw [chosen] at found
          apply induction after _ rest (Model.apply_sessions.mpr ⟨unknown, chosen⟩) start found
          exact fun other present mutates =>
            serve_isSome (known other (List.mem_cons_of_mem _ present) mutates)

end

theorem Agrees.opened (agrees : Agrees {} machine) {opens : List LogEntry}
    (opening : ∀ entry ∈ opens, entry.type = .openSession) :
    Agrees {} (machine.applyAll opens) := by
  induction opens generalizing machine with
  | nil => exact agrees
  | cons entry opens induction =>
      have isOpen := opening entry List.mem_cons_self
      have applied : machine.apply entry = machine.applyOpen entry := by rw [Machine.apply, isOpen]
      have after : Agrees {} (machine.apply entry).1 := by
        rw [applied, Machine.applyOpen]
        split_ifs
        · exact agrees
        · exact agrees
        · refine ⟨agrees.values, fun id record present => ?_⟩
          rw [Std.ExtTreeMap.getElem?_insert] at present
          split_ifs at present
          · cases present
            rw [Std.ExtTreeMap.getElem?_empty]
            exact ⟨rfl, rfl⟩
          · exact agrees.sessions id record present
      exact induction after fun other present => opening other (List.mem_cons_of_mem _ present)

theorem Agrees.initial (limit : Nat) : Agrees {} { limit := limit } := by
  refine ⟨rfl, fun id record present => ?_⟩
  rw [Std.ExtTreeMap.getElem?_empty] at present
  cases present

/-- The model and the server answer a list of operations on open sessions alike
exactly when the first mutation of each session has the sequence one. -/
theorem model_agrees (limit : Nat) (opens : List LogEntry) (operations : List Operation)
    (opening : ∀ entry ∈ opens, entry.type = .openSession)
    (opened : ∀ operation ∈ operations, operation.mutates = true →
      ((({ limit := limit } : Machine).applyAll opens).sessions[operation.session]?).isSome) :
    let server := serveAll (({ limit := limit } : Machine).applyAll opens) operations
    let checker := ({} : Model).run operations
    (server.2 = checker.2.map some ∧ server.1.values = checker.1.values) ↔
      ∀ id, StartsAtOne operations id := by
  have agrees := (Agrees.initial limit).opened opening
  constructor
  · exact fun alike id => agrees.starts opened alike.1 id Std.ExtTreeMap.getElem?_empty
  · intro first
    rcases agrees.run opened (fun id _ => first id) with ⟨same, final⟩
    exact ⟨same, final.values.symm⟩

/-- The session of all zeros is opened. -/
def oneSession : List LogEntry := [{ index := 1, term := 1, type := .openSession }]

def mutation (kind : Kind) (sequence : Nat) (value : List UInt8) : Operation :=
  { kind := kind, sequence := sequence, key := "k", value := value, invoke := 1 }

/-- Retries with other payloads, a stale sequence and a gap. -/
def retries : List Operation := [mutation .set 1 [7], mutation .set 1 [8], mutation .delete 2 [],
  mutation .get 0 [], mutation .set 2 [], mutation .set 1 [], mutation .set 4 []]

theorem retries_startAtOne (id : SessionID) : StartsAtOne retries id := by
  intro operation found
  have sessions : ∀ operation ∈ retries, operation.session = SessionID.zero := by decide
  have chosen := List.find?_some found
  rw [Bool.and_eq_true, decide_eq_true_eq,
    sessions operation (List.mem_of_find?_eq_some found)] at chosen
  rw [← chosen.2] at found
  have head : retries.find? (fun operation =>
      operation.mutates && operation.session = SessionID.zero) = some (mutation .set 1 [7]) := by
    decide
  cases Option.some.inj (head.symm.trans found)
  rfl

theorem model_agrees_retries :
    let server := serveAll (({ limit := 1 } : Machine).applyAll oneSession) retries
    let checker := ({} : Model).run retries
    checker.2 = [{}, {}, { existed := true }, { error := "not_found" }, { existed := true },
        { error := "stale_sequence" }, { error := "out_of_order" }] ∧
      server.2 = checker.2.map some ∧ server.1.values = checker.1.values := by
  have opened : ∀ operation ∈ retries, operation.mutates = true →
      ((({ limit := 1 } : Machine).applyAll oneSession).sessions[operation.session]?).isSome := by
    decide +kernel
  exact ⟨by decide +kernel,
    (model_agrees 1 oneSession retries (by decide) opened).mpr retries_startAtOne⟩

/-- The model takes any first sequence of a session, the server does not. -/
theorem model_differs :
    (({} : Model).run [mutation .set 2 [7]]).2 = [{}] ∧
      (serveAll (({ limit := 1 } : Machine).applyAll oneSession) [mutation .set 2 [7]]).2 =
        [some { error := "out_of_order" }] := by
  decide +kernel

end Ternion.Linearizability
