import KimiCli.Lib.Run
import Mathlib.Algebra.Order.Group.Int
import Mathlib.Tactic.Common

/-!
# Turn ids over a resume

`TurnFlow` numbers its turns.  The counter itself is not logged: it is rebuilt from the records of
prompts, steers and cancels and from the turn ids of the logged loop events.  The rebuilt counter
covers every turn of a live run exactly when the last turn has logged a loop event, or was launched
by a record that is counted again (`turn_ids_not_reused`).  A prompt that ends before its first loop
event, without a cancel since the prompt before, is not counted, and its id is given out twice.

An input stands for its content together with its origin.
-/

namespace KimiCli.Agent

open Transition

inductive ActiveTurn
  | resuming
  | turn (turnId : ℤ)
  deriving DecidableEq

/-- The logged records that `TurnFlow` is restored from; other records do not change it. -/
inductive TurnRecord (ι : Type*)
  | prompt (input : ι)
  | steer (input : ι)
  | cancel (turnId : Option ℤ)
  | loopEvent (turnId : ℤ)

/-- The record of a prompt or of a steer. -/
def TurnRecord.IsInput {ι : Type*} (record : TurnRecord ι) : Prop :=
  ∃ input, record = .prompt input ∨ record = .steer input

/-- The payload of the `turn.agent_busy` event. -/
structure AgentBusy where
  message : String
  turnId : ℤ

structure TurnFlow (ι : Type*) where
  steerBuffer : List ι := []
  turnId : ℤ := -1
  activeTurn : Option ActiveTurn := none

namespace TurnFlow

variable {ι : Type*} (t : TurnFlow ι)

def allocateTurnId : TurnFlow ι := { t with turnId := t.turnId + 1 }

/-- The id of the new turn, or the event that is emitted instead. -/
def launch : Except AgentBusy ℤ × TurnFlow ι :=
  match t.activeTurn with
  | some _ =>
    (.error {
      message := s!"Cannot launch a new turn while another turn (ID {t.turnId}) is active"
      turnId := t.turnId }, t)
  | none =>
    let t := t.allocateTurnId
    (.ok t.turnId, { t with activeTurn := some (.turn t.turnId) })

def bufferSteer (input : ι) : TurnFlow ι := { t with steerBuffer := t.steerBuffer ++ [input] }

def cancel (turnId : Option ℤ) : TurnFlow ι :=
  if turnId.isSome ∧ turnId ≠ some t.turnId then t else { t with activeTurn := none }

/-! ## Restoring -/

def restorePrompt : TurnFlow ι :=
  match t.activeTurn with
  | some _ => t
  | none => { t with turnId := t.turnId + 1, activeTurn := some .resuming }

def restoreSteer (input : ι) : TurnFlow ι :=
  match t.activeTurn with
  | some _ => t.bufferSteer input
  | none => { t with turnId := t.turnId + 1, activeTurn := some .resuming }

def observeRestoredTurnId (turnId : ℤ) : TurnFlow ι :=
  if t.turnId < turnId then { t with turnId := turnId } else t

def restoreRecord (t : TurnFlow ι) : TurnRecord ι → TurnFlow ι
  | .prompt _ => t.restorePrompt
  | .steer input => t.restoreSteer input
  | .cancel turnId => t.cancel turnId
  | .loopEvent turnId => t.observeRestoredTurnId turnId

def restoreRecords (records : List (TurnRecord ι)) : TurnFlow ι :=
  records.foldl restoreRecord {}

def finishResume : TurnFlow ι :=
  { t with
    activeTurn := if t.activeTurn = some .resuming then none else t.activeTurn
    steerBuffer := [] }

/-- The first turn id that an agent allocates that is restored from the records. -/
def nextTurnId (records : List (TurnRecord ι)) : ℤ :=
  (restoreRecords records).finishResume.allocateTurnId.turnId

end TurnFlow

/-! ## Live runs -/

inductive TurnLabel (ι : Type*)
  | prompt (input : ι)
  | steer (input : ι)
  /-- A goal continuation takes the next id; it may belong to a turn that was cancelled. -/
  | continuation
  | cancel (turnId : Option ℤ)
  | loopEvent (turnId : ℤ)
  | flushSteerBuffer
  /-- The active turn is released. -/
  | turnEnded
  /-- The process is gone, and a new one restores the log. -/
  | resume

/-- A live `TurnFlow` with its log and the ids that were allocated. -/
structure LiveTurns (ι : Type*) where
  flow : TurnFlow ι := {}
  log : List (TurnRecord ι) := []
  allocated : List ℤ := []
  busy : List AgentBusy := []
  /-- No prompt or steer was logged since the start or the last cancel that took effect. -/
  clear : Bool := true
  /-- The last turn has logged a loop event, or a clear log got its prompt or steer and the turn
  before is covered too. -/
  covered : Bool := true

namespace LiveTurns

variable {ι : Type*} (s : LiveTurns ι)

/-- A launch for a record that is logged. -/
def launch (record : TurnRecord ι) : LiveTurns ι :=
  match s.flow.launch with
  | (.ok turnId, flow) =>
    { s with
      flow
      log := s.log ++ [record]
      allocated := turnId :: s.allocated
      covered := s.covered && s.clear
      clear := false }
  | (.error busy, flow) =>
    { s with flow, log := s.log ++ [record], busy := busy :: s.busy, clear := false }

def step (s : LiveTurns ι) : TurnLabel ι → Option (LiveTurns ι)
  | .prompt input => some (s.launch (.prompt input))
  | .steer input =>
    match s.flow.activeTurn with
    | some _ =>
      some { s with
        flow := s.flow.bufferSteer input
        log := s.log ++ [.steer input]
        clear := false }
    | none => some (s.launch (.steer input))
  | .continuation =>
    if s.allocated = [] then none
    else
      some { s with
        flow := s.flow.allocateTurnId
        allocated := s.flow.allocateTurnId.turnId :: s.allocated
        covered := false }
  | .cancel turnId =>
    some { s with
      flow := s.flow.cancel turnId
      log := s.log ++ [.cancel turnId]
      clear := s.clear || turnId.isNone || (turnId = some s.flow.turnId && s.covered) }
  | .loopEvent turnId =>
    if turnId ∈ s.allocated then
      some { s with
        log := s.log ++ [.loopEvent turnId]
        covered := s.covered || turnId = s.flow.turnId }
    else none
  | .flushSteerBuffer => some { s with flow := { s.flow with steerBuffer := [] } }
  | .turnEnded => some { s with flow := { s.flow with activeTurn := none } }
  | .resume =>
    some { s with flow := (TurnFlow.restoreRecords s.log).finishResume, covered := true }

end LiveTurns

/-! ## What the log restores -/

namespace TurnFlow

variable {ι : Type*} {t : TurnFlow ι} {log : List (TurnRecord ι)} {record : TurnRecord ι}

theorem restoreRecords_concat :
    restoreRecords (log ++ [record]) = restoreRecord (restoreRecords log) record := by
  rw [restoreRecords, List.foldl_append, List.foldl_cons, List.foldl_nil, restoreRecords]

theorem restore_counted (counted : record.IsInput)
    (free : t.activeTurn = none) :
    (restoreRecord t record).turnId = t.turnId + 1 ∧
      (restoreRecord t record).activeTurn = some .resuming := by
  obtain ⟨input, rfl | rfl⟩ := counted
  · rw [restoreRecord, restorePrompt, free]
    exact ⟨rfl, rfl⟩
  · rw [restoreRecord, restoreSteer, free]
    exact ⟨rfl, rfl⟩

theorem restore_swallowed (counted : record.IsInput)
    (resuming : t.activeTurn = some .resuming) :
    (restoreRecord t record).turnId = t.turnId ∧
      (restoreRecord t record).activeTurn = some .resuming := by
  obtain ⟨input, rfl | rfl⟩ := counted
  · rw [restoreRecord, restorePrompt, resuming]
    exact ⟨rfl, resuming⟩
  · rw [restoreRecord, restoreSteer, resuming]
    exact ⟨rfl, resuming⟩

theorem turnId_cancel (turnId : Option ℤ) : (t.cancel turnId).turnId = t.turnId := by
  rw [cancel]
  split <;> rfl

theorem turnId_observe (turnId : ℤ) :
    (t.observeRestoredTurnId turnId).turnId = max t.turnId turnId := by
  rw [observeRestoredTurnId]
  split
  case isTrue raised => exact (max_eq_right raised.le).symm
  case isFalse kept => exact (max_eq_left (not_lt.1 kept)).symm

theorem activeTurn_observe (turnId : ℤ) :
    (t.observeRestoredTurnId turnId).activeTurn = t.activeTurn := by
  rw [observeRestoredTurnId]
  split <;> rfl

theorem nextTurnId_eq : nextTurnId log = (restoreRecords log).turnId + 1 := rfl

end TurnFlow

namespace LiveTurns

variable {ι : Type*} {s s' : LiveTurns ι} {record : TurnRecord ι}

open TurnFlow

/-- A cancel that names an older turn comes only when the last turn is covered, or when it has
nothing to release in the restored flow; and the log is restored when the last turn is covered. -/
def Timely (s : LiveTurns ι) : TurnLabel ι → Prop
  | .cancel (some turnId) => s.covered = true ∨ s.clear = true ∨ s.flow.turnId ≤ turnId
  | .resume => s.covered = true
  | _ => True

instance (s : LiveTurns ι) : ∀ label, Decidable (s.Timely label)
  | .cancel (some _) => inferInstanceAs (Decidable (_ ∨ _ ∨ _))
  | .resume => inferInstanceAs (Decidable (_ = _))
  | .prompt _ | .steer _ | .continuation | .cancel none | .loopEvent _ | .flushSteerBuffer
  | .turnEnded => .isTrue trivial

/-- What the records of the log restore, beside the live flow. -/
structure Replays (s : LiveTurns ι) : Prop where
  resuming : (restoreRecords s.log).activeTurn = if s.clear then none else some .resuming
  busy : s.clear = true → s.flow.activeTurn = none
  below : (restoreRecords s.log).turnId ≤ s.flow.turnId
  least : -1 ≤ (restoreRecords s.log).turnId
  covered : s.covered = true ↔ (restoreRecords s.log).turnId = s.flow.turnId
  allocated : ∀ id ∈ s.allocated, id ≤ s.flow.turnId
  last : s.flow.turnId = -1 ∨ s.flow.turnId ∈ s.allocated

theorem replays_init : Replays ({} : LiveTurns ι) where
  resuming := rfl
  busy := fun _ => rfl
  below := le_rfl
  least := le_rfl
  covered := iff_of_true rfl rfl
  allocated := by simp
  last := .inl rfl

theorem Replays.launch (replays : Replays s)
    (counted : record.IsInput) :
    Replays (s.launch record) := by
  obtain ⟨resuming, busy, below, least, covered, allocated, last⟩ := replays
  have restored : (restoreRecords (s.log ++ [record])).activeTurn = some .resuming ∧
      (restoreRecords (s.log ++ [record])).turnId =
        if s.clear then (restoreRecords s.log).turnId + 1 else (restoreRecords s.log).turnId := by
    rw [restoreRecords_concat]
    cases clear : s.clear with
    | true =>
      rw [clear] at resuming
      exact (restore_counted counted resuming).symm
    | false =>
      rw [clear] at resuming
      exact (restore_swallowed counted resuming).symm
  obtain ⟨active, turnId⟩ := restored
  rw [LiveTurns.launch, TurnFlow.launch]
  cases free : s.flow.activeTurn with
  | some =>
    have notClear : s.clear = false := by
      refine Bool.eq_false_iff.2 fun clear => ?_
      rw [busy clear] at free
      cases free
    rw [notClear] at turnId
    refine ⟨active, fun clear => ?_, ?_, ?_, ?_, allocated, last⟩
    · cases clear
    · exact turnId.le.trans below
    · exact least.trans turnId.ge
    · exact covered.trans (by rw [turnId]; rfl)
  | none =>
    refine ⟨active, fun clear => ?_, ?_, ?_, ?_, fun id mem => ?_, .inr List.mem_cons_self⟩
    · cases clear
    · change (restoreRecords (s.log ++ [record])).turnId ≤ s.flow.turnId + 1
      rw [turnId]
      split <;> omega
    · change -1 ≤ (restoreRecords (s.log ++ [record])).turnId
      rw [turnId]
      split <;> omega
    · change (s.covered && s.clear) = true ↔
        (restoreRecords (s.log ++ [record])).turnId = s.flow.turnId + 1
      rw [Bool.and_eq_true, covered, turnId]
      split
      case isTrue clear =>
        rw [and_iff_left clear]
        omega
      case isFalse clear =>
        refine iff_of_false (fun both => clear both.2) ?_
        omega
    · change id ≤ s.flow.turnId + 1
      rcases List.mem_cons.1 mem with rfl | old
      · exact le_rfl
      · have bound := allocated id old
        omega

theorem cancel_replays {turnId : Option ℤ}
    (resuming : (restoreRecords s.log).activeTurn = if s.clear then none else some .resuming)
    (busy : s.clear = true → s.flow.activeTurn = none)
    (below : (restoreRecords s.log).turnId ≤ s.flow.turnId)
    (covered : s.covered = true ↔ (restoreRecords s.log).turnId = s.flow.turnId)
    (timely : s.Timely (.cancel turnId)) :
    let clear := s.clear || turnId.isNone || (turnId = some s.flow.turnId && s.covered)
    ((restoreRecords s.log).cancel turnId).activeTurn =
      (if clear then none else some .resuming) ∧
    (clear = true → (s.flow.cancel turnId).activeTurn = none) := by
  cases turnId with
  | none => simp [TurnFlow.cancel]
  | some turnId =>
    have idle : s.clear = true → (s.flow.cancel (some turnId)).activeTurn = none := fun clear => by
      rw [TurnFlow.cancel]
      split
      · exact busy clear
      · rfl
    have released : turnId = s.flow.turnId → (s.flow.cancel (some turnId)).activeTurn = none := by
      rintro rfl
      rw [TurnFlow.cancel, if_neg]
      exact fun both => both.2 rfl
    rw [Option.isNone_some, Bool.or_false]
    constructor
    · by_cases same : turnId = (restoreRecords s.log).turnId
      · have counts : (s.clear || (some turnId = some s.flow.turnId && s.covered)) = true := by
          rw [Bool.or_eq_true, Bool.and_eq_true, decide_eq_true_eq, Option.some_inj, covered]
          rcases timely with isCovered | clear | above
          · have eq := covered.1 isCovered
            exact .inr ⟨by omega, eq⟩
          · exact .inl clear
          · exact .inr ⟨by omega, by omega⟩
        rw [counts, TurnFlow.cancel, if_neg]
        · rfl
        · exact fun both => both.2 (congrArg some same)
      · have counts : (s.clear || (some turnId = some s.flow.turnId && s.covered)) = s.clear := by
          refine (congrArg (s.clear || ·) ?_).trans (Bool.or_false _)
          refine Bool.eq_false_iff.2 fun both => same ?_
          rw [Bool.and_eq_true, decide_eq_true_eq, Option.some_inj, covered] at both
          omega
        rw [counts, TurnFlow.cancel, if_pos, resuming]
        exact ⟨rfl, fun eq => same (Option.some.inj eq)⟩
    · intro counts
      rw [Bool.or_eq_true, Bool.and_eq_true, decide_eq_true_eq, Option.some_inj] at counts
      rcases counts with clear | ⟨same, -⟩
      · exact idle clear
      · exact released same

theorem Replays.step {label : TurnLabel ι} (replays : Replays s) (timely : s.Timely label)
    (next : step s label = some s') : Replays s' := by
  cases label with
  | prompt input =>
    cases next
    exact replays.launch ⟨input, .inl rfl⟩
  | steer input =>
    rw [LiveTurns.step] at next
    split at next
    case h_2 =>
      cases next
      exact replays.launch ⟨input, .inr rfl⟩
    case h_1 current active =>
      cases next
      obtain ⟨resuming, busy, below, least, covered, allocated, last⟩ := replays
      have notClear : s.clear = false := by
        refine Bool.eq_false_iff.2 fun clear => ?_
        rw [busy clear] at active
        cases active
      rw [notClear] at resuming
      obtain ⟨turnId, still⟩ :=
        restore_swallowed (⟨input, .inr rfl⟩ : TurnRecord.IsInput (.steer input)) resuming
      rw [← restoreRecords_concat] at turnId still
      refine ⟨still, fun clear => ?_, ?_, ?_, ?_, allocated, last⟩
      · cases clear
      · exact turnId.le.trans below
      · exact least.trans turnId.ge
      · exact covered.trans (by rw [turnId]; rfl)
  | continuation =>
    rw [LiveTurns.step] at next
    split at next
    · cases next
    · cases next
      obtain ⟨resuming, busy, below, least, covered, allocated, last⟩ := replays
      refine ⟨resuming, busy, ?_, least, ?_, fun id mem => ?_, .inr List.mem_cons_self⟩
      · change (restoreRecords s.log).turnId ≤ s.flow.turnId + 1
        omega
      · change false = true ↔ (restoreRecords s.log).turnId = s.flow.turnId + 1
        refine iff_of_false Bool.false_ne_true ?_
        omega
      · change id ≤ s.flow.turnId + 1
        rcases List.mem_cons.1 mem with rfl | old
        · exact le_rfl
        · have bound := allocated id old
          omega
  | cancel turnId =>
    cases next
    obtain ⟨resuming, busy, below, least, covered, allocated, last⟩ := replays
    have same : (restoreRecords (s.log ++ [.cancel turnId])).turnId =
        (restoreRecords s.log).turnId := by
      rw [restoreRecords_concat]
      exact turnId_cancel turnId
    obtain ⟨active, idle⟩ := cancel_replays resuming busy below covered timely
    refine ⟨?_, idle, ?_, ?_, ?_, fun id mem => ?_, ?_⟩
    · rw [restoreRecords_concat]
      exact active
    · exact (same.le.trans below).trans (turnId_cancel turnId).ge
    · exact least.trans same.ge
    · refine covered.trans ?_
      rw [same]
      exact iff_of_eq (congrArg _ (turnId_cancel turnId).symm)
    · exact (allocated id mem).trans (turnId_cancel turnId).ge
    · exact (turnId_cancel turnId).symm ▸ last
  | loopEvent turnId =>
    rw [LiveTurns.step] at next
    split at next
    case isFalse => cases next
    case isTrue mem =>
      cases next
      obtain ⟨resuming, busy, below, least, covered, allocated, last⟩ := replays
      have bound := allocated turnId mem
      have turnId' : (restoreRecords (s.log ++ [.loopEvent turnId])).turnId =
          max (restoreRecords s.log).turnId turnId := by
        rw [restoreRecords_concat]
        exact turnId_observe turnId
      refine ⟨?_, busy, ?_, ?_, ?_, allocated, last⟩
      · rw [restoreRecords_concat]
        exact (activeTurn_observe turnId).trans resuming
      · exact turnId'.le.trans (max_le below bound)
      · exact least.trans ((le_max_left _ _).trans turnId'.ge)
      · change (s.covered || decide (turnId = s.flow.turnId)) = true ↔
          (restoreRecords (s.log ++ [.loopEvent turnId])).turnId = s.flow.turnId
        rw [Bool.or_eq_true, decide_eq_true_eq, covered, turnId']
        omega
  | flushSteerBuffer =>
    cases next
    exact ⟨replays.resuming, replays.busy, replays.below, replays.least, replays.covered,
      replays.allocated, replays.last⟩
  | turnEnded =>
    cases next
    exact ⟨replays.resuming, fun _ => rfl, replays.below, replays.least, replays.covered,
      replays.allocated, replays.last⟩
  | resume =>
    cases next
    have same : (restoreRecords s.log).turnId = s.flow.turnId := replays.covered.1 timely
    refine ⟨replays.resuming, fun clear => ?_, le_rfl, replays.least, iff_of_true rfl rfl, ?_, ?_⟩
    · have active := replays.resuming
      change (if (restoreRecords s.log).activeTurn = some .resuming then none
        else (restoreRecords s.log).activeTurn) = none
      rw [active]
      cases s.clear <;> rfl
    · exact fun id mem => (replays.allocated id mem).trans same.ge
    · change (restoreRecords s.log).turnId = -1 ∨ (restoreRecords s.log).turnId ∈ s.allocated
      rw [same]
      exact replays.last

theorem Replays.next (replays : Replays s) :
    (∀ id ∈ s.allocated, id < nextTurnId s.log) ↔ s.covered = true := by
  rw [replays.covered, nextTurnId_eq]
  constructor
  · intro above
    have least := replays.least
    have below := replays.below
    rcases replays.last with none' | mem
    · omega
    · have newest := above _ mem
      omega
  · intro same id mem
    have bound := replays.allocated id mem
    omega

theorem turn_ids_not_reused {labels : List (TurnLabel ι)} {s : LiveTurns ι}
    (run : Run step Timely {} labels s) :
    (∀ id ∈ s.allocated, id < nextTurnId s.log) ↔ s.covered = true :=
  (run.invariant Replays replays_init fun _ _ _ replays timely next =>
    replays.step timely next).next

/-- A cancel between two prompts that log no loop event. -/
theorem turn_ids_not_reused_cancelled : ∃ s : LiveTurns String, s.allocated = [1, 0] ∧
    nextTurnId s.log = 2 ∧ ∀ id ∈ s.allocated, id < nextTurnId s.log := by
  obtain ⟨s, executed, state⟩ : ∃ s, exec (guarded step Timely) ({} : LiveTurns String)
      [.prompt "a", .cancel none, .prompt "b"] = some s ∧
      (s.allocated = [1, 0] ∧ nextTurnId s.log = 2 ∧ s.covered = true) := ⟨_, rfl, by decide⟩
  exact ⟨s, state.1, state.2.1, (turn_ids_not_reused (Run.of_exec executed)).2 state.2.2⟩

/-- A prompt hook blocks the second turn, whose id is given out again after a resume. -/
theorem blocked_turn_reused : ¬∀ s : LiveTurns String, Run step Always {}
    [.prompt "a", .loopEvent 0, .turnEnded, .prompt "b", .turnEnded] s →
    ∀ id ∈ s.allocated, id < nextTurnId s.log := by
  intro all
  obtain ⟨s, run, state⟩ : ∃ s : LiveTurns String, Run step Always {}
      [.prompt "a", .loopEvent 0, .turnEnded, .prompt "b", .turnEnded] s ∧
      (s.allocated = [1, 0] ∧ nextTurnId s.log = 1) :=
    ⟨_, .cons trivial rfl <| .cons trivial rfl <| .cons trivial rfl <| .cons trivial rfl <|
      .cons trivial rfl .nil, by decide⟩
  have above := all s run 1 (by rw [state.1]; exact List.mem_cons_self)
  rw [state.2] at above
  exact absurd above (lt_irrefl 1)

end LiveTurns

end KimiCli.Agent
