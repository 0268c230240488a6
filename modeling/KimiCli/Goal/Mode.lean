import Mathlib.Data.Rat.Defs
import Mathlib.Algebra.Order.Ring.Rat
import KimiCli.Js.Text

/-!
# The goal of an agent

Each agent keeps at most one goal.  `GoalMode` owns it: every operation changes the goal in memory
and logs what changed as a record, and a resumed agent rebuilds the goal from its records.
-/

namespace KimiCli

/-! ## Goals and their records -/

inductive GoalStatus
  | active
  | paused
  | blocked
  | complete
  deriving DecidableEq

/-- The status as the program writes it. -/
def GoalStatus.text : GoalStatus → String
  | active => "active"
  | paused => "paused"
  | blocked => "blocked"
  | complete => "complete"

inductive GoalActor
  | user
  | model
  | runtime
  | system

structure GoalBudgetLimits where
  tokenBudget : Option ℚ := none
  turnBudget : Option ℚ := none
  wallClockBudgetMs : Option ℚ := none

/-- Limits to set: a field that is not given keeps its limit, a given one may be `undefined`. -/
structure GoalBudgetInput where
  tokenBudget : Option (Option ℚ) := none
  turnBudget : Option (Option ℚ) := none
  wallClockBudgetMs : Option (Option ℚ) := none

/-- `{ ...limits, ...input }`. -/
def GoalBudgetLimits.spread (limits : GoalBudgetLimits) (input : GoalBudgetInput) :
    GoalBudgetLimits where
  tokenBudget := input.tokenBudget.getD limits.tokenBudget
  turnBudget := input.turnBudget.getD limits.turnBudget
  wallClockBudgetMs := input.wallClockBudgetMs.getD limits.wallClockBudgetMs

structure GoalState where
  goalId : String
  objective : String
  completionCriterion : Option String
  status : GoalStatus
  turnsUsed : ℕ
  tokensUsed : ℚ
  /-- Accumulated time from completed `active` intervals. -/
  wallClockMs : ℤ
  /-- When the current `active` interval began. -/
  wallClockResumedAt : Option ℤ
  budgetLimits : GoalBudgetLimits
  terminalReason : Option String

/-- The body of a `goal.update` record; only what changed is in it. -/
structure GoalUpdate where
  status : Option GoalStatus := none
  tokensUsed : Option ℚ := none
  turnsUsed : Option ℕ := none
  wallClockMs : Option ℤ := none
  budgetLimits : Option GoalBudgetLimits := none
  reason : Option String := none
  actor : Option GoalActor := none

inductive GoalRecord
  /-- `goal.create` -/
  | create (goalId objective : String) (completionCriterion : Option String)
  /-- `goal.update` -/
  | update (update : GoalUpdate)
  /-- `goal.clear` -/
  | clear

/-! ## Reading a goal -/

structure GoalBudgetReport where
  tokenBudget : Option ℚ
  turnBudget : Option ℚ
  wallClockBudgetMs : Option ℚ
  remainingTokens : Option ℚ
  remainingTurns : Option ℚ
  remainingWallClockMs : Option ℚ
  tokenBudgetReached : Bool
  turnBudgetReached : Bool
  wallClockBudgetReached : Bool
  overBudget : Bool

structure GoalSnapshot where
  goalId : String
  objective : String
  completionCriterion : Option String
  status : GoalStatus
  turnsUsed : ℕ
  tokensUsed : ℚ
  wallClockMs : ℤ
  budget : GoalBudgetReport
  terminalReason : Option String

/-- The readings of `Date.now()` that one operation makes. -/
structure GoalClock where
  /-- In `applyStatus`, or when a goal is created. -/
  applied : ℤ
  /-- For the total that goes into the record. -/
  logged : ℤ
  /-- For the total of the snapshot. -/
  shown : ℤ
  /-- For the budget report of the snapshot. -/
  reported : ℤ

namespace GoalState

/-- The accumulated total with the interval that is still open. -/
def liveWallClockMs (state : GoalState) (now : ℤ) : ℤ :=
  match state.status, state.wallClockResumedAt with
  | .active, some resumedAt => state.wallClockMs + max 0 (now - resumedAt)
  | _, _ => state.wallClockMs

def computeBudgetReport (state : GoalState) (now : ℤ) : GoalBudgetReport :=
  let limits := state.budgetLimits
  let wallClockMs : ℚ := state.liveWallClockMs now
  let reached (budget : Option ℚ) (used : ℚ) : Bool := budget.any (decide <| · ≤ used)
  let remaining (budget : Option ℚ) (used : ℚ) : Option ℚ := budget.map (max 0 <| · - used)
  let tokenBudgetReached := reached limits.tokenBudget state.tokensUsed
  let turnBudgetReached := reached limits.turnBudget state.turnsUsed
  let wallClockBudgetReached := reached limits.wallClockBudgetMs wallClockMs
  { tokenBudget := limits.tokenBudget
    turnBudget := limits.turnBudget
    wallClockBudgetMs := limits.wallClockBudgetMs
    remainingTokens := remaining limits.tokenBudget state.tokensUsed
    remainingTurns := remaining limits.turnBudget state.turnsUsed
    remainingWallClockMs := remaining limits.wallClockBudgetMs wallClockMs
    tokenBudgetReached, turnBudgetReached, wallClockBudgetReached
    overBudget := tokenBudgetReached || turnBudgetReached || wallClockBudgetReached }

def toSnapshot (state : GoalState) (clock : GoalClock) : GoalSnapshot where
  goalId := state.goalId
  objective := state.objective
  completionCriterion := state.completionCriterion
  status := state.status
  turnsUsed := state.turnsUsed
  tokensUsed := state.tokensUsed
  wallClockMs := state.liveWallClockMs clock.shown
  budget := state.computeBudgetReport clock.reported
  terminalReason := state.terminalReason

/-- Folds the open interval into the total, and begins one when the goal becomes active. -/
def applyStatus (state : GoalState) (status : GoalStatus) (now : ℤ) : GoalState :=
  let folded : GoalState :=
    match state.status, state.wallClockResumedAt with
    | .active, some resumedAt =>
      { state with
        wallClockMs := state.wallClockMs + max 0 (now - resumedAt), wallClockResumedAt := none }
    | _, _ => state
  { folded with
    status
    wallClockResumedAt := if status = .active then some now else folded.wallClockResumedAt }

end GoalState

/-! ## Operations -/

/-- The goal in memory and the records of the agent that concern it. -/
structure GoalMode where
  state : Option GoalState := none
  log : List GoalRecord := []

structure GoalError where
  code : String
  message : String

structure CreateGoalInput where
  objective : String
  completionCriterion : Option String := none
  replace : Bool := false

def maxGoalObjectiveLength : ℕ := 4000

def normalizeCompletionCriterion (value : Option String) : Option String :=
  (value.map trim).filter (0 < ·.length)

/-- What an operation gives back: an error that it throws, or the snapshot if there is one. -/
abbrev GoalResult := Except GoalError (Option GoalSnapshot) × GoalMode

namespace GoalMode

def logRecord (mode : GoalMode) (record : GoalRecord) : GoalMode :=
  { mode with log := mode.log ++ [record] }

def persistState (mode : GoalMode) (state : Option GoalState) : GoalMode := { mode with state }

def clearInternal (mode : GoalMode) : GoalMode :=
  match mode.state with
  | none => mode
  | some _ => (mode.persistState none).logRecord .clear

def appendGoalUpdate (mode : GoalMode) (update : GoalUpdate) : GoalMode :=
  mode.logRecord (.update update)

def appendStatusUpdate (mode : GoalMode) (state : GoalState) (actor : GoalActor)
    (reason : Option String) (clock : GoalClock) : GoalMode :=
  mode.appendGoalUpdate
    { status := some state.status, reason
      wallClockMs := some (state.liveWallClockMs clock.logged), actor := some actor }

/-- The lines that every status transition consists of: the new status and stop reason are stored,
and the transition is logged. -/
def changeStatus (mode : GoalMode) (state : GoalState) (status : GoalStatus)
    (terminalReason : Option String) (actor : GoalActor) (reason : Option String)
    (clock : GoalClock) : GoalState × GoalMode :=
  let state := { state.applyStatus status clock.applied with terminalReason }
  (state, (mode.persistState (some state)).appendStatusUpdate state actor reason clock)

/-- A transition of the goal to a stopped status. -/
def stop (mode : GoalMode) (state : GoalState) (status : GoalStatus) (reason : Option String)
    (actor : GoalActor) (clock : GoalClock) : GoalResult :=
  let (state, mode) := mode.changeStatus state status reason actor reason clock
  (.ok (state.toSnapshot clock), mode)

def requireState (mode : GoalMode) (body : GoalState → GoalResult) : GoalResult :=
  match mode.state with
  | none => (.error ⟨"goal.not_found", "No current goal"⟩, mode)
  | some state => body state

/-- The goal when it is active; any other goal is left alone. -/
def whenActive (mode : GoalMode) (body : GoalState → GoalResult) : GoalResult :=
  match mode.state with
  | none => (.ok none, mode)
  | some state => if state.status = .active then body state else (.ok none, mode)

def createGoal (mode : GoalMode) (input : CreateGoalInput) (randomUUID : String)
    (clock : GoalClock) : GoalResult :=
  let objective := trim input.objective
  if objective.length = 0 then
    (.error ⟨"goal.objective_empty", "Goal objective cannot be empty"⟩, mode)
  else if maxGoalObjectiveLength < utf16Length objective.toList then
    (.error ⟨"goal.objective_too_long",
      s!"Goal objective cannot exceed {maxGoalObjectiveLength} characters"⟩, mode)
  else if mode.state.isSome ∧ input.replace = false then
    (.error ⟨"goal.already_exists", "A goal already exists; use replace to start a new one"⟩, mode)
  else
    let mode := mode.clearInternal
    let state : GoalState :=
      { goalId := randomUUID, objective
        completionCriterion := normalizeCompletionCriterion input.completionCriterion
        status := .active, turnsUsed := 0, tokensUsed := 0, wallClockMs := 0
        wallClockResumedAt := some clock.applied, budgetLimits := {}, terminalReason := none }
    let mode := (mode.persistState (some state)).logRecord
      (.create state.goalId state.objective state.completionCriterion)
    (.ok (state.toSnapshot clock), mode)

def pauseGoal (mode : GoalMode) (reason : Option String) (actor : GoalActor) (clock : GoalClock) :
    GoalResult :=
  mode.requireState fun state =>
    if state.status = .paused then (.ok (state.toSnapshot clock), mode)
    else if state.status ≠ .active then
      (.error ⟨"goal.status_invalid",
        s!"Cannot pause a goal in status \"{state.status.text}\""⟩, mode)
    else mode.stop state .paused reason actor clock

def pauseActiveGoal (mode : GoalMode) (reason : Option String) (actor : GoalActor)
    (clock : GoalClock) : GoalResult :=
  mode.whenActive fun state => mode.stop state .paused reason actor clock

def resumeGoal (mode : GoalMode) (reason : Option String) (actor : GoalActor) (clock : GoalClock) :
    GoalResult :=
  mode.requireState fun state =>
    if state.status = .active then (.ok (state.toSnapshot clock), mode)
    else if state.status ≠ .paused ∧ state.status ≠ .blocked then
      (.error ⟨"goal.not_resumable",
        s!"Cannot resume a goal in status \"{state.status.text}\""⟩, mode)
    else
      let (state, mode) := mode.changeStatus state .active none actor reason clock
      (.ok (state.toSnapshot clock), mode)

def setBudgetLimits (mode : GoalMode) (budgetLimits : GoalBudgetInput) (clock : GoalClock) :
    GoalResult :=
  mode.requireState fun state =>
    let state := { state with budgetLimits := state.budgetLimits.spread budgetLimits }
    (.ok (state.toSnapshot clock),
      (mode.persistState (some state)).appendGoalUpdate
        { budgetLimits := some state.budgetLimits })

def cancelGoal (mode : GoalMode) (clock : GoalClock) : GoalResult :=
  mode.requireState fun state => (.ok (state.toSnapshot clock), mode.clearInternal)

def markBlocked (mode : GoalMode) (reason : Option String) (actor : GoalActor)
    (clock : GoalClock) : GoalResult :=
  mode.whenActive fun state => mode.stop state .blocked reason actor clock

/-- The success is logged as a status of its own before the goal is cleared. -/
def markComplete (mode : GoalMode) (reason : Option String) (actor : GoalActor)
    (clock : GoalClock) : GoalResult :=
  mode.whenActive fun state =>
    let (result, mode) := mode.stop state .complete reason actor clock
    (result, mode.clearInternal)

def recordTokenUsage (mode : GoalMode) (tokenDelta : ℚ) (clock : GoalClock) : GoalResult :=
  mode.whenActive fun state =>
    let state := { state with tokensUsed := state.tokensUsed + max 0 tokenDelta }
    (.ok (state.toSnapshot clock),
      (mode.persistState (some state)).appendGoalUpdate { tokensUsed := some state.tokensUsed })

def incrementTurn (mode : GoalMode) (clock : GoalClock) : GoalResult :=
  mode.whenActive fun state =>
    let state := { state with turnsUsed := state.turnsUsed + 1 }
    (.ok (state.toSnapshot clock),
      (mode.persistState (some state)).appendGoalUpdate { turnsUsed := some state.turnsUsed })

end GoalMode

/-- A call of one operation. -/
inductive GoalCall
  | createGoal (input : CreateGoalInput) (randomUUID : String)
  | pauseGoal (reason : Option String) (actor : GoalActor)
  | pauseActiveGoal (reason : Option String) (actor : GoalActor)
  | resumeGoal (reason : Option String) (actor : GoalActor)
  | setBudgetLimits (budgetLimits : GoalBudgetInput)
  | cancelGoal
  | markBlocked (reason : Option String) (actor : GoalActor)
  | markComplete (reason : Option String) (actor : GoalActor)
  | recordTokenUsage (tokenDelta : ℚ)
  | incrementTurn

def GoalMode.call (mode : GoalMode) (clock : GoalClock) : GoalCall → GoalResult
  | .createGoal input randomUUID => mode.createGoal input randomUUID clock
  | .pauseGoal reason actor => mode.pauseGoal reason actor clock
  | .pauseActiveGoal reason actor => mode.pauseActiveGoal reason actor clock
  | .resumeGoal reason actor => mode.resumeGoal reason actor clock
  | .setBudgetLimits budgetLimits => mode.setBudgetLimits budgetLimits clock
  | .cancelGoal => mode.cancelGoal clock
  | .markBlocked reason actor => mode.markBlocked reason actor clock
  | .markComplete reason actor => mode.markComplete reason actor clock
  | .recordTokenUsage tokenDelta => mode.recordTokenUsage tokenDelta clock
  | .incrementTurn => mode.incrementTurn clock

/-! ## Resume -/

/-- `restoreUpdate` on the goal that the records before it have restored. -/
def GoalState.restoreUpdate (state : GoalState) (record : GoalUpdate) : GoalState :=
  let state : GoalState :=
    match record.status with
    | none => state
    | some status =>
      { state with
        status, wallClockResumedAt := none
        terminalReason := if status = .active then none else record.reason }
  let state := { state with turnsUsed := record.turnsUsed.getD state.turnsUsed }
  let state := { state with tokensUsed := record.tokensUsed.getD state.tokensUsed }
  let state : GoalState :=
    match record.wallClockMs with
    | none => state
    | some wallClockMs => { state with wallClockMs, wallClockResumedAt := none }
  { state with budgetLimits := record.budgetLimits.getD state.budgetLimits }

/-- `restoreCreate`, `restoreUpdate` and `restoreClear`. -/
def restoreGoalRecord (state : Option GoalState) : GoalRecord → Option GoalState
  | .create goalId objective completionCriterion =>
    some
      { goalId, objective, completionCriterion
        status := .active, turnsUsed := 0, tokensUsed := 0, wallClockMs := 0
        wallClockResumedAt := none, budgetLimits := {}, terminalReason := none }
  | .update record => state.map (·.restoreUpdate record)
  | .clear => none

def restoreGoal (log : List GoalRecord) : Option GoalState := log.foldl restoreGoalRecord none

def resumeReason : String := "Paused after agent resume"

def GoalMode.normalizeAfterReplay (mode : GoalMode) (clock : GoalClock) : GoalMode :=
  match mode.state with
  | none => mode
  | some state =>
    let state := { state with wallClockResumedAt := none }
    let mode := mode.persistState (some state)
    match state.status with
    | .complete => mode.clearInternal
    | .active =>
      (mode.changeStatus state .paused (some resumeReason) .runtime (some resumeReason) clock).2
    | .paused | .blocked => mode

/-- A new process: the records are restored in order, then reconciled with it. -/
def GoalMode.resume (mode : GoalMode) (clock : GoalClock) : GoalMode :=
  GoalMode.normalizeAfterReplay { state := restoreGoal mode.log, log := mode.log } clock

end KimiCli
