import KimiCli.Goal.Replay
import KimiCli.Lib.Run

/-!
# The goal flag of the task registry

The session's task registry keeps a flag of its own for whether there is an active goal, and the
operations on the goal set it by hand.  The flag tracks the goal in every run that does not bring a
stopped goal back and does not cancel an active one; these two steps leave the flag behind.
-/

namespace KimiCli

/-! ## The flag and the operations that set it -/

/-- There is a goal and its status is `active`. -/
def GoalMode.isActive (mode : GoalMode) : Bool := mode.state.any (·.status = .active)

/-- The goal of an agent beside `SessionTaskRegistry.hasActiveGoal`. -/
structure RegisteredGoal where
  goal : GoalMode := {}
  hasActiveGoal : Bool := false

namespace RegisteredGoal

def setGoalActive (agent : RegisteredGoal) (active : Bool) : RegisteredGoal :=
  { agent with hasActiveGoal := active }

/-- A created goal is reported; a call that throws ends before that. -/
def createGoal (agent : RegisteredGoal) (input : CreateGoalInput) (randomUUID : String)
    (clock : GoalClock) : Except GoalError (Option GoalSnapshot) × RegisteredGoal :=
  match agent.goal.createGoal input randomUUID clock with
  | (.error error, goal) => (.error error, { agent with goal })
  | (.ok snapshot, goal) => (.ok snapshot, { agent with goal }.setGoalActive true)

/-- `pauseGoal`, `pauseActiveGoal`, `markBlocked` and `markComplete`: each returns or throws early
unless the goal is active, and reports that it stopped after its transition. -/
def stopping (agent : RegisteredGoal) (clock : GoalClock) (call : GoalCall) :
    Except GoalError (Option GoalSnapshot) × RegisteredGoal :=
  let (result, goal) := agent.goal.call clock call
  let after := { agent with goal }
  (result, if agent.goal.isActive then after.setGoalActive false else after)

/-- An operation that does not touch the registry. -/
def silent (agent : RegisteredGoal) (clock : GoalClock) (call : GoalCall) :
    Except GoalError (Option GoalSnapshot) × RegisteredGoal :=
  let (result, goal) := agent.goal.call clock call
  (result, { agent with goal })

def call (agent : RegisteredGoal) (clock : GoalClock) :
    GoalCall → Except GoalError (Option GoalSnapshot) × RegisteredGoal
  | .createGoal input randomUUID => agent.createGoal input randomUUID clock
  | .pauseGoal reason actor => agent.stopping clock (.pauseGoal reason actor)
  | .pauseActiveGoal reason actor => agent.stopping clock (.pauseActiveGoal reason actor)
  | .resumeGoal reason actor => agent.silent clock (.resumeGoal reason actor)
  | .setBudgetLimits budgetLimits => agent.silent clock (.setBudgetLimits budgetLimits)
  | .cancelGoal => agent.silent clock .cancelGoal
  | .markBlocked reason actor => agent.stopping clock (.markBlocked reason actor)
  | .markComplete reason actor => agent.stopping clock (.markComplete reason actor)
  | .recordTokenUsage tokenDelta => agent.silent clock (.recordTokenUsage tokenDelta)
  | .incrementTurn => agent.silent clock .incrementTurn

/-- A new process: the goal is restored, and the new registry starts with no active goal. -/
def resume (agent : RegisteredGoal) (clock : GoalClock) : RegisteredGoal :=
  { goal := agent.goal.resume clock }

inductive Label
  | call (clock : GoalClock) (call : GoalCall)
  | resume (clock : GoalClock)

def step (agent : RegisteredGoal) : Label → Option RegisteredGoal
  | .call clock call => some (agent.call clock call).2
  | .resume clock => some (agent.resume clock)

/-- What the flag should be. -/
def Tracks (agent : RegisteredGoal) : Prop := agent.hasActiveGoal = agent.goal.isActive

/-- The step brings no stopped goal back and cancels no active one. -/
def Reported (agent : RegisteredGoal) : Label → Prop
  | .call _ (.resumeGoal _ _) => ∀ state ∈ agent.goal.state,
      state.status ≠ .paused ∧ state.status ≠ .blocked
  | .call _ .cancelGoal => agent.goal.isActive = false
  | _ => True

end RegisteredGoal

/-! ## Whether there is an active goal after an operation -/

namespace GoalMode

variable {mode : GoalMode} {state : GoalState} {clock : GoalClock}

theorem isActive_of_none (absent : mode.state = none) : mode.isActive = false := by
  rw [isActive, absent]
  rfl

theorem isActive_of_some (current : mode.state = some state) :
    mode.isActive = decide (state.status = .active) := by
  rw [isActive, current]
  rfl

@[simp] theorem isActive_clearInternal : mode.clearInternal.isActive = false := by
  cases current : mode.state with
  | none => rw [clearInternal, current, isActive_of_none current]
  | some =>
    rw [clearInternal, current]
    rfl

theorem requireState_cases {body : GoalState → GoalResult} (Good : GoalResult → Prop)
    (absent : mode.state = none → Good (.error ⟨"goal.not_found", "No current goal"⟩, mode))
    (each : ∀ state, mode.state = some state → Good (body state)) :
    Good (mode.requireState body) := by
  unfold requireState
  split
  case h_1 none => exact absent none
  case h_2 state current => exact each state current

theorem isActive_whenActive {body : GoalState → GoalResult} {after : Bool}
    (each : ∀ state, mode.state = some state → state.status = .active →
      (body state).2.isActive = after) (inactive : mode.isActive = false → after = false) :
    (mode.whenActive body).2.isActive = after := by
  unfold whenActive
  split
  case h_1 absent =>
    have stopped := isActive_of_none absent
    rw [stopped, inactive stopped]
  case h_2 state current =>
    split
    case isTrue active => exact each state current active
    case isFalse other =>
      have stopped : mode.isActive = false := by
        rw [isActive_of_some current, decide_eq_false other]
      rw [stopped, inactive stopped]

theorem isActive_createGoal {input : CreateGoalInput} {randomUUID : String}
    {snapshot : Option GoalSnapshot}
    (created : (mode.createGoal input randomUUID clock).1 = .ok snapshot) :
    (mode.createGoal input randomUUID clock).2.isActive = true := by
  revert created
  unfold createGoal
  dsimp only
  split
  · exact nofun
  split
  · exact nofun
  split
  · exact nofun
  · exact fun _ => rfl

theorem createGoal_error {input : CreateGoalInput} {randomUUID : String} {error : GoalError}
    (thrown : (mode.createGoal input randomUUID clock).1 = .error error) :
    (mode.createGoal input randomUUID clock).2 = mode := by
  revert thrown
  unfold createGoal
  dsimp only
  split
  · exact fun _ => rfl
  split
  · exact fun _ => rfl
  split
  · exact fun _ => rfl
  · exact nofun

variable {reason : Option String} {actor : GoalActor}

theorem isActive_pauseGoal :
    (mode.pauseGoal reason actor clock).2.isActive = false := by
  refine requireState_cases (·.2.isActive = false) isActive_of_none fun state current => ?_
  split
  case isTrue paused =>
    rw [isActive_of_some current, paused]
    rfl
  split
  case isTrue other => rw [isActive_of_some current, decide_eq_false other]
  case isFalse => rfl

theorem isActive_pauseActiveGoal :
    (mode.pauseActiveGoal reason actor clock).2.isActive = false :=
  isActive_whenActive (fun _ _ _ => rfl) fun _ => rfl

theorem isActive_markBlocked :
    (mode.markBlocked reason actor clock).2.isActive = false :=
  isActive_whenActive (fun _ _ _ => rfl) fun _ => rfl

theorem isActive_markComplete :
    (mode.markComplete reason actor clock).2.isActive = false :=
  isActive_whenActive (fun _ _ _ => isActive_clearInternal) fun _ => rfl

theorem isActive_cancelGoal : (mode.cancelGoal clock).2.isActive = false :=
  requireState_cases (·.2.isActive = false) isActive_of_none fun _ _ => isActive_clearInternal

theorem isActive_resumeGoal :
    (mode.resumeGoal reason actor clock).2.isActive =
      mode.state.any (fun state => state.status ≠ .complete) := by
  refine requireState_cases
    (fun result => result.2.isActive = mode.state.any fun state => state.status ≠ .complete)
    (fun absent => ?_) fun state current => ?_
  · rw [isActive_of_none absent, absent]
    rfl
  · rw [current]
    cases status : state.status with
    | active => simp [status, isActive_of_some current]
    | complete => simp [status, isActive_of_some current]
    | paused | blocked =>
      simp [status, changeStatus, isActive, appendStatusUpdate, appendGoalUpdate, logRecord,
        persistState]

theorem isActive_counting (mode : GoalMode) (clock : GoalClock) :
    (∀ limits, (mode.setBudgetLimits limits clock).2.isActive = mode.isActive) ∧
      (∀ delta, (mode.recordTokenUsage delta clock).2.isActive = mode.isActive) ∧
      (mode.incrementTurn clock).2.isActive = mode.isActive := by
  have kept {state state' : GoalState} {update : GoalUpdate} (current : mode.state = some state)
      (same : state'.status = state.status) :
      ((mode.persistState (some state')).appendGoalUpdate update).isActive = mode.isActive := by
    rw [isActive_of_some current, ← same]
    rfl
  refine ⟨fun limits => ?_, fun delta => ?_, ?_⟩
  · exact requireState_cases (·.2.isActive = mode.isActive) (fun _ => rfl)
      fun state current => kept current rfl
  · exact isActive_whenActive (fun state current _ => kept current rfl) id
  · exact isActive_whenActive (fun state current _ => kept current rfl) id

theorem isActive_normalizeAfterReplay : (mode.normalizeAfterReplay clock).isActive = false := by
  unfold normalizeAfterReplay
  split
  case h_1 absent => exact isActive_of_none absent
  case h_2 state current =>
    dsimp only
    split
    case h_1 => exact isActive_clearInternal
    case h_2 => rfl
    case h_3 paused => simp [isActive, persistState, paused]
    case h_4 blocked => simp [isActive, persistState, blocked]

end GoalMode

/-! ## The flag after a step -/

namespace RegisteredGoal

variable {agent : RegisteredGoal} {clock : GoalClock}

theorem tracks_silent {call : GoalCall}
    (same : (agent.goal.call clock call).2.isActive = agent.goal.isActive) :
    (agent.silent clock call).2.Tracks ↔ agent.Tracks := by
  change agent.hasActiveGoal = (agent.goal.call clock call).2.isActive ↔ _
  rw [same, Tracks]

theorem tracks_stopping {call : GoalCall} (tracks : agent.Tracks)
    (stopped : (agent.goal.call clock call).2.isActive = false) :
    (agent.stopping clock call).2.Tracks := by
  unfold stopping Tracks
  dsimp only
  split
  case isTrue => exact stopped.symm
  case isFalse inactive => exact (tracks.trans (Bool.eq_false_iff.2 inactive)).trans stopped.symm

theorem tracks_createGoal (tracks : agent.Tracks) (input : CreateGoalInput) (randomUUID : String) :
    (agent.createGoal input randomUUID clock).2.Tracks := by
  unfold createGoal Tracks
  split
  case h_1 error goal thrown =>
    have same := GoalMode.createGoal_error (congrArg Prod.fst thrown)
    rw [thrown] at same
    change agent.hasActiveGoal = goal.isActive
    rw [show goal = agent.goal from same, tracks]
  case h_2 snapshot goal created =>
    have active := GoalMode.isActive_createGoal (congrArg Prod.fst created)
    rw [created] at active
    exact active.symm

theorem tracks_resumeGoal (tracks : agent.Tracks) (reason : Option String) (actor : GoalActor) :
    (agent.silent clock (.resumeGoal reason actor)).2.Tracks ↔
      agent.Reported (.call clock (.resumeGoal reason actor)) := by
  change agent.hasActiveGoal = (agent.goal.resumeGoal reason actor clock).2.isActive ↔ _
  rw [GoalMode.isActive_resumeGoal, tracks, GoalMode.isActive, Reported]
  cases agent.goal.state with
  | none => simp
  | some state => cases status : state.status <;> simp [status]

theorem tracks_cancelGoal (tracks : agent.Tracks) :
    (agent.silent clock .cancelGoal).2.Tracks ↔ agent.Reported (.call clock .cancelGoal) := by
  change agent.hasActiveGoal = (agent.goal.cancelGoal clock).2.isActive ↔ _
  rw [GoalMode.isActive_cancelGoal, tracks, Reported]

theorem tracks_call (tracks : agent.Tracks) (call : GoalCall) :
    (agent.call clock call).2.Tracks ↔ agent.Reported (.call clock call) := by
  obtain ⟨limits, usage, turn⟩ := agent.goal.isActive_counting clock
  have stopping {call : GoalCall} (stopped : (agent.goal.call clock call).2.isActive = false) :=
    tracks_stopping tracks stopped
  have silent {call : GoalCall}
      (same : (agent.goal.call clock call).2.isActive = agent.goal.isActive) :=
    (tracks_silent same).2 tracks
  unfold RegisteredGoal.call
  cases call with
  | createGoal input randomUUID =>
    exact iff_of_true (tracks_createGoal tracks input randomUUID) trivial
  | resumeGoal reason actor => exact tracks_resumeGoal tracks reason actor
  | cancelGoal => exact tracks_cancelGoal tracks
  | pauseGoal => exact iff_of_true (stopping GoalMode.isActive_pauseGoal) trivial
  | pauseActiveGoal =>
    exact iff_of_true (stopping GoalMode.isActive_pauseActiveGoal) trivial
  | markBlocked => exact iff_of_true (stopping GoalMode.isActive_markBlocked) trivial
  | markComplete => exact iff_of_true (stopping GoalMode.isActive_markComplete) trivial
  | setBudgetLimits budgetLimits => exact iff_of_true (silent (limits budgetLimits)) trivial
  | recordTokenUsage tokenDelta => exact iff_of_true (silent (usage tokenDelta)) trivial
  | incrementTurn => exact iff_of_true (silent turn) trivial

/-- From a state in which the flag is right, exactly the reported steps leave it right. -/
theorem tracks_step {agent' : RegisteredGoal} {label : Label} (tracks : agent.Tracks)
    (next : agent.step label = some agent') : agent'.Tracks ↔ agent.Reported label := by
  cases label with
  | call clock call =>
    rw [← Option.some.inj next]
    exact tracks_call tracks call
  | resume =>
    rw [← Option.some.inj next]
    exact iff_of_true GoalMode.isActive_normalizeAfterReplay.symm trivial

open Transition

/-- After every run of reported steps the flag says whether there is an active goal, and a further
step keeps this exactly when it is a reported one. -/
theorem hasActiveGoal_iff {labels : List Label} {agent : RegisteredGoal}
    (run : Run step Reported {} labels agent) :
    (agent.hasActiveGoal = true ↔ ∃ state ∈ agent.goal.state, state.status = .active) ∧
      ∀ label agent', agent.step label = some agent' →
        ((agent'.hasActiveGoal = true ↔ ∃ state ∈ agent'.goal.state, state.status = .active) ↔
          agent.Reported label) := by
  have reads (agent : RegisteredGoal) : agent.Tracks ↔
      (agent.hasActiveGoal = true ↔ ∃ state ∈ agent.goal.state, state.status = .active) := by
    rw [Tracks, Bool.eq_iff_iff, GoalMode.isActive, Option.any_eq_true]
    simp only [decide_eq_true_eq, Option.mem_def]
  have tracks : agent.Tracks :=
    run.invariant Tracks rfl fun _ _ _ tracks reported next => (tracks_step tracks next).2 reported
  refine ⟨(reads agent).1 tracks, fun label agent' next => ?_⟩
  rw [← reads]
  exact tracks_step tracks next

/-- `/goal ship` in a fresh agent. -/
def shipped : List Label :=
  [.call ⟨0, 0, 0, 0⟩ (.createGoal { objective := "ship" } "g")]

theorem hasActiveGoal_iff_shipped :
    ∃ agent, Run step Reported {} shipped agent ∧
      (agent.hasActiveGoal = true ↔ ∃ state ∈ agent.goal.state, state.status = .active) :=
  have run : Run step Reported {} shipped _ := .snoc .nil trivial rfl
  ⟨_, run, (hasActiveGoal_iff run).1⟩

/-- A goal that is paused and resumed is active, and the registry does not know. -/
theorem hasActiveGoal_resumed :
    ¬∀ labels agent, Run step Always {} labels agent →
      (agent.hasActiveGoal = true ↔ ∃ state ∈ agent.goal.state, state.status = .active) := by
  intro always
  have run : Run step Always {}
      (shipped ++ [.call ⟨0, 0, 0, 0⟩ (.pauseGoal none .user)] ++
        [.call ⟨0, 0, 0, 0⟩ (.resumeGoal none .user)]) _ :=
    .snoc (.snoc (.snoc .nil trivial rfl) trivial rfl) trivial rfl
  exact absurd ((always _ _ run).2 ⟨_, rfl, rfl⟩) (by decide)

end RegisteredGoal

end KimiCli
