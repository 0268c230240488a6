import KimiCli.Goal.Mode

/-!
# A resumed goal is the live goal

Each operation logs only what it changed, so the goal that a resumed agent restores is compared
with the live one after every sequence of operations and resumes.
-/

namespace KimiCli

/-! ## Sequences of operations -/

inductive GoalLabel
  | call (clock : GoalClock) (call : GoalCall)
  | resume (clock : GoalClock)

/-- The live goal, with the live total at the last logged status change. -/
structure GoalTrace where
  mode : GoalMode := {}
  total : ℤ := 0

/-- The total after one logged record: a created goal starts at zero, a status change has the
total that `state`, the goal after it, shows at the reading `now`. -/
def totalAtRecord (state : Option GoalState) (now total : ℤ) : GoalRecord → ℤ
  | .create .. => 0
  | .update record =>
    if record.status.isSome then state.elim total (·.liveWallClockMs now) else total
  | .clear => total

namespace GoalTrace

def step (trace : GoalTrace) (label : GoalLabel) : GoalTrace :=
  let (clock, mode) :=
    match label with
    | .call clock call => (clock, (trace.mode.call clock call).2)
    | .resume clock => (clock, trace.mode.resume clock)
  { mode
    total := (mode.log.drop trace.mode.log.length).foldl
      (totalAtRecord mode.state clock.logged) trace.total }

/-- A fresh agent after these labels. -/
def run (labels : List GoalLabel) : GoalTrace := labels.foldl step {}

end GoalTrace

/-! ## What an operation changes -/

namespace GoalState

/-- What the records keep of a goal: the total at the last status change, and no open interval. -/
def durable (total : ℤ) (state : GoalState) : GoalState :=
  { state with wallClockMs := total, wallClockResumedAt := none }

/-- The goal that a new process goes on with. -/
def afterResume (total : ℤ) (state : GoalState) : GoalState :=
  if state.status = .active then
    { state.durable total with status := .paused, terminalReason := some resumeReason }
  else state.durable total

variable {state : GoalState} {status : GoalStatus}

@[simp] theorem applyStatus_status (now : ℤ) : (state.applyStatus status now).status = status := rfl

theorem applyStatus_eq (status : GoalStatus) (now : ℤ) : ∃ wallClockMs wallClockResumedAt,
    state.applyStatus status now = { state with status, wallClockMs, wallClockResumedAt } := by
  unfold applyStatus
  split <;> exact ⟨_, _, rfl⟩

theorem liveWallClockMs_of_ne (stopped : state.status ≠ .active) (now : ℤ) :
    state.liveWallClockMs now = state.wallClockMs := by
  unfold liveWallClockMs
  split
  · contradiction
  · rfl

theorem durable_restoreUpdate {terminalReason : Option String} {actor : GoalActor}
    {reason : Option String} (total applied now : ℤ)
    (agree : terminalReason = if status = .active then none else reason) :
    let state' := { state.applyStatus status applied with terminalReason }
    (state.durable total).restoreUpdate
        { status := some status, reason, wallClockMs := some (state'.liveWallClockMs now)
          actor := some actor } =
      state'.durable (state'.liveWallClockMs now) := by
  obtain ⟨wallClockMs, wallClockResumedAt, eq⟩ := state.applyStatus_eq status applied
  rw [eq, agree]
  rfl

end GoalState

namespace GoalMode

/-- What one operation or resume can do to a goal. -/
inductive Effect (now : ℤ) (mode : GoalMode) : GoalMode → Prop
  | skip : Effect now mode mode
  | cleared (before : List GoalRecord) :
      Effect now mode { state := none, log := mode.log ++ (before ++ [.clear]) }
  | created (before : List GoalRecord) (state : GoalState) (running : state.status = .active)
      (restored : restoreGoalRecord none
        (.create state.goalId state.objective state.completionCriterion) =
          some (state.durable 0)) :
      Effect now mode
        { state := some state
          log := mode.log ++
            (before ++ [.create state.goalId state.objective state.completionCriterion]) }
  | updated (state state' : GoalState) (record : GoalUpdate) (current : mode.state = some state)
      (status : state.status ≠ .complete → state'.status ≠ .complete)
      (restored : ∀ total, (state.durable total).restoreUpdate record =
        state'.durable (totalAtRecord (some state') now total (.update record))) :
      Effect now mode { state := some state', log := mode.log ++ [.update record] }

variable {mode : GoalMode} {state : GoalState} {clock : GoalClock}

theorem clearInternal_eq (current : mode.state = some state) :
    mode.clearInternal = { state := none, log := mode.log ++ [.clear] } := by
  rw [clearInternal, current]
  rfl

theorem effect_clearInternal {now : ℤ} : Effect now mode mode.clearInternal := by
  cases current : mode.state with
  | none =>
    rw [clearInternal, current]
    exact .skip
  | some =>
    rw [clearInternal_eq current]
    exact .cleared []

theorem effect_changeStatus {status : GoalStatus} {terminalReason reason : Option String}
    {actor : GoalActor} (current : mode.state = some state) (lasting : status ≠ .complete)
    (agree : terminalReason = if status = .active then none else reason) :
    Effect clock.logged mode
      (mode.changeStatus state status terminalReason actor reason clock).2 :=
  .updated state _ _ current (fun _ => lasting)
    fun total => GoalState.durable_restoreUpdate total _ _ agree

theorem effect_requireState {body : GoalState → GoalResult}
    (each : ∀ state, mode.state = some state → Effect clock.logged mode (body state).2) :
    Effect clock.logged mode (mode.requireState body).2 := by
  unfold requireState
  split
  case h_1 => exact .skip
  case h_2 state current => exact each state current

theorem effect_whenActive {body : GoalState → GoalResult}
    (each : ∀ state, mode.state = some state → Effect clock.logged mode (body state).2) :
    Effect clock.logged mode (mode.whenActive body).2 := by
  unfold whenActive
  split
  case h_1 => exact .skip
  case h_2 state current =>
    split
    · exact each state current
    · exact .skip

theorem effect_createGoal (input : CreateGoalInput) (randomUUID : String) :
    Effect clock.logged mode (mode.createGoal input randomUUID clock).2 := by
  unfold createGoal
  dsimp only
  split
  · exact .skip
  split
  · exact .skip
  split
  · exact .skip
  cases current : mode.state with
  | none =>
    rw [clearInternal, current]
    exact .created [] _ rfl rfl
  | some =>
    rw [clearInternal_eq current]
    simp only [persistState, logRecord, List.append_assoc]
    exact .created [.clear] _ rfl rfl

theorem effect_call (mode : GoalMode) (clock : GoalClock) (call : GoalCall) :
    Effect clock.logged mode (mode.call clock call).2 := by
  cases call with
  | createGoal input randomUUID => exact effect_createGoal input randomUUID
  | pauseGoal | resumeGoal =>
    refine effect_requireState fun state current => ?_
    split
    · exact .skip
    split
    · exact .skip
    · exact effect_changeStatus current (by decide) rfl
  | pauseActiveGoal | markBlocked =>
    exact effect_whenActive fun state current => effect_changeStatus current (by decide) rfl
  | setBudgetLimits =>
    exact effect_requireState fun state current =>
      .updated state _ _ current (fun lasting => lasting) fun _ => rfl
  | cancelGoal => exact effect_requireState fun _ _ => effect_clearInternal
  | markComplete =>
    refine effect_whenActive fun state current => ?_
    simp only [stop, changeStatus, appendStatusUpdate, appendGoalUpdate, logRecord, persistState,
      clearInternal, List.append_assoc]
    exact .cleared [_]
  | recordTokenUsage | incrementTurn =>
    exact effect_whenActive fun state current =>
      .updated state _ _ current (fun lasting => lasting) fun _ => rfl

end GoalMode

/-! ## The records follow the live goal -/

theorem restoreGoal_append (log records : List GoalRecord) :
    restoreGoal (log ++ records) = records.foldl restoreGoalRecord (restoreGoal log) :=
  List.foldl_append

namespace GoalState

/-- What the reconciliation after a restart logs. -/
def resumeRecords (total : ℤ) (state : GoalState) : List GoalRecord :=
  if state.status = .active then
    [.update
      { status := some .paused, reason := some resumeReason, wallClockMs := some total
        actor := some .runtime }]
  else []

variable {state : GoalState} {total : ℤ}

theorem afterResume_status : (state.afterResume total).status ≠ .active := by
  unfold afterResume
  split
  · exact nofun
  · assumption

theorem durable_afterResume :
    (state.afterResume total).durable total = state.afterResume total := by
  unfold afterResume
  split <;> rfl

theorem afterResume_of_ne (stopped : state.status ≠ .active) :
    state.afterResume total = state.durable total := if_neg stopped

theorem resumeRecords_of_ne (stopped : state.status ≠ .active) : state.resumeRecords total = [] :=
  if_neg stopped

end GoalState

namespace GoalTrace

/-- Restoring the records of a live goal gives what they keep of it. -/
structure Follows (trace : GoalTrace) : Prop where
  restored : restoreGoal trace.mode.log = trace.mode.state.map (·.durable trace.total)
  lasting : ∀ state ∈ trace.mode.state, state.status ≠ .complete

variable {trace : GoalTrace} {mode' : GoalMode} {now : ℤ}

/-- The total after the records by which `mode'` extends the log of the trace. -/
abbrev totalAfter (trace : GoalTrace) (mode' : GoalMode) (now : ℤ) : ℤ :=
  (mode'.log.drop trace.mode.log.length).foldl (totalAtRecord mode'.state now) trace.total

theorem Follows.effect (follows : trace.Follows) (effect : trace.mode.Effect now mode') :
    Follows { mode := mode', total := trace.totalAfter mode' now } := by
  cases effect with
  | skip =>
    rw [totalAfter, List.drop_length, List.foldl_nil]
    exact follows
  | cleared =>
    refine ⟨?_, fun _ mem => (Option.not_mem_none _ mem).elim⟩
    simp only [restoreGoal_append, List.foldl_append, List.foldl_cons, List.foldl_nil]
    rfl
  | created before state running restored =>
    refine ⟨?_, fun other mem => ?_⟩
    · simp only [totalAfter, restoreGoal_append, List.foldl_append, List.foldl_cons,
        List.foldl_nil, List.drop_left, totalAtRecord]
      exact restored
    · cases mem
      rw [running]
      exact nofun
  | updated state state' record current status restored =>
    refine ⟨?_, fun other mem => ?_⟩
    · simp only [totalAfter, restoreGoal_append, List.foldl_cons, List.foldl_nil, List.drop_left]
      rw [follows.restored, current]
      exact congrArg some (restored trace.total)
    · cases mem
      exact status (follows.lasting state current)

theorem Follows.resume_eq (follows : trace.Follows) (clock : GoalClock) :
    trace.mode.resume clock =
      { state := trace.mode.state.map (·.afterResume trace.total)
        log := trace.mode.log ++ trace.mode.state.elim [] (·.resumeRecords trace.total) } := by
  rw [GoalMode.resume, follows.restored]
  cases current : trace.mode.state with
  | none => simp [GoalMode.normalizeAfterReplay]
  | some state =>
    have lasting := follows.lasting state current
    cases status : state.status with
    | active =>
      simp [GoalMode.normalizeAfterReplay, GoalState.durable, GoalState.afterResume,
        GoalState.resumeRecords, GoalMode.changeStatus, GoalMode.persistState,
        GoalMode.appendStatusUpdate, GoalMode.appendGoalUpdate, GoalMode.logRecord,
        GoalState.applyStatus, GoalState.liveWallClockMs, status]
    | complete => exact absurd status lasting
    | paused | blocked =>
      simp [GoalMode.normalizeAfterReplay, GoalState.durable, GoalState.afterResume,
        GoalState.resumeRecords, GoalMode.persistState, status]

theorem Follows.resume (follows : trace.Follows) (clock : GoalClock) :
    Follows { mode := trace.mode.resume clock, total := trace.total } := by
  refine ⟨?_, ?_⟩ <;> rw [follows.resume_eq]
  · rw [restoreGoal_append, follows.restored]
    cases current : trace.mode.state with
    | none => rfl
    | some state =>
      simp only [Option.map_some, Option.elim_some, GoalState.durable_afterResume]
      by_cases active : state.status = .active
      · simp only [GoalState.resumeRecords, GoalState.afterResume, if_pos active]
        rfl
      · simp only [GoalState.resumeRecords, GoalState.afterResume, if_neg active]
        rfl
  · intro state' mem
    obtain ⟨state, current, rfl⟩ := Option.map_eq_some_iff.1 mem
    unfold GoalState.afterResume
    split
    · exact nofun
    · exact follows.lasting state current

theorem Follows.totalAfter_resume (follows : trace.Follows) (clock : GoalClock) :
    trace.totalAfter (trace.mode.resume clock) now = trace.total := by
  rw [totalAfter, follows.resume_eq, List.drop_left]
  cases trace.mode.state with
  | none => rfl
  | some state =>
    by_cases active : state.status = .active
    · simp only [Option.elim_some, GoalState.resumeRecords, if_pos active, List.foldl_cons,
        List.foldl_nil, Option.map_some, totalAtRecord, Option.isSome_some, if_true]
      rw [GoalState.liveWallClockMs_of_ne GoalState.afterResume_status, GoalState.afterResume,
        if_pos active]
      rfl
    · simp only [Option.elim_some, GoalState.resumeRecords, if_neg active, List.foldl_nil]

theorem Follows.step (follows : trace.Follows) (label : GoalLabel) :
    (trace.step label).Follows := by
  cases label with
  | call clock call => exact follows.effect (GoalMode.effect_call trace.mode clock call)
  | resume clock =>
    change Follows ⟨_, trace.totalAfter (trace.mode.resume clock) clock.logged⟩
    rw [follows.totalAfter_resume]
    exact follows.resume clock

theorem follows_run (labels : List GoalLabel) : (run labels).Follows :=
  List.foldlRecOn labels step ⟨rfl, fun _ mem => (Option.not_mem_none _ mem).elim⟩
    fun _ follows label _ => follows.step label

theorem Follows.resume_resume (follows : trace.Follows) (clock clock' : GoalClock) :
    (trace.mode.resume clock).resume clock' = trace.mode.resume clock := by
  have again := (follows.resume clock).resume_eq clock'
  rw [again, follows.resume_eq]
  cases trace.mode.state with
  | none => simp
  | some state =>
    have stopped : (state.afterResume trace.total).status ≠ .active :=
      GoalState.afterResume_status
    simp only [Option.map_some, Option.elim_some, GoalState.resumeRecords_of_ne stopped,
      GoalState.afterResume_of_ne stopped, GoalState.durable_afterResume, List.append_nil]

/-- However the goal was used, a new process restores the live goal, with an active one paused and
the total at the last logged status change, and further restarts change nothing. -/
theorem resume_run (labels : List GoalLabel) (clock : GoalClock) (later : List GoalClock) :
    ((run labels).mode.resume clock).state =
        (run labels).mode.state.map (·.afterResume (run labels).total) ∧
      later.foldl GoalMode.resume ((run labels).mode.resume clock) =
        (run labels).mode.resume clock := by
  have follows := follows_run labels
  refine ⟨by rw [follows.resume_eq], ?_⟩
  induction later with
  | nil => rfl
  | cons clock' later ih => rw [List.foldl_cons, follows.resume_resume, ih]

end GoalTrace

end KimiCli
