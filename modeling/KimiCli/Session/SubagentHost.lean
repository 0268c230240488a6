import KimiCli.Js.Text
import KimiCli.Lib.OrderedMap
import KimiCli.Lib.Run
import Mathlib.Data.Finset.Card

/-!
# Statuses of subagents

`SessionSubagentHost` notes for each child whether its run is under way, has completed or has
failed.  The status becomes `running` after the start hook and `completed` or `failed` inside the
part that waits for the turn.  A retry never touches it, and a run that ends before the hook or
whose turn is refused leaves what was noted before.

As long as no run ends or starts in one of these ways the statuses follow the runs
(`statusLaw_of_tracked`).
-/

namespace KimiCli

namespace SessionSubagentHost

inductive SubagentStatus
  | running (startedAt : ℕ)
  | completed (startedAt completedAt : ℕ) (result : String)
  | failed (startedAt failedAt : ℕ) (error : String)

namespace SubagentStatus

def isRunning : SubagentStatus → Bool
  | running _ => true
  | _ => false

def isCompleted : SubagentStatus → Bool
  | completed .. => true
  | _ => false

def isFailed : SubagentStatus → Bool
  | failed .. => true
  | _ => false

end SubagentStatus

/-- The parts of `RunSubagentOptions` that a run's end depends on. -/
structure RunSubagentOptions where
  tokenBudget : Option ℕ := none
  timeBudgetMs : Option ℕ := none

/-! ## How a run ends -/

def SUMMARY_MIN_LENGTH : ℕ := 200

def SUMMARY_CONTINUATION_ATTEMPTS : ℕ := 1

def SUBAGENT_MAX_TOKENS_ERROR : String :=
  "Subagent turn failed before completing its final summary: reason=max_tokens"

inductive TurnEndReason
  | completed
  | cancelled
  | failed
  | filtered
  deriving DecidableEq

def TurnEndReason.name : TurnEndReason → String
  | completed => "completed"
  | cancelled => "cancelled"
  | failed => "failed"
  | filtered => "filtered"

structure TurnError where
  code : String
  message : String

/-- How a turn of the child ended; `maxTokens` is the stop reason `max_tokens`. -/
structure TurnEndResult where
  reason : TurnEndReason
  error : Option TurnError := none
  maxTokens : Bool := false

/-- Waits for the current turn; the wait itself is rejected when the run is aborted. -/
def runChildTurnToCompletion (ended : Except String TurnEndResult) : Except String Unit := do
  let ended ← ended
  if ended.reason ≠ .completed then
    if ended.reason = .filtered then throw "Subagent turn blocked by provider safety policy"
    match ended.error with
    | none => throw s!"Subagent turn {ended.reason.name}"
    | some error =>
      if error.code = "provider.rate_limit" then throw error.message
      throw s!"[{error.code}] {error.message}"
  if ended.maxTokens then throw s!"{SUBAGENT_MAX_TOKENS_ERROR}."

/-- `used` is what the child has used of its tokens, as far as that is known. -/
def checkBudgets (options : RunSubagentOptions) (used : Option ℕ) (startTime now : ℕ) :
    Except String Unit := do
  if let some tokenBudget := options.tokenBudget then
    if let some used := used then
      if tokenBudget ≤ used then
        throw s!"Subagent exceeded token budget ({used}/{tokenBudget})"
  if let some timeBudgetMs := options.timeBudgetMs then
    let elapsed := now - startTime
    if timeBudgetMs ≤ elapsed then
      let seconds := (elapsed + 500) / 1000
      let allowed := (timeBudgetMs + 500) / 1000
      throw s!"Subagent exceeded time budget ({seconds}s/{allowed}s)"

/-- Only a run with a start time has budgets. -/
def checkStartedBudgets (options : RunSubagentOptions) (used startTime : Option ℕ) (now : ℕ) :
    Except String Unit :=
  match startTime with
  | some startTime => checkBudgets options used startTime now
  | none => .ok ()

def throwIfAborted : Option String → Except String Unit
  | some reason => .error reason
  | none => .ok ()

inductive RunStage
  /-- Before the start hook has returned. -/
  | starting
  /-- The status is set; the work directory is being looked at. -/
  | preparing (startTime : ℕ)
  /-- A turn of the child is under way; a retry has no start time. -/
  | turn (startTime : Option ℕ) (remainingContinuations : ℕ)
  /-- The changes are being collected. -/
  | diff (startTime : Option ℕ) (result : String)
  | resolved (result : String)
  | rejected (error : String)

/-- What `waitForChildCompletion` does when a turn has ended: it asks for a longer summary, or it
collects the changes.  `aborted` is the reason why the run has been aborted. -/
def waitForChildCompletion (options : RunSubagentOptions) (startTime : Option ℕ)
    (remainingContinuations : ℕ) (ended : Except String TurnEndResult) (result : String)
    (aborted : Option String) (used : Option ℕ) (now : ℕ) : Except String RunStage := do
  runChildTurnToCompletion ended
  if 0 < remainingContinuations ∧ utf16Length result.toList < SUMMARY_MIN_LENGTH then
    throwIfAborted aborted
    checkStartedBudgets options used startTime now
    return .turn startTime (remainingContinuations - 1)
  else
    checkStartedBudgets options used startTime now
    return .diff startTime result

/-! ## The host -/

inductive RunKind
  /-- `spawn` and `resume`. -/
  | prompt
  | retry
  deriving DecidableEq

/-- A call that has found its child idle. -/
structure Admitted where
  child : String
  kind : RunKind
  options : RunSubagentOptions

structure Run where
  child : String
  kind : RunKind
  options : RunSubagentOptions
  stage : RunStage

namespace RunStage

def isInProgress : RunStage → Bool
  | resolved _ | rejected _ => false
  | _ => true

def isResolved : RunStage → Bool
  | resolved _ => true
  | _ => false

/-- The run has passed its start and has not settled. -/
def isPastStart : RunStage → Bool
  | preparing _ | turn .. | diff .. => true
  | _ => false

theorem isInProgress_of_isPastStart {stage : RunStage} (pastStart : stage.isPastStart = true) :
    stage.isInProgress = true := by
  cases stage with
  | starting | resolved | rejected => cases pastStart
  | preparing | turn | diff => rfl

end RunStage

end SessionSubagentHost

structure SessionSubagentHost where
  activeChildren : List String := []
  subagentStatuses : OrderedMap String SessionSubagentHost.SubagentStatus := ∅
  /-- Calls of `resume` and `retry` between the check that the child is idle and the run. -/
  admitted : List SessionSubagentHost.Admitted := []
  /-- The runs in the order in which they began. -/
  runs : List SessionSubagentHost.Run := []

namespace SessionSubagentHost

inductive Label
  /-- `createAgent` has made the child. -/
  | spawn (child : String) (options : RunSubagentOptions)
  /-- `ensureIdleSubagent` lets the call pass. -/
  | resume (child : String) (options : RunSubagentOptions)
  | retry (child : String) (options : RunSubagentOptions)
  /-- An admitted call goes on; a retry asks for its turn at once. -/
  | enter (j : ℕ) (aborted : Option String) (accepted : Bool)
  /-- The run is aborted or something throws before the start hook has returned. -/
  | fail (i : ℕ) (error : String)
  /-- The start hook has returned. -/
  | start (i : ℕ) (now : ℕ)
  /-- The child is asked for a turn. -/
  | launch (i : ℕ) (accepted : Bool)
  | turnEnded (i : ℕ) (ended : Except String TurnEndResult) (result : String)
    (aborted : Option String) (used : Option ℕ) (now : ℕ)
  /-- The changes are there; `thrown` is what a listener throws at the report. -/
  | report (i : ℕ) (now : ℕ) (thrown : Option String)

variable (host : SessionSubagentHost)

/-- Number of subagents that are still running (not completed or failed). -/
def getActiveCount : ℕ :=
  (host.subagentStatuses.entries.filter (·.2.isRunning)).length

def runWithActiveChild (run : Run) : SessionSubagentHost :=
  { host with
    activeChildren := run.child :: host.activeChildren.filter (· ≠ run.child)
    runs := host.runs ++ [run] }

def setStage (i : ℕ) (run : Run) (stage : RunStage) : SessionSubagentHost :=
  { host with runs := host.runs.set i { run with stage } }

/-- The `finally` of `runWithActiveChild`. -/
def settle (i : ℕ) (run : Run) (stage : RunStage) : SessionSubagentHost :=
  { host.setStage i run stage with
    activeChildren := host.activeChildren.filter (· ≠ run.child) }

def setStatus (child : String) (status : SubagentStatus) : SessionSubagentHost :=
  { host with subagentStatuses := host.subagentStatuses.set child status }

/-- The wait for the child has thrown; only a run with a start time notes that. -/
def rejectWait (i : ℕ) (run : Run) (startTime : Option ℕ) (now : ℕ) (error : String) :
    SessionSubagentHost :=
  match startTime with
  | some startTime =>
    (host.setStatus run.child (.failed startTime now error)).settle i run (.rejected error)
  | none => host.settle i run (.rejected error)

def enter (call : Admitted) (aborted : Option String) (accepted : Bool) : SessionSubagentHost :=
  let begun := fun stage => host.runWithActiveChild ⟨call.child, call.kind, call.options, stage⟩
  let refused := fun error => (begun .starting).settle host.runs.length
    ⟨call.child, call.kind, call.options, .starting⟩ (.rejected error)
  match call.kind with
  | .prompt => begun .starting
  | .retry => match aborted with
    | some reason => refused reason
    | none =>
      if accepted then begun (.turn none SUMMARY_CONTINUATION_ATTEMPTS)
      else refused s!"Agent instance \"{call.child}\" could not start a retry turn"

def step : Label → Option SessionSubagentHost
  | .spawn child options =>
    if ∀ run ∈ host.runs, run.child ≠ child then
      some (host.runWithActiveChild ⟨child, .prompt, options, .starting⟩)
    else none
  | .resume child options =>
    if child ∈ host.activeChildren then none
    else some { host with admitted := host.admitted ++ [⟨child, .prompt, options⟩] }
  | .retry child options =>
    if child ∈ host.activeChildren then none
    else some { host with admitted := host.admitted ++ [⟨child, .retry, options⟩] }
  | .enter j aborted accepted => match host.admitted[j]? with
    | some call =>
      some ({ host with admitted := host.admitted.eraseIdx j }.enter call aborted accepted)
    | none => none
  | .fail i error => match host.runs[i]? with
    | some run@⟨_, _, _, .starting⟩ => some (host.settle i run (.rejected error))
    | _ => none
  | .start i now => match host.runs[i]? with
    | some run@⟨child, _, _, .starting⟩ =>
      some ((host.setStatus child (.running now)).setStage i run (.preparing now))
    | _ => none
  | .launch i accepted => match host.runs[i]? with
    | some run@⟨child, _, _, .preparing startTime⟩ =>
      if accepted then
        some (host.setStage i run (.turn (some startTime) SUMMARY_CONTINUATION_ATTEMPTS))
      else some (host.settle i run
        (.rejected s!"Agent instance \"{child}\" could not start a turn"))
    | _ => none
  | .turnEnded i ended result aborted used now => match host.runs[i]? with
    | some run@⟨_, _, options, .turn startTime remainingContinuations⟩ =>
      match waitForChildCompletion options startTime remainingContinuations ended result aborted
        used now with
      | .ok stage => some (host.setStage i run stage)
      | .error error => some (host.rejectWait i run startTime now error)
    | _ => none
  | .report i now thrown => match host.runs[i]? with
    | some run@⟨child, _, _, .diff startTime result⟩ =>
      let noted := match startTime with
        | some startTime => host.setStatus child (.completed startTime now result)
        | none => host
      match thrown with
      | none => some (noted.settle i run (.resolved result))
      | some error => some (noted.rejectWait i run startTime now error)
    | _ => none

/-! ## The law -/

/-- The run of a child that began last. -/
def latestRun (child : String) : Option Run :=
  (host.runs.filter (·.child = child)).getLast?

def status (child : String) : Option SubagentStatus := host.subagentStatuses.get child

/-- The children with a run that has passed its start and has not settled. -/
def runningChildren : Finset String :=
  ((host.runs.filter (·.stage.isPastStart)).map (·.child)).toFinset

structure StatusLaw : Prop where
  running : ∀ run ∈ host.runs, run.stage.isPastStart = true →
    (host.status run.child).any (·.isRunning) = true
  resolved : ∀ child run result, host.latestRun child = some run →
    run.stage = .resolved result → (host.status child).any (·.isCompleted) = true
  rejected : ∀ child run error, host.latestRun child = some run →
    run.stage = .rejected error → (host.status child).any (·.isFailed) = true
  count : host.getActiveCount = host.runningChildren.card

/-- No run begins while another run of the child is active, no retry gets its turn, and no run
ends outside the wait for its turn unless the status is `failed` already. -/
def Tracked : Label → Prop
  | .enter j aborted accepted => ∀ call ∈ host.admitted[j]?,
    call.child ∉ host.activeChildren ∧
      (call.kind = .retry → (aborted.isSome ∨ accepted = false) ∧
        (host.status call.child).any (·.isFailed) = true)
  | .fail i _ => ∀ run ∈ host.runs[i]?, (host.status run.child).any (·.isFailed) = true
  | .launch _ accepted => accepted = true
  | _ => True

instance : ∀ label, Decidable (host.Tracked label)
  | .enter j _ _ => inferInstanceAs (Decidable (∀ call ∈ host.admitted[j]?, _ ∧ (_ → _ ∧ _)))
  | .fail i _ => inferInstanceAs (Decidable (∀ run ∈ host.runs[i]?, _ = true))
  | .launch _ accepted => inferInstanceAs (Decidable (accepted = true))
  | .spawn .. | .resume .. | .retry .. | .start .. | .turnEnded .. | .report .. =>
    inferInstanceAs (Decidable True)

variable {host} {host' : SessionSubagentHost} {run : Run} {stage : RunStage} {i : ℕ}

/-! ## The latest run of a child -/

theorem latestRun_append (run : Run) (child : String) {front back : List Run}
    (other : ∀ r ∈ back, r.child ≠ run.child) (runs : host.runs = front ++ run :: back) :
    host.latestRun child =
      if child = run.child then some run
      else ((front ++ back).filter (·.child = child)).getLast? := by
  rw [latestRun, runs, List.filter_append, List.filter_cons]
  by_cases own : run.child = child
  · have none : back.filter (·.child = child) = [] :=
      List.filter_eq_nil_iff.2 fun r mem => by simpa [own] using own ▸ other r mem
    rw [if_pos (decide_eq_true own), if_pos own.symm, none, List.getLast?_concat]
  · rw [if_neg (by simpa using own), if_neg (Ne.symm own), List.filter_append]

theorem runs_split (here : host.runs[i]? = some run) :
    ∃ front back, host.runs = front ++ run :: back ∧
      ∀ run', host.runs.set i run' = front ++ run' :: back := by
  obtain ⟨inside, rfl⟩ := List.getElem?_eq_some_iff.1 here
  refine ⟨host.runs.take i, host.runs.drop (i + 1), ?_, fun run' => ?_⟩
  · rw [List.getElem_cons_drop, List.take_append_drop]
  · rw [List.set_eq_take_append_cons_drop, if_pos inside]

/-- A run under way is the latest of its child. -/
def Alone (runs : List Run) : Prop :=
  runs.Pairwise fun earlier later =>
    earlier.stage.isInProgress = true → later.child ≠ earlier.child

theorem latestRun_of_inProgress (alone : Alone host.runs) (mem : run ∈ host.runs)
    (inProgress : run.stage.isInProgress = true) : host.latestRun run.child = some run := by
  obtain ⟨front, back, runs⟩ := List.append_of_mem mem
  rw [Alone, runs, List.pairwise_append, List.pairwise_cons] at alone
  rw [latestRun_append run _ (fun r later => alone.2.1.1 r later inProgress) runs, if_pos rfl]

/-! ## What holds between the steps -/

/-- What a child's latest run, its status and its place in `activeChildren` say of each other. -/
def Fits (active : Prop) (status : Option SubagentStatus) : Option Run → Prop
  | none => ¬active ∧ status = none
  | some run => match run.stage with
    | .starting => active ∧ status.any (·.isRunning) = false
    | .preparing _ | .turn (some _) _ | .diff (some _) _ =>
      active ∧ status.any (·.isRunning) = true
    | .turn none _ | .diff none _ => False
    | .resolved _ => ¬active ∧ status.any (·.isCompleted) = true
    | .rejected _ => ¬active ∧ status.any (·.isFailed) = true

section Fits

variable {active : Prop} {status : Option SubagentStatus} {latest : Option Run}

theorem Fits.active_of_inProgress (fits : Fits active status (some run))
    (inProgress : run.stage.isInProgress = true) : active := by
  obtain ⟨child, kind, options, stage⟩ := run
  rcases stage with _ | _ | ⟨_ | _, _⟩ | ⟨_ | _, _⟩ | _ | _
  case resolved | rejected => cases inProgress
  case turn.none | diff.none => exact fits.elim
  all_goals exact fits.1

theorem Fits.running_of_pastStart (fits : Fits active status (some run))
    (pastStart : run.stage.isPastStart = true) : status.any (·.isRunning) = true := by
  obtain ⟨child, kind, options, stage⟩ := run
  rcases stage with _ | _ | ⟨_ | _, _⟩ | ⟨_ | _, _⟩ | _ | _
  case starting | resolved | rejected => cases pastStart
  case turn.none | diff.none => exact fits.elim
  all_goals exact fits.2

/-- Only a run that has passed its start has the status `running`. -/
theorem Fits.exists_pastStart (fits : Fits active status latest)
    (running : status.any (·.isRunning) = true) :
    ∃ run, latest = some run ∧ run.stage.isPastStart = true := by
  have isRunning : ∃ t, status = some (.running t) := by
    obtain _ | (_ | _ | _) := status
    case some.running t => exact ⟨t, rfl⟩
    all_goals cases running
  obtain ⟨t, rfl⟩ := isRunning
  obtain _ | ⟨child, kind, options, stage⟩ := latest
  · cases fits.2
  · refine ⟨_, rfl, ?_⟩
    rcases stage with _ | _ | ⟨_ | _, _⟩ | ⟨_ | _, _⟩ | _ | _
    case starting | resolved | rejected => cases fits.2
    case turn.none | diff.none => exact fits.elim
    all_goals rfl

theorem Fits.not_running (fits : Fits active status latest) (idle : ¬active) :
    status.any (·.isRunning) = false := by
  by_contra running
  obtain ⟨run, rfl, pastStart⟩ := fits.exists_pastStart (Bool.eq_true_of_not_eq_false running)
  exact idle (fits.active_of_inProgress (RunStage.isInProgress_of_isPastStart pastStart))

end Fits

/-- As long as the steps are tracked. -/
structure Follows (host : SessionSubagentHost) : Prop where
  alone : Alone host.runs
  fits : ∀ child, Fits (child ∈ host.activeChildren) (host.status child) (host.latestRun child)

theorem follows_init : Follows {} where
  alone := .nil
  fits := fun _ => ⟨List.not_mem_nil, rfl⟩

theorem Follows.move (follows : Follows host) (stage : RunStage)
    (here : host.runs[i]? = some run) (inProgress : run.stage.isInProgress = true)
    (runs : host'.runs = host.runs.set i { run with stage })
    (active : ∀ c, c ≠ run.child → (c ∈ host'.activeChildren ↔ c ∈ host.activeChildren))
    (status : ∀ c, c ≠ run.child → host'.status c = host.status c)
    (fits : Fits (run.child ∈ host'.activeChildren) (host'.status run.child)
      (some { run with stage })) : Follows host' := by
  obtain ⟨front, back, before, after⟩ := runs_split here
  have alone := follows.alone
  rw [Alone, before, List.pairwise_append, List.pairwise_cons] at alone
  obtain ⟨first, ⟨later, rest⟩, cross⟩ := alone
  have other : ∀ r ∈ back, r.child ≠ run.child := fun r mem => later r mem inProgress
  rw [after] at runs
  constructor
  · rw [Alone, runs, List.pairwise_append, List.pairwise_cons]
    refine ⟨first, ⟨fun r mem _ => other r mem, rest⟩, fun a mem b mem' => ?_⟩
    obtain rfl | mem' := List.mem_cons.1 mem'
    · exact cross a mem run List.mem_cons_self
    · exact cross a mem b (.tail _ mem')
  · intro child
    rw [latestRun_append { run with stage } child other runs]
    by_cases own : child = run.child
    · rw [if_pos own, own]
      exact fits
    · rw [if_neg own, status child own, active child own]
      have old := latestRun_append run child other before
      rw [if_neg own] at old
      exact old ▸ follows.fits child

theorem Follows.begin (follows : Follows host) (run : Run)
    (idle : run.child ∉ host.activeChildren) (runs : host'.runs = host.runs ++ [run])
    (active : ∀ c, c ≠ run.child → (c ∈ host'.activeChildren ↔ c ∈ host.activeChildren))
    (status : ∀ c, host'.status c = host.status c)
    (fits : Fits (run.child ∈ host'.activeChildren) (host.status run.child) (some run)) :
    Follows host' := by
  constructor
  · rw [Alone, runs, List.pairwise_append]
    refine ⟨follows.alone, List.pairwise_singleton _ _, fun a mem b mem' inProgress same => ?_⟩
    obtain rfl := List.mem_singleton.1 mem'
    have latest := latestRun_of_inProgress follows.alone mem inProgress
    exact idle (same ▸ (latest ▸ follows.fits a.child).active_of_inProgress inProgress)
  · intro child
    rw [latestRun_append run child (fun _ mem => absurd mem List.not_mem_nil) runs, status]
    by_cases own : child = run.child
    · rw [if_pos own, own]
      exact fits
    · rw [if_neg own, active child own, List.append_nil]
      exact follows.fits child

/-! ## One step -/

theorem mem_filter_ne {children : List String} {c child : String} :
    c ∈ children.filter (· ≠ child) ↔ c ∈ children ∧ c ≠ child := by
  rw [List.mem_filter, decide_eq_true_iff]

theorem status_setStatus (child : String) (status : SubagentStatus) (c : String) :
    (host.setStatus child status).status c =
      if c = child then some status else host.status c := by
  rw [SessionSubagentHost.status, setStatus]
  split
  case isTrue same => rw [same, OrderedMap.get_set_self]
  case isFalse other => rw [OrderedMap.get_set_ne _ _ other, SessionSubagentHost.status]

theorem bind_eq_ok {ε α β : Type} {x : Except ε α} {f : α → Except ε β} {b : β}
    (ok : (x >>= f) = .ok b) : ∃ a, x = .ok a ∧ f a = .ok b := by
  cases x with
  | error => cases ok
  | ok a => exact ⟨a, rfl, ok⟩

theorem waitForChildCompletion_ok {options : RunSubagentOptions} {startTime : Option ℕ}
    {remainingContinuations : ℕ} {ended : Except String TurnEndResult} {result : String}
    {aborted : Option String} {used : Option ℕ} {now : ℕ}
    (waited : waitForChildCompletion options startTime remainingContinuations ended result
      aborted used now = .ok stage) :
    (∃ remaining, stage = .turn startTime remaining) ∨ stage = .diff startTime result := by
  obtain ⟨_, -, rest⟩ := bind_eq_ok waited
  split at rest
  case isTrue =>
    obtain ⟨_, -, rest⟩ := bind_eq_ok rest
    obtain ⟨_, -, rest⟩ := bind_eq_ok rest
    exact .inl ⟨_, (Except.ok.inj rest).symm⟩
  case isFalse =>
    obtain ⟨_, -, rest⟩ := bind_eq_ok rest
    exact .inr (Except.ok.inj rest).symm

theorem Follows.settle (follows : Follows host) (here : host.runs[i]? = some run)
    (inProgress : run.stage.isInProgress = true) (runs : host'.runs = host.runs)
    (active : host'.activeChildren = host.activeChildren)
    (status : ∀ c, c ≠ run.child → host'.status c = host.status c)
    (fits : Fits False (host'.status run.child) (some { run with stage })) :
    Follows (host'.settle i run stage) := by
  refine follows.move stage here inProgress ?_ (fun c other => ?_) status ?_
  · exact congrArg (·.set i { run with stage }) runs
  · exact mem_filter_ne.trans (active ▸ and_iff_left other)
  · have gone : run.child ∉ (host'.settle i run stage).activeChildren :=
      fun mem => (mem_filter_ne.1 mem).2 rfl
    rw [eq_false gone]
    exact fits

theorem Follows.fits_of_mem (follows : Follows host) (mem : run ∈ host.runs)
    (inProgress : run.stage.isInProgress = true) :
    Fits (run.child ∈ host.activeChildren) (host.status run.child) (some run) := by
  have fits := follows.fits run.child
  rwa [latestRun_of_inProgress follows.alone mem inProgress] at fits

theorem mem_runWithActiveChild {c : String} (other : c ≠ run.child) :
    c ∈ (host.runWithActiveChild run).activeChildren ↔ c ∈ host.activeChildren := by
  rw [runWithActiveChild, List.mem_cons, mem_filter_ne]
  exact ⟨fun mem => (mem.resolve_left other).1, fun mem => .inr ⟨mem, other⟩⟩

theorem Follows.spawn (follows : Follows host) (isNew : ∀ r ∈ host.runs, r.child ≠ run.child)
    (starting : run.stage = .starting) : Follows (host.runWithActiveChild run) := by
  have none : host.latestRun run.child = none := by
    rw [latestRun, List.filter_eq_nil_iff.2 fun r mem => by simpa using isNew r mem]
    rfl
  have fits := none ▸ follows.fits run.child
  refine follows.begin run fits.1 rfl (fun _ => mem_runWithActiveChild) (fun _ => rfl) ?_
  rw [Fits, starting, fits.2]
  exact ⟨List.mem_cons_self, rfl⟩

theorem Follows.enter (follows : Follows host) {call : Admitted} {aborted : Option String}
    {accepted : Bool} (idle : call.child ∉ host.activeChildren)
    (retry : call.kind = .retry → (aborted.isSome ∨ accepted = false) ∧
      (host.status call.child).any (·.isFailed) = true) :
    Follows (host.enter call aborted accepted) := by
  obtain ⟨child, kind, options⟩ := call
  cases kind with
  | prompt =>
    refine follows.begin ⟨child, .prompt, options, .starting⟩ idle rfl
      (fun _ => mem_runWithActiveChild) (fun _ => rfl) ?_
    exact ⟨List.mem_cons_self, (follows.fits child).not_running idle⟩
  | retry =>
    obtain ⟨refused, failed⟩ := retry rfl
    have ends (error : String) : Follows ((host.runWithActiveChild
        ⟨child, .retry, options, .starting⟩).settle host.runs.length
        ⟨child, .retry, options, .starting⟩ (.rejected error)) := by
      refine follows.begin ⟨child, .retry, options, .rejected error⟩ idle ?_
        (fun c other => ?_) (fun _ => rfl) ?_
      · rw [SessionSubagentHost.settle, setStage, runWithActiveChild, List.set_append_right _ _
          (Nat.le_refl _), Nat.sub_self, List.set_cons_zero]
      · exact mem_filter_ne.trans ((and_iff_left other).trans (mem_runWithActiveChild other))
      · exact ⟨fun mem => (mem_filter_ne.1 mem).2 rfl, failed⟩
    cases aborted with
    | some reason => exact ends reason
    | none =>
      obtain rfl := refused.resolve_left Bool.false_ne_true
      exact ends _

theorem Follows.rejectWait (follows : Follows host) (host' : SessionSubagentHost)
    (here : host.runs[i]? = some run) {startTime : ℕ}
    (waiting : (∃ n, run.stage = .turn (some startTime) n) ∨
      ∃ result, run.stage = .diff (some startTime) result)
    (runs : host'.runs = host.runs) (active : host'.activeChildren = host.activeChildren)
    (status : ∀ c, c ≠ run.child → host'.status c = host.status c) (now : ℕ) (error : String) :
    Follows (host'.rejectWait i run (some startTime) now error) := by
  have inProgress : run.stage.isInProgress = true := by
    obtain ⟨n, eq⟩ | ⟨result, eq⟩ := waiting <;> rw [eq] <;> rfl
  refine follows.settle here inProgress runs active (fun c other => ?_) ⟨not_false, ?_⟩
  · rw [status_setStatus, if_neg other, status c other]
  · rw [status_setStatus, if_pos rfl]
    rfl

theorem Follows.step {label : Label} (follows : Follows host) (tracked : host.Tracked label)
    (next : host.step label = some host') : Follows host' := by
  cases label with
  | spawn =>
    rw [SessionSubagentHost.step] at next
    split at next
    case isFalse => cases next
    case isTrue isNew =>
      cases next
      exact follows.spawn isNew rfl
  | resume child options | retry child options =>
    rw [SessionSubagentHost.step] at next
    split at next
    case isTrue => cases next
    case isFalse =>
      cases next
      exact ⟨follows.alone, follows.fits⟩
  | enter j =>
    rw [SessionSubagentHost.step] at next
    split at next
    case h_2 => cases next
    case h_1 call here =>
      cases next
      obtain ⟨idle, retry⟩ := tracked call here
      have rest : Follows { host with admitted := host.admitted.eraseIdx j } :=
        ⟨follows.alone, follows.fits⟩
      exact rest.enter idle retry
  | fail =>
    rw [SessionSubagentHost.step] at next
    split at next
    case h_2 => cases next
    case h_1 child kind options here =>
      cases next
      exact follows.settle here rfl rfl rfl (fun _ _ => rfl) ⟨not_false, tracked _ here⟩
  | start i now =>
    rw [SessionSubagentHost.step] at next
    split at next
    case h_2 => cases next
    case h_1 child kind options here =>
      cases next
      have fits := follows.fits_of_mem (List.mem_of_getElem? here) rfl
      refine follows.move (.preparing now) here rfl rfl (fun _ _ => Iff.rfl) (fun c other => ?_)
        ⟨fits.1, ?_⟩
      · exact (status_setStatus child _ c).trans (if_neg other)
      · change ((host.setStatus child _).status child).any _ = true
        rw [status_setStatus, if_pos rfl]
        rfl
  | launch i accepted =>
    rw [SessionSubagentHost.step] at next
    split at next
    case h_2 => cases next
    case h_1 child kind options startTime here =>
      rw [if_pos (show accepted = true from tracked)] at next
      cases next
      have fits := follows.fits_of_mem (List.mem_of_getElem? here) rfl
      exact follows.move (.turn (some startTime) _) here rfl rfl (fun _ _ => Iff.rfl)
        (fun _ _ => rfl) fits
  | turnEnded i ended result aborted used now =>
    rw [SessionSubagentHost.step] at next
    split at next
    case h_2 => cases next
    case h_1 child kind options startTime remaining here =>
      have fits := follows.fits_of_mem (List.mem_of_getElem? here) rfl
      cases startTime with
      | none => exact fits.elim
      | some =>
        split at next
        case h_1 stage waited =>
          cases next
          obtain ⟨n, rfl⟩ | rfl := waitForChildCompletion_ok waited <;>
            exact follows.move _ here rfl rfl (fun _ _ => Iff.rfl) (fun _ _ => rfl) fits
        case h_2 error waited =>
          cases next
          exact follows.rejectWait host here (.inl ⟨remaining, rfl⟩) rfl rfl (fun _ _ => rfl)
            now error
  | report i now thrown =>
    rw [SessionSubagentHost.step] at next
    split at next
    case h_2 => cases next
    case h_1 child kind options startTime result here =>
      have fits := follows.fits_of_mem (List.mem_of_getElem? here) rfl
      cases startTime with
      | none => exact fits.elim
      | some startTime =>
        have noted (c : String) (other : c ≠ child) :
            (host.setStatus child (.completed startTime now result)).status c = host.status c :=
          (status_setStatus child _ c).trans (if_neg other)
        cases thrown with
        | none =>
          cases next
          refine follows.settle here rfl rfl rfl noted ⟨not_false, ?_⟩
          rw [status_setStatus, if_pos rfl]
          rfl
        | some error =>
          cases next
          exact follows.rejectWait (host.setStatus child (.completed startTime now result)) here
            (.inr ⟨result, rfl⟩) rfl rfl noted now error

/-! ## Runs -/

theorem Follows.running (follows : Follows host) (mem : run ∈ host.runs)
    (pastStart : run.stage.isPastStart = true) :
    (host.status run.child).any (·.isRunning) = true :=
  (follows.fits_of_mem mem (RunStage.isInProgress_of_isPastStart pastStart)).running_of_pastStart
    pastStart

theorem Follows.count (follows : Follows host) :
    host.getActiveCount = host.runningChildren.card := by
  let running := host.subagentStatuses.entries.filter (·.2.isRunning)
  have nodup : (running.map Prod.fst).Nodup :=
    host.subagentStatuses.nodup.sublist (List.filter_sublist.map _)
  have same : host.runningChildren = (running.map Prod.fst).toFinset := by
    ext child
    have entry : child ∈ running.map Prod.fst ↔ (host.status child).any (·.isRunning) = true := by
      rw [List.mem_map, status]
      constructor
      · rintro ⟨⟨_, status⟩, mem, rfl⟩
        obtain ⟨mem, isRunning⟩ := List.mem_filter.1 mem
        rw [OrderedMap.mem_entries.1 mem]
        exact isRunning
      · intro isRunning
        obtain ⟨status, found, isRunning⟩ := (Option.any_eq_true _ _).1 isRunning
        exact ⟨(child, status), List.mem_filter.2 ⟨OrderedMap.mem_entries.2 found, isRunning⟩, rfl⟩
    rw [List.mem_toFinset, entry, runningChildren, List.mem_toFinset, List.mem_map]
    constructor
    · rintro ⟨run, mem, rfl⟩
      obtain ⟨mem, pastStart⟩ := List.mem_filter.1 mem
      exact follows.running mem pastStart
    · intro isRunning
      obtain ⟨run, latest, pastStart⟩ := (follows.fits child).exists_pastStart isRunning
      have mem := List.mem_of_getLast? latest
      obtain ⟨mem, own⟩ := List.mem_filter.1 mem
      exact ⟨run, List.mem_filter.2 ⟨mem, pastStart⟩, of_decide_eq_true own⟩
  rw [same, List.toFinset_card_of_nodup nodup, List.length_map]
  rfl

theorem Follows.statusLaw (follows : Follows host) : host.StatusLaw where
  running := fun _ mem pastStart => follows.running mem pastStart
  resolved := by
    intro child ⟨_, _, _, stage⟩ result latest ended
    obtain rfl : stage = .resolved result := ended
    exact (latest ▸ follows.fits child).2
  rejected := by
    intro child ⟨_, _, _, stage⟩ error latest ended
    obtain rfl : stage = .rejected error := ended
    exact (latest ▸ follows.fits child).2
  count := follows.count

/-- In a run whose steps are all tracked the statuses follow the runs. -/
theorem statusLaw_of_tracked {labels : List Label} {host : SessionSubagentHost}
    (run : Transition.Run step Tracked {} labels host) : host.StatusLaw :=
  (run.invariant Follows follows_init fun _ _ _ follows tracked next =>
    follows.step tracked next).statusLaw

/-- The first summary is too short, so that the child is asked for another one. -/
def summarizedTwice : List Label :=
  [.spawn "a" {}, .start 0 1, .launch 0 true,
    .turnEnded 0 (.ok { reason := .completed }) "done" none none 2,
    .turnEnded 0 (.ok { reason := .completed }) "all is done" none none 3, .report 0 4 none]

theorem statusLaw_summarizedTwice : ∃ host : SessionSubagentHost,
    Transition.Run step Tracked {} summarizedTwice host ∧
      (host.status "a").any (·.isCompleted) = true ∧ host.StatusLaw := by
  obtain ⟨host, ran, completed⟩ : ∃ host : SessionSubagentHost,
      Transition.exec (Transition.guarded step Tracked) {} summarizedTwice = some host ∧
        (host.status "a").any (·.isCompleted) = true :=
    Option.any_eq_true _ _ |>.1 (by decide +kernel)
  have run := Transition.Run.of_exec ran
  exact ⟨host, run, completed, statusLaw_of_tracked run⟩

/-- A child whose turn ran into the rate limit is retried and completes. -/
def retriedAfterRateLimit : List Label :=
  [.spawn "a" {}, .start 0 1, .launch 0 true,
    .turnEnded 0 (.ok { reason := .failed, error := some ⟨"provider.rate_limit", "slow down"⟩ }) ""
      none none 2,
    .retry "a" {}, .enter 0 none true,
    .turnEnded 1 (.ok { reason := .completed }) "done" none none 3,
    .turnEnded 1 (.ok { reason := .completed }) "all is done" none none 4, .report 1 5 none]

/-- The retry has resolved, and the child is still reported as failed. -/
theorem retried_failed : ¬ ∀ (labels : List Label) (host : SessionSubagentHost),
    Transition.Run step Transition.Always {} labels host → host.StatusLaw := by
  intro law
  obtain ⟨host, ran, latest⟩ : ∃ host : SessionSubagentHost,
      Transition.exec (Transition.guarded step Transition.Always) {} retriedAfterRateLimit =
        some host ∧
      ((host.latestRun "a").any (fun run => run.stage.isResolved) &&
        !(host.status "a").any (·.isCompleted)) = true :=
    Option.any_eq_true _ _ |>.1 (by decide +kernel)
  obtain ⟨resolved, status⟩ := Bool.and_eq_true_iff.1 latest
  obtain ⟨⟨_, _, _, stage⟩, found, ended⟩ := (Option.any_eq_true _ _).1 resolved
  cases stage with
  | starting | preparing | turn | diff | rejected => cases ended
  | resolved result =>
    have completed := (law _ host (.of_exec ran)).resolved "a" _ result found rfl
    rw [completed] at status
    cases status

end SessionSubagentHost

end KimiCli
