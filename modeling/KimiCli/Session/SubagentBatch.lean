import KimiCli.Kosong.Generate
import KimiCli.Lib.Run
import Mathlib.Algebra.Order.Monoid.WithTop
import Mathlib.Algebra.Order.Ring.WithTop

/-!
# Batches of subagents

`session/subagent-batch.ts` as a state machine.  The class runs on one thread, but the code it
calls (`launcher.spawn`, `resume`, `retry` and `suspended`, and the abort listeners of an attempt)
may report readiness or abort the batch before it returns.  So a machine state holds, beside the
batch, the stack of the methods that wait for such a call to return; a step is one event, handled up
to the next outside call or to the end of the handler.

A task state is identified with its index and an attempt with its number.  Errors are given by their
message.  The delays of `retry.createTimeout` are a parameter.
-/

namespace KimiCli

/-- A time or a delay in milliseconds; `⊤` is `Number.POSITIVE_INFINITY`. -/
abbrev Time := WithTop ℕ

def INITIAL_LAUNCH_LIMIT : ℕ := 5
def INITIAL_LAUNCH_INTERVAL_MS : ℕ := 700
def RATE_LIMIT_RETRY_BASE_MS : ℕ := 3000
def RATE_LIMIT_CAPACITY_SHRINK_INTERVAL_MS : ℕ := 2000
def RATE_LIMIT_CAPACITY_RECOVERY_INTERVAL_MS : ℕ := 3 * 60 * 1000

/-- The reason of an aborted signal. -/
inductive AbortReason
  /-- A `UserCancellationError`. -/
  | user
  | error (message : String)

def AbortReason.message : AbortReason → String
  | .user => "Aborted by the user"
  | .error message => message

def isUserCancellation : AbortReason → Bool
  | .user => true
  | .error _ => false

structure QueuedSubagentTask (T : Type) where
  data : T
  /-- Present for a task of kind `resume`. -/
  resumeAgentId : Option String := none
  timeout : Option ℕ := none
  /-- The identity of the task's abort signal. -/
  signal : Option ℕ := none

inductive SubagentStatus
  | completed | failed | aborted
  deriving DecidableEq

inductive SubagentState
  | started | not_started

structure SubagentResult (T : Type) where
  task : QueuedSubagentTask T
  agentId : Option String := none
  status : SubagentStatus
  state : Option SubagentState := none
  result : Option String := none
  usage : Option TokenUsage := none
  error : Option String := none

inductive AttemptOutcome (T : Type)
  | result (result : SubagentResult T)
  | rateLimited (agentId error : String)

structure TaskState where
  agentId : Option String := none
  retryAgentId : Option String := none
  retryCount : ℕ := 0
  retryReadyAt : Time := 0
  started : Bool := false

/-- How far `runAttempt` has come. -/
inductive AttemptPhase (T : Type)
  /-- It awaits the launcher's promise. -/
  | launching
  /-- It awaits `handle.completion`. -/
  | running (agentId : String)
  | resolved (outcome : AttemptOutcome T)
  | rejected (error : String)
  /-- The handler has been called with its outcome. -/
  | delivered

structure ActiveAttempt (T : Type) where
  state : ℕ
  /-- The reason with which `controller` has been aborted. -/
  abortReason : Option AbortReason
  ready : Bool := false
  timedOut : Bool := false
  phase : AttemptPhase T := .launching

inductive TimerKind
  | normalLaunch | rateLimitLaunch

/-- A launch timer that the event loop holds. -/
structure LaunchTimer where
  id : ℕ
  kind : TimerKind
  delay : ℕ

/-- A call of `resolve` or `reject`. -/
inductive Settlement (T : Type)
  | resolved (results : List (SubagentResult T))
  | rejected (reason : AbortReason)

structure SubagentBatch (T : Type) where
  tasks : List (QueuedSubagentTask T)
  maxConcurrency : Option ℤ
  states : ℕ → TaskState := fun _ => {}
  pending : List ℕ
  results : List (Option (SubagentResult T))
  /-- Every attempt made so far; `active` holds numbers of attempts. -/
  attempts : List (ActiveAttempt T) := []
  active : List ℕ := []
  /-- The reason with which `this.controller` has been aborted. -/
  abortReason : Option AbortReason := none
  /-- `batchAbortListener` is registered on the batch signal. -/
  listening : Bool := false
  normalLaunchCount : ℕ := 0
  normalLaunchTimer : Option ℕ := none
  rateLimitLaunchTimer : Option ℕ := none
  timers : List LaunchTimer := []
  nextTimerId : ℕ := 0
  settlements : List (Settlement T) := []
  finished : Bool := false
  started : Bool := false
  rateLimitMode : Bool := false
  startedSuccessCount : ℕ := 0
  rateLimitCapacity : ℕ := 1
  lastRateLimitAt : Option ℕ := none
  lastCapacityShrinkAt : Option ℕ := none
  lastCapacityRecoveryAt : Option ℕ := none
  globalRetryIntervalMs : Time := RATE_LIMIT_RETRY_BASE_MS
  nextRateLimitLaunchAt : Time := 0
  /-- The abort signals of the caller. -/
  signals : ℕ → Option AbortReason := fun _ => none

/-- The call of the launcher that `runAttempt` makes. -/
inductive LauncherCall
  | spawn
  | resume (agentId : String)
  | retry (agentId : String)

/-- Where `startAttempt` returns to. -/
inductive AfterStart
  | normalLoop
  | normalTimer
  | rateLimit (now : ℕ)

/-- A method that waits for an outside call to return. -/
inductive Frame
  | launcher (attempt : ℕ) (call : LauncherCall) (next : AfterStart)
  /-- `requeueRateLimited`, in `launcher.suspended`. -/
  | suspended (attempt : ℕ)
  /-- `batchAbortListener`, in the abort listeners of the attempts. -/
  | batchAbort (reason : AbortReason)

/-- How a piece of code ends: in an outside call, with the return of `schedule()`, or without a call
of `schedule()`. -/
inductive Exit
  | call (frame : Frame)
  | scheduled
  | done

namespace SubagentBatch

variable {T : Type}

/-- The constructor. -/
def new (tasks : List (QueuedSubagentTask T)) (maxConcurrency : Option ℤ) : SubagentBatch T where
  tasks := tasks
  maxConcurrency := maxConcurrency
  pending := List.range tasks.length
  results := List.replicate tasks.length none

/-- The signal of the first task that has one. -/
def batchSignal (s : SubagentBatch T) : Option ℕ := s.tasks.findSome? (·.signal)

def taskSignal (s : SubagentBatch T) (i : ℕ) : Option ℕ := (s.tasks[i]?).bind (·.signal)

def setState (s : SubagentBatch T) (i : ℕ) (f : TaskState → TaskState) : SubagentBatch T :=
  { s with states := Function.update s.states i (f (s.states i)) }

def modifyAttempt (s : SubagentBatch T) (a : ℕ) (f : ActiveAttempt T → ActiveAttempt T) :
    SubagentBatch T :=
  { s with attempts := s.attempts.modify a f }

/-- `attempt.controller.abort(reason)`; only the first call has an effect. -/
def ActiveAttempt.abort (reason : AbortReason) (attempt : ActiveAttempt T) : ActiveAttempt T :=
  { attempt with abortReason := attempt.abortReason.or (some reason) }

/-- Abort the active attempts whose task state satisfies `linked`. -/
def abortAttempts (s : SubagentBatch T) (linked : ℕ → Bool) (reason : AbortReason) :
    SubagentBatch T :=
  { s with attempts := s.attempts.mapIdx fun a attempt =>
      if a ∈ s.active ∧ linked attempt.state = true then ActiveAttempt.abort reason attempt
      else attempt }

/-! ### Finishing -/

def clearTimer (s : SubagentBatch T) : Option ℕ → SubagentBatch T
  | some id => { s with timers := s.timers.filter (·.id ≠ id) }
  | none => s

def clearNormalTimer (s : SubagentBatch T) : SubagentBatch T :=
  { s.clearTimer s.normalLaunchTimer with normalLaunchTimer := none }

def clearRateLimitTimer (s : SubagentBatch T) : SubagentBatch T :=
  { s.clearTimer s.rateLimitLaunchTimer with rateLimitLaunchTimer := none }

def cleanup (s : SubagentBatch T) : SubagentBatch T :=
  { s.clearNormalTimer.clearRateLimitTimer with listening := false, active := [] }

def finish (s : SubagentBatch T) (results : List (SubagentResult T)) : SubagentBatch T :=
  if s.finished then s
  else
    let s := cleanup { s with finished := true }
    { s with settlements := s.settlements ++ [.resolved results] }

def fail (s : SubagentBatch T) (reason : AbortReason) : SubagentBatch T :=
  if s.finished then s
  else
    let s := cleanup { s with finished := true }
    { s with settlements := s.settlements ++ [.rejected reason] }

/-- The results when every slot is filled. -/
def allResults (s : SubagentBatch T) : Option (List (SubagentResult T)) := s.results.mapM id

/-- The result of one task after a cancellation by the user. -/
def cancelledResult (s : SubagentBatch T) (i : ℕ) (task : QueuedSubagentTask T) :
    SubagentResult T :=
  match s.results[i]?.join with
  | some result => result
  | none =>
    if (s.states i).started || (s.states i).agentId.isSome then
      { task
        agentId := (s.states i).agentId
        status := .aborted
        state := some .started
        error := some
          "The user manually interrupted this subagent batch before this subagent finished." }
    else
      { task
        status := .aborted
        state := some .not_started
        error := some
          "The user manually interrupted this subagent batch before this subagent was started." }

def finishWithUserCancellation (s : SubagentBatch T) : SubagentBatch T :=
  if s.finished then s else s.finish (s.tasks.mapIdx fun i task => s.cancelledResult i task)

/-! ### Attempts -/

def attemptErrorMessage (s : SubagentBatch T) (attempt : ActiveAttempt T) (error : String)
    (status : SubagentStatus) : String :=
  if attempt.timedOut && ((s.tasks[attempt.state]?).bind (·.timeout)).isSome then
    "Subagent timed out."
  else if status = .aborted then "The user manually interrupted this subagent batch."
  else error

def failedAttemptOutcome (s : SubagentBatch T) (attempt : ActiveAttempt T)
    (task : QueuedSubagentTask T) (error : String) : SubagentResult T :=
  let status : SubagentStatus :=
    if attempt.abortReason.any isUserCancellation then .aborted else .failed
  let agentId := (s.states attempt.state).agentId
  { task
    agentId
    status
    state := some (if agentId = none then .not_started else .started)
    error := some (s.attemptErrorMessage attempt error status) }

/-- Which launcher method an attempt for task `i` calls. -/
def launcherCall (s : SubagentBatch T) (i : ℕ) : LauncherCall :=
  match (s.states i).retryAgentId with
  | some agentId => .retry agentId
  | none =>
    match (s.tasks[i]?).bind (·.resumeAgentId) with
    | some agentId => .resume agentId
    | none => .spawn

/-- `startAttempt`, with `runAttempt` up to its first `await`; `some` is a call of the launcher. -/
def startAttempt (s : SubagentBatch T) (i : ℕ) (next : AfterStart) :
    SubagentBatch T × Option Frame :=
  if s.finished || s.abortReason.isSome then (s, none)
  else
    let a := s.attempts.length
    let attempt : ActiveAttempt T :=
      { state := i, abortReason := s.abortReason.or ((s.taskSignal i).bind s.signals) }
    match attempt.abortReason, s.tasks[i]? with
    | some reason, some task =>
      let outcome := s.failedAttemptOutcome attempt task reason.message
      ({ s with
          attempts := s.attempts ++ [{ attempt with phase := .resolved (.result outcome) }]
          active := s.active ++ [a] }, none)
    | _, _ =>
      ({ s with attempts := s.attempts ++ [attempt], active := s.active ++ [a] },
        some (.launcher a (s.launcherCall i) next))

/-! ### Normal phase -/

def isAtConcurrencyLimit (s : SubagentBatch T) : Bool :=
  match s.maxConcurrency with
  | none => false
  | some maxConcurrency => maxConcurrency ≤ s.active.length

def setTimer (s : SubagentBatch T) (kind : TimerKind) (delay : ℕ) : SubagentBatch T :=
  { s with
    timers := s.timers ++ [{ id := s.nextTimerId, kind, delay }]
    nextTimerId := s.nextTimerId + 1 }

/-- `scheduleNormalLaunch` after its loop. -/
def armNormalTimer (s : SubagentBatch T) : SubagentBatch T :=
  if s.pending = [] ∨ s.rateLimitMode ∨ s.normalLaunchTimer ≠ none ∨ s.isAtConcurrencyLimit then s
  else
    { s.setTimer .normalLaunch INITIAL_LAUNCH_INTERVAL_MS with
      normalLaunchTimer := some s.nextTimerId }

/-- The loop of `scheduleNormalLaunch`; the list is `pending`. -/
def launchPending : List ℕ → SubagentBatch T → SubagentBatch T × Exit
  | [], s => (s.armNormalTimer, .scheduled)
  | i :: rest, s =>
    if s.normalLaunchCount < INITIAL_LAUNCH_LIMIT ∧ s.rateLimitMode = false ∧
        s.isAtConcurrencyLimit = false then
      match startAttempt { s with pending := rest } i .normalLoop with
      | (s, some frame) => (s, .call frame)
      | (s, none) => launchPending rest { s with normalLaunchCount := s.normalLaunchCount + 1 }
    else (s.armNormalTimer, .scheduled)

def scheduleNormalLaunch (s : SubagentBatch T) : SubagentBatch T × Exit :=
  launchPending s.pending s

/-! ### Rate-limit phase -/

def nextRateLimitCapacityRecoveryAt (s : SubagentBatch T) : Time :=
  match s.pending, s.lastRateLimitAt with
  | [], _ => ⊤
  | _, none => ⊤
  | _, some lastRateLimitAt =>
    ((max lastRateLimitAt (s.lastCapacityRecoveryAt.getD 0) +
      RATE_LIMIT_CAPACITY_RECOVERY_INTERVAL_MS : ℕ) : Time)

def nextPendingReadyAt (s : SubagentBatch T) : Time :=
  s.pending.foldl (fun nextAt i => min nextAt (s.states i).retryReadyAt) ⊤

def scheduleRateLimitWakeup (s : SubagentBatch T) (wakeupAt : Time) (now : ℕ) : SubagentBatch T :=
  match wakeupAt with
  | none => s
  | some wakeupAt =>
    if wakeupAt ≤ now then s
    else
      { s.setTimer .rateLimitLaunch (wakeupAt - now) with
        rateLimitLaunchTimer := some s.nextTimerId }

def recoverRateLimitCapacity (s : SubagentBatch T) (now : ℕ) : SubagentBatch T :=
  if s.nextRateLimitCapacityRecoveryAt > now then s
  else
    { s with
      rateLimitCapacity := s.rateLimitCapacity + 1
      lastCapacityRecoveryAt := some now
      nextRateLimitLaunchAt := min s.nextRateLimitLaunchAt now }

def scheduleNextRateLimitWakeup (s : SubagentBatch T) (now : ℕ) : SubagentBatch T :=
  if s.pending = [] then s
  else
    let nextWakeupAt :=
      if s.active.length ≥ s.rateLimitCapacity then s.nextRateLimitCapacityRecoveryAt
      else
        min (max s.nextRateLimitLaunchAt s.nextPendingReadyAt) s.nextRateLimitCapacityRecoveryAt
    s.scheduleRateLimitWakeup nextWakeupAt now

/-- `scheduleRateLimitLaunch` after `startAttempt`. -/
def afterRateLimitStart (s : SubagentBatch T) (now : ℕ) : SubagentBatch T :=
  scheduleNextRateLimitWakeup
    { s with nextRateLimitLaunchAt := (now : Time) + s.globalRetryIntervalMs } now

def eligible (s : SubagentBatch T) (now i : ℕ) : Bool := (s.states i).retryReadyAt ≤ now

/-- `scheduleRateLimitLaunch` when nothing forbids to launch the first eligible task now. -/
def launchEligible (s : SubagentBatch T) (now : ℕ) : SubagentBatch T × Exit :=
  match s.pending.find? (s.eligible now) with
  | none => (s, .scheduled)
  | some i =>
    match startAttempt { s with pending := s.pending.eraseP (s.eligible now) } i
        (.rateLimit now) with
    | (s, some frame) => (s, .call frame)
    | (s, none) => (s.afterRateLimitStart now, .scheduled)

/-- `scheduleRateLimitLaunch` once it is known that work is queued. -/
def launchOrWait (s : SubagentBatch T) (now : ℕ) : SubagentBatch T × Exit :=
  let s := s.recoverRateLimitCapacity now
  if s.active.length ≥ s.rateLimitCapacity then
    (s.scheduleRateLimitWakeup s.nextRateLimitCapacityRecoveryAt now, .scheduled)
  else
    let nextAllowedAt := max s.nextRateLimitLaunchAt s.nextPendingReadyAt
    let nextWakeupAt := min nextAllowedAt s.nextRateLimitCapacityRecoveryAt
    if nextWakeupAt > now then (s.scheduleRateLimitWakeup nextWakeupAt now, .scheduled)
    else s.launchEligible now

def scheduleRateLimitLaunch (s : SubagentBatch T) (now : ℕ) : SubagentBatch T × Exit :=
  let s := s.clearRateLimitTimer
  if s.pending = [] then (s, .scheduled) else s.launchOrWait now

def shrinkRateLimitCapacity (s : SubagentBatch T) (now : ℕ) (force : Bool) : SubagentBatch T :=
  if !force && s.lastCapacityShrinkAt.any fun shrunkAt =>
      (now : ℤ) - shrunkAt < RATE_LIMIT_CAPACITY_SHRINK_INTERVAL_MS then s
  else
    { s with
      rateLimitCapacity := max 1 (s.rateLimitCapacity - 1)
      lastCapacityShrinkAt := some now }

def enterRateLimitMode (s : SubagentBatch T) (now : ℕ) : SubagentBatch T :=
  if s.rateLimitMode then s.shrinkRateLimitCapacity now false
  else
    let s := clearNormalTimer { s with rateLimitMode := true }
    shrinkRateLimitCapacity
      { s with
        rateLimitCapacity := max 1 s.startedSuccessCount
        nextRateLimitLaunchAt := max s.nextRateLimitLaunchAt
          ((now + RATE_LIMIT_RETRY_BASE_MS : ℕ) : Time) } now true

/-! ### Scheduling and handlers -/

def schedule (s : SubagentBatch T) (now : ℕ) : SubagentBatch T × Exit :=
  if s.finished then (s, .scheduled)
  else
    match s.allResults with
    | some results => (s.finish results, .scheduled)
    | none =>
      if s.abortReason.isSome then (s, .scheduled)
      else if s.rateLimitMode then s.scheduleRateLimitLaunch now
      else s.scheduleNormalLaunch

/-- What follows `startAttempt` in the method that called it. -/
def afterStart (s : SubagentBatch T) (now : ℕ) : AfterStart → SubagentBatch T × Exit
  | .normalLoop =>
    let s := { s with normalLaunchCount := s.normalLaunchCount + 1 }
    launchPending s.pending s
  | .normalTimer => schedule { s with normalLaunchCount := s.normalLaunchCount + 1 } now
  | .rateLimit passNow => (s.afterRateLimitStart passNow, .scheduled)

/-- `batchAbortListener` up to the abort listeners of the attempts. -/
def batchAbortListener (s : SubagentBatch T) (reason : AbortReason) : SubagentBatch T × Exit :=
  (abortAttempts { s with abortReason := s.abortReason.or (some reason) } (fun _ => true) reason,
    .call (.batchAbort reason))

/-- `run`, called for the first time. -/
def run (s : SubagentBatch T) (now : ℕ) : SubagentBatch T × Exit :=
  let s := { s with started := true }
  if s.tasks.length = 0 then (s.finish [], .done)
  else
    match s.batchSignal.bind s.signals with
    | some reason => s.batchAbortListener reason
    | none => schedule { s with listening := s.batchSignal.isSome } now

/-- `markAttemptReady`; `later` is the reading of the clock in `schedule()`. -/
def markAttemptReady (s : SubagentBatch T) (a now later : ℕ) : SubagentBatch T × Exit :=
  match s.attempts[a]? with
  | none => (s, .done)
  | some attempt =>
    if s.finished ∨ attempt.ready ∨ a ∉ s.active then (s, .done)
    else
      let s := s.modifyAttempt a fun attempt => { attempt with ready := true }
      let s := s.setState attempt.state fun state => { state with started := true }
      if s.rateLimitMode then
        schedule
          { s with
            globalRetryIntervalMs := RATE_LIMIT_RETRY_BASE_MS
            nextRateLimitLaunchAt := ((now + RATE_LIMIT_RETRY_BASE_MS : ℕ) : Time) } later
      else ({ s with startedSuccessCount := s.startedSuccessCount + 1 }, .done)

/-- `releaseAttempt`, when the attempt is active. -/
def releaseAttempt (s : SubagentBatch T) (a : ℕ) : SubagentBatch T :=
  { s with active := s.active.erase a }

def isOnlyUnfinishedTask (s : SubagentBatch T) (i : ℕ) : Bool :=
  (List.range s.results.length).all fun j => j = i || (s.results[j]?.join).isSome

def setResult (s : SubagentBatch T) (i : ℕ) (result : SubagentResult T) : SubagentBatch T :=
  { s with results := s.results.set i (some result) }

/-- The result of the only unfinished task when it is rate limited. -/
def rateLimitedResult (task : QueuedSubagentTask T) (agentId error : String) :
    SubagentResult T where
  task := task
  agentId := some agentId
  status := .failed
  state := some .started
  error := some error

/-- The result of a task whose `runAttempt` has been rejected. -/
def rejectedResult (task : QueuedSubagentTask T) (agentId : Option String) (error : String) :
    SubagentResult T where
  task := task
  agentId := agentId
  status := .failed
  error := some error

/-- `handleAttemptOutcome`, up to `launcher.suspended` where the attempt is requeued. -/
def handleAttemptOutcome (s : SubagentBatch T) (a : ℕ) (attempt : ActiveAttempt T)
    (task : QueuedSubagentTask T) (outcome : AttemptOutcome T) (now : ℕ) :
    SubagentBatch T × Exit :=
  if a ∉ s.active then (s, .done)
  else
    let s := s.releaseAttempt a
    if s.finished then (s, .done)
    else
      match outcome with
      | .result result => schedule (s.setResult attempt.state result) now
      | .rateLimited agentId error =>
        if s.isOnlyUnfinishedTask attempt.state then
          schedule (s.setResult attempt.state (rateLimitedResult task agentId error)) now
        else
          (s.setState attempt.state fun state =>
              { state with agentId := some agentId, retryAgentId := some agentId },
            .call (.suspended a))

def handleAttemptError (s : SubagentBatch T) (a : ℕ) (attempt : ActiveAttempt T)
    (task : QueuedSubagentTask T) (error : String) (now : ℕ) : SubagentBatch T × Exit :=
  if a ∉ s.active then (s, .done)
  else
    let s := s.releaseAttempt a
    if s.finished then (s, .done)
    else
      let result := rejectedResult task (s.states attempt.state).agentId error
      schedule (s.setResult attempt.state result) now

/-- The end of `requeueRateLimited`. -/
def delayNextLaunch (s : SubagentBatch T) (ready : Bool) (retryDelay : Time) (now : ℕ) :
    SubagentBatch T :=
  if ready then
    { s with
      nextRateLimitLaunchAt := max s.nextRateLimitLaunchAt
        ((now + RATE_LIMIT_RETRY_BASE_MS : ℕ) : Time) }
  else
    let globalRetryIntervalMs := max (s.globalRetryIntervalMs * 2) retryDelay
    { s with
      globalRetryIntervalMs
      nextRateLimitLaunchAt := max s.nextRateLimitLaunchAt ((now : Time) + globalRetryIntervalMs) }

/-- `requeueRateLimited` after `launcher.suspended`. -/
def requeueRateLimited (createTimeout : ℕ → Time) (s : SubagentBatch T)
    (attempt : ActiveAttempt T) (now : ℕ) : SubagentBatch T :=
  let i := attempt.state
  let retryCount := (s.states i).retryCount + 1
  let retryDelay := createTimeout (retryCount - 1)
  let s := { s with lastRateLimitAt := some now }
  let s := s.setState i fun state =>
    { state with retryCount, retryReadyAt := (now : Time) + retryDelay }
  let s := enterRateLimitMode { s with pending := i :: s.pending } now
  s.delayNextLaunch attempt.ready retryDelay now

/-- The callback of the normal launch timer. -/
def normalTimerFired (s : SubagentBatch T) (now : ℕ) : SubagentBatch T × Exit :=
  let s := { s with normalLaunchTimer := none }
  match s.pending with
  | [] => (s, .done)
  | i :: rest =>
    if s.finished || s.rateLimitMode || s.isAtConcurrencyLimit then (s, .done)
    else
      match startAttempt { s with pending := rest } i .normalTimer with
      | (s, some frame) => (s, .call frame)
      | (s, none) => s.afterStart now .normalTimer

end SubagentBatch

/-! ### The machine -/

/-- What the promise of a launcher method settles with. -/
inductive LaunchResult
  | handle (agentId : String)
  | failed (error : String)
  /-- Something without an `agentId`; reading it throws outside the `try`. -/
  | malformed (error : String)

/-- What `handle.completion` settles with. -/
inductive Completion
  | success (result : String) (usage : Option TokenUsage)
  | rateLimited (error : String)
  | failed (error : String)

/-- The events of a batch; `now` and `later` are successive readings of the clock. -/
inductive BatchEvent
  | run (now : ℕ)
  /-- `onReady` of an attempt is called. -/
  | ready (attempt now later : ℕ)
  /-- An abort signal of the caller is aborted. -/
  | abort (signal : ℕ) (reason : AbortReason)
  /-- The outside call on top of the stack returns. -/
  | return (now later : ℕ)
  /-- The timeout of an attempt fires. -/
  | timeout (attempt : ℕ)
  | launched (attempt : ℕ) (result : LaunchResult)
  | completed (attempt : ℕ) (completion : Completion)
  /-- The outcome of `runAttempt` is handed to its handler. -/
  | deliver (attempt now : ℕ)
  | timer (id now : ℕ)

structure BatchMachine (T : Type) where
  batch : SubagentBatch T
  /-- The methods that wait for an outside call, innermost first. -/
  stack : List Frame := []
  /-- The last step has ended with the return of `schedule()`. -/
  scheduled : Bool := false

namespace BatchMachine

variable {T : Type}

def init (tasks : List (QueuedSubagentTask T)) (maxConcurrency : Option ℤ) : BatchMachine T where
  batch := .new tasks maxConcurrency

/-- The machine after a piece of code has ended, with the frames below it. -/
def resume (stack : List Frame) : SubagentBatch T × Exit → BatchMachine T
  | (batch, .call frame) => { batch, stack := frame :: stack }
  | (batch, .scheduled) => { batch, stack, scheduled := true }
  | (batch, .done) => { batch, stack }

/-- The state of an attempt and its task. -/
def lookup (m : BatchMachine T) (a : ℕ) : Option (ActiveAttempt T × QueuedSubagentTask T) :=
  (m.batch.attempts[a]?).bind fun attempt =>
    (m.batch.tasks[attempt.state]?).map fun task => (attempt, task)

/-- `runAttempt` continues with the promise of the launcher. -/
def launched (s : SubagentBatch T) (a : ℕ) (attempt : ActiveAttempt T)
    (task : QueuedSubagentTask T) : LaunchResult → SubagentBatch T
  | .handle agentId =>
    (s.setState attempt.state fun state => { state with agentId := some agentId }).modifyAttempt a
      fun attempt => { attempt with phase := .running agentId }
  | .failed error =>
    s.modifyAttempt a fun attempt' =>
      { attempt' with phase := .resolved (.result (s.failedAttemptOutcome attempt task error)) }
  | .malformed error => s.modifyAttempt a fun attempt => { attempt with phase := .rejected error }

/-- `runAttempt` continues with `handle.completion`. -/
def completed (s : SubagentBatch T) (a : ℕ) (attempt : ActiveAttempt T)
    (task : QueuedSubagentTask T) (agentId : String) (completion : Completion) :
    SubagentBatch T :=
  let outcome : AttemptOutcome T := match completion with
    | .success result usage =>
      .result { task, agentId := some agentId, status := .completed, result := some result, usage }
    | .rateLimited error => .rateLimited agentId (s.attemptErrorMessage attempt error .failed)
    | .failed error => .result (s.failedAttemptOutcome attempt task error)
  s.modifyAttempt a fun attempt => { attempt with phase := .resolved outcome }

/-- `runAttempt` has settled: call the handler that `startAttempt` has attached. -/
def deliver (m : BatchMachine T) (a : ℕ) (attempt : ActiveAttempt T)
    (task : QueuedSubagentTask T) (now : ℕ) : Option (BatchMachine T) :=
  let s := m.batch.modifyAttempt a fun attempt => { attempt with phase := .delivered }
  match attempt.phase with
  | .resolved outcome => some (resume [] (s.handleAttemptOutcome a attempt task outcome now))
  | .rejected error => some (resume [] (s.handleAttemptError a attempt task error now))
  | _ => none

/-- The outside call made by `frame` returns. -/
def returned (createTimeout : ℕ → Time) (s : SubagentBatch T) (now later : ℕ) :
    Frame → SubagentBatch T × Exit
  | .launcher _ _ next => s.afterStart later next
  | .suspended a =>
    match s.attempts[a]? with
    | none => (s, .done)
    | some attempt => (s.requeueRateLimited createTimeout attempt now).schedule later
  | .batchAbort reason =>
    if isUserCancellation reason then (s.finishWithUserCancellation, .done)
    else (s.fail reason, .done)

def abort (m : BatchMachine T) (signal : ℕ) (reason : AbortReason) : BatchMachine T :=
  if (m.batch.signals signal).isSome then { m with scheduled := false }
  else
    let s := { m.batch with signals := Function.update m.batch.signals signal (some reason) }
    if s.listening ∧ s.batchSignal = some signal then
      -- the listener of the batch has been registered before those of the attempts
      resume m.stack (s.batchAbortListener reason)
    else
      { m with
        batch := s.abortAttempts (fun i => s.taskSignal i = some signal) reason
        scheduled := false }

/-- One event.  Everything but a readiness report, an abort and a return needs an empty stack. -/
def step (createTimeout : ℕ → Time) (m : BatchMachine T) : BatchEvent → Option (BatchMachine T)
  | .run now =>
    -- a second call throws
    if m.batch.started then some { m with scheduled := false }
    else some (resume m.stack (m.batch.run now))
  | .ready a now later => some (resume m.stack (m.batch.markAttemptReady a now later))
  | .abort signal reason => some (m.abort signal reason)
  | .return now later =>
    match m.stack with
    | [] => none
    | frame :: stack => some (resume stack (returned createTimeout m.batch now later frame))
  | .timeout a =>
    match m.stack, m.lookup a with
    | [], some (attempt, task) =>
      if a ∈ m.batch.active ∧ task.timeout.isSome ∧ attempt.timedOut = false then
        some
          { m with
            batch := m.batch.modifyAttempt a fun attempt =>
              { SubagentBatch.ActiveAttempt.abort (.error "Aborted") attempt with timedOut := true }
            scheduled := false }
      else none
    | _, _ => none
  | .launched a result =>
    match m.stack, m.lookup a with
    | [], some (attempt, task) =>
      match attempt.phase with
      | .launching =>
        some { m with batch := launched m.batch a attempt task result, scheduled := false }
      | _ => none
    | _, _ => none
  | .completed a completion =>
    match m.stack, m.lookup a with
    | [], some (attempt, task) =>
      match attempt.phase with
      | .running agentId =>
        some
          { m with
            batch := completed m.batch a attempt task agentId completion
            scheduled := false }
      | _ => none
    | _, _ => none
  | .deliver a now =>
    match m.stack, m.lookup a with
    | [], some (attempt, task) => m.deliver a attempt task now
    | _, _ => none
  | .timer id now =>
    match m.stack, m.batch.timers.find? (·.id = id) with
    | [], some timer =>
      let s := { m.batch with timers := m.batch.timers.filter (·.id ≠ id) }
      some (resume [] (match timer.kind with
        | .normalLaunch => s.normalTimerFired now
        | .rateLimitLaunch => SubagentBatch.schedule { s with rateLimitLaunchTimer := none } now))
    | _, _ => none

end BatchMachine

end KimiCli
