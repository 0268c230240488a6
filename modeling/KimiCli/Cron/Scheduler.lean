import Mathlib.Algebra.Order.Ring.Rat
import Mathlib.Logic.Function.Basic
import KimiCli.Cron.Expression

/-!
# The cron scheduler

`tick` delivers what is due.  A recurring task is delivered a little later than its ideal time, by
an offset that depends on its id and on the period, and the runs that were missed while the agent
was busy are delivered as one.  The scheduler remembers for each task the last ideal run that it
has delivered.
-/

namespace KimiCli

open Calendar

structure CronTask where
  id : String
  cron : String
  createdAt : ℤ
  recurring : Option Bool := none
  lastFiredAt : Option ℤ := none

/-- The zone of the host in milliseconds, and `KIMI_CRON_NO_JITTER`. -/
structure CronHost where
  zone : ℤ := 0
  noJitter : Bool := false

/-! ## Jitter -/

def isHexDigit (c : Char) : Bool :=
  c.isDigit || ('a' ≤ c && c ≤ 'f') || ('A' ≤ c && c ≤ 'F')

def hexValue (c : Char) : ℕ :=
  if c.isDigit then c.toNat - '0'.toNat
  else if 'a' ≤ c then c.toNat - 'a'.toNat + 10
  else c.toNat - 'A'.toNat + 10

/-- `Number.parseInt(id, 16)`. -/
def parseHex (cs : List Char) : ℕ := cs.foldl (fun n c => 16 * n + hexValue c) 0

/-- `((hash << 5) + hash + id.charCodeAt(i)) | 0` from 5381 on, read as an unsigned number. -/
def djb2 (units : List ℕ) : ℕ := units.foldl (fun hash unit => (33 * hash + unit) % 2 ^ 32) 5381

/-- A fraction in `[0, 1)` that depends on the id only. -/
def fractionFromId (id : String) : ℚ :=
  let cs := id.toList
  let n := if cs.length = 8 ∧ cs.all isHexDigit then parseHex cs else djb2 (utf16Units cs)
  (n : ℚ) / 2 ^ 32

def recurringMaxFractionOfPeriod : ℚ := 1 / 10
def recurringMaxMs : ℚ := 15 * 60000
def oneShotMaxMs : ℚ := 90000
def maxCoalesceIterations : ℕ := 10000

namespace CronHost

/-- The time to the run after this one, and a day when there is none. -/
def period (host : CronHost) (parsed : ParsedCronExpression) (idealMs : ℤ) : ℤ :=
  match computeNextCronRun host.zone parsed idealMs with
  | some nextNext => if idealMs < nextNext then nextNext - idealMs else msPerDay
  | none => msPerDay

def recurringCap (host : CronHost) (parsed : ParsedCronExpression) (idealMs : ℤ) : ℚ :=
  min (host.period parsed idealMs * recurringMaxFractionOfPeriod) recurringMaxMs

/-- Recurring tasks run later, by a part of the period. -/
def jitteredNextCronRunMs (host : CronHost) (id : String) (parsed : ParsedCronExpression)
    (idealMs : ℤ) : ℚ :=
  if host.noJitter then idealMs
  else
    let cap := host.recurringCap parsed idealMs
    if 0 < cap then idealMs + cap * fractionFromId id else idealMs

/-- One-shot tasks run earlier, when the ideal time is a full or a half hour. -/
def oneShotJitteredNextCronRunMs (host : CronHost) (task : CronTask) (idealMs : ℤ) : ℚ :=
  let minuteOfHour := getMinutes (idealMs + host.zone)
  if host.noJitter then idealMs
  else if idealMs % msPerMinute ≠ 0 then idealMs
  else if minuteOfHour ≠ 0 ∧ minuteOfHour ≠ 30 then idealMs
  else
    let shifted : ℚ := idealMs - oneShotMaxMs * fractionFromId task.id
    if shifted < task.createdAt then idealMs else shifted

/-- When the run with this ideal time is delivered. -/
def jittered (host : CronHost) (task : CronTask) (parsed : ParsedCronExpression) (idealMs : ℤ) :
    ℚ :=
  if task.recurring = some false then host.oneShotJitteredNextCronRunMs task idealMs
  else host.jitteredNextCronRunMs task.id parsed idealMs

def computeJitteredNext (host : CronHost) (task : CronTask) (parsed : ParsedCronExpression)
    (baseMs : ℤ) : Option ℚ :=
  (computeNextCronRun host.zone parsed baseMs).map (host.jittered task parsed)

/-! ## Due runs -/

/-- The loop of `countCoalesced`: how many runs up to now are delivered as one, and the last of
them; the first argument counts the iterations that are left. -/
def coalesce (host : CronHost) (task : CronTask) (parsed : ParsedCronExpression) (nowMs : ℤ) :
    ℕ → ℕ → ℤ → ℕ × ℤ
  | 0, count, cursor => (count, cursor)
  | iterations + 1, count, cursor =>
    match computeNextCronRun host.zone parsed cursor with
    | none => (count, cursor)
    | some next =>
      if nowMs < next then (count, cursor)
      else if (nowMs : ℚ) < host.jittered task parsed next then (count, cursor)
      else host.coalesce task parsed nowMs iterations (count + 1) next

def countCoalesced (host : CronHost) (task : CronTask) (parsed : ParsedCronExpression)
    (firstFireMs nowMs : ℤ) : ℕ × ℤ :=
  host.coalesce task parsed nowMs (maxCoalesceIterations - 1) 1 firstFireMs

/-- What is due after `baseMs`: how many runs are delivered, and the last of them for a recurring
task. -/
def due (host : CronHost) (task : CronTask) (parsed : ParsedCronExpression) (baseMs nowMs : ℤ) :
    Option (ℕ × Option ℤ) :=
  match host.computeJitteredNext task parsed baseMs with
  | none => none
  | some nextFireAt =>
    if (nowMs : ℚ) < nextFireAt then none
    else if task.recurring = some false then some (1, none)
    else
      match computeNextCronRun host.zone parsed baseMs with
      | none => some (1, none)
      | some ideal =>
        let (count, lastDueMs) := host.countCoalesced task parsed ideal nowMs
        some (max 1 count, some lastDueMs)

end CronHost

/-! ## Ticks -/

/-- One delivery: `onFire` was called and returned, and for a recurring task `onAdvanceCursor` was
called with the new cursor. -/
structure CronFire where
  taskId : String
  coalescedCount : ℕ
  now : ℤ
  advancedTo : Option ℤ

structure CronScheduler where
  lastSeenAt : String → Option ℤ := fun _ => none
  seededFromDisk : String → Bool := fun _ => false
  inFlight : List String := []
  /-- All deliveries so far. -/
  fires : List CronFire := []

/-- What one tick finds: the kill switch, whether the agent is idle, the clock, the stored tasks,
and the tasks whose `onFire` throws. -/
structure CronTickInput where
  killed : Bool := false
  idle : Bool := true
  now : ℤ
  source : List CronTask
  throws : String → Bool := fun _ => false

namespace CronScheduler

/-- The stored cursor counts when the scheduler sees the task for the first time, unless it is in
the future. -/
def seed (scheduler : CronScheduler) (task : CronTask) (now : ℤ) : CronScheduler :=
  { scheduler with
    lastSeenAt :=
      if scheduler.seededFromDisk task.id = false ∧ task.lastFiredAt.any (· ≤ now) ∧
          scheduler.lastSeenAt task.id = none then
        Function.update scheduler.lastSeenAt task.id task.lastFiredAt
      else scheduler.lastSeenAt
    seededFromDisk := Function.update scheduler.seededFromDisk task.id true }

/-- The time after which runs are still to be delivered. -/
def baseFromMs (scheduler : CronScheduler) (task : CronTask) : ℤ :=
  match scheduler.lastSeenAt task.id with
  | some seen => if task.createdAt < seen then seen else task.createdAt
  | none => task.createdAt

/-- The part of a tick that concerns one task. -/
def visit (host : CronHost) (now : ℤ) (throws : String → Bool) (scheduler : CronScheduler)
    (task : CronTask) : CronScheduler :=
  if task.id ∈ scheduler.inFlight then scheduler
  else
    match parseCronExpression task.cron with
    | none => scheduler
    | some parsed =>
      let scheduler := scheduler.seed task now
      match host.due task parsed (scheduler.baseFromMs task) now with
      | none => scheduler
      | some (coalescedCount, lastDueMs) =>
        let scheduler := { scheduler with inFlight := task.id :: scheduler.inFlight }
        if throws task.id then scheduler
        else if task.recurring = some false then
          { scheduler with
            lastSeenAt := Function.update scheduler.lastSeenAt task.id none
            seededFromDisk := Function.update scheduler.seededFromDisk task.id false
            fires := scheduler.fires ++
              [{ taskId := task.id, coalescedCount, now, advancedTo := none }] }
        else
          let advancedTo := lastDueMs.getD now
          { scheduler with
            lastSeenAt := Function.update scheduler.lastSeenAt task.id (some advancedTo)
            fires := scheduler.fires ++
              [{ taskId := task.id, coalescedCount, now, advancedTo := some advancedTo }] }

def tick (host : CronHost) (scheduler : CronScheduler) (input : CronTickInput) : CronScheduler :=
  if input.killed then scheduler
  else if input.idle = false then scheduler
  else
    { input.source.foldl (visit host input.now input.throws) scheduler with inFlight := [] }

end CronScheduler

end KimiCli
