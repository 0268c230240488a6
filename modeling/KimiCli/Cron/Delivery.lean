import Mathlib.Algebra.Order.Field.Rat
import Mathlib.Tactic.Linarith
import Mathlib.Tactic.Positivity
import KimiCli.Cron.Scheduler
import KimiCli.Lib.Run

/-!
# Cron delivery

What a recurring task is delivered over any number of ticks, whatever else is scheduled, with the
scheduler restarted at any time.  Nothing is lost and nothing doubled as long as the next run lies
within the five years that the search looks ahead.
-/

namespace KimiCli

open Calendar Schedule

/-! ## Jitter -/

theorem hexValue_lt {c : Char} (hex : isHexDigit c = true) : hexValue c < 16 := by
  unfold isHexDigit Char.isDigit at hex
  unfold hexValue Char.isDigit
  simp only [Bool.or_eq_true, Bool.and_eq_true, decide_eq_true_eq, Char.le_def,
    UInt32.le_iff_toNat_le] at hex ⊢
  have val : c.toNat = c.val.toNat := rfl
  have : 'a'.val.toNat = 97 ∧ 'f'.val.toNat = 102 ∧ 'A'.val.toNat = 65 ∧ 'F'.val.toNat = 70 ∧
      '0'.toNat = 48 ∧ 'a'.toNat = 97 ∧ 'A'.toNat = 65 ∧ '0'.val.toNat = 48 ∧
      '9'.val.toNat = 57 := by decide
  split
  · omega
  split <;> omega

theorem parseHex_lt : ∀ {cs : List Char} (n k : ℕ), cs.all isHexDigit → n < 16 ^ k →
    cs.foldl (fun n c => 16 * n + hexValue c) n < 16 ^ (k + cs.length)
  | [], n, k, _, lt => lt
  | c :: cs, n, k, hex, lt => by
    rw [List.all_cons, Bool.and_eq_true] at hex
    rw [List.foldl_cons, List.length_cons, ← Nat.add_assoc, Nat.add_right_comm]
    refine parseHex_lt _ (k + 1) hex.2 ?_
    have := hexValue_lt hex.1
    rw [Nat.pow_succ]
    omega

theorem djb2_lt (units : List ℕ) : djb2 units < 2 ^ 32 :=
  List.foldlRecOn (motive := (· < 2 ^ 32)) units _ (by decide)
    fun _ _ _ _ => Nat.mod_lt _ (by decide)

theorem fractionFromId_bounds (id : String) : 0 ≤ fractionFromId id ∧ fractionFromId id < 1 := by
  unfold fractionFromId
  have lt : (if id.toList.length = 8 ∧ id.toList.all isHexDigit then parseHex id.toList
      else djb2 (utf16Units id.toList)) < 2 ^ 32 := by
    split
    case isTrue hex =>
      have := parseHex_lt 0 0 hex.2 (by decide)
      rw [hex.1] at this
      exact this
    case isFalse => exact djb2_lt _
  refine ⟨by positivity, ?_⟩
  rw [div_lt_one (by norm_num)]
  exact_mod_cast lt

variable {host : CronHost} {task : CronTask} {parsed : ParsedCronExpression}

namespace CronHost

/-- The runs that the expression stands for. -/
abbrev Occurs (host : CronHost) (parsed : ParsedCronExpression) : ℤ → Prop :=
  IsCronOccurrence host.zone parsed

theorem le_jittered (recurring : task.recurring ≠ some false) (idealMs : ℤ) :
    (idealMs : ℚ) ≤ host.jittered task parsed idealMs := by
  rw [jittered, if_neg recurring, jitteredNextCronRunMs]
  split
  · exact le_rfl
  by_cases positive : 0 < host.recurringCap parsed idealMs
  · rw [if_pos positive]
    exact le_add_of_nonneg_right (mul_nonneg positive.le (fractionFromId_bounds task.id).1)
  · rw [if_neg positive]

theorem add_recurringCap_le {idealMs later : ℤ} (lt : idealMs < later)
    (occurs : host.Occurs parsed later) : idealMs + host.recurringCap parsed idealMs ≤ later := by
  have finds := computeNextCronRun_finds host.zone parsed idealMs
  rw [recurringCap]
  cases found : computeNextCronRun host.zone parsed idealMs with
  | none =>
    rw [found] at finds
    have gap : idealMs + cronWindowMs < later := Finds.gap finds occurs lt
    have far : (idealMs : ℚ) + 900000 ≤ later := by
      have : idealMs + 900000 ≤ later := by
        unfold cronWindowMs cronWindowMinutes msPerMinute at gap
        omega
      exact_mod_cast this
    refine le_trans (add_le_add_right (min_le_right _ _) _) ?_
    unfold recurringMaxMs
    linarith
  | some next =>
    rw [found] at finds
    have lt_next : idealMs < next := finds.1.lt
    have le : (next : ℚ) ≤ later := by exact_mod_cast finds.1.le occurs lt
    have pos : (idealMs : ℚ) < next := by exact_mod_cast lt_next
    refine le_trans (add_le_add_right (min_le_left _ _) _) ?_
    simp only [period, found, if_pos lt_next]
    unfold recurringMaxFractionOfPeriod
    push_cast
    linarith

theorem jittered_lt (recurring : task.recurring ≠ some false) {idealMs later : ℤ}
    (lt : idealMs < later) (occurs : host.Occurs parsed later) :
    host.jittered task parsed idealMs < later := by
  have lt' : (idealMs : ℚ) < later := by exact_mod_cast lt
  rw [jittered, if_neg recurring, jitteredNextCronRunMs]
  split
  · exact lt'
  by_cases positive : 0 < host.recurringCap parsed idealMs
  · rw [if_pos positive]
    refine lt_of_lt_of_le ?_ (add_recurringCap_le lt occurs)
    exact (add_lt_add_iff_left _).2
      (mul_lt_of_lt_one_right positive (fractionFromId_bounds task.id).2)
  · rw [if_neg positive]
    exact lt'

theorem jittered_le (recurring : task.recurring ≠ some false) (idealMs : ℤ) :
    host.jittered task parsed idealMs ≤ idealMs + recurringMaxMs := by
  have nonneg : (0 : ℚ) ≤ recurringMaxMs := by
    unfold recurringMaxMs
    norm_num
  rw [jittered, if_neg recurring, jitteredNextCronRunMs]
  split
  · exact le_add_of_nonneg_right nonneg
  by_cases positive : 0 < host.recurringCap parsed idealMs
  · rw [if_pos positive]
    refine (add_le_add_iff_left _).2 ?_
    calc host.recurringCap parsed idealMs * fractionFromId task.id
        ≤ host.recurringCap parsed idealMs :=
          mul_le_of_le_one_right positive.le (fractionFromId_bounds task.id).2.le
      _ ≤ recurringMaxMs := min_le_right _ _
  · rw [if_neg positive]
    exact le_add_of_nonneg_right nonneg

/-! ## What is due -/

/-- No run after `baseMs` is due, unless the next one lies beyond the window. -/
def CaughtUp (host : CronHost) (task : CronTask) (parsed : ParsedCronExpression)
    (baseMs nowMs : ℤ) : Prop :=
  (∃ t, host.Occurs parsed t ∧ baseMs < t ∧ t ≤ baseMs + cronWindowMs) →
    ∀ t, host.Occurs parsed t → baseMs < t → (nowMs : ℚ) < host.jittered task parsed t

variable {baseMs nowMs : ℤ}

theorem caughtUp_of_none (ended : computeNextCronRun host.zone parsed baseMs = none) :
    host.CaughtUp task parsed baseMs nowMs := by
  rintro ⟨t, occurs, later, le⟩
  have finds := computeNextCronRun_finds host.zone parsed baseMs
  rw [ended] at finds
  exact absurd occurs (finds t later le)

theorem caughtUp_of_next (recurring : task.recurring ≠ some false) {next : ℤ}
    (found : computeNextCronRun host.zone parsed baseMs = some next)
    (early : (nowMs : ℚ) < host.jittered task parsed next) :
    host.CaughtUp task parsed baseMs nowMs := by
  intro _ t occurs later
  have finds := computeNextCronRun_finds host.zone parsed baseMs
  rw [found] at finds
  rcases (finds.1.le occurs later).eq_or_lt with rfl | lt
  · exact early
  · exact early.trans (lt_of_lt_of_le (jittered_lt recurring lt occurs)
      (le_jittered recurring t))

/-- What the loop has counted when it stops at `t`. -/
structure Coalesced (host : CronHost) (task : CronTask) (parsed : ParsedCronExpression)
    (baseMs nowMs : ℤ) (t : ℤ) (count : ℕ) : Prop where
  later : baseMs < t
  occurs : host.Occurs parsed t
  reached : t ≤ nowMs
  counted : count = Schedule.count (host.Occurs parsed) baseMs t

theorem coalesce_spec (recurring : task.recurring ≠ some false) : ∀ (iterations count : ℕ)
    (cursor : ℤ), host.Coalesced task parsed baseMs nowMs cursor count →
    let result := host.coalesce task parsed nowMs iterations count cursor
    host.Coalesced task parsed baseMs nowMs result.2 result.1 ∧
      (result.1 < count + iterations → host.CaughtUp task parsed result.2 nowMs)
  | 0, count, cursor, counted => ⟨counted, fun no => absurd no (lt_irrefl _)⟩
  | iterations + 1, count, cursor, counted => by
    rw [coalesce]
    cases found : computeNextCronRun host.zone parsed cursor with
    | none => exact ⟨counted, fun _ => caughtUp_of_none found⟩
    | some next =>
      dsimp only
      split
      case isTrue early =>
        have early : (nowMs : ℚ) < next := by exact_mod_cast early
        exact ⟨counted, fun _ =>
          caughtUp_of_next recurring found (early.trans_le (le_jittered recurring next))⟩
      case isFalse reached =>
        split
        case isTrue early => exact ⟨counted, fun _ => caughtUp_of_next recurring found early⟩
        case isFalse late =>
          have finds := computeNextCronRun_finds host.zone parsed cursor
          rw [found] at finds
          have rest := coalesce_spec recurring iterations (count + 1) next
            { later := counted.later.trans finds.1.lt
              occurs := finds.1.occurs
              reached := not_lt.1 reached
              counted := by
                rw [counted.counted, ← Schedule.count_add counted.later.le finds.1.lt.le,
                  finds.1.count] }
          exact ⟨rest.1, fun lt => rest.2 (by omega)⟩

theorem due_none (recurring : task.recurring ≠ some false)
    (nothing : host.due task parsed baseMs nowMs = none) :
    host.CaughtUp task parsed baseMs nowMs := by
  unfold due computeJitteredNext at nothing
  cases found : computeNextCronRun host.zone parsed baseMs with
  | none => exact caughtUp_of_none found
  | some =>
    rw [found, Option.map_some] at nothing
    dsimp only at nothing
    split at nothing
    case isTrue early => exact caughtUp_of_next recurring found early
    case isFalse => cases nothing

theorem due_some (recurring : task.recurring ≠ some false) {count : ℕ} {lastDueMs : Option ℤ}
    (delivery : host.due task parsed baseMs nowMs = some (count, lastDueMs)) :
    ∃ t, lastDueMs = some t ∧ host.Coalesced task parsed baseMs nowMs t count ∧
      (count < maxCoalesceIterations → host.CaughtUp task parsed t nowMs) := by
  unfold due computeJitteredNext at delivery
  cases found : computeNextCronRun host.zone parsed baseMs with
  | none =>
    rw [found] at delivery
    cases delivery
  | some ideal =>
    have finds := computeNextCronRun_finds host.zone parsed baseMs
    rw [found] at finds
    rw [found, Option.map_some] at delivery
    dsimp only at delivery
    split at delivery
    case isTrue => cases delivery
    case isFalse late =>
      have reached : ideal ≤ nowMs := by
        have := (le_jittered recurring ideal).trans (not_lt.1 late)
        exact_mod_cast this
      have first : host.Coalesced task parsed baseMs nowMs ideal 1 :=
        { later := finds.1.lt, occurs := finds.1.occurs, reached
          counted := finds.1.count.symm }
      have spec := coalesce_spec recurring (maxCoalesceIterations - 1) 1 ideal first
      rw [countCoalesced] at delivery
      generalize host.coalesce task parsed nowMs (maxCoalesceIterations - 1) 1 ideal = result
        at delivery spec
      obtain ⟨counted, caught⟩ := spec
      cases delivery
      have positive : 1 ≤ result.1 := by
        rw [counted.counted, ← Schedule.count_add finds.1.lt.le, finds.1.count]
        · omega
        · exact finds.1.le counted.occurs counted.later
      rw [max_eq_right positive]
      exact ⟨result.2, rfl, counted, fun lt => caught (by unfold maxCoalesceIterations at *; omega)⟩

theorem due_of_gap (recurring : task.recurring ≠ some false) {ideal : ℤ}
    (found : computeNextCronRun host.zone parsed baseMs = some ideal)
    (gap : computeNextCronRun host.zone parsed ideal = none)
    (late : host.jittered task parsed ideal ≤ nowMs) :
    host.due task parsed baseMs nowMs = some (1, some ideal) := by
  have coalesced : host.countCoalesced task parsed ideal nowMs = (1, ideal) := by
    change host.coalesce task parsed nowMs (9998 + 1) 1 ideal = _
    rw [coalesce, gap]
  unfold due computeJitteredNext
  rw [found, Option.map_some]
  dsimp only
  rw [if_neg (not_lt.2 late), if_neg recurring, coalesced, max_self]

theorem due_of_none (ended : computeNextCronRun host.zone parsed baseMs = none) :
    host.due task parsed baseMs nowMs = none := by
  unfold due computeJitteredNext
  rw [ended]
  rfl

@[simp] theorem coalesce_stored (stored : Option ℤ) : ∀ iterations count cursor,
    host.coalesce { task with lastFiredAt := stored } parsed nowMs iterations count cursor =
      host.coalesce task parsed nowMs iterations count cursor
  | 0, _, _ => rfl
  | iterations + 1, count, cursor => by
    rw [coalesce, coalesce]
    cases computeNextCronRun host.zone parsed cursor with
    | none => rfl
    | some =>
      dsimp only
      rw [coalesce_stored stored iterations]
      rfl

theorem due_stored (stored : Option ℤ) :
    host.due { task with lastFiredAt := stored } parsed baseMs nowMs =
      host.due task parsed baseMs nowMs := by
  simp only [due, countCoalesced, coalesce_stored]
  rfl

end CronHost

/-! ## Ticks and other tasks -/

namespace CronScheduler

/-- Two schedulers that agree on one task. -/
structure SameFor (id : String) (scheduler scheduler' : CronScheduler) : Prop where
  lastSeenAt : scheduler'.lastSeenAt id = scheduler.lastSeenAt id
  seeded : scheduler'.seededFromDisk id = scheduler.seededFromDisk id
  inFlight : id ∈ scheduler'.inFlight ↔ id ∈ scheduler.inFlight
  fires : scheduler'.fires.filter (·.taskId = id) = scheduler.fires.filter (·.taskId = id)

variable {id : String} {scheduler scheduler' scheduler'' : CronScheduler} {now : ℤ}
  {throws : String → Bool}

theorem SameFor.refl (id : String) (scheduler : CronScheduler) : SameFor id scheduler scheduler :=
  ⟨rfl, rfl, Iff.rfl, rfl⟩

theorem SameFor.trans (first : SameFor id scheduler scheduler')
    (second : SameFor id scheduler' scheduler'') : SameFor id scheduler scheduler'' :=
  ⟨second.lastSeenAt.trans first.lastSeenAt, second.seeded.trans first.seeded,
    second.inFlight.trans first.inFlight, second.fires.trans first.fires⟩

theorem sameFor_visit {other : CronTask} (different : other.id ≠ id) :
    SameFor id scheduler (scheduler.visit host now throws other) := by
  have seeded : SameFor id scheduler (scheduler.seed other now) := by
    refine ⟨?_, Function.update_of_ne different.symm _ _, Iff.rfl, rfl⟩
    unfold seed
    split
    · exact Function.update_of_ne different.symm _ _
    · rfl
  have notIn : ∀ ids : List String, id ∈ other.id :: ids ↔ id ∈ ids := fun ids =>
    List.mem_cons.trans (or_iff_right different.symm)
  unfold visit
  split
  · exact .refl id scheduler
  split
  · exact .refl id scheduler
  dsimp only
  split
  · exact seeded
  split
  · exact seeded.trans ⟨rfl, rfl, notIn _, rfl⟩
  split
  all_goals
    refine seeded.trans ⟨Function.update_of_ne different.symm _ _, ?_, notIn _, ?_⟩
  · exact Function.update_of_ne different.symm _ _
  · simp [different]
  · rfl
  · simp [different]

theorem sameFor_foldl {others : List CronTask} (different : ∀ other ∈ others, other.id ≠ id) :
    SameFor id scheduler (others.foldl (visit host now throws) scheduler) :=
  List.foldlRecOn others _ (.refl id scheduler) fun _ same _ mem =>
    same.trans (sameFor_visit (different _ mem))

end CronScheduler

/-! ## Sessions -/

/-- A scheduler with the time of its last tick. -/
structure CronSession where
  scheduler : CronScheduler := {}
  clock : Option ℤ := none

/-- A tick of the scheduler, with the tasks stored before and after the one that is followed, or a
restart: a new scheduler that finds the cursor as it was last reported. -/
inductive CronLabel
  | tick (killed idle : Bool) (now : ℤ) (before after : List CronTask) (throws : String → Bool)
  | restart

def CronLabel.isTick : CronLabel → Bool
  | tick .. => true
  | restart => false

namespace CronSession

/-- The cursor that was reported last. -/
def lastCursor (fires : List CronFire) : Option ℤ := (fires.filterMap (·.advancedTo)).getLast?

theorem lastCursor_concat {fire : CronFire} {cursor : ℤ} (fires : List CronFire)
    (advanced : fire.advancedTo = some cursor) : lastCursor (fires ++ [fire]) = some cursor := by
  rw [lastCursor, List.filterMap_append, List.filterMap_cons_some advanced, List.filterMap_nil,
    List.getLast?_concat]

/-- The deliveries of one task. -/
def firesOf (session : CronSession) (task : CronTask) : List CronFire :=
  session.scheduler.fires.filter (·.taskId = task.id)

def cursor (session : CronSession) (task : CronTask) : Option ℤ :=
  lastCursor (session.firesOf task)

/-- The clock does not go back, and ids are unique among the stored tasks. -/
def step (host : CronHost) (task : CronTask) (session : CronSession) :
    CronLabel → Option CronSession
  | .tick killed idle now before after throws =>
    if (∀ last ∈ session.clock, last ≤ now) ∧ ∀ other ∈ before ++ after, other.id ≠ task.id then
      some
        { scheduler := session.scheduler.tick host
            { killed, idle, now, throws
              source := before ++ { task with lastFiredAt := session.cursor task } :: after }
          clock := some now }
    else none
  | .restart => some { session with scheduler := { fires := session.scheduler.fires } }

theorem step_tick {host : CronHost} {task : CronTask} {session : CronSession}
    {killed idle : Bool} {now : ℤ} {before after : List CronTask} {throws : String → Bool}
    (forward : ∀ last ∈ session.clock, last ≤ now)
    (others : ∀ other ∈ before ++ after, other.id ≠ task.id) :
    session.step host task (.tick killed idle now before after throws) =
      some
        { scheduler := session.scheduler.tick host
            { killed, idle, now, throws
              source := before ++ { task with lastFiredAt := session.cursor task } :: after }
          clock := some now } :=
  if_pos ⟨forward, others⟩

/-- The time up to which every run has been delivered. -/
def baseMs (session : CronSession) (task : CronTask) : ℤ :=
  (session.cursor task).getD task.createdAt

end CronSession

/-- What a label delivers of the task, when everything up to `baseMs` has been delivered. -/
def CronHost.delivers (host : CronHost) (task : CronTask) (parsed : ParsedCronExpression)
    (baseMs : ℤ) : CronLabel → List CronFire
  | .tick killed idle now _ _ throws =>
    if killed ∨ idle = false ∨ throws task.id then []
    else
      match host.due task parsed baseMs now with
      | none => []
      | some (coalescedCount, lastDueMs) =>
        [{ taskId := task.id, coalescedCount, now, advancedTo := some (lastDueMs.getD now) }]
  | .restart => []

theorem CronHost.delivers_of_none {baseMs now : ℤ} {before after : List CronTask}
    {throws : String → Bool} (nothing : host.due task parsed baseMs now = none) :
    host.delivers task parsed baseMs (.tick false true now before after throws) = [] := by
  rw [CronHost.delivers, nothing]
  exact ite_self []

theorem CronHost.delivers_of_some {baseMs now cursor : ℤ} {count : ℕ} {before after : List CronTask}
    {throws : String → Bool} (calm : throws task.id = false)
    (delivery : host.due task parsed baseMs now = some (count, some cursor)) :
    host.delivers task parsed baseMs (.tick false true now before after throws) =
      [{ taskId := task.id, coalescedCount := count, now, advancedTo := some cursor }] := by
  rw [CronHost.delivers, delivery]
  exact if_neg (by simp [calm])

/-- At most one delivery, of all the runs up to its cursor. -/
theorem CronHost.delivers_cases (host : CronHost) (parsed : ParsedCronExpression)
    (recurring : task.recurring ≠ some false) (baseMs : ℤ)
    (killed idle : Bool) (now : ℤ) (before after : List CronTask) (throws : String → Bool) :
    host.delivers task parsed baseMs (.tick killed idle now before after throws) = [] ∨
      ∃ fire cursor,
        host.delivers task parsed baseMs (.tick killed idle now before after throws) = [fire] ∧
        fire.now = now ∧ fire.advancedTo = some cursor ∧
        host.Coalesced task parsed baseMs now cursor fire.coalescedCount ∧
        (fire.coalescedCount < maxCoalesceIterations → host.CaughtUp task parsed cursor now) := by
  unfold CronHost.delivers
  dsimp only
  split
  · exact .inl rfl
  cases delivery : host.due task parsed baseMs now with
  | none => exact .inl rfl
  | some delivery' =>
    obtain ⟨count, lastDueMs⟩ := delivery'
    obtain ⟨cursor, rfl, counted, caught⟩ := CronHost.due_some recurring delivery
    exact .inr ⟨_, cursor, rfl, rfl, rfl, counted, caught⟩

namespace CronSession

variable {session session' : CronSession} {label : CronLabel}

/-- The scheduler remembers the cursor, or it is new and reads the stored one. -/
structure Remembers (task : CronTask) (session : CronSession) : Prop where
  idle : session.scheduler.inFlight = []
  seen : session.scheduler.lastSeenAt task.id = session.cursor task ∨
    session.scheduler.lastSeenAt task.id = none ∧
      session.scheduler.seededFromDisk task.id = false
  reached : ∀ cursor ∈ session.cursor task, ∃ now ∈ session.clock, cursor ≤ now
  later : ∀ cursor ∈ session.cursor task, task.createdAt < cursor

theorem Remembers.created_le_baseMs (remembers : session.Remembers task) :
    task.createdAt ≤ session.baseMs task := by
  rw [baseMs]
  cases cursor : session.cursor task with
  | none => exact le_rfl
  | some value => exact (remembers.later value cursor).le

variable {scheduler : CronScheduler} {now : ℤ} {throws : String → Bool}

theorem Remembers.seed (remembers : session.Remembers task)
    (forward : ∀ last ∈ session.clock, last ≤ now)
    (same : CronScheduler.SameFor task.id session.scheduler scheduler) :
    (scheduler.seed { task with lastFiredAt := session.cursor task } now).lastSeenAt task.id =
      session.cursor task := by
  unfold CronScheduler.seed
  dsimp only
  rw [same.seeded]
  rcases remembers.seen with seen | ⟨unseen, unseeded⟩
  · split
    case isTrue first => exact Function.update_self _ _ _
    case isFalse => exact same.lastSeenAt.trans seen
  · cases cursor : session.cursor task with
    | none =>
      rw [if_neg (by simp), same.lastSeenAt, unseen]
    | some value =>
      obtain ⟨last, mem, le⟩ := remembers.reached value cursor
      rw [if_pos, Function.update_self]
      refine ⟨unseeded, ?_, same.lastSeenAt.trans unseen⟩
      exact decide_eq_true (le.trans (forward last mem))

theorem Remembers.baseFromMs (remembers : session.Remembers task)
    (seen : scheduler.lastSeenAt task.id = session.cursor task) :
    scheduler.baseFromMs { task with lastFiredAt := session.cursor task } =
      session.baseMs task := by
  rw [CronScheduler.baseFromMs, baseMs, seen]
  cases cursor : session.cursor task with
  | none => rfl
  | some value => exact if_pos (remembers.later value cursor)

theorem visit_followed (host : CronHost) (throws : String → Bool)
    (recurring : task.recurring ≠ some false)
    (parses : parseCronExpression task.cron = some parsed) (remembers : session.Remembers task)
    (forward : ∀ last ∈ session.clock, last ≤ now)
    (same : CronScheduler.SameFor task.id session.scheduler scheduler)
    (before after : List CronTask) :
    let visited := scheduler.visit host now throws
      { task with lastFiredAt := session.cursor task }
    let fires := session.firesOf task ++
      host.delivers task parsed (session.baseMs task) (.tick false true now before after throws)
    visited.fires.filter (·.taskId = task.id) = fires ∧
      visited.lastSeenAt task.id = lastCursor fires := by
  have seen := remembers.seed forward same
  have fires : scheduler.fires.filter (·.taskId = task.id) = session.firesOf task := same.fires
  have absent : task.id ∉ scheduler.inFlight := by
    rw [same.inFlight, remembers.idle]
    exact List.not_mem_nil
  rw [CronScheduler.visit, if_neg absent, parses]
  dsimp only
  rw [remembers.baseFromMs seen, CronHost.due_stored, CronHost.delivers]
  cases host.due task parsed (session.baseMs task) now with
  | none =>
    rw [ite_self, List.append_nil]
    exact ⟨fires, seen⟩
  | some =>
    dsimp only
    by_cases thrown : throws task.id
    · rw [if_pos thrown, if_pos (by simp [thrown]), List.append_nil]
      exact ⟨fires, seen⟩
    · rw [if_neg thrown, if_neg recurring, if_neg (by simp [thrown])]
      refine ⟨?_, ?_⟩
      · rw [List.filter_append, List.filter_cons_of_pos (by simp), List.filter_nil]
        exact congrArg (· ++ _) fires
      · rw [lastCursor_concat _ rfl]
        exact Function.update_self _ _ _

theorem tick_skipped {killed idle : Bool} {source : List CronTask}
    (passive : ¬(killed = false ∧ idle = true)) :
    scheduler.tick host { killed, idle, now, throws, source } = scheduler := by
  cases killed with
  | true => rfl
  | false =>
    cases idle with
    | false => rfl
    | true => exact absurd ⟨rfl, rfl⟩ passive

theorem tick_followed (host : CronHost) (throws : String → Bool)
    (recurring : task.recurring ≠ some false)
    (parses : parseCronExpression task.cron = some parsed) (remembers : session.Remembers task)
    (forward : ∀ last ∈ session.clock, last ≤ now) {before after : List CronTask}
    (others : ∀ other ∈ before ++ after, other.id ≠ task.id) :
    let ticked := session.scheduler.tick host
      { now, throws
        source := before ++ { task with lastFiredAt := session.cursor task } :: after }
    let fires := session.firesOf task ++
      host.delivers task parsed (session.baseMs task) (.tick false true now before after throws)
    ticked.inFlight = [] ∧ ticked.fires.filter (·.taskId = task.id) = fires ∧
      ticked.lastSeenAt task.id = lastCursor fires := by
  have same : CronScheduler.SameFor task.id session.scheduler
      (before.foldl (CronScheduler.visit host now throws) session.scheduler) :=
    CronScheduler.sameFor_foldl fun other mem => others other (List.mem_append_left after mem)
  obtain ⟨fires, seen⟩ := visit_followed host throws recurring parses remembers forward same
    before after
  have rest : ∀ scheduler : CronScheduler, CronScheduler.SameFor task.id scheduler
      (after.foldl (CronScheduler.visit host now throws) scheduler) := fun scheduler =>
    CronScheduler.sameFor_foldl fun other mem => others other (List.mem_append_right before mem)
  simp only [CronScheduler.tick, Bool.false_eq_true, reduceCtorEq, if_false, List.foldl_append,
    List.foldl_cons]
  exact ⟨trivial, (rest _).fires.trans fires, (rest _).lastSeenAt.trans seen⟩

/-- A label delivers what it has to, and the cursor is still known. -/
theorem step_followed (recurring : task.recurring ≠ some false)
    (parses : parseCronExpression task.cron = some parsed) (remembers : session.Remembers task)
    (next : session.step host task label = some session') :
    session'.firesOf task =
        session.firesOf task ++ host.delivers task parsed (session.baseMs task) label ∧
      session'.Remembers task ∧
      (label.isTick → session.scheduler.lastSeenAt task.id = session.cursor task →
        session'.scheduler.lastSeenAt task.id = session'.cursor task) := by
  cases label with
  | restart =>
    cases next
    exact ⟨(List.append_nil _).symm,
      ⟨rfl, .inr ⟨rfl, rfl⟩, remembers.reached, remembers.later⟩, fun no => nomatch no⟩
  | tick killed idle now before after throws =>
    rw [step] at next
    split at next
    case isFalse => cases next
    case isTrue allowed =>
      cases next
      obtain ⟨forward, others⟩ := allowed
      have kept : ∀ cursor ∈ session.cursor task, cursor ≤ now := by
        intro cursor mem
        obtain ⟨last, at_last, le⟩ := remembers.reached cursor mem
        exact le.trans (forward last at_last)
      by_cases active : killed = false ∧ idle = true
      · obtain ⟨rfl, rfl⟩ := active
        obtain ⟨idle, fires, seen⟩ := tick_followed host throws recurring
          parses remembers forward others
        have cursor_of : ∀ cursor, lastCursor (session.firesOf task ++ host.delivers task parsed
            (session.baseMs task) (.tick false true now before after throws)) = some cursor →
            cursor ≤ now ∧ task.createdAt < cursor := by
          intro cursor last
          rcases CronHost.delivers_cases host parsed recurring
              (session.baseMs task) false true now before after throws with
            nothing | ⟨fire, cursor', delivered, -, advanced, counted, -⟩
          · rw [nothing, List.append_nil] at last
            exact ⟨kept cursor last, remembers.later cursor last⟩
          · rw [delivered, lastCursor_concat _ advanced] at last
            cases last
            exact ⟨counted.reached, (remembers.created_le_baseMs).trans_lt counted.later⟩
        have seen' := seen.trans (congrArg lastCursor fires.symm)
        refine ⟨fires, ⟨idle, .inl seen', fun cursor mem => ⟨now, rfl, (cursor_of cursor ?_).1⟩,
          fun cursor mem => (cursor_of cursor ?_).2⟩, fun _ _ => seen'⟩
        · exact (congrArg lastCursor fires).symm.trans mem
        · exact (congrArg lastCursor fires).symm.trans mem
      · have nothing : host.delivers task parsed (session.baseMs task)
            (.tick killed idle now before after throws) = [] := by
          refine if_pos ?_
          cases killed with
          | true => exact .inl rfl
          | false => exact .inr (.inl (by simpa using active))
        rw [tick_skipped active, nothing, List.append_nil]
        exact ⟨rfl, ⟨remembers.idle, remembers.seen,
          fun cursor mem => ⟨now, rfl, kept cursor mem⟩, remembers.later⟩, fun _ seen => seen⟩

/-! ## Every run -/

/-- The deliveries account for every run up to the last cursor, each of them once. -/
structure Exact (host : CronHost) (task : CronTask) (parsed : ParsedCronExpression)
    (fires : List CronFire) : Prop where
  counted : (fires.map (·.coalescedCount)).sum =
    Schedule.count (host.Occurs parsed) task.createdAt ((lastCursor fires).getD task.createdAt)
  each : ∀ fire ∈ fires, ∃ cursor, fire.advancedTo = some cursor ∧ host.Occurs parsed cursor ∧
    cursor ≤ fire.now
  increasing : (task.createdAt :: fires.filterMap (·.advancedTo)).IsChain (· < ·)

theorem exact_nil : Exact host task parsed [] :=
  ⟨(Schedule.count_self _).symm, fun _ mem => (List.not_mem_nil mem).elim, .singleton _⟩

theorem Exact.concat {fires : List CronFire} {fire : CronFire} {cursor : ℤ}
    (exact' : Exact host task parsed fires) (advanced : fire.advancedTo = some cursor)
    (created : task.createdAt ≤ (lastCursor fires).getD task.createdAt)
    (coalesced : host.Coalesced task parsed ((lastCursor fires).getD task.createdAt) fire.now cursor
      fire.coalescedCount) :
    Exact host task parsed (fires ++ [fire]) where
  counted := by
    rw [List.map_append, List.sum_append, exact'.counted, lastCursor_concat _ advanced,
      Option.getD_some, ← Schedule.count_add created coalesced.later.le, ← coalesced.counted]
    simp
  each other mem := by
    rcases List.mem_append.1 mem with mem | mem
    · exact exact'.each other mem
    · obtain rfl := List.mem_singleton.1 mem
      exact ⟨cursor, advanced, coalesced.occurs, coalesced.reached⟩
  increasing := by
    rw [List.filterMap_append, List.filterMap_cons_some advanced, List.filterMap_nil,
      ← List.cons_append]
    refine List.isChain_append.2 ⟨exact'.increasing, .singleton _, fun last at_last next head => ?_⟩
    cases head
    rw [List.getLast?_cons] at at_last
    cases at_last
    exact coalesced.later

variable {labels : List CronLabel}

theorem remembers_initial : Remembers task {} :=
  ⟨rfl, .inl rfl, (fun _ no => nomatch no), fun _ no => nomatch no⟩

section

variable (recurring : task.recurring ≠ some false)
  (parses : parseCronExpression task.cron = some parsed)
include recurring parses

theorem exact_of_run (run : Transition.Run (step host task) Transition.Always {} labels session) :
    session.Remembers task ∧ Exact host task parsed (session.firesOf task) := by
  refine run.invariant (fun session => session.Remembers task ∧
    Exact host task parsed (session.firesOf task)) ⟨remembers_initial, exact_nil⟩ ?_
  rintro session label session' ⟨remembers, exact'⟩ - next
  obtain ⟨fires, remembers', -⟩ := step_followed recurring parses remembers next
  refine ⟨remembers', ?_⟩
  rw [fires]
  cases label with
  | restart =>
    rw [CronHost.delivers, List.append_nil]
    exact exact'
  | tick killed idle now before after throws =>
    rcases CronHost.delivers_cases host parsed recurring
        (session.baseMs task) killed idle now before after throws with
      nothing | ⟨fire, cursor, delivered, rfl, advanced, coalesced, -⟩
    · rw [nothing, List.append_nil]
      exact exact'
    · rw [delivered]
      exact exact'.concat advanced remembers.created_le_baseMs coalesced

/-- Without a restart the cursor is what the scheduler has in memory. -/
theorem lastSeenAt_of_run
    (run : Transition.Run (step host task) Transition.Always {} labels session)
    (never : .restart ∉ labels) :
    session.scheduler.lastSeenAt task.id = session.cursor task := by
  induction run with
  | nil => rfl
  | @snoc labels session session' label earlier _ next ih =>
    rw [List.mem_append, not_or, List.mem_singleton] at never
    obtain ⟨remembers, -⟩ := exact_of_run recurring parses earlier
    refine (step_followed recurring parses remembers next).2.2 ?_ (ih never.1)
    cases label with
    | tick => rfl
    | restart => exact absurd rfl never.2

/-- What is due is delivered, up to the runs that the search cannot see. -/
theorem caughtUp_of_step (remembers : session.Remembers task)
    {before after : List CronTask} (calm : throws task.id = false)
    (next : session.step host task (.tick false true now before after throws) = some session')
    (uncapped : ∀ fire ∈ (session'.firesOf task).drop (session.firesOf task).length,
      fire.coalescedCount < maxCoalesceIterations) :
    host.CaughtUp task parsed (session'.baseMs task) now := by
  have fires := (step_followed recurring parses remembers next).1
  rw [fires, List.drop_left] at uncapped
  cases delivery : host.due task parsed (session.baseMs task) now with
  | none =>
    rw [CronHost.delivers_of_none delivery, List.append_nil] at fires
    rw [baseMs, cursor, fires]
    exact CronHost.due_none recurring delivery
  | some delivery' =>
    obtain ⟨count, lastDueMs⟩ := delivery'
    obtain ⟨last, rfl, -, caught⟩ := CronHost.due_some recurring delivery
    rw [CronHost.delivers_of_some calm delivery] at fires uncapped
    rw [baseMs, cursor, fires, lastCursor_concat _ rfl]
    exact caught (uncapped _ (List.mem_singleton_self _))

/-- Deliveries do not depend on restarts. -/
theorem run_without_restarts
    (run : Transition.Run (step host task) Transition.Always {} labels session) :
    ∃ session', Transition.Run (step host task) Transition.Always {}
        (labels.filter (·.isTick)) session' ∧
      session'.firesOf task = session.firesOf task ∧ session'.clock = session.clock := by
  induction run with
  | nil => exact ⟨{}, .nil, rfl, rfl⟩
  | @snoc labels session next label earlier _ taken ih =>
    obtain ⟨other, run, fires, clock⟩ := ih
    obtain ⟨remembers, -⟩ := exact_of_run recurring parses earlier
    obtain ⟨remembers', -⟩ := exact_of_run recurring parses run
    have delivered := (step_followed recurring parses remembers taken).1
    rw [List.filter_append]
    cases label with
    | restart =>
      cases taken
      exact ⟨other, by simpa [CronLabel.isTick] using run, fires, clock⟩
    | tick killed idle now before after throws =>
      have taken' := taken
      rw [step] at taken'
      split at taken'
      case isFalse => cases taken'
      case isTrue allowed =>
        cases taken'
        obtain ⟨scheduler, again⟩ : ∃ scheduler,
            other.step host task (.tick killed idle now before after throws) =
              some { scheduler, clock := some now } :=
          ⟨_, step_tick (clock ▸ allowed.1) allowed.2⟩
        refine ⟨_, .snoc run trivial again, ?_, rfl⟩
        have delivered' := (step_followed recurring parses remembers' again).1
        rw [delivered', delivered, fires, baseMs, baseMs, cursor, cursor, fires]

end

/-- Whatever the ticks and restarts, each run up to the cursor is counted in exactly one delivery,
what is due is delivered as far as the search looks ahead, and a restart changes nothing. -/
theorem cron_delivery (recurring : task.recurring ≠ some false)
    (parses : parseCronExpression task.cron = some parsed)
    (run : Transition.Run (step host task) Transition.Always {} labels session) :
    ((session.firesOf task).map (·.coalescedCount)).sum =
        Schedule.count (host.Occurs parsed) task.createdAt (session.baseMs task) ∧
      (∀ fire ∈ session.firesOf task, ∃ cursor, fire.advancedTo = some cursor ∧
        host.Occurs parsed cursor ∧ cursor ≤ fire.now) ∧
      (task.createdAt :: (session.firesOf task).filterMap (·.advancedTo)).Pairwise (· < ·) ∧
      (.restart ∉ labels → session.scheduler.lastSeenAt task.id = session.cursor task) ∧
      (∀ now before after throws session', throws task.id = false →
        session.step host task (.tick false true now before after throws) = some session' →
        (∀ fire ∈ (session'.firesOf task).drop (session.firesOf task).length,
          fire.coalescedCount < maxCoalesceIterations) →
        host.CaughtUp task parsed (session'.baseMs task) now) ∧
      ∃ session', Transition.Run (step host task) Transition.Always {}
        (labels.filter (·.isTick)) session' ∧ session'.firesOf task = session.firesOf task := by
  obtain ⟨remembers, exact'⟩ := exact_of_run recurring parses run
  obtain ⟨session', run', same, -⟩ := run_without_restarts recurring parses run
  exact ⟨exact'.counted, exact'.each, List.isChain_iff_pairwise.1 exact'.increasing,
    lastSeenAt_of_run recurring parses run,
    fun now before after throws session' calm next => caughtUp_of_step recurring parses remembers
      calm next, session', run', same⟩

/-- A task for the leap day, created at the beginning of 2096. -/
def leapDayTask : CronTask :=
  { id := "00000000", cron := "0 0 29 2 *", createdAt := 3976214400000 }

def leapDayExpression : ParsedCronExpression :=
  { raw := "0 0 29 2 *".toList, minutes := [0], hours := [0], daysOfMonth := [29], months := [2]
    daysOfWeek := [0, 1, 2, 3, 4, 5, 6, 0], daysOfMonthWildcard := false
    daysOfWeekWildcard := true }

/-- After the tick on the first of March 2096, and then on the first of March 2104. -/
def leapDaySession : CronSession where
  scheduler := CronScheduler.tick {} {} { now := 3981398400000, source := [leapDayTask] }
  clock := some 3981398400000

def leapDayLater : CronSession where
  scheduler := leapDaySession.scheduler.tick {}
    { now := 4233772800000
      source := [{ leapDayTask with lastFiredAt := leapDaySession.cursor leapDayTask }] }
  clock := some 4233772800000

theorem leapDay_parses : parseCronExpression leapDayTask.cron = some leapDayExpression := by
  decide +kernel

theorem leapDay_first :
    computeNextCronRun 0 leapDayExpression leapDayTask.createdAt = some 3981312000000 := by
  decide +kernel

theorem leapDay_midnight {t : ℤ} (occurs : IsCronOccurrence 0 leapDayExpression t) :
    ∃ y, t = (dayFromYear y + 59) * msPerDay ∧ inLeapYear y = 1 := by
  rw [IsCronOccurrence, add_zero] at occurs
  obtain ⟨aligned, month, right, hour, minute⟩ := occurs
  have february : monthFromDay (day t) = 1 := Nat.succ.inj (List.mem_singleton.1 month)
  have last := List.mem_singleton.1 (of_decide_eq_true right)
  have midnight := List.mem_singleton.1 hour
  have zero := List.mem_singleton.1 minute
  have before := lt_monthStart_succ (day t)
  rw [getDate, dateFromDay] at last
  rw [february] at last before
  change day t - dayFromYear (yearFromDay (day t)) < 59 + inLeapYear (yearFromDay (day t)) at before
  change (day t - dayFromYear (yearFromDay (day t)) - 31 + 1).toNat = 29 at last
  have leap := inLeapYear_bounds (yearFromDay (day t))
  refine ⟨yearFromDay (day t), ?_, by omega⟩
  unfold getHours getMinutes day msPerDay msPerHour msPerMinute at *
  omega

theorem leapDay_gap : computeNextCronRun 0 leapDayExpression 3981312000000 = none := by
  -- as a variable, so that the search is not run
  generalize same : (3981312000000 : ℤ) = last
  have finds := computeNextCronRun_finds 0 leapDayExpression last
  generalize computeNextCronRun 0 leapDayExpression last = found at finds ⊢
  cases found with
  | none => rfl
  | some =>
    obtain ⟨next, near⟩ := finds
    obtain ⟨y, rfl, leap⟩ := leapDay_midnight next.occurs
    have later := next.lt
    unfold dayFromYear msPerDay at later near
    unfold cronWindowMs cronWindowMinutes msPerMinute at near
    have years : 2096 < y ∧ y < 2102 := by omega
    obtain ⟨from', to'⟩ := years
    interval_cases y <;> simp [inLeapYear, daysInYear] at leap

theorem leapDay_due : CronHost.due {} leapDayTask leapDayExpression leapDayTask.createdAt
    3981398400000 = some (1, some 3981312000000) := by
  refine CronHost.due_of_gap (by decide) leapDay_first leapDay_gap
    ((CronHost.jittered_le (by decide) _).trans ?_)
  unfold recurringMaxMs
  norm_num

theorem leapDay_first_tick : ({} : CronSession).step {} leapDayTask
    (.tick false true 3981398400000 [] [] fun _ => false) = some leapDaySession :=
  step_tick (fun _ no => nomatch no) fun _ no => nomatch no

theorem leapDay_run : Transition.Run (step {} leapDayTask) Transition.Always {}
    [.tick false true 3981398400000 [] [] fun _ => false] leapDaySession :=
  .snoc .nil trivial leapDay_first_tick

theorem leapDay_next : leapDaySession.step {} leapDayTask
    (.tick false true 4233772800000 [] [] fun _ => false) = some leapDayLater :=
  step_tick (fun last mem => by obtain rfl := Option.some.inj mem; decide) fun _ no => nomatch no

theorem leapDay_fires : leapDaySession.firesOf leapDayTask =
    [{ taskId := "00000000", coalescedCount := 1, now := 3981398400000
       advancedTo := some 3981312000000 }] := by
  have fires := (step_followed (by decide) leapDay_parses remembers_initial leapDay_first_tick).1
  exact fires.trans (congrArg ([] ++ ·) (CronHost.delivers_of_some rfl leapDay_due))

theorem cron_delivery_leapDay : ((leapDaySession.firesOf leapDayTask).map (·.coalescedCount)).sum =
    Schedule.count (CronHost.Occurs {} leapDayExpression) leapDayTask.createdAt
      (leapDaySession.baseMs leapDayTask) :=
  (cron_delivery (by decide) leapDay_parses leapDay_run).1

/-- Ticking on the first of March 2104 does not deliver the leap day before it. -/
theorem leapDay_lost : ¬∀ (host : CronHost) (task : CronTask) (parsed : ParsedCronExpression)
    (labels : List CronLabel) (session session' : CronSession) (now : ℤ)
    (before after : List CronTask) (throws : String → Bool),
    task.recurring ≠ some false → parseCronExpression task.cron = some parsed →
    Transition.Run (step host task) Transition.Always {} labels session →
    throws task.id = false →
    session.step host task (.tick false true now before after throws) = some session' →
    (∀ fire ∈ (session'.firesOf task).drop (session.firesOf task).length,
      fire.coalescedCount < maxCoalesceIterations) →
    ∀ t, host.Occurs parsed t → session'.baseMs task < t →
      (now : ℚ) < host.jittered task parsed t := by
  intro all
  have remembers := (exact_of_run (by decide) leapDay_parses leapDay_run).1
  have cursor : leapDaySession.cursor leapDayTask = some 3981312000000 := by
    rw [CronSession.cursor, leapDay_fires]
    rfl
  have fires := (step_followed (by decide) leapDay_parses remembers leapDay_next).1
  have base : leapDaySession.baseMs leapDayTask = 3981312000000 := by rw [baseMs, cursor]; rfl
  have nothing : CronHost.due {} leapDayTask leapDayExpression 3981312000000 4233772800000 = none :=
    CronHost.due_of_none leapDay_gap
  rw [base, CronHost.delivers_of_none nothing, List.append_nil] at fires
  have base' : leapDayLater.baseMs leapDayTask = 3981312000000 := by
    rw [baseMs, CronSession.cursor, fires, leapDay_fires]
    rfl
  have early := all {} leapDayTask leapDayExpression _ leapDaySession leapDayLater _ [] [] _
    (by decide) leapDay_parses leapDay_run rfl leapDay_next
    (by rw [fires, List.drop_length]; exact fun _ no => nomatch no)
    4233686400000 (by decide +kernel) (by rw [base']; decide)
  have late : CronHost.jittered {} leapDayTask leapDayExpression 4233686400000 ≤
      (4233686400000 : ℤ) + recurringMaxMs := CronHost.jittered_le (by decide) _
  unfold recurringMaxMs at late
  norm_num at early late
  linarith

end CronSession

end KimiCli
