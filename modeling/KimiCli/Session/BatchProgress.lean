import KimiCli.Session.BatchAccounting

/-!
# A batch never stalls

When `schedule()` returns and work is queued, an attempt is active or a launch timer is armed.  The
invariant `Clocked` ties the phase, the capacity and the timers together; `NoStall` is then read off
every place where `schedule()` returns.
-/

namespace KimiCli

variable {T : Type}

namespace SubagentBatch

/-- Phase, capacity and launch timers fit together. -/
structure Clocked (s : SubagentBatch T) : Prop where
  capacity : 1 ≤ s.rateLimitCapacity
  limited : s.rateLimitMode = true → s.lastRateLimitAt.isSome = true ∧ s.normalLaunchTimer = none
  normalTimer : ∀ id, s.normalLaunchTimer = some id → ∃ timer ∈ s.timers, timer.id = id
  rateTimers : ∀ timer ∈ s.timers, timer.kind = .rateLimitLaunch → s.rateLimitMode = true
  cap : ∀ maxConcurrency, s.maxConcurrency = some maxConcurrency → 1 ≤ maxConcurrency

/-- A running batch has an empty slot. -/
def Incomplete (s : SubagentBatch T) : Prop :=
  s.started = true → s.finished = false → s.abortReason = none → s.allResults = none

/-- Queued work has something to wait for. -/
def NoStall (s : SubagentBatch T) : Prop :=
  s.finished = false → s.abortReason = none → s.pending ≠ [] → s.active ≠ [] ∨ s.timers ≠ []

/-- The fields that `Clocked` and `Incomplete` depend on are the same. -/
structure SameClock (s t : SubagentBatch T) : Prop where
  maxConcurrency : t.maxConcurrency = s.maxConcurrency
  normalLaunchTimer : t.normalLaunchTimer = s.normalLaunchTimer
  timers : t.timers = s.timers
  rateLimitMode : t.rateLimitMode = s.rateLimitMode
  rateLimitCapacity : t.rateLimitCapacity = s.rateLimitCapacity
  lastRateLimitAt : t.lastRateLimitAt = s.lastRateLimitAt
  started : t.started = s.started
  finished : t.finished = s.finished
  results : t.results = s.results
  abortReason : t.abortReason = s.abortReason

variable {s t : SubagentBatch T} {held : List ℕ} {now : ℕ}

theorem Clocked.congr (h : Clocked s) (same : SameClock s t) : Clocked t where
  capacity := by rw [same.rateLimitCapacity]; exact h.capacity
  limited := by
    rw [same.rateLimitMode, same.lastRateLimitAt, same.normalLaunchTimer]
    exact h.limited
  normalTimer := by
    rw [same.normalLaunchTimer, same.timers]
    exact h.normalTimer
  rateTimers := by
    rw [same.timers, same.rateLimitMode]
    exact h.rateTimers
  cap := by rw [same.maxConcurrency]; exact h.cap

theorem Incomplete.congr (h : Incomplete s) (same : SameClock s t) : Incomplete t := by
  unfold Incomplete allResults
  rw [same.started, same.finished, same.results, same.abortReason]
  exact h

theorem SameClock.refl (s : SubagentBatch T) : SameClock s s :=
  ⟨rfl, rfl, rfl, rfl, rfl, rfl, rfl, rfl, rfl, rfl⟩

theorem SameClock.trans {u : SubagentBatch T} (first : SameClock s t) (second : SameClock t u) :
    SameClock s u where
  maxConcurrency := second.maxConcurrency.trans first.maxConcurrency
  normalLaunchTimer := second.normalLaunchTimer.trans first.normalLaunchTimer
  timers := second.timers.trans first.timers
  rateLimitMode := second.rateLimitMode.trans first.rateLimitMode
  rateLimitCapacity := second.rateLimitCapacity.trans first.rateLimitCapacity
  lastRateLimitAt := second.lastRateLimitAt.trans first.lastRateLimitAt
  started := second.started.trans first.started
  finished := second.finished.trans first.finished
  results := second.results.trans first.results
  abortReason := second.abortReason.trans first.abortReason

theorem sameClock_startAttempt (i : ℕ) (next : AfterStart) :
    SameClock s (s.startAttempt i next).1 := by
  unfold startAttempt
  dsimp only
  split
  · exact .refl s
  · split <;> exact ⟨rfl, rfl, rfl, rfl, rfl, rfl, rfl, rfl, rfl, rfl⟩

/-- What the progress argument needs to know about the end of a piece of code. -/
structure Paced (s : SubagentBatch T) (r : SubagentBatch T × Exit) : Prop where
  clocked : Clocked r.1
  incomplete : Incomplete r.1
  mode : s.rateLimitMode = true → r.1.rateLimitMode = true
  stall : r.2 = .scheduled → NoStall r.1
  frame : ∀ a call passNow, r.2 = .call (.launcher a call (.rateLimit passNow)) →
    r.1.rateLimitMode = true

theorem NoStall.of_finished (finished : s.finished = true) : NoStall s := by
  intro unfinished
  rw [finished] at unfinished
  cases unfinished

/-! ### Timers -/

theorem Clocked.setTimer (h : Clocked s) (kind : TimerKind) (delay : ℕ)
    (mode : kind = .rateLimitLaunch → s.rateLimitMode = true) :
    Clocked (s.setTimer kind delay) where
  capacity := h.capacity
  limited := h.limited
  normalTimer id hid := by
    obtain ⟨timer, mem, heq⟩ := h.normalTimer id hid
    exact ⟨timer, List.mem_append_left _ mem, heq⟩
  rateTimers timer mem kind' := by
    rcases List.mem_append.1 mem with mem | mem
    · exact h.rateTimers timer mem kind'
    · obtain rfl := List.mem_singleton.1 mem
      exact mode kind'
  cap := h.cap

theorem Clocked.clearRateLimitTimer (h : Clocked s) (mode : s.rateLimitMode = true) :
    Clocked s.clearRateLimitTimer ∧ s.clearRateLimitTimer.rateLimitMode = true ∧
      (Incomplete s → Incomplete s.clearRateLimitTimer) := by
  have noNormal := (h.limited mode).2
  unfold SubagentBatch.clearRateLimitTimer clearTimer
  split
  · refine ⟨⟨h.capacity, h.limited, ?_, ?_, h.cap⟩, mode, id⟩
    · intro id hid
      rw [show s.normalLaunchTimer = some id from hid] at noNormal
      cases noNormal
    · exact fun timer mem kind => h.rateTimers timer (List.mem_of_mem_filter mem) kind
  · exact ⟨{ h with }, mode, id⟩

theorem armNormalTimer_paced (h : Clocked s) (incomplete : Incomplete s)
    (busy : s.finished = false → s.rateLimitMode = true → s.active ≠ []) :
    Clocked s.armNormalTimer ∧ Incomplete s.armNormalTimer ∧ NoStall s.armNormalTimer ∧
      s.armNormalTimer.rateLimitMode = s.rateLimitMode := by
  unfold armNormalTimer
  split
  case isTrue reason =>
    refine ⟨h, incomplete, fun unfinished _ queued => ?_, rfl⟩
    rcases reason with empty | mode | armed | full
    · exact absurd empty queued
    · exact .inl (busy unfinished mode)
    · obtain ⟨id, hid⟩ := Option.ne_none_iff_exists'.1 armed
      obtain ⟨timer, mem, _⟩ := h.normalTimer id hid
      exact .inr (List.ne_nil_of_mem mem)
    · refine .inl fun idle => ?_
      unfold isAtConcurrencyLimit at full
      split at full
      case h_1 => cases full
      case h_2 maxConcurrency hmax =>
        have := h.cap maxConcurrency hmax
        rw [idle] at full
        simp only [List.length_nil, decide_eq_true_eq, Nat.cast_zero] at full
        omega
  case isFalse reason =>
    push Not at reason
    obtain ⟨_, mode, _, _⟩ := reason
    have armed := h.setTimer .normalLaunch INITIAL_LAUNCH_INTERVAL_MS (by simp)
    refine ⟨?_, incomplete, fun _ _ _ => .inr (by simp [setTimer]), rfl⟩
    exact
      { capacity := armed.capacity
        limited := fun limited => absurd limited mode
        normalTimer := by
          intro id hid
          refine ⟨_, List.mem_append_right _ (List.mem_singleton_self _), ?_⟩
          exact Option.some.inj hid
        rateTimers := armed.rateTimers
        cap := armed.cap }

theorem Clocked.scheduleRateLimitWakeup (h : Clocked s) (mode : s.rateLimitMode = true)
    (wakeupAt : Time) : Clocked (s.scheduleRateLimitWakeup wakeupAt now) := by
  unfold SubagentBatch.scheduleRateLimitWakeup
  split
  · exact h
  · split
    · exact h
    · exact { h.setTimer .rateLimitLaunch _ (fun _ => mode) with }

theorem Incomplete.scheduleRateLimitWakeup (h : Incomplete s) (wakeupAt : Time) :
    Incomplete (s.scheduleRateLimitWakeup wakeupAt now) := by
  unfold SubagentBatch.scheduleRateLimitWakeup
  split
  · exact h
  · split <;> exact h

theorem scheduleRateLimitWakeup_mode (wakeupAt : Time) :
    (s.scheduleRateLimitWakeup wakeupAt now).rateLimitMode = s.rateLimitMode := by
  unfold scheduleRateLimitWakeup
  split
  · rfl
  · split <;> rfl

theorem scheduleRateLimitWakeup_armed {wakeupAt : ℕ} (later : now < wakeupAt) :
    ∃ timer ∈ (s.scheduleRateLimitWakeup wakeupAt now).timers,
      (s.scheduleRateLimitWakeup wakeupAt now).rateLimitLaunchTimer = some timer.id ∧
      timer.kind = .rateLimitLaunch ∧ now + timer.delay = wakeupAt := by
  have armed : s.scheduleRateLimitWakeup wakeupAt now =
      { s.setTimer .rateLimitLaunch (wakeupAt - now) with
        rateLimitLaunchTimer := some s.nextTimerId } :=
    if_neg (Nat.not_le.2 later)
  rw [armed]
  refine ⟨_, List.mem_append_right _ (List.mem_singleton_self _), rfl, rfl, ?_⟩
  show now + (wakeupAt - now) = wakeupAt
  omega

/-! ### Launching -/

/-- What becomes of a queued task that is given to `startAttempt`. -/
structure Started (s : SubagentBatch T) (i : ℕ) (rest : List ℕ) (next : AfterStart)
    (r : SubagentBatch T × Option Frame) : Prop where
  same : SameClock s r.1
  runs : r.1.Runs
  pending : r.1.pending = rest
  active : s.finished = false → r.1.active ≠ []
  frame : ∀ frame, r.2 = some frame → ∃ a call, frame = .launcher a call next

theorem Runs.launch (runs : s.Runs) (i : ℕ) (rest : List ℕ) (next : AfterStart) :
    Started s i rest next (SubagentBatch.startAttempt { s with pending := rest } i next) := by
  have dequeued : SameClock s { s with pending := rest } :=
    ⟨rfl, rfl, rfl, rfl, rfl, rfl, rfl, rfl, rfl, rfl⟩
  have same := dequeued.trans (sameClock_startAttempt i next)
  by_cases unfinished : s.finished = false
  · have running := runs.resolve_left (by simp [unfinished])
    obtain ⟨attempt, _, _, eq, frames⟩ := startAttempt_spec (s := { s with pending := rest })
      (i := i) next unfinished running
    refine ⟨same, by rw [eq]; exact runs, by rw [eq], fun _ => by rw [eq]; simp, ?_⟩
    intro frame hframe
    obtain ⟨call, rfl⟩ := frames frame hframe
    exact ⟨_, call, rfl⟩
  · rw [startAttempt_of_stopped (s := { s with pending := rest })
      (.inl (by simpa using unfinished))]
    exact ⟨dequeued, runs, rfl, fun h => absurd h unfinished, by simp⟩

theorem launchPending_paced : ∀ {pending : List ℕ} {s : SubagentBatch T}, Clocked s →
    Incomplete s → s.pending = pending → s.Runs →
    (s.finished = false → s.rateLimitMode = true → s.active ≠ []) →
    Paced s (launchPending pending s)
  | [], s, h, incomplete, _, _, busy => by
    obtain ⟨clocked, incomplete, stall, mode⟩ := armNormalTimer_paced h incomplete busy
    exact ⟨clocked, incomplete, fun h => mode.trans h, fun _ => stall, by simp [launchPending]⟩
  | i :: rest, s, h, incomplete, hpending, runs, busy => by
    unfold launchPending
    split_ifs with allowed
    · obtain ⟨same, runs', pending, _, frames⟩ := runs.launch i rest .normalLoop
      split
      case h_1 t frame hr =>
        rw [hr] at same frames
        obtain ⟨a, call, rfl⟩ := frames frame rfl
        exact ⟨h.congr same, incomplete.congr same, fun h => same.rateLimitMode.trans h, by simp,
          by simp⟩
      case h_2 t hr =>
        rw [hr] at same runs' pending
        have counted := same.trans (show SameClock t
          { t with normalLaunchCount := t.normalLaunchCount + 1 } from
            ⟨rfl, rfl, rfl, rfl, rfl, rfl, rfl, rfl, rfl, rfl⟩)
        have after := launchPending_paced (h.congr counted) (incomplete.congr counted) pending runs'
          fun _ mode => by
            rw [counted.rateLimitMode, allowed.2.1] at mode
            cases mode
        exact { after with mode := fun h => after.mode (counted.rateLimitMode.trans h) }
    · obtain ⟨clocked, incomplete, stall, mode⟩ := armNormalTimer_paced h incomplete busy
      exact ⟨clocked, incomplete, fun h => mode.trans h, fun _ => stall, by simp⟩

theorem Clocked.recoverRateLimitCapacity (h : Clocked s) (mode : s.rateLimitMode = true) :
    Clocked (s.recoverRateLimitCapacity now) ∧
      (s.recoverRateLimitCapacity now).rateLimitMode = true ∧
      (Incomplete s → Incomplete (s.recoverRateLimitCapacity now)) := by
  unfold SubagentBatch.recoverRateLimitCapacity
  split
  · exact ⟨h, mode, id⟩
  · exact ⟨{ h with capacity := Nat.le_add_left _ _ }, mode, id⟩

theorem recovery_later (now : ℕ) (limited : s.lastRateLimitAt.isSome = true)
    (queued : s.pending ≠ []) :
    ∃ recoveryAt : ℕ,
      (s.recoverRateLimitCapacity now).nextRateLimitCapacityRecoveryAt = recoveryAt ∧
      now < recoveryAt := by
  obtain ⟨last, hlast⟩ := Option.isSome_iff_exists.1 limited
  obtain ⟨i, rest, hpending⟩ := List.exists_cons_of_ne_nil queued
  have value : ∀ u : SubagentBatch T,
      u.pending = s.pending → u.lastRateLimitAt = s.lastRateLimitAt →
      u.nextRateLimitCapacityRecoveryAt = ((max last (u.lastCapacityRecoveryAt.getD 0) +
        RATE_LIMIT_CAPACITY_RECOVERY_INTERVAL_MS : ℕ) : Time) := by
    intro u hp hl
    unfold nextRateLimitCapacityRecoveryAt
    rw [hp, hl, hpending, hlast]
  unfold recoverRateLimitCapacity
  split
  case isTrue waiting =>
    rw [value s rfl rfl] at waiting ⊢
    exact ⟨_, rfl, by exact_mod_cast waiting⟩
  case isFalse =>
    refine ⟨_, value _ rfl rfl, ?_⟩
    simp only [Option.getD_some, RATE_LIMIT_CAPACITY_RECOVERY_INTERVAL_MS]
    omega

theorem afterRateLimitStart_paced (now : ℕ) (h : Clocked s) (incomplete : Incomplete s)
    (mode : s.rateLimitMode = true) :
    Clocked (s.afterRateLimitStart now) ∧ Incomplete (s.afterRateLimitStart now) ∧
      (s.afterRateLimitStart now).rateLimitMode = true := by
  unfold afterRateLimitStart scheduleNextRateLimitWakeup
  have moved :
      SameClock s { s with nextRateLimitLaunchAt := (now : Time) + s.globalRetryIntervalMs } :=
    ⟨rfl, rfl, rfl, rfl, rfl, rfl, rfl, rfl, rfl, rfl⟩
  split
  · exact ⟨h.congr moved, incomplete.congr moved, mode⟩
  · exact ⟨(h.congr moved).scheduleRateLimitWakeup mode _,
      (incomplete.congr moved).scheduleRateLimitWakeup _,
      (scheduleRateLimitWakeup_mode _).trans mode⟩

/-- The minimum over the queue is reached by a queued task. -/
theorem exists_ready {ready : Time} (queued : s.pending ≠ []) (le : s.nextPendingReadyAt ≤ ready) :
    ∃ i ∈ s.pending, (s.states i).retryReadyAt ≤ ready := by
  have general : ∀ (l : List ℕ) (acc : Time),
      l.foldl (fun nextAt i => min nextAt (s.states i).retryReadyAt) acc ≤ ready →
      acc ≤ ready ∨ ∃ i ∈ l, (s.states i).retryReadyAt ≤ ready := by
    intro l
    induction l with
    | nil => exact fun acc h => .inl h
    | cons i l ih =>
      intro acc h
      rcases ih _ h with h | ⟨j, mem, hj⟩
      · rcases min_le_iff.1 h with h | h
        · exact .inl h
        · exact .inr ⟨i, List.mem_cons_self .., h⟩
      · exact .inr ⟨j, List.mem_cons_of_mem _ mem, hj⟩
  rcases general s.pending ⊤ le with top | found
  · obtain ⟨i, rest, hpending⟩ := List.exists_cons_of_ne_nil queued
    exact ⟨i, by simp [hpending], le_trans le_top top⟩
  · exact found

/-! ### A pass in the rate-limit phase -/

/-- The latest of the times that gate the next launch. -/
def latestGate (s : SubagentBatch T) : Time :=
  max (max s.nextPendingReadyAt s.nextRateLimitLaunchAt) s.nextRateLimitCapacityRecoveryAt

/-- A rate-limit timer is armed for a later time, not after the latest gate. -/
def WaitsFrom (s : SubagentBatch T) (now : ℕ) : Prop :=
  ∃ timer ∈ s.timers, s.rateLimitLaunchTimer = some timer.id ∧ timer.kind = .rateLimitLaunch ∧
    0 < timer.delay ∧ ((now + timer.delay : ℕ) : Time) ≤ s.latestGate

theorem latestGate_scheduleRateLimitWakeup (wakeupAt : Time) :
    (s.scheduleRateLimitWakeup wakeupAt now).latestGate = s.latestGate := by
  unfold scheduleRateLimitWakeup
  split
  · rfl
  · split <;> rfl

theorem scheduleRateLimitWakeup_waits {wakeupAt : Time} {recoveryAt : ℕ} (later : now < wakeupAt)
    (finite : wakeupAt ≤ recoveryAt) (gate : wakeupAt ≤ s.latestGate) :
    WaitsFrom (s.scheduleRateLimitWakeup wakeupAt now) now := by
  obtain ⟨wakeupAt, rfl⟩ := WithTop.ne_top_iff_exists.1
    (ne_top_of_le_ne_top (WithTop.coe_ne_top (a := recoveryAt)) finite)
  have lt : now < wakeupAt := WithTop.coe_lt_coe.1 later
  obtain ⟨timer, mem, handle, kind, delay⟩ := scheduleRateLimitWakeup_armed (s := s) lt
  refine ⟨timer, mem, handle, kind, by omega, ?_⟩
  rw [latestGate_scheduleRateLimitWakeup, delay]
  exact gate

/-- The outcomes of a pass with queued work. -/
inductive PassOutcome (s : SubagentBatch T) (now : ℕ) (r : SubagentBatch T × Exit) : Prop
  /-- The active attempts fill the capacity. -/
  | full (busy : s.active ≠ []) (active : r.1.active = s.active) (exit : r.2 = .scheduled)
  | waits (waits : WaitsFrom r.1 now) (exit : r.2 = .scheduled)
  /-- A queued task is started. -/
  | starts {i : ℕ} (queued : i ∈ s.pending) (owners : r.1.owners = s.owners ++ [i])

theorem launchEligible_paced (now : ℕ) (h : Clocked s) (incomplete : Incomplete s)
    (mode : s.rateLimitMode = true) (unfinished : s.finished = false)
    (running : s.abortReason = none) (known : ∀ a ∈ s.active, a < s.attempts.length)
    (ready : ∃ i ∈ s.pending, (s.states i).retryReadyAt ≤ now) :
    Paced s (s.launchEligible now) ∧
      ∃ i ∈ s.pending, (s.launchEligible now).1.owners = s.owners ++ [i] := by
  unfold launchEligible
  split
  case h_1 none =>
    obtain ⟨i, mem, hi⟩ := ready
    have := List.find?_eq_none.1 none i mem
    simp [eligible, hi] at this
  case h_2 i found =>
    have runs : s.Runs := .inr running
    obtain ⟨same, _, _, active, frames⟩ :=
      runs.launch i (s.pending.eraseP (s.eligible now)) (.rateLimit now)
    have owners :
        (SubagentBatch.startAttempt { s with pending := s.pending.eraseP (s.eligible now) } i
          (.rateLimit now)).1.owners = s.owners ++ [i] :=
      owners_startAttempt (s := { s with pending := s.pending.eraseP (s.eligible now) })
        (.rateLimit now) unfinished running known
    have mem := List.mem_of_find?_eq_some found
    split
    case h_1 t frame hr =>
      rw [hr] at same frames owners
      refine ⟨⟨h.congr same, incomplete.congr same, fun h => same.rateLimitMode.trans h,
        by simp, ?_⟩,
        i, mem, owners⟩
      exact fun _ _ _ _ => same.rateLimitMode.trans mode
    case h_2 t hr =>
      rw [hr] at same active owners
      have mode' : t.rateLimitMode = true := same.rateLimitMode.trans mode
      obtain ⟨clocked, incomplete, mode''⟩ :=
        afterRateLimitStart_paced now (h.congr same) (incomplete.congr same) mode'
      have core := same_afterRateLimitStart (s := t) now
      refine ⟨⟨clocked, incomplete, fun _ => mode'', fun _ _ _ _ => ?_, by simp⟩, i, mem, ?_⟩
      · refine .inl ?_
        show (t.afterRateLimitStart now).active ≠ []
        rw [core.active]
        exact active unfinished
      · exact core.owners_eq.trans owners

theorem scheduleRateLimitLaunch_paced (now : ℕ) (h : Clocked s) (incomplete : Incomplete s)
    (mode : s.rateLimitMode = true) (unfinished : s.finished = false)
    (running : s.abortReason = none) (known : ∀ a ∈ s.active, a < s.attempts.length) :
    Paced s (s.scheduleRateLimitLaunch now) ∧
      (s.pending ≠ [] → PassOutcome s now (s.scheduleRateLimitLaunch now)) := by
  have core := same_clearRateLimitTimer (s := s)
  obtain ⟨clear, clearMode, clearIncomplete⟩ := h.clearRateLimitTimer mode
  unfold scheduleRateLimitLaunch
  dsimp only
  split
  case isTrue empty =>
    refine ⟨⟨clear, clearIncomplete incomplete, fun _ => clearMode, ?_, by simp⟩, ?_⟩
    · exact fun _ _ _ queued => absurd empty queued
    · exact fun queued => absurd (core.pending.symm.trans empty) queued
  case isFalse queued =>
    have limited := (clear.limited clearMode).1
    obtain ⟨recoveryAt, recovery, later⟩ := recovery_later now limited queued
    obtain ⟨clocked, mode', incomplete'⟩ := clear.recoverRateLimitCapacity clearMode
    have recovered : SameCore s (s.clearRateLimitTimer.recoverRateLimitCapacity now) :=
      core.trans same_recoverRateLimitCapacity
    unfold launchOrWait
    generalize s.clearRateLimitTimer.recoverRateLimitCapacity now = u at *
    dsimp only
    split
    case isTrue full =>
      have busy : u.active ≠ [] := by
        intro idle
        have := clocked.capacity
        rw [idle] at full
        simp only [List.length_nil] at full
        omega
      have after := same_scheduleRateLimitWakeup (s := u)
        u.nextRateLimitCapacityRecoveryAt now
      refine ⟨⟨clocked.scheduleRateLimitWakeup mode' _,
        (incomplete' (clearIncomplete incomplete)).scheduleRateLimitWakeup _,
        fun _ => (scheduleRateLimitWakeup_mode _).trans mode', ?_, by simp⟩, ?_⟩
      · exact fun _ _ _ _ => .inl (by rwa [after.active])
      · exact fun _ => .full (recovered.active ▸ busy) (after.active.trans recovered.active) rfl
    case isFalse =>
      split
      case isTrue waiting =>
        have waits : WaitsFrom (u.scheduleRateLimitWakeup
            (min (max u.nextRateLimitLaunchAt u.nextPendingReadyAt)
              u.nextRateLimitCapacityRecoveryAt) now) now := by
          refine scheduleRateLimitWakeup_waits waiting ((min_le_right _ _).trans recovery.le) ?_
          exact (min_le_right _ _).trans (le_max_right _ _)
        refine ⟨⟨clocked.scheduleRateLimitWakeup mode' _,
          (incomplete' (clearIncomplete incomplete)).scheduleRateLimitWakeup _,
          fun _ => (scheduleRateLimitWakeup_mode _).trans mode', ?_, by simp⟩, ?_⟩
        · obtain ⟨timer, mem, _⟩ := waits
          exact fun _ _ _ _ => .inr (List.ne_nil_of_mem mem)
        · exact fun _ => .waits waits rfl
      case isFalse due =>
        -- the recovery is still to come, so the queue and the global launch time are due
        have ready : u.nextPendingReadyAt ≤ now := by
          rw [gt_iff_lt, not_lt, min_le_iff, recovery] at due
          rcases due with due | due
          · exact (le_max_right _ _).trans due
          · exact absurd (by exact_mod_cast due) (Nat.not_le.2 later)
        have queued' : u.pending ≠ [] := by rwa [recovered.pending, ← core.pending]
        obtain ⟨paced, i, mem, owners⟩ := launchEligible_paced now clocked
          (incomplete' (clearIncomplete incomplete)) mode' (recovered.finished.trans unfinished)
          (recovered.abortReason.trans running)
          (by rw [recovered.active, recovered.attempts]; exact known) (exists_ready queued' ready)
        refine ⟨{ paced with mode := fun _ => paced.mode mode' }, fun _ => ?_⟩
        exact .starts (recovered.pending ▸ mem) (recovered.owners_eq ▸ owners)

/-! ### `schedule` and the handlers -/

theorem clearNormalTimer_fields : s.clearNormalTimer.rateLimitCapacity = s.rateLimitCapacity ∧
    s.clearNormalTimer.rateLimitMode = s.rateLimitMode ∧
    s.clearNormalTimer.lastRateLimitAt = s.lastRateLimitAt ∧
    s.clearNormalTimer.maxConcurrency = s.maxConcurrency ∧
    s.clearNormalTimer.normalLaunchTimer = none := by
  unfold clearNormalTimer clearTimer
  split <;> exact ⟨rfl, rfl, rfl, rfl, rfl⟩

theorem cleanup_fields : s.cleanup.rateLimitCapacity = s.rateLimitCapacity ∧
    s.cleanup.rateLimitMode = s.rateLimitMode ∧ s.cleanup.lastRateLimitAt = s.lastRateLimitAt ∧
    s.cleanup.maxConcurrency = s.maxConcurrency ∧ s.cleanup.normalLaunchTimer = none := by
  obtain ⟨capacity, mode, last, cap, timer⟩ := clearNormalTimer_fields (s := s)
  unfold cleanup clearRateLimitTimer clearTimer
  split <;> exact ⟨capacity, mode, last, cap, timer⟩

theorem cleanup_timers : ∀ timer ∈ s.cleanup.timers, timer ∈ s.timers := by
  have normal : ∀ timer ∈ s.clearNormalTimer.timers, timer ∈ s.timers := by
    unfold clearNormalTimer clearTimer
    split
    · exact fun timer mem => List.mem_of_mem_filter mem
    · exact fun timer mem => mem
  unfold cleanup clearRateLimitTimer clearTimer
  split
  · exact fun timer mem => normal timer (List.mem_of_mem_filter mem)
  · exact normal

theorem cleanup_clocked (h : Clocked s) : Clocked s.cleanup := by
  obtain ⟨capacity, mode, last, cap, timer⟩ := cleanup_fields (s := s)
  exact
    { capacity := capacity ▸ h.capacity
      limited := fun limited => ⟨last ▸ (h.limited (mode ▸ limited)).1, timer⟩
      normalTimer := by simp [timer]
      rateTimers := fun timer mem kind => mode ▸ h.rateTimers timer (cleanup_timers timer mem) kind
      cap := cap ▸ h.cap }

theorem finish_mode (results : List (SubagentResult T)) :
    (s.finish results).rateLimitMode = s.rateLimitMode := by
  unfold finish
  split
  · rfl
  · exact cleanup_fields.2.1

theorem finish_clocked (h : Clocked s) (results : List (SubagentResult T)) :
    Clocked (s.finish results) := by
  have closing : Clocked { s with finished := true } := { h with }
  unfold finish
  split
  · exact h
  · exact { cleanup_clocked closing with }

theorem finish_finished (results : List (SubagentResult T)) :
    (s.finish results).finished = true := by
  by_cases unfinished : s.finished = false
  · exact (closes_finish unfinished results).finished
  · simp_all [finish]

theorem fail_clocked (h : Clocked s) (reason : AbortReason) : Clocked (s.fail reason) := by
  have closing : Clocked { s with finished := true } := { h with }
  unfold fail
  split
  · exact h
  · exact { cleanup_clocked closing with }

theorem fail_finished (reason : AbortReason) : (s.fail reason).finished = true := by
  by_cases unfinished : s.finished = false
  · exact (closes_fail unfinished reason).finished
  · simp_all [fail]

theorem fail_mode (reason : AbortReason) : (s.fail reason).rateLimitMode = s.rateLimitMode := by
  unfold fail
  split
  · rfl
  · exact cleanup_fields.2.1

theorem finishWithUserCancellation_eq : s.finishWithUserCancellation =
    s.finish (s.tasks.mapIdx fun i task => s.cancelledResult i task) := by
  unfold finishWithUserCancellation finish
  split <;> rfl

theorem Incomplete.of_finished (finished : s.finished = true) : Incomplete s := by
  intro _ unfinished
  rw [finished] at unfinished
  cases unfinished

theorem Incomplete.of_aborted (aborted : s.abortReason.isSome = true) : Incomplete s := by
  intro _ _ running
  rw [running] at aborted
  cases aborted

theorem schedule_paced (now : ℕ) (h : Clocked s) (known : ∀ a ∈ s.active, a < s.attempts.length) :
    Paced s (s.schedule now) := by
  unfold schedule
  by_cases finished : s.finished = true
  · rw [if_pos finished]
    exact ⟨h, .of_finished finished, id, fun _ => .of_finished finished, by simp⟩
  rw [if_neg finished]
  have unfinished : s.finished = false := by simpa using finished
  split
  case h_1 results all =>
    have closes := closes_finish unfinished results
    exact ⟨finish_clocked h results, .of_finished closes.finished,
      fun mode => (finish_mode results).trans mode, fun _ => .of_finished closes.finished, by simp⟩
  case h_2 unfilled =>
    have incomplete : Incomplete s := fun _ _ _ => unfilled
    split_ifs with aborted mode
    · refine ⟨h, incomplete, id, fun _ _ running => ?_, by simp⟩
      rw [show s.abortReason = none from running] at aborted
      cases aborted
    · exact (scheduleRateLimitLaunch_paced _ h incomplete mode unfinished (by simpa using aborted)
        known).1
    · exact launchPending_paced h incomplete rfl (.inr (by simpa using aborted)) fun _ h =>
        absurd h mode

theorem schedule_of_rateLimitMode (unfinished : s.finished = false) (unfilled : s.allResults = none)
    (running : s.abortReason = none) (mode : s.rateLimitMode = true) :
    s.schedule now = s.scheduleRateLimitLaunch now := by
  simp [schedule, unfinished, unfilled, running, mode]

theorem afterStart_paced (now : ℕ) (next : AfterStart) (h : Clocked s) (incomplete : Incomplete s)
    (runs : s.Runs) (known : ∀ a ∈ s.active, a < s.attempts.length)
    (active : s.finished = false → s.active ≠ [])
    (mode : ∀ passNow, next = .rateLimit passNow → s.rateLimitMode = true) :
    Paced s (s.afterStart now next) := by
  have counted : SameClock s { s with normalLaunchCount := s.normalLaunchCount + 1 } :=
    ⟨rfl, rfl, rfl, rfl, rfl, rfl, rfl, rfl, rfl, rfl⟩
  cases next with
  | normalLoop =>
    have after := launchPending_paced (h.congr counted) (incomplete.congr counted) rfl runs
      fun unfinished _ => active unfinished
    exact { after with }
  | normalTimer =>
    have after := schedule_paced now (h.congr counted) known
    exact { after with }
  | rateLimit passNow =>
    obtain ⟨clocked, incomplete, mode⟩ :=
      afterRateLimitStart_paced passNow h incomplete (mode passNow rfl)
    have core := same_afterRateLimitStart (s := s) passNow
    refine ⟨clocked, incomplete, fun _ => mode, fun _ unfinished _ _ => .inl ?_, by
      simp [afterStart]⟩
    show (s.afterRateLimitStart passNow).active ≠ []
    rw [core.active]
    exact active (core.finished.symm.trans unfinished)

theorem markAttemptReady_paced (a now later : ℕ) (h : Clocked s) (incomplete : Incomplete s)
    (known : ∀ a ∈ s.active, a < s.attempts.length) :
    Paced s (s.markAttemptReady a now later) := by
  have idle : Paced s (s, .done) := ⟨h, incomplete, id, by simp, by simp⟩
  unfold markAttemptReady
  split
  case h_1 => exact idle
  case h_2 attempt _ =>
    dsimp only
    split
    case isTrue => exact idle
    case isFalse =>
      split
      case isTrue =>
        have after := schedule_paced later (s := { (s.modifyAttempt a fun attempt =>
          { attempt with ready := true }).setState attempt.state fun state =>
            { state with started := true } with
          globalRetryIntervalMs := RATE_LIMIT_RETRY_BASE_MS
          nextRateLimitLaunchAt := ((now + RATE_LIMIT_RETRY_BASE_MS : ℕ) : Time) })
          { h with } (by simpa [setState, modifyAttempt] using known)
        exact { after with }
      case isFalse => exact ⟨{ h with }, incomplete, id, by simp, by simp⟩

theorem shrinkRateLimitCapacity_clocked (h : Clocked s) (force : Bool) :
    Clocked (s.shrinkRateLimitCapacity now force) := by
  unfold shrinkRateLimitCapacity
  split
  · exact h
  · exact { h with capacity := Nat.le_max_left _ _ }

theorem shrinkRateLimitCapacity_mode (force : Bool) :
    (s.shrinkRateLimitCapacity now force).rateLimitMode = s.rateLimitMode := by
  unfold shrinkRateLimitCapacity
  split <;> rfl

theorem enterRateLimitMode_mode : (s.enterRateLimitMode now).rateLimitMode = true := by
  unfold enterRateLimitMode
  split
  case isTrue mode => exact (shrinkRateLimitCapacity_mode false).trans mode
  case isFalse => exact (shrinkRateLimitCapacity_mode true).trans clearNormalTimer_fields.2.1

theorem enterRateLimitMode_clocked (now : ℕ) (h : Clocked s)
    (limited : s.lastRateLimitAt.isSome = true) :
    Clocked (s.enterRateLimitMode now) := by
  unfold enterRateLimitMode
  split
  case isTrue mode => exact shrinkRateLimitCapacity_clocked h false
  case isFalse =>
    obtain ⟨_, mode, last, cap, timer⟩ :=
      clearNormalTimer_fields (s := { s with rateLimitMode := true })
    have entered : Clocked { clearNormalTimer { s with rateLimitMode := true } with
        rateLimitCapacity :=
          max 1 (clearNormalTimer { s with rateLimitMode := true }).startedSuccessCount
        nextRateLimitLaunchAt :=
          max (clearNormalTimer { s with rateLimitMode := true }).nextRateLimitLaunchAt
            ((now + RATE_LIMIT_RETRY_BASE_MS : ℕ) : Time) } :=
      { capacity := Nat.le_max_left _ _
        limited := fun _ => ⟨(congrArg Option.isSome last).trans limited, timer⟩
        normalTimer := by simp [timer]
        rateTimers := fun _ _ _ => mode
        cap := fun maxConcurrency hmax => h.cap maxConcurrency (cap.symm.trans hmax) }
    exact shrinkRateLimitCapacity_clocked entered true

theorem requeueRateLimited_clocked (createTimeout : ℕ → Time) (now : ℕ)
    (attempt : ActiveAttempt T) (h : Clocked s) :
    Clocked (s.requeueRateLimited createTimeout attempt now) := by
  have set (states : ℕ → TaskState) : Clocked { s with
      lastRateLimitAt := some now
      states
      pending := attempt.state :: s.pending } :=
    { h with limited := fun mode => ⟨rfl, (h.limited mode).2⟩ }
  have clocked (states : ℕ → TaskState) := enterRateLimitMode_clocked now (set states) rfl
  unfold requeueRateLimited delayNextLaunch
  split
  · exact { clocked _ with }
  · exact { clocked _ with }

theorem requeueRateLimited_mode (createTimeout : ℕ → Time) (now : ℕ) (attempt : ActiveAttempt T) :
    (s.requeueRateLimited createTimeout attempt now).rateLimitMode = true := by
  unfold requeueRateLimited delayNextLaunch
  split <;> exact enterRateLimitMode_mode

theorem Clocked.dropTimers (h : Clocked s) (timers : List LaunchTimer)
    (sub : ∀ timer ∈ timers, timer ∈ s.timers) (idle : s.normalLaunchTimer = none) :
    Clocked { s with timers } :=
  { h with
    normalTimer := fun id hid => by
      rw [show s.normalLaunchTimer = some id from hid] at idle; cases idle
    rateTimers := fun timer mem kind => h.rateTimers timer (sub timer mem) kind }

theorem Clocked.clearNormal (h : Clocked s) : Clocked { s with normalLaunchTimer := none } :=
  { h with
    limited := fun mode => ⟨(h.limited mode).1, rfl⟩
    normalTimer := by simp }

theorem normalTimerFired_paced (now : ℕ) (cleared : Clocked { s with normalLaunchTimer := none })
    (incomplete : Incomplete s) (runs : s.Runs) (known : ∀ a ∈ s.active, a < s.attempts.length) :
    Paced s (s.normalTimerFired now) := by
  have idle : Paced s ({ s with normalLaunchTimer := none }, .done) :=
    ⟨cleared, incomplete, id, by simp, by simp⟩
  unfold normalTimerFired
  dsimp only
  split
  case h_1 => exact idle
  case h_2 i rest hpending =>
    split
    case isTrue => exact idle
    case isFalse =>
      obtain ⟨same, runs', _, active, frames⟩ :=
        Runs.launch (s := { s with normalLaunchTimer := none }) runs i rest .normalTimer
      have known' := known_startAttempt (s := { s with normalLaunchTimer := none, pending := rest })
        i .normalTimer known
      split
      case h_1 t frame hr =>
        rw [hr] at same frames
        obtain ⟨a, call, rfl⟩ := frames frame rfl
        exact ⟨cleared.congr same, Incomplete.congr (s := { s with normalLaunchTimer := none })
          incomplete same, fun mode => same.rateLimitMode.trans mode, by simp, by simp⟩
      case h_2 t hr =>
        rw [hr] at same runs' active known'
        have after := afterStart_paced now .normalTimer (cleared.congr same)
          (Incomplete.congr (s := { s with normalLaunchTimer := none }) incomplete same) runs'
          known'
          (fun unfinished => active (same.finished.symm.trans unfinished)) (by simp)
        exact { after with mode := fun mode => after.mode (same.rateLimitMode.trans mode) }

end SubagentBatch

/-! ## The machine -/

namespace BatchMachine

open SubagentBatch

/-- The progress invariant of a machine. -/
structure Lively (m : BatchMachine T) : Prop where
  clocked : Clocked m.batch
  incomplete : Incomplete m.batch
  frames : ∀ a call passNow, .launcher a call (.rateLimit passNow) ∈ m.stack →
    m.batch.rateLimitMode = true
  stall : m.scheduled = true → NoStall m.batch

variable {tasks : List (QueuedSubagentTask T)} {m m' : BatchMachine T} {s : SubagentBatch T}
  {stack : List Frame} {createTimeout : ℕ → Time} {event : BatchEvent} {now later : ℕ}

theorem lively_resume {r : SubagentBatch T × Exit} (paced : Paced s r)
    (below : ∀ a call passNow, .launcher a call (.rateLimit passNow) ∈ stack →
      s.rateLimitMode = true) : Lively (BatchMachine.resume stack r) := by
  obtain ⟨t, exit⟩ := r
  have kept := fun a call passNow mem => paced.mode (below a call passNow mem)
  cases exit with
  | call =>
    refine ⟨paced.clocked, paced.incomplete, fun a call passNow mem => ?_,
      fun h => by cases h⟩
    rcases List.mem_cons.1 mem with rfl | mem
    · exact paced.frame a call passNow rfl
    · exact kept a call passNow mem
  | scheduled => exact ⟨paced.clocked, paced.incomplete, kept, fun _ => paced.stall rfl⟩
  | done => exact ⟨paced.clocked, paced.incomplete, kept, fun h => by cases h⟩

theorem handleAttemptOutcome_paced (now : ℕ) {a : ℕ} {attempt : ActiveAttempt T}
    {task : QueuedSubagentTask T} {outcome : AttemptOutcome T} (h : Clocked s)
    (incomplete : Incomplete s) (known : ∀ a ∈ s.active, a < s.attempts.length) :
    Paced s (s.handleAttemptOutcome a attempt task outcome now) := by
  have known' : ∀ b ∈ (s.releaseAttempt a).active, b < s.attempts.length := fun b mem =>
    known b (List.mem_of_mem_erase mem)
  have filled (result : SubagentResult T) :
      Paced s (((s.releaseAttempt a).setResult attempt.state result).schedule now) := by
    have after := schedule_paced now
      (s := (s.releaseAttempt a).setResult attempt.state result) { h with } known'
    exact { after with }
  unfold handleAttemptOutcome
  dsimp only
  split
  case isTrue => exact ⟨h, incomplete, id, by simp, by simp⟩
  case isFalse =>
    split
    case isTrue => exact ⟨{ h with }, incomplete, id, by simp, by simp⟩
    case isFalse =>
      split
      case h_1 result => exact filled result
      case h_2 agentId error =>
        split
        case isTrue => exact filled _
        case isFalse => exact ⟨{ h with }, incomplete, id, by simp, by simp⟩

theorem handleAttemptError_paced (now : ℕ) {a : ℕ} {attempt : ActiveAttempt T}
    {task : QueuedSubagentTask T} {error : String} (h : Clocked s) (incomplete : Incomplete s)
    (known : ∀ a ∈ s.active, a < s.attempts.length) :
    Paced s (s.handleAttemptError a attempt task error now) := by
  have known' : ∀ b ∈ (s.releaseAttempt a).active, b < s.attempts.length := fun b mem =>
    known b (List.mem_of_mem_erase mem)
  unfold handleAttemptError
  dsimp only
  split
  case isTrue => exact ⟨h, incomplete, id, by simp, by simp⟩
  case isFalse =>
    split
    case isTrue => exact ⟨{ h with }, incomplete, id, by simp, by simp⟩
    case isFalse =>
      have after := schedule_paced now (s := (s.releaseAttempt a).setResult attempt.state
        (rejectedResult task ((s.releaseAttempt a).states attempt.state).agentId error))
        { h with } known'
      exact { after with }

theorem batchAbortListener_paced (reason : AbortReason) (h : Clocked s) :
    Paced s (s.batchAbortListener reason) where
  clocked := { h with }
  incomplete := .of_aborted (by simp [batchAbortListener, abortAttempts])
  mode := id
  stall := by simp [batchAbortListener]
  frame := by simp [batchAbortListener]

theorem run_paced (now : ℕ) (h : Clocked s) (known : ∀ a ∈ s.active, a < s.attempts.length) :
    Paced s (s.run now) := by
  have started : Clocked { s with started := true } := { h with }
  unfold SubagentBatch.run
  dsimp only
  split
  case isTrue =>
    exact ⟨finish_clocked started [], .of_finished (finish_finished []),
      fun mode => (finish_mode _).trans mode, by simp, by simp⟩
  case isFalse =>
    split
    case h_1 reason _ =>
      have aborted := batchAbortListener_paced reason started
      exact { aborted with }
    case h_2 =>
      have after := schedule_paced now
        (s := { s with started := true, listening := s.batchSignal.isSome }) { h with } known
      exact { after with }

theorem returned_paced (createTimeout : ℕ → Time) (now later : ℕ) {frame : Frame}
    (inv : Inv tasks s (frame :: stack)) (h : Clocked s)
    (incomplete : Incomplete s) (mode : ∀ a call passNow,
      frame = .launcher a call (.rateLimit passNow) → s.rateLimitMode = true) :
    Paced s (returned createTimeout s now later frame) := by
  cases frame with
  | launcher a call next =>
    refine afterStart_paced later next h incomplete (inv.pop (by simp)) inv.ledger.known ?_ ?_
    · intro unfinished
      exact List.ne_nil_of_mem (inv.launchers unfinished a call next (List.mem_cons_self ..))
    · rintro passNow rfl
      exact mode a call passNow rfl
  | suspended a =>
    obtain ⟨i, hi⟩ := inv.owned a (List.mem_cons_self ..)
    obtain ⟨attempt, hattempt, rfl⟩ := Option.map_eq_some_iff.1 hi
    have ledger : Ledger s (attempt.state :: heldBy s stack) := by
      simpa [heldBy, hi] using inv.ledger
    have queued := (requeueRateLimited_ledger createTimeout now ledger).1
    have clocked := requeueRateLimited_clocked createTimeout now attempt h
    simp only [BatchMachine.returned, hattempt]
    have after := schedule_paced later clocked queued.known
    exact
      { after with mode := fun _ => after.mode (requeueRateLimited_mode createTimeout now attempt) }
  | batchAbort reason =>
    unfold BatchMachine.returned
    dsimp only
    by_cases user : isUserCancellation reason = true
    · rw [if_pos user, finishWithUserCancellation_eq]
      exact ⟨finish_clocked h _, .of_finished (finish_finished _),
        fun mode => (finish_mode _).trans mode, by simp, by simp⟩
    · rw [if_neg user]
      exact ⟨fail_clocked h _, .of_finished (fail_finished _),
        fun mode => (fail_mode _).trans mode, by simp, by simp⟩

theorem Lively.change {t : SubagentBatch T} (h : Lively m) (same : SameClock m.batch t) :
    Lively { m with batch := t, scheduled := false } where
  clocked := h.clocked.congr same
  incomplete := h.incomplete.congr same
  frames a call passNow mem := same.rateLimitMode.trans (h.frames a call passNow mem)
  stall := by simp

theorem Lively.abort (h : Lively m) (signal : ℕ) (reason : AbortReason) :
    Lively (m.abort signal reason) := by
  unfold BatchMachine.abort
  dsimp only
  split
  case isTrue => exact h.change (.refl _)
  case isFalse =>
    split
    case isTrue =>
      have aborted := batchAbortListener_paced reason (s := { m.batch with
        signals := Function.update m.batch.signals signal (some reason) }) { h.clocked with }
      exact lively_resume (s := { m.batch with
        signals := Function.update m.batch.signals signal (some reason) }) aborted h.frames
    case isFalse => exact h.change ⟨rfl, rfl, rfl, rfl, rfl, rfl, rfl, rfl, rfl, rfl⟩

/-- Every event keeps the progress invariant. -/
theorem Lively.step (h : Lively m) (inv : Keeps tasks m)
    (next : step createTimeout m event = some m') :
    Lively m' := by
  cases event with
  | run now =>
    unfold BatchMachine.step at next
    dsimp only at next
    split at next
    case isTrue =>
      cases next
      exact h.change (.refl _)
    case isFalse =>
      cases next
      exact lively_resume (run_paced now h.clocked inv.ledger.known) h.frames
  | ready a now later =>
    cases next
    exact lively_resume
      (markAttemptReady_paced a now later h.clocked h.incomplete inv.ledger.known) h.frames
  | abort signal reason =>
    cases next
    exact h.abort signal reason
  | «return» now later =>
    unfold BatchMachine.step at next
    dsimp only at next
    cases hstack : m.stack with
    | nil => simp [hstack] at next
    | cons frame stack =>
      rw [hstack] at next
      cases next
      have frames := h.frames
      rw [hstack] at frames
      have paced := returned_paced createTimeout now later
        (hstack ▸ inv : Inv tasks m.batch (frame :: stack)) h.clocked h.incomplete
        fun a call passNow heq => frames a call passNow (heq ▸ List.mem_cons_self ..)
      exact lively_resume paced fun a call passNow mem =>
        frames a call passNow (List.mem_cons_of_mem _ mem)
  | timeout =>
    unfold BatchMachine.step at next
    dsimp only at next
    split at next
    case h_1 =>
      split at next
      case isTrue =>
        cases next
        exact h.change ⟨rfl, rfl, rfl, rfl, rfl, rfl, rfl, rfl, rfl, rfl⟩
      case isFalse => cases next
    case h_2 => cases next
  | launched a result =>
    unfold BatchMachine.step at next
    dsimp only at next
    split at next
    case h_1 =>
      split at next
      case h_1 =>
        cases next
        refine h.change ?_
        cases result <;> exact ⟨rfl, rfl, rfl, rfl, rfl, rfl, rfl, rfl, rfl, rfl⟩
      case h_2 => cases next
    case h_2 => cases next
  | completed =>
    unfold BatchMachine.step at next
    dsimp only at next
    split at next
    case h_1 =>
      split at next
      case h_1 =>
        cases next
        exact h.change ⟨rfl, rfl, rfl, rfl, rfl, rfl, rfl, rfl, rfl, rfl⟩
      case h_2 => cases next
    case h_2 => cases next
  | deliver a now =>
    unfold BatchMachine.step at next
    dsimp only at next
    split at next
    case h_1 attempt task _ _ =>
      have same : SameClock m.batch (m.batch.modifyAttempt a fun attempt =>
          { attempt with phase := .delivered }) :=
        ⟨rfl, rfl, rfl, rfl, rfl, rfl, rfl, rfl, rfl, rfl⟩
      have known : ∀ b ∈ m.batch.active, b < (m.batch.attempts.modify a fun attempt =>
          { attempt with phase := .delivered }).length := by
        simpa using inv.ledger.known
      unfold BatchMachine.deliver at next
      dsimp only at next
      split at next
      case h_1 outcome _ =>
        cases next
        exact lively_resume (handleAttemptOutcome_paced now (h.clocked.congr same)
          (h.incomplete.congr same) known) (by simp)
      case h_2 error _ =>
        cases next
        exact lively_resume (handleAttemptError_paced now (h.clocked.congr same)
          (h.incomplete.congr same) known) (by simp)
      case h_3 => cases next
    case h_2 => cases next
  | timer id now =>
    unfold BatchMachine.step at next
    dsimp only at next
    split at next
    case h_1 timer hstack found =>
      cases next
      have known := inv.ledger.known
      have runs : m.batch.Runs := Inv.runs (hstack ▸ inv : Inv tasks m.batch [])
      have sub : ∀ timer ∈ m.batch.timers.filter (·.id ≠ id), timer ∈ m.batch.timers :=
        fun timer mem => List.mem_of_mem_filter mem
      cases kind : timer.kind with
      | normalLaunch =>
        have fired := normalTimerFired_paced now
          (s := { m.batch with timers := m.batch.timers.filter (·.id ≠ id) })
          (h.clocked.clearNormal.dropTimers _ sub rfl) h.incomplete runs known
        exact lively_resume fired (by simp)
      | rateLimitLaunch =>
        have mode := h.clocked.rateTimers timer (List.mem_of_find?_eq_some found) kind
        have fired := schedule_paced now (s := { m.batch with
          timers := m.batch.timers.filter (·.id ≠ id)
          rateLimitLaunchTimer := none })
          { h.clocked.dropTimers _ sub (h.clocked.limited mode).2 with } known
        exact lively_resume fired (by simp)
    case h_2 => cases next

theorem lively_init {maxConcurrency : Option ℤ}
    (cap : ∀ max, maxConcurrency = some max → 1 ≤ max) : Lively (init tasks maxConcurrency) where
  clocked := ⟨le_refl 1, by simp [init, SubagentBatch.new], by simp [init, SubagentBatch.new],
    by simp [init, SubagentBatch.new], cap⟩
  incomplete := by simp [Incomplete, init, SubagentBatch.new]
  frames := by simp [init]
  stall := by simp [init]

/-! ### The progress law -/

/-- A running batch that is not about to be aborted. -/
def Underway (s : SubagentBatch T) : Prop :=
  s.started = true ∧ s.finished = false ∧ s.abortReason = none

/-- A batch never stalls. -/
structure ProgressLaw (createTimeout : ℕ → Time) (m : BatchMachine T) : Prop where
  /-- When `schedule()` has returned, queued work waits for an active attempt or an armed timer. -/
  queued : m.scheduled = true → Underway m.batch → m.batch.pending ≠ [] →
    m.batch.active ≠ [] ∨ m.batch.timers ≠ []
  capacity : m.batch.rateLimitMode = true → 1 ≤ m.batch.rateLimitCapacity
  /-- A rate-limit timer that fires with no attempt active starts a queued task, or a rate-limit
  timer is armed for a later time, not after the latest of the times that gate the next launch. -/
  wakeup : Underway m.batch → m.batch.active = [] → ∀ id now timer m',
    m.batch.timers.find? (·.id = id) = some timer → timer.kind = .rateLimitLaunch →
    step createTimeout m (.timer id now) = some m' →
    (∃ i ∈ m.batch.pending, m'.batch.owners = [i]) ∨ WaitsFrom m'.batch now

theorem exists_unfilled (h : s.allResults = none) : ∃ i < s.results.length, s.filled i = false := by
  unfold allResults at h
  unfold filled
  generalize s.results = slots at h ⊢
  induction slots with
  | nil => cases h
  | cons slot slots ih =>
    cases slot with
    | none => exact ⟨0, by simp, by simp⟩
    | some =>
      cases rest : slots.mapM id with
      | none =>
        obtain ⟨i, lt, empty⟩ := ih rest
        exact ⟨i + 1, by simpa using lt, by simpa using empty⟩
      | some => simp [rest] at h

theorem Lively.queued (h : Lively m) (inv : Inv tasks m.batch []) (underway : Underway m.batch)
    (idle : m.batch.active = []) : m.batch.pending ≠ [] := by
  obtain ⟨started, unfinished, running⟩ := underway
  obtain ⟨i, lt, empty⟩ := exists_unfilled (h.incomplete started unfinished running)
  have once := inv.ledger.once unfinished i
  rw [inv.ledger.length] at lt
  simp only [owners, idle, List.filterMap_nil, List.count_nil, empty, Bool.toNat_false, heldBy, lt,
    if_true] at once
  intro none
  rw [none] at once
  simp at once

theorem Lively.law (h : Lively m) (inv : Keeps tasks m) : ProgressLaw createTimeout m where
  queued scheduled underway queued := h.stall scheduled underway.2.1 underway.2.2 queued
  capacity _ := h.clocked.capacity
  wakeup underway idle id now timer m' found kind next := by
    unfold BatchMachine.step at next
    dsimp only at next
    split at next
    case h_1 timer' hstack found' =>
      obtain rfl : timer = timer' := Option.some.inj (found.symm.trans found')
      rw [kind] at next
      cases next
      have below : Inv tasks m.batch [] := hstack ▸ inv
      have queued := h.queued below underway idle
      obtain ⟨started, unfinished, running⟩ := underway
      have mode := h.clocked.rateTimers timer (List.mem_of_find?_eq_some found) kind
      have clocked : Clocked { m.batch with
          timers := m.batch.timers.filter (·.id ≠ id)
          rateLimitLaunchTimer := none } :=
        { h.clocked.dropTimers _ (fun timer mem => List.mem_of_mem_filter mem)
            (h.clocked.limited mode).2 with }
      have pass := (scheduleRateLimitLaunch_paced now clocked h.incomplete mode unfinished
        running inv.ledger.known).2 queued
      have scheduled : SubagentBatch.schedule { m.batch with
          timers := m.batch.timers.filter (·.id ≠ id)
          rateLimitLaunchTimer := none } now = _ :=
        schedule_of_rateLimitMode unfinished (h.incomplete started unfinished running) running mode
      rw [resume_batch]
      rw [scheduled]
      cases pass with
      | full busy => exact absurd idle busy
      | waits waits => exact .inr waits
      | @starts i queued owned =>
        refine .inl ⟨i, queued, owned.trans ?_⟩
        simp [owners, idle]
    case h_2 => cases next

/-- No run of a batch stalls, whatever the launcher does and whatever the clock reads. -/
theorem progress_of_run {maxConcurrency : Option ℤ}
    (cap : ∀ max, maxConcurrency = some max → 1 ≤ max) {events : List BatchEvent}
    (run : Transition.Run (step createTimeout) Transition.Always (init tasks maxConcurrency)
      events m) : ProgressLaw createTimeout m := by
  have lively : Keeps tasks m ∧ Lively m :=
    run.invariant (fun m => Keeps tasks m ∧ Lively m) ⟨inv_init maxConcurrency, lively_init cap⟩
      fun _ _ _ h _ next => ⟨(Inv.step h.1 next).1, h.2.step h.1 next⟩
  exact lively.2.law lively.1

/-- After the other attempt has completed, the rate-limited task waits for an armed timer. -/
theorem progress_rateLimited :
    ∃ m, Transition.exec (step doubling) (init twoTasks (some 2))
        [.run 0, .return 0 0, .return 0 0, .launched 0 (.handle "a"),
          .completed 0 (.rateLimited "429"), .deliver 0 10, .return 10 10,
          .launched 1 (.handle "b"), .completed 1 (.success "ok" none), .deliver 1 20] = some m ∧
      m.batch.pending = [0] ∧ m.batch.active = [] ∧ m.batch.timers.map (·.delay) = [5990] ∧
      ProgressLaw doubling m := by
  have run : Transition.exec (Transition.guarded (step doubling) Transition.Always)
      (init twoTasks (some 2))
      [.run 0, .return 0 0, .return 0 0, .launched 0 (.handle "a"),
        .completed 0 (.rateLimited "429"), .deliver 0 10, .return 10 10,
        .launched 1 (.handle "b"), .completed 1 (.success "ok" none), .deliver 1 20] = some _ := rfl
  exact ⟨_, rfl, rfl, rfl, rfl, progress_of_run (by simp) (.of_exec run)⟩

end BatchMachine

end KimiCli
