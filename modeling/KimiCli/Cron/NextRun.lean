import KimiCli.Cron.Expression

/-!
# The next run is the least match

The search for the next run is judged by the fields of the local time, with the rule for the two
day fields read off the text of the expression.  Every iteration of its loop moves on by a minute
at least, so that the loop ends at its deadline and never at `HARD_ITERATION_CAP`.
-/

namespace KimiCli

open Calendar

/-! ## The text of an expression -/

/-- The fields of an expression, which white space separates. -/
def cronFields (text : String) : List (List Char) :=
  ((trim text).toList.splitOnP isJsSpace).filter (· ≠ [])

/-- `expr` is the expression with these five fields, each with the set of its values. -/
structure CronFieldsOf (expr : ParsedCronExpression)
    (minField hourField domField monthField dowField : List Char) : Prop where
  minutes : parseField minField 0 59 = some expr.minutes
  hours : parseField hourField 0 23 = some expr.hours
  daysOfMonth : parseField domField 1 31 = some expr.daysOfMonth
  months : parseField monthField 1 12 = some expr.months
  daysOfWeek : (parseField dowField 0 7).map (List.map fun v => if v = 7 then 0 else v) =
    some expr.daysOfWeek
  domWildcard : expr.daysOfMonthWildcard = decide (domField = ['*'])
  dowWildcard : expr.daysOfWeekWildcard = decide (dowField = ['*'])

variable {expr : ParsedCronExpression}

theorem parseCronExpression_fields {text : String} (parsed : parseCronExpression text = some expr) :
    ∃ minField hourField domField monthField dowField,
      cronFields text = [minField, hourField, domField, monthField, dowField] ∧
        CronFieldsOf expr minField hourField domField monthField dowField := by
  rw [parseCronExpression] at parsed
  split at parsed
  case h_2 => cases parsed
  case h_1 minField hourField domField monthField dowField fields =>
    obtain ⟨minutes, minutesOk, parsed⟩ := Option.bind_eq_some_iff.1 parsed
    obtain ⟨hours, hoursOk, parsed⟩ := Option.bind_eq_some_iff.1 parsed
    obtain ⟨daysOfMonth, domOk, parsed⟩ := Option.bind_eq_some_iff.1 parsed
    obtain ⟨months, monthsOk, parsed⟩ := Option.bind_eq_some_iff.1 parsed
    obtain ⟨dowRaw, dowOk, parsed⟩ := Option.bind_eq_some_iff.1 parsed
    cases parsed
    refine ⟨minField, hourField, domField, monthField, dowField, fields,
      minutesOk, hoursOk, domOk, monthsOk, ?_, rfl, rfl⟩
    rw [dowOk, Option.map_some]

/-! ## What a match is -/

/-- When both day fields are restricted either may match; beside a `*` only the other constrains. -/
def DayRule (domField dowField : List Char) (expr : ParsedCronExpression) (date : ℤ) : Prop :=
  if domField = ['*'] then dowField = ['*'] ∨ (getDay date).toNat ∈ expr.daysOfWeek
  else if dowField = ['*'] then (getDate date).toNat ∈ expr.daysOfMonth
  else (getDate date).toNat ∈ expr.daysOfMonth ∨ (getDay date).toNat ∈ expr.daysOfWeek

theorem dayMatches_iff {minField hourField domField monthField dowField : List Char}
    (fields : CronFieldsOf expr minField hourField domField monthField dowField) (date : ℤ) :
    dayMatches expr date = true ↔ DayRule domField dowField expr date := by
  rw [dayMatches, DayRule, fields.domWildcard, fields.dowWildcard]
  by_cases dom : domField = ['*']
  · by_cases dow : dowField = ['*']
    · simp [dom, dow]
    · simp [dom, dow]
  · by_cases dow : dowField = ['*']
    · simp [dom, dow]
    · simp [dom, dow]

/-- The local time of `t` is a whole minute. -/
def OnMinute (zone t : ℤ) : Prop := (t + zone) % msPerMinute = 0

/-- The fields of the local time of `t` match the expression. -/
structure CronRunAt (zone : ℤ) (domField dowField : List Char) (expr : ParsedCronExpression)
    (t : ℤ) : Prop where
  month : getMonth (t + zone) + 1 ∈ expr.months
  dayRule : DayRule domField dowField expr (t + zone)
  hour : (getHours (t + zone)).toNat ∈ expr.hours
  minute : (getMinutes (t + zone)).toNat ∈ expr.minutes

theorem isCronOccurrence_iff {minField hourField domField monthField dowField : List Char}
    (fields : CronFieldsOf expr minField hourField domField monthField dowField) (zone t : ℤ) :
    IsCronOccurrence zone expr t ↔ OnMinute zone t ∧ CronRunAt zone domField dowField expr t := by
  constructor
  · rintro ⟨aligned, month, dayOk, hour, minute⟩
    exact ⟨aligned, month, (dayMatches_iff fields _).1 dayOk, hour, minute⟩
  · rintro ⟨aligned, month, dayOk, hour, minute⟩
    exact ⟨aligned, month, (dayMatches_iff fields _).2 dayOk, hour, minute⟩

/-! ## The iterations of the loop -/

/-- What the body of the loop makes of `date`; `none` where it returns it. -/
def cronAdvance (expr : ParsedCronExpression) (date : ℤ) : Option ℤ :=
  if getMonth date + 1 ∉ expr.months then some (advanceMonth date)
  else if dayMatches expr date = false then some (advanceDay date)
  else if (getHours date).toNat ∉ expr.hours then some (advanceHour date)
  else if (getMinutes date).toNat ∉ expr.minutes then some (advanceMinute date)
  else none

/-- The number of iterations that the loop makes, when at most `cap` are allowed. -/
def cronIterations (expr : ParsedCronExpression) (deadline : ℤ) : ℕ → ℤ → ℕ
  | 0, _ => 0
  | cap + 1, date =>
    if deadline < date then 0
    else match cronAdvance expr date with
      | none => 1
      | some date' => cronIterations expr deadline cap date' + 1

theorem cronAdvance_skips {date date' : ℤ} (advanced : cronAdvance expr date = some date') :
    CronSkip expr date date' := by
  rw [cronAdvance] at advanced
  split at advanced
  case isTrue wrong =>
    cases advanced
    exact cronSkip_month wrong
  case isFalse =>
    split at advanced
    case isTrue wrong =>
      cases advanced
      exact cronSkip_day wrong
    case isFalse =>
      split at advanced
      case isTrue wrong =>
        cases advanced
        exact cronSkip_hour wrong
      case isFalse =>
        split at advanced
        case isTrue wrong =>
          cases advanced
          exact cronSkip_minute wrong
        case isFalse => cases advanced

/-- A loop that is `n` minutes before its deadline makes at most `n` iterations more. -/
theorem cronIterations_le (expr : ParsedCronExpression) (deadline : ℤ) :
    ∀ (cap n : ℕ) (date : ℤ), date % msPerMinute = 0 → deadline < date + n * msPerMinute →
    cronIterations expr deadline cap date ≤ n
  | 0, n, _, _, _ => Nat.zero_le n
  | cap + 1, n, date, minute, near => by
    rw [cronIterations]
    split
    case isTrue => exact Nat.zero_le n
    case isFalse notOver =>
      have inside : 0 < n := by
        refine Nat.pos_of_ne_zero fun zero => notOver ?_
        rw [zero, Nat.cast_zero, zero_mul, add_zero] at near
        exact near
      split
      case h_1 => exact inside
      case h_2 date' advanced =>
        have skip := cronAdvance_skips advanced
        have fewer := cronIterations_le expr deadline cap (n - 1) date' skip.minute (by
          have later := skip.later
          have minute' := skip.minute
          have pred : ((n - 1 : ℕ) : ℤ) = n - 1 := by omega
          rw [pred]
          unfold msPerMinute at *
          omega)
        omega

/-- The first minute that the search looks at, in local time. -/
def cronSearchStart (zone fromMs : ℤ) : ℤ := setSecondsTo (fromMs + zone) 0 0 + msPerMinute

def cronSearchDeadline (zone fromMs : ℤ) : ℤ := fromMs + zone + cronWindowMinutes * msPerMinute

theorem cronIterations_lt_cap (zone : ℤ) (expr : ParsedCronExpression) (fromMs : ℤ) :
    cronIterations expr (cronSearchDeadline zone fromMs) hardIterationCap
      (cronSearchStart zone fromMs) < hardIterationCap := by
  have window : 5 * 366 * 24 * 60 < hardIterationCap := by decide
  refine lt_of_le_of_lt (cronIterations_le expr _ hardIterationCap (5 * 366 * 24 * 60) _ ?_ ?_)
    window
  · rw [cronSearchStart, setSecondsTo_zero]
    unfold msPerMinute
    omega
  · rw [cronSearchStart, cronSearchDeadline, setSecondsTo_zero]
    unfold cronWindowMinutes msPerMinute
    push_cast
    omega

/-! ## The next run -/

/-- What the search may answer: the least match after `fromMs`, or null when the minutes up to five
years later hold none. -/
def LeastRun (zone : ℤ) (domField dowField : List Char) (expr : ParsedCronExpression)
    (fromMs : ℤ) : Option ℤ → Prop
  | some t => OnMinute zone t ∧ fromMs < t ∧ CronRunAt zone domField dowField expr t ∧
      ∀ u, fromMs < u → u < t → OnMinute zone u → ¬CronRunAt zone domField dowField expr u
  | none => ∀ u, fromMs < u → u ≤ fromMs + 5 * 366 * msPerDay → OnMinute zone u →
      ¬CronRunAt zone domField dowField expr u

/-- For every accepted expression the next run is the least match, and the loop that looks for it
never meets its cap. -/
theorem computeNextCronRun_least {text : String} (parsed : parseCronExpression text = some expr)
    (zone fromMs : ℤ) :
    ∃ minField hourField domField monthField dowField,
      cronFields text = [minField, hourField, domField, monthField, dowField] ∧
      CronFieldsOf expr minField hourField domField monthField dowField ∧
      LeastRun zone domField dowField expr fromMs (computeNextCronRun zone expr fromMs) ∧
      cronIterations expr (cronSearchDeadline zone fromMs) hardIterationCap
        (cronSearchStart zone fromMs) < hardIterationCap := by
  obtain ⟨minField, hourField, domField, monthField, dowField, split, fields⟩ :=
    parseCronExpression_fields parsed
  refine ⟨minField, hourField, domField, monthField, dowField, split, fields, ?_,
    cronIterations_lt_cap zone expr fromMs⟩
  have occurs := isCronOccurrence_iff fields zone
  have finds := computeNextCronRun_finds zone expr fromMs
  cases found : computeNextCronRun zone expr fromMs with
  | none =>
    rw [found] at finds
    intro u later notOver aligned runs
    refine finds u later ?_ ((occurs u).2 ⟨aligned, runs⟩)
    unfold cronWindowMs cronWindowMinutes msPerMinute
    unfold msPerDay at notOver
    omega
  | some t =>
    rw [found] at finds
    obtain ⟨next, -⟩ := finds
    obtain ⟨aligned, runs⟩ := (occurs t).1 next.occurs
    exact ⟨aligned, next.lt, runs, fun u later before onMinute matched =>
      next.first u later before ((occurs u).2 ⟨onMinute, matched⟩)⟩

/-- Noon on every leap day. -/
def leapNoon : ParsedCronExpression :=
  { raw := "0 12 29 2 *".toList, minutes := [0], hours := [12], daysOfMonth := [29], months := [2]
    daysOfWeek := [0, 1, 2, 3, 4, 5, 6, 0], daysOfMonthWildcard := false
    daysOfWeekWildcard := true }

/-- The leap days after the beginning of 1970, in a zone two hours ahead. -/
theorem computeNextCronRun_least_leapNoon :
    ∃ minField hourField domField monthField dowField,
      cronFields "0 12 29 2 *" = [minField, hourField, domField, monthField, dowField] ∧
      CronFieldsOf leapNoon minField hourField domField monthField dowField ∧
      LeastRun 7200000 domField dowField leapNoon 0 (computeNextCronRun 7200000 leapNoon 0) ∧
      cronIterations leapNoon (cronSearchDeadline 7200000 0) hardIterationCap
        (cronSearchStart 7200000 0) < hardIterationCap :=
  computeNextCronRun_least (by decide +kernel) 7200000 0

end KimiCli
