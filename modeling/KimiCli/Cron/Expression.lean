import KimiCli.Js.Text
import KimiCli.Lib.Calendar
import KimiCli.Lib.Schedule

/-!
# Cron expressions

A cron expression has five fields: minute, hour, day of month, month and day of week.
`computeNextCronRun` looks for its next run by skipping whole months, days, hours and minutes that
do not match, within a window of five years.
-/

namespace KimiCli

open Calendar

/-! ## Parsing -/

/-- The sets of values that the fields allow. -/
structure ParsedCronExpression where
  raw : List Char
  minutes : List ℕ
  hours : List ℕ
  daysOfMonth : List ℕ
  months : List ℕ
  daysOfWeek : List ℕ
  daysOfMonthWildcard : Bool
  daysOfWeekWildcard : Bool
  deriving DecidableEq

/-- The number that consists of these digits and of nothing else. -/
def parseCronInt (raw : List Char) : Option ℕ :=
  if raw ≠ [] ∧ raw.all Char.isDigit then
    some (raw.foldl (fun value digit => 10 * value + (digit.toNat - '0'.toNat)) 0)
  else none

/-- `for (let v = lo; v <= hi; v += step)`. -/
def cronValues (lo hi step : ℕ) : List ℕ := List.range' lo ((hi - lo) / step + 1) step

/-- The values of one term of a field: `*`, a number or a range, each of them with a step or not.
A single number with a step means the values from there to the end. -/
def cronTerm (term : List Char) (min max : ℕ) : Option (List ℕ) := do
  let rangePart := term.takeWhile (· ≠ '/')
  let stepStr := (term.dropWhile (· ≠ '/')).tail
  let stepped := decide ('/' ∈ term)
  let step ← if stepped then parseCronInt stepStr else some 1
  if step = 0 then none
  else if rangePart = ['*'] then some (cronValues min max step)
  else if '-' ∉ rangePart then
    let single ← parseCronInt rangePart
    if single < min ∨ max < single then none
    else some (if stepped then cronValues single max step else [single])
  else
    let lo ← parseCronInt (rangePart.takeWhile (· ≠ '-'))
    let hi ← parseCronInt (rangePart.dropWhile (· ≠ '-')).tail
    if lo < min ∨ max < hi ∨ hi < lo then none else some (cronValues lo hi step)

/-- One field, a list of terms; an empty term is a syntax error. -/
def parseField (field : List Char) (min max : ℕ) : Option (List ℕ) :=
  ((field.splitOn ',').mapM (cronTerm · min max)).map List.flatten

def parseCronExpression (expr : String) : Option ParsedCronExpression :=
  let trimmed := (trim expr).toList
  match (trimmed.splitOnP isJsSpace).filter (· ≠ []) with
  | [minField, hourField, domField, monthField, dowField] => do
    let minutes ← parseField minField 0 59
    let hours ← parseField hourField 0 23
    let daysOfMonth ← parseField domField 1 31
    let months ← parseField monthField 1 12
    let dowRaw ← parseField dowField 0 7
    some
      { raw := trimmed, minutes, hours, daysOfMonth, months
        daysOfWeek := dowRaw.map fun v => if v = 7 then 0 else v
        daysOfMonthWildcard := domField = ['*']
        daysOfWeekWildcard := dowField = ['*'] }
  | _ => none

/-! ## The next run -/

/-- Both day fields restricted: either may match.  Otherwise the restricted one decides. -/
def dayMatches (expr : ParsedCronExpression) (date : ℤ) : Bool :=
  let domOk := decide ((getDate date).toNat ∈ expr.daysOfMonth)
  let dowOk := decide ((getDay date).toNat ∈ expr.daysOfWeek)
  if expr.daysOfMonthWildcard && expr.daysOfWeekWildcard then true
  else if expr.daysOfMonthWildcard then dowOk
  else if expr.daysOfWeekWildcard then domOk
  else domOk || dowOk

def advanceMonth (date : ℤ) : ℤ :=
  let date := setDate date 1
  let date := setTime date 0 0 0 0
  setMonth date (getMonth date + 1)

def advanceDay (date : ℤ) : ℤ :=
  let date := setTime date 0 0 0 0
  setDate date (getDate date + 1)

def advanceHour (date : ℤ) : ℤ :=
  let date := setMinutesTo date 0 0 0
  setHours date (getHours date + 1)

def advanceMinute (date : ℤ) : ℤ :=
  let date := setSecondsTo date 0 0
  setMinutes date (getMinutes date + 1)

/-- The loop of the search on local times; the first argument counts the iterations that
`HARD_ITERATION_CAP` still allows. -/
def searchCronRun (expr : ParsedCronExpression) (deadline : ℤ) : ℕ → ℤ → Option ℤ
  | 0, _ => none
  | iterations + 1, date =>
    if deadline < date then none
    else if getMonth date + 1 ∉ expr.months then
      searchCronRun expr deadline iterations (advanceMonth date)
    else if dayMatches expr date = false then
      searchCronRun expr deadline iterations (advanceDay date)
    else if (getHours date).toNat ∉ expr.hours then
      searchCronRun expr deadline iterations (advanceHour date)
    else if (getMinutes date).toNat ∉ expr.minutes then
      searchCronRun expr deadline iterations (advanceMinute date)
    else some date

def hardIterationCap : ℕ := 10000000

/-- The search in a zone whose local time is `zone` milliseconds ahead. -/
def nextRunWithinMinutes (zone : ℤ) (expr : ParsedCronExpression) (fromMs capMinutes : ℤ) :
    Option ℤ :=
  let start := setSecondsTo (fromMs + zone) 0 0
  let date := start + msPerMinute
  let deadline := fromMs + zone + capMinutes * msPerMinute
  (searchCronRun expr deadline hardIterationCap date).map (· - zone)

/-- Five years, in minutes. -/
def cronWindowMinutes : ℤ := 5 * 366 * 24 * 60

def computeNextCronRun (zone : ℤ) (expr : ParsedCronExpression) (fromMs : ℤ) : Option ℤ :=
  nextRunWithinMinutes zone expr fromMs cronWindowMinutes

/-! ## What the search skips -/

/-- The fields of a local time match the expression. -/
def CronMatches (expr : ParsedCronExpression) (date : ℤ) : Prop :=
  getMonth date + 1 ∈ expr.months ∧ dayMatches expr date = true ∧
    (getHours date).toNat ∈ expr.hours ∧ (getMinutes date).toNat ∈ expr.minutes

instance (expr : ParsedCronExpression) : DecidablePred (CronMatches expr) :=
  fun _ => inferInstanceAs (Decidable (_ ∧ _))

/-- An ideal occurrence: a whole minute of local time that matches. -/
def IsCronOccurrence (zone : ℤ) (expr : ParsedCronExpression) (t : ℤ) : Prop :=
  (t + zone) % msPerMinute = 0 ∧ CronMatches expr (t + zone)

instance (zone : ℤ) (expr : ParsedCronExpression) : DecidablePred (IsCronOccurrence zone expr) :=
  fun _ => inferInstanceAs (Decidable (_ ∧ _))

/-- From `date` on nothing matches before the whole minute `date'`. -/
structure CronSkip (expr : ParsedCronExpression) (date date' : ℤ) : Prop where
  later : date < date'
  minute : date' % msPerMinute = 0
  skipped : ∀ u, date ≤ u → u < date' → ¬CronMatches expr u

variable {expr : ParsedCronExpression} {date u : ℤ}

theorem advanceMonth_eq (date : ℤ) :
    advanceMonth date = monthFirst (monthIndex (day date) + 1) * msPerDay := by
  have first : day (setDate date 1) = monthFirst (monthIndex (day date)) := by
    rw [setDate_eq]
    have := timeWithinDay_bounds date
    unfold day msPerDay at *
    omega
  rw [advanceMonth, setTime_zero, first, setMonth_succ]

theorem advanceDay_eq (date : ℤ) : advanceDay date = (day date + 1) * msPerDay := by
  rw [advanceDay, setTime_zero, setDate_succ]
  ring

theorem advanceHour_eq (date : ℤ) : advanceHour date = (date / msPerHour + 1) * msPerHour := by
  rw [advanceHour, setMinutesTo_zero, setHours_succ]
  ring

theorem advanceMinute_eq (date : ℤ) :
    advanceMinute date = (date / msPerMinute + 1) * msPerMinute := by
  rw [advanceMinute, setSecondsTo_zero, setMinutes_succ]
  ring

theorem cronSkip_month (wrong : getMonth date + 1 ∉ expr.months) :
    CronSkip expr date (advanceMonth date) := by
  obtain ⟨begun, notOver⟩ := monthIndex_spec (day date)
  rw [advanceMonth_eq]
  unfold day msPerDay at *
  refine ⟨by omega, by unfold msPerMinute; omega, fun u le lt found => wrong ?_⟩
  have same : monthIndex (day date) = monthIndex (day u) := by
    refine (monthIndex_eq_iff.2 ⟨?_, ?_⟩).symm <;> unfold day msPerDay at * <;> omega
  rw [getMonth, monthFromDay_eq same]
  exact found.1

theorem cronSkip_day (wrong : dayMatches expr date = false) :
    CronSkip expr date (advanceDay date) := by
  rw [advanceDay_eq]
  refine ⟨?_, ?_, fun u le lt found => ?_⟩
  · unfold day msPerDay
    omega
  · unfold msPerDay msPerMinute
    omega
  · have same : day u = day date := by
      unfold day msPerDay at *
      omega
    have right := found.2.1
    rw [dayMatches, getDate, getDay, same] at right
    rw [dayMatches, getDate, getDay, right] at wrong
    cases wrong

theorem cronSkip_hour (wrong : (getHours date).toNat ∉ expr.hours) :
    CronSkip expr date (advanceHour date) := by
  rw [advanceHour_eq]
  refine ⟨?_, ?_, fun u le lt found => wrong ?_⟩
  · unfold msPerHour
    omega
  · unfold msPerHour msPerMinute
    omega
  · have same : date / msPerHour = u / msPerHour := by
      unfold msPerHour at *
      omega
    rw [getHours, same]
    exact found.2.2.1

theorem cronSkip_minute (wrong : (getMinutes date).toNat ∉ expr.minutes) :
    CronSkip expr date (advanceMinute date) := by
  rw [advanceMinute_eq]
  refine ⟨?_, ?_, fun u le lt found => wrong ?_⟩
  · unfold msPerMinute
    omega
  · unfold msPerMinute
    omega
  · have same : date / msPerMinute = u / msPerMinute := by
      unfold msPerMinute at *
      omega
    rw [getMinutes, same]
    exact found.2.2.2

/-! ## What the search finds -/

/-- What a search from the whole minute `date` may answer: the first match, or none when there is
none up to the deadline. -/
def CronFinds (expr : ParsedCronExpression) (deadline date : ℤ) : Option ℤ → Prop
  | some r => date ≤ r ∧ r ≤ deadline ∧ r % msPerMinute = 0 ∧ CronMatches expr r ∧
      ∀ u, date ≤ u → u < r → ¬CronMatches expr u
  | none => ∀ u, date ≤ u → u ≤ deadline → ¬CronMatches expr u

theorem CronFinds.skip {deadline date' : ℤ} {found : Option ℤ} (skip : CronSkip expr date date')
    (finds : CronFinds expr deadline date' found) : CronFinds expr deadline date found := by
  cases found with
  | none =>
    intro u le notOver
    rcases lt_or_ge u date' with lt | ge
    · exact skip.skipped u le lt
    · exact finds u ge notOver
  | some =>
    obtain ⟨le, notOver, minute, matched, first⟩ := finds
    refine ⟨skip.later.le.trans le, notOver, minute, matched, fun u ge lt => ?_⟩
    rcases lt_or_ge u date' with before | after
    · exact skip.skipped u ge before
    · exact first u after lt

/-- Every iteration moves on by a minute at least, so the cap on iterations is not met before the
deadline. -/
theorem searchCronRun_finds (expr : ParsedCronExpression) (deadline : ℤ) :
    ∀ (iterations : ℕ) (date : ℤ), date % msPerMinute = 0 →
    deadline < date + iterations * msPerMinute →
    CronFinds expr deadline date (searchCronRun expr deadline iterations date)
  | 0, date, _, enough => fun u le notOver => by
    rw [Nat.cast_zero, zero_mul, add_zero] at enough
    omega
  | iterations + 1, date, minute, enough => by
    have further : ∀ date', CronSkip expr date date' →
        CronFinds expr deadline date (searchCronRun expr deadline iterations date') := by
      intro date' skip
      refine CronFinds.skip skip (searchCronRun_finds expr deadline iterations date' skip.minute ?_)
      have later := skip.later
      have minute' := skip.minute
      unfold msPerMinute at *
      push_cast at enough
      omega
    rw [searchCronRun]
    split
    case isTrue beyond => exact fun u le notOver => by omega
    case isFalse notOver =>
      split
      case isTrue wrong => exact further _ (cronSkip_month wrong)
      case isFalse month =>
        split
        case isTrue wrong => exact further _ (cronSkip_day wrong)
        case isFalse dayOk =>
          split
          case isTrue wrong => exact further _ (cronSkip_hour wrong)
          case isFalse hour =>
            split
            case isTrue wrong => exact further _ (cronSkip_minute wrong)
            case isFalse minuteOk =>
              refine ⟨le_rfl, by omega, minute, ⟨not_not.1 month, ?_, not_not.1 hour,
                not_not.1 minuteOk⟩, fun u le lt => by omega⟩
              exact Bool.eq_true_of_not_eq_false dayOk

/-- How far the search for the next run looks. -/
def cronWindowMs : ℤ := cronWindowMinutes * msPerMinute

/-- The next run is the first occurrence after `fromMs`, if there is one within five years. -/
theorem computeNextCronRun_finds (zone : ℤ) (expr : ParsedCronExpression) (fromMs : ℤ) :
    Schedule.Finds (IsCronOccurrence zone expr) cronWindowMs fromMs
      (computeNextCronRun zone expr fromMs) := by
  have start : (setSecondsTo (fromMs + zone) 0 0 + msPerMinute) % msPerMinute = 0 ∧
      fromMs + zone < setSecondsTo (fromMs + zone) 0 0 + msPerMinute ∧
      setSecondsTo (fromMs + zone) 0 0 ≤ fromMs + zone := by
    rw [setSecondsTo_zero]
    unfold msPerMinute
    omega
  have finds := searchCronRun_finds expr
    (fromMs + zone + cronWindowMinutes * msPerMinute) hardIterationCap
    (setSecondsTo (fromMs + zone) 0 0 + msPerMinute) start.1 (by
      have := start.2.1
      unfold cronWindowMinutes hardIterationCap msPerMinute at *
      omega)
  rw [computeNextCronRun, nextRunWithinMinutes]
  generalize setSecondsTo (fromMs + zone) 0 0 = begun at start finds ⊢
  generalize searchCronRun expr _ hardIterationCap _ = found at finds ⊢
  -- a whole minute after `fromMs` is not before the first minute that is looked at
  have reached : ∀ t, fromMs < t → IsCronOccurrence zone expr t →
      begun + msPerMinute ≤ t + zone := by
    intro t later occurs
    have minute := occurs.1
    have := start.1
    unfold msPerMinute at *
    omega
  cases found with
  | none =>
    intro t later le occurs
    refine finds (t + zone) (reached t later occurs) ?_ occurs.2
    unfold cronWindowMs at le
    omega
  | some r =>
    obtain ⟨le, notOver, minute, matched, first⟩ := finds
    change Schedule.Finds _ _ _ (some (r - zone))
    refine ⟨⟨by omega, ⟨?_, ?_⟩, fun t later lt occurs => ?_⟩, ?_⟩
    · rw [sub_add_cancel]
      exact minute
    · rw [sub_add_cancel]
      exact matched
    · exact first (t + zone) (reached t later occurs) (by omega) occurs.2
    · unfold cronWindowMs
      omega

end KimiCli
