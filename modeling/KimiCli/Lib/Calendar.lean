import Mathlib.Algebra.Order.Ring.Int
import Mathlib.Order.SuccPred.Archimedean
import Mathlib.Tactic.IntervalCases
import Mathlib.Tactic.Ring
import Mathlib.Data.Int.ConditionallyCompleteOrder

/-!
# The Gregorian calendar

Days are counted from the first of January 1970, milliseconds from its midnight, and the calendar
runs without a bound in both directions.  Years, months and the setters of a date are computed the
way ECMAScript defines them.  `monthIndex` counts whole months, so that the first day of a month
and the month of a day form a Galois connection (`monthIndex_eq_iff`).
-/

namespace Calendar

/-! ## Years -/

def dayFromYear (y : ℤ) : ℤ :=
  365 * (y - 1970) + (y - 1969) / 4 - (y - 1901) / 100 + (y - 1601) / 400

def daysInYear (y : ℤ) : ℤ :=
  if y % 4 ≠ 0 then 365 else if y % 100 ≠ 0 then 366 else if y % 400 ≠ 0 then 365 else 366

/-- 1 in a leap year and 0 otherwise. -/
def inLeapYear (y : ℤ) : ℤ := daysInYear y - 365

/-- The year that contains a day. -/
def yearFromDay (d : ℤ) : ℤ :=
  let y := 1970 + 400 * d / 146097
  if d < dayFromYear y then y - 1 else if dayFromYear (y + 1) ≤ d then y + 1 else y

theorem dayFromYear_succ (y : ℤ) : dayFromYear (y + 1) = dayFromYear y + daysInYear y := by
  unfold dayFromYear daysInYear
  split
  · omega
  split
  · omega
  split <;> omega

theorem inLeapYear_bounds (y : ℤ) : 0 ≤ inLeapYear y ∧ inLeapYear y ≤ 1 := by
  unfold inLeapYear daysInYear
  split
  · omega
  split
  · omega
  split <;> omega

theorem yearFromDay_spec (d : ℤ) :
    dayFromYear (yearFromDay d) ≤ d ∧ d < dayFromYear (yearFromDay d + 1) := by
  unfold yearFromDay
  dsimp only
  split
  case isTrue before =>
    rw [sub_add_cancel]
    refine ⟨?_, before⟩
    unfold dayFromYear
    omega
  case isFalse =>
    split
    case isTrue after =>
      refine ⟨after, ?_⟩
      unfold dayFromYear
      omega
    case isFalse notAfter => exact ⟨by omega, by omega⟩

/-! ## Months -/

/-- The days of the year `y` before its month `m`, counted from 0. -/
def monthStart (y : ℤ) : ℕ → ℤ
  | 0 => 0
  | 1 => 31
  | 2 => 59 + inLeapYear y
  | 3 => 90 + inLeapYear y
  | 4 => 120 + inLeapYear y
  | 5 => 151 + inLeapYear y
  | 6 => 181 + inLeapYear y
  | 7 => 212 + inLeapYear y
  | 8 => 243 + inLeapYear y
  | 9 => 273 + inLeapYear y
  | 10 => 304 + inLeapYear y
  | 11 => 334 + inLeapYear y
  | _ => 365 + inLeapYear y

/-- The month of a day, counted from 0. -/
def monthFromDay (d : ℤ) : ℕ :=
  Nat.findGreatest (fun m => monthStart (yearFromDay d) m ≤ d - dayFromYear (yearFromDay d)) 11

/-- The day on which the month with the index `k` begins, where the index counts months from the
beginning of the year 0. -/
def monthFirst (k : ℤ) : ℤ := dayFromYear (k / 12) + monthStart (k / 12) (k % 12).toNat

def monthIndex (d : ℤ) : ℤ := 12 * yearFromDay d + monthFromDay d

theorem monthFromDay_lt (d : ℤ) : monthFromDay d < 12 :=
  Nat.lt_succ_of_le (Nat.findGreatest_le 11)

theorem monthStart_le (d : ℤ) :
    monthStart (yearFromDay d) (monthFromDay d) ≤ d - dayFromYear (yearFromDay d) :=
  Nat.findGreatest_spec (P := fun m =>
      monthStart (yearFromDay d) m ≤ d - dayFromYear (yearFromDay d)) (Nat.zero_le 11)
    (sub_nonneg.2 (yearFromDay_spec d).1)

theorem lt_monthStart_succ (d : ℤ) :
    d - dayFromYear (yearFromDay d) < monthStart (yearFromDay d) (monthFromDay d + 1) := by
  rcases Nat.lt_or_ge (monthFromDay d) 11 with lt | ge
  · exact lt_of_not_ge (Nat.findGreatest_is_greatest (Nat.lt_succ_self _) lt)
  · have last : monthFromDay d = 11 := by
      have := monthFromDay_lt d
      omega
    have year := (yearFromDay_spec d).2
    rw [dayFromYear_succ] at year
    rw [last]
    change _ < 365 + inLeapYear _
    rw [inLeapYear]
    omega

theorem monthIndex_div (d : ℤ) : monthIndex d / 12 = yearFromDay d := by
  have := monthFromDay_lt d
  unfold monthIndex
  omega

theorem monthIndex_mod (d : ℤ) : (monthIndex d % 12).toNat = monthFromDay d := by
  have := monthFromDay_lt d
  unfold monthIndex
  omega

theorem monthFirst_succ (k : ℤ) :
    monthFirst (k + 1) = dayFromYear (k / 12) + monthStart (k / 12) ((k % 12).toNat + 1) := by
  by_cases last : k % 12 = 11
  · have year : (k + 1) / 12 = k / 12 + 1 := by omega
    have month : (k + 1) % 12 = 0 := by omega
    rw [monthFirst, year, month, dayFromYear_succ, last]
    change _ + 0 = _ + (365 + inLeapYear (k / 12))
    rw [inLeapYear]
    omega
  · have year : (k + 1) / 12 = k / 12 := by omega
    have month : ((k + 1) % 12).toNat = (k % 12).toNat + 1 := by omega
    rw [monthFirst, year, month]

theorem monthFirst_lt_succ (k : ℤ) : monthFirst k + 28 ≤ monthFirst (k + 1) := by
  rw [monthFirst_succ, monthFirst]
  have leap := inLeapYear_bounds (k / 12)
  have month : (k % 12).toNat < 12 := by omega
  generalize (k % 12).toNat = m at month
  interval_cases m <;> simp only [monthStart] <;> omega

theorem monthFirst_strictMono : StrictMono monthFirst :=
  strictMono_int_of_lt_succ fun k => by have := monthFirst_lt_succ k; omega

theorem monthIndex_spec (d : ℤ) :
    monthFirst (monthIndex d) ≤ d ∧ d < monthFirst (monthIndex d + 1) := by
  have start := monthStart_le d
  have stop := lt_monthStart_succ d
  rw [monthFirst_succ, monthFirst, monthIndex_div, monthIndex_mod]
  exact ⟨by omega, by omega⟩

theorem monthIndex_eq_iff {d k : ℤ} :
    monthIndex d = k ↔ monthFirst k ≤ d ∧ d < monthFirst (k + 1) := by
  constructor
  · rintro rfl
    exact monthIndex_spec d
  · rintro ⟨begun, notOver⟩
    obtain ⟨begun', notOver'⟩ := monthIndex_spec d
    have le := monthFirst_strictMono.lt_iff_lt.1 (lt_of_le_of_lt begun' notOver)
    have ge := monthFirst_strictMono.lt_iff_lt.1 (lt_of_le_of_lt begun notOver')
    omega

theorem monthFromDay_eq {d d' : ℤ} (same : monthIndex d = monthIndex d') :
    monthFromDay d = monthFromDay d' := by
  rw [← monthIndex_mod, same, monthIndex_mod]

/-- The date within the month, counted from 1. -/
def dateFromDay (d : ℤ) : ℤ :=
  d - dayFromYear (yearFromDay d) - monthStart (yearFromDay d) (monthFromDay d) + 1

theorem dateFromDay_eq (d : ℤ) : dateFromDay d = d - monthFirst (monthIndex d) + 1 := by
  rw [dateFromDay, monthFirst, monthIndex_div, monthIndex_mod]
  omega

/-- 0 is a Sunday. -/
def weekDay (d : ℤ) : ℤ := (d + 4) % 7

/-- The day with this year, month and date, each of which may be out of its range. -/
def makeDay (year month date : ℤ) : ℤ :=
  dayFromYear (year + month / 12) + monthStart (year + month / 12) (month % 12).toNat + date - 1

theorem makeDay_eq (year month date : ℤ) :
    makeDay year month date = monthFirst (12 * year + month) + date - 1 := by
  have div : (12 * year + month) / 12 = year + month / 12 := by omega
  have mod : (12 * year + month) % 12 = month % 12 := by omega
  rw [makeDay, monthFirst, div, mod]

/-! ## Times -/

def msPerDay : ℤ := 86400000
def msPerHour : ℤ := 3600000
def msPerMinute : ℤ := 60000
def msPerSecond : ℤ := 1000

def day (t : ℤ) : ℤ := t / msPerDay
def timeWithinDay (t : ℤ) : ℤ := t % msPerDay

def getMonth (t : ℤ) : ℕ := monthFromDay (day t)
def getDate (t : ℤ) : ℤ := dateFromDay (day t)
def getDay (t : ℤ) : ℤ := weekDay (day t)
def getHours (t : ℤ) : ℤ := t / msPerHour % 24
def getMinutes (t : ℤ) : ℤ := t / msPerMinute % 60
def getSeconds (t : ℤ) : ℤ := t / msPerSecond % 60
def getMilliseconds (t : ℤ) : ℤ := t % msPerSecond

def makeTime (hour min sec ms : ℤ) : ℤ :=
  hour * msPerHour + min * msPerMinute + sec * msPerSecond + ms

def makeDate (day time : ℤ) : ℤ := day * msPerDay + time

def setDate (t date : ℤ) : ℤ :=
  makeDate (makeDay (yearFromDay (day t)) (getMonth t) date) (timeWithinDay t)

def setMonth (t month : ℤ) : ℤ :=
  makeDate (makeDay (yearFromDay (day t)) month (getDate t)) (timeWithinDay t)

/-- `setHours(hour, min, sec, ms)`. -/
def setTime (t hour min sec ms : ℤ) : ℤ := makeDate (day t) (makeTime hour min sec ms)

def setHours (t hour : ℤ) : ℤ := setTime t hour (getMinutes t) (getSeconds t) (getMilliseconds t)

/-- `setMinutes(min, sec, ms)`. -/
def setMinutesTo (t min sec ms : ℤ) : ℤ := setTime t (getHours t) min sec ms

def setMinutes (t min : ℤ) : ℤ := setMinutesTo t min (getSeconds t) (getMilliseconds t)

/-- `setSeconds(sec, ms)`. -/
def setSecondsTo (t sec ms : ℤ) : ℤ := setMinutesTo t (getMinutes t) sec ms

theorem timeWithinDay_bounds (t : ℤ) : 0 ≤ timeWithinDay t ∧ timeWithinDay t < msPerDay := by
  unfold timeWithinDay msPerDay
  omega

theorem setTime_zero (t : ℤ) : setTime t 0 0 0 0 = day t * msPerDay := by
  unfold setTime makeDate makeTime
  ring

theorem setMinutesTo_zero (t : ℤ) : setMinutesTo t 0 0 0 = t / msPerHour * msPerHour := by
  unfold setMinutesTo setTime makeDate makeTime getHours day msPerDay msPerHour msPerMinute
    msPerSecond
  omega

theorem setSecondsTo_zero (t : ℤ) : setSecondsTo t 0 0 = t / msPerMinute * msPerMinute := by
  unfold setSecondsTo setMinutesTo setTime makeDate makeTime getHours getMinutes day msPerDay
    msPerHour msPerMinute msPerSecond
  omega

theorem setHours_succ (t : ℤ) : setHours t (getHours t + 1) = t + msPerHour := by
  unfold setHours setTime makeDate makeTime getHours getMinutes getSeconds getMilliseconds day
    msPerDay msPerHour msPerMinute msPerSecond
  omega

theorem setMinutes_succ (t : ℤ) : setMinutes t (getMinutes t + 1) = t + msPerMinute := by
  unfold setMinutes setMinutesTo setTime makeDate makeTime getHours getMinutes getSeconds
    getMilliseconds day msPerDay msPerHour msPerMinute msPerSecond
  omega

theorem setDate_eq (t date : ℤ) :
    setDate t date = (monthFirst (monthIndex (day t)) + date - 1) * msPerDay + timeWithinDay t := by
  rw [setDate, makeDay_eq]
  rfl

theorem setDate_succ (t : ℤ) : setDate t (getDate t + 1) = t + msPerDay := by
  rw [setDate_eq, getDate, dateFromDay_eq]
  unfold day timeWithinDay msPerDay
  omega

theorem setMonth_succ (k : ℤ) :
    setMonth (monthFirst k * msPerDay) (getMonth (monthFirst k * msPerDay) + 1) =
      monthFirst (k + 1) * msPerDay := by
  have midnight : day (monthFirst k * msPerDay) = monthFirst k := by
    unfold day msPerDay
    omega
  have zero : timeWithinDay (monthFirst k * msPerDay) = 0 := by
    unfold timeWithinDay msPerDay
    omega
  have index : monthIndex (monthFirst k) = k :=
    monthIndex_eq_iff.2 ⟨le_rfl, monthFirst_strictMono (by omega)⟩
  rw [setMonth, makeDay_eq, getDate, dateFromDay_eq, zero, midnight, index, getMonth, midnight]
  have sum : 12 * yearFromDay (monthFirst k) + (monthFromDay (monthFirst k) + 1) = k + 1 := by
    have := index
    unfold monthIndex at this
    omega
  rw [sum, makeDate]
  ring

end Calendar
