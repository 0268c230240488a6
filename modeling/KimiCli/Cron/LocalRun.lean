import KimiCli.Cron.NextRun
import KimiCli.Lib.LocalTime

/-!
# The next run in a zone with transitions

The search again, on instants: each of its steps goes through a local time, and comes back to the
first instant that shows it.  A step is therefore one forward exactly if the local time that it
sets has not been shown yet, which fails in an hour that is repeated.
-/

namespace KimiCli

open Calendar

namespace LocalRun

variable (rule : LocalTimeRule)

/-! ## The search on instants -/

def advanceMonth (date : ℤ) : ℤ :=
  let date := rule.setDate date 1
  let date := rule.setTime date 0 0 0 0
  rule.setMonth date (getMonth (rule.localTime date) + 1)

def advanceDay (date : ℤ) : ℤ :=
  let date := rule.setTime date 0 0 0 0
  rule.setDate date (getDate (rule.localTime date) + 1)

def advanceHour (date : ℤ) : ℤ :=
  let date := rule.setMinutesTo date 0 0 0
  rule.setHours date (getHours (rule.localTime date) + 1)

def advanceMinute (date : ℤ) : ℤ :=
  let date := rule.setSecondsTo date 0 0
  rule.setMinutes date (getMinutes (rule.localTime date) + 1)

def searchCronRun (expr : ParsedCronExpression) (deadline : ℤ) : ℕ → ℤ → Option ℤ
  | 0, _ => none
  | iterations + 1, date =>
    if deadline < date then none
    else if getMonth (rule.localTime date) + 1 ∉ expr.months then
      searchCronRun expr deadline iterations (advanceMonth rule date)
    else if dayMatches expr (rule.localTime date) = false then
      searchCronRun expr deadline iterations (advanceDay rule date)
    else if (getHours (rule.localTime date)).toNat ∉ expr.hours then
      searchCronRun expr deadline iterations (advanceHour rule date)
    else if (getMinutes (rule.localTime date)).toNat ∉ expr.minutes then
      searchCronRun expr deadline iterations (advanceMinute rule date)
    else some date

def nextRunWithinMinutes (expr : ParsedCronExpression) (fromMs capMinutes : ℤ) : Option ℤ :=
  let start := rule.setSecondsTo fromMs 0 0
  let date := start + msPerMinute
  let deadline := fromMs + capMinutes * msPerMinute
  searchCronRun rule expr deadline hardIterationCap date

def computeNextCronRun (expr : ParsedCronExpression) (fromMs : ℤ) : Option ℤ :=
  nextRunWithinMinutes rule expr fromMs cronWindowMinutes

/-! ## A zone without transitions -/

/-! ## What the steps set -/

/-- What is shown when the unit of an instant begins. -/
def beginning (unit t : ℤ) : ℤ := rule.localTime (rule.utc (rule.localTime t / unit * unit))

def nextMinute (t : ℤ) : ℤ := beginning rule msPerMinute t + msPerMinute

def nextHour (t : ℤ) : ℤ := beginning rule msPerHour t + msPerHour

def nextDay (t : ℤ) : ℤ := beginning rule msPerDay t + msPerDay

/-- A month after the midnight of the first of the month. -/
def nextMonth (t : ℤ) : ℤ :=
  let midnight := beginning rule msPerDay (rule.utc (Calendar.setDate (rule.localTime t) 1))
  Calendar.setMonth midnight (getMonth midnight + 1)

theorem advanceMinute_eq (t : ℤ) : advanceMinute rule t = rule.utc (nextMinute rule t) := by
  rw [advanceMinute, LocalTimeRule.setMinutes, setMinutes_succ, LocalTimeRule.setSecondsTo,
    setSecondsTo_zero]
  rfl

theorem advanceHour_eq (t : ℤ) : advanceHour rule t = rule.utc (nextHour rule t) := by
  rw [advanceHour, LocalTimeRule.setHours, setHours_succ, LocalTimeRule.setMinutesTo,
    setMinutesTo_zero]
  rfl

theorem advanceDay_eq (t : ℤ) : advanceDay rule t = rule.utc (nextDay rule t) := by
  rw [advanceDay, LocalTimeRule.setDate, setDate_succ, LocalTimeRule.setTime, setTime_zero]
  rfl

theorem advanceMonth_eq (t : ℤ) : advanceMonth rule t = rule.utc (nextMonth rule t) := by
  rw [advanceMonth, LocalTimeRule.setMonth, LocalTimeRule.setTime, setTime_zero]
  rfl

variable {rule} {t : ℤ}

theorem floor_le_beginning (rule : LocalTimeRule) (unit t : ℤ) :
    rule.localTime t / unit * unit ≤ beginning rule unit t := rule.le_localTime_utc _

theorem localTime_lt_beginning_add {unit : ℤ} (pos : 0 < unit) (t : ℤ) :
    rule.localTime t < beginning rule unit t + unit := by
  have floor := floor_le_beginning rule unit t
  have rest := Int.lt_ediv_add_one_mul_self (rule.localTime t) pos
  rw [add_mul, one_mul] at rest
  omega

theorem monthFirst_succ_le_setMonth {k l : ℤ} (from_ : monthFirst k * msPerDay ≤ l) :
    monthFirst (k + 1) * msPerDay ≤ Calendar.setMonth l (getMonth l + 1) := by
  have index : k ≤ monthIndex (day l) := by
    have notOver := (monthIndex_spec (day l)).2
    refine Int.lt_add_one_iff.1 (monthFirst_strictMono.lt_iff_lt.1 (lt_of_le_of_lt ?_ notOver))
    unfold day msPerDay at *
    omega
  have later := monthFirst_strictMono.monotone (Int.add_le_add_right index 1)
  have begun := (monthIndex_spec (day l)).1
  have time := (timeWithinDay_bounds l).1
  have sum : 12 * yearFromDay (day l) + (getMonth l + 1) = monthIndex (day l) + 1 := by
    rw [getMonth, monthIndex]
    ring
  rw [Calendar.setMonth, makeDay_eq, sum, getDate, dateFromDay_eq, makeDate]
  unfold msPerDay
  omega

theorem localTime_lt_nextMonth (t : ℤ) : rule.localTime t < nextMonth rule t := by
  have first := rule.le_localTime_utc (Calendar.setDate (rule.localTime t) 1)
  have midnight := floor_le_beginning rule msPerDay
    (rule.utc (Calendar.setDate (rule.localTime t) 1))
  have notOver := (monthIndex_spec (day (rule.localTime t))).2
  have time := (timeWithinDay_bounds (rule.localTime t)).1
  refine lt_of_lt_of_le ?_ (monthFirst_succ_le_setMonth (k := monthIndex (day (rule.localTime t)))
    (le_trans ?_ midnight))
  · unfold day msPerDay at *
    omega
  · rw [setDate_eq] at first ⊢
    unfold msPerDay at *
    omega

/-- What the steps set, from the coarsest to the finest. -/
def upcoming (rule : LocalTimeRule) (t : ℤ) : List ℤ :=
  [nextMonth rule t, nextDay rule t, nextHour rule t, nextMinute rule t]

theorem localTime_lt_upcoming {l : ℤ} (mem : l ∈ upcoming rule t) : rule.localTime t < l := by
  rcases List.mem_cons.1 mem with rfl | mem
  · exact localTime_lt_nextMonth t
  rcases List.mem_cons.1 mem with rfl | mem
  · exact localTime_lt_beginning_add (by decide) t
  rcases List.mem_cons.1 mem with rfl | mem
  · exact localTime_lt_beginning_add (by decide) t
  · obtain rfl := List.mem_singleton.1 mem
    exact localTime_lt_beginning_add (by decide) t

/-! ## When the steps are forward -/

variable (rule)

/-- The minute of the instant has begun less than a minute ago. -/
def Begun (t : ℤ) : Prop :=
  t < rule.utc (rule.localTime t / msPerMinute * msPerMinute) + msPerMinute

/-- The next month, day, hour and minute of the local clock have not been shown yet. -/
def Fresh (t : ℤ) : Prop := ∀ l ∈ upcoming rule t, ∀ u ≤ t, rule.localTime u ≠ l

variable {rule} {expr : ParsedCronExpression} {deadline fromMs : ℤ}

theorem advances_iff (t : ℤ) :
    (t < advanceMonth rule t ∧ t < advanceDay rule t ∧ t < advanceHour rule t ∧
      t < advanceMinute rule t) ↔ Fresh rule t := by
  have ahead : Fresh rule t ↔ ∀ l ∈ upcoming rule t, t < rule.utc l :=
    forall₂_congr fun _ mem => (LocalTimeRule.lt_utc_iff (localTime_lt_upcoming mem)).symm
  rw [ahead, upcoming, List.forall_mem_cons, List.forall_mem_cons, List.forall_mem_cons,
    List.forall_mem_singleton, advanceMonth_eq, advanceDay_eq, advanceHour_eq, advanceMinute_eq]

theorem le_of_searchCronRun (expr : ParsedCronExpression) :
    ∀ (iterations : ℕ) (date : ℤ), (∀ t ≥ date, t ≤ deadline → Fresh rule t) →
    ∀ r ∈ searchCronRun rule expr deadline iterations date, date ≤ r
  | 0, _, _, _, found => nomatch found
  | iterations + 1, date, fresh, r, found => by
    rw [searchCronRun] at found
    split at found
    · cases found
    case isFalse inside =>
      obtain ⟨month, day, hour, minute⟩ := (advances_iff date).2
        (fresh date le_rfl (not_lt.1 inside))
      have further {date' : ℤ} (later : date < date')
          (found : r ∈ searchCronRun rule expr deadline iterations date') : date ≤ r :=
        later.le.trans (le_of_searchCronRun expr iterations date'
          (fun t ge notOver => fresh t (later.le.trans ge) notOver) r found)
      split at found
      · exact further month found
      split at found
      · exact further day found
      split at found
      · exact further hour found
      split at found
      · exact further minute found
      · exact (Option.some.inj found).le

theorem computeNextCronRun_eq (rule : LocalTimeRule) (expr : ParsedCronExpression) (fromMs : ℤ) :
    computeNextCronRun rule expr fromMs =
      searchCronRun rule expr (fromMs + cronWindowMs) hardIterationCap
        (rule.utc (rule.localTime fromMs / msPerMinute * msPerMinute) + msPerMinute) := by
  rw [computeNextCronRun, nextRunWithinMinutes, LocalTimeRule.setSecondsTo, setSecondsTo_zero]
  rfl

theorem lt_of_computeNextCronRun (begun : Begun rule fromMs)
    (fresh : ∀ t > fromMs, t ≤ fromMs + cronWindowMs → Fresh rule t) {r : ℤ}
    (found : computeNextCronRun rule expr fromMs = some r) : fromMs < r := by
  rw [computeNextCronRun_eq] at found
  exact lt_of_lt_of_le begun (le_of_searchCronRun expr _ _
    (fun t ge => fresh t (lt_of_lt_of_le begun ge)) r found)

/-! ## The expression that always matches -/

def everyMinute : ParsedCronExpression :=
  { raw := "* * * * *".toList, minutes := cronValues 0 59 1, hours := cronValues 0 23 1
    daysOfMonth := cronValues 1 31 1, months := cronValues 1 12 1
    daysOfWeek := [0, 1, 2, 3, 4, 5, 6, 0], daysOfMonthWildcard := true
    daysOfWeekWildcard := true }

theorem parse_everyMinute : parseCronExpression "* * * * *" = some everyMinute := by
  decide +kernel

theorem searchCronRun_everyMinute {date : ℤ} (notOver : date ≤ deadline) (iterations : ℕ) :
    searchCronRun rule everyMinute deadline (iterations + 1) date = some date := by
  have month : getMonth (rule.localTime date) + 1 ∈ everyMinute.months := by
    have lt := monthFromDay_lt (day (rule.localTime date))
    refine List.mem_range'.2 ⟨getMonth (rule.localTime date), ?_, ?_⟩
    · exact lt
    · omega
  have hour : (getHours (rule.localTime date)).toNat ∈ everyMinute.hours := by
    refine List.mem_range'.2 ⟨(getHours (rule.localTime date)).toNat, ?_, by omega⟩
    unfold getHours
    omega
  have minute : (getMinutes (rule.localTime date)).toNat ∈ everyMinute.minutes := by
    refine List.mem_range'.2 ⟨(getMinutes (rule.localTime date)).toNat, ?_, by omega⟩
    unfold getMinutes
    omega
  have day : dayMatches everyMinute (rule.localTime date) = true := rfl
  rw [searchCronRun, if_neg (not_lt.2 notOver), if_neg (not_not.2 month),
    if_neg (ne_false_of_eq_true day), if_neg (not_not.2 hour), if_neg (not_not.2 minute)]

theorem begun_of_everyMinute (forward : ∀ r ∈ computeNextCronRun rule everyMinute fromMs,
    fromMs < r) : Begun rule fromMs := by
  by_contra behind
  have notOver : rule.utc (rule.localTime fromMs / msPerMinute * msPerMinute) + msPerMinute ≤
      fromMs + cronWindowMs := by
    have window : 0 ≤ cronWindowMs := by decide
    unfold Begun at behind
    omega
  refine behind (forward _ ?_)
  rw [computeNextCronRun_eq]
  exact searchCronRun_everyMinute notOver _

/-! ## The rules under which the search is forward -/

/-- Every run that is found is after `fromMs`, and every step moves the candidate on. -/
structure Forward (rule : LocalTimeRule) : Prop where
  run : ∀ text expr fromMs r, parseCronExpression text = some expr →
    computeNextCronRun rule expr fromMs = some r → fromMs < r
  advance : ∀ date, date < advanceMonth rule date ∧ date < advanceDay rule date ∧
    date < advanceHour rule date ∧ date < advanceMinute rule date

theorem forward_iff_fresh (rule : LocalTimeRule) :
    Forward rule ↔ ∀ t, Begun rule t ∧ Fresh rule t := by
  constructor
  · intro forward t
    refine ⟨begun_of_everyMinute fun r found => ?_, (advances_iff t).1 (forward.advance t)⟩
    exact forward.run _ _ t r parse_everyMinute found
  · intro ahead
    refine ⟨fun text expr fromMs r _ found => ?_, fun date => (advances_iff date).2 (ahead date).2⟩
    exact lt_of_computeNextCronRun (ahead fromMs).1 (fun t _ _ => (ahead t).2) found

theorem forward_of_strictMono (strict : StrictMono rule.localTime) : Forward rule := by
  refine (forward_iff_fresh rule).2 fun t => ⟨?_, fun l mem u le shown => ?_⟩
  · unfold Begun
    rcases lt_or_ge t (rule.utc (rule.localTime t / msPerMinute * msPerMinute)) with lt | behind
    · unfold msPerMinute at *
      omega
    · have near := LocalTimeRule.sub_utc_le strict behind
      unfold msPerMinute at *
      omega
  · have later := localTime_lt_upcoming mem
    have past := strict.monotone le
    omega

/-- A minute that is shown twice, or after a later one, stops the search at one of the minutes that
are shown in between. -/
theorem localTime_lt_of_forward (whole : rule.WholeMinutes) (forward : Forward rule) (n : ℕ) :
    ∀ t u, t % msPerMinute = 0 → u % msPerMinute = 0 → u < t →
    rule.localTime u = rule.localTime t + n * msPerMinute → False := by
  have ahead := (forward_iff_fresh rule).1 forward
  induction n with
  | zero =>
    intro t u aligned aligned' before same
    rw [Nat.cast_zero, zero_mul, add_zero] at same
    have begun := (ahead t).1
    have minute := whole.localTime_mod t
    have floor : rule.localTime t / msPerMinute * msPerMinute = rule.localTime t := by
      unfold msPerMinute at *
      omega
    rw [Begun, floor] at begun
    have first := LocalTimeRule.utc_le same
    unfold msPerMinute at *
    omega
  | succ n ih =>
    intro t u aligned aligned' before back
    have minute := whole.localTime_mod t
    have floor : rule.localTime t / msPerMinute * msPerMinute = rule.localTime t := by
      unfold msPerMinute at *
      omega
    have next : nextMinute rule t = rule.localTime t + msPerMinute := by
      rw [nextMinute, beginning, floor, LocalTimeRule.localTime_utc rfl]
    have fresh := (ahead t).2 (nextMinute rule t) (by simp [upcoming])
    rw [next] at fresh
    by_cases shown : ∃ w, rule.localTime w = rule.localTime t + msPerMinute
    · obtain ⟨w, here⟩ := shown
      have later : t < w := lt_of_not_ge fun le => fresh w le here
      refine ih w u ?_ aligned' (before.trans later) ?_
      · have minute' := whole.localTime_mod w
        unfold msPerMinute at *
        omega
      · rw [here, back]
        push_cast
        ring
    · -- the minute is skipped, and `u` lies before the transition
      obtain ⟨s, -, early, late⟩ := LocalTimeRule.exists_skip (not_exists.1 shown)
      have first : t < s := by
        refine lt_of_not_ge fun ge => ?_
        have := late t ge
        unfold msPerMinute at this
        omega
      have low := early u (before.trans first)
      rw [back] at low
      push_cast at low
      unfold msPerMinute at low
      omega

theorem strictMono_of_forward (whole : rule.WholeMinutes) (forward : Forward rule) :
    StrictMono rule.localTime := by
  refine whole.strictMono fun t u aligned aligned' before => ?_
  by_contra back
  rw [not_lt] at back
  have minute := whole.localTime_mod t
  have minute' := whole.localTime_mod u
  refine localTime_lt_of_forward whole forward
    ((rule.localTime u - rule.localTime t) / msPerMinute).toNat t u aligned aligned' before ?_
  unfold msPerMinute at *
  omega

/-- The search is forward in every run and in every step exactly if the rule never shows the next
month, day, hour or minute before, nor stays in a minute; with whole minutes, if it never sets the
clock back.  What is asked of the instants of one search is enough for its run. -/
theorem forward_iff (rule : LocalTimeRule) :
    (Forward rule ↔ ∀ t, Begun rule t ∧ Fresh rule t) ∧
    (rule.WholeMinutes → (Forward rule ↔ StrictMono rule.localTime)) ∧
    ∀ expr fromMs r, Begun rule fromMs → (∀ t > fromMs, t ≤ fromMs + cronWindowMs → Fresh rule t) →
      computeNextCronRun rule expr fromMs = some r → fromMs < r :=
  ⟨forward_iff_fresh rule, fun whole => ⟨strictMono_of_forward whole, forward_of_strictMono⟩,
    fun _ _ _ begun fresh found => lt_of_computeNextCronRun begun fresh found⟩

/-! ## Central Europe in 2025 -/

/-- The clock is set forward by an hour on the 30th of March. -/
def springForward : LocalTimeRule := .oneTransition 1743296400000 3600000 7200000

theorem forward_springForward : Forward springForward := by
  have strict : StrictMono springForward.localTime := strictMono_int_of_lt_succ fun t => by
    change t + ite _ _ _ < t + 1 + ite _ _ _
    split <;> split <;> omega
  have whole : springForward.WholeMinutes := by
    refine ⟨fun t => ?_, fun t => ?_⟩
    · change ite _ _ _ % _ = _
      split <;> rfl
    · change ite _ _ _ = ite _ _ _
      unfold msPerMinute
      split <;> split <;> omega
  exact ((forward_iff springForward).2.1 whole).2 strict

/-- The clock is set back by an hour on the 26th of October. -/
def fallBack : LocalTimeRule := .oneTransition 1761440400000 7200000 3600000

def halfPast : ParsedCronExpression :=
  { raw := "30 * * * *".toList, minutes := [30], hours := cronValues 0 23 1
    daysOfMonth := cronValues 1 31 1, months := cronValues 1 12 1
    daysOfWeek := [0, 1, 2, 3, 4, 5, 6, 0], daysOfMonthWildcard := true
    daysOfWeekWildcard := true }

/-- Half a minute before the clock is set back from three to two, the next half past is found to be
the one that is over. -/
theorem not_forward_fallBack : ¬∀ rule text expr fromMs r, parseCronExpression text = some expr →
    computeNextCronRun rule expr fromMs = some r → fromMs < r := by
  intro all
  have later := all fallBack "30 * * * *" halfPast 1761440370000 1761438600000 (by decide +kernel)
    (by decide +kernel)
  exact absurd later (by decide)

end LocalRun

end KimiCli
