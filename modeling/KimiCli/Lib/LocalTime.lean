import KimiCli.Lib.Calendar

/-!
# Local time

A zone shows each instant as a local time, which its transitions may set forward or back.  The
setters of a date compute on the local time and go back to an instant, so that they meet local
times that are shown twice, or never.
-/

namespace Calendar

/-- The offset at each instant, and the instant that stands for each local time: the first one that
shows it; if none does, what the offset before the transition that skips it makes of it. -/
structure LocalTimeRule where
  offset : ℤ → ℤ
  utc : ℤ → ℤ
  first : ∀ l t, t + offset t = l → utc l + offset (utc l) = l ∧ utc l ≤ t
  skipped : ∀ l, (∀ t, t + offset t ≠ l) →
    ∃ s, (∀ t < s, t + offset t < l) ∧ (∀ t ≥ s, l < t + offset t) ∧ utc l = l - offset (s - 1)

namespace LocalTimeRule

variable (rule : LocalTimeRule)

def localTime (t : ℤ) : ℤ := t + rule.offset t

/-! ## The setters -/

def setDate (t date : ℤ) : ℤ := rule.utc (Calendar.setDate (rule.localTime t) date)

def setMonth (t month : ℤ) : ℤ := rule.utc (Calendar.setMonth (rule.localTime t) month)

def setTime (t hour min sec ms : ℤ) : ℤ :=
  rule.utc (Calendar.setTime (rule.localTime t) hour min sec ms)

def setHours (t hour : ℤ) : ℤ := rule.utc (Calendar.setHours (rule.localTime t) hour)

def setMinutesTo (t min sec ms : ℤ) : ℤ :=
  rule.utc (Calendar.setMinutesTo (rule.localTime t) min sec ms)

def setMinutes (t min : ℤ) : ℤ := rule.utc (Calendar.setMinutes (rule.localTime t) min)

def setSecondsTo (t sec ms : ℤ) : ℤ := rule.utc (Calendar.setSecondsTo (rule.localTime t) sec ms)

/-! ## Instants and local times -/

variable {rule} {t u l : ℤ}

theorem localTime_utc (shown : rule.localTime t = l) : rule.localTime (rule.utc l) = l :=
  (rule.first l t shown).1

theorem utc_le (shown : rule.localTime t = l) : rule.utc l ≤ t := (rule.first l t shown).2

/-- A local time that is never shown is skipped at an instant, and stands for a later one. -/
theorem exists_skip (never : ∀ t, rule.localTime t ≠ l) :
    ∃ s ≤ rule.utc l, (∀ t < s, rule.localTime t < l) ∧ ∀ t ≥ s, l < rule.localTime t := by
  obtain ⟨s, before, after, eq⟩ := rule.skipped l never
  refine ⟨s, ?_, before, after⟩
  have last := before (s - 1) (by omega)
  omega

theorem le_localTime_utc (rule : LocalTimeRule) (l : ℤ) : l ≤ rule.localTime (rule.utc l) := by
  by_cases shown : ∃ t, rule.localTime t = l
  · obtain ⟨t, here⟩ := shown
    exact (localTime_utc here).ge
  · obtain ⟨s, le, -, after⟩ := exists_skip (not_exists.1 shown)
    exact (after _ le).le

/-- The instant of a later local time is ahead, unless that time has already been shown. -/
theorem lt_utc_iff (later : rule.localTime t < l) :
    t < rule.utc l ↔ ∀ u ≤ t, rule.localTime u ≠ l := by
  constructor
  · intro ahead u le shown
    exact absurd (utc_le shown) (not_le.2 (le.trans_lt ahead))
  · intro fresh
    by_contra behind
    rw [not_lt] at behind
    by_cases shown : ∃ u, rule.localTime u = l
    · obtain ⟨u, here⟩ := shown
      exact fresh _ behind (localTime_utc here)
    · obtain ⟨s, le, -, after⟩ := exists_skip (not_exists.1 shown)
      exact absurd (after t (le.trans behind)) later.not_gt

/-! ## Clocks that are not set back -/

theorem sub_le_of_strictMono (strict : StrictMono rule.localTime) (le : u ≤ t) :
    t - u ≤ rule.localTime t - rule.localTime u := by
  induction t, le using Int.leInduction with
  | base => omega
  | succ t =>
    have step := strict (lt_add_one t)
    omega

theorem sub_utc_le (strict : StrictMono rule.localTime) (behind : rule.utc l ≤ t) :
    t - rule.utc l ≤ rule.localTime t - l := by
  by_cases shown : ∃ u, rule.localTime u = l
  · obtain ⟨u, here⟩ := shown
    have near := sub_le_of_strictMono strict behind
    rwa [localTime_utc here] at near
  · obtain ⟨s, le, -, after⟩ := exists_skip (not_exists.1 shown)
    have near := sub_le_of_strictMono strict (le.trans behind)
    have skip := after s le_rfl
    omega

/-- Offsets are whole minutes, and change at whole minutes. -/
structure WholeMinutes (rule : LocalTimeRule) : Prop where
  offset : ∀ t, rule.offset t % msPerMinute = 0
  change : ∀ t, rule.offset (t / msPerMinute * msPerMinute) = rule.offset t

theorem WholeMinutes.localTime_mod (whole : rule.WholeMinutes) (t : ℤ) :
    rule.localTime t % msPerMinute = t % msPerMinute := by
  have offset := whole.offset t
  unfold localTime msPerMinute at *
  omega

theorem WholeMinutes.localTime_floor (whole : rule.WholeMinutes) (t : ℤ) :
    rule.localTime (t / msPerMinute * msPerMinute) =
      rule.localTime t / msPerMinute * msPerMinute := by
  have offset := whole.offset t
  have change := whole.change t
  unfold localTime msPerMinute at *
  omega

theorem WholeMinutes.strictMono (whole : rule.WholeMinutes)
    (minutes : ∀ t u, t % msPerMinute = 0 → u % msPerMinute = 0 → u < t →
      rule.localTime u < rule.localTime t) : StrictMono rule.localTime := by
  refine strictMono_int_of_lt_succ fun t => ?_
  by_cases begins : (t + 1) % msPerMinute = 0
  · have last := minutes (t + 1) (t / msPerMinute * msPerMinute) begins (by
      unfold msPerMinute
      omega) (by
      unfold msPerMinute
      omega)
    have floor := whole.localTime_floor t
    have aligned := whole.localTime_mod (t + 1)
    unfold msPerMinute at *
    omega
  · have change := whole.change t
    have change' := whole.change (t + 1)
    have same : (t + 1) / msPerMinute = t / msPerMinute := by
      unfold msPerMinute at *
      omega
    rw [same, change] at change'
    unfold localTime
    omega

/-! ## A zone with one transition -/

/-- The offset changes once, at the instant `transition`. -/
def oneTransition (transition before after : ℤ) : LocalTimeRule where
  offset t := if t < transition then before else after
  utc l := if l - before < transition ∨ l - after < transition then l - before else l - after
  first l t shown := by
    split at shown <;> split <;> split <;> omega
  skipped l never := by
    have early := never (l - before)
    have late := never (l - after)
    refine ⟨transition, fun t lt => ?_, fun t ge => ?_, ?_⟩
    · rw [if_pos lt]
      split at early <;> omega
    · rw [if_neg (not_lt.2 ge)]
      split at late <;> omega
    · rw [if_pos (sub_one_lt transition)]
      split at late
      · rw [if_pos (by omega)]
      · omega

/-- A zone that is always the same number of milliseconds ahead. -/
def fixed (zone : ℤ) : LocalTimeRule := oneTransition 0 zone zone

end LocalTimeRule

end Calendar
