import OpenBrf.Events.OccurrencePlan
import OpenBrf.Shared.StockholmCalendar

/-!
# Events.SeriesDays — a schedule names different dates

The dates of a rule come one after the other, and the period of a date begins on it, so no two
periods of a schedule begin on one local day.
-/

namespace OpenBrf.Events

open Shared

/-! ### Months -/

/-- `Date.UTC` has no month longer than it is. -/
theorem daysInMonth_utcYear_le (year month : Int) :
    daysInMonth (utcYear year) month ≤ daysInMonth year month := by
  have hleap : isLeapYear (utcYear year) = true → isLeapYear year = true := by
    unfold isLeapYear utcYear
    simp only [Bool.and_eq_true, Bool.or_eq_true, decide_eq_true_eq]
    split_ifs <;> omega
  unfold daysInMonth
  split_ifs with hmonth h1 h2 <;> simp_all

/-- The length a date is clamped to in a month, counting months from the year zero. -/
def clampLength (month : Int) : Int := daysInMonth (utcYear (month / 12)) (month % 12 + 1)

theorem clampLength_le (month : Int) : clampLength month ≤ monthLength month :=
  daysInMonth_utcYear_le _ _

theorem le_clampLength (month : Int) : 28 ≤ clampLength month := (daysInMonth_range _ _).1

theorem number_addLocalMonths (first : LocalDay) (months : Int) :
    (addLocalMonths first months).number =
      monthStart (12 * first.year + (first.month - 1 + months)) +
        min first.day (clampLength (12 * first.year + (first.month - 1 + months))) - 1 := by
  unfold addLocalMonths monthStart clampLength
  have hdiv : (12 * first.year + (first.month - 1 + months)) / 12 =
      first.year + (first.month - 1 + months) / 12 := by omega
  have hmod : (12 * first.year + (first.month - 1 + months)) % 12 =
      (first.month - 1 + months) % 12 := by omega
  rw [hdiv, hmod]
  unfold LocalDay.number
  dsimp only
  omega

/-- A date shifted by more months is later, whatever day of the month it is clamped to. -/
theorem addLocalMonths_lt (first : LocalDay) {months months' : Int} (h : months < months') :
    (addLocalMonths first months).number < (addLocalMonths first months').number := by
  rw [number_addLocalMonths, number_addLocalMonths]
  set month := 12 * first.year + (first.month - 1 + months)
  have hnext := monthStart_succ month
  have hlater : monthStart (month + 1) ≤
      monthStart (12 * first.year + (first.month - 1 + months')) :=
    monthStart_mono (by omega)
  have hclamp := clampLength_le month
  have hpos := le_clampLength month
  have hpos' := le_clampLength (12 * first.year + (first.month - 1 + months'))
  omega

/-! ### The dates of a rule -/

theorem dayOfStep_lt (first : LocalDay) {rule : RecurrenceRule} (hinterval : 1 ≤ rule.interval)
    {step step' : Int} (h : step < step') :
    dayOfStep first rule step < dayOfStep first rule step' := by
  have hmul : step * rule.interval < step' * rule.interval :=
    Int.mul_lt_mul_of_pos_right h (by omega)
  unfold dayOfStep
  cases rule.frequency with
  | WEEKLY =>
    show first.dateUTC + step * rule.interval * 7 < first.dateUTC + step' * rule.interval * 7
    omega
  | MONTHLY => exact addLocalMonths_lt first hmul
  | ANNUAL => exact addLocalMonths_lt first (by omega)

theorem mem_daysFrom {first : LocalDay} {rule : RecurrenceRule} {day : Int} :
    ∀ {n : ℕ} {step : Int}, day ∈ daysFrom first rule n step →
      ∃ step', step ≤ step' ∧ day = dayOfStep first rule step'
  | 0, _, h => by
    unfold daysFrom at h
    exact absurd h List.not_mem_nil
  | n + 1, step, h => by
    unfold daysFrom at h
    split_ifs at h
    · exact absurd h List.not_mem_nil
    · exact absurd h List.not_mem_nil
    · rcases List.mem_cons.mp h with rfl | hlater
      · exact ⟨step, le_rfl, rfl⟩
      · obtain ⟨step', hle, hday⟩ := mem_daysFrom hlater
        exact ⟨step', by omega, hday⟩

theorem pairwise_daysFrom (first : LocalDay) {rule : RecurrenceRule}
    (hinterval : 1 ≤ rule.interval) :
    ∀ (n : ℕ) (step : Int), (daysFrom first rule n step).Pairwise (· < ·)
  | 0, _ => .nil
  | n + 1, step => by
    unfold daysFrom
    split_ifs
    · exact .nil
    · exact .nil
    · refine .cons (fun day hday => ?_) (pairwise_daysFrom first hinterval n (step + 1))
      obtain ⟨step', hle, rfl⟩ := mem_daysFrom hday
      exact dayOfStep_lt first hinterval (by omega)

/-- The dates a schedule names come one after the other. -/
theorem pairwise_recurrenceDays (schedule : SeriesSchedule) :
    (recurrenceDays schedule).Pairwise (· < ·) := by
  unfold recurrenceDays
  split
  · exact List.pairwise_singleton _ _
  · split_ifs with hinterval
    · exact List.pairwise_singleton _ _
    · exact pairwise_daysFrom _ (not_lt.mp hinterval) _ _

/-! ### The local days of the periods -/

variable {zone : Zone}

theorem fieldsAt_periodOn {schedule : SeriesSchedule} {day : Int} {period : Period}
    (h : periodOn zone schedule day = some period) :
    fieldsAt zone period.startsAt = (.ofNumber day, schedule.startsAtMinute) := by
  unfold periodOn at h
  split at h
  · next hstart _ =>
    rw [← Option.some.inj h]
    exact fieldsAt_instantAt schedule.starts_within.1 schedule.starts_within.2 hstart
  · cases h

/-- **The periods of a schedule begin on different days.** -/
theorem nodup_days_occurrencePeriods (schedule : SeriesSchedule) :
    ((occurrencePeriods zone schedule).map fun period => localDayOf zone period.startsAt).Nodup := by
  unfold occurrencePeriods
  rw [List.Nodup, List.pairwise_map, List.pairwise_filterMap]
  refine (pairwise_recurrenceDays schedule).imp ?_
  intro day day' hlt period hperiod period' hperiod' hsame
  -- instants of one local day show one date, which is that of one day
  have hdate : (fieldsAt zone period.startsAt).1 = (fieldsAt zone period'.startsAt).1 := by
    unfold fieldsAt dateOf
    rw [hsame]
  rw [fieldsAt_periodOn hperiod, fieldsAt_periodOn hperiod'] at hdate
  have hnumber := congrArg LocalDay.number hdate
  rw [LocalDay.number_ofNumber, LocalDay.number_ofNumber] at hnumber
  omega

end OpenBrf.Events
