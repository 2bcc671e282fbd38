import OpenBrf.Events.SeriesDays

/-!
# Events.RuleDays — the days of a rule that is accepted (`recurrence.ts`)

The check bounds the last day of a rule, the generator the number of its days.  A step goes a week or
a month on, so what the check accepts the generator never cuts short, as long as no date is past the
range of a `Date`: the bounds on a request see to that.
-/

namespace OpenBrf.Events

open Shared

/-! ### What a request may carry -/

def MAX_INTERVAL : Int := 52

/-- A date of the year 100 or later, as `parseLocalDay` gives them. -/
structure Stated (day : LocalDay) : Prop where
  real : day.Real
  year : 100 ≤ day.year ∧ day.year ≤ 9999

instance (day : LocalDay) : Decidable (Stated day) :=
  decidable_of_iff (day.Real ∧ 100 ≤ day.year ∧ day.year ≤ 9999)
    ⟨fun h => ⟨h.1, h.2⟩, fun h => ⟨h.real, h.year⟩⟩

/-- The bounds on the rule of a request, and on the dates it is made of. -/
structure SeriesSchedule.Sent (schedule : SeriesSchedule) : Prop where
  firstOn : Stated schedule.firstOn
  interval : ∀ rule ∈ schedule.recurrence, rule.interval ≤ MAX_INTERVAL
  count : ∀ rule ∈ schedule.recurrence, ∀ count ∈ rule.count, count ≤ MAX_OCCURRENCES
  untilOn : ∀ rule ∈ schedule.recurrence, ∀ untilOn ∈ rule.untilOn, Stated untilOn

theorem Stated.dateUTC_eq {day : LocalDay} (h : Stated day) : day.dateUTC = day.number :=
  LocalDay.dateUTC_of_year h.year.1

/-- Dates that can be stated are counted, and far from the last `Date`. -/
theorem Stated.number_range {day : LocalDay} (h : Stated day) :
    FIRST_COUNTED_DAY ≤ day.number ∧ day.number < 3000000 := by
  have hfirst : LocalDay.number ⟨100, 1, 1⟩ = FIRST_COUNTED_DAY := by decide
  have hlast : LocalDay.number ⟨10000, 1, 1⟩ < 3000000 := by decide
  have hlow := LocalDay.number_lt_iff h.real (show LocalDay.Real ⟨100, 1, 1⟩ by decide)
  have hhigh := LocalDay.number_lt_iff h.real (show LocalDay.Real ⟨10000, 1, 1⟩ by decide)
  have hyear := h.year
  have hmonth := h.real.1
  have hday := h.real.2
  unfold LocalDay.monthIndex at hlow hhigh
  dsimp only at hlow hhigh
  have hbefore : ¬ day.number < LocalDay.number ⟨100, 1, 1⟩ := by
    rw [hlow]
    omega
  have hafter := hhigh.mpr (by omega)
  omega

/-! ### How far a step goes -/

section Steps

variable {first : LocalDay} {rule : RecurrenceRule}

theorem monthStart_add (month : Int) : ∀ n : ℕ,
    monthStart month + 28 * n ≤ monthStart (month + n) ∧
      monthStart (month + n) ≤ monthStart month + 31 * n
  | 0 => by simp
  | n + 1 => by
    have hstep := monthStart_succ (month + n)
    have hlength := monthLength_range (month + n)
    have hprev := monthStart_add month n
    have hcast : month + ((n + 1 : ℕ) : Int) = month + n + 1 := by omega
    rw [hcast, hstep]
    omega

theorem monthIndex_addLocalMonths (first : LocalDay) (months : Int) :
    (addLocalMonths first months).monthIndex = first.monthIndex + months := by
  unfold addLocalMonths LocalDay.monthIndex
  dsimp only
  omega

theorem month_addLocalMonths (first : LocalDay) (months : Int) :
    1 ≤ (addLocalMonths first months).month ∧ (addLocalMonths first months).month ≤ 12 := by
  unfold addLocalMonths
  dsimp only
  omega

/-- So many months on, a date is four weeks later for each but the first, and 31 days at most. -/
theorem number_add_months (hreal : first.Real) (n : ℕ) :
    first.number + 28 * n ≤ (addLocalMonths first n).number + 30 ∧
      monthStart (addLocalMonths first n).monthIndex ≤ first.number + 31 * n := by
  have hshort := (daysInMonth_range first.year first.month).2
  have hday := hreal.2
  have hindex : 12 * first.year + (first.month - 1 + n) = first.monthIndex + n := by
    unfold LocalDay.monthIndex
    omega
  have hadd := monthStart_add first.monthIndex n
  have hlength := le_clampLength (first.monthIndex + n)
  rw [LocalDay.number_eq hreal.1, number_addLocalMonths, hindex, monthIndex_addLocalMonths]
  omega

/-- Months on from a date that can be stated, the year is still counted as it is. -/
theorem Stated.year_addLocalMonths (h : Stated first) (n : ℕ) :
    100 ≤ (addLocalMonths first n).year := by
  have hyear := h.year
  have hmonth := h.real.1
  show 100 ≤ first.year + (first.month - 1 + (n : Int)) / 12
  omega

/-- The clamp is to the length of the month. -/
theorem Stated.day_addLocalMonths (h : Stated first) (n : ℕ) :
    (addLocalMonths first n).day =
      min first.day (daysInMonth (addLocalMonths first n).year (addLocalMonths first n).month) := by
  have hyear := h.year_addLocalMonths n
  show min first.day (daysInMonth (utcYear (addLocalMonths first n).year) _) = _
  unfold utcYear
  rw [if_neg (by omega)]
  rfl

theorem Stated.real_addLocalMonths (h : Stated first) (n : ℕ) : (addLocalMonths first n).Real := by
  have hlength := (daysInMonth_range (addLocalMonths first n).year (addLocalMonths first n).month).1
  have hone := h.real.2.1
  refine ⟨month_addLocalMonths first n, ?_, ?_⟩
  · rw [h.day_addLocalMonths]
    exact le_min hone (by omega)
  · rw [h.day_addLocalMonths]
    exact min_le_right _ _

/-- The months a step goes on, as a number of them. -/
theorem monthsOfStep_eq (first : LocalDay) (hinterval : 1 ≤ rule.interval) {step : ℕ} {months : Int}
    (hmonths : monthsOfStep rule step = some months) : ∃ n : ℕ, months = n ∧ step ≤ n ∧
      dayOfStep first rule step = (addLocalMonths first n).number ∧
      (rule.interval ≤ MAX_INTERVAL → n ≤ step * 624) := by
  unfold MAX_INTERVAL
  obtain ⟨interval, hpos, heq⟩ : ∃ interval : ℕ, 1 ≤ interval ∧ rule.interval = interval :=
    ⟨rule.interval.toNat, by omega, by omega⟩
  have hmul : step ≤ step * interval := Nat.le_mul_of_pos_right _ hpos
  have hmost : interval ≤ 52 → step * interval ≤ step * 52 := Nat.mul_le_mul_left step
  unfold monthsOfStep at hmonths
  unfold dayOfStep
  cases hfrequency : rule.frequency <;> rw [hfrequency] at hmonths
  · cases hmonths
  · refine ⟨step * interval, ?_, hmul, ?_, fun hshort => ?_⟩
    · rw [← Option.some.inj hmonths, heq, Int.natCast_mul]
    · dsimp only
      rw [heq, Int.natCast_mul]
    · have := hmost (by omega)
      omega
  · refine ⟨step * interval * 12, ?_, by omega, ?_, fun hshort => ?_⟩
    · rw [← Option.some.inj hmonths, heq, Int.natCast_mul, Int.natCast_mul]
      rfl
    · dsimp only
      rw [heq, Int.natCast_mul, Int.natCast_mul]
      rfl
    · have := hmost (by omega)
      omega

/-- A rule that goes by no months goes by weeks. -/
theorem dayOfStep_weekly (h : Stated first) {step : Int} (hweekly : monthsOfStep rule step = none) :
    dayOfStep first rule step = first.number + step * rule.interval * 7 := by
  unfold monthsOfStep at hweekly
  unfold dayOfStep
  cases hfrequency : rule.frequency <;> rw [hfrequency] at hweekly
  · dsimp only
    rw [h.dateUTC_eq]
  · cases hweekly
  · cases hweekly

/-- A step of a rule is a week at least, but for a month's first days. -/
theorem dayOfStep_far (h : Stated first) (hinterval : 1 ≤ rule.interval) (step : ℕ)
    (hfar : 2 ≤ step) : first.number + 7 * step ≤ dayOfStep first rule step := by
  cases hmonths : monthsOfStep rule step with
  | none =>
    rw [dayOfStep_weekly h hmonths]
    have hmul : (step : Int) * 1 ≤ step * rule.interval :=
      Int.mul_le_mul_of_nonneg_left hinterval (by omega)
    omega
  | some months =>
    obtain ⟨n, rfl, hle, heq, -⟩ := monthsOfStep_eq first hinterval hmonths
    have hadd := (number_add_months h.real n).1
    omega

theorem dayOfStep_zero (h : Stated first) (rule : RecurrenceRule) :
    dayOfStep first rule 0 = first.number := by
  have hmonth : (addLocalMonths first 0).number = first.number := by
    have hreal := h.day_addLocalMonths 0
    have hindex := monthIndex_addLocalMonths first 0
    rw [add_zero] at hindex
    have hyear : (addLocalMonths first 0).year = first.year := by
      have hin := h.real.1
      have hmonth := month_addLocalMonths first 0
      unfold LocalDay.monthIndex at hindex
      omega
    have hmonth : (addLocalMonths first 0).month = first.month := by
      unfold LocalDay.monthIndex at hindex
      omega
    rw [LocalDay.number_eq (month_addLocalMonths first 0), LocalDay.number_eq h.real.1, hindex]
    rw [Nat.cast_zero, hyear, hmonth, min_eq_left h.real.2.2] at hreal
    omega
  unfold dayOfStep
  cases rule.frequency with
  | WEEKLY => simpa using h.dateUTC_eq
  | MONTHLY => simpa using hmonth
  | ANNUAL => simpa using hmonth

/-- No step is before the first day. -/
theorem le_dayOfStep (h : Stated first) (hinterval : 1 ≤ rule.interval) (step : ℕ) :
    first.number ≤ dayOfStep first rule step := by
  rw [← dayOfStep_zero h rule]
  rcases Nat.eq_zero_or_pos step with rfl | hpos
  · exact le_rfl
  · exact (dayOfStep_lt first hinterval (by omega)).le

/-- A month that ends before the last `Date` has a number of days. -/
theorem isSome_utcDaysInMonth {year month : Int} (hyear : 100 ≤ year)
    (hmonth : 1 ≤ month ∧ month ≤ 12) (hends : monthStart (12 * year + month - 1) + 31 ≤ MAX_DAY) :
    (utcDaysInMonth year month).isSome = true := by
  set last : LocalDay := ⟨year, month, daysInMonth (utcYear year) month⟩ with hlast
  have hcounted : last.dateUTC = last.number := LocalDay.dateUTC_of_year hyear
  have hnumber : last.number = monthStart (12 * year + month - 1) + last.day - 1 :=
    LocalDay.number_eq hmonth
  have hlength : last.day ≤ 31 := (daysInMonth_range _ _).2
  have hreached : last.dateUTC ≤ MAX_DAY := by omega
  unfold utcDaysInMonth
  dsimp only
  rw [← hlast, if_pos hreached]
  rfl

/-- So many months on there still are dates. -/
theorem Stated.reached_addLocalMonths (h : Stated first) {n : ℕ} (hn : n ≤ MAX_OCCURRENCES * 624) :
    (utcDaysInMonth (addLocalMonths first n).year (addLocalMonths first n).month).isSome = true ∧
      (addLocalMonths first n).number ≤ MAX_DAY := by
  have hfirst := h.number_range.2
  have hfar := (number_add_months h.real n).2
  have hreal := h.real_addLocalMonths n
  have hday := hreal.2.2.trans (daysInMonth_range _ _).2
  have hnumber := LocalDay.number_eq hreal.1
  have hends : monthStart (addLocalMonths first n).monthIndex + 31 ≤ MAX_DAY := by
    unfold MAX_OCCURRENCES at hn
    unfold MAX_DAY
    omega
  exact ⟨isSome_utcDaysInMonth (h.year_addLocalMonths n) hreal.1 hends, by omega⟩

theorem reached_of_step (h : Stated first) (hinterval : 1 ≤ rule.interval)
    (hbound : rule.interval ≤ MAX_INTERVAL) {step : ℕ} (hstep : step ≤ MAX_OCCURRENCES) :
    isStepReached first rule step = true ∧ dayOfStep first rule step ≤ MAX_DAY := by
  unfold isStepReached
  cases hmonths : monthsOfStep rule step with
  | none =>
    have hfirst := h.number_range.2
    have hmul : (step : Int) * rule.interval ≤ step * 52 :=
      Int.mul_le_mul_of_nonneg_left hbound (by omega)
    rw [dayOfStep_weekly h hmonths]
    unfold MAX_OCCURRENCES at hstep
    unfold MAX_DAY
    exact ⟨rfl, by omega⟩
  | some months =>
    obtain ⟨n, rfl, -, heq, hn⟩ := monthsOfStep_eq first hinterval hmonths
    rw [heq]
    exact h.reached_addLocalMonths ((hn hbound).trans (Nat.mul_le_mul_right 624 hstep))

/-- **The steps a request can name** are compared as the calendar has them. -/
theorem stepIsAfter_iff (h : Stated first) (hinterval : 1 ≤ rule.interval)
    (hbound : rule.interval ≤ MAX_INTERVAL) {step : ℕ} (hstep : step ≤ MAX_OCCURRENCES) {day : Int}
    (hday : FIRST_COUNTED_DAY ≤ day ∧ day ≤ MAX_DAY) :
    stepIsAfter first rule step day = true ↔ day < dayOfStep first rule step := by
  obtain ⟨hhas, hhigh⟩ := reached_of_step h hinterval hbound hstep
  have hlow := h.number_range.1.trans (le_dayOfStep h hinterval step)
  unfold stepIsAfter isAfterDay isReached
  rw [hhas, dateUTC_of_counted hlow]
  have hfirst : FIRST_COUNTED_DAY = -683003 := rfl
  have hlast : MAX_DAY = 100000000 := rfl
  simp only [Bool.true_and, Bool.and_eq_true, decide_eq_true_eq]
  omega

end Steps

/-! ### What the check accepts -/

/-- A rule names the date of a step: it is below the count, and not past the last date. -/
def Named (first : LocalDay) (rule : RecurrenceRule) (step : Int) : Prop :=
  (∀ count ∈ rule.count, step < count) ∧
    ∀ untilOn ∈ rule.untilOn, dayOfStep first rule step ≤ untilOn.number

theorem Named.earlier {first : LocalDay} {rule : RecurrenceRule} (hinterval : 1 ≤ rule.interval)
    {step step' : Int} (hle : step ≤ step') (h : Named first rule step') :
    Named first rule step := by
  refine ⟨fun count hcount => ?_, fun untilOn huntil => ?_⟩
  · exact hle.trans_lt (h.1 count hcount)
  · refine le_trans ?_ (h.2 untilOn huntil)
    rcases hle.eq_or_lt with rfl | hlt
    · exact le_rfl
    · exact (dayOfStep_lt first hinterval hlt).le

section Checked

variable {zone : Zone} {schedule : SeriesSchedule} {rule : RecurrenceRule}

theorem interval_of_checked (h : checkRecurrenceSchedule zone schedule = none)
    (hrule : schedule.recurrence = some rule) : 1 ≤ rule.interval := by
  unfold checkRecurrenceSchedule at h
  rw [hrule] at h
  dsimp only at h
  split_ifs at h with _ _ hinterval
  omega

/-- The generator stops at the first step a rule does not name. -/
theorem not_named_iff (hsent : schedule.Sent) (hrule : schedule.recurrence = some rule)
    (hinterval : 1 ≤ rule.interval) {step : ℕ} (hstep : step ≤ MAX_OCCURRENCES) :
    ¬ Named schedule.firstOn rule step ↔ rule.count.any (· ≤ (step : Int)) = true ∨
      rule.untilOn.any (fun untilOn => stepIsAfter schedule.firstOn rule step untilOn.dateUTC) =
        true := by
  have huntil : (∀ untilOn ∈ rule.untilOn, dayOfStep schedule.firstOn rule step ≤ untilOn.number) ↔
      ¬ rule.untilOn.any (fun untilOn => stepIsAfter schedule.firstOn rule step untilOn.dateUTC) =
        true := by
    cases huntil : rule.untilOn with
    | none => simp
    | some untilOn =>
      have hstated := hsent.untilOn rule hrule untilOn huntil
      have hrange := hstated.number_range
      have hafter := stepIsAfter_iff hsent.firstOn hinterval (hsent.interval rule hrule) hstep
        ⟨hrange.1, show untilOn.number ≤ MAX_DAY from hrange.2.le.trans (by decide)⟩
      rw [Option.any_some, hstated.dateUTC_eq, hafter]
      simp
  unfold Named
  rw [not_and_or, huntil, not_not]
  refine or_congr_left ?_
  cases rule.count <;> simp

theorem mem_daysFrom_iff (hsent : schedule.Sent) (hrule : schedule.recurrence = some rule)
    (hinterval : 1 ≤ rule.interval) (day : Int) :
    ∀ (n step : ℕ), step + n ≤ MAX_OCCURRENCES →
      (day ∈ daysFrom schedule.firstOn rule n step ↔ ∃ step' : ℕ, step ≤ step' ∧ step' < step + n ∧
        Named schedule.firstOn rule step' ∧ day = dayOfStep schedule.firstOn rule step')
  | 0, step, _ => by
    unfold daysFrom
    constructor
    · intro h
      cases h
    · rintro ⟨step', hle, hlt, -⟩
      omega
  | n + 1, step, hroom => by
    have hgo := not_named_iff hsent hrule hinterval (show step ≤ MAX_OCCURRENCES by omega)
    unfold daysFrom
    by_cases hnamed : Named schedule.firstOn rule step
    · have hboth := hgo.not.mp (not_not.mpr hnamed)
      rw [not_or] at hboth
      have hrest := mem_daysFrom_iff hsent hrule hinterval day n (step + 1) (by omega)
      rw [Nat.cast_add, Nat.cast_one] at hrest
      rw [if_neg hboth.1, if_neg hboth.2, List.mem_cons, hrest]
      constructor
      · rintro (rfl | ⟨step', hle, hlt, hlater, rfl⟩)
        · exact ⟨step, le_rfl, by omega, hnamed, rfl⟩
        · exact ⟨step', by omega, by omega, hlater, rfl⟩
      · rintro ⟨step', hle, hlt, hlater, rfl⟩
        rcases hle.eq_or_lt with rfl | hnext
        · exact .inl rfl
        · exact .inr ⟨step', by omega, by omega, hlater, rfl⟩
    · have hnone : ¬ ∃ step' : ℕ, step ≤ step' ∧ step' < step + (n + 1) ∧
          Named schedule.firstOn rule step' ∧ day = dayOfStep schedule.firstOn rule step' := by
        rintro ⟨step', hle, -, hlater, -⟩
        exact hnamed (hlater.earlier hinterval (by omega))
      rw [iff_false_right hnone]
      rcases hgo.mp hnamed with hcount | huntil
      · rw [if_pos hcount]
        exact List.not_mem_nil
      · rw [if_pos huntil]
        split_ifs <;> exact List.not_mem_nil

/-- Every date an accepted rule names is within the horizon: its last one is, by the count or by the
date it ends on. -/
theorem Named.within_horizon (hsent : schedule.Sent)
    (h : checkRecurrenceSchedule zone schedule = none) (hrule : schedule.recurrence = some rule)
    {step : Int} (hnamed : Named schedule.firstOn rule step) :
    dayOfStep schedule.firstOn rule step ≤ schedule.firstOn.number + RECURRENCE_HORIZON_DAYS := by
  have hinterval := interval_of_checked h hrule
  have hbound := hsent.interval rule hrule
  have hrange := hsent.firstOn.number_range
  have hhorizon : FIRST_COUNTED_DAY ≤ schedule.firstOn.number + RECURRENCE_HORIZON_DAYS ∧
      schedule.firstOn.number + RECURRENCE_HORIZON_DAYS ≤ MAX_DAY := by
    unfold RECURRENCE_HORIZON_DAYS MAX_DAY
    omega
  unfold checkRecurrenceSchedule at h
  rw [hrule] at h
  dsimp only at h
  rw [hsent.firstOn.dateUTC_eq, dateUTC_of_counted hhorizon.1] at h
  split_ifs at h
  split at h
  · cases h
  · cases h
  · next count hcount _ =>
    split_ifs at h with hfew hlast
    have hmost := hsent.count rule hrule count hcount
    have hbelow := hnamed.1 count hcount
    obtain ⟨last, hlaststep⟩ : ∃ last : ℕ, count - 1 = last := ⟨(count - 1).toNat, by omega⟩
    rw [hlaststep, stepIsAfter_iff hsent.firstOn hinterval hbound (by omega) hhorizon, not_lt] at hlast
    rcases (show step ≤ (last : Int) by omega).eq_or_lt with rfl | hlt
    · exact hlast
    · exact (dayOfStep_lt schedule.firstOn hinterval hlt).le.trans hlast
  · next untilOn _ huntil =>
    split_ifs at h with _ _ hlast
    have hbefore := hnamed.2 untilOn huntil
    have hstated := hsent.untilOn rule hrule untilOn huntil
    have huntilRange := hstated.number_range
    have hfirst : FIRST_COUNTED_DAY = -683003 := rfl
    have hmax : MAX_DAY = 100000000 := rfl
    rw [hstated.dateUTC_eq] at hlast
    unfold isAfterDay isReached at hlast
    simp only [Bool.and_eq_true, decide_eq_true_eq] at hlast
    omega

/-- So a named step is one the generator reaches: the horizon holds no more weeks than that. -/
theorem Named.lt_maxOccurrences (hsent : schedule.Sent)
    (h : checkRecurrenceSchedule zone schedule = none) (hrule : schedule.recurrence = some rule)
    {step : ℕ} (hnamed : Named schedule.firstOn rule step) : step < MAX_OCCURRENCES := by
  have hwithin := hnamed.within_horizon hsent h hrule
  by_contra hbeyond
  unfold MAX_OCCURRENCES at hbeyond
  have hfar := dayOfStep_far hsent.firstOn (interval_of_checked h hrule) step (by omega)
  unfold RECURRENCE_HORIZON_DAYS at hwithin
  omega

/-! ### The days of an accepted schedule -/

/-- The days a schedule names, whatever the generator reaches. -/
def SeriesSchedule.Names (schedule : SeriesSchedule) (day : Int) : Prop :=
  match schedule.recurrence with
  | none => day = schedule.firstOn.number
  | some rule => ∃ step : ℕ, Named schedule.firstOn rule step ∧
      day = dayOfStep schedule.firstOn rule step

theorem mem_recurrenceDays_iff (hsent : schedule.Sent)
    (h : checkRecurrenceSchedule zone schedule = none) (day : Int) :
    day ∈ recurrenceDays schedule ↔ schedule.Names day := by
  unfold recurrenceDays SeriesSchedule.Names
  cases hrule : schedule.recurrence with
  | none => exact List.mem_singleton
  | some rule =>
    have hinterval := interval_of_checked h hrule
    dsimp only
    have hdays := mem_daysFrom_iff hsent hrule hinterval day MAX_OCCURRENCES 0 (by omega)
    rw [Nat.cast_zero] at hdays
    rw [if_neg (not_lt.mpr hinterval), hdays]
    constructor
    · rintro ⟨step, -, -, hnamed, rfl⟩
      exact ⟨step, hnamed, rfl⟩
    · rintro ⟨step, hnamed, rfl⟩
      have hreached := hnamed.lt_maxOccurrences hsent h hrule
      exact ⟨step, by omega, by omega, hnamed, rfl⟩

theorem SeriesSchedule.Names.within (hsent : schedule.Sent)
    (h : checkRecurrenceSchedule zone schedule = none) {day : Int} (hnames : schedule.Names day) :
    schedule.firstOn.number ≤ day ∧
      day ≤ schedule.firstOn.number + RECURRENCE_HORIZON_DAYS := by
  unfold SeriesSchedule.Names at hnames
  cases hrule : schedule.recurrence with
  | none =>
    rw [hrule] at hnames
    dsimp only at hnames
    unfold RECURRENCE_HORIZON_DAYS
    omega
  | some rule =>
    rw [hrule] at hnames
    obtain ⟨step, hnamed, rfl⟩ := hnames
    exact ⟨le_dayOfStep hsent.firstOn (interval_of_checked h hrule) step,
      hnamed.within_horizon hsent h hrule⟩

theorem length_daysFrom_le (first : LocalDay) (rule : RecurrenceRule) :
    ∀ (n : ℕ) (step : Int), (daysFrom first rule n step).length ≤ n
  | 0, _ => Nat.zero_le _
  | n + 1, step => by
    have hrest := length_daysFrom_le first rule n (step + 1)
    unfold daysFrom
    split_ifs <;> simp
    omega

theorem length_recurrenceDays_le (schedule : SeriesSchedule) :
    (recurrenceDays schedule).length ≤ MAX_OCCURRENCES := by
  unfold recurrenceDays
  split
  · exact Nat.le_of_ble_eq_true rfl
  · split_ifs
    · exact Nat.le_of_ble_eq_true rfl
    · exact length_daysFrom_le _ _ _ _

/-- **The days of an accepted schedule.**  The generator gives every day the rule names and no other,
one after the other and none twice; they are as many as it may hold, all of them within the horizon,
and its own stop is never what ends them.  A step of months names the first day's day of the month, or
the last day of a shorter month, counted from the first day at every step. -/
theorem recurrenceDays_of_checked (hsent : schedule.Sent)
    (h : checkRecurrenceSchedule zone schedule = none) :
    (∀ day, day ∈ recurrenceDays schedule ↔ schedule.Names day) ∧
      (recurrenceDays schedule).Pairwise (· < ·) ∧
      (recurrenceDays schedule).length ≤ MAX_OCCURRENCES ∧
      (∀ day ∈ recurrenceDays schedule, schedule.firstOn.number ≤ day ∧
        day ≤ schedule.firstOn.number + RECURRENCE_HORIZON_DAYS) ∧
      ∀ rule, schedule.recurrence = some rule → ∀ step : ℕ,
        (Named schedule.firstOn rule step → step < MAX_OCCURRENCES) ∧
        ∀ months, monthsOfStep rule step = some months → ∃ day : LocalDay, day.Real ∧
          day.number = dayOfStep schedule.firstOn rule step ∧
          day.monthIndex = schedule.firstOn.monthIndex + months ∧
          day.day = min schedule.firstOn.day (daysInMonth day.year day.month) := by
  refine ⟨mem_recurrenceDays_iff hsent h, pairwise_recurrenceDays schedule,
    length_recurrenceDays_le schedule, fun day hday => ?_, fun rule hrule step => ⟨?_, ?_⟩⟩
  · exact ((mem_recurrenceDays_iff hsent h day).mp hday).within hsent h
  · exact fun hnamed => hnamed.lt_maxOccurrences hsent h hrule
  · intro months hmonths
    obtain ⟨n, rfl, -, heq, -⟩ :=
      monthsOfStep_eq schedule.firstOn (interval_of_checked h hrule) hmonths
    exact ⟨addLocalMonths schedule.firstOn n, hsent.firstOn.real_addLocalMonths n, heq.symm,
      monthIndex_addLocalMonths _ _, hsent.firstOn.day_addLocalMonths n⟩

end Checked

/-- The last day of a month, three months running, in the evening. -/
def monthEnds : SeriesSchedule where
  firstOn := ⟨2026, 1, 31⟩
  startsAtMinute := 1080
  durationMinutes := 90
  recurrence := some ⟨.MONTHLY, 1, some 3, none⟩
  starts_within := by decide

theorem monthEnds_sent : monthEnds.Sent where
  firstOn := by decide
  interval := by
    rintro rule ⟨⟩
    decide
  count := by
    rintro rule ⟨⟩ count ⟨⟩
    decide
  untilOn := by rintro rule ⟨⟩ untilOn ⟨⟩

/-- February clamps to its 28th, and March is on the 31st again. -/
theorem recurrenceDays_of_monthEnds :
    recurrenceDays monthEnds = [(⟨2026, 1, 31⟩ : LocalDay).number, (⟨2026, 2, 28⟩ : LocalDay).number,
      (⟨2026, 3, 31⟩ : LocalDay).number] ∧
      (∀ day, day ∈ recurrenceDays monthEnds ↔ monthEnds.Names day) ∧
      ∃ day : LocalDay, day.number = dayOfStep ⟨2026, 1, 31⟩ ⟨.MONTHLY, 1, some 3, none⟩ 1 ∧
        day.day = min 31 (daysInMonth day.year day.month) := by
  have hchecked : checkRecurrenceSchedule utc monthEnds = none := by decide +kernel
  obtain ⟨hdays, -, -, -, hsteps⟩ := recurrenceDays_of_checked monthEnds_sent hchecked
  obtain ⟨-, hmonths⟩ := hsteps _ rfl 1
  obtain ⟨day, -, hnumber, -, hday⟩ := hmonths 1 rfl
  exact ⟨by decide +kernel, hdays, day, hnumber, hday⟩

/-- Every other week, a million million times. -/
def fortnightly : SeriesSchedule where
  firstOn := ⟨2026, 1, 31⟩
  startsAtMinute := 1080
  durationMinutes := 90
  recurrence := some ⟨.WEEKLY, 2, some 1000000000000, none⟩
  starts_within := by decide

/-- A rule whose last date would be past the last `Date` is accepted: there is no such date, and none
is after the horizon.  Its days reach beyond the horizon, and the generator's own stop ends them. -/
theorem fortnightly_cut :
    checkRecurrenceSchedule utc fortnightly = none ∧
      Named fortnightly.firstOn ⟨.WEEKLY, 2, some 1000000000000, none⟩ MAX_OCCURRENCES ∧
      (recurrenceDays fortnightly).length = MAX_OCCURRENCES ∧
      fortnightly.firstOn.number + 1456 ∈ recurrenceDays fortnightly ∧
      RECURRENCE_HORIZON_DAYS < 1456 := by
  refine ⟨by decide +kernel, ⟨?_, ?_⟩, by decide +kernel⟩
  · rintro count ⟨⟩
    decide
  · rintro untilOn ⟨⟩

end OpenBrf.Events
