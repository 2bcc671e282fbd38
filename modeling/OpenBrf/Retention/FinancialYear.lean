import OpenBrf.Retention.PurgeDate
import OpenBrf.Shared.StockholmCalendar

/-!
# Retention.FinancialYear — the preservation window of a financial year (`financial-year.ts`)

One rule read from two ends: the date a row becomes erasable, and the date a whole table is compared
with.  A year is written and read by the platform, which keeps some of them for others: `Date.UTC`
takes the years 0 to 99 for those of the twentieth century, and a year before the first is shown by
its number in its own era.
-/

namespace OpenBrf.Retention

open Shared

/-! ### Years as the platform has them -/

/-- `localDayOfColumn` -/
def DateColumn.localDay (column : DateColumn) : LocalDay := .ofNumber column.day

/-- The year `localDayOf` gives for an instant. -/
def localYearOf (zone : Zone) (now : Instant) : Int := (fieldsAt zone now.time).1.year

/-! ### The window -/

def CALENDAR_YEAR_START_MONTH : Int := 1

/-- A month a financial year can begin in. -/
structure StartMonth where
  month : Int
  valid : 1 ≤ month ∧ month ≤ 12
  deriving DecidableEq, Repr

/-- None is a number that is not finite. -/
def assertStartMonth (startMonth : Option ℚ) : Except RangeError StartMonth :=
  match startMonth with
  | none => .error ⟨none⟩
  | some month =>
    if h : month.den = 1 ∧ 1 ≤ month.num ∧ month.num ≤ 12 then .ok ⟨month.num, h.2⟩
    else .error ⟨some month⟩

def assertRetentionYears (retentionYears : Option ℚ) : Except RangeError ℕ :=
  match retentionYears with
  | none => .error ⟨none⟩
  | some years =>
    if years.den = 1 ∧ 0 ≤ years.num then .ok years.num.toNat else .error ⟨some years⟩

/-- The calendar year in which the financial year containing a day ended. -/
def financialYearEndYear (day : LocalDay) (startMonth : StartMonth) : Int :=
  if startMonth.month = CALENDAR_YEAR_START_MONTH ∨ day.month < startMonth.month then day.year
  else day.year + 1

def financialYearEndYearOfColumn (day : DateColumn) (startMonth : Option ℚ) : Except RangeError Int :=
  (assertStartMonth startMonth).map (financialYearEndYear day.localDay)

/-- The calendar year a financial year that ends in another begins in. -/
def financialYearStartYear (endYear : Int) (startMonth : StartMonth) : Int :=
  if startMonth.month = CALENDAR_YEAR_START_MONTH then endYear else endYear - 1

/-- The first day of the financial year that ends in a stated calendar year. -/
def financialYearStartColumn (endYear : Int) (startMonth : Option ℚ) :
    Except RangeError (Option Instant) :=
  (assertStartMonth startMonth).map fun startMonth =>
    dateColumnOf ⟨financialYearStartYear endYear startMonth, startMonth.month, 1⟩

/-- The date a row dated on a day becomes erasable. -/
def preservationEndOf (day : DateColumn) (startMonth retentionYears : Option ℚ) :
    Except RangeError (Option Instant) :=
  (assertRetentionYears retentionYears).bind fun years =>
    (financialYearEndYearOfColumn day startMonth).map fun endYear => dateColumnOf ⟨endYear + years + 1, 1, 1⟩

/-- The first date that is still preserved. -/
def preservationCutoff (zone : Zone) (now : Instant) (startMonth retentionYears : Option ℚ) :
    Except RangeError (Option Instant) :=
  (assertRetentionYears retentionYears).bind fun years =>
    financialYearStartColumn (localYearOf zone now - years) startMonth

/-! ### Years and days -/

theorem LocalDay.year_ofNumber (number : Int) : (LocalDay.ofNumber number).year = monthOfNumber number / 12 :=
  rfl

theorem le_monthOfNumber_iff {number month : Int} :
    month ≤ monthOfNumber number ↔ monthStart month ≤ number := by
  obtain ⟨hlow, hhigh⟩ := monthOfNumber_spec number
  constructor
  · exact fun h => (monthStart_mono h).trans hlow
  · intro h
    have hlt := lt_of_monthStart_lt (h.trans_lt hhigh)
    omega

theorem yearStart_le_iff {number year : Int} :
    yearStart year ≤ number ↔ year ≤ (LocalDay.ofNumber number).year := by
  rw [yearStart_eq_monthStart, ← le_monthOfNumber_iff, LocalDay.year_ofNumber]
  omega

/-- The days a `Date` reaches. -/
theorem time_valid_iff {day : Int} : (-MAX_TIME ≤ day * MILLISECONDS_PER_DAY ∧
    day * MILLISECONDS_PER_DAY ≤ MAX_TIME) ↔ -100000000 ≤ day ∧ day ≤ 100000000 := by
  unfold MAX_TIME MILLISECONDS_PER_DAY MINUTES_PER_DAY MILLISECONDS_PER_MINUTE
  omega

theorem yearStart_bounds : yearStart (-271821) ≤ -100000001 ∧ -100000000 ≤ yearStart (-271820) ∧
    yearStart 275760 ≤ 100000000 ∧ 100000000 < yearStart 275761 := by
  simp only [yearStart_eq]
  omega

/-- The years a `Date` reaches. -/
theorem year_bounds {number : Int} (h : -100000001 ≤ number ∧ number ≤ 100000000) :
    -271821 ≤ (LocalDay.ofNumber number).year ∧ (LocalDay.ofNumber number).year ≤ 275760 := by
  obtain ⟨hlow, hlow', hhigh, hhigh'⟩ := yearStart_bounds
  refine ⟨yearStart_le_iff.mp (by omega), ?_⟩
  by_contra hgt
  have hle := yearStart_le_iff.mpr (show (275761 : Int) ≤ (LocalDay.ofNumber number).year by omega)
  omega

theorem localDayOf_bounds (zone : Zone) (now : Instant) :
    -100000001 ≤ localDayOf zone now.time ∧ localDayOf zone now.time ≤ 100000000 := by
  have hvalid := now.valid
  have hoffset := zone.offset_lt now.time
  unfold localDayOf Zone.wall
  unfold MAX_TIME at hvalid
  simp only [MILLISECONDS_PER_DAY, MINUTES_PER_DAY, MILLISECONDS_PER_MINUTE] at hoffset ⊢
  generalize zone.offset now.time = offset at hoffset ⊢
  omega

/-! ### The two ends -/

/-- `day < cutoff`, which no invalid date meets. -/
def liesBefore (day : DateColumn) (cutoff : Except RangeError (Option Instant)) : Bool :=
  match cutoff with
  | .ok cutoff => isAfter cutoff day.date
  | .error _ => false

/-- A date that a day on the calendar has reached. -/
def hasArrived (date : Except RangeError (Option Instant)) (today : Int) : Bool :=
  match date with
  | .ok (some date) => date.time ≤ today * MILLISECONDS_PER_DAY
  | _ => false

/-- A date that is not after another. -/
def noLater (date other : Except RangeError (Option Instant)) : Bool :=
  match other, date with
  | .ok (some other), .ok (some date) => date.time ≤ other.time
  | .ok (some _), _ => false
  | _, _ => true

/-- The year a financial year ends in, of the one it begins in. -/
def endYearOfStart (year : Int) (startMonth : StartMonth) : Int :=
  if startMonth.month = CALENDAR_YEAR_START_MONTH then year else year + 1

@[simp] theorem endYearOfStart_startYear (endYear : Int) (startMonth : StartMonth) :
    endYearOfStart (financialYearStartYear endYear startMonth) startMonth = endYear := by
  unfold endYearOfStart financialYearStartYear
  split_ifs
  · rfl
  · exact Int.sub_add_cancel _ _

theorem dateColumnOf_eq {year month : Int} (h : 1 ≤ month ∧ month ≤ 12) :
    dateColumnOf ⟨year, month, 1⟩ =
      newDate (monthStart (12 * utcYear year + month - 1) * MILLISECONDS_PER_DAY) := by
  unfold dateColumnOf LocalDay.dateUTC
  rw [LocalDay.number_eq h]
  unfold LocalDay.monthIndex
  dsimp only
  rw [Int.add_sub_cancel]

variable (startMonth : StartMonth) (years : ℕ)

theorem assertStartMonth_ok : assertStartMonth (some (startMonth.month : ℚ)) = .ok startMonth := by
  unfold assertStartMonth
  dsimp only
  rw [dif_pos ⟨Rat.den_intCast _, startMonth.valid⟩]
  rfl

theorem assertRetentionYears_ok : assertRetentionYears (some (years : ℚ)) = .ok years := by
  unfold assertRetentionYears
  dsimp only
  rw [if_pos ⟨Rat.den_natCast _, by rw [Rat.num_natCast]; omega⟩, Rat.num_natCast, Int.toNat_natCast]

theorem preservationCutoff_ok (zone : Zone) (now : Instant) :
    preservationCutoff zone now (some (startMonth.month : ℚ)) (some (years : ℚ)) =
      .ok (dateColumnOf ⟨financialYearStartYear (localYearOf zone now - years) startMonth, startMonth.month, 1⟩) := by
  unfold preservationCutoff financialYearStartColumn
  rw [assertRetentionYears_ok, assertStartMonth_ok]
  rfl

theorem preservationEndOf_ok (day : DateColumn) :
    preservationEndOf day (some (startMonth.month : ℚ)) (some (years : ℚ)) =
      .ok (dateColumnOf ⟨financialYearEndYear day.localDay startMonth + years + 1, 1, 1⟩) := by
  unfold preservationEndOf financialYearEndYearOfColumn
  rw [assertRetentionYears_ok, assertStartMonth_ok]
  rfl

/-- A day is before the start of a financial year when its own ends in an earlier year. -/
theorem lt_start_iff (number year : Int) :
    number < monthStart (12 * year + startMonth.month - 1) ↔
      financialYearEndYear (.ofNumber number) startMonth < endYearOfStart year startMonth := by
  have hmonth : (LocalDay.ofNumber number).month = monthOfNumber number % 12 + 1 := rfl
  have hvalid := startMonth.valid
  rw [← Int.not_le, ← le_monthOfNumber_iff]
  unfold financialYearEndYear endYearOfStart CALENDAR_YEAR_START_MONTH
  rw [hmonth, LocalDay.year_ofNumber]
  split_ifs <;> omega

theorem endYear_bounds (day : DateColumn) :
    -271821 ≤ financialYearEndYear day.localDay startMonth := by
  have hday := time_valid_iff.mp day.valid
  have hbounds := year_bounds (show -100000001 ≤ day.day ∧ day.day ≤ 100000000 by omega)
  unfold financialYearEndYear DateColumn.localDay
  split_ifs <;> omega

theorem localYearOf_bounds (zone : Zone) (now : Instant) :
    (dateOf zone now.time).year ≤ localYearOf zone now ∧ 1 ≤ localYearOf zone now ∧
      localYearOf zone now ≤ 275760 := by
  have hbounds := year_bounds (localDayOf_bounds zone now)
  unfold localYearOf fieldsAt shownYear dateOf
  dsimp only
  split_ifs <;> omega

/-- **The comparison** of a day with the cutoff. -/
theorem liesBefore_cutoff (zone : Zone) (now : Instant) (day : DateColumn) :
    liesBefore day (preservationCutoff zone now (some (startMonth.month : ℚ)) (some (years : ℚ))) = true ↔
      financialYearEndYear day.localDay startMonth <
        endYearOfStart (utcYear (financialYearStartYear (localYearOf zone now - years) startMonth)) startMonth := by
  obtain ⟨-, hpos, hle⟩ := localYearOf_bounds zone now
  have hday := time_valid_iff.mp day.valid
  have hhigh := yearStart_bounds.2.2.1
  have hvalid := startMonth.valid
  set year := financialYearStartYear (localYearOf zone now - years) startMonth with hyear
  have hstart : monthStart (12 * utcYear year + startMonth.month - 1) ≤ 100000000 := by
    refine (monthStart_mono (show _ ≤ 12 * 275760 from ?_)).trans ((yearStart_eq_monthStart _).ge.trans hhigh)
    unfold financialYearStartYear CALENDAR_YEAR_START_MONTH at hyear
    unfold utcYear
    split_ifs at hyear ⊢ <;> omega
  rw [preservationCutoff_ok, dateColumnOf_eq hvalid, ← hyear]
  show isAfter (newDate _) day.date = true ↔ financialYearEndYear (.ofNumber day.day) startMonth < _
  rw [← lt_start_iff]
  unfold newDate DateColumn.date
  split_ifs with hdate
  · unfold isAfter DateColumn.getTime
    rw [decide_eq_true_eq]
    simp only [MILLISECONDS_PER_DAY, MINUTES_PER_DAY, MILLISECONDS_PER_MINUTE]
    omega
  · rw [time_valid_iff] at hdate
    have hnot : ¬ day.day < monthStart (12 * utcYear year + startMonth.month - 1) := by omega
    exact ⟨fun h => absurd h Bool.false_ne_true, fun h => absurd h hnot⟩

theorem dateColumnOf_newYear (year : Int) :
    dateColumnOf ⟨year, 1, 1⟩ = newDate (yearStart (utcYear year) * MILLISECONDS_PER_DAY) := by
  rw [dateColumnOf_eq (by decide), yearStart_eq_monthStart]
  rw [show 12 * utcYear year + 1 - 1 = 12 * utcYear year by omega]

/-- **The date stated of a row** has arrived. -/
theorem hasArrived_end (zone : Zone) (now : Instant) (day : DateColumn) :
    hasArrived (preservationEndOf day (some (startMonth.month : ℚ)) (some (years : ℚ)))
      (localDayOf zone now.time) = true ↔
        utcYear (financialYearEndYear day.localDay startMonth + years + 1) ≤ (dateOf zone now.time).year := by
  have hlow := endYear_bounds startMonth day
  have hnow := localDayOf_bounds zone now
  obtain ⟨-, hvalid, -, -⟩ := yearStart_bounds
  have hle := le_utcYear (financialYearEndYear day.localDay startMonth + years + 1)
  have hstart : yearStart (-271820) ≤ yearStart (utcYear (financialYearEndYear day.localDay startMonth + years + 1)) :=
    yearStart_mono (by omega)
  unfold dateOf
  rw [preservationEndOf_ok, dateColumnOf_newYear, ← yearStart_le_iff]
  unfold newDate
  split_ifs with hdate
  · show decide (_ ≤ _) = true ↔ _
    rw [decide_eq_true_eq]
    simp only [MILLISECONDS_PER_DAY, MINUTES_PER_DAY, MILLISECONDS_PER_MINUTE]
    omega
  · rw [time_valid_iff] at hdate
    refine ⟨fun h => absurd h Bool.false_ne_true, fun h => ?_⟩
    omega

theorem endYear_mono {day day' : DateColumn} (h : day.day ≤ day'.day) :
    financialYearEndYear day.localDay startMonth ≤ financialYearEndYear day'.localDay startMonth := by
  have hmonths : monthOfNumber day.day ≤ monthOfNumber day'.day :=
    le_monthOfNumber_iff.mpr ((monthOfNumber_spec day.day).1.trans h)
  have hmonth : ∀ number, (LocalDay.ofNumber number).month = monthOfNumber number % 12 + 1 := fun _ => rfl
  have hvalid := startMonth.valid
  unfold financialYearEndYear DateColumn.localDay CALENDAR_YEAR_START_MONTH
  rw [hmonth, hmonth, LocalDay.year_ofNumber, LocalDay.year_ofNumber]
  split_ifs <;> omega

/-- The later of two dates is not stated earlier, but for the years that are taken for others. -/
theorem noLater_end {day day' : DateColumn} (h : day.day ≤ day'.day) :
    noLater (preservationEndOf day (some (startMonth.month : ℚ)) (some (years : ℚ)))
      (preservationEndOf day' (some (startMonth.month : ℚ)) (some (years : ℚ))) = true ↔
        utcYear (financialYearEndYear day.localDay startMonth + years + 1) ≤
          utcYear (financialYearEndYear day'.localDay startMonth + years + 1) := by
  have hlow := endYear_bounds startMonth day
  have hmono := endYear_mono startMonth h
  obtain ⟨-, hvalid, hhigh, hhigh'⟩ := yearStart_bounds
  have hlater : utcYear (financialYearEndYear day.localDay startMonth + years + 1) ≤
      utcYear (financialYearEndYear day'.localDay startMonth + years + 1) ∨
        utcYear (financialYearEndYear day.localDay startMonth + years + 1) ≤ 1999 := by
    unfold utcYear
    split_ifs <;> omega
  have hle := le_utcYear (financialYearEndYear day.localDay startMonth + years + 1)
  have hle' := le_utcYear (financialYearEndYear day'.localDay startMonth + years + 1)
  rw [preservationEndOf_ok, preservationEndOf_ok, dateColumnOf_newYear, dateColumnOf_newYear]
  generalize utcYear (financialYearEndYear day.localDay startMonth + years + 1) = year at *
  generalize utcYear (financialYearEndYear day'.localDay startMonth + years + 1) = year' at *
  have hstart : yearStart (-271820) ≤ yearStart year := yearStart_mono (by omega)
  have hstart' : yearStart (-271820) ≤ yearStart year' := yearStart_mono (by omega)
  have horder : yearStart year ≤ yearStart year' ↔ year ≤ year' := by
    constructor
    · intro hstarts
      by_contra hlt
      have hbefore := yearStart_mono (show year' + 1 ≤ year by omega)
      have hnext := yearOfNumber_spec (yearStart year')
      have hsucc : yearStart year' < yearStart (year' + 1) := by
        rw [yearStart_eq, yearStart_eq]
        omega
      omega
    · exact yearStart_mono
  unfold newDate
  by_cases hdate' : -MAX_TIME ≤ yearStart year' * MILLISECONDS_PER_DAY ∧
      yearStart year' * MILLISECONDS_PER_DAY ≤ MAX_TIME
  · rw [dif_pos hdate']
    rw [time_valid_iff] at hdate'
    by_cases hdate : -MAX_TIME ≤ yearStart year * MILLISECONDS_PER_DAY ∧
        yearStart year * MILLISECONDS_PER_DAY ≤ MAX_TIME
    · rw [dif_pos hdate, ← horder]
      show decide (_ ≤ _) = true ↔ _
      rw [decide_eq_true_eq]
      simp only [MILLISECONDS_PER_DAY, MINUTES_PER_DAY, MILLISECONDS_PER_MINUTE]
      omega
    · rw [dif_neg hdate, ← horder]
      rw [time_valid_iff] at hdate
      exact ⟨fun h => absurd h Bool.false_ne_true, fun h => by omega⟩
  · rw [dif_neg hdate']
    rw [time_valid_iff] at hdate'
    have hlast : 275760 < year' := by
      by_contra hnot
      have hbound := yearStart_mono (show year' ≤ 275760 by omega)
      omega
    exact ⟨fun _ => by omega, fun _ => rfl⟩

/-! ### Where they agree -/

/-- A cutoff is moved past a day that is still preserved. -/
def CutoffMoved (zone : Zone) (now : Instant) (day : DateColumn) : Prop :=
  (dateOf zone now.time).year - years ≤ financialYearEndYear day.localDay startMonth ∧
    financialYearEndYear day.localDay startMonth <
      endYearOfStart (utcYear (financialYearStartYear (localYearOf zone now - years) startMonth)) startMonth

/-- The date of a row is stated in another century, and has not come although the row has fallen out. -/
def EndMoved (zone : Zone) (now : Instant) (day : DateColumn) : Prop :=
  financialYearEndYear day.localDay startMonth + years + 1 ≤ (dateOf zone now.time).year ∧
    (dateOf zone now.time).year < utcYear (financialYearEndYear day.localDay startMonth + years + 1)

/-- The date of a row is stated in another century, and that of a later row is not. -/
def OrderMoved (day day' : DateColumn) : Prop :=
  0 ≤ financialYearEndYear day.localDay startMonth + years + 1 ∧
    financialYearEndYear day.localDay startMonth + years + 1 ≤ 99 ∧
    100 ≤ financialYearEndYear day'.localDay startMonth + years + 1 ∧
    financialYearEndYear day'.localDay startMonth + years + 1 <
      1900 + (financialYearEndYear day.localDay startMonth + years + 1)

/-- The two ends agree, and are monotone in the day, but where a year is taken for another. -/
theorem ends_agree_iff (zone : Zone) (now : Instant) (day : DateColumn) :
    (liesBefore day
          (preservationCutoff zone now (some (startMonth.month : ℚ)) (some (years : ℚ))) = true ↔
        hasArrived (preservationEndOf day (some (startMonth.month : ℚ)) (some (years : ℚ)))
          (localDayOf zone now.time) = true) ↔
      ¬ CutoffMoved startMonth years zone now day ∧ ¬ EndMoved startMonth years zone now day := by
  rw [liesBefore_cutoff, hasArrived_end]
  obtain ⟨hyear, -, -⟩ := localYearOf_bounds zone now
  have hend := le_utcYear (financialYearEndYear day.localDay startMonth + years + 1)
  -- the cutoff is never too early, and a date is never stated too early
  have hcutoff : localYearOf zone now - years ≤
      endYearOfStart (utcYear (financialYearStartYear (localYearOf zone now - years) startMonth)) startMonth := by
    have hle := le_utcYear (financialYearStartYear (localYearOf zone now - years) startMonth)
    have hself := endYearOfStart_startYear (localYearOf zone now - years) startMonth
    unfold endYearOfStart at hself ⊢
    split_ifs at hself ⊢ <;> omega
  unfold CutoffMoved EndMoved
  omega

theorem noLater_end_iff {day day' : DateColumn} (h : day.day ≤ day'.day) :
    noLater (preservationEndOf day (some (startMonth.month : ℚ)) (some (years : ℚ)))
      (preservationEndOf day' (some (startMonth.month : ℚ)) (some (years : ℚ))) = true ↔
        ¬ OrderMoved startMonth years day day' := by
  rw [noLater_end startMonth years h]
  have hmono := endYear_mono startMonth h
  unfold OrderMoved utcYear
  split_ifs <;> omega

/-! ### From the year 100 on -/

theorem year_le_endYear (day : LocalDay) : day.year ≤ financialYearEndYear day startMonth := by
  unfold financialYearEndYear
  split_ifs <;> omega

theorem utcYear_eq {year : Int} (h : 100 ≤ year) : utcYear year = year := by
  unfold utcYear
  rw [if_neg (by omega)]

/-- **The two ends agree**, and are monotone in the day: of a row from the year 100 on, and a cutoff
from the year 100 on. -/
theorem preservation_agrees (zone : Zone) (now : Instant) (day : DateColumn)
    (hday : 100 ≤ day.localDay.year)
    (hcutoff : 100 ≤ financialYearStartYear ((dateOf zone now.time).year - years) startMonth) :
    (liesBefore day
        (preservationCutoff zone now (some (startMonth.month : ℚ)) (some (years : ℚ))) = true ↔
      hasArrived (preservationEndOf day (some (startMonth.month : ℚ)) (some (years : ℚ)))
        (localDayOf zone now.time) = true) ∧
    ∀ day' : DateColumn, day.day ≤ day'.day →
      (liesBefore day'
          (preservationCutoff zone now (some (startMonth.month : ℚ)) (some (years : ℚ))) = true →
        liesBefore day
          (preservationCutoff zone now (some (startMonth.month : ℚ)) (some (years : ℚ))) = true) ∧
      noLater (preservationEndOf day (some (startMonth.month : ℚ)) (some (years : ℚ)))
        (preservationEndOf day' (some (startMonth.month : ℚ)) (some (years : ℚ))) = true := by
  have hend := year_le_endYear startMonth day.localDay
  refine ⟨(ends_agree_iff startMonth years zone now day).mpr ⟨?_, ?_⟩, fun day' hle => ⟨?_, ?_⟩⟩
  · have hshown : localYearOf zone now = (dateOf zone now.time).year := by
      unfold financialYearStartYear at hcutoff
      unfold localYearOf fieldsAt shownYear
      dsimp only
      split_ifs at hcutoff ⊢ <;> omega
    unfold CutoffMoved
    rw [hshown, utcYear_eq hcutoff, endYearOfStart_startYear]
    omega
  · unfold EndMoved
    rw [utcYear_eq (by omega)]
    omega
  · rw [liesBefore_cutoff, liesBefore_cutoff]
    exact (endYear_mono startMonth hle).trans_lt
  · rw [noLater_end_iff startMonth years hle]
    unfold OrderMoved
    omega

/-- An instant of the first of June 2026, in Greenwich. -/
def june2026 : Instant := ⟨1780272000000, by decide⟩

/-- The last day of April 2018, and the day after it. -/
def april2018 : DateColumn := ⟨17651, by decide⟩

def may2018 : DateColumn := ⟨17652, by decide⟩

/-- Seven years after a year that begins in May, the one row has fallen out and the other has not. -/
theorem preservation_april2018 :
    liesBefore april2018 (preservationCutoff utc june2026 (some (5 : Int)) (some (7 : ℕ))) = true ∧
    hasArrived (preservationEndOf april2018 (some (5 : Int)) (some (7 : ℕ)))
      (localDayOf utc june2026.time) = true ∧
    ¬ liesBefore may2018 (preservationCutoff utc june2026 (some (5 : Int)) (some (7 : ℕ))) = true ∧
    noLater (preservationEndOf april2018 (some (5 : Int)) (some (7 : ℕ)))
      (preservationEndOf may2018 (some (5 : Int)) (some (7 : ℕ))) = true := by
  have hagree := preservation_agrees ⟨5, by decide⟩ 7 utc june2026 april2018 (by decide +kernel)
    (by decide +kernel)
  have hbefore : liesBefore april2018 (preservationCutoff utc june2026 (some (5 : Int)) (some (7 : ℕ))) = true := by
    rw [liesBefore_cutoff ⟨5, by decide⟩ 7]
    decide +kernel
  have hafter : ¬ liesBefore may2018 (preservationCutoff utc june2026 (some (5 : Int)) (some (7 : ℕ))) = true := by
    rw [liesBefore_cutoff ⟨5, by decide⟩ 7]
    decide +kernel
  exact ⟨hbefore, hagree.1.mp hbefore, hafter, (hagree.2 may2018 (by decide)).2⟩

/-- The fifth of March 1970. -/
def march1970 : DateColumn := ⟨63, by decide⟩

/-- **A window of 1950 years** has run out for a row of 1970 by the one end, and not by the other. -/
theorem erased_before_its_window :
    ¬ (liesBefore march1970 (preservationCutoff utc june2026 (some 1) (some 1950)) = true ↔
      hasArrived (preservationEndOf march1970 (some 1) (some 1950)) (localDayOf utc june2026.time) = true) := by
  have hbefore := liesBefore_cutoff ⟨1, by decide⟩ 1950 utc june2026 march1970
  have harrived := hasArrived_end ⟨1, by decide⟩ 1950 utc june2026 march1970
  norm_num at hbefore harrived
  rw [hbefore, harrived]
  decide

end OpenBrf.Retention
