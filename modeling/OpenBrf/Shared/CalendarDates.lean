import Mathlib.Algebra.Order.Group.Int
import Mathlib.Algebra.Ring.Int.Defs
import Mathlib.Algebra.Ring.Nat
import Mathlib.Tactic.Common
import OpenBrf.Lang

/-!
# Shared.CalendarDates — dates, months and the numbers of days (`stockholm-calendar.ts`)

Months counted from the year zero begin one where the other ends, which is what orders dates by
their number and gives every number its date.  `Date.UTC` counts the days as the calendar does, but
takes the years 0 to 99 for those of the twentieth century.  No date that `parseLocalDay` reads is in
them.
-/

namespace OpenBrf.Shared

open Lang

/-- A date on the Stockholm wall calendar. -/
structure LocalDay where
  year : Int
  month : Int
  day : Int
  deriving DecidableEq, Repr

/-- The leap-year rule of the calendar. -/
def isLeapYear (year : Int) : Bool := year % 4 = 0 && (year % 100 ≠ 0 || year % 400 = 0)

/-- Days in a month, as the platform counts them. -/
def daysInMonth (year month : Int) : Int :=
  if month = 2 then if isLeapYear year then 29 else 28
  else if month ∈ [4, 6, 9, 11] then 30 else 31

theorem daysInMonth_range (year month : Int) :
    28 ≤ daysInMonth year month ∧ daysInMonth year month ≤ 31 := by
  unfold daysInMonth
  split_ifs <;> omega

/-- The number of the day a date names on the calendar, counted from the first of January 1970. -/
def LocalDay.number (d : LocalDay) : Int :=
  365 * (d.year - 1970) + (d.year - 1) / 4 - (d.year - 1) / 100 + (d.year - 1) / 400 - 477 +
    ((List.range (d.month - 1).toNat).map fun (m : ℕ) => daysInMonth d.year (m + 1)).sum + d.day - 1

example : (⟨1970, 1, 1⟩ : LocalDay).number = 0 := by decide

example : (⟨2024, 2, 29⟩ : LocalDay).number + 1 = (⟨2024, 3, 1⟩ : LocalDay).number := by decide

/-- The number of the first day of a month, counting months from the year zero. -/
def monthStart (month : Int) : Int :=
  (⟨month / 12, month % 12 + 1, 1⟩ : LocalDay).number

def monthLength (month : Int) : Int := daysInMonth (month / 12) (month % 12 + 1)

theorem monthLength_range (month : Int) : 28 ≤ monthLength month ∧ monthLength month ≤ 31 :=
  daysInMonth_range _ _

/-- The days of a year before December. -/
theorem sum_daysInMonth (year : Int) :
    ((List.range 11).map fun (m : ℕ) => daysInMonth year (m + 1)).sum =
      if isLeapYear year then 335 else 334 := by
  unfold daysInMonth
  generalize isLeapYear year = leap
  cases leap <;> decide

/-- A month ends where the next begins. -/
theorem monthStart_succ (month : Int) :
    monthStart (month + 1) = monthStart month + monthLength month := by
  obtain ⟨year, index, hindex, rfl⟩ : ∃ year index : Int, (0 ≤ index ∧ index < 12) ∧
      month = 12 * year + index :=
    ⟨month / 12, month % 12, by omega, by omega⟩
  unfold monthStart monthLength LocalDay.number
  have hdiv : (12 * year + index) / 12 = year := by omega
  have hmod : (12 * year + index) % 12 = index := by omega
  rw [hdiv, hmod]
  by_cases hlast : index = 11
  · subst hlast
    have hdiv' : (12 * year + 11 + 1) / 12 = year + 1 := by omega
    have hmod' : (12 * year + 11 + 1) % 12 = 0 := by omega
    have hlength : daysInMonth year (11 + 1) = 31 := rfl
    have hnew : (0 + 1 - 1 : Int).toNat = 0 := rfl
    have hold : (11 + 1 - 1 : Int).toNat = 11 := rfl
    rw [hdiv', hmod', hnew, hold, sum_daysInMonth, hlength, List.range_zero, List.map_nil,
      List.sum_nil]
    -- the leap days of the years before it, and of this one
    simp only [isLeapYear, Bool.and_eq_true, Bool.or_eq_true, decide_eq_true_eq]
    split_ifs <;> omega
  · have hdiv' : (12 * year + index + 1) / 12 = year := by omega
    have hmod' : (12 * year + index + 1) % 12 = index + 1 := by omega
    rw [hdiv', hmod']
    have hnat : (index + 1 + 1 - 1).toNat = (index + 1 - 1).toNat + 1 := by omega
    rw [hnat, List.range_succ, List.map_append, List.sum_append]
    have hcast : (((index + 1 - 1).toNat : ℕ) : Int) + 1 = index + 1 := by omega
    simp only [List.map_cons, List.map_nil, List.sum_cons, List.sum_nil, hcast]
    omega

theorem monthStart_mono {month month' : Int} (h : month ≤ month') :
    monthStart month ≤ monthStart month' := by
  induction month', h using Int.leInduction with
  | base => exact le_rfl
  | succ later _ ih =>
    have hnext := monthStart_succ later
    have hpos := monthLength_range later
    omega

/-- A date that is on the calendar. -/
def LocalDay.Real (d : LocalDay) : Prop :=
  (1 ≤ d.month ∧ d.month ≤ 12) ∧ 1 ≤ d.day ∧ d.day ≤ daysInMonth d.year d.month

instance (d : LocalDay) : Decidable d.Real := inferInstanceAs (Decidable (_ ∧ _))

/-- The month of a date, counting from the year zero. -/
def LocalDay.monthIndex (d : LocalDay) : Int := 12 * d.year + d.month - 1

theorem LocalDay.number_eq {d : LocalDay} (h : 1 ≤ d.month ∧ d.month ≤ 12) :
    d.number = monthStart d.monthIndex + d.day - 1 := by
  have hdiv : d.monthIndex / 12 = d.year := by
    unfold LocalDay.monthIndex
    omega
  have hmod : d.monthIndex % 12 + 1 = d.month := by
    unfold LocalDay.monthIndex
    omega
  unfold monthStart
  rw [hdiv, hmod]
  unfold LocalDay.number
  dsimp only
  omega

theorem LocalDay.Real.day_le {d : LocalDay} (h : d.Real) : d.day ≤ monthLength d.monthIndex := by
  have hdiv : d.monthIndex / 12 = d.year := by
    have := h.1
    unfold LocalDay.monthIndex
    omega
  have hmod : d.monthIndex % 12 + 1 = d.month := by
    have := h.1
    unfold LocalDay.monthIndex
    omega
  unfold monthLength
  rw [hdiv, hmod]
  exact h.2.2

/-- The number of the first day of a year. -/
def yearStart (year : Int) : Int := (⟨year, 1, 1⟩ : LocalDay).number

/-- The year a day is in. -/
def yearOfNumber (number : Int) : Int :=
  let year := 400 * number / 146097 + 1970
  if number < yearStart year then year - 1
  else if yearStart (year + 1) ≤ number then year + 1
  else year

theorem yearStart_eq (year : Int) : yearStart year =
    365 * (year - 1970) + (year - 1) / 4 - (year - 1) / 100 + (year - 1) / 400 - 477 := by
  unfold yearStart LocalDay.number
  simp

/-- Four hundred years are 146097 days, and no year begins two days off its share of them. -/
theorem yearStart_near (year : Int) :
    146097 * (year - 1970) - 800 < 400 * yearStart year ∧
      400 * yearStart year < 146097 * (year - 1970) + 800 := by
  rw [yearStart_eq]
  omega

theorem yearOfNumber_spec (number : Int) :
    yearStart (yearOfNumber number) ≤ number ∧ number < yearStart (yearOfNumber number + 1) := by
  unfold yearOfNumber
  dsimp only
  set year := 400 * number / 146097 + 1970 with hyear
  have hbefore := yearStart_near (year - 1)
  have hafter := yearStart_near (year + 2)
  split_ifs with hlow hhigh
  · rw [sub_add_cancel]
    omega
  · rw [show year + 1 + 1 = year + 2 by omega]
    omega
  · omega

theorem yearStart_eq_monthStart (year : Int) : yearStart year = monthStart (12 * year) := by
  unfold yearStart monthStart
  have hdiv : 12 * year / 12 = year := by omega
  have hmod : 12 * year % 12 + 1 = 1 := by omega
  rw [hdiv, hmod]

/-- The month a day is in, looked for from a month on. -/
def monthFrom (number month : Int) : ℕ → Int
  | 0 => month
  | n + 1 => if monthStart (month + 1) ≤ number then monthFrom number (month + 1) n else month

theorem monthFrom_spec {number : Int} : ∀ {n : ℕ} {month : Int}, monthStart month ≤ number →
    number < monthStart (month + n + 1) →
    monthStart (monthFrom number month n) ≤ number ∧
      number < monthStart (monthFrom number month n + 1)
  | 0, month, hlow, hhigh => by
    unfold monthFrom
    refine ⟨hlow, ?_⟩
    rwa [show month + ((0 : ℕ) : Int) + 1 = month + 1 by omega] at hhigh
  | n + 1, month, hlow, hhigh => by
    unfold monthFrom
    split_ifs with hnext
    · refine monthFrom_spec hnext ?_
      rwa [show month + 1 + (n : Int) + 1 = month + ((n + 1 : ℕ) : Int) + 1 by omega]
    · exact ⟨hlow, not_le.mp hnext⟩

/-- The month a day is in, counting from the year zero. -/
def monthOfNumber (number : Int) : Int := monthFrom number (12 * yearOfNumber number) 11

theorem monthOfNumber_spec (number : Int) :
    monthStart (monthOfNumber number) ≤ number ∧
      number < monthStart (monthOfNumber number + 1) := by
  obtain ⟨hlow, hhigh⟩ := yearOfNumber_spec number
  rw [yearStart_eq_monthStart] at hlow hhigh
  refine monthFrom_spec hlow ?_
  rwa [show 12 * yearOfNumber number + ((11 : ℕ) : Int) + 1 = 12 * (yearOfNumber number + 1) by
    omega]

/-- The date of a day, as `localDayOfColumn` reads it. -/
def LocalDay.ofNumber (number : Int) : LocalDay :=
  let month := monthOfNumber number
  ⟨month / 12, month % 12 + 1, number - monthStart month + 1⟩

example : LocalDay.ofNumber 19782 = ⟨2024, 2, 29⟩ := by decide

theorem LocalDay.ofNumber_monthIndex (number : Int) :
    (LocalDay.ofNumber number).monthIndex = monthOfNumber number := by
  unfold LocalDay.ofNumber LocalDay.monthIndex
  dsimp only
  omega

theorem LocalDay.real_ofNumber (number : Int) : (LocalDay.ofNumber number).Real := by
  obtain ⟨hlow, hhigh⟩ := monthOfNumber_spec number
  rw [monthStart_succ] at hhigh
  unfold monthLength at hhigh
  unfold LocalDay.Real LocalDay.ofNumber
  dsimp only
  omega

@[simp] theorem LocalDay.number_ofNumber (number : Int) :
    (LocalDay.ofNumber number).number = number := by
  rw [LocalDay.number_eq (LocalDay.real_ofNumber number).1, LocalDay.ofNumber_monthIndex]
  unfold LocalDay.ofNumber
  dsimp only
  omega

/-! ### The days of `Date.UTC` -/

/-- The year `Date.UTC` takes a number for. -/
def utcYear (year : Int) : Int := if 0 ≤ year ∧ year ≤ 99 then 1900 + year else year

/-- The number `Intl.DateTimeFormat` shows for a year: a year before the first has one in its own era. -/
def shownYear (year : Int) : Int := if year ≤ 0 then 1 - year else year

/-- The number of the day `Date.UTC` takes a date for. -/
def LocalDay.dateUTC (d : LocalDay) : Int := (⟨utcYear d.year, d.month, d.day⟩ : LocalDay).number

/-- The same, of a day given by its number. -/
def dateUTC (day : Int) : Int := (LocalDay.ofNumber day).dateUTC

/-- The first of January of the year 100: from it on `Date.UTC` counts as the calendar does. -/
def FIRST_COUNTED_DAY : Int := -683003

example : (⟨100, 1, 1⟩ : LocalDay).number = FIRST_COUNTED_DAY := by decide

example : dateUTC (FIRST_COUNTED_DAY - 1) = (⟨1999, 12, 31⟩ : LocalDay).number := by decide

theorem LocalDay.dateUTC_of_year {d : LocalDay} (h : 100 ≤ d.year) : d.dateUTC = d.number := by
  unfold LocalDay.dateUTC utcYear
  rw [if_neg (by omega)]

theorem yearStart_mono {year year' : Int} (h : year ≤ year') : yearStart year ≤ yearStart year' := by
  rw [yearStart_eq, yearStart_eq]
  omega

theorem monthFrom_range (number : Int) : ∀ (n : ℕ) (month : Int),
    month ≤ monthFrom number month n ∧ monthFrom number month n ≤ month + n
  | 0, month => by
    unfold monthFrom
    omega
  | n + 1, month => by
    unfold monthFrom
    split_ifs
    · obtain ⟨hlow, hhigh⟩ := monthFrom_range number n (month + 1)
      omega
    · omega

theorem year_ofNumber (number : Int) : (LocalDay.ofNumber number).year = yearOfNumber number := by
  have hrange := monthFrom_range number 11 (12 * yearOfNumber number)
  show monthOfNumber number / 12 = _
  unfold monthOfNumber
  omega

/-- From the year 100 on, days have years of three digits and more. -/
theorem year_ofNumber_of_counted {day : Int} (h : FIRST_COUNTED_DAY ≤ day) :
    100 ≤ (LocalDay.ofNumber day).year := by
  rw [year_ofNumber]
  by_contra hlt
  have hend := (yearOfNumber_spec day).2
  have hmono := yearStart_mono (show yearOfNumber day + 1 ≤ 100 by omega)
  have hfirst : yearStart 100 = FIRST_COUNTED_DAY := by decide
  omega

/-- **From the year 100 on**, `Date.UTC` counts as the calendar does. -/
theorem dateUTC_of_counted {day : Int} (h : FIRST_COUNTED_DAY ≤ day) : dateUTC day = day := by
  unfold dateUTC
  rw [LocalDay.dateUTC_of_year (year_ofNumber_of_counted h), LocalDay.number_ofNumber]

/-- A day of a month in a later year is a later day. -/
theorem LocalDay.number_le_number {year year' month day : Int} (hmonth : 1 ≤ month ∧ month ≤ 12)
    (h : year ≤ year') :
    (⟨year, month, day⟩ : LocalDay).number ≤ (⟨year', month, day⟩ : LocalDay).number := by
  have hmono : monthStart (12 * year + month - 1) ≤ monthStart (12 * year' + month - 1) :=
    monthStart_mono (by omega)
  rw [LocalDay.number_eq hmonth, LocalDay.number_eq (d := ⟨year', month, day⟩) hmonth]
  unfold LocalDay.monthIndex
  dsimp only
  omega

theorem le_utcYear (year : Int) : year ≤ utcYear year := by
  unfold utcYear
  split_ifs <;> omega

/-- `Date.UTC` takes no date for an earlier one. -/
theorem LocalDay.number_le_dateUTC {d : LocalDay} (h : 1 ≤ d.month ∧ d.month ≤ 12) :
    d.number ≤ d.dateUTC :=
  LocalDay.number_le_number h (le_utcYear d.year)

/-- The furthest day of a `Date` from the first of January 1970. -/
def MAX_DAY : Int := 100000000

/-- Whether `Date.UTC` has a number for a day; it has none for a day past the range of a `Date`. -/
def isReached (day : Int) : Bool := -MAX_DAY ≤ day && day ≤ MAX_DAY

/-- Days in a month, as `Date.UTC` counts them; past the last `Date` there is no number of days. -/
def utcDaysInMonth (year month : Int) : Option Int :=
  let last : LocalDay := ⟨year, month, daysInMonth (utcYear year) month⟩
  if last.dateUTC ≤ MAX_DAY then some (daysInMonth (utcYear year) month) else none

/-- `compareLocalDays(left, right) > 0`, of what `Date.UTC` takes two dates for: one past the range of a
`Date` is after none, and none is after it. -/
def isAfterDay (left right : Int) : Bool := isReached left && isReached right && right < left

/-- Negative, zero or positive as the first date is before, on or after, for dates of the year 100 and
later. -/
def compareLocalDays (first second : LocalDay) : Int := first.number - second.number

/-- A calendar date of the year 100 or later shifted by whole days. -/
def addLocalDays (day : LocalDay) (days : Int) : LocalDay := .ofNumber (day.number + days)

/-- A "YYYY-MM-DD" date, or none when the text is not one.  `Date.UTC` reads the years before 100
as years of the twentieth century, so the round trip of the source refuses them. -/
def parseLocalDay (text : String) : Option LocalDay :=
  match text.toList with
  | [y₁, y₂, y₃, y₄, '-', m₁, m₂, '-', d₁, d₂] =>
    let day : LocalDay :=
      ⟨numberOf [y₁, y₂, y₃, y₄], numberOf [m₁, m₂], numberOf [d₁, d₂]⟩
    if [y₁, y₂, y₃, y₄, m₁, m₂, d₁, d₂].all Char.isDigit ∧ day.Real ∧ 100 ≤ day.year then some day
    else none
  | _ => none

theorem real_of_parseLocalDay {text : String} {day : LocalDay} (h : parseLocalDay text = some day) :
    day.Real := by
  unfold parseLocalDay at h
  split at h
  · dsimp only at h
    split_ifs at h with hreal
    rw [← Option.some.inj h]
    exact hreal.2.1
  · cases h

/-- Dates in the order their fields are written. -/
def LocalDay.fieldKey (d : LocalDay) : Int := (d.year * 100 + d.month) * 100 + d.day

/-- Months in order of their first day. -/
theorem lt_of_monthStart_lt {month month' : Int} (h : monthStart month < monthStart month') :
    month < month' := by
  by_contra hge
  have hmono := monthStart_mono (not_lt.mp hge)
  omega

/-- **Dates are in the order of their days.** -/
theorem LocalDay.number_lt_iff {d d' : LocalDay} (h : d.Real) (h' : d'.Real) :
    d.number < d'.number ↔
      d.monthIndex < d'.monthIndex ∨ d.monthIndex = d'.monthIndex ∧ d.day < d'.day := by
  rw [LocalDay.number_eq h.1, LocalDay.number_eq h'.1]
  have hday := h.day_le
  have hday' := h'.day_le
  have hone := h.2.1
  have hone' := h'.2.1
  rcases lt_trichotomy d.monthIndex d'.monthIndex with hlt | heq | hgt
  · have hnext := monthStart_succ d.monthIndex
    have hmono : monthStart (d.monthIndex + 1) ≤ monthStart d'.monthIndex :=
      monthStart_mono (by omega)
    omega
  · rw [heq]
    omega
  · have hnext := monthStart_succ d'.monthIndex
    have hmono : monthStart (d'.monthIndex + 1) ≤ monthStart d.monthIndex :=
      monthStart_mono (by omega)
    omega

/-- A later day has a later date, field by field. -/
theorem LocalDay.fieldKey_ofNumber_mono {number number' : Int} (h : number ≤ number') :
    (LocalDay.ofNumber number).fieldKey ≤ (LocalDay.ofNumber number').fieldKey := by
  have hreal := LocalDay.real_ofNumber number
  have hreal' := LocalDay.real_ofNumber number'
  have hlt := LocalDay.number_lt_iff hreal' hreal
  rw [LocalDay.number_ofNumber, LocalDay.number_ofNumber] at hlt
  have hle : ¬ (number' < number) := not_lt.mpr h
  rw [hlt] at hle
  have hday := hreal.2.2.trans (daysInMonth_range _ _).2
  have hday' := hreal'.2.1
  unfold LocalDay.monthIndex at hle
  unfold LocalDay.fieldKey
  have hmonth := hreal.1
  have hmonth' := hreal'.1
  omega

end OpenBrf.Shared
