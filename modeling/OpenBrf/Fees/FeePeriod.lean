import Mathlib.Algebra.BigOperators.Group.List.Basic
import OpenBrf.Shared.StockholmCalendar

/-!
# Fees.FeePeriod — the months a period bills (`fee-period.ts`, `retention/financial-year.ts`)

A month is named by its first day.  Amounts are whole ore, which is what a `DECIMAL(14, 2)` holds.
-/

namespace OpenBrf.Fees

open Shared

/-- The most months one notification run may bill. -/
def MAX_MONTHS_PER_PERIOD : ℕ := 18

/-- The first day of the first month a rate beginning on `appliesFrom` bills. -/
def firstMonthBilled (appliesFrom : LocalDay) : LocalDay :=
  if appliesFrom.day = 1 then appliesFrom
  else if appliesFrom.month = 12 then ⟨appliesFrom.year + 1, 1, 1⟩
  else ⟨appliesFrom.year, appliesFrom.month + 1, 1⟩

/-- The loop of `monthsIn`: at most `n` months from one on, up to a date. -/
def monthsFrom (last : LocalDay) : ℕ → Int → Int → List LocalDay
  | 0, _, _ => []
  | n + 1, year, month =>
    if compareLocalDays ⟨year, month, 1⟩ last ≤ 0 then
      ⟨year, month, 1⟩ ::
        if 12 < month + 1 then monthsFrom last n (year + 1) 1 else monthsFrom last n year (month + 1)
    else []

/-- The first day of each calendar month in a period, in order.  The loop stops once it has
gathered more than a period may have. -/
def monthsIn (first last : LocalDay) : List LocalDay :=
  monthsFrom last (MAX_MONTHS_PER_PERIOD + 1) first.year first.month

/-- Whether a period is a whole number of calendar months, end to end. -/
def isWholeMonths (first last : LocalDay) : Bool :=
  compareLocalDays first last ≤ 0 && first.day = 1 && last.day = daysInMonth last.year last.month

/-- The sum of a set of amounts. -/
def sumAmounts (amounts : List ℕ) : ℕ := amounts.sum

/-- One month's amount multiplied by a number of months. -/
def amountForMonths (monthlyAmount months : ℕ) : ℕ := monthlyAmount * months

/-! ### The financial year -/

/-- A month of the year, which is what a financial year starts in. -/
def StartMonth : Type := { month : Int // 1 ≤ month ∧ month ≤ 12 }

instance : DecidableEq StartMonth := inferInstanceAs (DecidableEq { _month : Int // _ })

/-- January, the start month of a financial year that is the calendar year. -/
def CALENDAR_YEAR_START_MONTH : StartMonth := ⟨1, by decide⟩

/-- The first day of the financial year that ends in a stated calendar year. -/
def financialYearStartColumn (endYear : Int) (startMonth : StartMonth) : LocalDay :=
  ⟨if startMonth = CALENDAR_YEAR_START_MONTH then endYear else endYear - 1, startMonth.1, 1⟩

/-- The first date that is still preserved. -/
def preservationCutoff (zone : Zone) (now : Int) (startMonth : StartMonth) (retentionYears : ℕ) :
    LocalDay :=
  financialYearStartColumn ((dateOf zone now).year - retentionYears) startMonth

def FEE_RETENTION_YEARS : ℕ := 7

/-- The first date that is still kept (`fee-retention.ts`). -/
def feePurgeCutoff (zone : Zone) (now : Int) (startMonth : StartMonth) : LocalDay :=
  preservationCutoff zone now startMonth FEE_RETENTION_YEARS

/-! ### Months in order -/

/-- The first day of a month, counting months from the year zero. -/
def monthOf (index : Int) : LocalDay := ⟨index / 12, index % 12 + 1, 1⟩

theorem number_monthOf (index : Int) : (monthOf index).number = monthStart index := rfl

theorem monthOf_eq {year month : Int} (h : 1 ≤ month ∧ month ≤ 12) :
    monthOf (12 * year + month - 1) = ⟨year, month, 1⟩ := by
  unfold monthOf
  congr 1 <;> omega

theorem monthStart_lt_iff {index index' : Int} :
    monthStart index < monthStart index' ↔ index < index' := by
  refine ⟨lt_of_monthStart_lt, fun h => ?_⟩
  have hnext := monthStart_succ index
  have hpos := monthLength_range index
  have hmono : monthStart (index + 1) ≤ monthStart index' := monthStart_mono (by omega)
  omega

theorem monthStart_le_iff {index index' : Int} :
    monthStart index ≤ monthStart index' ↔ index ≤ index' := by
  rw [← not_lt, monthStart_lt_iff, not_lt]

/-- The loop of `monthsIn`, over months counted from the year zero. -/
def monthsFromIndex (last : LocalDay) : ℕ → Int → List LocalDay
  | 0, _ => []
  | n + 1, index =>
    if monthStart index ≤ last.number then monthOf index :: monthsFromIndex last n (index + 1)
    else []

theorem monthsFrom_eq (last : LocalDay) : ∀ (n : ℕ) {year month : Int}, 1 ≤ month ∧ month ≤ 12 →
    monthsFrom last n year month = monthsFromIndex last n (12 * year + month - 1)
  | 0, _, _, _ => rfl
  | n + 1, year, month, h => by
    unfold monthsFrom monthsFromIndex compareLocalDays
    rw [← monthOf_eq h, number_monthOf]
    by_cases hin : monthStart (12 * year + month - 1) ≤ last.number
    · rw [if_pos (Int.sub_nonpos_of_le hin), if_pos hin]
      congr 1
      split_ifs with hnext
      · rw [monthsFrom_eq last n (by decide)]
        congr 1
        omega
      · rw [monthsFrom_eq last n (by omega)]
        congr 1
        omega
    · rw [if_neg fun hle => hin (Int.le_of_sub_nonpos hle), if_neg hin]

/-- A month listed is one from the first on that has begun by the last day. -/
theorem of_mem_monthsFromIndex {last day : LocalDay} : ∀ {n : ℕ} {index : Int},
    day ∈ monthsFromIndex last n index →
      ∃ month, index ≤ month ∧ monthStart month ≤ last.number ∧ day = monthOf month
  | 0, _, h => absurd h List.not_mem_nil
  | n + 1, index, h => by
    unfold monthsFromIndex at h
    split_ifs at h with hin
    · rcases List.mem_cons.mp h with rfl | hlater
      · exact ⟨index, le_rfl, hin, rfl⟩
      · obtain ⟨month, hle, hmonth⟩ := of_mem_monthsFromIndex hlater
        exact ⟨month, by omega, hmonth⟩
    · exact absurd h List.not_mem_nil

/-- A loop that stopped by itself lists every such month. -/
theorem mem_monthsFromIndex {last : LocalDay} {month : Int} (hmonth : monthStart month ≤ last.number) :
    ∀ {n : ℕ} {index : Int}, index ≤ month → (monthsFromIndex last n index).length < n →
      monthOf month ∈ monthsFromIndex last n index
  | 0, _, _, h => absurd h (Nat.not_lt_zero _)
  | n + 1, index, hle, h => by
    have hin : monthStart index ≤ last.number := (monthStart_le_iff.mpr hle).trans hmonth
    unfold monthsFromIndex at h ⊢
    rw [if_pos hin] at h ⊢
    rcases hle.eq_or_lt with rfl | hlt
    · exact List.mem_cons_self
    · rw [List.length_cons] at h
      exact List.mem_cons_of_mem _ (mem_monthsFromIndex hmonth (by omega) (by omega))

theorem pairwise_monthsFromIndex (last : LocalDay) : ∀ (n : ℕ) (index : Int),
    (monthsFromIndex last n index).Pairwise fun a b => a.number < b.number
  | 0, _ => .nil
  | n + 1, index => by
    unfold monthsFromIndex
    split_ifs
    · refine .cons (fun day hday => ?_) (pairwise_monthsFromIndex last n (index + 1))
      obtain ⟨month, hle, -, rfl⟩ := of_mem_monthsFromIndex hday
      exact monthStart_lt_iff.mpr (by omega)
    · exact .nil

/-- A billed period: whole months, no more of them than a run may bill. -/
structure WholePeriod (first last : LocalDay) : Prop where
  real : first.Real
  whole : isWholeMonths first last = true
  short : (monthsIn first last).length ≤ MAX_MONTHS_PER_PERIOD

namespace WholePeriod

variable {first last : LocalDay}

theorem number_first (h : WholePeriod first last) : first.number = monthStart first.monthIndex := by
  have hwhole := h.whole
  unfold isWholeMonths at hwhole
  simp only [Bool.and_eq_true, decide_eq_true_eq] at hwhole
  rw [LocalDay.number_eq h.real.1, hwhole.1.2]
  omega

theorem first_le (h : WholePeriod first last) : first.number ≤ last.number := by
  have hwhole := h.whole
  unfold isWholeMonths compareLocalDays at hwhole
  simp only [Bool.and_eq_true, decide_eq_true_eq] at hwhole
  omega

/-- **The months of a period** are those that begin in it. -/
theorem mem_monthsIn (h : WholePeriod first last) {day : LocalDay} :
    day ∈ monthsIn first last ↔
      ∃ month, first.monthIndex ≤ month ∧ monthStart month ≤ last.number ∧ day = monthOf month := by
  have hshort := h.short
  unfold monthsIn at hshort ⊢
  rw [monthsFrom_eq last _ h.real.1] at hshort ⊢
  constructor
  · exact of_mem_monthsFromIndex
  · rintro ⟨month, hle, hin, rfl⟩
    exact mem_monthsFromIndex hin hle (Nat.lt_succ_of_le hshort)

theorem pairwise_monthsIn (first last : LocalDay) (h : 1 ≤ first.month ∧ first.month ≤ 12) :
    (monthsIn first last).Pairwise fun a b => a.number < b.number := by
  unfold monthsIn
  rw [monthsFrom_eq last _ h]
  exact pairwise_monthsFromIndex _ _ _

end WholePeriod

theorem firstMonthBilled_eq {appliesFrom : LocalDay} (h : appliesFrom.Real) :
    firstMonthBilled appliesFrom = monthOf
      (if appliesFrom.day = 1 then appliesFrom.monthIndex else appliesFrom.monthIndex + 1) := by
  have hmonth := h.1
  unfold firstMonthBilled
  split_ifs with hday hlast
  · unfold LocalDay.monthIndex
    rw [monthOf_eq hmonth, ← hday]
  · unfold LocalDay.monthIndex monthOf
    congr 1 <;> omega
  · unfold LocalDay.monthIndex monthOf
    congr 1 <;> omega

/-- **The first month a rate bills** is the first to begin on or after the day it applies from. -/
theorem firstMonthBilled_le_iff {appliesFrom : LocalDay} (h : appliesFrom.Real) (month : Int) :
    (firstMonthBilled appliesFrom).number ≤ monthStart month ↔
      appliesFrom.number ≤ monthStart month := by
  have hnumber := LocalDay.number_eq h.1
  have hday := h.day_le
  have hone := h.2.1
  have hnext := monthStart_succ appliesFrom.monthIndex
  rw [firstMonthBilled_eq h, number_monthOf]
  split_ifs with hfirst
  · rw [hnumber, hfirst, add_sub_cancel_right]
  · rw [monthStart_le_iff]
    constructor
    · intro hle
      have hmono : monthStart (appliesFrom.monthIndex + 1) ≤ monthStart month :=
        monthStart_mono hle
      omega
    · intro hle
      by_contra hlt
      have hmono : monthStart month ≤ monthStart appliesFrom.monthIndex :=
        monthStart_mono (by omega)
      omega

end OpenBrf.Fees
