import OpenBrf.Shared.StockholmCalendar

/-!
# Meetings.ProxyAuthority — how long a proxy authorisation holds (`proxy-authority.ts`)
-/

namespace OpenBrf.Meetings

open Shared

/-- The last day a proxy authorisation issued on a day still holds: a year on, that day included,
clamped to the length of its month. -/
def proxyAuthorityRunsUntil (authorisedOn : LocalDay) : LocalDay :=
  let year := authorisedOn.year + 1
  ⟨year, authorisedOn.month, min authorisedOn.day (daysInMonth year authorisedOn.month)⟩

inductive ProxyAuthorityProblem where
  | notYetIssued
  | expired
  deriving DecidableEq, Repr

/-- Why an authorisation issued on one day does not hold on a meeting day. -/
def proxyAuthorityProblem (authorisedOn meetingDay : LocalDay) : Option ProxyAuthorityProblem :=
  if 0 < compareLocalDays authorisedOn meetingDay then some .notYetIssued
  else if compareLocalDays (proxyAuthorityRunsUntil authorisedOn) meetingDay < 0 then some .expired
  else none

def isProxyAuthorityCurrent (authorisedOn meetingDay : LocalDay) : Bool :=
  proxyAuthorityProblem authorisedOn meetingDay = none

theorem isProxyAuthorityCurrent_iff (authorisedOn meetingDay : LocalDay) :
    isProxyAuthorityCurrent authorisedOn meetingDay = true ↔
      authorisedOn.number ≤ meetingDay.number ∧
        meetingDay.number ≤ (proxyAuthorityRunsUntil authorisedOn).number := by
  unfold isProxyAuthorityCurrent proxyAuthorityProblem compareLocalDays
  rw [decide_eq_true_eq]
  split_ifs with h h'
  · simp
    omega
  · simp
    omega
  · simp
    omega

/-- The last day of an authorisation is on the calendar. -/
theorem real_proxyAuthorityRunsUntil {authorisedOn : LocalDay} (h : authorisedOn.Real) :
    (proxyAuthorityRunsUntil authorisedOn).Real := by
  obtain ⟨hmonth, hday, -⟩ := h
  refine ⟨hmonth, ?_, ?_⟩
  · have hlength : 28 ≤ daysInMonth (authorisedOn.year + 1) authorisedOn.month := by
      unfold daysInMonth
      split_ifs <;> omega
    show 1 ≤ min authorisedOn.day (daysInMonth (authorisedOn.year + 1) authorisedOn.month)
    omega
  · exact min_le_right _ _

/-- It is the same date a year on, and the 28th for one of a leap day. -/
theorem proxyAuthorityRunsUntil_day {authorisedOn : LocalDay} (h : authorisedOn.Real) :
    (proxyAuthorityRunsUntil authorisedOn).day =
      if authorisedOn.month = 2 ∧ authorisedOn.day = 29 then 28 else authorisedOn.day := by
  obtain ⟨hmonth, -, hlast⟩ := h
  show min authorisedOn.day (daysInMonth (authorisedOn.year + 1) authorisedOn.month) = _
  unfold daysInMonth at hlast ⊢
  unfold isLeapYear at hlast ⊢
  simp only [Bool.and_eq_true, Bool.or_eq_true, decide_eq_true_eq] at hlast ⊢
  by_cases hfebruary : authorisedOn.month = 2
  · simp only [hfebruary, true_and, if_true] at hlast ⊢
    split_ifs at hlast ⊢ <;> omega
  · simp only [hfebruary, false_and, if_false] at hlast ⊢
    split_ifs at hlast ⊢ <;> omega

example : (proxyAuthorityRunsUntil ⟨2028, 2, 29⟩) = ⟨2029, 2, 28⟩ := by decide

end OpenBrf.Meetings
