import Mathlib.Data.List.Basic
import OpenBrf.Lang
import OpenBrf.Shared.StockholmCalendar

/-!
# Events.OccurrencePlan — the dates of a series (`recurrence.ts`, `occurrence-plan.ts`)

A rule names local dates, each turned into a period by the wall clock; an edit matches the rows
there are with the periods the new rule names by their local date.
-/

namespace OpenBrf.Events

open Lang Shared

inductive EventRecurrenceFrequency where
  | WEEKLY
  | MONTHLY
  | ANNUAL
  deriving DecidableEq, Repr

def RECURRENCE_HORIZON_DAYS : Int := 731

def MAX_OCCURRENCES : ℕ := 105

def MAX_DURATION_MINUTES : Int := 24 * 60

/-- How often a series comes round, and when it stops. -/
structure RecurrenceRule where
  frequency : EventRecurrenceFrequency
  interval : Int
  count : Option Int
  /-- `until`. -/
  untilOn : Option LocalDay
  deriving DecidableEq, Repr

/-- A series: when it starts, how long, how often. -/
structure SeriesSchedule where
  firstOn : LocalDay
  startsAtMinute : Int
  durationMinutes : Int
  recurrence : Option RecurrenceRule
  /-- A start is a time of day, as the schema of a request has it. -/
  starts_within : 0 ≤ startsAtMinute ∧ startsAtMinute < MINUTES_PER_DAY
  deriving DecidableEq, Repr

inductive RecurrenceProblem where
  | recurrenceIntervalInvalid
  | recurrenceEndRequired
  | recurrenceEndAmbiguous
  | recurrenceEndInvalid
  | recurrencePastHorizon
  | durationInvalid
  | startDoesNotExist
  deriving DecidableEq, Repr

/-- A date shifted by whole months, clamped to the end of the month. -/
def addLocalMonths (day : LocalDay) (months : Int) : LocalDay :=
  let monthsFromYearZero := day.month - 1 + months
  let year := day.year + monthsFromYearZero / 12
  let month := monthsFromYearZero % 12 + 1
  ⟨year, month, min day.day (daysInMonth (utcYear year) month)⟩

/-- The date the nth occurrence falls on, counting the first as step zero.  A number past the range of a
`Date` is no date. -/
def dayOfStep (first : LocalDay) (rule : RecurrenceRule) (step : Int) : Int :=
  match rule.frequency with
  | .WEEKLY => first.dateUTC + step * rule.interval * 7
  | .MONTHLY => (addLocalMonths first (step * rule.interval)).number
  | .ANNUAL => (addLocalMonths first (step * rule.interval * 12)).number

/-- How many months a step goes on, where a rule goes by months. -/
def monthsOfStep (rule : RecurrenceRule) (step : Int) : Option Int :=
  match rule.frequency with
  | .WEEKLY => none
  | .MONTHLY => some (step * rule.interval)
  | .ANNUAL => some (step * rule.interval * 12)

/-- Whether the date of a step is one: it is none where the month it is in has no number of days. -/
def isStepReached (first : LocalDay) (rule : RecurrenceRule) (step : Int) : Bool :=
  (monthsOfStep rule step).all fun months =>
    (utcDaysInMonth (addLocalMonths first months).year (addLocalMonths first months).month).isSome

/-- `compareLocalDays(dayOfStep(first, rule, step), day) > 0`. -/
def stepIsAfter (first : LocalDay) (rule : RecurrenceRule) (step day : Int) : Bool :=
  isStepReached first rule step && isAfterDay (dateUTC (dayOfStep first rule step)) day

/-- The local dates a schedule names from a step on, at most `n` of them. -/
def daysFrom (first : LocalDay) (rule : RecurrenceRule) : ℕ → Int → List Int
  | 0, _ => []
  | n + 1, step =>
    if rule.count.any (· ≤ step) then []
    else if rule.untilOn.any (fun untilOn => stepIsAfter first rule step untilOn.dateUTC) then []
    else dayOfStep first rule step :: daysFrom first rule n (step + 1)

/-- The local dates a schedule names, in order, the first included. -/
def recurrenceDays (schedule : SeriesSchedule) : List Int :=
  match schedule.recurrence with
  | none => [schedule.firstOn.number]
  | some rule =>
    if rule.interval < 1 then [schedule.firstOn.number]
    else daysFrom schedule.firstOn rule MAX_OCCURRENCES 0

section Periods

variable (zone : Zone)

/-- What is wrong with a series' schedule. -/
def checkRecurrenceSchedule (schedule : SeriesSchedule) : Option RecurrenceProblem :=
  if schedule.durationMinutes < 1 ∨ MAX_DURATION_MINUTES < schedule.durationMinutes then
    some .durationInvalid
  else if instantAt zone schedule.firstOn.number schedule.startsAtMinute = none ∨
      instantAt zone schedule.firstOn.number
        (schedule.startsAtMinute + schedule.durationMinutes) = none then
    some .startDoesNotExist
  else match schedule.recurrence with
    | none => none
    | some rule =>
      let horizon := dateUTC (schedule.firstOn.dateUTC + RECURRENCE_HORIZON_DAYS)
      if rule.interval < 1 then some .recurrenceIntervalInvalid
      else match rule.count, rule.untilOn with
        | none, none => some .recurrenceEndRequired
        | some _, some _ => some .recurrenceEndAmbiguous
        | some count, none =>
          if count < 2 then some .recurrenceEndInvalid
          else if stepIsAfter schedule.firstOn rule (count - 1) horizon then
            some .recurrencePastHorizon
          else none
        | none, some untilOn =>
          if isAfterDay schedule.firstOn.dateUTC untilOn.dateUTC then some .recurrenceEndInvalid
          else if stepIsAfter schedule.firstOn rule 1 untilOn.dateUTC then some .recurrenceEndInvalid
          else if isAfterDay untilOn.dateUTC horizon then some .recurrencePastHorizon
          else none

/-- The period of a date, or none where the clocks jumped over its start or its end. -/
def periodOn (schedule : SeriesSchedule) (day : Int) : Option Period :=
  match instantAt zone day schedule.startsAtMinute,
      instantAt zone day (schedule.startsAtMinute + schedule.durationMinutes) with
  | some startsAt, some endsAt => some ⟨startsAt, endsAt⟩
  | _, _ => none

/-- The periods a schedule names, as instants, in order. -/
def occurrencePeriods (schedule : SeriesSchedule) : List Period :=
  (recurrenceDays schedule).filterMap (periodOn zone schedule)

end Periods

/-! ### What an edit does -/

/-- An occurrence as it stands in the table. -/
structure StoredOccurrence where
  id : String
  startsAt : Int
  endsAt : Int
  cancelledAt : Option Int
  deriving DecidableEq, Repr

/-- An occurrence whose instants an edit changes, and what it changes them to. -/
structure MovedOccurrence where
  occurrence : StoredOccurrence
  period : Period
  deriving DecidableEq, Repr

/-- What an edit does to the occurrences a series already has. -/
structure OccurrencePlan where
  kept : List StoredOccurrence := []
  moved : List MovedOccurrence := []
  dropped : List StoredOccurrence := []
  added : List Period := []
  deriving DecidableEq, Repr

/-- The occurrences an edit displaces: the ones it moves and the ones it drops. -/
def displacedBy (plan : OccurrencePlan) : List StoredOccurrence :=
  plan.moved.map (·.occurrence) ++ plan.dropped

section Plan

variable (zone : Zone)

/-- The rows of dates that have begun, and the future rows by date. -/
structure Standing where
  plan : OccurrencePlan := {}
  frozenDays : List Int := []
  futureByDay : List (Int × StoredOccurrence) := []

/-- The first pass, over the rows there are. -/
def sortByDay (now : Int) (standing : Standing) (occurrence : StoredOccurrence) : Standing :=
  let key := localDayOf zone occurrence.startsAt
  if occurrence.startsAt ≤ now then
    { standing with
      frozenDays := key :: standing.frozenDays
      plan := { standing.plan with kept := standing.plan.kept ++ [occurrence] } }
  else { standing with futureByDay := setKey key occurrence standing.futureByDay }

/-- The second pass, over the periods the new rule names. -/
def matchPeriod (standing : Standing) (period : Period) : Standing :=
  let key := localDayOf zone period.startsAt
  if key ∈ standing.frozenDays then standing
  else match standing.futureByDay.find? fun entry => entry.1 = key with
    | none =>
      { standing with plan := { standing.plan with added := standing.plan.added ++ [period] } }
    | some (_, row) =>
      { standing with
        futureByDay := deleteKey key standing.futureByDay
        plan :=
          if row.startsAt = period.startsAt ∧ row.endsAt = period.endsAt then
            { standing.plan with kept := standing.plan.kept ++ [row] }
          else { standing.plan with moved := standing.plan.moved ++ [⟨row, period⟩] } }

/-- What to do with each existing occurrence, and what to add. -/
def planOccurrences (existing : List StoredOccurrence) (planned : List Period) (now : Int) :
    OccurrencePlan :=
  let standing := planned.foldl (matchPeriod zone) (existing.foldl (sortByDay zone now) {})
  { standing.plan with dropped := standing.futureByDay.map (·.2) }

end Plan

end OpenBrf.Events
