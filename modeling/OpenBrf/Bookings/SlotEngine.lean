import OpenBrf.Shared.StockholmCalendar

/-!
# Bookings.SlotEngine — what a resource offers (`resource-schedule.ts`, `slot-engine.ts`)

Slots are generated from a resource's mechanics and never stored.  The days of a range are counted as
`Date.UTC` counts them.
-/

namespace OpenBrf.Bookings

open Shared

inductive BookingResourceMode where
  | TIME_SLOTS
  | WHOLE_DAY
  | DATE_RANGE
  deriving DecidableEq, Repr

/-- The mechanics of a resource, as slot generation needs them. -/
structure SlotResource where
  mode : BookingResourceMode
  slotMinutes : Option Int
  opensAtMinute : Option Int
  closesAtMinute : Option Int
  deriving DecidableEq, Repr

/-- Why a schedule cannot be stored. -/
inductive ScheduleProblem where
  | scheduleRequired
  | scheduleNotApplicable
  | closesBeforeOpens
  | slotDoesNotFit
  deriving DecidableEq, Repr

def isWholeMinuteWithin (value lowest highest : Int) : Bool := lowest ≤ value && value ≤ highest

/-- Checks the schedule against the mode it belongs to. -/
def checkResourceSchedule (schedule : SlotResource) : Option ScheduleProblem :=
  if schedule.mode ≠ .TIME_SLOTS then
    if schedule.slotMinutes = none ∧ schedule.opensAtMinute = none ∧
        schedule.closesAtMinute = none then none
    else some .scheduleNotApplicable
  else match schedule.slotMinutes, schedule.opensAtMinute, schedule.closesAtMinute with
    | some slotMinutes, some opensAtMinute, some closesAtMinute =>
      if ¬ isWholeMinuteWithin slotMinutes 1 MINUTES_PER_DAY ∨
          ¬ isWholeMinuteWithin opensAtMinute 0 (MINUTES_PER_DAY - 1) ∨
          ¬ isWholeMinuteWithin closesAtMinute 1 MINUTES_PER_DAY then some .scheduleRequired
      else if closesAtMinute ≤ opensAtMinute then some .closesBeforeOpens
      else if (closesAtMinute - opensAtMinute) % slotMinutes ≠ 0 then some .slotDoesNotFit
      else none
    | _, _, _ => some .scheduleRequired

/-- The nights one DATE_RANGE booking may cover. -/
def MAX_BOOKING_NIGHTS : ℕ := 30

/-- The loops over the days from one to `last`, in at most so many turns. -/
def daysFrom (last : Int) : ℕ → Int → List Int
  | 0, _ => []
  | turns + 1, day =>
    if dateUTC day ≤ dateUTC last then day :: daysFrom last turns (dateUTC day + 1) else []

/-- The days of a range, both bounds included.  Each turn is a day later at least, so that these are all
the turns there are. -/
def daysOf (first last : Int) : List Int :=
  daysFrom last (dateUTC last - dateUTC first + 1).toNat first

/-- The minutes the loop of `timeSlots` visits, for a slot of at least a minute. -/
def minutesOf (opensAtMinute closesAtMinute slotMinutes : Int) : List Int :=
  (List.range ((closesAtMinute - opensAtMinute) / slotMinutes + 1).toNat).map fun (n : ℕ) =>
    opensAtMinute + n * slotMinutes

/-- Each boundary with the next, where the next is later. -/
def pairsOf (boundaries : List Int) : List Period :=
  ((boundaries.zip boundaries.tail).map fun p => ⟨p.1, p.2⟩).filter fun p => p.startsAt < p.endsAt

/-- Equal pieces of each day between the opening and the closing time. -/
def timeSlots (zone : Zone) (resource : SlotResource) (first last : Int) : List Period :=
  if checkResourceSchedule resource ≠ none then []
  else match resource.slotMinutes, resource.opensAtMinute, resource.closesAtMinute with
    | some slotMinutes, some opensAtMinute, some closesAtMinute =>
      (daysOf first last).flatMap fun day =>
        -- a boundary the clocks jumped over is dropped, and the slot before it runs on
        pairsOf ((minutesOf opensAtMinute closesAtMinute slotMinutes).filterMap fun minute =>
          instantAt zone day minute)
    | _, _, _ => []

/-- The slot of a day, local midnight to local midnight. -/
def wholeDay (zone : Zone) (day : Int) : Option Period :=
  match instantAt zone day 0, instantAt zone (dateUTC day + 1) 0 with
  | some startsAt, some endsAt => if startsAt < endsAt then some ⟨startsAt, endsAt⟩ else none
  | _, _ => none

/-- One slot per day. -/
def wholeDays (zone : Zone) (first last : Int) : List Period :=
  (daysOf first last).filterMap (wholeDay zone)

/-- The slots a resource offers over a range of days, in order. -/
def generateSlots (zone : Zone) (resource : SlotResource) (first last : Int) : List Period :=
  if dateUTC last < dateUTC first then []
  else if resource.mode = .TIME_SLOTS then timeSlots zone resource first last
  else wholeDays zone first last

/-- A period as a request names it: no end means one slot. -/
structure RequestedPeriod where
  startsAt : Int
  endsAt : Option Int
  deriving DecidableEq, Repr

/-- The slot a period names, or none when the resource offers no such slot. -/
def periodFor (zone : Zone) (resource : SlotResource) (requested : RequestedPeriod) :
    Option Period :=
  let first := utcDayOf zone requested.startsAt - 1
  let last := dateUTC first + if resource.mode = .DATE_RANGE then (MAX_BOOKING_NIGHTS : Int) + 2 else 2
  let slots := generateSlots zone resource first last
  -- from the first slot that starts as requested
  match slots.dropWhile fun slot => slot.startsAt ≠ requested.startsAt with
  | [] => none
  | start :: later =>
    match requested.endsAt with
    | none => some start
    | some endsAt =>
      if resource.mode ≠ .DATE_RANGE then
        if endsAt = start.endsAt then some start else none
      else (((start :: later).take MAX_BOOKING_NIGHTS).find? fun night => night.endsAt = endsAt).map
        fun night => ⟨start.startsAt, night.endsAt⟩

/-- Two periods of which one ends by the time the other starts. -/
def Apart (p q : Period) : Prop := p.endsAt ≤ q.startsAt ∨ q.endsAt ≤ p.startsAt

instance : Std.Symm Apart := ⟨fun _ _ h => h.symm⟩

/-- Whether a period is one the mechanics offer for a booking. -/
def Offers (zone : Zone) (resource : SlotResource) (p : Period) : Prop :=
  ∃ requested, periodFor zone resource requested = some p

end OpenBrf.Bookings
