import OpenBrf.Registers.MembershipPeriods
import OpenBrf.Shared.CalendarDates

/-!
# Registers.MembershipTransitions — what a change of residencies owes the register
(`membership-transitions.ts`, `held-on.ts`)

A residency is held on the day `dateColumnOf` makes of a date, and so is the day before read: by
`Date.UTC`, which takes the years 0 to 99 for those of the twentieth century.
-/

namespace OpenBrf.Registers

open Shared

/-- A `MEMBER` residency, as much of it as the register reads. -/
structure MemberResidencySpan where
  apartmentId : String
  movedInOn : Int
  /-- None while the residency is current; otherwise the first day it is no longer held. -/
  movedOutOn : Option Int
  deriving DecidableEq, Repr

/-- Whether a residency from `movedInOn` to `movedOutOn` is held on a day. -/
def isResidencyHeldOn (movedInOn : Int) (movedOutOn : Option Int) (day : Int) : Bool :=
  let on := dateUTC day
  movedInOn ≤ on && movedOutOn.all (on < ·)

/-- One register row a change owes. -/
structure OwedMembershipEvent where
  eventType : MembershipEventType
  eventOn : Int
  /-- The apartment whose residency begins or ends the membership that day. -/
  apartmentId : String
  deriving DecidableEq, Repr

def MemberResidencySpan.isHeldOn (span : MemberResidencySpan) (day : Int) : Bool :=
  isResidencyHeldOn span.movedInOn span.movedOutOn day

def heldOn (spans : List MemberResidencySpan) (day : Int) : Bool :=
  spans.any fun span => span.isHeldOn day

/-- `dateColumnOf(addLocalDays(localDayOfColumn(day), -1))`, both of which count by `Date.UTC`. -/
def dayBefore (day : Int) : Int := dateUTC (dateUTC day - 1)

/-- The days on which a residency begins or ends. -/
def MemberResidencySpan.days (span : MemberResidencySpan) : List Int :=
  match span.movedOutOn with
  | none => [span.movedInOn]
  | some movedOutOn => [span.movedInOn, movedOutOn]

/-- `[...new Set(times)].sort((left, right) => left - right)`. -/
def sortedDays (times : List Int) : List Int := times.dedup.insertionSort (· ≤ ·)

/-- The text of the failure both searches for an apartment share. -/
def noResidencyBehind : String := "A membership change with no residency behind it."

/-- The residency an ENTRY names: one held that day, preferring one that begins on it. -/
def entrySpan (spans : List MemberResidencySpan) (day : Int) : Option MemberResidencySpan :=
  (spans.find? fun span => span.movedInOn = day && span.isHeldOn day).or
    (spans.find? fun span => span.isHeldOn day)

/-- The apartment a row names: for an ENTRY, one held that day, preferring one whose residency
begins on it; for an EXIT, one whose residency ended on it. -/
def apartmentOf (spans : List MemberResidencySpan) (day : Int) (entry : Bool) :
    Except String String :=
  let found :=
    if entry then entrySpan spans day
    else spans.find? fun span => span.movedOutOn = some day
  match found with
  | none => .error noResidencyBehind
  | some span => .ok span.apartmentId

/-- The type of the row that makes a day read as held, or as not held. -/
def eventTypeOf (held : Bool) : MembershipEventType := if held then .ENTRY else .EXIT

/-- The loop of `owedMembershipEvents` over the days still to come. -/
def owedFrom (before after : List MemberResidencySpan) :
    Bool → List Int → Except String (List OwedMembershipEvent)
  | _, [] => .ok []
  | registered, day :: days => do
    let heldBefore := heldOn before day
    -- the register's own row for this day, if `before` wrote one
    let registered := if heldBefore ≠ heldOn before (dayBefore day) then heldBefore else registered
    let held := heldOn after day
    if held = registered then
      owedFrom before after registered days
    else
      let apartmentId ← apartmentOf after day held
      let owed ← owedFrom before after held days
      return ⟨eventTypeOf held, day, apartmentId⟩ :: owed

/-- The rows that turn the register of `before` into the register of `after`. -/
def owedMembershipEvents (before after : List MemberResidencySpan) :
    Except String (List OwedMembershipEvent) :=
  owedFrom before after false (sortedDays ((before ++ after).flatMap MemberResidencySpan.days))

-- the day before the first of January of the year 100 is read as one of 1999, so no EXIT is owed
example : owedMembershipEvents [⟨"1001", FIRST_COUNTED_DAY, none⟩]
    [⟨"1001", FIRST_COUNTED_DAY, some FIRST_COUNTED_DAY⟩] = .ok [] := by decide +kernel

end OpenBrf.Registers
