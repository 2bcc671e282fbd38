import OpenBrf.Timeline.Order

/-!
# Registers.MembershipPeriods — reading the member register (`membership-periods.ts`)

The archive is a log: an ENTRY when somebody becomes a member, an EXIT when they stop being one,
a CORRECTION when an earlier row was wrong.  Rows are appended and never changed, so a mistake is
fixed by a row that supersedes it.

A day of a `date` column is counted in whole days, an instant in milliseconds.
-/

namespace OpenBrf.Registers

open Timeline

inductive MemberRegisterEventType where
  | ENTRY
  | EXIT
  | CORRECTION
  deriving DecidableEq, Repr

/-- What is left of the event types once corrections are applied. -/
inductive MembershipEventType where
  | ENTRY
  | EXIT
  deriving DecidableEq, Repr

/-- The columns every reading of the archive selects. -/
structure MemberRegisterEvent where
  id : String
  personId : String
  eventType : MemberRegisterEventType
  eventOn : Int
  correctsEntryId : Option String
  createdAt : Int
  deriving DecidableEq, Repr

/-- One row of the archive, as stored. -/
structure MemberRegisterArchiveRow extends MemberRegisterEvent where
  apartmentId : Option String
  recordedFirstName : String
  recordedLastName : String
  recordedPostalStreet : Option String
  recordedPostalCode : Option String
  recordedPostalCity : Option String
  note : Option String := none
  deriving DecidableEq, Repr

/-- A selection of archive columns that holds those of `MemberRegisterEvent`. -/
class RegisterRow (Row : Type) where
  event : Row → MemberRegisterEvent

instance : RegisterRow MemberRegisterEvent := ⟨id⟩

instance : RegisterRow MemberRegisterArchiveRow := ⟨MemberRegisterArchiveRow.toMemberRegisterEvent⟩

open RegisterRow

/-- An archive row after corrections have been applied: a CORRECTION carries the event type of
the row it replaced. -/
structure ResolvedRegisterEvent (Row : Type) where
  row : Row
  eventType : MembershipEventType
  corrected : Bool
  deriving DecidableEq, Repr

variable {Row : Type} [RegisterRow Row]

def ResolvedRegisterEvent.personId (e : ResolvedRegisterEvent Row) : String :=
  (event e.row).personId

def ResolvedRegisterEvent.eventOn (e : ResolvedRegisterEvent Row) : Int := (event e.row).eventOn

def ResolvedRegisterEvent.createdAt (e : ResolvedRegisterEvent Row) : Int :=
  (event e.row).createdAt

instance : Dated (ResolvedRegisterEvent Row) := ⟨fun e => e.eventOn, fun e => e.createdAt⟩

/-- One membership: when it began and when it ended. -/
structure MembershipPeriod (Row : Type) where
  personId : String
  /-- None only for an exit with no entry before it. -/
  entry : Option (ResolvedRegisterEvent Row)
  /-- None while the membership is current. -/
  exit : Option (ResolvedRegisterEvent Row)

/-- Cycles cannot occur through the write path, but the read must not hang if one does. -/
def MAX_CORRECTION_DEPTH : ℕ := 32

/-- `new Map(rows.map((row) => [row.id, row]))`: the last row of an id is the one found. -/
def byId (rows : List Row) (id : String) : Option Row :=
  rows.reverse.find? fun row => (event row).id = id

/-- The walk of `supersededEventType`, with the depth still left to it. -/
def followCorrections (rows : List Row) :
    ℕ → List String → MemberRegisterEvent → Option MembershipEventType
  | 0, _, _ => none
  | depth + 1, seen, current =>
    match current.correctsEntryId with
    | none => none
    | some targetId =>
      if targetId ∈ seen then none
      else match byId rows targetId with
        | none => none
        | some target =>
          match (event target).eventType with
          | .ENTRY => some .ENTRY
          | .EXIT => some .EXIT
          | .CORRECTION => followCorrections rows depth (targetId :: seen) (event target)

/-- The event type at the root of a correction's chain. -/
def supersededEventType (correction : MemberRegisterEvent) (rows : List Row) :
    Option MembershipEventType :=
  followCorrections rows MAX_CORRECTION_DEPTH [correction.id] correction

/-- The ids some row replaces. -/
def superseded (rows : List Row) : List String :=
  rows.filterMap fun row => (event row).correctsEntryId

/-- One row of the resolved register, or none for a row it leaves out. -/
def resolveRow (rows : List Row) (row : Row) : Option (ResolvedRegisterEvent Row) :=
  if (event row).id ∈ superseded rows then none
  else match (event row).eventType with
    | .ENTRY => some ⟨row, .ENTRY, false⟩
    | .EXIT => some ⟨row, .EXIT, false⟩
    | .CORRECTION =>
      (supersededEventType (event row) rows).map fun eventType => ⟨row, eventType, true⟩

/-- Applies corrections: drops every row a later row supersedes, and gives each surviving
correction the event type of the row it replaced. -/
def resolveRegisterEvents (rows : List Row) : List (ResolvedRegisterEvent Row) :=
  chronologically (rows.filterMap (resolveRow rows))

/-- Pairs one person's events in order: a second ENTRY while one is open is ignored, an EXIT with
nothing open closes a period of its own. -/
def pairEvents (personId : String) :
    Option (ResolvedRegisterEvent Row) → List (ResolvedRegisterEvent Row) →
      List (MembershipPeriod Row)
  | opened, [] => opened.toList.map fun entry => ⟨personId, some entry, none⟩
  | opened, e :: es =>
    match e.eventType with
    | .ENTRY => pairEvents personId (opened.or (some e)) es
    | .EXIT => ⟨personId, opened, some e⟩ :: pairEvents personId none es

/-- Pairs the resolved events into membership periods, per person. -/
def membershipPeriods (events : List (ResolvedRegisterEvent Row)) : List (MembershipPeriod Row) :=
  (events.map fun e => e.personId).eraseDups.flatMap fun personId =>
    pairEvents personId none (chronologically (events.filter fun e => e.personId = personId))

/-- Whether a membership had not ended on the given day. -/
def isCurrentMembership (period : MembershipPeriod Row) (today : Int) : Bool :=
  match period.exit with
  | none => true
  | some exit => today < exit.eventOn

end OpenBrf.Registers
