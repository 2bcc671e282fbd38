import OpenBrf.Bookings.SlotEngine
import OpenBrf.Registers.Store

/-!
# Bookings.Service — bookings and the resources they are of (`booking.service.ts`,
`bookable-resource.service.ts`, `booking-lock.ts`)

Audit entries, mail and logs are left out: they follow the commit or touch no table read here.
-/

namespace OpenBrf.Bookings

open Txn Shared

/-- A resource as the board states it. -/
structure BookableResourceInput extends SlotResource where
  name : String
  description : Option String
  maxConcurrentBookings : Option Int
  maxBookingsPerWeek : Option Int
  deriving DecidableEq, Repr

structure BookableResource extends BookableResourceInput where
  id : String
  /-- None while it is offered. -/
  deactivatedAt : Option Int
  deriving DecidableEq, Repr

inductive BookingStatus where
  | BOOKED
  | CANCELLED
  deriving DecidableEq, Repr

structure Booking where
  id : String
  resourceId : String
  apartmentId : Option String
  bookedByPersonId : String
  startsAt : Int
  endsAt : Int
  status : BookingStatus
  deriving DecidableEq, Repr

structure BookInput where
  resourceId : String
  apartmentId : String
  startsAt : Int
  endsAt : Option Int
  deriving DecidableEq, Repr

structure BookingStore where
  resources : List BookableResource := []
  bookings : List Booking := []
  residencies : List Registers.Residency := []
  deriving DecidableEq

/-- The advisory keys of `booking-lock.ts`, and rows and unique keys of the tables. -/
inductive BookingLock where
  /-- `booking-apartment:{apartmentId}` -/
  | apartmentBookings (apartmentId : String)
  /-- `booking-resource:{resourceId}` -/
  | resourceBookings (resourceId : String)
  | resourceRow (id : String)
  | bookingRow (id : String)
  /-- `booking_resourceId_startsAt_booked_key`, over the live bookings. -/
  | bookedKey (resourceId : String) (startsAt : Int)
  deriving DecidableEq, Repr

/-- The two limits a refusal can name. -/
inductive BookingQuota where
  | maxConcurrentBookings
  | maxBookingsPerWeek
  deriving DecidableEq, Repr

inductive BookingTextField where
  | name
  | description
  deriving DecidableEq, Repr

/-- `BookingReason`, with what a refusal publishes beside it. -/
inductive BookingReason where
  | resourceNotFound
  | resourceDeactivated
  | resourceInUse
  | slotNotBookable
  | slotTaken
  | apartmentNotFound
  | bookingNotFound
  | bookingStarted
  | bookingEnded
  | alreadyCancelled
  | quotaReached (limit : BookingQuota) (allowed : Int)
  | quotaNotPositive
  | schedule (problem : ScheduleProblem)
  | personalIdentityNumber (locations : List (BookingTextField × ℕ))
  deriving DecidableEq, Repr

inductive BookingFailure where
  | bookingError (message : String) (reason : BookingReason)
  /-- No local midnight bounds the week of a day. -/
  | noLocalMidnight (day : Int)
  /-- `findFirstOrThrow`. -/
  | notFound
  deriving DecidableEq, Repr

abbrev BookingTx (α : Type) := Prog BookingStore BookingLock String BookingFailure α

def refuse {α : Type} (message : String) (reason : BookingReason) : BookingTx α :=
  fail (.bookingError message reason)

/-! ### Locks -/

def lockApartmentBookings (apartmentId : String) : BookingTx Unit :=
  acquire (.apartmentBookings apartmentId) .exclusive

def lockResourceBookings (resourceId : String) : BookingTx Unit :=
  acquire (.resourceBookings resourceId) .exclusive

/-! ### Resources -/

def findResource (s : BookingStore) (id : String) : Option BookableResource :=
  s.resources.find? fun resource => resource.id = id

def scheduleMessage : ScheduleProblem → String
  | .scheduleRequired =>
    "A resource booked in time slots needs a slot length and an opening and closing time."
  | .scheduleNotApplicable =>
    "Only a resource booked in time slots carries a slot length and opening hours."
  | .closesBeforeOpens => "The closing time has to come after the opening time."
  | .slotDoesNotFit => "The slot length does not divide the opening hours into whole slots."

section Resources

-- `scanForPersonalIdentityNumbers`: where in a text one stands
variable (scan : String → List ℕ)

/-- Where a resource's free text carries a personal identity number. -/
def personalIdentityNumbersIn (input : BookableResourceInput) : List (BookingTextField × ℕ) :=
  (scan input.name).map (fun offset => (.name, offset)) ++
    (input.description.elim [] scan).map fun offset => (.description, offset)

/-- Why a configuration is refused. -/
def refusalOf (input : BookableResourceInput) : Option BookingFailure :=
  if personalIdentityNumbersIn scan input ≠ [] then
    some (.bookingError "The resource carries a personal identity number and cannot be saved."
      (.personalIdentityNumber (personalIdentityNumbersIn scan input)))
  else match checkResourceSchedule input.toSlotResource with
    | some problem => some (.bookingError (scheduleMessage problem) (.schedule problem))
    | none =>
      if input.maxConcurrentBookings.any (· < 1) || input.maxBookingsPerWeek.any (· < 1) then
        some (.bookingError
          "A quota must be at least one booking. Leave it empty for no limit." .quotaNotPositive)
      else none

/-- The stated configuration, or a refusal. -/
def validated (input : BookableResourceInput) : BookingTx BookableResourceInput :=
  match refusalOf scan input with
  | some failure => fail failure
  | none => pure input

/-- `findUnique` on the row, which must be there and not withdrawn. -/
def requireExisting (id : String) (deactivated : String) : BookingTx BookableResource := do
  let s ← snapshot
  match findResource s id with
  | none => refuse "No such bookable resource." .resourceNotFound
  | some existing =>
    refuseIf (existing.deactivatedAt ≠ none) (.bookingError deactivated .resourceDeactivated)
    return existing

def setResource (id : String) (f : BookableResource → BookableResource) (s : BookingStore) :
    BookingStore :=
  { s with resources := s.resources.map fun resource =>
      if resource.id = id then { f resource with id := id } else resource }

def create (input : BookableResourceInput) : BookingTx Unit := do
  let data ← validated scan input
  transaction do
    let id ← fresh
    acquire (.resourceRow id) .exclusive
    let s ← snapshot
    refuseIf (findResource s id ≠ none) .notFound
    update fun s => { s with resources := s.resources ++ [⟨data, id, none⟩] }

/-- The live bookings of a resource that have not ended. -/
def standingOn (s : BookingStore) (resourceId : String) (now : Int) : List Booking :=
  s.bookings.filter fun b => b.resourceId = resourceId ∧ b.status = .BOOKED ∧ now < b.endsAt

/-- Refuses new mechanics while bookings are still to come. -/
def refuseInUse (id : String) (existing data : SlotResource) : BookingTx Unit :=
  if existing = data then pure ()
  else do
    let now ← readClock
    let s ← snapshot
    refuseIf (standingOn s id now ≠ []) (.bookingError ("This resource has bookings still to " ++
      "come. Cancel them, or wait until they have passed, before changing how it is booked.")
      .resourceInUse)

def updateResource (id : String) (input : BookableResourceInput) : BookingTx Unit := do
  let data ← validated scan input
  transaction do
    acquire (.resourceRow id) .exclusive
    let existing ← requireExisting id "That resource has been withdrawn from booking."
    refuseInUse id existing.toSlotResource data.toSlotResource
    update (setResource id fun resource => { resource with toBookableResourceInput := data })

def deactivate (id : String) : BookingTx Unit :=
  transaction do
    acquire (.resourceRow id) .exclusive
    let _ ← requireExisting id "That resource has already been withdrawn from booking."
    let now ← readClock
    update (setResource id fun resource => { resource with deactivatedAt := some now })

end Resources

/-! ### Bookings -/

section Bookings

variable (zone : Zone)

def requireOfferedResource (resourceId : String) : BookingTx BookableResource :=
  requireExisting resourceId "That resource has been withdrawn from booking."

/-- Whether a residency covers every day a period falls on, both ends included. -/
def residencyCoveringPeriod (personId : String) (period : Period) (r : Registers.Residency) :
    Bool :=
  r.personId = personId && r.movedInOn ≤ utcDayOf zone period.startsAt &&
    r.movedOutOn.all (utcDayOf zone (period.endsAt - 1) < ·)

/-- The apartment, when the caller holds it for the period they are booking. -/
def requireOwnApartment (personId apartmentId : String) (period : Period) : BookingTx Unit := do
  let s ← snapshot
  refuseIf (¬ ∃ r ∈ s.residencies, residencyCoveringPeriod zone personId period r = true ∧
    r.apartmentId = apartmentId) (.bookingError "No such apartment." .apartmentNotFound)

def slotNotOffered : BookingFailure :=
  .bookingError "That period is not a slot this resource offers." .slotNotBookable

/-- Refuses a range of nights that runs across one already held. -/
def refuseOverlap (resourceId : String) (period : Period) : BookingTx Unit := do
  let s ← snapshot
  refuseIf (∃ b ∈ s.bookings, b.resourceId = resourceId ∧ b.status = .BOOKED ∧
      b.startsAt < period.endsAt ∧ period.startsAt < b.endsAt)
    (.bookingError "Part of that period is already booked." .slotTaken)

/-- What a resource booked by nights checks besides its unique key. -/
def refuseNights (resource : BookableResource) (resourceId : String) (period : Period) :
    BookingTx Unit :=
  if resource.mode = .DATE_RANGE then do
    lockResourceBookings resourceId
    refuseOverlap resourceId period
  else pure ()

/-- The live bookings of a resource an apartment holds. -/
def liveOf (s : BookingStore) (resourceId apartmentId : String) : List Booking :=
  s.bookings.filter fun b =>
    b.resourceId = resourceId ∧ b.apartmentId = some apartmentId ∧ b.status = .BOOKED

/-- Those that have not started. -/
def unstartedOf (s : BookingStore) (resourceId apartmentId : String) (now : Int) : List Booking :=
  (liveOf s resourceId apartmentId).filter fun b => now < b.startsAt

/-- Those that start within a week. -/
def startingIn (s : BookingStore) (resourceId apartmentId : String) (week : Period) :
    List Booking :=
  (liveOf s resourceId apartmentId).filter fun b =>
    week.startsAt ≤ b.startsAt ∧ b.startsAt < week.endsAt

def quotaReached (limit : BookingQuota) (allowed : Int) : BookingFailure :=
  .bookingError "The apartment already holds as many bookings of this resource as it may."
    (.quotaReached limit allowed)

def refuseOverConcurrent (resource : BookableResource) (apartmentId : String) (now : Int) :
    BookingTx Unit :=
  match resource.maxConcurrentBookings with
  | none => pure ()
  | some maxConcurrentBookings => do
    let s ← snapshot
    refuseIf (maxConcurrentBookings ≤ (unstartedOf s resource.id apartmentId now).length)
      (quotaReached .maxConcurrentBookings maxConcurrentBookings)

def refuseOverWeek (resource : BookableResource) (apartmentId : String) (period : Period) :
    BookingTx Unit :=
  match resource.maxBookingsPerWeek with
  | none => pure ()
  | some maxBookingsPerWeek =>
    -- the week the booking is for, not the one it is made in
    match localWeekAround zone period.startsAt with
    | .error day => fail (.noLocalMidnight day)
    | .ok week => do
      let s ← snapshot
      refuseIf (maxBookingsPerWeek ≤ (startingIn s resource.id apartmentId week).length)
        (quotaReached .maxBookingsPerWeek maxBookingsPerWeek)

/-- Refuses a booking that would put the apartment over either limit. -/
def refuseOverQuota (resource : BookableResource) (apartmentId : String) (period : Period)
    (now : Int) : BookingTx Unit := do
  refuseOverConcurrent resource apartmentId now
  refuseOverWeek zone resource apartmentId period

/-- `createMany` with `skipDuplicates`: waits for claims of the same key in flight, and inserts
unless there is one.  Says whether it did. -/
def createBooking (resourceId apartmentId personId : String) (period : Period) : BookingTx Bool := do
  let id ← fresh
  acquire (.bookingRow id) .exclusive
  acquire (.bookedKey resourceId period.startsAt) .exclusive
  let s ← snapshot
  if ∃ b ∈ s.bookings, b.id = id ∨
      (b.resourceId = resourceId ∧ b.startsAt = period.startsAt ∧ b.status = .BOOKED) then
    return false
  else
    update fun s => { s with bookings := s.bookings ++
      [⟨id, resourceId, some apartmentId, personId, period.startsAt, period.endsAt, .BOOKED⟩] }
    return true

/-- The row just written, read back by what the index makes unique. -/
def findCreated (resourceId : String) (startsAt : Int) : BookingTx Booking := do
  let s ← snapshot
  match s.bookings.find? fun b =>
      b.resourceId = resourceId ∧ b.startsAt = startsAt ∧ b.status = .BOOKED with
  | none => fail .notFound
  | some created => return created

/-- The claim under the locks: the re-read schedule, the limits and the insert. -/
def claimLocked (personId apartmentId : String) (input : BookInput) (period : Period) (now : Int) :
    BookingTx Booking := do
  let current ← requireOfferedResource input.resourceId
  refuseIf (periodFor zone current.toSlotResource ⟨input.startsAt, input.endsAt⟩ ≠ some period)
    slotNotOffered
  refuseNights current input.resourceId period
  refuseOverQuota zone current apartmentId period now
  let claimed ← createBooking input.resourceId apartmentId personId period
  refuseIf (claimed = false) (.bookingError "That slot is already booked." .slotTaken)
  findCreated input.resourceId period.startsAt

/-- The transaction of `book`. -/
def claimSlot (personId apartmentId : String) (input : BookInput) (period : Period) (now : Int) :
    BookingTx Booking :=
  transaction do
    lockApartmentBookings apartmentId
    -- the row for share: the board's edits take it for update
    acquire (.resourceRow input.resourceId) .shared
    claimLocked zone personId apartmentId input period now

/-- Claims a slot for one of the caller's own apartments. -/
def book (personId : String) (input : BookInput) : BookingTx Booking := do
  let now ← readClock
  let resource ← requireOfferedResource input.resourceId
  match periodFor zone resource.toSlotResource ⟨input.startsAt, input.endsAt⟩ with
  | none => fail slotNotOffered
  | some period =>
    refuseIf (period.startsAt ≤ now)
      (.bookingError "That slot has already begun." .slotNotBookable)
    requireOwnApartment zone personId input.apartmentId period
    claimSlot zone personId input.apartmentId input period now

/-- When a booking closes for cancelling: to its owner when it begins, to the board when it
ends. -/
def closesAt (ownerPersonId : Option String) (b : Booking) : Int :=
  if ownerPersonId = none then b.endsAt else b.startsAt

/-- Whether a conditional update cancels a booking. -/
def cancels (bookingId : String) (ownerPersonId : Option String) (now : Int) (b : Booking) : Bool :=
  b.id = bookingId && b.status = .BOOKED && now < closesAt ownerPersonId b

def cancelled (bookingId : String) (ownerPersonId : Option String) (now : Int) (b : Booking) :
    Booking :=
  if cancels bookingId ownerPersonId now b then { b with status := .CANCELLED } else b

/-- The booking named, belonging to the owner where there has to be one. -/
def findOwned (s : BookingStore) (bookingId : String) (ownerPersonId : Option String) :
    Option Booking :=
  s.bookings.find? fun b => b.id = bookingId && ownerPersonId.all (b.bookedByPersonId = ·)

/-- Sets a booking to CANCELLED. -/
def cancel (bookingId : String) (ownerPersonId : Option String) : BookingTx Booking :=
  transaction do
    let s ← snapshot
    match findOwned s bookingId ownerPersonId with
    | none => refuse "No such booking." .bookingNotFound
    | some booking =>
      let now ← readClock
      let claimed ← updateRow (.bookingRow bookingId)
        (fun s => s.bookings.any (cancels bookingId ownerPersonId now))
        fun s => { s with bookings := s.bookings.map (cancelled bookingId ownerPersonId now) }
      refuseIf (claimed = false ∧ booking.status = .BOOKED ∧ closesAt ownerPersonId booking ≤ now)
        (if ownerPersonId = none then
          .bookingError "That booking has already ended." .bookingEnded
        else .bookingError "That booking has already begun." .bookingStarted)
      refuseIf (claimed = false) (.bookingError
        "That booking is not live, so there is nothing to cancel." .alreadyCancelled)
      return { booking with status := .CANCELLED }

def cancelOwn (personId bookingId : String) : BookingTx Booking := cancel bookingId (some personId)

def cancelForBoard (bookingId : String) : BookingTx Booking := cancel bookingId none

end Bookings

end OpenBrf.Bookings
