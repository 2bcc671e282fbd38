import Mathlib.Data.List.Dedup
import Mathlib.Data.List.Sort
import OpenBrf.Events.OccurrencePlan
import OpenBrf.Txn.Program

/-!
# Events.Service — series, their dates and the sign-ups to them (`event.service.ts`,
`event-signup.service.ts`, `event-attendance.ts`, `event-lock.ts`, `event-signup-lock.ts`)

Audit entries and views are left out: they follow from what is written here.  The unique key of a
series and a start is held by the row of the series, which every writer of its dates locks.
-/

namespace OpenBrf.Events

open Txn Shared

inductive PageVisibility where
  | PUBLIC
  | MEMBER
  deriving DecidableEq, Repr

/-- A series as the board states it. -/
structure EventInput extends SeriesSchedule where
  title : String
  description : Option String
  category : Option String
  location : Option String
  onScreens : Bool
  signupOpen : Bool
  /-- Places at one occurrence; none is no limit. -/
  capacity : Option Int
  deriving DecidableEq, Repr

structure Event extends EventInput where
  id : String
  visibility : PageVisibility
  published : Bool
  publishedAt : Option Int
  deriving DecidableEq, Repr

structure EventOccurrence extends StoredOccurrence where
  eventId : String
  deriving DecidableEq, Repr

structure EventSignup where
  id : String
  occurrenceId : String
  personId : String
  signedUpAt : Int
  withdrawnAt : Option Int
  deriving DecidableEq, Repr

/-- Whether a series is published, and who for. -/
structure PublishEventInput where
  published : Bool
  visibility : Option PageVisibility
  deriving DecidableEq, Repr

structure EventStore where
  events : List Event := []
  occurrences : List EventOccurrence := []
  signups : List EventSignup := []
  deriving DecidableEq

/-- The advisory key of `event-signup-lock.ts`, and rows and unique keys of the tables. -/
inductive EventLock where
  /-- `event-occurrence-signups:{occurrenceId}` -/
  | occurrenceSignups (occurrenceId : String)
  | eventRow (id : String)
  | occurrenceRow (id : String)
  | signupRow (id : String)
  /-- `@@unique([occurrenceId, personId])` -/
  | signupKey (occurrenceId personId : String)
  deriving DecidableEq, Repr

inductive EventTextField where
  | title
  | description
  | category
  | location
  deriving DecidableEq, Repr

/-- `EventReason`, with what a refusal publishes beside it. -/
inductive EventReason where
  | notFound
  | occurrenceNotFound
  | personalIdentityNumber (locations : List (EventTextField × ℕ))
  | schedule (problem : RecurrenceProblem)
  | capacityNotPositive
  | occurrenceInUse (dates : List Int)
  | occurrenceAlreadyCancelled
  | occurrenceNotCancelled
  | occurrenceAlreadyBegun
  | signupNotOffered
  | occurrenceCancelled
  | occurrenceStarted
  | occurrenceFull
  | alreadySignedUp
  | alreadyWithdrawn
  | signupNotFound
  deriving DecidableEq, Repr

inductive EventFailure where
  | eventError (message : String) (reason : EventReason)
  /-- `findUniqueOrThrow`, or an update of a row that is gone. -/
  | notFound
  /-- A generated identifier that is in use. -/
  | uniqueKey
  deriving DecidableEq, Repr

abbrev EventTx (α : Type) := Prog EventStore EventLock String EventFailure α

def refuse {α : Type} (message : String) (reason : EventReason) : EventTx α :=
  fail (.eventError message reason)

/-! ### The tables -/

def findEvent (s : EventStore) (id : String) : Option Event := s.events.find? fun e => e.id = id

def findOccurrence (s : EventStore) (id : String) : Option EventOccurrence :=
  s.occurrences.find? fun occurrence => occurrence.id = id

/-- The dates of a series, in order. -/
def occurrencesOf (s : EventStore) (eventId : String) : List EventOccurrence :=
  (s.occurrences.filter fun occurrence => occurrence.eventId = eventId).insertionSort
    fun a b => a.startsAt ≤ b.startsAt

/-- The standing sign-ups to a date. -/
def standingOn (s : EventStore) (occurrenceId : String) : List EventSignup :=
  s.signups.filter fun signup => signup.occurrenceId = occurrenceId ∧ signup.withdrawnAt = none

def findSignup (s : EventStore) (occurrenceId personId : String) : Option EventSignup :=
  s.signups.find? fun signup => signup.occurrenceId = occurrenceId ∧ signup.personId = personId

/-- The ids, out of those given, that somebody has a standing sign-up to. -/
def occurrencesWithSignups (s : EventStore) (occurrenceIds : List String) : List String :=
  occurrenceIds.filter fun occurrenceId => standingOn s occurrenceId ≠ []

def setEvent (id : String) (f : Event → Event) (s : EventStore) : EventStore :=
  { s with events := s.events.map fun e => if e.id = id then { f e with id := id } else e }

def setOccurrence (id : String) (f : StoredOccurrence → StoredOccurrence) (s : EventStore) :
    EventStore :=
  { s with occurrences := s.occurrences.map fun occurrence =>
      if occurrence.id = id then
        { occurrence with toStoredOccurrence := { f occurrence.toStoredOccurrence with id := id } }
      else occurrence }

/-- Deletes dates; their sign-ups go with them. -/
def deleteOccurrences (goes : EventOccurrence → Bool) (s : EventStore) : EventStore :=
  { s with
    occurrences := s.occurrences.filter fun occurrence => ¬ goes occurrence
    signups := s.signups.filter fun signup =>
      ¬ ∃ occurrence ∈ s.occurrences, goes occurrence ∧ occurrence.id = signup.occurrenceId }

/-! ### Locks -/

def lockEvent (eventId : String) : EventTx Unit := acquire (.eventRow eventId) .exclusive

/-- The series of a date, found without a lock. -/
def lockEventOfOccurrence (occurrenceId : String) : EventTx Unit := do
  let s ← snapshot
  match findOccurrence s occurrenceId with
  | none => pure ()
  | some occurrence => lockEvent occurrence.eventId

def lockOccurrenceSignups (occurrenceId : String) : EventTx Unit :=
  acquire (.occurrenceSignups occurrenceId) .exclusive

/-- Sorted and de-duplicated. -/
def lockOccurrencesSignups (occurrenceIds : List String) : EventTx Unit :=
  (occurrenceIds.dedup.insertionSort (· ≤ ·)).forM lockOccurrenceSignups

/-! ### The series -/

def scheduleMessage : RecurrenceProblem → String
  | .durationInvalid => "An event runs for between one minute and a whole day."
  | .startDoesNotExist =>
    "The clocks skip that time of day on that date, so there is no such moment."
  | .recurrenceIntervalInvalid =>
    "A repeating event repeats every whole number of weeks, months or years."
  | .recurrenceEndRequired =>
    "A repeating event states when it stops: a number of times, or a last date."
  | .recurrenceEndAmbiguous => "State either a number of times or a last date, not both."
  | .recurrenceEndInvalid =>
    "That end is reached before the event comes round again. Remove the repetition instead."
  | .recurrencePastHorizon => "A repeating event is written out for at most two years ahead."

section Series

-- `scanForPersonalIdentityNumbers`: where in a text one stands
variable (scan : String → List ℕ) (zone : Zone)

/-- Where the free text of a series carries a personal identity number. -/
def personalIdentityNumbersIn (fields : EventInput) : List (EventTextField × ℕ) :=
  (scan fields.title).map (fun offset => (.title, offset)) ++
    (fields.description.elim [] scan).map (fun offset => (.description, offset)) ++
    (fields.category.elim [] scan).map (fun offset => (.category, offset)) ++
    (fields.location.elim [] scan).map fun offset => (.location, offset)

/-- Refuses a series carrying a personal identity number. -/
def refusePersonalIdentityNumbers (fields : EventInput) : EventTx Unit :=
  refuseIf (personalIdentityNumbersIn scan fields ≠ []) (.eventError
    "The event carries a personal identity number and cannot be published."
    (.personalIdentityNumber (personalIdentityNumbersIn scan fields)))

/-- Why a stated series is refused. -/
def refusalOf (input : EventInput) : Option EventFailure :=
  if input.capacity.any (· < 1) then
    some (.eventError "A capacity has to be at least one place. Leave it empty for no limit."
      .capacityNotPositive)
  else (checkRecurrenceSchedule zone input.toSeriesSchedule).map fun problem =>
    .eventError (scheduleMessage problem) (.schedule problem)

/-- The stated series as a schedule, or a refusal. -/
def validated (input : EventInput) : EventTx SeriesSchedule :=
  match refusalOf zone input with
  | some failure => fail failure
  | none => pure input.toSeriesSchedule

/-- One row of `createMany`. -/
def insertOccurrence (eventId : String) (period : Period) : EventTx Unit := do
  let id ← fresh
  acquire (.occurrenceRow id) .exclusive
  let s ← snapshot
  refuseIf (findOccurrence s id ≠ none) .uniqueKey
  update fun s => { s with occurrences := s.occurrences ++
    [⟨⟨id, period.startsAt, period.endsAt, none⟩, eventId⟩] }

/-- Enters a series, unpublished, and writes out the dates it falls on. -/
def create (input : EventInput) : EventTx Unit := do
  let schedule ← validated zone input
  transaction do
    let id ← fresh
    lockEvent id
    let s ← snapshot
    refuseIf (findEvent s id ≠ none) .uniqueKey
    update fun s => { s with events := s.events ++ [⟨input, id, .MEMBER, false, none⟩] }
    (occurrencePeriods zone schedule).forM (insertOccurrence id)

/-- The series, with the row locked by the caller. -/
def requireEvent (id : String) : EventTx (Event × List EventOccurrence) := do
  let s ← snapshot
  match findEvent s id with
  | none => refuse "There is no such event." .notFound
  | some existing => return (existing, occurrencesOf s id)

/-- Refuses while somebody stands on one of the dates, each locked before they are counted. -/
def refuseInUse (message : String) (occurrences : List StoredOccurrence) : EventTx Unit := do
  lockOccurrencesSignups (occurrences.map (·.id))
  let s ← snapshot
  let held := occurrencesWithSignups s (occurrences.map (·.id))
  refuseIf (held ≠ []) (.eventError message (.occurrenceInUse
    (((occurrences.filter fun occurrence => occurrence.id ∈ held).map fun occurrence =>
      localDayOf zone occurrence.startsAt).insertionSort (· ≤ ·))))

/-- Dropped, then moved, then added. -/
def writePlan (id : String) (plan : OccurrencePlan) : EventTx Unit := do
  update (deleteOccurrences fun occurrence => occurrence.id ∈ plan.dropped.map (·.id))
  plan.moved.forM fun entry => do
    acquire (.occurrenceRow entry.occurrence.id) .exclusive
    update (setOccurrence entry.occurrence.id fun row =>
      { row with startsAt := entry.period.startsAt, endsAt := entry.period.endsAt })
  plan.added.forM (insertOccurrence id)

/-- Rewrites what a series says and when it runs (`update`). -/
def edit (id : String) (input : EventInput) : EventTx Unit := do
  let schedule ← validated zone input
  let planned := occurrencePeriods zone schedule
  let now ← readClock
  transaction do
    lockEvent id
    let (existing, occurrences) ← requireEvent id
    onlyIf existing.published (refusePersonalIdentityNumbers scan input)
    let plan := planOccurrences zone (occurrences.map (·.toStoredOccurrence)) planned now
    refuseInUse zone ("People have signed up to dates this change would move or remove. Leave " ++
      "those dates where they are, or deal with the sign-ups first.") (displacedBy plan)
    writePlan id plan
    update (setEvent id fun e => { e with toEventInput := input })

/-- Publishes a series, or takes it down, and says who it is for. -/
def publish (id : String) (input : PublishEventInput) : EventTx Unit := do
  let now ← readClock
  transaction do
    lockEvent id
    let (existing, _) ← requireEvent id
    let visibility := input.visibility.getD existing.visibility
    onlyIf input.published (refusePersonalIdentityNumbers scan existing.toEventInput)
    onlyIf (¬ (existing.published = input.published ∧ existing.visibility = visibility))
      (update (setEvent id fun e => { e with
        published := input.published
        visibility := visibility
        publishedAt :=
          if input.published ∧ existing.publishedAt = none then some now
          else existing.publishedAt }))

end Series

/-- A date by its identifier, or a refusal. -/
def requireOccurrence (occurrenceId : String) : EventTx EventOccurrence := do
  let s ← snapshot
  match findOccurrence s occurrenceId with
  | none => refuse "There is no such date in any event." .occurrenceNotFound
  | some occurrence => return occurrence

/-- Calls off one date. -/
def cancelOccurrence (occurrenceId : String) : EventTx Unit := do
  let now ← readClock
  transaction do
    lockEventOfOccurrence occurrenceId
    lockOccurrenceSignups occurrenceId
    let occurrence ← requireOccurrence occurrenceId
    refuseIf (occurrence.cancelledAt ≠ none) (.eventError
      "That date has already been called off." .occurrenceAlreadyCancelled)
    refuseIf (occurrence.startsAt ≤ now) (.eventError
      "That date has already begun, so it cannot be called off." .occurrenceAlreadyBegun)
    acquire (.occurrenceRow occurrenceId) .exclusive
    update (setOccurrence occurrenceId fun row => { row with cancelledAt := some now })

/-- Puts one called-off date back. -/
def reinstateOccurrence (occurrenceId : String) : EventTx Unit := do
  let now ← readClock
  transaction do
    lockEventOfOccurrence occurrenceId
    let occurrence ← requireOccurrence occurrenceId
    refuseIf (occurrence.cancelledAt = none) (.eventError
      "That date was not called off, so there is nothing to reinstate." .occurrenceNotCancelled)
    refuseIf (occurrence.startsAt ≤ now) (.eventError
      "That date has already begun, so it cannot be reinstated." .occurrenceAlreadyBegun)
    let cleared ← updateRow (.occurrenceRow occurrenceId)
      (fun s => (findOccurrence s occurrenceId).any (·.cancelledAt ≠ none))
      (setOccurrence occurrenceId fun row => { row with cancelledAt := none })
    refuseIf (cleared = false) (.eventError
      "That date was not called off, so there is nothing to reinstate." .occurrenceNotCancelled)

/-- Removes a series and every date in it. -/
def remove (zone : Zone) (id : String) : EventTx Unit :=
  transaction do
    lockEvent id
    let (_, occurrences) ← requireEvent id
    refuseInUse zone
      "People have signed up to dates in this event. Deal with the sign-ups before removing it."
      (occurrences.map (·.toStoredOccurrence))
    update fun s => deleteOccurrences (fun occurrence => occurrence.eventId = id)
      { s with events := s.events.filter fun e => e.id ≠ id }

/-! ### Sign-ups -/

/-- The occurrence, when it exists and belongs to a published series. -/
def requireAttendable (occurrenceId : String) : EventTx (EventOccurrence × Event) := do
  let s ← snapshot
  match findOccurrence s occurrenceId with
  | none => refuse "There is no such date in any event." .occurrenceNotFound
  | some occurrence =>
    match findEvent s occurrence.eventId with
    | none => refuse "There is no such date in any event." .occurrenceNotFound
    | some event =>
      refuseIf (event.published = false) (.eventError "There is no such date in any event."
        .occurrenceNotFound)
      return (occurrence, event)

def alreadySignedUp : EventFailure :=
  .eventError "You have already signed up for that date." .alreadySignedUp

/-- The claim, for somebody with no row for this date yet. -/
def insertClaim (occurrenceId personId : String) (now : Int) : EventTx Unit := do
  let id ← fresh
  acquire (.signupRow id) .exclusive
  acquire (.signupKey occurrenceId personId) .exclusive
  let s ← snapshot
  refuseIf (∃ signup ∈ s.signups, signup.id = id ∨
    (signup.occurrenceId = occurrenceId ∧ signup.personId = personId)) alreadySignedUp
  update fun s => { s with signups := s.signups ++ [⟨id, occurrenceId, personId, now, none⟩] }

/-- Whether the row is one the conditional update reopens. -/
def reopens (signupId : String) (signup : EventSignup) : Bool :=
  signup.id = signupId && signup.withdrawnAt ≠ none

def reopened (signupId : String) (now : Int) (s : EventStore) : EventStore :=
  { s with signups := s.signups.map fun signup =>
      if reopens signupId signup then { signup with withdrawnAt := none, signedUpAt := now }
      else signup }

/-- The claim, for somebody who stood down and has changed their mind. -/
def reopenClaim (signupId : String) (now : Int) : EventTx Unit := do
  let claimed ← updateRow (.signupRow signupId) (fun s => s.signups.any (reopens signupId))
    (reopened signupId now)
  refuseIf (claimed = false) alreadySignedUp

/-- The row of the person and the date, and the claim it asks for. -/
def claimPlace (occurrenceId personId : String) (capacity : Option Int) (now : Int) :
    EventTx Unit := do
  let own ← snapshot
  let standing := findSignup own occurrenceId personId
  refuseIf (∃ signup ∈ standing, signup.withdrawnAt = none) alreadySignedUp
  let s ← snapshot
  let taken := (standingOn s occurrenceId).length
  refuseIf (∃ limit ∈ capacity, limit ≤ taken) (.eventError "The places at that date are taken."
    .occurrenceFull)
  match standing with
  | none => insertClaim occurrenceId personId now
  | some signup => reopenClaim signup.id now

/-- Takes a place at one date for the caller. -/
def signUp (personId occurrenceId : String) : EventTx Unit := do
  let now ← readClock
  transaction do
    lockOccurrenceSignups occurrenceId
    let (occurrence, event) ← requireAttendable occurrenceId
    refuseIf (event.signupOpen = false) (.eventError "That event does not take sign-ups."
      .signupNotOffered)
    refuseIf (occurrence.cancelledAt ≠ none) (.eventError "That date has been called off."
      .occurrenceCancelled)
    refuseIf (occurrence.startsAt ≤ now) (.eventError "That date has already begun."
      .occurrenceStarted)
    claimPlace occurrenceId personId event.capacity now

/-- Closes the row named, where it still stands. -/
def withdrawn (signupId : String) (now : Int) (s : EventStore) : EventStore :=
  { s with signups := s.signups.map fun signup =>
      if signup.id = signupId ∧ signup.withdrawnAt = none then
        { signup with withdrawnAt := some now }
      else signup }

/-- `updateMany` on one sign-up that stands.  Says whether there was one. -/
def withdrawRow (signupId : String) (now : Int) : EventTx Bool :=
  updateRow (.signupRow signupId)
    (fun s => s.signups.any fun signup => signup.id = signupId && signup.withdrawnAt = none)
    (withdrawn signupId now)

/-- Refuses a withdrawal that matched nothing, saying which of the two it was. -/
def refuseMissingSignup (occurrenceId personId : String) : EventTx Unit := do
  let s ← snapshot
  refuseIf (findSignup s occurrenceId personId = none) (.eventError
    "You have no sign-up for that date." .signupNotFound)
  refuse "That sign-up has already been withdrawn." .alreadyWithdrawn

/-- `updateMany` on the sign-up of a person to a date, where it stands. -/
def withdrawMatching (occurrenceId personId : String) (now : Int) : EventTx Bool := do
  let s ← snapshot
  match findSignup s occurrenceId personId with
  | none => return false
  | some signup => withdrawRow signup.id now

/-- Stands the caller down from one date. -/
def withdrawOwn (personId occurrenceId : String) : EventTx Unit := do
  let now ← readClock
  transaction do
    let claimed ← withdrawMatching occurrenceId personId now
    onlyIf (claimed = false) do
      let _ ← requireAttendable occurrenceId
      refuseMissingSignup occurrenceId personId

/-- Stands somebody down on their behalf. -/
def withdrawFor (signupId : String) : EventTx Unit := do
  let now ← readClock
  transaction do
    let s ← snapshot
    refuseIf (∀ signup ∈ s.signups, signup.id ≠ signupId) (.eventError
      "There is no such sign-up." .signupNotFound)
    let claimed ← withdrawRow signupId now
    refuseIf (claimed = false) (.eventError "That sign-up has already been withdrawn."
      .alreadyWithdrawn)

end OpenBrf.Events
