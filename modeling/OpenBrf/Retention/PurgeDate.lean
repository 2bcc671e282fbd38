import Mathlib.Data.Rat.Floor
import Mathlib.Data.List.Sort
import OpenBrf.Shared.StockholmCalendar

/-!
# Retention.PurgeDate — when a person's service data is erased (`purge-date.ts`, `purge-window.ts`,
`purge-refusal.ts`, `standing-ties.ts`, `purge.service.ts`)

One rule, said three times: as the date the person's page shows, as what refuses the erasure with the
rows locked, and as the query that selects the people of a run.
-/

namespace OpenBrf.Retention

open Shared

/-! ### Dates -/

/-- A `Date` that is valid. -/
structure Instant where
  time : Int
  valid : -MAX_TIME ≤ time ∧ time ≤ MAX_TIME
  deriving DecidableEq, Repr

/-- `new Date(time)`, none where it is an invalid one. -/
def newDate (time : Int) : Option Instant :=
  if h : -MAX_TIME ≤ time ∧ time ≤ MAX_TIME then some ⟨time, h⟩ else none

/-- `left.getTime() > right.getTime()`, which no invalid date meets. -/
def isAfter (left right : Option Instant) : Bool :=
  match left, right with
  | some left, some right => right.time < left.time
  | _, _ => false

/-- A value of a `date` column, as the number of its day; it is read back as midnight UTC. -/
structure DateColumn where
  day : Int
  valid : -MAX_TIME ≤ day * MILLISECONDS_PER_DAY ∧ day * MILLISECONDS_PER_DAY ≤ MAX_TIME
  deriving DecidableEq, Repr

def DateColumn.getTime (column : DateColumn) : Int := column.day * MILLISECONDS_PER_DAY

def DateColumn.date (column : DateColumn) : Option Instant := some ⟨column.getTime, column.valid⟩

def dateColumnOf (day : LocalDay) : Option Instant := newDate (day.dateUTC * MILLISECONDS_PER_DAY)

/-- A policy that is not a non-negative number of days; none is a number that is not finite. -/
structure RangeError where
  got : Option ℚ
  deriving DecidableEq, Repr

/-- `Math.round`. -/
def round (x : ℚ) : Int := ⌊x + 1 / 2⌋

/-- The days of a policy, or the refusal both functions make. -/
def checkedDays (retentionDaysAfterMoveOut : Option ℚ) : Except RangeError ℚ :=
  match retentionDaysAfterMoveOut with
  | none => .error ⟨none⟩
  | some days => if days < 0 then .error ⟨some days⟩ else .ok days

/-- The latest move-out date whose purge date has arrived. -/
def purgeCutoff (now : Instant) (retentionDaysAfterMoveOut : Option ℚ) :
    Except RangeError (Option Instant) :=
  (checkedDays retentionDaysAfterMoveOut).map fun days =>
    newDate (now.time - round days * MILLISECONDS_PER_DAY)

/-- The date service-tier data for a residency becomes erasable; none while it is current. -/
def computePurgeDate (movedOutOn : Option DateColumn) (retentionDaysAfterMoveOut : Option ℚ) :
    Except RangeError (Option (Option Instant)) :=
  match movedOutOn with
  | none => .ok none
  | some movedOutOn => (checkedDays retentionDaysAfterMoveOut).map fun days =>
    some (newDate (movedOutOn.getTime + round days * MILLISECONDS_PER_DAY))

/-! ### A person -/

structure DataSubjectRequest where
  kind : String
  decision : Option String
  executedAt : Option Int
  closedAt : Option Int
  deriving DecidableEq, Repr

/-- A person with the rows of theirs that the purge reads. -/
structure PersonRow where
  id : String
  createdAt : Int
  /-- `movedOutOn` of each residency. -/
  residencies : List (Option DateColumn)
  /-- `endedOn` of each seat. -/
  boardPositions : List (Option DateColumn)
  systemRoles : List String
  pluginAccesses : List String
  /-- `releasedAt` of each hold. -/
  legalHolds : List (Option Int)
  processingRestrictedAt : Option Int
  emailCipher : Option String
  emailIndex : Option String
  phoneCipher : Option String
  phoneIndex : Option String
  preferredLocale : String
  userAccount : Option String
  invitations : List String
  dataSubjectRequests : List DataSubjectRequest
  deriving DecidableEq, Repr

inductive StandingTie where
  | boardPositionCurrent
  | systemRoleCurrent
  | pluginAccessCurrent
  deriving DecidableEq, Repr

/-- What a person's row has to answer for a standing tie. -/
structure StandingTieFacts where
  boardPositions : List (Option DateColumn)
  systemRoles : List String
  pluginAccesses : List String

/-- A seat or a residency that has not ended by an instant. -/
def endsAfter (instant : Option Instant) (endedOn : Option DateColumn) : Bool :=
  match endedOn with
  | none => true
  | some endedOn => isAfter endedOn.date instant

/-- The tie that keeps this person at this instant. -/
def standingTie (person : StandingTieFacts) (now : Instant) : Option StandingTie :=
  if person.boardPositions.any (endsAfter (some now)) then some .boardPositionCurrent
  else if 0 < person.systemRoles.length then some .systemRoleCurrent
  else if 0 < person.pluginAccesses.length then some .pluginAccessCurrent
  else none

/-- Whether a residency has ended by the association's day an instant falls on. -/
def hasMovedOut (zone : Zone) (movedOutOn : Option DateColumn) (now : Instant) : Bool :=
  match movedOutOn, dateColumnOf (fieldsAt zone now.time).1 with
  | some movedOutOn, some today => movedOutOn.getTime ≤ today.time
  | _, _ => false

/-! ### The date of a person's page -/

structure PersonPurgeFacts extends StandingTieFacts where
  residencies : List (Option DateColumn)
  /-- A legal hold stands, or a restriction of processing does. -/
  withheld : Bool

/-- The loop over the residencies: none as soon as one has not ended, and else the last move-out. -/
def lastMoveOut (zone : Zone) (now : Instant) :
    Option DateColumn → List (Option DateColumn) → Option (Option DateColumn)
  | last, [] => some last
  | _, none :: _ => none
  | last, some movedOutOn :: residencies =>
    if ¬hasMovedOut zone (some movedOutOn) now then none
    else match last with
      | none => lastMoveOut zone now (some movedOutOn) residencies
      | some latest =>
        if latest.getTime < movedOutOn.getTime then lastMoveOut zone now (some movedOutOn) residencies
        else lastMoveOut zone now (some latest) residencies

/-- The date the scheduled purge erases a person's service data. -/
def computePersonPurgeDate (zone : Zone) (person : PersonPurgeFacts)
    (retentionDaysAfterMoveOut : Option ℚ) (now : Instant) :
    Except RangeError (Option (Option Instant)) :=
  if person.withheld ∨ standingTie person.toStandingTieFacts now ≠ none ∨
      person.residencies.length = 0 then .ok none
  else match lastMoveOut zone now none person.residencies with
    | none => .ok none
    | some last => computePurgeDate last retentionDaysAfterMoveOut

/-! ### What refuses a purge -/

inductive PurgeRefusal where
  | processingRestricted
  | onLegalHold
  | tie (tie : StandingTie)
  | currentlyResident
  | noResidency
  | residencyWithinRetention
  deriving DecidableEq, Repr

structure PurgeRefusalFacts extends StandingTieFacts where
  residencies : List (Option DateColumn)
  /-- The holds that stand. -/
  legalHolds : List (Option Int)
  processingRestrictedAt : Option Int

/-- What refuses this person's purge. -/
def purgeRefusal (person : PurgeRefusalFacts) (now : Instant) (cutoff : Option Instant)
    (onRequest : Bool) : Option PurgeRefusal :=
  if person.processingRestrictedAt ≠ none then some .processingRestricted
  else if 0 < person.legalHolds.length then some .onLegalHold
  else match standingTie person.toStandingTieFacts now with
    | some tie => some (.tie tie)
    | none =>
      if person.residencies.length = 0 then if onRequest then none else some .noResidency
      else if person.residencies.any (endsAfter cutoff) then
        if onRequest then some .currentlyResident else some .residencyWithinRetention
      else none

/-! ### What each of them reads of a person -/

def PersonRow.tieFacts (person : PersonRow) : StandingTieFacts :=
  ⟨person.boardPositions, person.systemRoles, person.pluginAccesses⟩

/-- `legalHolds: { where: { releasedAt: null } }`. -/
def PersonRow.standingHolds (person : PersonRow) : List (Option Int) :=
  person.legalHolds.filter (· = none)

/-- As the person's page reads them. -/
def PersonRow.purgeFacts (person : PersonRow) : PersonPurgeFacts where
  toStandingTieFacts := person.tieFacts
  residencies := person.residencies
  withheld := 0 < person.standingHolds.length ∨ person.processingRestrictedAt ≠ none

/-- As the purge reads them, with the rows locked. -/
def PersonRow.refusalFacts (person : PersonRow) : PurgeRefusalFacts where
  toStandingTieFacts := person.tieFacts
  residencies := person.residencies
  legalHolds := person.standingHolds
  processingRestrictedAt := person.processingRestrictedAt

/-! ### The people of a run -/

section Run

variable (now : Instant)

/-- `holdsNoStandingTie`. -/
def holdsNoStandingTie (person : PersonRow) : Bool :=
  person.boardPositions.all (fun endedOn => !endsAfter (some now) endedOn) &&
  person.systemRoles.isEmpty && person.pluginAccesses.isEmpty

/-- `WITHHELD`. -/
def isWithheld (person : PersonRow) : Bool :=
  person.legalHolds.any (· = none) || person.processingRestrictedAt.isSome

/-- `GRANTED_ERASURE`. -/
def isGrantedErasure (request : DataSubjectRequest) : Bool :=
  request.kind = "ERASURE" && request.decision = some "GRANTED" && request.executedAt = none &&
    request.closedAt = none

/-- `nothingRefusesErasure`. -/
def nothingRefusesErasure (person : PersonRow) : Bool :=
  !isWithheld person && !person.residencies.any (endsAfter (some now)) &&
    holdsNoStandingTie now person

/-- `erasureRequestedPersonIds`. -/
def erasureRequestedPersonIds (persons : List PersonRow) : List String :=
  (persons.filter fun person =>
    person.dataSubjectRequests.any isGrantedErasure && nothingRefusesErasure now person).map (·.id)

/-- `withheldPersonIds`. -/
def withheldPersonIds (persons : List PersonRow) : List String :=
  (persons.filter isWithheld).map (·.id)

/-- `clearableStates`, any of them. -/
def isClearable (defaultLocale : String) (person : PersonRow) : Bool :=
  person.emailCipher.isSome || person.emailIndex.isSome || person.phoneCipher.isSome ||
    person.phoneIndex.isSome || person.preferredLocale ≠ defaultLocale ||
    person.userAccount.isSome || !person.invitations.isEmpty

/-- Whether anything of a person's is left to erase. -/
def hasSomethingToErase (defaultLocale : String) (referencedIds : List String)
    (person : PersonRow) : Bool :=
  isClearable defaultLocale person || referencedIds.contains person.id

/-- The conditions of the scan about the person, and not about what there is to erase. -/
def mayBePurged (cutoff : Option Instant) (person : PersonRow) : Bool :=
  !person.residencies.isEmpty && !person.residencies.any (endsAfter cutoff) &&
    holdsNoStandingTie now person && person.legalHolds.all (· ≠ none) &&
    person.processingRestrictedAt = none

def remainingRunBound (taken bound : ℕ) : ℕ := bound - taken

/-- `orderBy: [{ createdAt: "asc" }]`. -/
def byCreatedAt (persons : List PersonRow) : List PersonRow :=
  persons.insertionSort fun left right => left.createdAt ≤ right.createdAt

/-- Why a run selects nobody. -/
inductive EligibleError where
  | range (error : RangeError)
  /-- A query is not sent with an invalid date in it. -/
  | invalidDate
  deriving DecidableEq, Repr

/-- One turn of the loop that puts the two lists together. -/
def addPerson (withheld ids : List String) (person : PersonRow) : List String :=
  if withheld.contains person.id || ids.contains person.id then ids else ids ++ [person.id]

/-- Everybody whose service data may be erased now. -/
def eligible (persons : List PersonRow) (defaultLocale : String) (referencedIds : List String)
    (retentionDays : Option ℚ) (maxPersons : ℕ) : Except EligibleError (List String) :=
  match purgeCutoff now retentionDays with
  | .error error => .error (.range error)
  | .ok cutoff =>
    let requested := erasureRequestedPersonIds now persons
    let withheld := withheldPersonIds persons
    let onRequest := (byCreatedAt persons).filter fun person => requested.contains person.id
    let bound := remainingRunBound onRequest.length maxPersons
    if bound ≠ 0 ∧ cutoff = none then .error .invalidDate
    else
      let scanned := ((byCreatedAt persons).filter fun person =>
        mayBePurged now cutoff person && !requested.contains person.id &&
          hasSomethingToErase defaultLocale referencedIds person).take bound
      .ok ((onRequest ++ scanned).foldl (addPerson withheld) [])

end Run

end OpenBrf.Retention
