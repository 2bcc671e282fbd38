import OpenBrf.Lang
import OpenBrf.Shared.StockholmCalendar
import OpenBrf.Txn.Program

/-!
# Roles.BoardPositions — positions of trust (`board-position.service.ts`, `role-changes.ts`)

A date column holds a day.  The audit log is what is kept of an act; an entry carries the clock its
request was judged by.  Views and log lines are left out.
-/

namespace OpenBrf.Roles

open Txn Lang Shared

inductive BoardPositionType where
  | CHAIR
  | BOARD_MEMBER
  | DEPUTY_BOARD_MEMBER
  deriving DecidableEq, Repr

structure BoardPosition where
  id : String
  personId : String
  position : BoardPositionType
  electedOn : Int
  endedOn : Option Int
  deriving DecidableEq, Repr

/-- An entry of the audit log, with the clock its request was judged by. -/
inductive BoardEntry where
  /-- `BOARD_POSITION_ELECTED` -/
  | elected (judgedAt : Int) (actorPersonId : String) (seat : BoardPosition)
  /-- `BOARD_RECOVERY_RECORDED`, of all the seats of one recovery. -/
  | recovered (judgedAt : Int) (actorPersonId : String) (seats : List BoardPosition)
      (reason : String)
  /-- `BOARD_POSITION_ENDED`: the seat as it was, and the date written. -/
  | ended (judgedAt : Int) (actorPersonId : String) (seat : BoardPosition) (endedOn : Int)
  deriving DecidableEq, Repr

structure BoardStore where
  personIds : List String := []
  positions : List BoardPosition := []
  /-- The newest entry first. -/
  log : List BoardEntry := []
  deriving DecidableEq

/-- The advisory keys, and rows of the table. -/
inductive BoardLock where
  /-- `board-register` -/
  | register
  /-- `board-position:{personId}` -/
  | positions (personId : String)
  | row (id : String)
  deriving DecidableEq, Repr

inductive RoleChangeReason where
  | dateNotACalendarDate
  | electedTooFarAhead
  | electedTooFarBack
  | recoveryDatedAhead
  | reasonRequired
  | boardSeatRequired
  | boardNotVacant
  | personNotFound
  | positionAlreadyHeld
  | termOverlaps
  | boardPositionNotFound
  | termAlreadyEnded
  | endedBeforeElected
  | endedTooFarAhead
  deriving DecidableEq, Repr

inductive RoleFailure where
  | roleChange (message : String) (reason : RoleChangeReason)
  | uniqueKey
  deriving DecidableEq, Repr

abbrev RoleTx (α : Type) := Prog BoardStore BoardLock String RoleFailure α

def refuse {α : Type} (message : String) (reason : RoleChangeReason) : RoleTx α :=
  fail (.roleChange message reason)

variable (zone : Zone)

/-! ### The rules -/

/-- Whether a term has ended by the association's day an instant falls on.  One ended before it
began covers no day, whatever the day. -/
def hasTermEnded (electedOn : Int) (endedOn : Option Int) (now : Int) : Bool :=
  match endedOn with
  | none => false
  | some ended => ended ≤ electedOn || ended ≤ localDayOf zone now

def TERM_HORIZON_YEARS : Int := 5

def ELECTION_HORIZON_YEARS : Int := 1

def ELECTION_HISTORY_YEARS : Int := TERM_HORIZON_YEARS

/-- The date of an instant, as UTC has it. -/
def utcDateOf (now : Int) : LocalDay := .ofNumber (now / MILLISECONDS_PER_DAY)

/-- The same date of another year, or the last of its month. -/
def yearsAhead (now years : Int) : Int :=
  let date := utcDateOf now
  let year := date.year + years
  (⟨year, date.month, min date.day (daysInMonth year date.month)⟩ : LocalDay).number

def earliestElection (now : Int) : Int := yearsAhead now (-ELECTION_HISTORY_YEARS)

def latestTermEnd (now : Int) : Int := yearsAhead now TERM_HORIZON_YEARS

def latestElection (now : Int) : Int := yearsAhead now ELECTION_HORIZON_YEARS

/-- Whether a seat can be recorded as ending on a date, or why not. -/
def refuseTermEnd (electedOn : Int) (currentEndedOn : Option Int) (endedOn now : Int) :
    Option RoleChangeReason :=
  if hasTermEnded zone electedOn currentEndedOn now then some .termAlreadyEnded
  else if electedOn ≤ localDayOf zone now ∧ endedOn < electedOn then some .endedBeforeElected
  else if latestTermEnd now < endedOn then some .endedTooFarAhead
  else none

/-- `TERM_END_MESSAGE` -/
def termEndMessage : RoleChangeReason → String
  | .endedBeforeElected => "A term cannot end before the election that began it."
  | .endedTooFarAhead =>
    "A term cannot be recorded as running that far into the future. Check the year."
  | _ => "That term has already ended. Its dates are the record of a period that has run and " ++
    "they stand."

/-- Whether a new election overlaps a term already recorded. -/
def overlapsRecordedTerm (seats : List BoardPosition) (electedOn : Int) : Bool :=
  seats.any fun seat => match seat.endedOn with
    | none => true
    | some ended => decide (seat.electedOn < ended) && decide (electedOn < ended)

/-- `isBoardSeatHeldOn` -/
def BoardPosition.heldOn (seat : BoardPosition) (day : Int) : Bool :=
  seat.electedOn ≤ day && seat.endedOn.all fun ended => day < ended

/-- `boardSeatNotEndedOn` -/
def BoardPosition.notEndedOn (seat : BoardPosition) (day : Int) : Bool :=
  seat.endedOn.all fun ended => day < ended

/-- Whether somebody holds a seat on the day of the clock. -/
def holdsBoardSeat (s : BoardStore) (personId : String) (now : Int) : Bool :=
  s.positions.any fun seat => decide (seat.personId = personId) && seat.heldOn (localDayOf zone now)

/-- No seat is held on the day of the clock and none is recorded from a day still to come. -/
def isRegisterVacant (s : BoardStore) (now : Int) : Bool :=
  (s.positions.filter (·.notEndedOn (localDayOf zone now))).all fun seat =>
    hasTermEnded zone seat.electedOn seat.endedOn now

/-! ### What is stated -/

def parseCalendarDate (value : String) : RoleTx Int :=
  match parseLocalDay value with
  | none => refuse "That is not a calendar date." .dateNotACalendarDate
  | some day => pure day.number

def parseElectionDate (value : String) (now : Int) : RoleTx Int := do
  let electedOn ← parseCalendarDate value
  refuseIf (latestElection now < electedOn) <| .roleChange
    "An election cannot be dated that far into the future. Check the year." .electedTooFarAhead
  refuseIf (electedOn < earliestElection now) <| .roleChange
    "An election cannot be dated that far back. Check the year." .electedTooFarBack
  pure electedOn

def parseRecoveredElectionDate (value : String) (now : Int) : RoleTx Int := do
  let electedOn ← parseElectionDate value now
  refuseIf (localDayOf zone now < electedOn) <| .roleChange
    "A recovered seat cannot be dated after today. Record the day the meeting elected the board."
    .recoveryDatedAhead
  pure electedOn

/-! ### The register -/

def ownSeatMessage : String :=
  "A seat on the board is recorded by the board, not by the person it seats."

def lockBoardRegister : RoleTx Unit := acquire .register .exclusive

def lockBoardPositions (personId : String) : RoleTx Unit := acquire (.positions personId) .exclusive

def refuseUnseatedActor (actorPersonId targetPersonId : String) (now : Int) : RoleTx Unit := do
  let s ← snapshot
  if holdsBoardSeat zone s actorPersonId now then pure ()
  else if actorPersonId = targetPersonId then refuse ownSeatMessage .boardSeatRequired
  else refuse ("Only a board member records the board's seats. A register with no board is " ++
    "recorded through a board recovery.") .boardSeatRequired

/-- A seat as it is stated. -/
structure Seat where
  personId : String
  position : BoardPositionType
  electedOn : Int
  deriving DecidableEq, Repr

/-- The terms recorded of one person in one position. -/
def termsOf (s : BoardStore) (personId : String) (position : BoardPositionType) :
    List BoardPosition :=
  s.positions.filter fun seat => seat.personId = personId ∧ seat.position = position

/-- Writes one seat, after the refusals every election meets. -/
def recordSeat (seat : Seat) (now : Int) : RoleTx BoardPosition := do
  let s ← snapshot
  refuseIf (seat.personId ∉ s.personIds) <| .roleChange "No such person." .personNotFound
  let s ← snapshot
  let held := termsOf s seat.personId seat.position
  refuseIf (held.any fun existing => !hasTermEnded zone existing.electedOn existing.endedOn now) <|
    .roleChange ("This person already holds that position. End the term before recording a new " ++
      "election to it.") .positionAlreadyHeld
  refuseIf (overlapsRecordedTerm held seat.electedOn) <|
    .roleChange "An earlier term in that position runs past this election date." .termOverlaps
  let id ← fresh
  let s ← snapshot
  refuseIf (∃ row ∈ s.positions, row.id = id) .uniqueKey
  let created : BoardPosition := ⟨id, seat.personId, seat.position, seat.electedOn, none⟩
  update fun s => { s with positions := created :: s.positions }
  pure created

/-- One at a time, so a seat listed twice meets the first. -/
def recordSeats (now : Int) : List Seat → RoleTx (List BoardPosition)
  | [] => pure []
  | seat :: rest => do
    let created ← recordSeat zone seat now
    let others ← recordSeats now rest
    pure (created :: others)

def BoardStore.record (s : BoardStore) (entry : BoardEntry) : BoardStore :=
  { s with log := entry :: s.log }

/-! ### The operations -/

structure ElectInput where
  personId : String
  position : BoardPositionType
  electedOn : String
  actorPersonId : String
  deriving Repr

def electTx (input : ElectInput) (electedOn now : Int) : RoleTx BoardPosition := do
  lockBoardRegister
  lockBoardPositions input.personId
  refuseUnseatedActor zone input.actorPersonId input.personId now
  let created ← recordSeat zone ⟨input.personId, input.position, electedOn⟩ now
  update (·.record (.elected now input.actorPersonId created))
  pure created

def elect (input : ElectInput) : RoleTx BoardPosition := do
  let now ← readClock
  let electedOn ← parseElectionDate input.electedOn now
  transaction (electTx zone input electedOn now)

structure StatedSeat where
  personId : String
  position : BoardPositionType
  electedOn : String
  deriving Repr

structure RecoverBoardInput where
  seats : List StatedSeat
  reason : String
  actorPersonId : String
  deriving Repr

def parseSeats (now : Int) : List StatedSeat → RoleTx (List Seat)
  | [] => pure []
  | seat :: rest => do
    let electedOn ← parseRecoveredElectionDate zone seat.electedOn now
    let others ← parseSeats now rest
    pure (⟨seat.personId, seat.position, electedOn⟩ :: others)

/-- `[...new Set(ids)].sort()` -/
def sortedPersonIds (seats : List Seat) : List String :=
  ((seats.map (·.personId)).dedup).mergeSort

def recoverTx (input : RecoverBoardInput) (seats : List Seat) (now : Int) :
    RoleTx (List BoardPosition) := do
  lockBoardRegister
  (sortedPersonIds seats).forM lockBoardPositions
  let s ← snapshot
  refuseIf (isRegisterVacant zone s now = false) <| .roleChange
    "A board is recorded on the register. Only a board member records its seats." .boardNotVacant
  let created ← recordSeats zone now seats
  update (·.record (.recovered now input.actorPersonId created (trim input.reason)))
  pure created

def recoverBoard (input : RecoverBoardInput) : RoleTx (List BoardPosition) := do
  let now ← readClock
  refuseIf (trim input.reason = "") <|
    .roleChange "A board recovery needs a stated reason." .reasonRequired
  refuseIf (∃ seat ∈ input.seats, seat.personId = input.actorPersonId) <|
    .roleChange ownSeatMessage .boardSeatRequired
  let seats ← parseSeats zone now input.seats
  transaction (recoverTx zone input seats now)

structure EndTermInput where
  boardPositionId : String
  endedOn : String
  actorPersonId : String
  deriving Repr

/-- Writes the end date where the seat still carries the date that was read. -/
def writeTermEnd (existing : BoardPosition) (endedOn : Int) : RoleTx Unit := do
  let written ← updateRow (.row existing.id)
    (fun s => s.positions.any fun row =>
      decide (row.id = existing.id) && decide (row.endedOn = existing.endedOn))
    fun s => { s with positions := s.positions.map fun row =>
      if row.id = existing.id then { row with endedOn := some endedOn } else row }
  refuseIf (written = false) (.roleChange (termEndMessage .termAlreadyEnded) .termAlreadyEnded)

/-- The seat is read before the locks are waited for. -/
def endTermTx (input : EndTermInput) (endedOn now : Int) : RoleTx BoardPosition := do
  let s ← snapshot
  match s.positions.find? (·.id = input.boardPositionId) with
  | none => refuse "No such position of trust." .boardPositionNotFound
  | some existing =>
    lockBoardRegister
    lockBoardPositions existing.personId
    refuseUnseatedActor zone input.actorPersonId existing.personId now
    match refuseTermEnd zone existing.electedOn existing.endedOn endedOn now with
    | some refusal => refuse (termEndMessage refusal) refusal
    | none =>
      writeTermEnd existing endedOn
      update (·.record (.ended now input.actorPersonId existing endedOn))
      pure { existing with endedOn := some endedOn }

def endTerm (input : EndTermInput) : RoleTx BoardPosition := do
  let now ← readClock
  let endedOn ← parseCalendarDate input.endedOn
  transaction (endTermTx zone input endedOn now)

end OpenBrf.Roles
