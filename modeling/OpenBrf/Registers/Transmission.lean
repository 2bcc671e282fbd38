import OpenBrf.Async.Rights
import OpenBrf.Shared.StockholmCalendar

/-!
# Registers.Transmission — sending one report (`register-transmission.service.ts`)

The store is what there is of one duty: its claim and its entries in the audit log, with the
hand-overs and the lettings go among them in the order they happen.  Every statement is its own
transaction, whose answer may be lost.  What is read of the register and rendered, and the adapter
behind the port, answer as they please; a signal is aborted no sooner than its deadline.  Times are
in milliseconds.
-/

namespace OpenBrf.Registers.Transmission

open Async Shared

def SUBMIT_DEADLINE_MS : Int := 60000

/-- A minute past the deadline. -/
def CLAIM_TTL_MS : Int := SUBMIT_DEADLINE_MS + 60000

/-- A row of `register_transmission_claim`. -/
structure ClaimRow where
  token : String
  expiresAt : Int
  deriving DecidableEq

/-- What happens to the duty.  An entry of a send carries the send's token. -/
inductive Event where
  /-- `REGISTER_REPORT_TRANSMITTED` -/
  | transmitted (token : String) (personIds : List String)
  /-- `PROTECTED_DATA_REVEALED` -/
  | revealed (token : String) (personIds : List String)
  /-- The report is handed to the port, by a send that began at `begun`. -/
  | handedOver (token : String) (begun handedOverAt : Int)
  /-- The adapter has answered, or its signal is aborted. -/
  | ended (token : String)
  /-- `REGISTER_REPORT_REJECTED` -/
  | rejected (token : String) (reasons : List String)
  /-- `REGISTER_REPORT_MADE`; one recorded by hand is no send's. -/
  | made (token : Option String) (reportedOn : LocalDay) (reference : String)
  /-- The send's claim is deleted where it still stands. -/
  | letGo (token : String)
  deriving DecidableEq

namespace Event

/-- The send an event is of. -/
def sender : Event → Option String
  | transmitted token _ | revealed token _ | handedOver token _ _ | ended token
  | rejected token _ | letGo token => some token
  | made token _ _ => token

def isHandOver : Event → Bool
  | handedOver _ _ _ => true
  | _ => false

def isMade : Event → Bool
  | made _ _ _ => true
  | _ => false

end Event

/-- What there is of one duty, the newest event first. -/
structure Duty where
  /-- The obligation's row is there. -/
  recorded : Bool
  triggeredOn : Option LocalDay
  claim : Option ClaimRow
  /-- The tokens drawn so far. -/
  drawn : List String
  log : List Event

namespace Duty

def push (d : Duty) (e : Event) : Duty := { d with log := e :: d.log }

@[simp] theorem push_log (d : Duty) (e : Event) : (d.push e).log = e :: d.log := rfl
@[simp] theorem push_claim (d : Duty) (e : Event) : (d.push e).claim = d.claim := rfl
@[simp] theorem push_drawn (d : Duty) (e : Event) : (d.push e).drawn = d.drawn := rfl

/-- The hand-overs that have neither been answered nor been aborted at their deadline. -/
def outstanding (d : Duty) (t : Int) : List Event :=
  d.log.filter fun e => match e with
    | .handedOver token begun _ => .ended token ∉ d.log ∧ t < begun + SUBMIT_DEADLINE_MS
    | _ => false

end Duty

/-- The report as it was rendered, or why it could not be. -/
inductive Rendering where
  | problem
  | report (personIds : List String)

/-- The adapter's answer, read: a throw and an answer that does not parse are one. -/
inductive PortAnswer where
  | received (receivedOn : LocalDay) (reference : String)
  | rejected (reasons : List String)
  | unreadable

/-- What the world outside answers. -/
structure World where
  token : String
  database : Delivery
  aborted : Bool
  rendering : Rendering
  port : PortAnswer

inductive TransmissionError where
  | transmissionNotAvailable
  | transmissionInProgress
  | transmissionOutcomeUnknown
  | obligationNotFound
  | reportAlreadyRecorded
  | reportProblem
  | database
  deriving DecidableEq

abbrev SendProg := Prog Duty World TransmissionError

variable {β : Type}

/-! ### The statements -/

/-- A statement in a transaction of its own, run where `enabled`. -/
def statement (enabled : Int → Prop) (f : Int → Duty → β × Duty) : SendProg β :=
  transacted enabled (·.database) .database f

/-- `randomUUID()`: no token is drawn twice. -/
def randomToken : SendProg String := do
  let world ← ask (fun _ d w => w.token ∉ d.drawn) fun _ d w =>
    { d with drawn := w.token :: d.drawn }
  pure world.token

/-- The signal of the preparation, aborted by a timer at the deadline. -/
def throwIfAborted (deadline : Int) : SendProg Unit := do
  let world ← ask (fun t _ w => w.aborted = true → deadline ≤ t) fun _ d _ => d
  if world.aborted then fail .transmissionOutcomeUnknown else pure ()

def record (enabled : Int → Prop) (e : Event) : SendProg Unit :=
  statement enabled fun _ d => ((), d.push e)

/-- Takes the claim, where there is none or it has expired.  `now` is the time the statement was
started at; the claim it leaves expires `CLAIM_TTL_MS` after that. -/
def take (token : String) (now : Int) : SendProg Unit := do
  let taken ← statement (fun _ => True) fun _ d =>
    match d.claim with
    | none => (true, { d with claim := some ⟨token, now + CLAIM_TTL_MS⟩ })
    | some row =>
      if row.expiresAt ≤ now then (true, { d with claim := some ⟨token, now + CLAIM_TTL_MS⟩ })
      else (false, d)
  if taken then pure () else fail .transmissionInProgress

/-- Deletes the claim that carries the token.  It never throws. -/
def release (token : String) : SendProg Unit := do
  let _ ← (statement (fun _ => True) fun _ d =>
    match d.claim with
    | none => ((), d.push (.letGo token))
    | some row =>
      if row.token = token then ((), { d with claim := none }.push (.letGo token))
      else ((), d.push (.letGo token))).catching

/-! ### A send -/

/-- A receipt's day is the send day or a day either side of it, and not before the window
opened. -/
def plausibleReceiptDay (zone : Zone) (receivedOn : LocalDay) (now : Int)
    (triggeredOn : Option LocalDay) : Bool :=
  localDayOf zone now - 1 ≤ receivedOn.number ∧ receivedOn.number ≤ localDayOf zone now + 1 ∧
    ∀ day ∈ triggeredOn, day.number ≤ receivedOn.number

/-- The steps before the claim. -/
def checkDuty (deadline : Int) : SendProg Unit := do
  let recorded ← statement (fun _ => True) fun _ d => (d.recorded, d)
  if recorded then throwIfAborted deadline else fail .obligationNotFound

/-- The entry that puts the disclosure on the access report of the person named. -/
def reveal (token : String) (deadline : Int) (personIds : List String) : SendProg Unit :=
  if personIds = [] then pure ()
  else do
    throwIfAborted deadline
    record (fun _ => True) (.revealed token personIds)

/-- The steps from the claim to the hand-over: the report, and the disclosure entries. -/
def prepareTaken (token : String) (deadline : Int) : SendProg (Option LocalDay) := do
  throwIfAborted deadline
  let reported ← statement (fun _ => True) fun _ d => (d.log.any Event.isMade, d)
  if reported then fail .reportAlreadyRecorded
  else
    let triggeredOn ← statement (fun _ => True) fun _ d => (d.triggeredOn, d)
    let world ← ask (fun _ _ _ => True) fun _ d _ => d
    match world.rendering with
    | .problem => fail .reportProblem
    | .report personIds =>
      throwIfAborted deadline
      record (fun _ => True) (.transmitted token personIds)
      reveal token deadline personIds
      -- the wait may have been given up meanwhile
      throwIfAborted deadline
      pure triggeredOn

/-- The time left is read and the report handed over in one turn. -/
def startSubmit (token : String) (begun : Int) : SendProg Unit := do
  let started ← atomic fun t d =>
    if begun + SUBMIT_DEADLINE_MS ≤ t then (false, d)
    else (true, d.push (.handedOver token begun t))
  if started then pure () else fail .transmissionOutcomeUnknown

/-- What the port answers, or nothing by the deadline. -/
def awaitAnswer (token : String) (deadline : Int) : SendProg PortAnswer := do
  let world ← ask (fun t _ w => w.aborted = true → deadline ≤ t) fun _ d _ => d.push (.ended token)
  if world.aborted then fail .transmissionOutcomeUnknown else pure world.port

/-- Hands the report over and records the answer, before `expiresAt`. -/
def handOver (zone : Zone) (token : String) (now begun expiresAt : Int)
    (triggeredOn : Option LocalDay) : SendProg Unit := do
  startSubmit token begun
  match ← awaitAnswer token (begun + SUBMIT_DEADLINE_MS) with
  | .unreadable => fail .transmissionOutcomeUnknown
  | .rejected reasons => record (fun t => t < expiresAt) (.rejected token reasons)
  | .received receivedOn reference =>
    if plausibleReceiptDay zone receivedOn now triggeredOn then
      record (fun t => t < expiresAt) (.made (some token) receivedOn reference)
    else fail .transmissionOutcomeUnknown

/-- One send.  A claim that was not taken is not let go. -/
def transmit (zone : Zone) (available : Bool) : SendProg Unit := do
  if available then
    let now ← clock
    let begun ← clock
    let token ← randomToken
    checkDuty (begun + SUBMIT_DEADLINE_MS)
    let takenAt ← clock
    take token takenAt
    match ← (prepareTaken token (begun + SUBMIT_DEADLINE_MS)).catching with
    | .error e =>
      release token
      fail e
    | .ok triggeredOn =>
      let answer ← (handOver zone token now begun (takenAt + CLAIM_TTL_MS) triggeredOn).catching
      release token
      match answer with
      | .error e => fail e
      | .ok _ => pure ()
  else fail .transmissionNotAvailable

def transmitCalls (zone : Zone) (p : SendProg Unit) : Prop := ∃ available, p = transmit zone available

end OpenBrf.Registers.Transmission
