import OpenBrf.Async.Rights

/-!
# BoardMailbox.Mailer — sending one reply (`board-mailbox-mailer.service.ts`, `mail.service.ts`)

Every statement commits by itself.  What the mail server is handed and what it accepts is kept
beside the row, and so is what the queue was told.  The settings, the mail configuration and the
transport answer as they please; log lines, the rendered texts and the number of retries are left
out.
-/

namespace OpenBrf.BoardMailbox

open Async

inductive BoardMailboxDeliveryStatus where
  | PENDING
  | SENT
  | FAILED
  deriving DecidableEq, Repr

/-- `REPLY_DELIVERY_FAILURES` -/
inductive ReplyDeliveryFailure where
  /-- `mail-not-configured` -/
  | mailNotConfigured
  /-- `send-failed`: the mail server refused the message. -/
  | refused
  /-- `reply-sending-interrupted`: given up on before it reached this reply. -/
  | interrupted
  /-- `reply-delivery-unconfirmed`: given up on after an attempt had claimed this reply. -/
  | unconfirmed
  deriving DecidableEq, Repr

/-- The row of the reply, with what is read of its thread. -/
structure ReplyRow where
  body : String
  messageId : Option String
  inReplyTo : Option String
  subject : String
  correspondentEmailCipher : String
  deliveryStatus : BoardMailboxDeliveryStatus
  deliveryFailure : Option ReplyDeliveryFailure
  sentAt : Option Int
  deriving DecidableEq

namespace ReplyRow

/-- The condition of the claim. -/
def unclaimed (row : ReplyRow) : Bool := row.deliveryStatus = .PENDING ∧ row.sentAt = none

/-- Claimed by an attempt that has not recorded its outcome. -/
def unsettled (row : ReplyRow) : Bool := row.deliveryStatus = .PENDING ∧ row.sentAt ≠ none

def failed (row : ReplyRow) (failure : ReplyDeliveryFailure) : ReplyRow :=
  { row with deliveryStatus := .FAILED, deliveryFailure := some failure, sentAt := none }

/-- Given up on before anybody claimed it. -/
def interrupted (row : ReplyRow) : ReplyRow :=
  { row with deliveryStatus := .FAILED, deliveryFailure := some .interrupted }

end ReplyRow

/-- A mail as it is handed over. -/
structure OutgoingMail where
  recipient : String
  subject : String
  body : String
  boardAddress : String
  replyTo : String
  messageId : Option String
  inReplyTo : Option String
  deriving DecidableEq

/-- The mail of a reply. -/
def replyMail (message : ReplyRow) (recipient boardAddress : String) : OutgoingMail where
  recipient := recipient
  subject := message.subject
  body := message.body
  boardAddress := boardAddress
  replyTo := boardAddress
  messageId := message.messageId
  inReplyTo := message.inReplyTo

/-- The identifier a message was delivered with, where the transport reports one. -/
abbrev SentMail := Option String

structure ReplyStore where
  row : Option ReplyRow
  /-- What the mail server was handed. -/
  handedOver : List OutgoingMail := []
  /-- What it accepted. -/
  accepted : List OutgoingMail := []
  /-- The handler has recorded that the reply never went out. -/
  interrupted : Bool := false
  /-- An attempt has completed the job. -/
  completed : Bool := false
  /-- The queue has given up, and its handler has run. -/
  givenUp : Bool := false

/-- What a read of the mailbox's settings gives: it may fail on the stored password. -/
inductive SettingsAnswer where
  | unreadable
  | unset
  | set (address : String)

/-- What a read of the mail configuration gives, the rendering of the message with it. -/
inductive MailConfiguration where
  | unreadable
  | missing
  | present

/-- What the world outside answers. -/
structure World where
  settings : SettingsAnswer
  configuration : MailConfiguration
  /-- The mail server accepts the message. -/
  accepted : Bool
  /-- What the transport reports of it, where it does not fail. -/
  answer : Option SentMail

/-- A mail driver with the server behind it: what it may report of a message the server accepted
or did not.  It resolves when the message has been accepted. -/
structure MailDriver where
  answers : OutgoingMail → Bool → Option SentMail → Prop
  resolves : ∀ {mail accepted sent}, answers mail accepted (some sent) → accepted = true

/-- What an instance is set up with. -/
structure Instance where
  /-- `NODE_ENV` is `production`. -/
  production : Bool
  /-- The address behind a cipher, where it can be read. -/
  decrypt : String → Option String
  driver : MailDriver

/-- What a program here fails with. -/
inductive MailerError where
  | mailNotConfigured
  /-- Any other failure of reading, rendering or sending. -/
  | failed
  | recordNotFound
  | unsettledClaim
  deriving DecidableEq

inductive SendOutcome where
  | sent
  | failed
  | skipped
  deriving DecidableEq, Repr

abbrev MailerProg := Prog ReplyStore World MailerError

variable (inst : Instance)

/-! ### The mail service -/

/-- `driver.send`: the message is handed over, and then the transport reports. -/
def driverSend (mail : OutgoingMail) : MailerProg SentMail := do
  update fun s => { s with handedOver := mail :: s.handedOver }
  let world ← ask (fun _ _ w => inst.driver.answers mail w.accepted w.answer) fun _ s w =>
    if w.accepted then { s with accepted := mail :: s.accepted } else s
  match world.answer with
  | some sent => pure sent
  | none => fail .failed

/-- `MailService.send`: on a developer's machine with no mail configured nothing is handed over. -/
def mailSend (mail : OutgoingMail) : MailerProg SentMail := do
  let world ← ask (fun _ _ _ => True) fun _ s _ => s
  match world.configuration with
  | .unreadable => fail .failed
  | .missing => if inst.production then fail .mailNotConfigured else pure none
  | .present => driverSend inst mail

/-! ### The row -/

/-- `updateMany`: writes the row where it matches, and says whether it did. -/
def updateMany (matched : ReplyRow → Bool) (data : Int → ReplyRow → ReplyRow) :
    MailerProg Bool :=
  atomic fun t s =>
    match s.row with
    | none => (false, s)
    | some row =>
      if matched row then (true, { s with row := some (data t row) }) else (false, s)

/-- `update` by the identifier, which fails where the row is gone. -/
def updateRow (data : ReplyRow → ReplyRow) : MailerProg Unit := do
  let found ← updateMany (fun _ => true) fun _ => data
  if found then pure () else Async.fail .recordNotFound

def claim : MailerProg Bool :=
  updateMany ReplyRow.unclaimed fun t row => { row with sentAt := some t }

def refuseUnsettledClaim : MailerProg Unit := do
  let s ← look
  if s.row.any ReplyRow.unsettled then Async.fail .unsettledClaim else pure ()

def fail (failure : ReplyDeliveryFailure) : MailerProg Unit :=
  updateRow fun row => row.failed failure

/-- The record of the handover, with the identifier the answer was delivered with where that is
not the one it was given. -/
def recordSent (message : ReplyRow) (delivered : SentMail) : MailerProg Unit :=
  updateRow fun row =>
    if delivered ≠ none ∧ delivered ≠ message.messageId then
      { row with deliveryStatus := .SENT, messageId := delivered }
    else { row with deliveryStatus := .SENT }

/-! ### The job -/

def loadBoardMailboxSettings : MailerProg (Option String) := do
  let world ← ask (fun _ _ _ => True) fun _ s _ => s
  match world.settings with
  | .unreadable => Async.fail .failed
  | .unset => pure none
  | .set address => pure (some address)

/-- The address is read as the worker reaches the row. -/
def handOver (message : ReplyRow) (address : String) : MailerProg SentMail :=
  match inst.decrypt message.correspondentEmailCipher with
  | none => Async.fail .failed
  | some recipient => mailSend inst (replyMail message recipient address)

/-- What is recorded of a handover that failed. -/
def failureOf (e : MailerError) : ReplyDeliveryFailure :=
  if e = .mailNotConfigured then .mailNotConfigured else .refused

/-- What follows the claim. -/
def sendClaimed (message : ReplyRow) : MailerProg SendOutcome := do
  match ← loadBoardMailboxSettings with
  | none =>
    fail .mailNotConfigured
    pure .failed
  | some address =>
    match ← (handOver inst message address).catching with
    | .error e =>
      fail (failureOf e)
      pure .failed
    | .ok delivered =>
      recordSent message delivered
      pure .sent

def sendReply : MailerProg SendOutcome := do
  let s ← look
  match s.row with
  | none => pure .skipped
  | some message =>
    if ← claim then sendClaimed inst message
    else
      refuseUnsettledClaim
      pure .skipped

/-- Neither statement reads first: a claim committed between them is seen by the second. -/
def recordAbandoned : MailerProg Unit := do
  atomic fun _ s =>
    match s.row with
    | none => ((), s)
    | some row =>
      if row.unclaimed then ((), { s with row := some row.interrupted, interrupted := true })
      else ((), s)
  let _ ← updateMany ReplyRow.unsettled fun _ row => row.failed .unconfirmed

/-- One attempt of the job: the queue is told of one that did not fail. -/
def replyJob : MailerProg Unit := do
  let _ ← sendReply inst
  update fun s => { s with completed := true }

/-- The dead letter. -/
def abandonedJob : MailerProg Unit := do
  recordAbandoned
  update fun s => { s with givenUp := true }

/-- The thread is erased, and its messages with it. -/
def purgeReply : MailerProg Unit := update fun s => { s with row := none }

/-- What may be started, any number of times and beside each other. -/
def mailerCalls (p : MailerProg Unit) : Prop :=
  p = replyJob inst ∨ p = abandonedJob ∨ p = purgeReply

end OpenBrf.BoardMailbox
