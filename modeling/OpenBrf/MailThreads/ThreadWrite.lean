import Mathlib.Data.List.Dedup
import OpenBrf.Lang
import OpenBrf.Shared.StockholmCalendar
import OpenBrf.Txn.Program

/-!
# MailThreads.ThreadWrite — what is done to the board's correspondence

The writers of a thread: the collection storing a letter (`board-mailbox-collector.service.ts`), a
board member taking, releasing, answering and closing it (`board-mailbox.service.ts`), and the purge
(`board-mailbox-purge.service.ts`).  A row is created with an identifier and a reading of the clock
of the process that writes it, both drawn.  The log stands for the audit log; that of a letter is
the letter as it was read.
-/

namespace OpenBrf.MailThreads

open Txn Lang

inductive BoardMailboxThreadStatus where
  | NEW
  | TAKEN
  | ANSWERED
  | CLOSED
  deriving DecidableEq, Repr

inductive BoardMailboxMessageDirection where
  | INBOUND
  | OUTBOUND
  deriving DecidableEq, Repr

structure BoardMailboxThread where
  id : String
  subject : String
  /-- What `correspondentEmailCipher` holds. -/
  correspondentEmail : String
  correspondentEmailIndex : Option String
  correspondentPersonId : Option String
  status : BoardMailboxThreadStatus
  takenByPersonId : Option String
  takenAt : Option Int
  closedAt : Option Int
  closedByPersonId : Option String
  lastMessageAt : Int
  deriving DecidableEq, Repr

structure BoardMailboxMessage where
  id : String
  threadId : String
  direction : BoardMailboxMessageDirection
  messageId : Option String
  inReplyTo : Option String
  body : String
  sentByPersonId : Option String
  occurredAt : Int
  createdAt : Int
  deriving DecidableEq, Repr

/-- A letter as it was read from the mailbox. -/
structure Letter where
  messageId : Option String
  inReplyTo : Option String
  fromAddress : Option String
  subject : String
  text : String
  date : Option Int
  receivedAt : Option Int
  deriving DecidableEq, Repr

/-- What the act that is committed left on record. -/
inductive ThreadEntry where
  | collected (threadId : String) (letter : Letter)
  /-- `BOARD_MAILBOX_THREAD_TAKEN` -/
  | taken (threadId : String) (actorPersonId : String)
  /-- `BOARD_MAILBOX_THREAD_RELEASED` -/
  | released (threadId : String) (actorPersonId : String)
  /-- `BOARD_MAILBOX_REPLY_SENT`, and what the clock read for the thread. -/
  | replied (threadId : String) (actorPersonId : String) (now : Int)
  /-- `BOARD_MAILBOX_THREAD_CLOSED` -/
  | closed (threadId : String) (actorPersonId : String)
  /-- `BOARD_MAILBOX_THREAD_REOPENED` -/
  | reopened (threadId : String) (actorPersonId : String)
  /-- `SERVICE_DATA_PURGED`, when the run began and the window it ran with. -/
  | purged (threadId : String) (requested : Bool) (now : Int) (retentionDays : ℕ)
  deriving DecidableEq, Repr

structure ThreadStore where
  threads : List BoardMailboxThread := []
  /-- The newest row first. -/
  messages : List BoardMailboxMessage := []
  /-- The identifiers of the threads that have been erased. -/
  retired : List String := []
  /-- The newest entry first. -/
  log : List ThreadEntry := []
  deriving DecidableEq

inductive ThreadLock where
  | thread (id : String)
  | legalHoldRegistry
  | erasureEligibility (personId : String)
  deriving DecidableEq, Repr

inductive ThreadFailure where
  | threadNotFound
  | threadClosed
  | emptyReply
  | mailboxNotConfigured
  | uniqueKey
  | recordNotFound
  deriving DecidableEq, Repr

/-- What the database and the process give a row. -/
structure Drawn where
  id : String
  createdAt : Int

abbrev ThreadTx (α : Type) := Prog ThreadStore ThreadLock Drawn ThreadFailure α

/-- What an address is indexed by: `String.prototype.toLowerCase` and the keyed, truncated hash. -/
structure AddressRules where
  toLowerCase : String → String
  blindIndex : String → String

def normalizeEmail (rules : AddressRules) (input : String) : String := rules.toLowerCase (trim input)

/-- `boardMailboxThread.correspondentEmail`, as it is indexed. -/
def emailIndex (rules : AddressRules) (address : String) : Option String :=
  if normalizeEmail rules address = "" then none
  else some (rules.blindIndex (normalizeEmail rules address))

namespace ThreadStore

def record (s : ThreadStore) (entry : ThreadEntry) : ThreadStore :=
  { s with log := entry :: s.log }

def findThread (s : ThreadStore) (id : String) : Option BoardMailboxThread :=
  s.threads.find? fun thread => thread.id = id

/-- The rows on a thread, the one written last first. -/
def messagesOn (s : ThreadStore) (threadId : String) : List BoardMailboxMessage :=
  s.messages.filter fun message => message.threadId = threadId

/-- Writes over the thread that has an identifier. -/
def writeThread (s : ThreadStore) (id : String) (f : BoardMailboxThread → BoardMailboxThread) :
    ThreadStore :=
  { s with threads := s.threads.map fun thread => if thread.id = id then f thread else thread }

def addMessage (s : ThreadStore) (message : BoardMailboxMessage) : ThreadStore :=
  { s with messages := message :: s.messages }

end ThreadStore

open ThreadStore

/-- `orderBy` and `take: 1`: the first of the rows that none comes before. -/
def firstBy {α : Type} (before : α → α → Bool) (rows : List α) : Option α :=
  rows.foldl (fun first row => match first with
    | none => some row
    | some found => if before row found then some row else some found) none

/-! ### Dates -/

def MAX_CLOCK_SKEW_MS : Int := 24 * 60 * 60 * 1000

/-- `Date.UTC(1990, 0, 1)` -/
def EARLIEST_PLAUSIBLE : Int := 631152000000

def BOARD_MAILBOX_RETENTION_DAYS : ℕ := 730

/-- The sender's date where it is believed. -/
def believedDate (claimed : Option Int) (now : Int) : Option Int :=
  claimed.filter fun date => ¬ (date - now > MAX_CLOCK_SKEW_MS ∨ date < EARLIEST_PLAUSIBLE)

/-- When a message happened, as far as it is believed. -/
def trustedDate (claimed received : Option Int) (now : Int) : Int :=
  match believedDate received now, believedDate claimed now with
  | none, written => written.getD now
  | some receipt, none => receipt
  | some receipt, some written =>
    if (written - receipt).natAbs > MAX_CLOCK_SKEW_MS then receipt else written

/-- The latest last-message time whose purge date has arrived. -/
def boardMailboxPurgeCutoff (now : Int) (retentionDays : ℕ) : Int :=
  now - retentionDays * Shared.MILLISECONDS_PER_DAY

/-! ### A letter -/

def MAX_SUBJECT_CHARACTERS : ℕ := 300

/-- The beginning of a text, of so many characters at most. -/
def slice (text : String) (length : ℕ) : String := String.ofList (takeUnits length text.toList)

/-- A conversation that was over is open again, with whoever had it. -/
def BoardMailboxThread.statusAfterLetter (thread : BoardMailboxThread) :
    BoardMailboxThreadStatus :=
  if thread.status = .ANSWERED ∨ thread.status = .CLOSED then
    if thread.takenByPersonId = none then .NEW else .TAKEN
  else thread.status

/-- The row a follow-up leaves. -/
def BoardMailboxThread.followedUp (status : BoardMailboxThreadStatus) (row : BoardMailboxThread) :
    BoardMailboxThread :=
  { row with status, closedAt := none, closedByPersonId := none }

/-- The anchor moves forward only. -/
def BoardMailboxThread.movedForward (occurredAt : Int) (row : BoardMailboxThread) :
    BoardMailboxThread :=
  if row.lastMessageAt < occurredAt then { row with lastMessageAt := occurredAt } else row

/-- The thread a letter answers: that of one of the board's answers, to the same address. -/
def answeredThread (s : ThreadStore) (inReplyTo index : String) : Option String :=
  (firstBy (fun a b => decide (b.occurredAt < a.occurredAt)) (s.messages.filter fun message =>
    message.messageId = some inReplyTo ∧ message.direction = .OUTBOUND ∧
      ∃ thread ∈ s.threads, thread.id = message.threadId ∧
        thread.correspondentEmailIndex = some index)).map (·.threadId)

/-- A letter joins a thread, where it is still there once it is locked. -/
def joinThread (threadId : String) (occurredAt : Int) : ThreadTx Bool := do
  acquire (.thread threadId) .exclusive
  let s ← snapshot
  match findThread s threadId with
  | none => pure false
  | some thread => do
    update fun s => s.writeThread threadId (·.followedUp thread.statusAfterLetter)
    update fun s => s.writeThread threadId (·.movedForward occurredAt)
    pure true

/-- The thread a letter opens. -/
def Letter.thread (rules : AddressRules) (letter : Letter) (address : String)
    (correspondentPersonId : Option String) (occurredAt : Int) (id : String) :
    BoardMailboxThread where
  id := id
  subject := slice letter.subject MAX_SUBJECT_CHARACTERS
  correspondentEmail := address
  correspondentEmailIndex := emailIndex rules address
  correspondentPersonId := correspondentPersonId
  status := .NEW
  takenByPersonId := none
  takenAt := none
  closedAt := none
  closedByPersonId := none
  lastMessageAt := occurredAt

section Letters

variable (rules : AddressRules)

def openThread (letter : Letter) (address : String) (correspondentPersonId : Option String)
    (occurredAt : Int) : ThreadTx String := do
  let drawn ← fresh
  acquire (.thread drawn.id) .exclusive
  let s ← snapshot
  refuseIf (drawn.id ∈ s.threads.map (·.id) ∨ drawn.id ∈ s.retired) .uniqueKey
  let created := letter.thread rules address correspondentPersonId occurredAt drawn.id
  update fun s => { s with threads := created :: s.threads }
  pure drawn.id

/-- Which person in the register the address identifies is an answer of the register's. -/
def threadFor (letter : Letter) (address : String) (correspondentPersonId : Option String)
    (occurredAt : Int) : ThreadTx String :=
  match letter.inReplyTo, emailIndex rules address with
  | some inReplyTo, some index => do
    let s ← snapshot
    match answeredThread s inReplyTo index with
    | none => openThread rules letter address correspondentPersonId occurredAt
    | some threadId => do
      let joined ← joinThread threadId occurredAt
      if joined then pure threadId
      else openThread rules letter address correspondentPersonId occurredAt
  | _, _ => openThread rules letter address correspondentPersonId occurredAt

def storeLetter (letter : Letter) (address : String) (correspondentPersonId : Option String)
    (occurredAt : Int) : ThreadTx Unit := do
  let threadId ← threadFor rules letter address correspondentPersonId occurredAt
  let drawn ← fresh
  let message : BoardMailboxMessage := ⟨drawn.id, threadId, .INBOUND, letter.messageId,
    letter.inReplyTo, letter.text, none, occurredAt, drawn.createdAt⟩
  update (·.addMessage message)
  update (·.record (.collected threadId letter))

/-- `collectOne`, of a letter that is no answer of the board's own: one with no sender is left, and
so is one past its retention that nobody withholds. -/
def collectOne (letter : Letter) (withheld : Bool) (correspondentPersonId : Option String) :
    ThreadTx Unit := do
  let now ← readClock
  let occurredAt := trustedDate letter.date letter.receivedAt now
  match letter.fromAddress with
  | none => pure ()
  | some address =>
    if occurredAt ≤ boardMailboxPurgeCutoff now BOARD_MAILBOX_RETENTION_DAYS ∧ withheld = false
    then pure ()
    else transaction (storeLetter rules letter address correspondentPersonId occurredAt)

end Letters

/-! ### What a board member does -/

/-- The row that an act decides on, locked before it is read. -/
def lockedThread (threadId : String) : ThreadTx BoardMailboxThread := do
  acquire (.thread threadId) .exclusive
  let s ← snapshot
  match findThread s threadId with
  | none => fail .threadNotFound
  | some thread => pure thread

/-- The row after it was taken, as decided on the row that was read. -/
def BoardMailboxThread.takenOver (thread : BoardMailboxThread) (personId : String) (now : Int)
    (row : BoardMailboxThread) : BoardMailboxThread := { row with
  takenByPersonId := some personId
  takenAt := some now
  status := if thread.status = .CLOSED ∨ thread.status = .NEW then .TAKEN else thread.status
  closedAt := if thread.status = .CLOSED then none else row.closedAt
  closedByPersonId := if thread.status = .CLOSED then none else row.closedByPersonId }

def take (threadId personId : String) : ThreadTx Unit := transaction do
  let thread ← lockedThread threadId
  let now ← readClock
  update fun s => s.writeThread threadId (thread.takenOver personId now)
  update (·.record (.taken threadId personId))

def BoardMailboxThread.putBack (thread : BoardMailboxThread) (row : BoardMailboxThread) :
    BoardMailboxThread := { row with
  takenByPersonId := none
  takenAt := none
  status := if thread.status = .TAKEN then .NEW else thread.status }

def release (threadId personId : String) : ThreadTx Unit := transaction do
  let thread ← lockedThread threadId
  update fun s => s.writeThread threadId thread.putBack
  update (·.record (.released threadId personId))

def MAX_REPLY_CHARACTERS : ℕ := 20000

/-- The letter that an answer answers. -/
def newestLetter (s : ThreadStore) (threadId : String) : Option String :=
  (firstBy (fun a b => decide (b.occurredAt < a.occurredAt)) ((s.messagesOn threadId).filter
    fun message => message.direction = .INBOUND ∧ message.messageId ≠ none)).bind (·.messageId)

def BoardMailboxThread.answered (thread : BoardMailboxThread) (personId : String)
    (lastMessageAt takenAt : Int) (row : BoardMailboxThread) : BoardMailboxThread := { row with
  status := .ANSWERED
  lastMessageAt := lastMessageAt
  takenByPersonId := some (thread.takenByPersonId.getD personId)
  takenAt := if thread.takenByPersonId = none then some takenAt else row.takenAt }

/-- `newMessageId` draws the identifier of the answer. -/
def replyTx (threadId personId text : String) : ThreadTx Unit := do
  let thread ← lockedThread threadId
  let s ← snapshot
  refuseIf (thread.status = .CLOSED) .threadClosed
  let minted ← fresh
  let drawn ← fresh
  let occurredAt ← readClock
  let message : BoardMailboxMessage := ⟨drawn.id, threadId, .OUTBOUND, some minted.id,
    newestLetter s threadId, slice text MAX_REPLY_CHARACTERS, some personId, occurredAt,
    drawn.createdAt⟩
  update (·.addMessage message)
  let lastMessageAt ← readClock
  let takenAt ← readClock
  update fun s => s.writeThread threadId (thread.answered personId lastMessageAt takenAt)
  update (·.record (.replied threadId personId lastMessageAt))

/-- The board's answer.  Whether a mailbox is configured is asked of the settings. -/
def reply (threadId personId body : String) (configured : Bool) : ThreadTx Unit := do
  refuseIf (trim body = "") .emptyReply
  refuseIf (configured = false) .mailboxNotConfigured
  transaction (replyTx threadId personId (trim body))

/-! ### Closing -/

/-- `orderBy: [{ createdAt: "desc" }, { id: "desc" }]` -/
def BoardMailboxMessage.createdAfter (a b : BoardMailboxMessage) : Bool :=
  decide (b.createdAt < a.createdAt) || (decide (a.createdAt = b.createdAt) && decide (b.id < a.id))

/-- The newest row on a thread, by when it was created. -/
def newestMessage (s : ThreadStore) (threadId : String) : Option BoardMailboxMessage :=
  firstBy BoardMailboxMessage.createdAfter (s.messagesOn threadId)

def BoardMailboxThread.closedBy (personId : String) (now : Int) (row : BoardMailboxThread) :
    BoardMailboxThread :=
  { row with status := .CLOSED, closedAt := some now, closedByPersonId := some personId }

/-- Where a thread stands that is opened again. -/
def BoardMailboxThread.statusWhenReopened (thread : BoardMailboxThread)
    (newest : Option BoardMailboxMessage) : BoardMailboxThreadStatus :=
  if newest.map (·.direction) = some .OUTBOUND then .ANSWERED
  else if thread.takenByPersonId = none then .NEW else .TAKEN

def BoardMailboxThread.unclosed (row : BoardMailboxThread) : BoardMailboxThread :=
  { row with closedAt := none, closedByPersonId := none }

/-- Opens a closed thread again, where it stood.  False when it was not closed. -/
def reopen (threadId : String) : ThreadTx Bool := do
  let s ← snapshot
  if ∃ row ∈ s.threads, row.id = threadId ∧ row.status = .CLOSED then do
    update fun s => s.writeThread threadId (·.unclosed)
    let s ← snapshot
    match findThread s threadId with
    | none => fail .recordNotFound
    | some thread => do
      let status := thread.statusWhenReopened (newestMessage s threadId)
      update fun s => s.writeThread threadId fun row => { row with status }
      pure true
  else pure false

def reopenTx (threadId personId : String) : ThreadTx Unit := do
  let reopened ← reopen threadId
  if reopened then update (·.record (.reopened threadId personId)) else pure ()

/-- Records that the board is finished with a thread, or that it is not. -/
def setClosed (threadId : String) (closed : Bool) (personId : String) : ThreadTx Unit :=
  transaction do
    let _ ← lockedThread threadId
    if closed then do
      let now ← readClock
      update fun s => s.writeThread threadId (·.closedBy personId now)
      update (·.record (.closed threadId personId))
    else reopenTx threadId personId

/-! ### The purge -/

/-- What other modules answer: the addresses held, the persons withheld, and those whose request for
erasure is granted. -/
structure Withholding where
  heldAddressIndexes : List String
  withheldPersonIds : List String
  erasureRequestedPersonIds : List String

def Withholding.holdsAddress (w : Withholding) (thread : BoardMailboxThread) : Bool :=
  thread.correspondentEmailIndex.any (· ∈ w.heldAddressIndexes)

def Withholding.withholds (w : Withholding) (thread : BoardMailboxThread) : Bool :=
  thread.correspondentPersonId.any (· ∈ w.withheldPersonIds)

def Withholding.requested (w : Withholding) (thread : BoardMailboxThread) : Bool :=
  thread.correspondentPersonId.any (· ∈ w.erasureRequestedPersonIds)

def MAX_THREADS_PER_RUN : ℕ := 500

def oldestFirst (threads : List BoardMailboxThread) : List BoardMailboxThread :=
  threads.mergeSort fun a b => decide (a.lastMessageAt ≤ b.lastMessageAt)

/-- The threads to erase: those on request, and those whose retention has run out and against which
no hold stands. -/
def eligible (s : ThreadStore) (w : Withholding) (now : Int) (retentionDays : ℕ) : List String :=
  let onRequest := oldestFirst (s.threads.filter fun thread =>
    w.requested thread && !w.holdsAddress thread)
  let bound := MAX_THREADS_PER_RUN - onRequest.length
  let threads := (oldestFirst (s.threads.filter fun thread =>
    decide (thread.lastMessageAt ≤ boardMailboxPurgeCutoff now retentionDays) &&
      !w.holdsAddress thread && !w.withholds thread)).take bound
  addAll ((onRequest ++ threads).map (·.id)) []

def lockErasure (thread : BoardMailboxThread) : ThreadTx Unit :=
  match thread.correspondentPersonId with
  | none => pure ()
  | some personId => acquire (.erasureEligibility personId) .exclusive

/-- The thread goes with its messages. -/
def ThreadStore.deleteThread (s : ThreadStore) (threadId : String) : ThreadStore :=
  { s with
    threads := s.threads.filter fun thread => thread.id ≠ threadId
    messages := s.messages.filter fun message => message.threadId ≠ threadId
    retired := threadId :: s.retired }

def eraseThread (threadId : String) (onRequest : Bool) (now : Int) (retentionDays : ℕ) :
    ThreadTx Unit := do
  acquire (.thread threadId) .exclusive
  let s ← snapshot
  if ∃ row ∈ s.threads, row.id = threadId ∧
      (onRequest = true ∨ row.lastMessageAt ≤ boardMailboxPurgeCutoff now retentionDays) then do
    update (·.deleteThread threadId)
    update (·.record (.purged threadId onRequest now retentionDays))
  else pure ()

def purgeTx (thread : BoardMailboxThread) (w : Withholding) (now : Int) (retentionDays : ℕ) :
    ThreadTx Unit := do
  acquire .legalHoldRegistry .exclusive
  if w.holdsAddress thread ∨ w.withholds thread then pure ()
  else do
    lockErasure thread
    eraseThread thread.id (w.requested thread) now retentionDays

/-- Erases one thread, under the holds and requests that stand then. -/
def purgeThread (w : Withholding) (now : Int) (retentionDays : ℕ) (threadId : String) :
    ThreadTx Unit := do
  let s ← snapshot
  match findThread s threadId with
  | none => pure ()
  | some thread => transaction (purgeTx thread w now retentionDays)

/-- The nightly job.  What stands against a thread may have changed since it was found. -/
def purge (w : Withholding) (later : String → Withholding) (retentionDays : ℕ) : ThreadTx Unit := do
  let now ← readClock
  let s ← snapshot
  (eligible s w now retentionDays).forM fun threadId =>
    purgeThread (later threadId) now retentionDays threadId

end OpenBrf.MailThreads
