import OpenBrf.Meetings.MembersOnTheDay
import OpenBrf.Motions.QueueCursor
import OpenBrf.Txn.Tables

/-!
# Meetings.MeetingStore — general meetings as they are stored (`meeting.service.ts`)

The meetings, what each is to deal with, and who is let in to it.  A row is created with an
identifier and a reading of the database's clock, both drawn; the log stands for the audit log.
-/

namespace OpenBrf.Meetings

open Txn Lang Shared Registers Motions

inductive MeetingKind where
  | ORDINARY
  | EXTRAORDINARY
  deriving DecidableEq, Repr

inductive AttendanceMode where
  | IN_PERSON
  | REMOTE
  deriving DecidableEq, Repr

inductive MeetingDecisionOutcome where
  | CARRIED
  | REJECTED
  deriving DecidableEq, Repr

structure Meeting where
  id : String
  kind : MeetingKind
  heldOn : LocalDay
  concludedAt : Option Int
  deriving DecidableEq

structure MeetingNotice where
  id : String
  meetingId : String
  startsAt : Int
  place : String
  digitalParticipation : Option String
  issuedAt : Int
  issuedByPersonId : String
  deriving DecidableEq, Repr

structure MeetingNoticeDelivery where
  noticeId : String
  personId : String
  deriving DecidableEq, Repr

structure AgendaItem where
  id : String
  meetingId : String
  position : ℕ
  title : String
  deriving DecidableEq, Repr

structure MeetingDecision where
  agendaItemId : String
  outcome : MeetingDecisionOutcome
  votesFor : ℕ
  votesAgainst : ℕ
  votesAbstaining : ℕ
  closedBallot : Bool
  recordedByPersonId : String
  deriving DecidableEq, Repr

structure Motion where
  id : String
  title : String
  body : String
  submittedByPersonId : String
  status : MotionStatus
  closedAt : Option Int
  closedByPersonId : Option String
  meetingId : Option String
  deriving DecidableEq

structure MeetingAttendance where
  id : String
  meetingId : String
  personId : String
  capacity : AttendanceCapacity
  mode : AttendanceMode
  onBehalfOfPersonId : Option String
  withdrawnAt : Option Int
  deriving DecidableEq, Repr

structure ProxyAuthorisation where
  id : String
  meetingId : String
  memberPersonId : String
  proxyHolderPersonId : String
  ground : ProxyHolderGround
  authorisedOn : LocalDay
  withdrawnAt : Option Int
  recordedByPersonId : String
  deriving DecidableEq

/-- What the act that is committed left on record. -/
inductive MeetingEntry where
  /-- `MEETING_ARRANGED` -/
  | arranged (meetingId : String) (kind : MeetingKind) (heldOn : LocalDay) (actorPersonId : String)
  /-- `MEETING_HELD` -/
  | held (meetingId : String) (heldOn : LocalDay) (actorPersonId : String)
  /-- `MEETING_AGENDA_SET` -/
  | agendaSet (meetingId : String) (itemCount : ℕ) (actorPersonId : String)
  /-- `MEETING_NOTICE_ISSUED` -/
  | noticeIssued (meetingId : String) (recipients : ℕ) (heldOn : LocalDay) (actorPersonId : String)
  /-- `MEETING_DECISION_RECORDED` -/
  | decisionRecorded (meetingId : String) (decision : MeetingDecision)
  /-- `MOTION_SUBMITTED` -/
  | motionSubmitted (motionId actorPersonId : String) (titleLength bodyLength : ℕ)
  /-- `MOTION_ACKNOWLEDGED` or `MOTION_WITHDRAWN` -/
  | motionClosed (motionId : String) (status : MotionStatus) (actorPersonId targetPersonId : String)
  /-- `MOTION_MEETING_SET`, and the meeting the request read the motion on. -/
  | motionMeetingSet (motionId : String) (existing meetingId : Option String)
      (actorPersonId targetPersonId : String)
  /-- `SERVICE_DATA_PURGED` -/
  | motionsPurged (targetPersonId : String) (motions retentionDaysAfterClosing : ℕ)
  /-- `MEETING_ATTENDANCE_RECORDED` -/
  | attendanceRecorded (attendanceId meetingId targetPersonId : String)
      (capacity : AttendanceCapacity) (mode : AttendanceMode) (actorPersonId : String)
  /-- `MEETING_ATTENDANCE_WITHDRAWN` -/
  | attendanceWithdrawn (attendanceId meetingId targetPersonId : String)
      (capacity : AttendanceCapacity) (withPrincipal : Bool) (actorPersonId : String)
  /-- `MEETING_PROXY_REGISTERED`, and what the bylaws then allowed the holder to carry. -/
  | proxyRegistered (authorisationId meetingId targetPersonId proxyHolderPersonId : String)
      (ground : ProxyHolderGround) (authorisedOn : LocalDay) (maxMembersPerProxyHolder : ℕ)
      (actorPersonId : String)
  /-- `MEETING_PROXY_WITHDRAWN` -/
  | proxyWithdrawn (authorisationId meetingId targetPersonId : String) (superseded : Bool)
      (actorPersonId : String)
  deriving DecidableEq

structure MeetingStore where
  meetings : List Meeting := []
  notices : List MeetingNotice := []
  deliveries : List MeetingNoticeDelivery := []
  items : List AgendaItem := []
  decisions : List MeetingDecision := []
  motions : List Motion := []
  /-- The line recorded first last. -/
  attendances : List MeetingAttendance := []
  authorisations : List ProxyAuthorisation := []
  /-- The newest entry first. -/
  log : List MeetingEntry := []
  deriving DecidableEq

inductive MeetingLock where
  /-- `meeting-agenda:` -/
  | agenda (meetingId : String)
  /-- `meeting-proxy:` -/
  | proxies (meetingId : String)
  | meeting (id : String)
  | notice (id : String)
  /-- `meeting_notice_meetingId_key` -/
  | noticeKey (meetingId : String)
  | item (id : String)
  | decision (agendaItemId : String)
  | motion (id : String)
  | attendance (id : String)
  /-- `meeting_attendance_meetingId_personId_capacity_key` -/
  | attendanceKey (meetingId personId : String) (capacity : AttendanceCapacity)
  /-- `meeting_attendance_meetingId_onBehalfOfPersonId_live_key` -/
  | standingAssistant (meetingId onBehalfOfPersonId : String)
  | authorisation (id : String)
  /-- The key of the meeting, the member and the proxy holder. -/
  | authorisationKey (meetingId memberPersonId proxyHolderPersonId : String)
  | legalHold (personId : String)
  | erasureEligibility (personId : String)
  deriving DecidableEq, Repr

inductive MeetingFailure where
  | meetingError (message reason : String)
  | motionError (message reason : String)
  | uniqueKey
  | recordNotFound
  deriving DecidableEq, Repr

/-- What the database gives the rows of one statement. -/
structure Drawn where
  ids : ℕ → String
  createdAt : Int

abbrev MeetingTx (α : Type) := Prog MeetingStore MeetingLock Drawn MeetingFailure α

namespace MeetingStore

def record (s : MeetingStore) (entry : MeetingEntry) : MeetingStore :=
  { s with log := entry :: s.log }

def findMeeting (s : MeetingStore) (id : String) : Option Meeting := rowAt (·.id) s.meetings id

def noticeOf (s : MeetingStore) (meetingId : String) : Option MeetingNotice :=
  rowAt (·.meetingId) s.notices meetingId

/-- The items of one meeting. -/
def itemsOf (s : MeetingStore) (meetingId : String) : List AgendaItem :=
  s.items.filter fun item => item.meetingId = meetingId

/-- `orderBy: { position: "asc" }` -/
def agendaOf (s : MeetingStore) (meetingId : String) : List AgendaItem :=
  (s.itemsOf meetingId).mergeSort fun a b => decide (a.position ≤ b.position)

def findMotion (s : MeetingStore) (id : String) : Option Motion := rowAt (·.id) s.motions id

def writeMeeting (s : MeetingStore) (id : String) (f : Meeting → Meeting) : MeetingStore :=
  { s with meetings := overwrite (·.id) id f s.meetings }

def writeMotion (s : MeetingStore) (id : String) (f : Motion → Motion) : MeetingStore :=
  { s with motions := overwrite (·.id) id f s.motions }

def writeAttendance (s : MeetingStore) (id : String) (f : MeetingAttendance → MeetingAttendance) :
    MeetingStore :=
  { s with attendances := overwrite (·.id) id f s.attendances }

def writeAuthorisation (s : MeetingStore) (id : String)
    (f : ProxyAuthorisation → ProxyAuthorisation) : MeetingStore :=
  { s with authorisations := overwrite (·.id) id f s.authorisations }

end MeetingStore

open MeetingStore

/-- A row is created under an identifier drawn for it. -/
def createRow (key : String → MeetingLock) (ids : MeetingStore → List String) (id : String)
    (f : MeetingStore → MeetingStore) : MeetingTx Unit := do
  acquire (key id) .exclusive
  let s ← snapshot
  refuseIf (id ∈ ids s) .uniqueKey
  update f

/-! ### A meeting -/

/-- The meeting a write is about, with its row held against being concluded.  Nobody has the
identifier of a meeting that is not there yet. -/
def requireMeeting (meetingId : String) : MeetingTx (Meeting × Option MeetingNotice) := do
  acquire (.meeting meetingId) .shared
  let s ← snapshot
  match findMeeting s meetingId with
  | none => fail (.meetingError "No such meeting." "meeting-not-found")
  | some meeting => pure (meeting, noticeOf s meetingId)

def refuseIfHeld (meeting : Meeting) : MeetingTx Unit :=
  refuseIf (meeting.concludedAt ≠ none)
    (.meetingError "This meeting has been recorded as held." "meeting-already-held")

def refuseIfSummoned (notice : Option MeetingNotice) : MeetingTx Unit :=
  refuseIf (notice ≠ none) (.meetingError
    "The notice for this meeting has been issued, so what it deals with is settled."
    "notice-already-issued")

def readMeetingDay (text : String) : MeetingTx LocalDay :=
  match parseLocalDay text with
  | none => fail (.meetingError "That is not a calendar date." "date-not-a-calendar-date")
  | some day => pure day

def arrange (kind : MeetingKind) (heldOn actorPersonId : String) : MeetingTx Unit := do
  let heldOn ← readMeetingDay heldOn
  transaction do
    let drawn ← fresh
    let id := drawn.ids 0
    createRow .meeting (·.meetings.map (·.id)) id fun s =>
      { s with meetings := ⟨id, kind, heldOn, none⟩ :: s.meetings }
    update (·.record (.arranged id kind heldOn actorPersonId))

/-- Records that the meeting has been held. -/
def conclude (zone : Zone) (meetingId actorPersonId : String) : MeetingTx Unit := transaction do
  acquire (.agenda meetingId) .exclusive
  let (existing, _) ← requireMeeting meetingId
  refuseIfHeld existing
  let now ← readClock
  refuseIf (0 < compareLocalDays existing.heldOn (dateOf zone now))
    (.meetingError "This meeting's day has not come yet." "meeting-day-in-the-future")
  let concludedAt ← readClock
  let found ← updateRow (.meeting meetingId) (fun s => (findMeeting s meetingId).isSome)
    (·.writeMeeting meetingId ({ · with concludedAt := some concludedAt }))
  refuseIf (found = false) .recordNotFound
  update (·.record (.held meetingId existing.heldOn actorPersonId))

end OpenBrf.Meetings
