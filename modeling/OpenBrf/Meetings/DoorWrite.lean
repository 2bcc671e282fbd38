import OpenBrf.Lang.Sorting
import OpenBrf.Meetings.MeetingStore

/-!
# Meetings.DoorWrite — who is let in to a meeting, and who votes for whom (`meeting.service.ts`)

A line of the list says that somebody is present, and in which capacity; an authorisation says who
exercises a member's vote.  Neither is ever deleted: what is taken back is dated.
-/

namespace OpenBrf.Meetings

open Txn Lang Shared Registers MeetingStore

/-! ### The list of those present -/

structure RecordAttendanceInput where
  personId : String
  capacity : AttendanceCapacity
  mode : AttendanceMode
  onBehalfOfPersonId : Option String

/-- A line of a person's own: as a member, or as a proxy holder. -/
def isPrincipalLine (meetingId personId : String) (line : MeetingAttendance) : Bool :=
  line.meetingId = meetingId && line.personId = personId && line.capacity ≠ .ASSISTANT

/-- A standing line of somebody's assistant. -/
def isAssistantOf (meetingId personId : String) (line : MeetingAttendance) : Bool :=
  line.meetingId = meetingId && line.onBehalfOfPersonId = some personId && line.withdrawnAt.isNone

/-- Whether somebody stands on the list as a member or a proxy holder. -/
def isPrincipalPresent (meetingId personId : String) (s : MeetingStore) : Bool :=
  s.attendances.any fun line => isPrincipalLine meetingId personId line && line.withdrawnAt.isNone

def secondAssistant : MeetingFailure := .meetingError
  "The member or proxy holder who brought them already has an assistant on the list."
  "assistant-already-present"

def noSuchLine : MeetingFailure :=
  .meetingError "No such attendance line at this meeting." "attendance-not-found"

/-- Refuses somebody who was not a member on the given day. -/
def requireMemberOn (archive : List MemberRegisterEvent) (personId : String) (meetingDay : LocalDay)
    (reason : String) : MeetingTx Unit :=
  refuseIf (MeetingService.isMemberOn archive personId meetingDay.number = false) (.meetingError
    "That person was not a member of the association on the day of this meeting." reason)

/-- A person recorded as a proxy holder holds an authority somebody registered. -/
def requireStandingAuthority (meetingId proxyHolderPersonId : String) : MeetingTx Unit := do
  let s ← snapshot
  refuseIf ((s.authorisations.filter fun row => row.meetingId = meetingId &&
      row.proxyHolderPersonId = proxyHolderPersonId && row.withdrawnAt.isNone).length = 0)
    (.meetingError "That person holds no authority registered against this meeting."
      "proxy-holder-holds-no-authority")

/-- An assistant's principal is on the list, and stays there. -/
def requirePrincipalPresent (meetingId : String) : Option String → MeetingTx Unit
  | none => fail (.meetingError
      "An assistant is recorded with the member or proxy holder who brought them."
      "assistant-principal-not-present")
  | some onBehalfOfPersonId => do
    let lines ← lockRows .attendance .shared fun s => toSorted ((s.attendances.filter fun line =>
      isPrincipalLine meetingId onBehalfOfPersonId line && line.withdrawnAt.isNone).map (·.id))
    refuseIf (lines.length = 0) (.meetingError
      "The member or proxy holder who brought them is not on the list."
      "assistant-principal-not-present")

/-- What each capacity asks for at the door. -/
def requireCapacity (archive : List MemberRegisterEvent) (meeting : Meeting)
    (input : RecordAttendanceInput) : MeetingTx Unit :=
  match input.capacity with
  | .MEMBER =>
    requireMemberOn archive input.personId meeting.heldOn "not-a-member-on-the-meeting-day"
  | .PROXY_HOLDER => requireStandingAuthority meeting.id input.personId
  | .ASSISTANT => do
    requirePrincipalPresent meeting.id input.onBehalfOfPersonId
    let s ← snapshot
    refuseIf (0 < (s.attendances.filter fun line => line.meetingId = meeting.id &&
        line.capacity = .ASSISTANT && line.onBehalfOfPersonId = input.onBehalfOfPersonId &&
        line.withdrawnAt.isNone && line.personId ≠ input.personId).length) secondAssistant

/-- The entry a line has in the index of standing assistants. -/
def MeetingAttendance.standingEntry (line : MeetingAttendance) : Option (String × String) :=
  if line.withdrawnAt.isNone then line.onBehalfOfPersonId.map (line.meetingId, ·) else none

/-- A line is written over: whoever claims the entry it had waits. -/
def leaveEntry (attendanceId : String) : MeetingTx Unit := do
  let s ← snapshot
  match (rowAt (·.id) s.attendances attendanceId).bind (·.standingEntry) with
  | none => pure ()
  | some (meetingId, personId) => acquire (.standingAssistant meetingId personId) .exclusive

/-- A line gets an entry in the index of standing assistants, unless another has it. -/
def claimEntry (meetingId attendanceId : String) : Option String → MeetingTx Unit
  | none => pure ()
  | some personId => do
    acquire (.standingAssistant meetingId personId) .exclusive
    let s ← snapshot
    refuseIf (∃ line ∈ s.attendances,
      line.id ≠ attendanceId ∧ line.standingEntry = some (meetingId, personId)) secondAssistant

/-- A line struck off and taken up again is the same line with its date cleared. -/
def MeetingAttendance.takenUp (input : RecordAttendanceInput) (line : MeetingAttendance) :
    MeetingAttendance :=
  { line with
    mode := input.mode, onBehalfOfPersonId := input.onBehalfOfPersonId, withdrawnAt := none }

def MeetingAttendance.key (line : MeetingAttendance) : String × String × AttendanceCapacity :=
  (line.meetingId, line.personId, line.capacity)

def upsertAttendance (meetingId : String) (input : RecordAttendanceInput) : MeetingTx String := do
  acquire (.attendanceKey meetingId input.personId input.capacity) .exclusive
  let s ← snapshot
  match rowAt MeetingAttendance.key s.attendances (meetingId, input.personId, input.capacity) with
  | none => do
    let drawn ← fresh
    let id := drawn.ids 0
    claimEntry meetingId id input.onBehalfOfPersonId
    createRow .attendance (·.attendances.map (·.id)) id fun s =>
      { s with attendances := ⟨id, meetingId, input.personId, input.capacity, input.mode,
        input.onBehalfOfPersonId, none⟩ :: s.attendances }
    pure id
  | some line => do
    acquire (.attendance line.id) .exclusive
    leaveEntry line.id
    claimEntry meetingId line.id input.onBehalfOfPersonId
    update (·.writeAttendance line.id (·.takenUp input))
    pure line.id

/-- Records that somebody is present, in a stated capacity.  `archive` is what the member register
then reads. -/
def recordAttendance (archive : List MemberRegisterEvent) (meetingId : String)
    (input : RecordAttendanceInput) (actorPersonId : String) : MeetingTx Unit := transaction do
  let (meeting, _) ← requireMeeting meetingId
  refuseIfHeld meeting
  refuseIf (input.capacity ≠ .ASSISTANT ∧ input.onBehalfOfPersonId ≠ none) (.meetingError
    "Only an assistant is recorded with the person who brought them."
    "attendance-principal-not-applicable")
  refuseIf (input.onBehalfOfPersonId = some input.personId)
    (.meetingError "Nobody is their own assistant." "assistant-is-their-own-principal")
  requireCapacity archive meeting input
  let attendanceId ← upsertAttendance meetingId input
  update (·.record (.attendanceRecorded attendanceId meetingId input.personId input.capacity
    input.mode actorPersonId))

/-- Takes a person's member and proxy-holder lines at a meeting for update, the ones struck off
included. -/
def lockPrincipalLines (meetingId personId : String) : MeetingTx Unit := do
  let _ ← lockRows .attendance .exclusive fun s =>
    toSorted ((s.attendances.filter (isPrincipalLine meetingId personId)).map (·.id))
  pure ()

def readLine (meetingId attendanceId : String) : MeetingTx MeetingAttendance := do
  let s ← snapshot
  match (rowAt (·.id) s.attendances attendanceId).filter fun line => line.meetingId = meetingId with
  | none => fail noSuchLine
  | some line => pure line

/-- Dates a line as struck off. -/
def strikeOff (attendanceId : String) : MeetingTx Unit := do
  let withdrawnAt ← readClock
  acquire (.attendance attendanceId) .exclusive
  leaveEntry attendanceId
  let found ← updateRow (.attendance attendanceId)
    (fun s => (rowAt (·.id) s.attendances attendanceId).isSome)
    (·.writeAttendance attendanceId ({ · with withdrawnAt := some withdrawnAt }))
  refuseIf (found = false) .recordNotFound

/-- Somebody left with no line of their own takes their assistant off the list with them. -/
def strikeOffAssistant (meetingId personId actorPersonId : String) : MeetingTx Unit := do
  let s ← snapshot
  onlyIf (isPrincipalPresent meetingId personId s = false) do
    let s ← snapshot
    match s.attendances.find? (isAssistantOf meetingId personId) with
    | none => pure ()
    | some assistant => do
      strikeOff assistant.id
      update (·.record (.attendanceWithdrawn assistant.id meetingId assistant.personId .ASSISTANT
        true actorPersonId))

/-- Strikes a line off the list. -/
def withdrawAttendance (meetingId attendanceId actorPersonId : String) : MeetingTx Unit :=
  transaction do
    let (meeting, _) ← requireMeeting meetingId
    refuseIfHeld meeting
    let line ← readLine meetingId attendanceId
    let existing ← if line.capacity ≠ .ASSISTANT then do
        lockPrincipalLines meetingId line.personId
        readLine meetingId attendanceId
      else pure line
    onlyIf (existing.withdrawnAt = none) do
      strikeOff attendanceId
      update (·.record (.attendanceWithdrawn attendanceId meetingId existing.personId
        existing.capacity false actorPersonId))
      onlyIf (existing.capacity ≠ .ASSISTANT)
        (strikeOffAssistant meetingId existing.personId actorPersonId)

/-! ### Proxy authorisations -/

structure RegisterProxyInput where
  memberPersonId : String
  proxyHolderPersonId : String
  ground : ProxyHolderGround
  authorisedOn : String

/-- The clauses of the bylaws that a registration is held against. -/
structure MeetingBylaws where
  proxyHolderEligibilityWidened : Bool
  maxMembersPerProxyHolder : ℕ

def ProxyAuthorityProblem.text : ProxyAuthorityProblem → String
  | notYetIssued => "proxy-authority-not-yet-issued"
  | expired => "proxy-authority-expired"

/-- The proxy holder is eligible on the ground the board stated. -/
def requireEligibleProxyHolder (archive : List MemberRegisterEvent) (input : RegisterProxyInput)
    (meetingDay : LocalDay) (bylaws : MeetingBylaws) : MeetingTx Unit :=
  match input.ground with
  | .MEMBER =>
    requireMemberOn archive input.proxyHolderPersonId meetingDay "proxy-holder-not-a-member"
  | .SPOUSE_OR_COHABITANT => pure ()
  | .BYLAWS => refuseIf (bylaws.proxyHolderEligibilityWidened = false) (.meetingError
      "The bylaws do not permit a proxy holder on that ground."
      "proxy-holder-not-permitted-by-bylaws")

/-- The standing authorities a proxy holder carries at a meeting. -/
def carriedBy (meetingId proxyHolderPersonId : String) (s : MeetingStore) :
    List ProxyAuthorisation :=
  s.authorisations.filter fun row => row.meetingId = meetingId &&
    row.proxyHolderPersonId = proxyHolderPersonId && row.withdrawnAt.isNone

/-- The proxy holder is not already carrying as many members as the bylaws allow. -/
def requireProxyLimitRoom (meetingId : String) (input : RegisterProxyInput)
    (bylaws : MeetingBylaws) : MeetingTx Unit := do
  let s ← snapshot
  let held := ((carriedBy meetingId input.proxyHolderPersonId s).filter fun row =>
    row.memberPersonId ≠ input.memberPersonId).length
  refuseIf (bylaws.maxMembersPerProxyHolder ≤ held) (.meetingError
    "That person already represents as many members as the bylaws allow."
    "proxy-holder-limit-reached")

/-- Dates an authority as withdrawn. -/
def endAuthority (authorisationId : String) : MeetingTx Unit := do
  let withdrawnAt ← readClock
  let found ← updateRow (.authorisation authorisationId)
    (fun s => (rowAt (·.id) s.authorisations authorisationId).isSome)
    (·.writeAuthorisation authorisationId ({ · with withdrawnAt := some withdrawnAt }))
  refuseIf (found = false) .recordNotFound

/-- The authority a member already has standing with somebody else is ended. -/
def supersede (meetingId : String) (input : RegisterProxyInput) (actorPersonId : String) :
    MeetingTx Unit := do
  let s ← snapshot
  match s.authorisations.find? fun row => row.meetingId = meetingId &&
      row.memberPersonId = input.memberPersonId && row.withdrawnAt.isNone &&
      row.proxyHolderPersonId ≠ input.proxyHolderPersonId with
  | none => pure ()
  | some standing => do
    endAuthority standing.id
    update (·.record (.proxyWithdrawn standing.id meetingId input.memberPersonId true
      actorPersonId))

def ProxyAuthorisation.key (row : ProxyAuthorisation) : String × String × String :=
  (row.meetingId, row.memberPersonId, row.proxyHolderPersonId)

/-- The same pair again is the same row with its date cleared. -/
def ProxyAuthorisation.registered (input : RegisterProxyInput) (authorisedOn : LocalDay)
    (actorPersonId : String) (row : ProxyAuthorisation) : ProxyAuthorisation :=
  { row with
    ground := input.ground, authorisedOn, withdrawnAt := none, recordedByPersonId := actorPersonId }

def upsertAuthorisation (meetingId : String) (input : RegisterProxyInput) (authorisedOn : LocalDay)
    (actorPersonId : String) : MeetingTx String := do
  acquire (.authorisationKey meetingId input.memberPersonId input.proxyHolderPersonId) .exclusive
  let s ← snapshot
  match rowAt ProxyAuthorisation.key s.authorisations
      (meetingId, input.memberPersonId, input.proxyHolderPersonId) with
  | none => do
    let drawn ← fresh
    let id := drawn.ids 0
    createRow .authorisation (·.authorisations.map (·.id)) id fun s =>
      { s with authorisations := ⟨id, meetingId, input.memberPersonId, input.proxyHolderPersonId,
        input.ground, authorisedOn, none, actorPersonId⟩ :: s.authorisations }
    pure id
  | some row => do
    acquire (.authorisation row.id) .exclusive
    update (·.writeAuthorisation row.id (·.registered input authorisedOn actorPersonId))
    pure row.id

/-- Registers a member's proxy authorisation, against the bylaws. -/
def registerProxy (zone : Zone) (archive : List MemberRegisterEvent) (bylaws : MeetingBylaws)
    (meetingId : String) (input : RegisterProxyInput) (actorPersonId : String) : MeetingTx Unit :=
  transaction do
    acquire (.proxies meetingId) .exclusive
    let (meeting, _) ← requireMeeting meetingId
    refuseIfHeld meeting
    refuseIf (input.memberPersonId = input.proxyHolderPersonId)
      (.meetingError "A member is not their own proxy holder." "proxy-holder-is-the-member")
    let authorisedOn ← readMeetingDay input.authorisedOn
    requireMemberOn archive input.memberPersonId meeting.heldOn "not-a-member-on-the-meeting-day"
    match proxyAuthorityProblem authorisedOn meeting.heldOn with
    | some problem =>
      fail (.meetingError "The authority does not cover the day of this meeting." problem.text)
    | none => do
      let now ← readClock
      refuseIf (0 < compareLocalDays authorisedOn (dateOf zone now))
        (.meetingError "The authority is dated after today." "proxy-authority-not-yet-issued")
      requireEligibleProxyHolder archive input meeting.heldOn bylaws
      requireProxyLimitRoom meetingId input bylaws
      supersede meetingId input actorPersonId
      let authorisationId ← upsertAuthorisation meetingId input authorisedOn actorPersonId
      update (·.record (.proxyRegistered authorisationId meetingId input.memberPersonId
        input.proxyHolderPersonId input.ground authorisedOn bylaws.maxMembersPerProxyHolder
        actorPersonId))

/-- Withdraws an authority. -/
def withdrawProxy (meetingId authorisationId actorPersonId : String) : MeetingTx Unit :=
  transaction do
    let (meeting, _) ← requireMeeting meetingId
    refuseIfHeld meeting
    let s ← snapshot
    match (rowAt (·.id) s.authorisations authorisationId).filter fun row =>
        row.meetingId = meetingId with
    | none => fail (.meetingError "No such proxy authorisation at this meeting."
        "proxy-authorisation-not-found")
    | some existing => onlyIf (existing.withdrawnAt = none) do
      endAuthority authorisationId
      update (·.record (.proxyWithdrawn authorisationId meetingId existing.memberPersonId false
        actorPersonId))

end OpenBrf.Meetings
