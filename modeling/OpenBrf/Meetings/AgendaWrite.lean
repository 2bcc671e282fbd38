import OpenBrf.Lang.Sorting
import OpenBrf.Meetings.MeetingStore

/-!
# Meetings.AgendaWrite — what a meeting deals with (`meeting.service.ts`,
`meeting-notice.service.ts`, `motion.service.ts`, `motion-purge.service.ts`)

The board sets the agenda and issues the notice, which settles it; members put motions, and the
board puts those to a meeting.
-/

namespace OpenBrf.Meetings

open Txn Lang Shared Registers Motions MeetingStore

/-! ### The agenda -/

structure SetAgendaInput where
  titles : List String
  /-- The agenda the caller read. -/
  expectedItemIds : Option (List String)

/-- The items in the order given, numbered from one. -/
def numberItems (ids : ℕ → String) (meetingId : String) (titles : List String) : List AgendaItem :=
  titles.zipIdx.map fun (title, index) => ⟨ids index, meetingId, index + 1, title⟩

/-- The items of a meeting go, and with each the decision on it. -/
def deleteItems (meetingId : String) (s : MeetingStore) : MeetingStore :=
  { s with
    items := s.items.filter fun item => item.meetingId ≠ meetingId
    decisions := s.decisions.filter fun decision =>
      decision.agendaItemId ∉ (s.itemsOf meetingId).map (·.id) }

def createItems (items : List AgendaItem) (s : MeetingStore) : MeetingStore :=
  { s with items := s.items ++ items }

/-- The agenda is refused where it is another than the caller read. -/
def refuseIfChanged (meetingId : String) : Option (List String) → MeetingTx Unit
  | none => pure ()
  | some expected => do
    let s ← snapshot
    refuseIf ((agendaOf s meetingId).map (·.id) ≠ expected)
      (.meetingError "The agenda has changed since it was read." "agenda-changed")

/-- Replaces the agenda with the items given, in the order given. -/
def setAgenda (meetingId : String) (input : SetAgendaInput) (actorPersonId : String) :
    MeetingTx Unit := transaction do
  acquire (.agenda meetingId) .exclusive
  let (meeting, notice) ← requireMeeting meetingId
  refuseIfHeld meeting
  refuseIfSummoned notice
  refuseIfChanged meetingId input.expectedItemIds
  update (deleteItems meetingId)
  let drawn ← fresh
  let items := numberItems drawn.ids meetingId input.titles
  items.forM fun item => acquire (.item item.id) .exclusive
  let s ← snapshot
  refuseIf (¬ ((items.map (·.id)).Nodup ∧ ∀ item ∈ items, item.id ∉ s.items.map (·.id))) .uniqueKey
  update (createItems items)
  update (·.record (.agendaSet meetingId input.titles.length actorPersonId))

structure RecordDecisionInput where
  outcome : MeetingDecisionOutcome
  votesFor : ℕ
  votesAgainst : ℕ
  votesAbstaining : ℕ
  closedBallot : Bool

def RecordDecisionInput.decision (input : RecordDecisionInput)
    (agendaItemId actorPersonId : String) : MeetingDecision :=
  ⟨agendaItemId, input.outcome, input.votesFor, input.votesAgainst, input.votesAbstaining,
    input.closedBallot, actorPersonId⟩

/-- One decision for each item, written over where there is one. -/
def upsertDecision (decision : MeetingDecision) (s : MeetingStore) : MeetingStore :=
  { s with
    decisions := if (rowAt (·.agendaItemId) s.decisions decision.agendaItemId).isSome
      then overwrite (·.agendaItemId) decision.agendaItemId (fun _ => decision) s.decisions
      else decision :: s.decisions }

/-- Records what the meeting decided on one agenda item. -/
def recordDecision (meetingId agendaItemId : String) (input : RecordDecisionInput)
    (actorPersonId : String) : MeetingTx Unit := transaction do
  let (meeting, _) ← requireMeeting meetingId
  refuseIf (meeting.concludedAt = none)
    (.meetingError "A decision is minuted once the meeting has been held." "meeting-not-held")
  let s ← snapshot
  refuseIf (∀ item ∈ s.items, ¬ (item.id = agendaItemId ∧ item.meetingId = meetingId))
    (.meetingError "No such agenda item at this meeting." "agenda-item-not-found")
  acquire (.decision agendaItemId) .exclusive
  update (upsertDecision (input.decision agendaItemId actorPersonId))
  update (·.record (.decisionRecorded meetingId (input.decision agendaItemId actorPersonId)))

/-! ### The notice -/

structure IssueNoticeInput where
  startsAt : String
  place : String
  digitalParticipation : Option String

/-- `/^(\d{2}):(\d{2})$/u` -/
def hoursAndMinutes (text : String) : Option (ℕ × ℕ) :=
  match text.toList with
  | [a, b, ':', c, d] =>
    if [a, b, c, d].all Char.isDigit then some (numberOf [a, b], numberOf [c, d]) else none
  | _ => none

/-- The instant the meeting begins, from a time of day on the meeting's own day. -/
def readStartOfMeeting (zone : Zone) (text : String) (heldOn : LocalDay) : MeetingTx Int :=
  let at? := (hoursAndMinutes text).bind fun (hours, minutes) =>
    if hours ≤ 23 ∧ minutes ≤ 59 then instantAt zone heldOn.number (hours * 60 + minutes) else none
  match at? with
  | none => fail (.meetingError "There is no such time on the day of this meeting."
      "notice-time-not-on-the-meeting-day")
  | some instant => pure instant

/-- Writes the notice row, and answers its unique key in words. -/
def createNotice (notice : MeetingNotice) : MeetingTx Unit := do
  acquire (.notice notice.id) .exclusive
  acquire (.noticeKey notice.meetingId) .exclusive
  let s ← snapshot
  refuseIf (notice.id ∈ s.notices.map (·.id) ∨ noticeOf s notice.meetingId ≠ none)
    (.meetingError "This meeting has already been summoned." "notice-already-issued")
  update fun s => { s with notices := notice :: s.notices }

/-- Issues the notice.  `archive` is what the member register then reads. -/
def issue (zone : Zone) (archive : List MemberRegisterEvent) (meetingId : String)
    (input : IssueNoticeInput) (actorPersonId : String) : MeetingTx Unit := transaction do
  acquire (.agenda meetingId) .exclusive
  let s ← snapshot
  match findMeeting s meetingId with
  | none => fail (.meetingError "No such meeting." "meeting-not-found")
  | some meeting => do
    refuseIfHeld meeting
    refuseIf (noticeOf s meetingId ≠ none)
      (.meetingError "This meeting has already been summoned." "notice-already-issued")
    refuseIf ((itemsOf s meetingId).length = 0) (.meetingError
      "A notice states the matters the meeting is to deal with, and this meeting has none."
      "meeting-has-no-agenda")
    let startsAt ← readStartOfMeeting zone input.startsAt meeting.heldOn
    let drawn ← fresh
    let notice : MeetingNotice := ⟨drawn.ids 0, meetingId, startsAt, input.place,
      input.digitalParticipation, drawn.createdAt, actorPersonId⟩
    createNotice notice
    let summoned := MeetingNotice.membersOn archive (localDayOf zone notice.issuedAt)
    update fun s => { s with deliveries := summoned.map (⟨notice.id, ·⟩) ++ s.deliveries }
    update (·.record (.noticeIssued meetingId summoned.length meeting.heldOn actorPersonId))

/-! ### Motions -/

def notAMember : MeetingFailure :=
  .motionError "Putting an item to the general meeting is a member's right." "not-a-member"

def noSuchMotion : MeetingFailure := .motionError "No such motion." "motion-not-found"

def alreadyClosed : MeetingFailure :=
  .motionError "This motion is no longer open." "already-closed"

def motionWithdrawn : MeetingFailure := .motionError
  "The member took this motion back, so it is not an item for a meeting." "motion-withdrawn"

/-- Submits a motion.  Whether its member is one today, and whether a text carries a personal
identity number, is asked of the residencies and of the scan. -/
def submit (title body : String) (isMember : Bool) (carriesNumber : Option MeetingFailure)
    (actorPersonId : String) : MeetingTx Unit := do
  refuseIf (isMember = false) notAMember
  match carriesNumber with
  | some refusal => fail refusal
  | none => transaction do
    let drawn ← fresh
    let id := drawn.ids 0
    createRow .motion (·.motions.map (·.id)) id fun s =>
      { s with motions := ⟨id, title, body, actorPersonId, .SUBMITTED, none, none, none⟩ ::
        s.motions }
    update (·.record (.motionSubmitted id actorPersonId (lengthOf title) (lengthOf body)))

/-- Closes a motion one way or the other. -/
def close (motionId : String) (status : MotionStatus) (actorPersonId subjectPersonId : String) :
    MeetingTx Unit := transaction do
  let closedAt ← readClock
  let closed ← updateRow (.motion motionId)
    (fun s => (findMotion s motionId).any fun motion => motion.status = .SUBMITTED)
    (·.writeMotion motionId ({ · with
      status, closedAt := some closedAt, closedByPersonId := some actorPersonId }))
  refuseIf (closed = false) alreadyClosed
  update (·.record (.motionClosed motionId status actorPersonId subjectPersonId))

/-- Withdraws one's own motion. -/
def withdraw (motionId : String) (isMember : Bool) (actorPersonId : String) : MeetingTx Unit := do
  refuseIf (isMember = false) notAMember
  let s ← snapshot
  match (findMotion s motionId).filter fun motion => motion.submittedByPersonId = actorPersonId with
  | none => fail noSuchMotion
  | some existing => do
    refuseIf (existing.status ≠ .SUBMITTED) alreadyClosed
    close motionId .WITHDRAWN actorPersonId actorPersonId

/-- Records that the board has received a motion and will put it to a meeting. -/
def acknowledge (motionId actorPersonId : String) : MeetingTx Unit := do
  let s ← snapshot
  match findMotion s motionId with
  | none => fail noSuchMotion
  | some existing => do
    refuseIf (existing.status ≠ .SUBMITTED) alreadyClosed
    close motionId .ACKNOWLEDGED actorPersonId existing.submittedByPersonId

/-- `lockMeetingAgendasInOrder` -/
def lockMeetingAgendasInOrder (meetingIds : List String) : MeetingTx Unit :=
  (toSorted (addAll meetingIds [])).forM fun meetingId => acquire (.agenda meetingId) .exclusive

/-- Refuses a meeting whose items are no longer the board's to change. -/
def requireMeetingOpen (meetingId : String) : MeetingTx Unit := do
  let s ← snapshot
  match findMeeting s meetingId with
  | none => fail (.motionError "No such general meeting." "meeting-not-found")
  | some meeting => do
    refuseIf (noticeOf s meetingId ≠ none) (.motionError
      "The notice for that meeting has been issued, so what it deals with is settled."
      "meeting-notice-issued")
    refuseIf (meeting.concludedAt ≠ none)
      (.motionError "That meeting has been recorded as held." "meeting-already-held")

/-- Says which of the update's conditions the caller lost, and refuses on it. -/
def refuseTheRaceThatWasLost (motionId : String) : MeetingTx Unit := do
  let s ← snapshot
  match findMotion s motionId with
  | none => fail noSuchMotion
  | some now => do
    refuseIf (now.status = .WITHDRAWN) motionWithdrawn
    fail (.motionError "This motion has meanwhile been put to a different meeting."
      "meeting-changed-meanwhile")

/-- Records which general meeting takes this item up, or takes that answer back. -/
def setMeeting (motionId : String) (meetingId : Option String) (actorPersonId : String) :
    MeetingTx Unit := transaction do
  let s ← snapshot
  match findMotion s motionId with
  | none => fail noSuchMotion
  | some existing => do
    refuseIf (existing.status = .WITHDRAWN) motionWithdrawn
    lockMeetingAgendasInOrder (existing.meetingId.toList ++ meetingId.toList)
    existing.meetingId.toList.forM requireMeetingOpen
    (meetingId.filter (some · ≠ existing.meetingId)).toList.forM requireMeetingOpen
    let moved ← updateRow (.motion motionId)
      (fun s => (findMotion s motionId).any fun motion =>
        motion.meetingId = existing.meetingId ∧ motion.status ≠ .WITHDRAWN)
      (·.writeMotion motionId ({ · with meetingId }))
    onlyIf (moved = false) (refuseTheRaceThatWasLost motionId)
    update (·.record (.motionMeetingSet motionId existing.meetingId meetingId actorPersonId
      existing.submittedByPersonId))

/-! ### The purge of motions -/

/-- The latest closing whose purge date has arrived. -/
def motionPurgeCutoff (now : Int) (retentionDays : ℕ) : Int :=
  now - retentionDays * MILLISECONDS_PER_DAY

/-- Motions on no meeting, or on one that has been held. -/
def offAgendasToCome (s : MeetingStore) (motion : Motion) : Bool :=
  match motion.meetingId with
  | none => true
  | some meetingId => (findMeeting s meetingId).any fun meeting => meeting.concludedAt.isSome

/-- The closed motions of a person that a purge up to a closing erases. -/
def erasedMotions (personId : String) (cutoff : Int) (s : MeetingStore) : List String :=
  (s.motions.filter fun motion => motion.submittedByPersonId = personId &&
    motion.closedAt.any (· ≤ cutoff) && offAgendasToCome s motion).map (·.id)

def deleteMotions (ids : List String) (s : MeetingStore) : MeetingStore :=
  { s with motions := s.motions.filter fun motion => motion.id ∉ ids }

/-- Erases one person's expired motions.  Whether the person is withheld, and whether an erasure is
in force, is read of the tables of the retention. -/
def purgePerson (personId : String) (retentionDays : ℕ) (withheld isErasureInForce : Bool) :
    MeetingTx Unit := do
  let now ← readClock
  transaction do
    acquire (.legalHold personId) .exclusive
    acquire (.erasureEligibility personId) .exclusive
    if withheld then pure ()
    else do
      let cutoff := if isErasureInForce then now else motionPurgeCutoff now retentionDays
      let erased ← updateRows .motion (erasedMotions personId cutoff) deleteMotions
      onlyIf (erased.length ≠ 0)
        (update (·.record (.motionsPurged personId erased.length retentionDays)))

end OpenBrf.Meetings
