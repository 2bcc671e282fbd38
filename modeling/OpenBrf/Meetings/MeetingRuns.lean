import OpenBrf.Meetings.ProxyInterleaving

/-!
# Meetings.MeetingRuns — what holds of meetings in every run

The board, the members and the purge beside each other.  What has been settled of a meeting stays,
a motion is moved only from the meeting it is on, and an authority stands only within what the
bylaws then allowed its holder to carry.
-/

namespace OpenBrf.Meetings

open Txn Lang Shared Registers Motions MeetingStore

/-! ### The system -/

/-- A request, or the purge of one person. -/
inductive MeetingCall (zone : Zone) : MeetingTx Unit → Prop
  | arrange (kind : MeetingKind) (heldOn actorPersonId : String) :
      MeetingCall zone (arrange kind heldOn actorPersonId)
  | conclude (meetingId actorPersonId : String) :
      MeetingCall zone (conclude zone meetingId actorPersonId)
  | setAgenda (meetingId : String) (input : SetAgendaInput) (actorPersonId : String) :
      MeetingCall zone (setAgenda meetingId input actorPersonId)
  | recordDecision (meetingId agendaItemId : String) (input : RecordDecisionInput)
      (actorPersonId : String) :
      MeetingCall zone (recordDecision meetingId agendaItemId input actorPersonId)
  | issue (archive : List MemberRegisterEvent) (meetingId : String) (input : IssueNoticeInput)
      (actorPersonId : String) : MeetingCall zone (issue zone archive meetingId input actorPersonId)
  | submit (title body : String) (isMember : Bool) (carriesNumber : Option MeetingFailure)
      (actorPersonId : String) :
      MeetingCall zone (submit title body isMember carriesNumber actorPersonId)
  | withdraw (motionId : String) (isMember : Bool) (actorPersonId : String) :
      MeetingCall zone (withdraw motionId isMember actorPersonId)
  | acknowledge (motionId actorPersonId : String) :
      MeetingCall zone (acknowledge motionId actorPersonId)
  | setMeeting (motionId : String) (meetingId : Option String) (actorPersonId : String) :
      MeetingCall zone (setMeeting motionId meetingId actorPersonId)
  | purgePerson (personId : String) (retentionDays : ℕ) (withheld isErasureInForce : Bool) :
      MeetingCall zone (purgePerson personId retentionDays withheld isErasureInForce)
  | recordAttendance (archive : List MemberRegisterEvent) (meetingId : String)
      (input : RecordAttendanceInput) (actorPersonId : String) :
      MeetingCall zone (recordAttendance archive meetingId input actorPersonId)
  | withdrawAttendance (meetingId attendanceId actorPersonId : String) :
      MeetingCall zone (withdrawAttendance meetingId attendanceId actorPersonId)
  | registerProxy (archive : List MemberRegisterEvent) (bylaws : MeetingBylaws)
      (meetingId : String) (input : RegisterProxyInput) (actorPersonId : String) :
      MeetingCall zone (registerProxy zone archive bylaws meetingId input actorPersonId)
  | withdrawProxy (meetingId authorisationId actorPersonId : String) :
      MeetingCall zone (withdrawProxy meetingId authorisationId actorPersonId)

def meetingSystem (zone : Zone) : System MeetingStore MeetingLock Drawn MeetingFailure where
  calls := MeetingCall zone
  prompt _ := False

variable {zone : Zone} {start s s' : MeetingStore} {t : Int}
  {c c' c'' : Config MeetingStore MeetingLock Drawn MeetingFailure}

theorem safe_calls {p : MeetingTx Unit} (hp : MeetingCall zone p) :
    SafeCall (meetingDiscipline zone) (fun _ => False) p := by
  cases hp with
  | arrange => exact safe_arrange
  | conclude => exact safe_conclude
  | setAgenda => exact safe_setAgenda
  | recordDecision => exact safe_recordDecision
  | issue => exact safe_issue
  | submit => exact safe_submit
  | withdraw => exact safe_withdraw
  | acknowledge => exact safe_acknowledge
  | setMeeting => exact safe_setMeeting
  | purgePerson => exact safe_purgePerson
  | recordAttendance => exact safe_recordAttendance
  | withdrawAttendance => exact safe_withdrawAttendance
  | registerProxy => exact safe_registerProxy
  | withdrawProxy => exact safe_withdrawProxy

theorem meetingsSound_empty : MeetingsSound {} := ⟨agendaSound_empty, doorSound_empty⟩

/-! ### What one step does -/

theorem acted_of_step (hsound : MeetingsSound start)
    (hrun : Reaches (meetingSystem zone) (.quiet start t) c)
    (hstep : Step (meetingSystem zone) c c') : Acted zone c.clock c.store c'.store := by
  rcases allowed_of_reaches (D := meetingDiscipline zone) (fun _ hp => safe_calls hp) hsound hrun
    hstep with hsame | ⟨_, _, _, hacted⟩
  · exact .inl hsame
  · exact hacted

theorem sound_of_reaches (hsound : MeetingsSound start)
    (hrun : Reaches (meetingSystem zone) (.quiet start t) c) : MeetingsSound c.store :=
  inv_of_reaches (D := meetingDiscipline zone) (fun _ hp => safe_calls hp) hsound hrun

/-- What stands at one point of a run stands from then on. -/
theorem since_of_reaches (hsound : MeetingsSound start)
    (hrun : Reaches (meetingSystem zone) (.quiet start t) c)
    (hlater : Reaches (meetingSystem zone) c c') : MeetingsSince c.store c'.store := by
  induction hlater with
  | refl => exact .refl _
  | tail hlater hstep ih =>
    have hreached := hrun.trans hlater
    exact ih.trans ((acted_of_step hsound hreached hstep).since (sound_of_reaches hsound hreached))

/-! ### A motion -/

/-- What one step leaves of a motion. -/
inductive MotionStep (t : Int) (s s' : MeetingStore) (motion : Motion) : Prop
  | stays : s'.findMotion motion.id = some motion → MotionStep t s s' motion
  /-- It is closed once. -/
  | closed (status : MotionStatus) (closedAt : Int) (actorPersonId targetPersonId : String) :
      motion.status = .SUBMITTED → status ≠ .SUBMITTED →
      s'.findMotion motion.id = some { motion with
        status, closedAt := some closedAt, closedByPersonId := some actorPersonId } →
      s'.log = .motionClosed motion.id status actorPersonId targetPersonId :: s.log →
      MotionStep t s s' motion
  /-- It is moved, from the meeting the request read it on, between meetings that are open. -/
  | moved (meetingId : Option String) (actorPersonId targetPersonId : String) :
      motion.status ≠ .WITHDRAWN → (∀ id ∈ motion.meetingId, Open s id) →
      (∀ id ∈ meetingId, Open s id) →
      s'.findMotion motion.id = some { motion with meetingId } →
      s'.log = .motionMeetingSet motion.id motion.meetingId meetingId actorPersonId
        targetPersonId :: s.log → MotionStep t s s' motion
  /-- It is erased, closed and off every agenda that is to come. -/
  | erased (personId : String) (motions retentionDays : ℕ) : s'.findMotion motion.id = none →
      offAgendasToCome s motion = true → (∃ closedAt ∈ motion.closedAt, closedAt ≤ t) →
      s'.log = .motionsPurged personId motions retentionDays :: s.log → MotionStep t s s' motion

section Written

variable {motion other : Motion} {f : Motion → Motion}

theorem findMotion_self (hf : ∀ row, (f row).id = row.id) (entry : MeetingEntry)
    (hfound : s.findMotion motion.id = some motion) :
    ((s.writeMotion motion.id f).record entry).findMotion motion.id = some (f motion) := by
  refine (findMotion_written hf motion.id).trans ?_
  rw [if_pos rfl, hfound]
  rfl

theorem findMotion_of_ne (hf : ∀ row, (f row).id = row.id) (entry : MeetingEntry)
    (hne : motion.id ≠ other.id) (hfound : s.findMotion motion.id = some motion) :
    ((s.writeMotion other.id f).record entry).findMotion motion.id = some motion := by
  refine (findMotion_written hf motion.id).trans ?_
  rw [if_neg hne, hfound]

end Written

theorem AgendaAct.motionStep (h : AgendaSound s) (hact : AgendaAct zone t s s') {motion : Motion}
    (hfound : s.findMotion motion.id = some motion) : MotionStep t s s' motion := by
  cases hact with
  | @submitted other entry hnew =>
    refine .stays ((rowAt_cons_of_ne fun hid => ?_).trans hfound)
    rw [← hid, hfound] at hnew
    cases hnew
  | @closed other status closedAt actorPersonId targetPersonId hother hopen hstatus =>
    by_cases hid : motion.id = other.id
    · rw [← hid, hfound] at hother
      obtain rfl := Option.some.inj hother
      refine .closed status closedAt actorPersonId targetPersonId hopen hstatus ?_ rfl
      exact findMotion_self (fun _ => by rfl) _ hfound
    · exact .stays (findMotion_of_ne (fun _ => by rfl) _ hid hfound)
  | @moved other meetingId actorPersonId targetPersonId hother hstatus hfrom hinto =>
    by_cases hid : motion.id = other.id
    · rw [← hid, hfound] at hother
      obtain rfl := Option.some.inj hother
      refine .moved meetingId actorPersonId targetPersonId hstatus hfrom hinto ?_ rfl
      exact findMotion_self (fun _ => by rfl) _ hfound
    · exact .stays (findMotion_of_ne (fun _ => by rfl) _ hid hfound)
  | @erased ids now personId count retentionDays hnow hoff =>
    by_cases hid : motion.id ∈ ids
    · obtain ⟨hoff, closedAt, hclosed, hle⟩ := hoff motion.id hid motion hfound
      refine .erased personId count retentionDays ?_ hoff ⟨closedAt, hclosed, hle.trans hnow⟩ rfl
      exact (findMotion_erased h motion.id).trans (if_pos hid)
    · exact .stays ((findMotion_erased h motion.id).trans ((if_neg hid).trans hfound))
  | _ => exact .stays hfound

theorem Acted.motionStep (h : MeetingsSound s) (hacted : Acted zone t s s') {motion : Motion}
    (hfound : s.findMotion motion.id = some motion) : MotionStep t s s' motion := by
  rcases hacted with rfl | hact | hact
  · exact .stays hfound
  · exact hact.motionStep h.agenda hfound
  · exact .stays ((congrArg (rowAt Motion.id · motion.id) hact.same.motions).trans hfound)

/-- **The agendas in every run.**  The meetings, their notices, agendas and decisions and the motions
agree; from the notice on the agenda of a meeting and the motions on it stand, and a decision is
there from when it is minuted; and each step closes a motion once, moves it from where it is read
between meetings that are open, or erases it. -/
theorem agendas_of_reaches (hsound : MeetingsSound start)
    (hrun : Reaches (meetingSystem zone) (.quiet start t) c)
    (hlater : Reaches (meetingSystem zone) c c') :
    AgendaSound c'.store ∧ AgendaSince c.store c'.store ∧
      ∀ c'', Step (meetingSystem zone) c' c'' → ∀ motion : Motion,
        c'.store.findMotion motion.id = some motion →
          MotionStep c'.clock c'.store c''.store motion := by
  have hreached := hrun.trans hlater
  have hsound' := sound_of_reaches hsound hreached
  refine ⟨hsound'.agenda, (since_of_reaches hsound hrun hlater).agenda, ?_⟩
  exact fun c'' hstep motion hfound => (acted_of_step hsound hreached hstep).motionStep hsound' hfound

section SettledOnce

def drawnAs (id : String) : ℕ → Drawn := fun _ => ⟨fun _ => id, 5⟩

/-- A meeting that has been arranged, a motion a member has put, and the motion on the meeting. -/
def arranged : MeetingStore where
  meetings := [⟨"g1", .ORDINARY, ⟨2026, 5, 20⟩, none⟩]
  log := [.arranged "g1" .ORDINARY ⟨2026, 5, 20⟩ "p1"]

def motionPut : MeetingStore :=
  { arranged with
    motions := [⟨"m1", "Cyklar", "Ett ställ", "p2", .SUBMITTED, none, none, none⟩]
    log := .motionSubmitted "m1" "p2" 6 9 :: arranged.log }

def motionTakenUp : MeetingStore :=
  { motionPut with
    motions := [⟨"m1", "Cyklar", "Ett ställ", "p2", .SUBMITTED, none, none, some "g1"⟩]
    log := .motionMeetingSet "m1" none (some "g1") "p1" "p2" :: motionPut.log }

theorem firstCommit_arrange {t : Int} : firstCommit (arrange .ORDINARY "2026-05-20" "p1")
    ⟨t, drawnAs "g1", {}, {}⟩ = some arranged := rfl

/-- Afternoons of the twelfth of April and of the twentieth of May. -/
def inApril : Int := 1776000000000
def inMay : Int := 1779300000000

/-- Members from the first of January 2020 on. -/
def twoMembers : List MemberRegisterEvent :=
  [⟨"e1", "p2", .ENTRY, 18262, none, 1⟩, ⟨"e2", "p4", .ENTRY, 18262, none, 2⟩]

/-- The agenda is set and the meeting summoned, held and minuted, and the motion answered. -/
def agendaSet : MeetingStore :=
  { motionTakenUp with
    items := [⟨"i1", "g1", 1, "Val"⟩, ⟨"i2", "g1", 2, "Cyklar"⟩]
    log := .agendaSet "g1" 2 "p1" :: motionTakenUp.log }

def summoned : MeetingStore :=
  { agendaSet with
    notices := [⟨"n1", "g1", 1779301800000, "Gården", none, inApril, "p1"⟩]
    deliveries := [⟨"n1", "p2"⟩, ⟨"n1", "p4"⟩]
    log := .noticeIssued "g1" 2 ⟨2026, 5, 20⟩ "p1" :: agendaSet.log }

def held : MeetingStore :=
  { summoned with
    meetings := [⟨"g1", .ORDINARY, ⟨2026, 5, 20⟩, some inMay⟩]
    log := .held "g1" ⟨2026, 5, 20⟩ "p1" :: summoned.log }

def minuted : MeetingStore :=
  { held with
    decisions := [⟨"i1", .CARRIED, 1, 1, 0, true, "p1"⟩]
    log := .decisionRecorded "g1" ⟨"i1", .CARRIED, 1, 1, 0, true, "p1"⟩ :: held.log }

def answered : MeetingStore :=
  { minuted with
    motions := [⟨"m1", "Cyklar", "Ett ställ", "p2", .ACKNOWLEDGED, some inMay, some "p1", some "g1"⟩]
    log := .motionClosed "m1" .ACKNOWLEDGED "p1" "p2" :: minuted.log }

/-- One call, alone. -/
theorem reaches_inUtc {p : MeetingTx Unit} (hp : MeetingCall utc p) (draws : ℕ → Drawn)
    (h : firstCommit p ⟨t, draws, s, s⟩ = some s') :
    Reaches (meetingSystem utc) (.quiet s t) (.quiet s' t) := reaches_called hp draws h

def notice : IssueNoticeInput := ⟨"18:30", "Gården", none⟩

theorem commits_inApril :
    firstCommit (submit "Cyklar" "Ett ställ" true none "p2")
      ⟨inApril, drawnAs "m1", arranged, arranged⟩ = some motionPut ∧
    firstCommit (setMeeting "m1" (some "g1") "p1")
      ⟨inApril, drawnAs "", motionPut, motionPut⟩ = some motionTakenUp ∧
    firstCommit (setAgenda "g1" ⟨["Val", "Cyklar"], none⟩ "p1")
      ⟨inApril, fun _ => ⟨fun index => if index = 0 then "i1" else "i2", 5⟩, motionTakenUp,
        motionTakenUp⟩ = some agendaSet ∧
    firstCommit (issue utc twoMembers "g1" notice "p1")
      ⟨inApril, fun _ => ⟨fun _ => "n1", inApril⟩, agendaSet, agendaSet⟩ = some summoned := by
  decide +kernel

theorem commits_inMay :
    firstCommit (conclude utc "g1" "p1") ⟨inMay, drawnAs "", summoned, summoned⟩ = some held ∧
    firstCommit (recordDecision "g1" "i1" ⟨.CARRIED, 1, 1, 0, true⟩ "p1")
      ⟨inMay, drawnAs "", held, held⟩ = some minuted ∧
    firstCommit (acknowledge "m1" "p1") ⟨inMay, drawnAs "", minuted, minuted⟩ = some answered := by
  decide +kernel

/-- The motion is moved onto the meeting, which is open; the meeting is summoned and held; and then
the motion is answered. -/
theorem agendas_of_motionTakenUp : ∃ c c' d d' : Config MeetingStore MeetingLock Drawn MeetingFailure,
    Reaches (meetingSystem utc) (.quiet {} inApril) c ∧ Step (meetingSystem utc) c c' ∧
      Reaches (meetingSystem utc) c' (.quiet summoned inMay) ∧
      Reaches (meetingSystem utc) (.quiet summoned inMay) d ∧ Step (meetingSystem utc) d d' ∧
      c.store = motionPut ∧ c'.store = motionTakenUp ∧ d.store = minuted ∧ d'.store = answered ∧
      (∀ motion : Motion, c.store.findMotion motion.id = some motion →
        MotionStep c.clock c.store c'.store motion) ∧
      AgendaSound d.store ∧ AgendaSince summoned d.store ∧
      ∀ motion : Motion, d.store.findMotion motion.id = some motion →
        MotionStep d.clock d.store d'.store motion := by
  obtain ⟨hput, htaken, hagenda, hsummoned⟩ := commits_inApril
  obtain ⟨hheld, hminuted, hanswered⟩ := commits_inMay
  have hapril : Reaches (meetingSystem utc) (.quiet {} inApril) (.quiet motionPut inApril) :=
    (reaches_inUtc (.arrange _ _ _) _ firstCommit_arrange).trans
      (reaches_inUtc (.submit _ _ _ _ _) _ hput)
  have hset : (meetingSystem utc).calls (setMeeting "m1" (some "g1") "p1") := .setMeeting _ _ _
  obtain ⟨c, c', hrun, hstep, -, hstore, hstore', hend⟩ := reaches_call hset _ htaken
  have hreached := hapril.trans hrun
  obtain ⟨-, -, hmoved⟩ := agendas_of_reaches meetingsSound_empty hreached .refl
  -- the meeting is summoned in April, and the day comes
  have hnotice := (reaches_inUtc (.setAgenda _ _ _) _ hagenda).trans
    (reaches_inUtc (.issue _ _ _ _) _ hsummoned)
  have hday : Reaches (meetingSystem utc) (.quiet summoned inApril) (.quiet summoned inMay) :=
    .single (.tick (by decide))
  have hsettled := hend.trans (hnotice.trans hday)
  have hmay := (reaches_inUtc (.conclude _ _) _ hheld).trans
    (reaches_inUtc (.recordDecision _ _ _ _) _ hminuted)
  have hanswer : (meetingSystem utc).calls (acknowledge "m1" "p1") := .acknowledge _ _
  obtain ⟨d, d', hrun', hstep', -, hlater, hlater', -⟩ := reaches_call hanswer _ hanswered
  obtain ⟨hsound, hsince, hclosed⟩ := agendas_of_reaches meetingsSound_empty
    ((hreached.tail hstep).trans hsettled) (hmay.trans hrun')
  exact ⟨c, c', d, d', hreached, hstep, hsettled, hmay.trans hrun', hstep', hstore, hstore', hlater,
    hlater', hmoved c' hstep, hsound, hsince, hclosed d' hstep'⟩

end SettledOnce

/-! ### An authority -/

/-- An authority that comes to stand is registered, and its holder then carries no more members than
the bylaws allowed. -/
def Registers (s s' : MeetingStore) : Prop :=
  ∀ row ∈ s'.authorisations, row.withdrawnAt = none → row ∉ s.authorisations →
    ∃ limit actorPersonId log, s'.log = .proxyRegistered row.id row.meetingId row.memberPersonId
        row.proxyHolderPersonId row.ground row.authorisedOn limit actorPersonId :: log ∧
      (carriedBy row.meetingId row.proxyHolderPersonId s').length ≤ limit

theorem DoorAct.registers (h : DoorSound s) (hact : DoorAct s s') : Registers s s' := by
  intro row hrow hstands hnew
  cases hact with
  | entered => exact absurd hrow hnew
  | takenUp => exact absurd hrow hnew
  | @struck line withdrawnAt assistant log =>
    obtain ⟨f, -, heq⟩ := exists_struck ((line.id, withdrawnAt) :: assistant) s
    rw [heq] at hrow
    exact absurd hrow hnew
  | @registered other ended limit actorPersonId log _ _ _ _ _ _ hlimit =>
    rcases List.mem_cons.mp hrow with rfl | hrow
    · exact ⟨limit, actorPersonId, log, rfl, hlimit⟩
    · exact absurd (mem_superseded.mp ⟨hrow, hstands⟩).1 hnew
  | @renewed other input authorisedOn ended limit actorPersonId log _ hother _ _ hne hlimit =>
    obtain ⟨old, hold, ⟨hid, rfl⟩ | ⟨-, rfl⟩⟩ := mem_overwrite.mp hrow
    · have hsuperseded := h.supersede ended log
      rw [hsuperseded.authorisations.eq_of_key hold (mem_superseded_of_ne hother hne) hid]
      exact ⟨limit, actorPersonId, log, rfl, hlimit⟩
    · exact absurd (mem_superseded.mp ⟨hold, hstands⟩).1 hnew
  | @ended other withdrawnAt =>
    obtain ⟨old, hold, ⟨-, rfl⟩ | ⟨-, rfl⟩⟩ := mem_overwrite.mp hrow
    · cases hstands
    · exact absurd hold hnew

theorem Acted.registers (h : MeetingsSound s) (hacted : Acted zone t s s') : Registers s s' := by
  rcases hacted with rfl | hact | hact
  · exact fun row hrow _ hnew => absurd hrow hnew
  · exact fun row hrow _ hnew => absurd (hact.same.rows ▸ hrow) hnew
  · exact hact.registers h.door

/-- **The lists and the authorisations in every run.**  Whoever stands as an assistant was brought by
somebody who stands, alone; a member has one authority that stands; each is registered within what
the bylaws allowed its holder; and nothing is taken from the list or the authorisations, nor written
in those of a meeting that has been held. -/
theorem doors_of_reaches (hsound : MeetingsSound start)
    (hrun : Reaches (meetingSystem zone) (.quiet start t) c)
    (hlater : Reaches (meetingSystem zone) c c') :
    DoorSound c'.store ∧ DoorSince c.store c'.store ∧
      ∀ c'', Step (meetingSystem zone) c' c'' → Registers c'.store c''.store := by
  have hreached := hrun.trans hlater
  have hsound' := sound_of_reaches hsound hreached
  refine ⟨hsound'.door, (since_of_reaches hsound hrun hlater).door, ?_⟩
  exact fun c'' hstep => (acted_of_step hsound hreached hstep).registers hsound'

section RegisteredOnce

def ownLine : MeetingAttendance := ⟨"l1", "g1", "p2", .MEMBER, .IN_PERSON, none, none⟩

def assistantLine : MeetingAttendance :=
  ⟨"l2", "g1", "p5", .ASSISTANT, .IN_PERSON, some "p2", none⟩

/-- A member is on the list, with an assistant; carries another member's vote; and leaves. -/
def memberListed : MeetingStore :=
  { arranged with
    attendances := [ownLine]
    log := .attendanceRecorded "l1" "g1" "p2" .MEMBER .IN_PERSON "p1" :: arranged.log }

def assistantListed : MeetingStore :=
  { memberListed with
    attendances := [assistantLine, ownLine]
    log := .attendanceRecorded "l2" "g1" "p5" .ASSISTANT .IN_PERSON "p1" :: memberListed.log }

def registered : MeetingStore :=
  { assistantListed with
    authorisations := [⟨"a1", "g1", "p4", "p2", .MEMBER, ⟨2026, 5, 1⟩, none, "p1"⟩]
    log := .proxyRegistered "a1" "g1" "p4" "p2" .MEMBER ⟨2026, 5, 1⟩ 1 "p1" ::
      assistantListed.log }

def left : MeetingStore :=
  { registered with
    attendances := [{ assistantLine with withdrawnAt := some inMay },
      { ownLine with withdrawnAt := some inMay }]
    log := .attendanceWithdrawn "l2" "g1" "p5" .ASSISTANT true "p1" ::
      .attendanceWithdrawn "l1" "g1" "p2" .MEMBER false "p1" :: registered.log }

def oneAuthority : RegisterProxyInput := ⟨"p4", "p2", .MEMBER, "2026-05-01"⟩

theorem commits_atTheDoor :
    firstCommit (recordAttendance twoMembers "g1" ⟨"p2", .MEMBER, .IN_PERSON, none⟩ "p1")
      ⟨inMay, drawnAs "l1", arranged, arranged⟩ = some memberListed ∧
    firstCommit (recordAttendance twoMembers "g1" ⟨"p5", .ASSISTANT, .IN_PERSON, some "p2"⟩ "p1")
      ⟨inMay, drawnAs "l2", memberListed, memberListed⟩ = some assistantListed ∧
    firstCommit (registerProxy utc twoMembers ⟨false, 1⟩ "g1" oneAuthority "p1")
      ⟨inMay, drawnAs "a1", assistantListed, assistantListed⟩ = some registered ∧
    firstCommit (withdrawAttendance "g1" "l1" "p1") ⟨inMay, drawnAs "", registered, registered⟩ =
      some left := by
  decide +kernel

/-- The authority comes to stand, its holder carries the one member they may, and the assistant
leaves with the one who brought them. -/
theorem doors_of_registered : ∃ c c' : Config MeetingStore MeetingLock Drawn MeetingFailure,
    Reaches (meetingSystem utc) (.quiet {} inMay) c ∧ Step (meetingSystem utc) c c' ∧
      Reaches (meetingSystem utc) c' (.quiet left inMay) ∧
      c.store = assistantListed ∧ c'.store = registered ∧ DoorSound c.store ∧
      DoorSince memberListed c.store ∧ Registers c.store c'.store ∧ DoorSound left ∧
      DoorSince memberListed left := by
  obtain ⟨hmember, hassistant, hregistered, hleft⟩ := commits_atTheDoor
  have hlisted : Reaches (meetingSystem utc) (.quiet {} inMay) (.quiet memberListed inMay) :=
    (reaches_inUtc (.arrange _ _ _) _ firstCommit_arrange).trans
      (reaches_inUtc (.recordAttendance _ _ _ _) _ hmember)
  have hbrought : Reaches (meetingSystem utc) (.quiet memberListed inMay)
      (.quiet assistantListed inMay) := reaches_inUtc (.recordAttendance _ _ _ _) _ hassistant
  have hregister : (meetingSystem utc).calls
      (registerProxy utc twoMembers ⟨false, 1⟩ "g1" oneAuthority "p1") := .registerProxy _ _ _ _ _
  obtain ⟨c, c', hrun, hstep, -, hstore, hstore', hend⟩ := reaches_call hregister _ hregistered
  have hgone := hend.trans (reaches_inUtc (.withdrawAttendance _ _ _) _ hleft)
  have hlater := hbrought.trans hrun
  obtain ⟨hsound, hsince, hregisters⟩ := doors_of_reaches meetingsSound_empty hlisted hlater
  obtain ⟨hsound', hsince', -⟩ := doors_of_reaches meetingsSound_empty hlisted
    ((hlater.tail hstep).trans hgone)
  exact ⟨c, c', hlisted.trans hlater, hstep, hgone, hstore, hstore', hsound, hsince,
    hregisters c' hstep, hsound', hsince'⟩

end RegisteredOnce

end OpenBrf.Meetings
