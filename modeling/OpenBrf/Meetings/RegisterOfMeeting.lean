import Mathlib.Data.List.Perm.Subperm
import OpenBrf.Meetings.MeetingRuns
import OpenBrf.Meetings.VotingLines
import OpenBrf.Registers.Store

/-!
# Meetings.RegisterOfMeeting — the voting register that is read of a meeting (`meeting.service.ts`)

A meeting is read in one snapshot.  What every run keeps of its list and its authorisations is what
the register is drawn on.
-/

namespace OpenBrf.Meetings

open Txn Lang Shared Registers MeetingStore

/-- The apartments that memberships covered on the meeting day. -/
def holdingsOn (residencies : List Residency) (meetingDay : Int) : List VotingRegisterHolding :=
  (residencies.filter fun residency => residency.role = .MEMBER &&
    residency.movedInOn ≤ meetingDay && residency.movedOutOn.all (meetingDay < ·)).map
      fun residency => ⟨residency.personId, residency.apartmentId⟩

def MeetingAttendance.counted (line : MeetingAttendance) : VotingRegisterAttendance :=
  ⟨line.personId, line.capacity, line.withdrawnAt⟩

def ProxyAuthorisation.counted (row : ProxyAuthorisation) : VotingRegisterProxyAuthorisation :=
  ⟨row.memberPersonId, row.proxyHolderPersonId, row.ground, row.authorisedOn.number,
    row.withdrawnAt⟩

section Reading

variable (archive : List MemberRegisterEvent) (residencies : List Residency)
  (storageOnlyVoteLimited : Bool)

/-- The rows the register of a meeting is drawn from.  `archive` and `residencies` are what the
registers then read. -/
def registerInput (meetingId : String) (meetingDay : Int) (s : MeetingStore) :
    VotingRegisterInput MemberRegisterEvent where
  events := resolveRegisterEvents archive
  meetingDay := meetingDay
  holdings := holdingsOn residencies meetingDay
  attendances := (linesAt s meetingId).map (·.counted)
  proxyAuthorisations := (authoritiesAt s meetingId).reverse.map (·.counted)
  storageOnlyVoteLimited := storageOnlyVoteLimited

/-- The voting register of a meeting, drawn from the member register as of the meeting day. -/
def readVotingRegister (meetingId : String) (s : MeetingStore) : Option VotingRegister :=
  (findMeeting s meetingId).map fun meeting => votingRegister
    (registerInput archive residencies storageOnlyVoteLimited meetingId meeting.heldOn.number s)

end Reading

variable {archive : List MemberRegisterEvent} {residencies : List Residency}
  {storageOnlyVoteLimited : Bool} {meetingId : String} {meetingDay : Int} {s s' : MeetingStore}

/-! ### What the lists are counted as -/

theorem stands_registerInput {capacity : AttendanceCapacity} {personId : String} :
    Stands (registerInput archive residencies storageOnlyVoteLimited meetingId meetingDay s)
        capacity personId ↔
      ∃ line ∈ s.attendances, line.meetingId = meetingId ∧ line.personId = personId ∧
        line.capacity = capacity ∧ line.withdrawnAt = none := by
  constructor
  · rintro ⟨_, hmem, hperson, hcapacity, hstands⟩
    obtain ⟨line, hline, rfl⟩ := List.mem_map.mp hmem
    obtain ⟨hline, hat⟩ := List.mem_filter.mp hline
    exact ⟨line, hline, of_decide_eq_true hat, hperson, hcapacity, hstands⟩
  · rintro ⟨line, hline, hat, hperson, hcapacity, hstands⟩
    exact ⟨line.counted, List.mem_map.mpr ⟨line, List.mem_filter.mpr
      ⟨hline, decide_eq_true hat⟩, rfl⟩, hperson, hcapacity, hstands⟩

theorem DoorSound.oneStanding (h : DoorSound s) : OneStanding
    (registerInput archive residencies storageOnlyVoteLimited meetingId meetingDay s) := by
  intro first hfirst second hsecond hstands hstands' hmember
  obtain ⟨row, hrow, rfl⟩ := List.mem_map.mp hfirst
  obtain ⟨other, hother, rfl⟩ := List.mem_map.mp hsecond
  obtain ⟨hrow, hat⟩ := List.mem_filter.mp (List.mem_reverse.mp hrow)
  obtain ⟨hother, hat'⟩ := List.mem_filter.mp (List.mem_reverse.mp hother)
  rw [h.oneHolder meetingId row.memberPersonId row hrow other hother
    ⟨of_decide_eq_true hat, rfl, hstands⟩ ⟨of_decide_eq_true hat', hmember.symm, hstands'⟩]

/-- Whoever is counted as present with a vote or an authority. -/
def principalsPresent (attendances : List VotingRegisterAttendance) : List String :=
  addAll (presentAs attendances .PROXY_HOLDER) (presentAs attendances .MEMBER)

theorem mem_principalsPresent {personId : String} : personId ∈ principalsPresent
      (registerInput archive residencies storageOnlyVoteLimited meetingId meetingDay s).attendances ↔
    Present s meetingId personId := by
  unfold principalsPresent
  rw [mem_addAll, mem_presentAs_iff, mem_presentAs_iff, stands_registerInput, stands_registerInput]
  constructor
  · rintro (⟨line, hline, hat, hperson, hcapacity, hstands⟩ |
      ⟨line, hline, hat, hperson, hcapacity, hstands⟩)
    · exact ⟨line, hline, hat, hperson, by rw [hcapacity]; decide, hstands⟩
    · exact ⟨line, hline, hat, hperson, by rw [hcapacity]; decide, hstands⟩
  · rintro ⟨line, hline, hat, hperson, hown, hstands⟩
    cases hcapacity : line.capacity with
    | MEMBER => exact .inr ⟨line, hline, hat, hperson, hcapacity, hstands⟩
    | PROXY_HOLDER => exact .inl ⟨line, hline, hat, hperson, hcapacity, hstands⟩
    | ASSISTANT => exact absurd hcapacity hown

/-- No more assistants are counted than there are members and proxy holders to have brought them. -/
theorem DoorSound.assistants_le (h : DoorSound s) :
    (presentAs (registerInput archive residencies storageOnlyVoteLimited meetingId meetingDay
        s).attendances .ASSISTANT).length ≤
      (principalsPresent (registerInput archive residencies storageOnlyVoteLimited meetingId
        meetingDay s).attendances).length := by
  have hbrought : ∀ personId ∈ presentAs (registerInput archive residencies storageOnlyVoteLimited
      meetingId meetingDay s).attendances .ASSISTANT, ∃ principal, ∃ line ∈ s.attendances,
        line.personId = personId ∧ line.standingEntry = some (meetingId, principal) := by
    intro personId hmem
    obtain ⟨line, hline, hat, hperson, hcapacity, hstands⟩ :=
      stands_registerInput.mp (mem_presentAs_iff.mp hmem)
    obtain ⟨principal, hbehalf⟩ :=
      Option.ne_none_iff_exists'.mp ((h.assistant line hline).mpr hcapacity)
    exact ⟨principal, line, hline, hperson, standingEntry_eq.mpr ⟨hstands, hat, hbehalf⟩⟩
  choose! principal hprincipal using hbrought
  have hnodup : (presentAs (registerInput archive residencies storageOnlyVoteLimited meetingId
      meetingDay s).attendances .ASSISTANT).Nodup := nodup_presentAs _ _ [] List.nodup_nil
  have hapart : ∀ p ∈ presentAs (registerInput archive residencies storageOnlyVoteLimited meetingId
      meetingDay s).attendances .ASSISTANT, ∀ q ∈ presentAs (registerInput archive residencies
        storageOnlyVoteLimited meetingId meetingDay s).attendances .ASSISTANT,
          principal p = principal q → p = q := by
    intro p hp q hq heq
    obtain ⟨line, hline, hperson, hentry⟩ := hprincipal p hp
    obtain ⟨other, hother, hperson', hentry'⟩ := hprincipal q hq
    rw [← heq] at hentry'
    rw [← hperson, ← hperson', h.oneAssistant line hline other hother _ hentry hentry']
  have hsub : (presentAs (registerInput archive residencies storageOnlyVoteLimited meetingId
      meetingDay s).attendances .ASSISTANT).map principal ⊆ principalsPresent
        (registerInput archive residencies storageOnlyVoteLimited meetingId meetingDay
          s).attendances := by
    intro person hperson
    obtain ⟨p, hp, rfl⟩ := List.mem_map.mp hperson
    obtain ⟨line, hline, -, hentry⟩ := hprincipal p hp
    exact mem_principalsPresent.mpr (h.brought line hline meetingId _ hentry)
  have hlength := (List.subperm_of_subset (hnodup.map_on hapart) hsub).length_le
  rwa [List.length_map] at hlength

/-- The register of a meeting that has been held is drawn from what it was drawn from. -/
theorem readVotingRegister_settled (h : MeetingsSince s s') (hheld : Concluded s meetingId) :
    readVotingRegister archive residencies storageOnlyVoteLimited meetingId s' =
      readVotingRegister archive residencies storageOnlyVoteLimited meetingId s := by
  obtain ⟨meeting, hfound, hconcluded⟩ := hheld
  obtain ⟨meeting', hfound', -, hsame⟩ := h.agenda.meetings meetingId meeting hfound
  obtain rfl := hsame hconcluded
  have hheld : Concluded s meetingId := ⟨meeting', hfound, hconcluded⟩
  unfold readVotingRegister registerInput
  rw [hfound, hfound', h.door.settledLines meetingId hheld, h.door.settledRows meetingId hheld]

/-- **The register that is read of a meeting**, at any point of any run: it is drawn from the members
of the day, the list and the authorisations as they stand, counts no more assistants than there are
members and proxy holders to have brought them, and once the meeting has been held is the same from
then on. -/
theorem registers_of_reaches (archive : List MemberRegisterEvent) (residencies : List Residency)
    (storageOnlyVoteLimited : Bool) {zone : Zone} {start : MeetingStore} {t : Int}
    {c c' : Config MeetingStore MeetingLock Drawn MeetingFailure} (hsound : MeetingsSound start)
    (hrun : Reaches (meetingSystem zone) (.quiet start t) c)
    (hlater : Reaches (meetingSystem zone) c c') {meeting : Meeting}
    (hmeeting : c'.store.findMeeting meetingId = some meeting) :
    let input := registerInput archive residencies storageOnlyVoteLimited meetingId
      meeting.heldOn.number c'.store
    ∃ register, readVotingRegister archive residencies storageOnlyVoteLimited meetingId c'.store =
        some register ∧ DrawnFrom input register ∧
      register.assistantsPresent ≤ (principalsPresent input.attendances).length ∧
      (Concluded c.store meetingId →
        readVotingRegister archive residencies storageOnlyVoteLimited meetingId c.store =
          some register) := by
  intro input
  have hsound' := sound_of_reaches hsound (hrun.trans hlater)
  have hread : readVotingRegister archive residencies storageOnlyVoteLimited meetingId c'.store =
      some (votingRegister input) := by
    unfold readVotingRegister
    rw [hmeeting]
    rfl
  refine ⟨votingRegister input, hread, drawnFrom_votingRegister hsound'.door.oneStanding,
    hsound'.door.assistants_le, fun hheld => ?_⟩
  rw [← readVotingRegister_settled (since_of_reaches hsound hrun hlater) hheld]
  exact hread

section SentSomebody

/-- The meeting is concluded with the holder of the authority present, and a motion is put after. -/
def holderPresent : MeetingStore :=
  { registered with
    attendances := [⟨"l3", "g1", "p2", .PROXY_HOLDER, .IN_PERSON, none, none⟩, assistantLine, ownLine]
    log := .attendanceRecorded "l3" "g1" "p2" .PROXY_HOLDER .IN_PERSON "p1" :: registered.log }

def concluded : MeetingStore :=
  { holderPresent with
    meetings := [⟨"g1", .ORDINARY, ⟨2026, 5, 20⟩, some inMay⟩]
    log := .held "g1" ⟨2026, 5, 20⟩ "p1" :: holderPresent.log }

def afterwards : MeetingStore :=
  { concluded with
    motions := [⟨"m1", "Cyklar", "Ett ställ", "p2", .SUBMITTED, none, none, none⟩]
    log := .motionSubmitted "m1" "p2" 6 9 :: concluded.log }

def twoResidencies : List Residency :=
  [⟨"r1", "p2", "a1", .MEMBER, 18262, none⟩, ⟨"r2", "p4", "a2", .MEMBER, 18262, none⟩]

theorem commits_afterwards :
    firstCommit (recordAttendance twoMembers "g1" ⟨"p2", .PROXY_HOLDER, .IN_PERSON, none⟩ "p1")
      ⟨inMay, drawnAs "l3", registered, registered⟩ = some holderPresent ∧
    firstCommit (conclude utc "g1" "p1") ⟨inMay, drawnAs "", holderPresent, holderPresent⟩ =
      some concluded ∧
    firstCommit (submit "Cyklar" "Ett ställ" true none "p2")
      ⟨inMay, drawnAs "m1", concluded, concluded⟩ = some afterwards ∧
    (readVotingRegister twoMembers twoResidencies false "g1" afterwards).map
      (fun register => (register.votesTotal, register.votesPresent, register.assistantsPresent)) =
      some (2, 2, 1) := by
  decide +kernel

/-- One of two members has sent the other, who is there with an assistant; and what is read then is
read afterwards. -/
theorem registers_of_holderPresent :
    ∃ register, Reaches (meetingSystem utc) (.quiet {} inMay) (.quiet concluded inMay) ∧
      Reaches (meetingSystem utc) (.quiet concluded inMay) (.quiet afterwards inMay) ∧
      readVotingRegister twoMembers twoResidencies false "g1" afterwards = some register ∧
      (register.votesTotal, register.votesPresent, register.assistantsPresent) = (2, 2, 1) ∧
      DrawnFrom (registerInput twoMembers twoResidencies false "g1"
        (LocalDay.number ⟨2026, 5, 20⟩) afterwards) register ∧
      readVotingRegister twoMembers twoResidencies false "g1" concluded = some register := by
  obtain ⟨hmember, hassistant, hregistered, -⟩ := commits_atTheDoor
  obtain ⟨hholder, hheld, hput, hvotes⟩ := commits_afterwards
  have hlisted : Reaches (meetingSystem utc) (.quiet {} inMay) (.quiet assistantListed inMay) :=
    ((reaches_inUtc (.arrange _ _ _) _ firstCommit_arrange).trans
      (reaches_inUtc (.recordAttendance _ _ _ _) _ hmember)).trans
      (reaches_inUtc (.recordAttendance _ _ _ _) _ hassistant)
  have hsent := (reaches_inUtc (.registerProxy _ _ _ _ _) _ hregistered).trans
    (reaches_inUtc (.recordAttendance _ _ _ _) _ hholder)
  have hconcluded := hlisted.trans (hsent.trans (reaches_inUtc (.conclude _ _) _ hheld))
  have hlater : Reaches (meetingSystem utc) (.quiet concluded inMay) (.quiet afterwards inMay) :=
    reaches_inUtc (.submit _ _ _ _ _) _ hput
  have hmeeting : afterwards.findMeeting "g1" =
      some ⟨"g1", .ORDINARY, ⟨2026, 5, 20⟩, some inMay⟩ := rfl
  obtain ⟨register, hread, hdrawn, -, hsame⟩ := registers_of_reaches twoMembers twoResidencies false
    meetingsSound_empty hconcluded hlater hmeeting
  refine ⟨register, hconcluded, hlater, hread, ?_, hdrawn, hsame ⟨_, rfl, ?_⟩⟩
  · change readVotingRegister twoMembers twoResidencies false "g1" afterwards = _ at hread
    rw [hread] at hvotes
    exact Option.some.inj hvotes
  · exact Option.some_ne_none _

end SentSomebody

end OpenBrf.Meetings
