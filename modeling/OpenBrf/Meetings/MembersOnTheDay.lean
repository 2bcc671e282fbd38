import Mathlib.Data.List.Find
import OpenBrf.Meetings.VotingLines
import OpenBrf.Registers.PeriodPairing

/-!
# Meetings.MembersOnTheDay — who is summoned, let in and counted (`meeting-notice.service.ts`,
`meeting.service.ts`)

Three readings of one archive.  The notice and the register read it whole, the door reads one
person's rows of it; the register takes an exit with no entry for a membership, the notice does not.
-/

namespace OpenBrf.Meetings

open Lang Shared Registers Timeline RegisterRow

section Readers

variable {Row : Type} [RegisterRow Row]

/-- The members the register shows on a given day, from the archive as it is read. -/
def MeetingNotice.membersOn (rows : List Row) (on : Int) : List String :=
  (membershipPeriods (resolveRegisterEvents rows)).foldl (fun members period =>
    let begun := period.entry.any fun entry => entry.eventOn ≤ on
    if begun && isCurrentMembership period on then addTo period.personId members else members) []

/-- Whether the register shows this person as a member on the given day: a register of that person's
rows alone. -/
def MeetingService.isMemberOn (archive : List Row) (personId : String) (meetingDay : Int) : Bool :=
  let rows := archive.filter fun row => (event row).personId = personId
  let input : VotingRegisterInput Row := {
    events := resolveRegisterEvents rows
    meetingDay
    holdings := []
    attendances := []
    proxyAuthorisations := []
    storageOnlyVoteLimited := false }
  let register := votingRegister input
  register.lines.any fun line => line.memberPersonIds.contains personId

end Readers

variable {Row : Type} [RegisterRow Row] {rows : List Row} {personId : String}

/-! ### One person's events -/

/-- One person's events, in the order they are paired in. -/
def inOrder (events : List (ResolvedRegisterEvent Row)) (personId : String) :
    List (ResolvedRegisterEvent Row) :=
  chronologically (events.filter fun e => e.personId = personId)

/-- Every EXIT comes after an ENTRY that no other EXIT has ended: none closes nothing. -/
def exitsEnd : Bool → List (ResolvedRegisterEvent Row) → Bool
  | _, [] => true
  | opened, e :: es => if e.isEntry then exitsEnd true es else opened && exitsEnd false es

/-- An exit with no entry, after a day. -/
def OpenStart (periods : List (MembershipPeriod Row)) (day : Int) : Prop :=
  ∃ period ∈ periods, period.entry = none ∧ ∀ exit ∈ period.exit, day < exit.eventOn

/-- Whether the last event on or before a day makes a person a member. -/
def lastReads (events : List (ResolvedRegisterEvent Row)) (personId : String) (day : Int) : Bool :=
  lastSays none (inOrder events personId) day

/-- The periods paired from one person's events are that person's. -/
theorem membershipPeriods_filter (events : List (ResolvedRegisterEvent Row)) (personId : String) :
    membershipPeriods (events.filter fun e => e.personId = personId) =
      periodsOf events personId := by
  have hown : periodsOf (events.filter fun e => e.personId = personId) personId =
      membershipPeriods (events.filter fun e => e.personId = personId) := by
    refine List.filter_eq_self.mpr fun period hperiod => decide_eq_true ?_
    obtain ⟨key, hkey, hpaired⟩ := List.mem_flatMap.mp hperiod
    rw [List.mem_eraseDups, List.mem_map] at hkey
    obtain ⟨e, he, rfl⟩ := hkey
    rw [personId_of_mem_pairEvents hpaired]
    exact of_decide_eq_true (List.mem_filter.mp he).2
  rw [← hown, periodsOf_eq, periodsOf_eq, List.filter_filter]
  simp

/-- **The register** counts those too whose exit has no entry and is yet to come. -/
theorem isMemberOn_iff (events : List (ResolvedRegisterEvent Row)) (day : Int) :
    isMemberOn events (.ofNumber day) personId = true ↔
      lastReads events personId day = true ∨ OpenStart (periodsOf events personId) day := by
  have hcovers : ∀ period : MembershipPeriod Row, coversDay (.ofNumber day) period = true ↔
      period.Covers day ∨ period.entry = none ∧ ∀ exit ∈ period.exit, day < exit.eventOn := by
    intro period
    unfold coversDay MembershipPeriod.Covers
    simp only [compareLocalDays, LocalDay.number_ofNumber]
    cases period.entry <;> cases period.exit <;> simp
  unfold isMemberOn lastReads OpenStart
  rw [membershipPeriods_filter, List.any_eq_true]
  simp only [hcovers]
  rw [show inOrder events personId = chronologically (events.filter fun e => e.personId = personId)
    from rfl, ← (pairedInto events).lastEvent personId day]
  constructor
  · rintro ⟨period, hmem, hin | hopen⟩
    · exact .inl ⟨period, hmem, hin⟩
    · exact .inr ⟨period, hmem, hopen⟩
  · rintro (⟨period, hmem, hin⟩ | ⟨period, hmem, hopen⟩)
    · exact ⟨period, hmem, .inl hin⟩
    · exact ⟨period, hmem, .inr hopen⟩

/-- A correction is of a row of the same person. -/
def SamePerson (rows : List Row) : Prop :=
  ∀ row ∈ rows, ∀ id ∈ (event row).correctsEntryId, ∀ target ∈ rows, (event target).id = id →
    (event target).personId = (event row).personId

/-- One person's rows. -/
abbrev ownRows (rows : List Row) (personId : String) : List Row :=
  rows.filter fun row => (event row).personId = personId

theorem mem_ownRows {row : Row} :
    row ∈ ownRows rows personId ↔ row ∈ rows ∧ (event row).personId = personId := by
  rw [List.mem_filter, decide_eq_true_eq]

theorem SamePerson.superseded_iff (h : SamePerson rows) {row : Row} (hrow : row ∈ rows)
    (hperson : (event row).personId = personId) :
    (event row).id ∈ superseded (ownRows rows personId) ↔ (event row).id ∈ superseded rows := by
  unfold superseded
  rw [List.mem_filterMap, List.mem_filterMap]
  constructor
  · rintro ⟨corrector, hmem, hcorrects⟩
    exact ⟨corrector, (mem_ownRows.mp hmem).1, hcorrects⟩
  · rintro ⟨corrector, hmem, hcorrects⟩
    have hsame := h corrector hmem _ hcorrects row hrow rfl
    exact ⟨corrector, mem_ownRows.mpr ⟨hmem, hsame.symm.trans hperson⟩, hcorrects⟩

/-- A row that is found by an id all of whose rows are one person's is found among that person's. -/
theorem byId_ownRows {id : String}
    (hown : ∀ row ∈ rows, (event row).id = id → (event row).personId = personId) :
    byId (ownRows rows personId) id = byId rows id := by
  unfold byId ownRows
  rw [← List.filter_reverse, List.find?_filter]
  refine List.find?_congr fun row hrow => ?_
  by_cases hid : (event row).id = id
  · simp [hid, hown row (List.mem_reverse.mp hrow) hid]
  · simp [hid]

theorem SamePerson.followCorrections_eq (h : SamePerson rows) :
    ∀ (depth : ℕ) (seen : List String) {current : Row}, current ∈ rows →
      (event current).personId = personId →
      followCorrections (ownRows rows personId) depth seen (event current) =
        followCorrections rows depth seen (event current)
  | 0, _, _, _, _ => rfl
  | depth + 1, seen, current, hmem, hperson => by
    unfold followCorrections
    cases hcorrects : (event current).correctsEntryId with
    | none => rfl
    | some targetId =>
      dsimp only
      have hown : ∀ row ∈ rows, (event row).id = targetId → (event row).personId = personId :=
        fun row hrow hid => (h current hmem targetId hcorrects row hrow hid).trans hperson
      rw [byId_ownRows hown]
      split_ifs
      · rfl
      · cases htarget : byId rows targetId with
        | none => rfl
        | some target =>
          have hthere : target ∈ rows := List.mem_reverse.mp (List.mem_of_find?_eq_some htarget)
          have hid : (event target).id = targetId := by
            have hfound := List.find?_some htarget
            exact of_decide_eq_true hfound
          dsimp only
          cases (event target).eventType with
          | ENTRY => rfl
          | EXIT => rfl
          | CORRECTION => exact h.followCorrections_eq depth _ hthere (hown target hthere hid)

/-- Every EXIT in the archive, corrections applied, ends a membership of the person of its row. -/
def EveryExitEnds (rows : List Row) : Prop :=
  ∀ row ∈ rows, exitsEnd false (inOrder (resolveRegisterEvents rows) (event row).personId) = true

instance (rows : List Row) : Decidable (EveryExitEnds rows) :=
  inferInstanceAs (Decidable (∀ row ∈ rows, _ = true))

instance (rows : List Row) : Decidable (SamePerson rows) :=
  inferInstanceAs (Decidable
    (∀ row ∈ rows, ∀ id ∈ (event row).correctsEntryId, ∀ target ∈ rows, _ → _))

/-- Of a person without a row there is no EXIT. -/
theorem EveryExitEnds.exitsEnd (h : EveryExitEnds rows) (personId : String) :
    exitsEnd false (inOrder (resolveRegisterEvents rows) personId) = true := by
  by_cases hperson : ∃ row ∈ rows, (event row).personId = personId
  · obtain ⟨row, hrow, rfl⟩ := hperson
    exact h row hrow
  · have hnone : (resolveRegisterEvents rows).filter (fun e => e.personId = personId) = [] := by
      refine List.filter_eq_nil_iff.mpr fun e he hown => hperson ?_
      exact ⟨e.row, (mem_resolveRegisterEvents.mp he).1, of_decide_eq_true hown⟩
    unfold inOrder
    rw [hnone]
    rfl

theorem member_iff (input : VotingRegisterInput Row) : Member input personId ↔
    lastReads input.events personId input.meetingDay = true ∨
      OpenStart (periodsOf input.events personId) input.meetingDay :=
  isMemberOn_iff input.events input.meetingDay

/-- Two people, one of whom leaves and comes back; the day of the first entry is corrected twice. -/
def corrected : List MemberRegisterEvent :=
  [⟨"e", "A", .ENTRY, 1, none, 1⟩, ⟨"f", "B", .ENTRY, 2, none, 2⟩,
    ⟨"c", "A", .CORRECTION, 3, some "e", 3⟩, ⟨"d", "A", .CORRECTION, 4, some "c", 4⟩,
    ⟨"x", "A", .EXIT, 10, none, 10⟩, ⟨"y", "A", .ENTRY, 20, none, 20⟩]

end OpenBrf.Meetings
