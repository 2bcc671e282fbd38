import OpenBrf.Meetings.AgendaActs
import OpenBrf.Meetings.DoorWrite

/-!
# Meetings.DoorActs — who stands on the list of a meeting, and on whose authority

`DoorSound` is what the lines and the authorisations say of each other, `DoorAct` is one commit on
them, and `DoorSince` is what stands of them.
-/

namespace OpenBrf.Meetings

open Txn Lang Shared Registers MeetingStore

variable {zone : Zone} {t : Int} {s s' s'' : MeetingStore} {meetingId personId : String}
  {line other : MeetingAttendance} {row : ProxyAuthorisation}

/-! ### Lines and authorities that stand -/

/-- There is such a meeting, and it has not been held. -/
def Unheld (s : MeetingStore) (meetingId : String) : Prop :=
  ∃ meeting, s.findMeeting meetingId = some meeting ∧ meeting.concludedAt = none

theorem Unheld.not_concluded (h : Unheld s meetingId) : ¬ Concluded s meetingId := by
  obtain ⟨meeting, hfound, hopen⟩ := h
  rintro ⟨other, hother, hheld⟩
  rw [hfound] at hother
  obtain rfl := Option.some.inj hother
  exact hheld hopen

/-- A line of somebody's own that stands: as a member, or as a proxy holder. -/
structure OwnLine (meetingId personId : String) (line : MeetingAttendance) : Prop where
  meeting : line.meetingId = meetingId
  person : line.personId = personId
  own : line.capacity ≠ .ASSISTANT
  standing : line.withdrawnAt = none

/-- Somebody stands on the list as a member or a proxy holder. -/
def Present (s : MeetingStore) (meetingId personId : String) : Prop :=
  ∃ line ∈ s.attendances, OwnLine meetingId personId line

theorem isPrincipalLine_iff : isPrincipalLine meetingId personId line = true ↔
    line.meetingId = meetingId ∧ line.personId = personId ∧ line.capacity ≠ .ASSISTANT := by
  simp [isPrincipalLine, and_assoc]

theorem ownLine_iff : OwnLine meetingId personId line ↔
    isPrincipalLine meetingId personId line = true ∧ line.withdrawnAt = none := by
  rw [isPrincipalLine_iff]
  exact ⟨fun h => ⟨⟨h.meeting, h.person, h.own⟩, h.standing⟩,
    fun h => ⟨h.1.1, h.1.2.1, h.1.2.2, h.2⟩⟩

theorem isPrincipalPresent_iff :
    isPrincipalPresent meetingId personId s = true ↔ Present s meetingId personId := by
  simp only [isPrincipalPresent, List.any_eq_true, Bool.and_eq_true, Option.isNone_iff_eq_none,
    Present, ownLine_iff]

theorem standingEntry_eq : line.standingEntry = some (meetingId, personId) ↔
    line.withdrawnAt = none ∧ line.meetingId = meetingId ∧
      line.onBehalfOfPersonId = some personId := by
  unfold MeetingAttendance.standingEntry
  cases hwithdrawn : line.withdrawnAt with
  | none =>
    cases hbehalf : line.onBehalfOfPersonId with
    | none => simp
    | some principal => simp
  | some date => simp

/-- The authority of a member that stands. -/
structure Authority (meetingId memberPersonId : String) (row : ProxyAuthorisation) : Prop where
  meeting : row.meetingId = meetingId
  member : row.memberPersonId = memberPersonId
  standing : row.withdrawnAt = none

/-- What the lines and the authorisations say of each other. -/
structure DoorSound (s : MeetingStore) : Prop where
  lines : Keyed (·.id) s.attendances
  lineKeys : Keyed MeetingAttendance.key s.attendances
  authorisations : Keyed (·.id) s.authorisations
  authorisationKeys : Keyed ProxyAuthorisation.key s.authorisations
  assistant : ∀ line ∈ s.attendances, line.onBehalfOfPersonId ≠ none ↔ line.capacity = .ASSISTANT
  brought : ∀ line ∈ s.attendances, ∀ meetingId personId,
    line.standingEntry = some (meetingId, personId) → Present s meetingId personId
  oneAssistant : ∀ line ∈ s.attendances, ∀ other ∈ s.attendances, ∀ entry,
    line.standingEntry = some entry → other.standingEntry = some entry → line = other
  oneHolder : ∀ meetingId memberPersonId, ∀ row ∈ s.authorisations, ∀ other ∈ s.authorisations,
    Authority meetingId memberPersonId row → Authority meetingId memberPersonId other → row = other

theorem doorSound_empty : DoorSound {} where
  lines := keyed_nil
  lineKeys := keyed_nil
  authorisations := keyed_nil
  authorisationKeys := keyed_nil
  assistant _ h := absurd h List.not_mem_nil
  brought _ h := absurd h List.not_mem_nil
  oneAssistant _ h := absurd h List.not_mem_nil
  oneHolder _ _ _ h := absurd h List.not_mem_nil

/-! ### One commit -/

/-- A line as it may be put on the list. -/
structure Admitted (s : MeetingStore) (line : MeetingAttendance) : Prop where
  standing : line.withdrawnAt = none
  assistant : line.onBehalfOfPersonId ≠ none ↔ line.capacity = .ASSISTANT
  present : ∀ personId ∈ line.onBehalfOfPersonId, Present s line.meetingId personId
  alone : ∀ other ∈ s.attendances, ∀ entry, other.standingEntry = some entry →
    line.standingEntry = some entry → other.id = line.id

/-- The lines dated as struck off. -/
def struckOff (ids : List (String × Int)) (s : MeetingStore) : MeetingStore :=
  ids.foldl (fun s (id, withdrawnAt) =>
    s.writeAttendance id ({ · with withdrawnAt := some withdrawnAt })) s

/-- The authority that another takes the place of is dated as withdrawn. -/
def superseded (ended : Option (String × Int)) (s : MeetingStore) : MeetingStore :=
  match ended with
  | none => s
  | some (id, withdrawnAt) =>
    s.writeAuthorisation id ({ · with withdrawnAt := some withdrawnAt })

/-- One commit on the list and the authorisations, as they stand. -/
inductive DoorAct (s : MeetingStore) : MeetingStore → Prop
  | entered {line : MeetingAttendance} {entry : MeetingEntry} : Unheld s line.meetingId →
      (∀ other ∈ s.attendances, other.id ≠ line.id) →
      (∀ other ∈ s.attendances, other.key ≠ line.key) → Admitted s line →
      DoorAct s ({ s with attendances := line :: s.attendances }.record entry)
  | takenUp {line : MeetingAttendance} {input : RecordAttendanceInput} {entry : MeetingEntry} :
      Unheld s line.meetingId → line ∈ s.attendances → Admitted s (line.takenUp input) →
      DoorAct s ((s.writeAttendance line.id (·.takenUp input)).record entry)
  | struck {line : MeetingAttendance} {withdrawnAt : Int} {assistant : List (String × Int)}
      {log : List MeetingEntry} : Unheld s line.meetingId → line ∈ s.attendances →
      (∀ struck ∈ assistant, ∃ other ∈ s.attendances, other.id = struck.1 ∧
        other.meetingId = line.meetingId ∧ other.capacity = .ASSISTANT) →
      (line.capacity = .ASSISTANT ∨
        (∃ other ∈ s.attendances, other.id ≠ line.id ∧
          OwnLine line.meetingId line.personId other) ∨
        ∀ other ∈ s.attendances, other.standingEntry = some (line.meetingId, line.personId) →
          other.id ∈ assistant.map (·.1)) →
      DoorAct s { struckOff ((line.id, withdrawnAt) :: assistant) s with log }
  | registered {row : ProxyAuthorisation} {ended : Option (String × Int)} {limit : ℕ}
      {actorPersonId : String} {log : List MeetingEntry} : Unheld s row.meetingId →
      row.withdrawnAt = none → (∀ other ∈ s.authorisations, other.id ≠ row.id) →
      (∀ other ∈ s.authorisations, other.key ≠ row.key) →
      (∀ id ∈ ended.map (·.1), ∃ other ∈ s.authorisations, other.id = id ∧
        other.meetingId = row.meetingId) →
      (∀ other ∈ s.authorisations, Authority row.meetingId row.memberPersonId other →
        ended.map (·.1) = some other.id) →
      (carriedBy row.meetingId row.proxyHolderPersonId
        { superseded ended s with authorisations := row :: (superseded ended s).authorisations
        }).length ≤ limit →
      DoorAct s { superseded ended s with
        authorisations := row :: (superseded ended s).authorisations
        log := .proxyRegistered row.id row.meetingId row.memberPersonId row.proxyHolderPersonId
          row.ground row.authorisedOn limit actorPersonId :: log }
  | renewed {row : ProxyAuthorisation} {input : RegisterProxyInput} {authorisedOn : LocalDay}
      {ended : Option (String × Int)} {limit : ℕ} {actorPersonId : String}
      {log : List MeetingEntry} : Unheld s row.meetingId → row ∈ s.authorisations →
      (∀ id ∈ ended.map (·.1), ∃ other ∈ s.authorisations, other.id = id ∧
        other.meetingId = row.meetingId) →
      (∀ other ∈ s.authorisations, Authority row.meetingId row.memberPersonId other →
        other.id = row.id ∨ ended.map (·.1) = some other.id) → ended.map (·.1) ≠ some row.id →
      (carriedBy row.meetingId row.proxyHolderPersonId ((superseded ended s).writeAuthorisation
        row.id (·.registered input authorisedOn actorPersonId))).length ≤ limit →
      DoorAct s { (superseded ended s).writeAuthorisation row.id
          (·.registered input authorisedOn actorPersonId) with
        log := .proxyRegistered row.id row.meetingId row.memberPersonId row.proxyHolderPersonId
          input.ground authorisedOn limit actorPersonId :: log }
  | ended {row : ProxyAuthorisation} {withdrawnAt : Int} {entry : MeetingEntry} :
      Unheld s row.meetingId → row ∈ s.authorisations →
      DoorAct s ((s.writeAuthorisation row.id
        ({ · with withdrawnAt := some withdrawnAt })).record entry)

/-! ### The list after an act -/

/-- The lines changed, and nothing else did. -/
theorem DoorSound.of_lines (h : DoorSound s) {attendances : List MeetingAttendance}
    {log : List MeetingEntry} (hkeyed : Keyed (·.id) attendances)
    (hkeys : Keyed MeetingAttendance.key attendances)
    (hassistant : ∀ line ∈ attendances,
      line.onBehalfOfPersonId ≠ none ↔ line.capacity = .ASSISTANT)
    (hbrought : ∀ line ∈ attendances, ∀ meetingId personId,
      line.standingEntry = some (meetingId, personId) →
        Present { s with attendances, log } meetingId personId)
    (hone : ∀ line ∈ attendances, ∀ other ∈ attendances, ∀ entry,
      line.standingEntry = some entry → other.standingEntry = some entry → line = other) :
    DoorSound { s with attendances, log } :=
  { h with
    lines := hkeyed
    lineKeys := hkeys
    assistant := hassistant
    brought := hbrought
    oneAssistant := hone }

/-- A line is put on the list, or taken up again. -/
theorem DoorSound.admitted (h : DoorSound s) (line : MeetingAttendance) {attendances : List MeetingAttendance}
    {log : List MeetingEntry} (hkeyed : Keyed (·.id) attendances)
    (hkeys : Keyed MeetingAttendance.key attendances)
    (hmem : ∀ other, other ∈ attendances ↔
      other = line ∨ (other ∈ s.attendances ∧ other.id ≠ line.id))
    (hline : Admitted s line) (hown : ∀ other ∈ s.attendances, other.id = line.id →
      ∀ meetingId personId, OwnLine meetingId personId other → OwnLine meetingId personId line) :
    DoorSound { s with attendances, log } := by
  have hpresent : ∀ meetingId personId, Present s meetingId personId →
      Present { s with attendances, log } meetingId personId := by
    rintro meetingId personId ⟨other, hother, hstands⟩
    by_cases hid : other.id = line.id
    · exact ⟨line, (hmem line).mpr (.inl rfl), hown other hother hid meetingId personId hstands⟩
    · exact ⟨other, (hmem other).mpr (.inr ⟨hother, hid⟩), hstands⟩
  refine h.of_lines hkeyed hkeys (fun other hother => ?_) (fun other hother => ?_)
    fun other hother another hanother entry hentry hentry' => ?_
  · rcases (hmem other).mp hother with rfl | ⟨hother, -⟩
    · exact hline.assistant
    · exact h.assistant other hother
  · intro meetingId personId hentry
    rcases (hmem other).mp hother with rfl | ⟨hother, -⟩
    · obtain ⟨-, rfl, hbehalf⟩ := standingEntry_eq.mp hentry
      exact hpresent _ _ (hline.present personId hbehalf)
    · exact hpresent _ _ (h.brought other hother meetingId personId hentry)
  · rcases (hmem other).mp hother with rfl | ⟨hother, hid⟩
    · rcases (hmem another).mp hanother with rfl | ⟨hanother, hid⟩
      · rfl
      · exact absurd (hline.alone another hanother entry hentry' hentry) hid
    · rcases (hmem another).mp hanother with rfl | ⟨hanother, hid'⟩
      · exact absurd (hline.alone other hother entry hentry hentry') hid
      · exact h.oneAssistant other hother another hanother entry hentry hentry'

/-- What a line written over is: as it was, or dated as struck off. -/
structure Struck (ids : List String) (f : MeetingAttendance → MeetingAttendance) : Prop where
  spared : ∀ line, line.id ∉ ids → f line = line
  dated : ∀ line, line.id ∈ ids → ∃ withdrawnAt, f line = { line with
    withdrawnAt := some withdrawnAt }

theorem Struck.id_eq {ids : List String} {f : MeetingAttendance → MeetingAttendance}
    (h : Struck ids f) (line : MeetingAttendance) : (f line).id = line.id := by
  by_cases hid : line.id ∈ ids
  · obtain ⟨withdrawnAt, heq⟩ := h.dated line hid
    rw [heq]
  · rw [h.spared line hid]

theorem Struck.key_eq {ids : List String} {f : MeetingAttendance → MeetingAttendance}
    (h : Struck ids f) (line : MeetingAttendance) : (f line).key = line.key := by
  by_cases hid : line.id ∈ ids
  · obtain ⟨withdrawnAt, heq⟩ := h.dated line hid
    rw [heq]
    rfl
  · rw [h.spared line hid]

/-- A line that stands after the strike-off stood before it, and was spared. -/
theorem Struck.standing {ids : List String} {f : MeetingAttendance → MeetingAttendance}
    (h : Struck ids f) (hstands : (f line).withdrawnAt = none) : line.id ∉ ids := by
  intro hid
  obtain ⟨withdrawnAt, heq⟩ := h.dated line hid
  rw [heq] at hstands
  cases hstands

theorem exists_struck (ids : List (String × Int)) (s : MeetingStore) :
    ∃ f, Struck (ids.map (·.1)) f ∧
      struckOff ids s = { s with attendances := s.attendances.map f } := by
  induction ids generalizing s with
  | nil => exact ⟨id, ⟨fun _ _ => rfl, fun _ h => absurd h List.not_mem_nil⟩, by simp [struckOff]⟩
  | cons struck ids ih =>
    obtain ⟨id, withdrawnAt⟩ := struck
    obtain ⟨f, hf, heq⟩ := ih (s.writeAttendance id ({ · with withdrawnAt := some withdrawnAt }))
    refine ⟨fun line => f (if line.id = id then { line with withdrawnAt := some withdrawnAt }
      else line), ⟨fun line hline => ?_, fun line hline => ?_⟩, ?_⟩
    · rw [List.map_cons, List.mem_cons, not_or] at hline
      show f (if line.id = id then _ else line) = line
      rw [if_neg hline.1, hf.spared line hline.2]
    · show ∃ date, f (if line.id = id then _ else line) = _
      split_ifs with hid
      · by_cases hmem : line.id ∈ ids.map (·.1)
        · obtain ⟨date, heq⟩ := hf.dated { line with withdrawnAt := some withdrawnAt } hmem
          exact ⟨date, heq⟩
        · exact ⟨withdrawnAt, hf.spared { line with withdrawnAt := some withdrawnAt } hmem⟩
      · exact hf.dated line (List.mem_of_ne_of_mem hid hline)
    · refine Eq.trans heq ?_
      show ({ s with attendances := (overwrite _ _ _ s.attendances).map f } : MeetingStore) = _
      unfold overwrite
      rw [List.map_map]
      rfl

/-- Lines are struck off, and whoever was brought by somebody struck off with them. -/
theorem DoorSound.struck (h : DoorSound s) {ids : List String}
    {f : MeetingAttendance → MeetingAttendance} (hf : Struck ids f) {log : List MeetingEntry}
    (hbrought : ∀ line ∈ s.attendances, line.id ∉ ids → ∀ meetingId personId,
      line.standingEntry = some (meetingId, personId) →
        ∃ other ∈ s.attendances, other.id ∉ ids ∧ OwnLine meetingId personId other) :
    DoorSound { s with attendances := s.attendances.map f, log } := by
  have hspared : ∀ other ∈ s.attendances.map f, other.withdrawnAt = none →
      other ∈ s.attendances ∧ other.id ∉ ids := by
    intro other hother hstands
    obtain ⟨line, hline, rfl⟩ := List.mem_map.mp hother
    have hid := hf.standing hstands
    rw [hf.spared line hid]
    exact ⟨hline, hid⟩
  refine h.of_lines ?_ ?_ (fun other hother => ?_) (fun other hother meetingId personId hentry => ?_)
    fun other hother another hanother entry hentry hentry' => ?_
  · have hids : (s.attendances.map f).map (·.id) = s.attendances.map (·.id) := by
      rw [List.map_map]
      exact List.map_congr_left fun line _ => hf.id_eq line
    unfold Keyed
    rw [hids]
    exact h.lines
  · have hkeys : (s.attendances.map f).map MeetingAttendance.key =
        s.attendances.map MeetingAttendance.key := by
      rw [List.map_map]
      exact List.map_congr_left fun line _ => hf.key_eq line
    unfold Keyed
    rw [hkeys]
    exact h.lineKeys
  · obtain ⟨line, hline, rfl⟩ := List.mem_map.mp hother
    have hassistant := h.assistant line hline
    by_cases hid : line.id ∈ ids
    · obtain ⟨withdrawnAt, heq⟩ := hf.dated line hid
      rw [heq]
      exact hassistant
    · rw [hf.spared line hid]
      exact hassistant
  · obtain ⟨hother, hid⟩ := hspared other hother (standingEntry_eq.mp hentry).1
    obtain ⟨own, hown, hid', hstands⟩ := hbrought other hother hid meetingId personId hentry
    exact ⟨own, List.mem_map.mpr ⟨own, hown, hf.spared own hid'⟩, hstands⟩
  · obtain ⟨entryMeeting, entryPerson⟩ := entry
    have hmem := hspared other hother (standingEntry_eq.mp hentry).1
    have hmem' := hspared another hanother (standingEntry_eq.mp hentry').1
    exact h.oneAssistant other hmem.1 another hmem'.1 _ hentry hentry'

/-! ### The authorisations after an act -/

/-- The authorisations changed, and nothing else did. -/
theorem DoorSound.of_authorisations (h : DoorSound s) {authorisations : List ProxyAuthorisation}
    {log : List MeetingEntry} (hkeyed : Keyed (·.id) authorisations)
    (hkeys : Keyed ProxyAuthorisation.key authorisations)
    (hone : ∀ meetingId memberPersonId, ∀ row ∈ authorisations, ∀ other ∈ authorisations,
      Authority meetingId memberPersonId row → Authority meetingId memberPersonId other →
        row = other) : DoorSound { s with authorisations, log } :=
  { h with
    authorisations := hkeyed
    authorisationKeys := hkeys
    oneHolder := hone }

section Superseding

variable {ended : Option (String × Int)}

theorem superseded_eq (ended : Option (String × Int)) (s : MeetingStore) :
    superseded ended s = { s with authorisations := (superseded ended s).authorisations } := by
  cases ended <;> rfl

theorem ids_superseded (ended : Option (String × Int)) : (superseded ended s).authorisations.map (·.id) =
    s.authorisations.map (·.id) := by
  cases ended with
  | none => rfl
  | some ended => exact map_overwrite fun _ _ => rfl

theorem keys_superseded (ended : Option (String × Int)) : (superseded ended s).authorisations.map ProxyAuthorisation.key =
    s.authorisations.map ProxyAuthorisation.key := by
  cases ended with
  | none => rfl
  | some ended => exact map_overwrite fun _ _ => rfl

/-- An authority that stands then stood before, and is not the one that was ended. -/
theorem mem_superseded : row ∈ (superseded ended s).authorisations ∧ row.withdrawnAt = none ↔
    row ∈ s.authorisations ∧ row.withdrawnAt = none ∧ ended.map (·.1) ≠ some row.id := by
  cases ended with
  | none => simp [superseded]
  | some ended =>
    constructor
    · rintro ⟨hmem, hstands⟩
      obtain ⟨old, hold, ⟨-, rfl⟩ | ⟨hid, rfl⟩⟩ := mem_overwrite.mp hmem
      · cases hstands
      · exact ⟨hold, hstands, fun heq => hid (Option.some.inj heq).symm⟩
    · rintro ⟨hmem, hstands, hid⟩
      exact ⟨mem_overwrite.mpr ⟨row, hmem, .inr ⟨fun heq => hid (congrArg some heq.symm), rfl⟩⟩,
        hstands⟩

theorem mem_superseded_of_ne (hrow : row ∈ s.authorisations)
    (hne : ended.map (·.1) ≠ some row.id) : row ∈ (superseded ended s).authorisations := by
  cases ended with
  | none => exact hrow
  | some ended =>
    refine mem_overwrite.mpr ⟨row, hrow, .inr ⟨fun heq => hne (congrArg some heq.symm), rfl⟩⟩

theorem DoorSound.supersede (h : DoorSound s) (ended : Option (String × Int))
    (log : List MeetingEntry) : DoorSound { superseded ended s with log } := by
  rw [superseded_eq]
  refine h.of_authorisations ?_ ?_ fun meetingId member row hrow other hother hauth hauth' => ?_
  · unfold Keyed
    rw [ids_superseded]
    exact h.authorisations
  · unfold Keyed
    rw [keys_superseded]
    exact h.authorisationKeys
  · have hrow := (mem_superseded.mp ⟨hrow, hauth.standing⟩).1
    have hother := (mem_superseded.mp ⟨hother, hauth'.standing⟩).1
    exact h.oneHolder meetingId member row hrow other hother hauth hauth'

end Superseding

/-- A member's authority is written, and no other of that member's stands. -/
theorem DoorSound.authorised (h : DoorSound s) (row : ProxyAuthorisation) {authorisations : List ProxyAuthorisation}
    {log : List MeetingEntry} (hkeyed : Keyed (·.id) authorisations)
    (hkeys : Keyed ProxyAuthorisation.key authorisations)
    (hmem : ∀ other ∈ authorisations, other = row ∨ other ∈ s.authorisations ∧ other.id ≠ row.id)
    (halone : ∀ other ∈ s.authorisations, Authority row.meetingId row.memberPersonId other →
      other.id = row.id) : DoorSound { s with authorisations, log } := by
  refine h.of_authorisations hkeyed hkeys fun meetingId member a ha b hb hauth hauth' => ?_
  rcases hmem a ha with rfl | ⟨ha, hid⟩
  · rcases hmem b hb with rfl | ⟨hb, hid⟩
    · rfl
    · rw [← hauth.meeting, ← hauth.member] at hauth'
      exact absurd (halone b hb hauth') hid
  · rcases hmem b hb with rfl | ⟨hb, hid'⟩
    · rw [← hauth'.meeting, ← hauth'.member] at hauth
      exact absurd (halone a ha hauth) hid
    · exact h.oneHolder meetingId member a ha b hb hauth hauth'

/-! ### Every act -/

theorem mem_cons_ne {new : MeetingAttendance}
    (hnew : ∀ other ∈ s.attendances, other.id ≠ new.id) (other : MeetingAttendance) :
    other ∈ new :: s.attendances ↔ other = new ∨ (other ∈ s.attendances ∧ other.id ≠ new.id) := by
  rw [List.mem_cons]
  exact or_congr_right ⟨fun hmem => ⟨hmem, hnew other hmem⟩, And.left⟩

theorem DoorSound.mem_overwritten (h : DoorSound s) (hline : line ∈ s.attendances)
    {f : MeetingAttendance → MeetingAttendance} (hf : (f line).id = line.id)
    (other : MeetingAttendance) : other ∈ overwrite (·.id) line.id f s.attendances ↔
      other = f line ∨ (other ∈ s.attendances ∧ other.id ≠ (f line).id) := by
  rw [mem_overwrite, hf]
  constructor
  · rintro ⟨row, hrow, ⟨hid, rfl⟩ | ⟨hid, rfl⟩⟩
    · rw [h.lines.eq_of_key hrow hline hid]
      exact .inl rfl
    · exact .inr ⟨hrow, hid⟩
  · rintro (rfl | ⟨hmem, hid⟩)
    · exact ⟨line, hline, .inl ⟨rfl, rfl⟩⟩
    · exact ⟨other, hmem, .inr ⟨hid, rfl⟩⟩

theorem DoorSound.acted (h : DoorSound s) (hact : DoorAct s s') : DoorSound s' := by
  cases hact with
  | entered _ hid hkey hline =>
    refine h.admitted _ (h.lines.cons hid) (h.lineKeys.cons hkey) (mem_cons_ne hid) hline ?_
    exact fun other hother heq => absurd heq (hid other hother)
  | @takenUp line input _ _ hline hadmitted =>
    refine h.admitted (line.takenUp input) (h.lines.overwrite fun _ _ => rfl)
      (h.lineKeys.overwrite fun _ _ => rfl) (h.mem_overwritten hline rfl) hadmitted ?_
    intro other hother heq meetingId personId hstands
    rw [h.lines.eq_of_key hother hline heq] at hstands
    exact ⟨hstands.meeting, hstands.person, hstands.own, rfl⟩
  | @struck line withdrawnAt assistant log _ hline hassistant hleft =>
    obtain ⟨f, hf, heq⟩ := exists_struck ((line.id, withdrawnAt) :: assistant) s
    rw [heq]
    refine h.struck hf fun other hother hspared meetingId personId hentry => ?_
    obtain ⟨own, hown, hstands⟩ := h.brought other hother meetingId personId hentry
    by_cases hid : own.id ∈ ((line.id, withdrawnAt) :: assistant).map (·.1)
    · rw [List.map_cons, List.mem_cons] at hid
      have hid : own.id = line.id := by
        rcases hid with hid | hid
        · exact hid
        · obtain ⟨struck, hstruck, hid⟩ := List.mem_map.mp hid
          obtain ⟨row, hrow, hrowId, -, hcapacity⟩ := hassistant struck hstruck
          rw [h.lines.eq_of_key hown hrow (hid.symm.trans hrowId.symm)] at hstands
          exact absurd hcapacity hstands.own
      obtain rfl := h.lines.eq_of_key hown hline hid
      rcases hleft with hcapacity | ⟨another, hanother, hne, hown'⟩ | hall
      · exact absurd hcapacity hstands.own
      · rw [hstands.meeting, hstands.person] at hown'
        refine ⟨another, hanother, fun hmem => ?_, hown'⟩
        rw [List.map_cons, List.mem_cons] at hmem
        rcases hmem with hmem | hmem
        · exact hne hmem
        · obtain ⟨struck, hstruck, hid⟩ := List.mem_map.mp hmem
          obtain ⟨row, hrow, hrowId, -, hcapacity⟩ := hassistant struck hstruck
          rw [h.lines.eq_of_key hanother hrow (hid.symm.trans hrowId.symm)] at hown'
          exact absurd hcapacity hown'.own
      · rw [hstands.meeting, hstands.person] at hall
        exact absurd (List.mem_cons_of_mem _ (hall other hother hentry)) hspared
    · exact ⟨own, hown, hid, hstands⟩
  | @registered row ended _ _ log _ _ hid hkey _ halone _ =>
    have hids : ∀ other ∈ (superseded ended s).authorisations, other.id ≠ row.id := by
      intro other hother heq
      have hmem : other.id ∈ s.authorisations.map (·.id) :=
        ids_superseded ended ▸ List.mem_map.mpr ⟨other, hother, rfl⟩
      obtain ⟨old, hold, hold'⟩ := List.mem_map.mp hmem
      exact hid old hold (hold'.trans heq)
    have hkeys : ∀ other ∈ (superseded ended s).authorisations, other.key ≠ row.key := by
      intro other hother heq
      have hmem : other.key ∈ s.authorisations.map ProxyAuthorisation.key :=
        keys_superseded ended ▸ List.mem_map.mpr ⟨other, hother, rfl⟩
      obtain ⟨old, hold, hold'⟩ := List.mem_map.mp hmem
      exact hkey old hold (hold'.trans heq)
    have hsuperseded := h.supersede ended log
    refine hsuperseded.authorised row (hsuperseded.authorisations.cons hids)
      (hsuperseded.authorisationKeys.cons hkeys) (fun other hother => ?_)
      fun other hother hauth => ?_
    · rcases List.mem_cons.mp hother with rfl | hother
      · exact .inl rfl
      · exact .inr ⟨hother, hids other hother⟩
    · obtain ⟨hold, -, hne⟩ := mem_superseded.mp ⟨hother, hauth.standing⟩
      exact absurd (halone other hold hauth) hne
  | @renewed row input authorisedOn ended _ actor log _ hrow _ halone hne _ =>
    have hsuperseded := h.supersede ended log
    refine hsuperseded.authorised (row.registered input authorisedOn actor)
      (hsuperseded.authorisations.overwrite fun _ _ => rfl)
      (hsuperseded.authorisationKeys.overwrite fun _ _ => rfl) (fun other hother => ?_)
      fun other hother hauth => ?_
    · obtain ⟨old, hold, ⟨hid, rfl⟩ | ⟨hid, rfl⟩⟩ := mem_overwrite.mp hother
      · rw [hsuperseded.authorisations.eq_of_key hold (mem_superseded_of_ne hrow hne) hid]
        exact .inl rfl
      · exact .inr ⟨hold, hid⟩
    · obtain ⟨hold, -, hne⟩ := mem_superseded.mp ⟨hother, hauth.standing⟩
      exact (halone other hold hauth).resolve_right hne
  | @ended row withdrawnAt _ _ hrow =>
    exact h.supersede (some (row.id, withdrawnAt)) _

end OpenBrf.Meetings
