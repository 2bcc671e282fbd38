import OpenBrf.Meetings.AgendaInterleaving

/-!
# Meetings.DoorInterleaving — lines of a list written beside each other

Whoever puts an assistant on the list holds a line of the person who brought them, and whoever
strikes a person off holds every line of their own.
-/

namespace OpenBrf.Meetings

open Txn Lang Shared Registers MeetingStore

variable {zone : Zone}

section Commits

variable {held : List (MeetingLock × Mode)} {reads : List (Sight MeetingStore MeetingLock)}
  {t : Int} {s s' : MeetingStore} {m : Mode} {id meetingId personId : String}
  {line : MeetingAttendance}

/-- An act on the list or the authorisations keeps what else there is. -/
theorem commits_door (hinv : MeetingsSound s) (hact : DoorAct s s')
    (hkeeps : ∀ fact : DoorFact, (meetingDiscipline zone).Unguarded held (.door fact) →
      fact.Keeps s s') : (meetingDiscipline zone).Commits held reads t s s' := by
  have hacted : Acted zone t s s' := .inr (.inr hact)
  refine ⟨hinv.acted hacted, hacted, ?_⟩
  rintro (fact | fact | _) hk
  · exact .of_same fact hact.same
  · exact hkeeps fact hk
  · exact hacted.since hinv

/-! ### What may be relied on -/

theorem line_of_rely (h : (meetingDiscipline zone).Rely held s s')
    (hheld : (.attendance id, m) ∈ held) :
    rowAt (·.id) s'.attendances id = rowAt (·.id) s.attendances id := by
  refine h (.door (.line id)) fun l m' hl => ?_
  cases hl
  exact ⟨m, hheld, nofun⟩

theorem lineKey_of_rely {capacity : AttendanceCapacity}
    (h : (meetingDiscipline zone).Rely held s s')
    (hheld : (.attendanceKey meetingId personId capacity, .exclusive) ∈ held) :
    rowAt MeetingAttendance.key s.attendances (meetingId, personId, capacity) = none →
      rowAt MeetingAttendance.key s'.attendances (meetingId, personId, capacity) = none := by
  refine h (.door (.lineKey (meetingId, personId, capacity))) fun l m' hl => ?_
  cases hl
  exact ⟨.exclusive, hheld, fun _ => rfl⟩

theorem entry_of_rely (h : (meetingDiscipline zone).Rely held s s')
    (hheld : (.standingAssistant meetingId personId, .exclusive) ∈ held) :
    EntryKept meetingId personId s s' := by
  refine h (.door (.entry meetingId personId)) fun l m' hl => ?_
  cases hl
  exact ⟨.exclusive, hheld, fun _ => rfl⟩

theorem leaving_of_rely {first leaves : String} (h : (meetingDiscipline zone).Rely held s s')
    (hfirst : (.attendance first, .exclusive) ∈ held)
    (hleaves : (.attendance leaves, .exclusive) ∈ held)
    (hthere : firstLine s meetingId personId = some first) :
    Leaving meetingId personId leaves s s' := by
  have hkept : DoorFact.Keeps (.leaving meetingId personId first leaves) s s' := by
    refine h (.door (.leaving meetingId personId first leaves)) fun l m' hl => ?_
    cases hl with
    | leavingFirst => exact ⟨.exclusive, hfirst, fun _ => rfl⟩
    | leaving => exact ⟨.exclusive, hleaves, fun _ => rfl⟩
  exact (hkept hthere).2

/-! ### What each act leaves to others -/

/-- A line that is admitted keeps those out of whom it is an assistant: while a line of theirs is
held nobody strikes off their last. -/
structure Brought (held : List (MeetingLock × Mode)) (s : MeetingStore)
    (meetingId personId : String) : Prop where
  entry : (.standingAssistant meetingId personId, .exclusive) ∈ held
  own : ∃ own ∈ s.attendances, OwnLine meetingId personId own ∧
    (.attendance own.id, .shared) ∈ held

/-- A line was written, and nothing of anybody else's was. -/
theorem keeps_admitted (line : MeetingAttendance) {attendances : List MeetingAttendance} {log : List MeetingEntry}
    (hact : DoorSince s { s with attendances, log })
    (hmem : ∀ other ∈ attendances, other = line ∨ other ∈ s.attendances)
    (hown : ∀ other ∈ s.attendances, ∀ meetingId personId, OwnLine meetingId personId other →
      ∃ other' ∈ attendances, other'.id = other.id ∧ OwnLine meetingId personId other')
    (hline : ∀ id, id ≠ line.id → rowAt (·.id) attendances id = rowAt (·.id) s.attendances id)
    (hkey : (.attendanceKey line.meetingId line.personId line.capacity, .exclusive) ∈ held ∨
      ∀ other ∈ attendances, ∃ old ∈ s.attendances, old.key = other.key)
    (hheld : (.attendance line.id, .exclusive) ∈ held)
    (hbrought : ∀ personId ∈ line.onBehalfOfPersonId, Brought held s line.meetingId personId)
    (fact : DoorFact) (hk : (meetingDiscipline zone).Unguarded held (.door fact)) :
    fact.Keeps s { s with attendances, log } := by
  -- the entries of whoever has no line among those held are as they were
  have hentry : ∀ meetingId personId, ¬ Brought held s meetingId personId →
      EntryKept meetingId personId s { s with attendances, log } := by
    intro meetingId personId hnot other hother hentry
    rcases hmem other hother with rfl | hother
    · obtain ⟨-, rfl, hbehalf⟩ := standingEntry_eq.mp hentry
      exact absurd (hbrought personId hbehalf) hnot
    · exact ⟨other, hother, rfl, hentry⟩
  cases fact with
  | line id =>
    refine hline id ?_
    rintro rfl
    exact guarded_shared hk .line hheld
  | lineKey key =>
    intro hnone
    refine rowAt_eq_none.mpr fun other hother hat => ?_
    rcases hkey with hkey | hkey
    · rcases hmem other hother with rfl | hother
      · rw [← hat] at hk
        exact guarded_exclusive hk .lineKey hkey
      · exact rowAt_eq_none.mp hnone other hother hat
    · obtain ⟨old, hold, hat'⟩ := hkey other hother
      exact rowAt_eq_none.mp hnone old hold (hat'.trans hat)
  | entry meetingId personId =>
    exact hentry meetingId personId fun hbrought => guarded_exclusive hk .entry hbrought.entry
  | leaving meetingId personId first leaves =>
    refine fun hfirst => ⟨hact.first meetingId personId first hfirst,
      fun other hother => hown other hother meetingId personId,
      fun hlast => hentry meetingId personId fun hbrought => ?_⟩
    obtain ⟨own, hmemOwn, hstands, hown'⟩ := hbrought.own
    obtain ⟨own', hmemOwn', hid, hstands'⟩ := hown own hmemOwn meetingId personId hstands
    rw [← hid, hlast own' hmemOwn' hstands'] at hown'
    exact guarded_exclusive hk .leaving hown'
  | authority id => rfl
  | authorityKey key => exact fun hnone => hnone
  | proxies id => exact fun row hrow _ hstands => ⟨row, hrow, rfl, rfl, hstands⟩

theorem commits_entered (line : MeetingAttendance) (entry : MeetingEntry) (hinv : MeetingsSound s)
    (hunheld : Unheld s line.meetingId) (hid : rowAt (·.id) s.attendances line.id = none)
    (hkey : rowAt MeetingAttendance.key s.attendances line.key = none) (hline : Admitted s line)
    (hkeyHeld : (.attendanceKey line.meetingId line.personId line.capacity, .exclusive) ∈ held)
    (hheld : (.attendance line.id, .exclusive) ∈ held)
    (hbrought : ∀ personId ∈ line.onBehalfOfPersonId, Brought held s line.meetingId personId)
    (hs' : s' = { s with attendances := line :: s.attendances }.record entry) :
    (meetingDiscipline zone).Commits held reads t s s' := by
  subst hs'
  have hact : DoorAct s ({ s with attendances := line :: s.attendances }.record entry) :=
    .entered hunheld (rowAt_eq_none.mp hid) (rowAt_eq_none.mp hkey) hline
  obtain ⟨_, hgrown⟩ := hact.grown hinv.door
  refine commits_door hinv hact (keeps_admitted line hgrown.since
    (fun other hother => List.mem_cons.mp hother) (fun other hother _ _ hstands => ?_)
    (fun id hne => rowAt_cons_of_ne hne) (.inl hkeyHeld) hheld hbrought)
  exact ⟨other, List.mem_cons_of_mem _ hother, rfl, hstands⟩

theorem commits_takenUp {input : RecordAttendanceInput} (entry : MeetingEntry)
    (hinv : MeetingsSound s) (hunheld : Unheld s line.meetingId) (hmem : line ∈ s.attendances)
    (hline : Admitted s (line.takenUp input)) (hheld : (.attendance line.id, .exclusive) ∈ held)
    (hbrought : ∀ personId ∈ input.onBehalfOfPersonId, Brought held s line.meetingId personId)
    (hs' : s' = (s.writeAttendance line.id (·.takenUp input)).record entry) :
    (meetingDiscipline zone).Commits held reads t s s' := by
  subst hs'
  have hact : DoorAct s ((s.writeAttendance line.id (·.takenUp input)).record entry) :=
    .takenUp hunheld hmem hline
  obtain ⟨_, hgrown⟩ := hact.grown hinv.door
  have hwritten := hinv.door.mem_overwritten hmem
    (show (line.takenUp input).id = line.id from rfl)
  refine commits_door hinv hact (keeps_admitted (line.takenUp input) hgrown.since
    (fun other hother => ((hwritten other).mp hother).imp_right And.left)
    (fun other hother meetingId personId hstands => ?_)
    (fun id hne => rowAt_overwrite_of_ne hne fun _ _ => rfl) (.inr fun other hother => ?_)
    hheld hbrought)
  · by_cases hid : other.id = line.id
    · rw [hinv.door.lines.eq_of_key hother hmem hid] at hstands
      refine ⟨line.takenUp input, (hwritten _).mpr (.inl rfl), hid.symm, ?_⟩
      exact ⟨hstands.meeting, hstands.person, hstands.own, rfl⟩
    · exact ⟨other, (hwritten other).mpr (.inr ⟨hother, hid⟩), rfl, hstands⟩
  · rcases (hwritten other).mp hother with rfl | ⟨hother, -⟩
    · exact ⟨line, hmem, rfl⟩
    · exact ⟨other, hother, rfl⟩

/-- Whoever strikes off a line of somebody's own holds the line they had first. -/
theorem commits_struck {withdrawnAt : Int} (assistant : List (String × Int))
    {log : List MeetingEntry} (hinv : MeetingsSound s) (hunheld : Unheld s line.meetingId)
    (hmem : line ∈ s.attendances)
    (hassistant : ∀ struck ∈ assistant, ∃ other ∈ s.attendances, other.id = struck.1 ∧
      other.meetingId = line.meetingId ∧ other.capacity = .ASSISTANT)
    (hleft : line.capacity = .ASSISTANT ∨
      (∃ other ∈ s.attendances, other.id ≠ line.id ∧
        OwnLine line.meetingId line.personId other) ∨
      ∀ other ∈ s.attendances, other.standingEntry = some (line.meetingId, line.personId) →
        other.id ∈ assistant.map (·.1))
    (hheld : ∀ id ∈ ((line.id, withdrawnAt) :: assistant).map (·.1),
      (.attendance id, .exclusive) ∈ held)
    (hfirst : line.capacity ≠ .ASSISTANT → ∃ first,
      firstLine s line.meetingId line.personId = some first ∧
        (.attendance first, .exclusive) ∈ held)
    (hs' : s' = { struckOff ((line.id, withdrawnAt) :: assistant) s with log }) :
    (meetingDiscipline zone).Commits held reads t s s' := by
  have hact : DoorAct s s' := by
    subst hs'
    exact .struck hunheld hmem hassistant hleft
  obtain ⟨_, hgrown⟩ := hact.grown hinv.door
  obtain ⟨f, hf, heq⟩ := exists_struck ((line.id, withdrawnAt) :: assistant) s
  rw [heq] at hs'
  subst hs'
  -- what stands stood before, and was spared
  have hentry : ∀ meetingId personId,
      EntryKept meetingId personId s { s with attendances := s.attendances.map f, log } := by
    intro meetingId personId other hother hentry
    obtain ⟨old, hold, rfl⟩ := List.mem_map.mp hother
    have hspared := hf.spared old (hf.standing (standingEntry_eq.mp hentry).1)
    rw [hspared] at hentry ⊢
    exact ⟨old, hold, rfl, hentry⟩
  refine commits_door hinv hact fun fact hk => ?_
  cases fact with
  | line id =>
    have hspared : id ∉ ((line.id, withdrawnAt) :: assistant).map (·.1) := fun hmem =>
      guarded_shared hk .line (hheld id hmem)
    show rowAt MeetingAttendance.id (s.attendances.map f) id = _
    rw [rowAt_map hf.id_eq]
    cases hfound : rowAt MeetingAttendance.id s.attendances id with
    | none => rfl
    | some old =>
      obtain ⟨-, rfl⟩ := mem_of_rowAt hfound
      exact congrArg some (hf.spared old hspared)
  | lineKey key =>
    intro hnone
    refine rowAt_eq_none.mpr fun other hother hat => ?_
    obtain ⟨old, hold, rfl⟩ := List.mem_map.mp hother
    exact rowAt_eq_none.mp hnone old hold ((hf.key_eq old).symm.trans hat)
  | entry meetingId personId => exact hentry meetingId personId
  | leaving meetingId personId first leaves =>
    refine fun hthere => ⟨hgrown.since.first meetingId personId first hthere,
      fun own hown hstands => ?_, fun _ => hentry meetingId personId⟩
    refine ⟨own, List.mem_map.mpr ⟨own, hown, hf.spared own fun hid => ?_⟩, rfl, hstands⟩
    rw [List.map_cons, List.mem_cons] at hid
    rcases hid with hid | hid
    · obtain rfl := hinv.door.lines.eq_of_key hown hmem hid
      obtain ⟨first', hthere', hheld'⟩ := hfirst hstands.own
      rw [hstands.meeting, hstands.person, hthere] at hthere'
      obtain rfl := Option.some.inj hthere'
      exact guarded_exclusive hk .leavingFirst hheld'
    · obtain ⟨struck, hstruck, hid⟩ := List.mem_map.mp hid
      obtain ⟨other, hother, hid', -, hcapacity⟩ := hassistant struck hstruck
      obtain rfl := hinv.door.lines.eq_of_key hown hother (hid.symm.trans hid'.symm)
      exact hstands.own hcapacity
  | authority id => rfl
  | authorityKey key => exact fun hnone => hnone
  | proxies id => exact fun row hrow _ hstands => ⟨row, hrow, rfl, rfl, hstands⟩

end Commits

section Calls

variable {prompt : MeetingLock → Prop} {c c' : Ctx MeetingStore MeetingLock}
  {meetingId personId actorPersonId : String}

/-- A meeting whose row is held stays as open as it was read. -/
theorem unheld_of_rely {held : List (MeetingLock × Mode)} {m : Mode} {s s' : MeetingStore}
    {meeting : Meeting} (hfound : s.findMeeting meetingId = some meeting)
    (hopen : meeting.concludedAt = none) (hheld : (.meeting meetingId, m) ∈ held)
    (h : (meetingDiscipline zone).Rely held s s') : Unheld s' meetingId :=
  ⟨meeting, (meeting_of_rely h hheld).trans hfound, hopen⟩

theorem pending_write_eq {g : MeetingStore → MeetingStore} (h : c.pending = g)
    (f : MeetingStore → MeetingStore) : (c.write f).pending = f ∘ g := congrArg (f ∘ ·) h

/-! ### Who is recorded as present -/

/-- What a capacity asks for is there, and stays: an assistant's principal stands on the list. -/
structure Bringing (c : Ctx MeetingStore MeetingLock) (meetingId : String)
    (input : RecordAttendanceInput) : Prop where
  assistant : input.onBehalfOfPersonId ≠ none ↔ input.capacity = .ASSISTANT
  own : ∀ t s, c.knows t s → ∀ personId ∈ input.onBehalfOfPersonId,
    ∃ own ∈ s.attendances, OwnLine meetingId personId own ∧ (.attendance own.id, .shared) ∈ c.held

theorem Bringing.since {input : RecordAttendanceInput} (h : Bringing c meetingId input)
    (hsince : c.Since c') : Bringing c' meetingId input where
  assistant := h.assistant
  own t s hk personId hbehalf := by
    obtain ⟨own, hown, hstands, hheld⟩ := h.own t s (hsince.knows t s hk) personId hbehalf
    exact ⟨own, hown, hstands, hsince.held _ hheld⟩

theorem safe_requirePrincipalPresent {behalf : Option String}
    {Q : Unit → Ctx MeetingStore MeetingLock → Prop} (hp : c.pending = id)
    (h : ∀ personId ∈ behalf, ∀ c', c.Later c' → (∀ t s, c'.knows t s →
      ∃ own ∈ s.attendances, OwnLine meetingId personId own ∧
        (.attendance own.id, .shared) ∈ c'.held) → Q () c') :
    Safe (meetingDiscipline zone) prompt (requirePrincipalPresent meetingId behalf) Q c := by
  cases behalf with
  | none => exact safe_fail
  | some personId =>
    unfold requirePrincipalPresent
    rw [safe_bind]
    refine safe_lockRows fun c' t₁ s₁ t₂ s₂ hlater hheld _ _ hinv₂ _ _ hrely => ?_
    rw [safe_refuseIf, List.length_eq_zero_iff]
    intro hsome
    obtain ⟨id, hid⟩ := List.exists_mem_of_ne_nil _ hsome
    obtain ⟨hfound, hstill⟩ := List.mem_filter.mp hid
    refine h personId rfl c' hlater fun t s hk => ?_
    rw [show c.pending s₂ = s₂ from congrFun hp s₂, decide_eq_true_eq, mem_toSorted] at hstill
    obtain ⟨own, hown, rfl⟩ := List.mem_map.mp hstill
    obtain ⟨hown, hstands⟩ := List.mem_filter.mp hown
    rw [Bool.and_eq_true, Option.isNone_iff_eq_none] at hstands
    have hfound' := line_of_rely (hrely t s hk) (hheld own.id hfound)
    rw [hinv₂.door.lines.rowAt_eq_some.mpr ⟨hown, rfl⟩] at hfound'
    exact ⟨own, (mem_of_rowAt hfound').1, ownLine_iff.mpr hstands, hheld own.id hfound⟩

theorem safe_requireCapacity {archive : List MemberRegisterEvent} {meeting : Meeting}
    {input : RecordAttendanceInput} {Q : Unit → Ctx MeetingStore MeetingLock → Prop}
    (hp : c.pending = id) (hnone : input.capacity ≠ .ASSISTANT → input.onBehalfOfPersonId = none)
    (h : ∀ c', c.Later c' → Bringing c' meeting.id input → Q () c') :
    Safe (meetingDiscipline zone) prompt (requireCapacity archive meeting input) Q c := by
  have hown : input.capacity ≠ .ASSISTANT → ∀ c', Bringing c' meeting.id input := by
    intro hcapacity c'
    refine ⟨⟨fun hbehalf => absurd (hnone hcapacity) hbehalf, fun hc => absurd hc hcapacity⟩, ?_⟩
    intro t s _ personId hbehalf
    rw [hnone hcapacity] at hbehalf
    cases hbehalf
  unfold requireCapacity
  cases hcapacity : input.capacity with
  | MEMBER =>
    rw [hcapacity] at hown
    unfold requireMemberOn
    rw [safe_refuseIf]
    exact fun _ => h c (.refl c) (hown (by decide) c)
  | PROXY_HOLDER =>
    rw [hcapacity] at hown
    unfold requireStandingAuthority
    rw [safe_bind, safe_snapshot]
    intro t s _ _
    rw [safe_refuseIf]
    exact fun _ => h _ ((Ctx.Later.refl c).see t s) (hown (by decide) _)
  | ASSISTANT =>
    show Safe _ _ (requirePrincipalPresent meeting.id input.onBehalfOfPersonId >>= _) Q c
    rw [safe_bind]
    refine safe_requirePrincipalPresent hp fun personId hbehalf c' hlater hown' => ?_
    rw [safe_bind, safe_snapshot]
    intro t s _ _
    rw [safe_refuseIf]
    refine fun _ => h _ (hlater.see t s) ⟨?_, fun t s hk other hother => ?_⟩
    · rw [Option.mem_def.mp hbehalf]
      exact ⟨fun _ => hcapacity, fun _ => Option.some_ne_none personId⟩
    · obtain rfl := Option.mem_unique hother hbehalf
      exact hown' t s hk.1

theorem reading_leaveEntry (attendanceId : String) : Reading (leaveEntry attendanceId) := by
  refine .bind .snapshot fun s => ?_
  split
  · exact .pure ()
  · exact .acquire _ _

/-- The entry is the line's alone, as long as the lock is held. -/
structure Claimed (c : Ctx MeetingStore MeetingLock) (meetingId attendanceId : String)
    (behalf : Option String) : Prop where
  held : ∀ personId ∈ behalf, (.standingAssistant meetingId personId, .exclusive) ∈ c.held
  alone : ∀ t s, c.knows t s → ∀ personId ∈ behalf, ∀ other ∈ s.attendances,
    other.standingEntry = some (meetingId, personId) → other.id = attendanceId

theorem Claimed.since {attendanceId : String} {behalf : Option String}
    (h : Claimed c meetingId attendanceId behalf) (hsince : c.Since c') :
    Claimed c' meetingId attendanceId behalf where
  held personId hbehalf := hsince.held _ (h.held personId hbehalf)
  alone t s hk := h.alone t s (hsince.knows t s hk)

theorem safe_claimEntry {attendanceId : String} {behalf : Option String}
    {Q : Unit → Ctx MeetingStore MeetingLock → Prop} (hp : c.pending = id)
    (h : ∀ c', c.Later c' → Claimed c' meetingId attendanceId behalf → Q () c') :
    Safe (meetingDiscipline zone) prompt (claimEntry meetingId attendanceId behalf) Q c := by
  cases behalf with
  | none =>
    refine h c (.refl c) ⟨fun personId hnone => ?_, fun t s _ personId hnone => ?_⟩ <;> cases hnone
  | some personId =>
    unfold claimEntry
    rw [safe_bind, safe_acquire]
    intro t₀ s₀ _ _ _
    rw [safe_bind, safe_snapshot]
    intro t₁ s₁ _ _
    rw [safe_refuseIf]
    intro hfree
    refine h _ ((((Ctx.Later.refl c).acquire _ _).observe t₀ s₀).see t₁ s₁)
      ⟨fun other hother => ?_, fun t s hk other hother line hline hentry => ?_⟩
    · obtain rfl := Option.some.inj hother
      exact List.mem_cons_self
    · obtain rfl := Option.some.inj hother
      obtain ⟨line', hline', hid, hentry'⟩ :=
        entry_of_rely hk.2.2 List.mem_cons_self line hline hentry
      by_contra hne
      refine hfree ⟨line', ?_, fun hid' => hne (hid.symm.trans hid'), hentry'⟩
      rw [show (Ctx.observe (meetingDiscipline zone) (c.acquire _ _) t₀ s₀).pending s₁ = s₁ from
        congrFun hp s₁]
      exact hline'

/-- A line as the input has it may be put on the list. -/
theorem Bringing.admitted {input : RecordAttendanceInput} {t : Int} {s : MeetingStore}
    (line : MeetingAttendance) (h : Bringing c line.meetingId input)
    (hclaimed : Claimed c line.meetingId line.id input.onBehalfOfPersonId) (hk : c.knows t s)
    (hstands : line.withdrawnAt = none) (hcapacity : line.capacity = input.capacity)
    (hbehalf : line.onBehalfOfPersonId = input.onBehalfOfPersonId) : Admitted s line where
  standing := hstands
  assistant := by
    rw [hbehalf, hcapacity]
    exact h.assistant
  present personId hperson := by
    obtain ⟨own, hown, hline, -⟩ := h.own t s hk personId (hbehalf ▸ hperson)
    exact ⟨own, hown, hline⟩
  alone other hother entry hentry hline := by
    obtain ⟨entryMeeting, entryPerson⟩ := entry
    obtain ⟨-, rfl, hperson⟩ := standingEntry_eq.mp hline
    exact hclaimed.alone t s hk entryPerson (hbehalf ▸ hperson) other hother hentry

theorem Bringing.brought {input : RecordAttendanceInput} {attendanceId : String} {t : Int}
    {s : MeetingStore} (h : Bringing c meetingId input)
    (hclaimed : Claimed c meetingId attendanceId input.onBehalfOfPersonId) (hk : c.knows t s) :
    ∀ personId ∈ input.onBehalfOfPersonId, Brought c.held s meetingId personId :=
  fun personId hbehalf => ⟨hclaimed.held personId hbehalf, h.own t s hk personId hbehalf⟩

theorem safe_recordAttendance {archive : List MemberRegisterEvent} {input : RecordAttendanceInput} :
    SafeCall (meetingDiscipline zone) prompt
      (recordAttendance archive meetingId input actorPersonId) := by
  unfold SafeCall recordAttendance
  rw [safe_transaction, safe_bind]
  refine safe_requireMeeting rfl fun meeting c₁ t₁ s₁ hlater₁ hmeeting _ _ hfound hrely₁ => ?_
  have hid : meeting.id = meetingId := id_of_found hfound
  rw [safe_bind, safe_refuseIfHeld]
  intro hopen
  rw [safe_bind, safe_refuseIf]
  intro happlies
  rw [safe_bind, safe_refuseIf]
  intro _
  rw [safe_bind]
  refine safe_requireCapacity (hlater₁.pending) (fun hcapacity => ?_) fun c₂ hlater₂ hbringing => ?_
  · by_contra hbehalf
    exact happlies ⟨hcapacity, hbehalf⟩
  rw [hid] at hbringing
  have hp₂ : c₂.pending = id := hlater₂.pending.trans hlater₁.pending
  have hunheld : ∀ t s, c₂.knows t s → Unheld s meetingId := fun t s hk =>
    unheld_of_rely hfound hopen hmeeting (hrely₁ t s (hlater₂.knows t s hk))
  unfold upsertAttendance
  rw [safe_bind, safe_bind, safe_acquire]
  intro t₃ s₃ _ _ _
  rw [safe_bind, safe_snapshot]
  intro t₄ s₄ hinv₄ hk₄
  have hlater₄ := ((((Ctx.Later.refl c₂).acquire (.attendanceKey meetingId input.personId
    input.capacity) .exclusive).observe (D := meetingDiscipline zone) t₃ s₃).see
      (D := meetingDiscipline zone) t₄ s₄)
  rw [show (Ctx.observe (meetingDiscipline zone) (c₂.acquire (.attendanceKey meetingId
    input.personId input.capacity) .exclusive) t₃ s₃).pending s₄ = s₄ from congrFun hp₂ s₄]
  cases hrow : rowAt MeetingAttendance.key s₄.attendances
      (meetingId, input.personId, input.capacity) with
  | none =>
    show Safe _ _ (fresh >>= _) _ _
    rw [safe_bind, safe_fresh]
    intro drawn
    rw [safe_bind]
    refine safe_claimEntry (hlater₄.pending.trans hp₂) fun c₅ hlater₅ hclaimed => ?_
    rw [safe_bind]
    refine safe_createRow fun c₆ t₅ s₅ hlater₆ hheld _ _ hnew hrely => ?_
    rw [safe_pure, safe_update]
    refine ⟨fun t s hinv hk => ?_, trivial⟩
    let line : MeetingAttendance := ⟨drawn.ids 0, meetingId, input.personId, input.capacity,
      input.mode, input.onBehalfOfPersonId, none⟩
    have hsince := (hlater₄.trans hlater₅).trans hlater₆
    have hclaimed := hclaimed.since hlater₆.toSince
    have hbringing := hbringing.since hsince.toSince
    have hp₆ : c₆.pending = id := hsince.pending.trans hp₂
    have hk₄ := (hlater₅.trans hlater₆).knows t s hk
    have hnone : rowAt MeetingAttendance.id s.attendances line.id = none := by
      rw [line_of_rely (hrely t s hk) List.mem_cons_self]
      rw [show c₅.pending s₅ = s₅ from
        congrFun ((hlater₄.trans hlater₅).pending.trans hp₂) s₅] at hnew
      exact rowAt_eq_none.mpr fun other hother hid =>
        hnew (List.mem_map.mpr ⟨other, hother, hid⟩)
    have hkey : rowAt MeetingAttendance.key s.attendances line.key = none :=
      lineKey_of_rely hk₄.2.2 List.mem_cons_self hrow
    refine commits_entered line (.attendanceRecorded (drawn.ids 0) meetingId input.personId
      input.capacity input.mode actorPersonId) hinv (hunheld t s (hsince.knows t s hk)) hnone hkey
      (Bringing.admitted line hbringing hclaimed hk rfl rfl rfl) ?_ hheld (hbringing.brought hclaimed hk) ?_
    · exact (hlater₅.trans hlater₆).held _ List.mem_cons_self
    · show MeetingStore.record { c₆.pending s with attendances := line ::
        (c₆.pending s).attendances } _ = _
      rw [show c₆.pending s = s from congrFun hp₆ s]
  | some line =>
    show Safe _ _ (acquire (MeetingLock.attendance line.id) .exclusive >>= _) _ _
    rw [safe_bind, safe_acquire]
    intro t₅ s₅ _ _ _
    have hlater₅ := (hlater₄.acquire (.attendance line.id) .exclusive).observe
      (D := meetingDiscipline zone) t₅ s₅
    rw [safe_bind]
    refine safe_reading (reading_leaveEntry line.id) fun _ c₅ hsince₅ hp₅ => ?_
    rw [safe_bind]
    refine safe_claimEntry (hp₅.trans (hlater₅.pending.trans hp₂)) fun c₆ hlater₆ hclaimed => ?_
    rw [safe_bind, safe_update, safe_pure, safe_update]
    refine ⟨fun t s hinv hk => ?_, trivial⟩
    have hsince₆ := hsince₅.trans hlater₆.toSince
    have hsince := hlater₅.toSince.trans hsince₆
    have hp₆ : c₆.pending = id :=
      hlater₆.pending.trans (hp₅.trans (hlater₅.pending.trans hp₂))
    have hk₄ := hsince₆.knows t s hk
    -- the line is there as it was read, but for what may have been written in it
    obtain ⟨hline, hkey⟩ := mem_of_rowAt hrow
    obtain ⟨line', hline', hid', hkey'⟩ := (since_of_rely hk₄.1.2.2).door.lines line hline
    rw [hkey] at hkey'
    obtain ⟨rfl, hrest⟩ := Prod.mk.inj hkey'
    obtain ⟨-, hcapacity⟩ := Prod.mk.inj hrest
    rw [← hid'] at hclaimed
    have hbringing := hbringing.since hsince
    refine commits_takenUp (.attendanceRecorded line.id line'.meetingId input.personId
      input.capacity input.mode actorPersonId) hinv (hunheld t s (hsince.knows t s hk)) hline'
      (Bringing.admitted (line'.takenUp input) hbringing hclaimed hk rfl hcapacity rfl) ?_
      (hbringing.brought hclaimed hk) ?_
    · rw [hid']
      exact hsince₆.held _ List.mem_cons_self
    · show MeetingStore.record (MeetingStore.writeAttendance (c₆.pending s) line.id _) _ = _
      rw [show c₆.pending s = s from congrFun hp₆ s, hid']

/-! ### Who leaves -/

theorem safe_readLine {attendanceId : String}
    {Q : MeetingAttendance → Ctx MeetingStore MeetingLock → Prop} (hp : c.pending = id)
    (h : ∀ line t s, MeetingsSound s → c.knows t s → line ∈ s.attendances →
      line.id = attendanceId → line.meetingId = meetingId →
      Q line (c.see (meetingDiscipline zone) t s)) :
    Safe (meetingDiscipline zone) prompt (readLine meetingId attendanceId) Q c := by
  unfold readLine
  rw [safe_bind, safe_snapshot]
  intro t s hinv hk
  rw [show c.pending s = s from congrFun hp s]
  split
  · exact safe_fail
  · rename_i line hfound
    obtain ⟨hfound, hat⟩ := Option.filter_eq_some_iff.mp hfound
    obtain ⟨hmem, hid⟩ := mem_of_rowAt hfound
    rw [safe_pure]
    exact h line t s hinv hk hmem hid (of_decide_eq_true hat)

theorem safe_strikeOff {attendanceId : String} {Q : Unit → Ctx MeetingStore MeetingLock → Prop}
    (h : ∀ c' withdrawnAt, c.Since c' → (.attendance attendanceId, .exclusive) ∈ c'.held →
      c'.pending = (·.writeAttendance attendanceId
        ({ · with withdrawnAt := some withdrawnAt })) ∘ c.pending → Q () c') :
    Safe (meetingDiscipline zone) prompt (strikeOff attendanceId) Q c := by
  unfold strikeOff
  rw [safe_bind, safe_readClock]
  intro withdrawnAt s₀ _ _
  rw [safe_bind, safe_acquire]
  intro t₁ s₁ _ _ _
  rw [safe_bind]
  refine safe_reading (reading_leaveEntry attendanceId) fun _ c₂ hsince₂ hp₂ => ?_
  rw [safe_bind]
  refine safe_updateRow (fun c₃ _ => ?_) fun c₃ t₃ s₃ hlater₃ hheld _ _ _ => ?_
  · rw [safe_refuseIf]
    exact fun hnot => absurd rfl hnot
  · rw [safe_refuseIf]
    intro _
    refine h (c₃.write _) withdrawnAt ⟨fun x hx => ?_, fun t s hk => ?_, fun r hr => ?_⟩ hheld ?_
    · exact hlater₃.held x (hsince₂.held x (List.mem_cons_of_mem _ hx))
    · exact (hsince₂.knows t s (hlater₃.knows t s hk)).1.1
    · exact hlater₃.reads r (hsince₂.reads r hr)
    · exact pending_write_eq (hlater₃.pending.trans hp₂) _

/-- Somebody whose line is to be struck off: it and the one they had first are held. -/
def Departing (c : Ctx MeetingStore MeetingLock) (meetingId personId leaves : String) : Prop :=
  ∃ first, (.attendance first, .exclusive) ∈ c.held ∧ (.attendance leaves, .exclusive) ∈ c.held ∧
    ∀ t s, c.knows t s → firstLine s meetingId personId = some first

theorem Departing.since {leaves : String} (h : Departing c meetingId personId leaves)
    (hsince : c.Since c') : Departing c' meetingId personId leaves := by
  obtain ⟨first, hfirst, hleaves, hthere⟩ := h
  exact ⟨first, hsince.held _ hfirst, hsince.held _ hleaves,
    fun t s hk => hthere t s (hsince.knows t s hk)⟩

theorem Departing.leaving {leaves : String} (h : Departing c meetingId personId leaves) {t : Int}
    {s s' : MeetingStore} (hk : c.knows t s) (hrely : (meetingDiscipline zone).Rely c.held s s') :
    Leaving meetingId personId leaves s s' := by
  obtain ⟨first, hfirst, hleaves, hthere⟩ := h
  exact leaving_of_rely hrely hfirst hleaves (hthere t s hk)

/-- Either somebody has another line of their own, or the assistants they have are those they had. -/
theorem Departing.left {leaves : String} {ids : List String}
    (h : Departing c meetingId personId leaves) {t : Int} {s s' : MeetingStore}
    (hk : c.knows t s) (hrely : (meetingDiscipline zone).Rely c.held s s')
    (hids : ∀ line ∈ s.attendances, line.standingEntry = some (meetingId, personId) →
      line.id ∈ ids) :
    (∃ other ∈ s'.attendances, other.id ≠ leaves ∧ OwnLine meetingId personId other) ∨
      ∀ other ∈ s'.attendances, other.standingEntry = some (meetingId, personId) →
        other.id ∈ ids := by
  by_cases hother : ∃ other ∈ s'.attendances, other.id ≠ leaves ∧ OwnLine meetingId personId other
  · exact .inl hother
  · refine .inr fun other hmem hentry => ?_
    have hlast : ∀ line ∈ s'.attendances, OwnLine meetingId personId line → line.id = leaves := by
      intro line hline hown
      by_contra hne
      exact hother ⟨line, hline, hne, hown⟩
    obtain ⟨line, hline, hid, hentry'⟩ := (h.leaving hk hrely).entry hlast other hmem hentry
    rw [← hid]
    exact hids line hline hentry'

theorem safe_lockPrincipalLines (leaves : String) {Q : Unit → Ctx MeetingStore MeetingLock → Prop}
    (hp : c.pending = id) (hthere : ∀ t s, c.knows t s → ∃ line ∈ s.attendances,
      line.id = leaves ∧ isPrincipalLine meetingId personId line = true)
    (h : ∀ c', c.Later c' → Departing c' meetingId personId leaves → Q () c') :
    Safe (meetingDiscipline zone) prompt (lockPrincipalLines meetingId personId) Q c := by
  unfold lockPrincipalLines
  rw [safe_bind]
  refine safe_lockRows fun c' t₁ s₁ t₂ s₂ hlater hheld _ hk₁ _ _ hrely₁ hrely₂ => ?_
  rw [safe_pure]
  rw [show c.pending s₁ = s₁ from congrFun hp s₁] at hheld
  have hlocked : ∀ id ∈ (s₁.attendances.filter (isPrincipalLine meetingId personId)).map (·.id),
      (MeetingLock.attendance id, Mode.exclusive) ∈ c'.held := fun id hid =>
    hheld id (mem_toSorted.mpr hid)
  obtain ⟨line, hline, rfl, hprincipal⟩ := hthere t₁ s₁ hk₁
  have hleaves : line.id ∈ (s₁.attendances.filter (isPrincipalLine meetingId personId)).map (·.id) :=
    List.mem_map.mpr ⟨line, List.mem_filter.mpr ⟨hline, hprincipal⟩, rfl⟩
  cases hfirst : firstLine s₁ meetingId personId with
  | none =>
    rw [List.getLast?_eq_none_iff.mp hfirst] at hleaves
    cases hleaves
  | some first =>
    refine h c' hlater ⟨first, hlocked first (List.mem_of_getLast? hfirst), hlocked _ hleaves,
      fun t s hk => ?_⟩
    have hfirst₂ := (since_of_rely hrely₁).door.first meetingId personId first hfirst
    exact (since_of_rely (hrely₂ t s hk)).door.first meetingId personId first hfirst₂

theorem isAssistantOf_iff {line : MeetingAttendance} :
    isAssistantOf meetingId personId line = true ↔
      line.standingEntry = some (meetingId, personId) := by
  rw [standingEntry_eq]
  simp only [isAssistantOf, Bool.and_eq_true, decide_eq_true_eq, Option.isNone_iff_eq_none]
  tauto

/-- What leaves the list with somebody who may have been there on that line alone. -/
structure LeftWith (c : Ctx MeetingStore MeetingLock) (meetingId personId leaves : String)
    (assistant : List (String × Int)) : Prop where
  held : ∀ id ∈ assistant.map (·.1), (.attendance id, .exclusive) ∈ c.held
  there : ∀ t s, c.knows t s → ∀ struck ∈ assistant, ∃ other ∈ s.attendances,
    other.id = struck.1 ∧ other.meetingId = meetingId ∧ other.capacity = .ASSISTANT
  left : ∀ t s, c.knows t s →
    (∃ other ∈ s.attendances, other.id ≠ leaves ∧ OwnLine meetingId personId other) ∨
      ∀ other ∈ s.attendances, other.standingEntry = some (meetingId, personId) →
        other.id ∈ assistant.map (·.1)

/-- The line that is struck off first, and what is then read and struck off beside it. -/
theorem mem_struck {s : MeetingStore} {leaves : String} {withdrawnAt : Int} {entry : MeetingEntry}
    {line : MeetingAttendance} : line ∈ ((s.writeAttendance leaves
        ({ · with withdrawnAt := some withdrawnAt })).record entry).attendances ∧
      line.withdrawnAt = none ↔
    line ∈ s.attendances ∧ line.id ≠ leaves ∧ line.withdrawnAt = none := by
  constructor
  · rintro ⟨hline, hstands⟩
    obtain ⟨row, hrow, ⟨-, rfl⟩ | ⟨hid, rfl⟩⟩ := mem_overwrite.mp hline
    · cases hstands
    · exact ⟨hrow, hid, hstands⟩
  · rintro ⟨hline, hid, hstands⟩
    exact ⟨mem_overwrite.mpr ⟨line, hline, .inr ⟨hid, rfl⟩⟩, hstands⟩

theorem safe_strikeOffAssistant {leaves : String} {withdrawnAt : Int} {entry : MeetingEntry}
    {Q : Unit → Ctx MeetingStore MeetingLock → Prop}
    (hp : c.pending = fun s => (s.writeAttendance leaves
      ({ · with withdrawnAt := some withdrawnAt })).record entry)
    (hdeparting : Departing c meetingId personId leaves)
    (hown : ∀ t s, c.knows t s → ∃ line ∈ s.attendances,
      line.id = leaves ∧ line.capacity ≠ .ASSISTANT)
    (h : ∀ c' assistant (log : MeetingStore → List MeetingEntry), c.Since c' → LeftWith c' meetingId personId leaves assistant →
      (c'.pending = fun s =>
        { struckOff ((leaves, withdrawnAt) :: assistant) s with log := log s }) → Q () c') :
    Safe (meetingDiscipline zone) prompt (strikeOffAssistant meetingId personId actorPersonId)
      Q c := by
  unfold strikeOffAssistant
  rw [safe_bind, safe_snapshot]
  intro t₁ s₁ _ hk₁
  have hlater₁ := (Ctx.Since.refl c).see (D := meetingDiscipline zone) t₁ s₁
  refine safe_onlyIf (fun _ => ?_) fun hpresent => ?_
  · rw [safe_bind, safe_snapshot]
    intro t₂ s₂ hinv₂ hk₂
    have hlater₂ := hlater₁.see (D := meetingDiscipline zone) t₂ s₂
    -- the assistants there were are among the lines that were looked through
    have hspared : ∀ line ∈ s₂.attendances,
        line.standingEntry = some (meetingId, personId) → line ∈ (c.pending s₂).attendances := by
      intro line hline hentry
      obtain ⟨own, howned, hid, hcapacity⟩ := hown t₂ s₂ hk₂.1
      obtain ⟨hstands, -, hbehalf⟩ := standingEntry_eq.mp hentry
      rw [hp]
      refine (mem_struck.mpr ⟨hline, fun hid' => ?_, hstands⟩).1
      rw [← hinv₂.door.lines.eq_of_key hline howned (hid'.trans hid.symm)] at hcapacity
      refine hcapacity ((hinv₂.door.assistant line hline).mp ?_)
      rw [hbehalf]
      exact Option.some_ne_none personId
    rw [show (c.see (meetingDiscipline zone) t₁ s₁).pending s₂ = c.pending s₂ from rfl]
    cases hfound : (c.pending s₂).attendances.find? (isAssistantOf meetingId personId) with
    | none =>
      refine h _ [] (fun s : MeetingStore => entry :: s.log) hlater₂ ⟨fun _ hid => ?_, fun _ _ _ _ hid => ?_,
        fun t s hk => ?_⟩ hp
      · cases hid
      · cases hid
      · refine hdeparting.left hk₂.1 hk.2.2 fun line hline hentry => ?_
        have hnot := List.find?_eq_none.mp hfound line (hspared line hline hentry)
        exact absurd (isAssistantOf_iff.mpr hentry) hnot
    | some assistant =>
      have hassistant := isAssistantOf_iff.mp (List.find?_some hfound)
      have hmem := List.mem_of_find?_eq_some hfound
      rw [hp] at hmem
      obtain ⟨hmem, -, -⟩ := mem_struck.mp ⟨hmem, (standingEntry_eq.mp hassistant).1⟩
      show Safe _ _ (strikeOff assistant.id >>= _) _ _
      rw [safe_bind]
      refine safe_strikeOff fun c₃ withdrawnAt' hsince₃ hheld hp₃ => ?_
      rw [safe_update]
      refine h (c₃.write _) [(assistant.id, withdrawnAt')] (fun s : MeetingStore => .attendanceWithdrawn
        assistant.id meetingId assistant.personId .ASSISTANT true actorPersonId :: entry :: s.log)
        ((hlater₂.trans hsince₃).write _) ⟨fun id hid => ?_, fun t s hk struck hstruck => ?_,
        fun t s hk => ?_⟩ ?_
      · rw [List.mem_singleton.mp hid]
        exact hheld
      · rw [List.mem_singleton.mp hstruck]
        obtain ⟨line, hline, hid, hkey⟩ := (since_of_rely (hsince₃.knows t s hk).2.2).door.lines
          assistant hmem
        obtain ⟨-, hat, hbehalf⟩ := standingEntry_eq.mp hassistant
        obtain ⟨hmeeting, hrest⟩ := Prod.mk.inj hkey
        obtain ⟨-, hcapacity⟩ := Prod.mk.inj hrest
        refine ⟨line, hline, hid, hmeeting.trans hat, hcapacity.trans ?_⟩
        refine (hinv₂.door.assistant assistant hmem).mp ?_
        rw [hbehalf]
        exact Option.some_ne_none personId
      · refine hdeparting.left hk₂.1 (hsince₃.knows t s hk).2.2 fun line hline hentry => ?_
        rw [hinv₂.door.oneAssistant line hline assistant hmem _ hentry hassistant]
        exact List.mem_singleton_self _
      · refine (pending_write_eq (hp₃.trans (congrArg (Function.comp _) hp)) _).trans ?_
        rfl
  · refine h _ [] (fun s : MeetingStore => entry :: s.log) hlater₁ ⟨fun _ hid => ?_, fun _ _ _ _ hid => ?_,
      fun t s hk => .inl ?_⟩ hp
    · cases hid
    · cases hid
    · rw [Bool.not_eq_false, isPrincipalPresent_iff] at hpresent
      obtain ⟨own, hmem, hstands⟩ := hpresent
      rw [hp] at hmem
      obtain ⟨hmem, hid, -⟩ := mem_struck.mp ⟨hmem, hstands.standing⟩
      obtain ⟨other, hother, hid', hown'⟩ :=
        (hdeparting.leaving hk₁ hk.2.2).stands own hmem hstands
      exact ⟨other, hother, hid' ▸ hid, hown'⟩

/-- A line that stands is struck off, and with it the assistant of whoever is left with no line. -/
theorem safe_strike {existing : MeetingAttendance} {attendanceId : String} (hp : c.pending = id)
    (hunheld : ∀ t s, c.knows t s → Unheld s meetingId) (hat : existing.meetingId = meetingId)
    (hline : ∀ t s, c.knows t s → ∃ line ∈ s.attendances,
      line.id = attendanceId ∧ line.key = existing.key)
    (hdeparting : existing.capacity ≠ .ASSISTANT →
      Departing c meetingId existing.personId attendanceId) :
    Safe (meetingDiscipline zone) prompt (onlyIf (existing.withdrawnAt = none) do
        strikeOff attendanceId
        update (·.record (.attendanceWithdrawn attendanceId meetingId existing.personId
          existing.capacity false actorPersonId))
        onlyIf (existing.capacity ≠ .ASSISTANT)
          (strikeOffAssistant meetingId existing.personId actorPersonId) : MeetingTx Unit)
      (fun _ c' => (∀ t s, MeetingsSound s → c'.knows t s → (meetingDiscipline zone).Commits
        c'.held c'.reads t s (c'.pending s)) ∧ True) c := by
  refine safe_onlyIf (fun _ => ?_) fun _ => ⟨fun t s hinv _ => ?_, trivial⟩
  · rw [safe_bind]
    refine safe_strikeOff fun c₁ withdrawnAt hsince₁ hheld hp₁ => ?_
    rw [safe_bind, safe_update]
    have hp₂ := pending_write_eq (hp₁.trans (congrArg (Function.comp _) hp))
      (·.record (.attendanceWithdrawn attendanceId meetingId existing.personId existing.capacity
        false actorPersonId))
    have hthere : ∀ t s, c₁.knows t s → ∃ line ∈ s.attendances, line.id = attendanceId ∧
        line.meetingId = meetingId ∧ line.personId = existing.personId ∧
          line.capacity = existing.capacity := by
      intro t s hk
      obtain ⟨line, hmem, hid, hkey⟩ := hline t s (hsince₁.knows t s hk)
      obtain ⟨hmeeting, hrest⟩ := Prod.mk.inj hkey
      obtain ⟨hperson, hcapacity⟩ := Prod.mk.inj hrest
      exact ⟨line, hmem, hid, hmeeting.trans hat, hperson, hcapacity⟩
    refine safe_onlyIf (fun hcapacity => ?_) fun hcapacity => ⟨fun t s hinv hk => ?_, trivial⟩
    · have hdeparting := (hdeparting hcapacity).since hsince₁
      refine safe_strikeOffAssistant (c := c₁.write _) hp₂ hdeparting (fun t s hk => ?_)
        fun c₂ assistant log hsince₂ hleft hp₃ => ⟨fun t s hinv hk => ?_, trivial⟩
      · obtain ⟨line, hmem, hid, -, -, hsame⟩ := hthere t s hk
        exact ⟨line, hmem, hid, hsame ▸ hcapacity⟩
      · obtain ⟨line, hmem, rfl, rfl, hperson, hsame⟩ := hthere t s (hsince₂.knows t s hk)
        rw [← hperson] at hleft hdeparting
        obtain ⟨first, hfirst, -, hfirstLine⟩ := hdeparting
        refine commits_struck assistant hinv
          (hunheld t s (hsince₁.knows t s (hsince₂.knows t s hk))) hmem
          (hleft.there t s hk) (.inr (hleft.left t s hk)) (fun id hid => ?_)
          (fun _ => ⟨first, hfirstLine t s (hsince₂.knows t s hk), hsince₂.held _ hfirst⟩)
          (congrFun hp₃ s)
        rw [List.map_cons, List.mem_cons] at hid
        rcases hid with rfl | hid
        · exact hsince₂.held _ hheld
        · exact hleft.held id hid
    · obtain ⟨line, hmem, rfl, rfl, -, hsame⟩ := hthere t s hk
      have hassistant : line.capacity = .ASSISTANT := hsame.trans (not_not.mp hcapacity)
      refine commits_struck [] hinv (hunheld t s (hsince₁.knows t s hk)) hmem
        (fun _ hnil => ?_) (.inl hassistant) (fun id hid => ?_)
        (fun hnot => absurd hassistant hnot) (congrFun hp₂ s)
      · cases hnil
      · rw [List.mem_singleton.mp hid]
        exact hheld
  · rw [congrFun hp s]
    exact commits_nothing hinv

theorem safe_withdrawAttendance {attendanceId : String} :
    SafeCall (meetingDiscipline zone) prompt
      (withdrawAttendance meetingId attendanceId actorPersonId) := by
  unfold SafeCall withdrawAttendance
  rw [safe_transaction, safe_bind]
  refine safe_requireMeeting rfl fun meeting c₁ t₁ s₁ hlater₁ hmeeting _ _ hfound hrely₁ => ?_
  rw [safe_bind, safe_refuseIfHeld]
  intro hopen
  have hunheld : ∀ t s, c₁.knows t s → Unheld s meetingId := fun t s hk =>
    unheld_of_rely hfound hopen hmeeting (hrely₁ t s hk)
  rw [safe_bind]
  refine safe_readLine hlater₁.pending fun line t₂ s₂ hinv₂ hk₂ hline hid hat => ?_
  have hlater₂ := (Ctx.Later.refl c₁).see (D := meetingDiscipline zone) t₂ s₂
  have hthere : ∀ t s, (c₁.see (meetingDiscipline zone) t₂ s₂).knows t s →
      ∃ line' ∈ s.attendances, line'.id = attendanceId ∧ line'.key = line.key := by
    intro t s hk
    obtain ⟨line', hline', hid', hkey⟩ := (since_of_rely hk.2.2).door.lines line hline
    exact ⟨line', hline', hid'.trans hid, hkey⟩
  extract_lets strike
  split_ifs with hcapacity
  · rw [safe_bind]
    refine safe_lockPrincipalLines attendanceId (hlater₂.pending.trans hlater₁.pending)
      (fun t s hk => ?_) fun c₃ hlater₃ hdeparting => ?_
    · obtain ⟨line', hline', hid', hkey⟩ := hthere t s hk
      obtain ⟨hmeeting', hrest⟩ := Prod.mk.inj hkey
      obtain ⟨hperson, hcapacity'⟩ := Prod.mk.inj hrest
      exact ⟨line', hline', hid', isPrincipalLine_iff.mpr
        ⟨hmeeting'.trans hat, hperson, hcapacity' ▸ hcapacity⟩⟩
    · have hlater := hlater₂.trans hlater₃
      rw [safe_bind]
      refine safe_readLine (hlater.pending.trans hlater₁.pending)
        fun existing t₄ s₄ hinv₄ hk₄ hexisting hid₄ hat₄ => ?_
      -- the same line as before, whatever was written in it
      obtain ⟨line', hline', hid', hkey⟩ := hthere t₄ s₄ (hlater₃.knows t₄ s₄ hk₄)
      obtain rfl := hinv₄.door.lines.eq_of_key hline' hexisting (hid'.trans hid₄.symm)
      obtain ⟨-, hrest⟩ := Prod.mk.inj hkey
      rw [← (Prod.mk.inj hrest).1] at hdeparting
      have hsince := (Ctx.Later.refl c₃).see (D := meetingDiscipline zone) t₄ s₄
      refine safe_strike ((hlater.trans hsince).pending.trans hlater₁.pending)
        (fun t s hk => hunheld t s ((hlater.trans hsince).knows t s hk)) hat₄ (fun t s hk => ?_)
        fun _ => hdeparting.since hsince.toSince
      rw [hkey]
      exact hthere t s (hlater₃.knows t s (hsince.knows t s hk))
  · rw [safe_bind, safe_pure]
    exact safe_strike (hlater₂.pending.trans hlater₁.pending)
      (fun t s hk => hunheld t s (hlater₂.knows t s hk)) hat hthere
      fun hnot => absurd hnot hcapacity

end Calls

end OpenBrf.Meetings
