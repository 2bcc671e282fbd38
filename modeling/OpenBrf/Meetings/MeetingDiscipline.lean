import OpenBrf.Meetings.DoorActs

/-!
# Meetings.MeetingDiscipline — what a lock on a meeting, a motion or a line keeps

A fact stands while its locks are held.  That somebody who leaves was the last of their lines there
takes two: that line's, and that of the line the person had first, which everybody who strikes one
off holds too.
-/

namespace OpenBrf.Meetings

open Txn Lang Shared Registers MeetingStore

variable {zone : Zone} {t : Int} {s s' s'' : MeetingStore} {meetingId personId : String}
  {line other : MeetingAttendance} {row : ProxyAuthorisation}

/-! ### What stands of the list and the authorisations -/

def linesAt (s : MeetingStore) (meetingId : String) : List MeetingAttendance :=
  s.attendances.filter fun line => line.meetingId = meetingId

def authoritiesAt (s : MeetingStore) (meetingId : String) : List ProxyAuthorisation :=
  s.authorisations.filter fun row => row.meetingId = meetingId

/-- The line of a person's own that was recorded first. -/
def firstLine (s : MeetingStore) (meetingId personId : String) : Option String :=
  ((s.attendances.filter (isPrincipalLine meetingId personId)).map (·.id)).getLast?

/-- Lines and authorisations stay, each of whom it is; and those of a meeting that has been held are
as they were. -/
structure DoorSince (s s' : MeetingStore) : Prop where
  lines : ∀ line ∈ s.attendances, ∃ line' ∈ s'.attendances,
    line'.id = line.id ∧ line'.key = line.key
  rows : ∀ row ∈ s.authorisations, ∃ row' ∈ s'.authorisations,
    row'.id = row.id ∧ row'.key = row.key
  first : ∀ meetingId personId id, firstLine s meetingId personId = some id →
    firstLine s' meetingId personId = some id
  settledLines : ∀ meetingId, Concluded s meetingId → linesAt s' meetingId = linesAt s meetingId
  settledRows : ∀ meetingId, Concluded s meetingId →
    authoritiesAt s' meetingId = authoritiesAt s meetingId

theorem DoorSince.of_same (hlines : s'.attendances = s.attendances)
    (hrows : s'.authorisations = s.authorisations) : DoorSince s s' where
  lines line hline := ⟨line, hlines ▸ hline, rfl, rfl⟩
  rows row hrow := ⟨row, hrows ▸ hrow, rfl, rfl⟩
  first _ _ _ h := by
    unfold firstLine
    rw [hlines]
    exact h
  settledLines _ _ := by
    unfold linesAt
    rw [hlines]
  settledRows _ _ := by
    unfold authoritiesAt
    rw [hrows]

theorem DoorSince.trans (h : DoorSince s s') (hstand : MeetingsStand s s')
    (h' : DoorSince s' s'') : DoorSince s s'' where
  lines line hline := by
    obtain ⟨line', hline', hid, hkey⟩ := h.lines line hline
    obtain ⟨line'', hline'', hid', hkey'⟩ := h'.lines line' hline'
    exact ⟨line'', hline'', hid'.trans hid, hkey'.trans hkey⟩
  rows row hrow := by
    obtain ⟨row', hrow', hid, hkey⟩ := h.rows row hrow
    obtain ⟨row'', hrow'', hid', hkey'⟩ := h'.rows row' hrow'
    exact ⟨row'', hrow'', hid'.trans hid, hkey'.trans hkey⟩
  first meetingId personId id hfirst :=
    h'.first meetingId personId id (h.first meetingId personId id hfirst)
  settledLines id hheld :=
    (h'.settledLines id (hstand.concluded hheld)).trans (h.settledLines id hheld)
  settledRows id hheld :=
    (h'.settledRows id (hstand.concluded hheld)).trans (h.settledRows id hheld)

/-! ### Acts at one meeting -/

/-- What is viewed of a line. -/
def lineView (line : MeetingAttendance) : String × String × String × AttendanceCapacity :=
  (line.id, line.key)

def rowView (row : ProxyAuthorisation) : String × String × String × String := (row.id, row.key)

/-- Lines and authorisations of one meeting, that has not been held, were written and added. -/
structure DoorGrown (meetingId : String) (s s' : MeetingStore) : Prop where
  unheld : Unheld s meetingId
  lines : Grown lineView (fun line => line.meetingId = meetingId) s.attendances s'.attendances
  rows : Grown rowView (fun row => row.meetingId = meetingId) s.authorisations s'.authorisations

theorem isPrincipalLine_congr (h : lineView line = lineView other) :
    isPrincipalLine meetingId personId line = isPrincipalLine meetingId personId other := by
  obtain ⟨-, hkey⟩ := Prod.mk.inj h
  obtain ⟨hmeeting, hkey⟩ := Prod.mk.inj hkey
  obtain ⟨hperson, hcapacity⟩ := Prod.mk.inj hkey
  unfold isPrincipalLine
  rw [hmeeting, hperson, hcapacity]

theorem DoorGrown.since (h : DoorGrown meetingId s s') : DoorSince s s' where
  lines line hline := by
    obtain ⟨line', hline', hview⟩ := h.lines.exists_row hline
    exact ⟨line', hline', (Prod.mk.inj hview).1, (Prod.mk.inj hview).2⟩
  rows row hrow := by
    obtain ⟨row', hrow', hview⟩ := h.rows.exists_row hrow
    exact ⟨row', hrow', (Prod.mk.inj hview).1, (Prod.mk.inj hview).2⟩
  first _ _ _ hfirst := h.lines.getLast? (fun _ _ => isPrincipalLine_congr)
    (fun _ _ hview => (Prod.mk.inj hview).1) hfirst
  settledLines id hheld := by
    refine h.lines.filter_eq (fun a b hview => ?_) fun line hat hhere => ?_
    · rw [(Prod.mk.inj (Prod.mk.inj hview).2).1]
    · rw [of_decide_eq_true hat] at hhere
      exact h.unheld.not_concluded (hhere ▸ hheld)
  settledRows id hheld := by
    refine h.rows.filter_eq (fun a b hview => ?_) fun row hat hhere => ?_
    · rw [(Prod.mk.inj (Prod.mk.inj hview).2).1]
    · rw [of_decide_eq_true hat] at hhere
      exact h.unheld.not_concluded (hhere ▸ hheld)

/-- One row of a meeting was written over. -/
theorem line_overwritten (hkeyed : Keyed (·.id) s.attendances) (hline : line ∈ s.attendances)
    {f : MeetingAttendance → MeetingAttendance} (hf : ∀ row, lineView (f row) = lineView row) :
    Grown lineView (fun row => row.meetingId = line.meetingId) s.attendances
      (overwrite (·.id) line.id f s.attendances) := by
  refine .map (fun row _ => ?_) fun row hrow hnot => if_neg fun hid => hnot ?_
  · show lineView (if row.id = line.id then f row else row) = lineView row
    split_ifs
    · exact hf row
    · rfl
  · rw [hkeyed.eq_of_key hrow hline hid]

theorem row_overwritten (hkeyed : Keyed (·.id) s.authorisations)
    (hrow : row ∈ s.authorisations) {f : ProxyAuthorisation → ProxyAuthorisation}
    (hf : ∀ row, rowView (f row) = rowView row) :
    Grown rowView (fun other => other.meetingId = row.meetingId) s.authorisations
      (overwrite (·.id) row.id f s.authorisations) := by
  refine .map (fun other _ => ?_) fun other hother hnot => if_neg fun hid => hnot ?_
  · show rowView (if other.id = row.id then f other else other) = rowView other
    split_ifs
    · exact hf other
    · rfl
  · rw [hkeyed.eq_of_key hother hrow hid]

theorem grown_superseded (h : DoorSound s) {ended : Option (String × Int)}
    (hended : ∀ id ∈ ended.map (·.1), ∃ other ∈ s.authorisations, other.id = id ∧
      other.meetingId = meetingId) :
    Grown rowView (fun row => row.meetingId = meetingId) s.authorisations
      (superseded ended s).authorisations := by
  cases ended with
  | none => exact .refl _
  | some ended =>
    obtain ⟨id, withdrawnAt⟩ := ended
    obtain ⟨other, hother, rfl, rfl⟩ := hended id rfl
    exact row_overwritten h.authorisations hother fun _ => rfl

theorem rowView_meeting {a b : ProxyAuthorisation} (h : rowView a = rowView b)
    (ha : a.meetingId = meetingId) : b.meetingId = meetingId :=
  (Prod.mk.inj (Prod.mk.inj h).2).1.symm.trans ha

theorem DoorAct.grown (h : DoorSound s) (hact : DoorAct s s') : ∃ meetingId,
    DoorGrown meetingId s s' := by
  cases hact with
  | entered hunheld =>
    exact ⟨_, hunheld, .cons (by rfl) _, .refl _⟩
  | takenUp hunheld hline =>
    exact ⟨_, hunheld, line_overwritten h.lines hline fun _ => rfl, .refl _⟩
  | @struck line withdrawnAt assistant log hunheld hline hassistant =>
    obtain ⟨f, hf, heq⟩ := exists_struck ((line.id, withdrawnAt) :: assistant) s
    rw [heq]
    refine ⟨_, hunheld, .map (fun row _ => ?_) (fun row hrow hnot => hf.spared row fun hid => ?_),
      .refl _⟩
    · exact Prod.ext (hf.id_eq row) (hf.key_eq row)
    · rw [List.map_cons, List.mem_cons] at hid
      rcases hid with hid | hid
      · rw [h.lines.eq_of_key hrow hline hid] at hnot
        exact hnot rfl
      · obtain ⟨struck, hstruck, hid⟩ := List.mem_map.mp hid
        obtain ⟨other, hother, hid', hat, -⟩ := hassistant struck hstruck
        rw [h.lines.eq_of_key hrow hother (hid.symm.trans hid'.symm)] at hnot
        exact hnot hat
  | @registered row ended limit _ log hunheld _ _ _ hended =>
    have hadded : Grown rowView (fun other => other.meetingId = row.meetingId)
        (superseded ended s).authorisations (row :: (superseded ended s).authorisations) :=
      .cons (by rfl) _
    refine ⟨_, hunheld, ?_, (grown_superseded h hended).trans (fun _ _ => rowView_meeting) hadded⟩
    rw [superseded_eq]
    exact .refl _
  | @renewed row input authorisedOn ended _ actor log hunheld hrow hended _ hne =>
    refine ⟨_, hunheld, ?_, (grown_superseded h hended).trans (fun _ _ => rowView_meeting) ?_⟩
    · show Grown _ _ _ (superseded ended s).attendances
      rw [superseded_eq]
      exact .refl _
    · exact row_overwritten (h.supersede ended log).authorisations (mem_superseded_of_ne hrow hne)
        fun _ => rfl
  | ended hunheld hrow =>
    exact ⟨_, hunheld, .refl _, row_overwritten h.authorisations hrow fun _ => rfl⟩

/-! ### Two halves of the store -/

/-- What meetings deal with is as it was. -/
structure SameAgendas (s s' : MeetingStore) : Prop where
  meetings : s'.meetings = s.meetings
  notices : s'.notices = s.notices
  items : s'.items = s.items
  decisions : s'.decisions = s.decisions
  motions : s'.motions = s.motions

/-- The lists and the authorisations are as they were. -/
structure SameDoors (s s' : MeetingStore) : Prop where
  lines : s'.attendances = s.attendances
  rows : s'.authorisations = s.authorisations

theorem DoorAct.same (hact : DoorAct s s') : SameAgendas s s' := by
  cases hact with
  | @struck line withdrawnAt assistant log =>
    obtain ⟨f, -, heq⟩ := exists_struck ((line.id, withdrawnAt) :: assistant) s
    rw [heq]
    exact ⟨rfl, rfl, rfl, rfl, rfl⟩
  | @registered row ended =>
    rw [superseded_eq]
    exact ⟨rfl, rfl, rfl, rfl, rfl⟩
  | @renewed row input authorisedOn ended =>
    rw [superseded_eq]
    exact ⟨rfl, rfl, rfl, rfl, rfl⟩
  | _ => exact ⟨rfl, rfl, rfl, rfl, rfl⟩

theorem AgendaAct.same (hact : AgendaAct zone t s s') : SameDoors s s' := by
  cases hact <;> exact ⟨rfl, rfl⟩

theorem SameAgendas.since (h : SameAgendas s s') : AgendaSince s s' := by
  obtain ⟨hmeetings, hnotices, hitems, hdecisions, hmotions⟩ := h
  have hon : ∀ motionId id, OnAgenda s' motionId id ↔ OnAgenda s motionId id := by
    intro motionId id
    unfold OnAgenda findMotion
    rw [hmotions]
  refine ⟨fun id meeting hfound => ⟨meeting, ?_, rfl, fun _ => rfl⟩, fun id _ => ?_,
    fun id _ => ?_, fun id _ motionId => (hon motionId id).mp,
    fun id _ _ motionId => (hon motionId id).mpr, fun id hdecided => ?_⟩
  · unfold findMeeting
    rw [hmeetings]
    exact hfound
  · unfold noticeOf
    rw [hnotices]
  · unfold itemsOf
    rw [hitems]
  · unfold Decided
    rw [hdecisions]
    exact hdecided

theorem SameAgendas.sound (h : SameAgendas s s') (hsound : AgendaSound s) : AgendaSound s' := by
  have hmeetings := h.since.meetings
  have hitems : ∀ id, s'.itemsOf id = s.itemsOf id := fun id => by
    unfold itemsOf
    rw [h.items]
  refine ⟨?_, ?_, ?_, ?_, ?_, fun id => ?_, fun item hitem => ?_, fun notice hnotice => ?_,
    fun decision hdecision => ?_, fun motion hmotion id hid => ?_, fun motion hmotion => ?_⟩
  · exact h.meetings ▸ hsound.meetings
  · exact h.notices ▸ hsound.notices
  · exact h.items ▸ hsound.items
  · exact h.decisions ▸ hsound.decisions
  · exact h.motions ▸ hsound.motions
  · rw [hitems]
    exact hsound.numbered id
  · exact hmeetings.isSome (hsound.placed item (h.items ▸ hitem))
  · rw [hitems]
    exact (hsound.summoned notice (h.notices ▸ hnotice)).imp_left hmeetings.isSome
  · obtain ⟨item, hitem, hid, hheld⟩ := hsound.decided decision (h.decisions ▸ hdecision)
    exact ⟨item, h.items ▸ hitem, hid, hmeetings.concluded hheld⟩
  · exact hmeetings.isSome (hsound.linked motion (h.motions ▸ hmotion) id hid)
  · exact hsound.closed motion (h.motions ▸ hmotion)

theorem SameDoors.sound (h : SameDoors s s') (hsound : DoorSound s) : DoorSound s' := by
  have hpresent : ∀ meetingId personId, Present s meetingId personId →
      Present s' meetingId personId := by
    unfold Present
    rw [h.lines]
    exact fun _ _ hpresent => hpresent
  refine ⟨?_, ?_, ?_, ?_, ?_, fun line hline meetingId personId hentry => ?_, ?_, ?_⟩
  · exact h.lines ▸ hsound.lines
  · exact h.lines ▸ hsound.lineKeys
  · exact h.rows ▸ hsound.authorisations
  · exact h.rows ▸ hsound.authorisationKeys
  · exact h.lines ▸ hsound.assistant
  · exact hpresent _ _ (hsound.brought line (h.lines ▸ hline) meetingId personId hentry)
  · rw [h.lines]
    exact hsound.oneAssistant
  · rw [h.rows]
    exact hsound.oneHolder

/-! ### Every act -/

/-- Nothing, or one act. -/
def Acted (zone : Zone) (t : Int) (s s' : MeetingStore) : Prop :=
  s' = s ∨ AgendaAct zone t s s' ∨ DoorAct s s'

structure MeetingsSound (s : MeetingStore) : Prop where
  agenda : AgendaSound s
  door : DoorSound s

structure MeetingsSince (s s' : MeetingStore) : Prop where
  agenda : AgendaSince s s'
  door : DoorSince s s'

theorem MeetingsSince.refl (s : MeetingStore) : MeetingsSince s s := ⟨.refl s, .of_same rfl rfl⟩

theorem MeetingsSince.trans (h : MeetingsSince s s') (h' : MeetingsSince s' s'') :
    MeetingsSince s s'' :=
  ⟨h.agenda.trans h'.agenda, h.door.trans h.agenda.meetings h'.door⟩

theorem MeetingsSound.acted (h : MeetingsSound s) (hacted : Acted zone t s s') :
    MeetingsSound s' := by
  rcases hacted with rfl | hact | hact
  · exact h
  · exact ⟨h.agenda.acted hact, hact.same.sound h.door⟩
  · exact ⟨hact.same.sound h.agenda, h.door.acted hact⟩

theorem Acted.since (h : MeetingsSound s) (hacted : Acted zone t s s') : MeetingsSince s s' := by
  rcases hacted with rfl | hact | hact
  · exact .refl _
  · exact ⟨hact.since h.agenda, .of_same hact.same.lines hact.same.rows⟩
  · obtain ⟨meetingId, hgrown⟩ := hact.grown h.door
    exact ⟨hact.same.since, hgrown.since⟩

/-! ### What a lock keeps -/

inductive AgendaFact where
  | meeting (id : String)
  | agenda (id : String)
  | item (id : String)
  | motion (id : String)

inductive DoorFact where
  | line (id : String)
  | lineKey (key : String × String × AttendanceCapacity)
  | entry (meetingId personId : String)
  /-- A line of a person's own is struck off; `first` is the one they had first. -/
  | leaving (meetingId personId first leaves : String)
  | authority (id : String)
  | authorityKey (key : String × String × String)
  | proxies (meetingId : String)

inductive MeetingFact where
  | agenda (fact : AgendaFact)
  | door (fact : DoorFact)
  | since

inductive Guards : MeetingFact → MeetingLock → Mode → Prop
  | meeting {id : String} : Guards (.agenda (.meeting id)) (.meeting id) .shared
  | agenda {id : String} : Guards (.agenda (.agenda id)) (.agenda id) .exclusive
  | item {id : String} : Guards (.agenda (.item id)) (.item id) .exclusive
  | motion {id : String} : Guards (.agenda (.motion id)) (.motion id) .exclusive
  | line {id : String} : Guards (.door (.line id)) (.attendance id) .shared
  | lineKey {meetingId personId : String} {capacity : AttendanceCapacity} :
      Guards (.door (.lineKey (meetingId, personId, capacity)))
        (.attendanceKey meetingId personId capacity) .exclusive
  | entry {meetingId personId : String} :
      Guards (.door (.entry meetingId personId)) (.standingAssistant meetingId personId) .exclusive
  | leavingFirst {meetingId personId first leaves : String} :
      Guards (.door (.leaving meetingId personId first leaves)) (.attendance first) .exclusive
  | leaving {meetingId personId first leaves : String} :
      Guards (.door (.leaving meetingId personId first leaves)) (.attendance leaves) .exclusive
  | authority {id : String} : Guards (.door (.authority id)) (.authorisation id) .exclusive
  | authorityKey {meetingId member holder : String} :
      Guards (.door (.authorityKey (meetingId, member, holder)))
        (.authorisationKey meetingId member holder) .exclusive
  | proxies {id : String} : Guards (.door (.proxies id)) (.proxies id) .exclusive

/-- What is to be dealt with at a meeting is as it was. -/
structure SameAgenda (meetingId : String) (s s' : MeetingStore) : Prop where
  meeting : ∀ meeting, s.findMeeting meetingId = some meeting →
    s'.findMeeting meetingId = some meeting
  notice : s'.noticeOf meetingId = s.noticeOf meetingId
  items : s'.itemsOf meetingId = s.itemsOf meetingId

def AgendaFact.Keeps : AgendaFact → MeetingStore → MeetingStore → Prop
  | .meeting id, s, s' => s'.findMeeting id = s.findMeeting id
  | .agenda id, s, s' => SameAgenda id s s'
  | .item id, s, s' => id ∈ s'.items.map (·.id) → id ∈ s.items.map (·.id)
  | .motion id, s, s' => s'.findMotion id = s.findMotion id

/-- The assistants of somebody are among those they had. -/
def EntryKept (meetingId personId : String) (s s' : MeetingStore) : Prop :=
  ∀ line' ∈ s'.attendances, line'.standingEntry = some (meetingId, personId) →
    ∃ line ∈ s.attendances, line.id = line'.id ∧
      line.standingEntry = some (meetingId, personId)

/-- While somebody is struck off, no line of their own is taken from them, and nobody comes as their
assistant unless they have another that stands. -/
structure Leaving (meetingId personId leaves : String) (s s' : MeetingStore) : Prop where
  stands : ∀ line ∈ s.attendances, OwnLine meetingId personId line →
    ∃ line' ∈ s'.attendances, line'.id = line.id ∧ OwnLine meetingId personId line'
  entry : (∀ line ∈ s'.attendances, OwnLine meetingId personId line → line.id = leaves) →
    EntryKept meetingId personId s s'

/-- The authorities that stand at a meeting are among those that stood. -/
def AuthoritiesKept (meetingId : String) (s s' : MeetingStore) : Prop :=
  ∀ row' ∈ s'.authorisations, row'.meetingId = meetingId → row'.withdrawnAt = none →
    ∃ row ∈ s.authorisations, row.id = row'.id ∧ row.key = row'.key ∧ row.withdrawnAt = none

def DoorFact.Keeps : DoorFact → MeetingStore → MeetingStore → Prop
  | .line id, s, s' => rowAt (·.id) s'.attendances id = rowAt (·.id) s.attendances id
  | .lineKey key, s, s' => rowAt MeetingAttendance.key s.attendances key = none →
      rowAt MeetingAttendance.key s'.attendances key = none
  | .entry meetingId personId, s, s' => EntryKept meetingId personId s s'
  | .leaving meetingId personId first leaves, s, s' =>
      firstLine s meetingId personId = some first →
        firstLine s' meetingId personId = some first ∧ Leaving meetingId personId leaves s s'
  | .authority id, s, s' => rowAt (·.id) s'.authorisations id = rowAt (·.id) s.authorisations id
  | .authorityKey key, s, s' => rowAt ProxyAuthorisation.key s.authorisations key = none →
      rowAt ProxyAuthorisation.key s'.authorisations key = none
  | .proxies id, s, s' => AuthoritiesKept id s s'

theorem EntryKept.trans (h : EntryKept meetingId personId s s')
    (h' : EntryKept meetingId personId s' s'') : EntryKept meetingId personId s s'' := by
  intro line'' hline'' hentry''
  obtain ⟨line', hline', hid', hentry'⟩ := h' line'' hline'' hentry''
  obtain ⟨line, hline, hid, hentry⟩ := h line' hline' hentry'
  exact ⟨line, hline, hid.trans hid', hentry⟩

theorem Leaving.trans {leaves : String} (h : Leaving meetingId personId leaves s s')
    (h' : Leaving meetingId personId leaves s' s'') :
    Leaving meetingId personId leaves s s'' where
  stands line hline hown := by
    obtain ⟨line', hline', hid, hown'⟩ := h.stands line hline hown
    obtain ⟨line'', hline'', hid', hown''⟩ := h'.stands line' hline' hown'
    exact ⟨line'', hline'', hid'.trans hid, hown''⟩
  entry hlast := by
    -- a line that stood in between stands now
    have hlast' : ∀ line ∈ s'.attendances, OwnLine meetingId personId line →
        line.id = leaves := by
      intro line hline hown
      obtain ⟨line', hline', hid, hown'⟩ := h'.stands line hline hown
      rw [← hid]
      exact hlast line' hline' hown'
    exact (h.entry hlast').trans (h'.entry hlast)

theorem AgendaFact.Keeps.refl (fact : AgendaFact) (s : MeetingStore) : fact.Keeps s s := by
  cases fact with
  | agenda id => exact ⟨fun _ h => h, rfl, rfl⟩
  | item id => exact fun hmem => hmem
  | _ => rfl

theorem AgendaFact.Keeps.trans {fact : AgendaFact} (h : fact.Keeps s s') (h' : fact.Keeps s' s'') :
    fact.Keeps s s'' := by
  cases fact with
  | agenda id =>
    exact ⟨fun meeting hfound => h'.meeting meeting (h.meeting meeting hfound),
      h'.notice.trans h.notice, h'.items.trans h.items⟩
  | item id => exact fun hmem => h (h' hmem)
  | meeting id => exact Eq.trans h' h
  | motion id => exact Eq.trans h' h

/-- A fact of the lists is one of their rows alone. -/
theorem DoorFact.Keeps.of_same (fact : DoorFact) (h : SameDoors s s') : fact.Keeps s s' := by
  have hentry : ∀ meetingId personId, EntryKept meetingId personId s s' :=
    fun _ _ line hline hentry => ⟨line, h.lines ▸ hline, rfl, hentry⟩
  cases fact with
  | line id => exact congrArg (rowAt MeetingAttendance.id · id) h.lines
  | lineKey key => exact fun hnone => (congrArg (rowAt MeetingAttendance.key · key) h.lines).trans hnone
  | entry meetingId personId => exact hentry _ _
  | leaving meetingId personId first leaves =>
    refine fun hfirst => ⟨?_, fun line hline hown => ⟨line, h.lines ▸ hline, rfl, hown⟩,
      fun _ => hentry _ _⟩
    unfold firstLine
    rw [h.lines]
    exact hfirst
  | authority id => exact congrArg (rowAt ProxyAuthorisation.id · id) h.rows
  | authorityKey key => exact fun hnone => (congrArg (rowAt ProxyAuthorisation.key · key) h.rows).trans hnone
  | proxies id => exact fun row hrow _ hstands => ⟨row, h.rows ▸ hrow, rfl, rfl, hstands⟩

theorem DoorFact.Keeps.trans {fact : DoorFact} (h : fact.Keeps s s') (h' : fact.Keeps s' s'') :
    fact.Keeps s s'' := by
  cases fact with
  | line id => exact Eq.trans h' h
  | lineKey key => exact fun hnone => h' (h hnone)
  | entry meetingId personId => exact EntryKept.trans h h'
  | leaving meetingId personId first leaves =>
    intro hfirst
    obtain ⟨hfirst', hleaving⟩ := h hfirst
    obtain ⟨hfirst'', hleaving'⟩ := h' hfirst'
    exact ⟨hfirst'', hleaving.trans hleaving'⟩
  | authority id => exact Eq.trans h' h
  | authorityKey key => exact fun hnone => h' (h hnone)
  | proxies id =>
    intro row'' hrow'' hat hstands''
    obtain ⟨row', hrow', hid', hkey', hstands'⟩ := h' row'' hrow'' hat hstands''
    have hat' : row'.meetingId = id := (Prod.mk.inj hkey').1.trans hat
    obtain ⟨row, hrow, hid, hkey, hstands⟩ := h row' hrow' hat' hstands'
    exact ⟨row, hrow, hid.trans hid', hkey.trans hkey', hstands⟩

theorem AgendaFact.Keeps.of_same (fact : AgendaFact) (h : SameAgendas s s') : fact.Keeps s s' := by
  cases fact with
  | meeting id => exact congrArg (rowAt Meeting.id · id) h.meetings
  | agenda id =>
    refine ⟨fun meeting hfound => (congrArg (rowAt Meeting.id · id) h.meetings).trans hfound,
      congrArg (rowAt MeetingNotice.meetingId · id) h.notices, congrArg (List.filter _) h.items⟩
  | item id => exact fun hmem => h.items ▸ hmem
  | motion id => exact congrArg (rowAt Motion.id · id) h.motions

/-- What commits keep of the meetings. -/
def meetingDiscipline (zone : Zone) : Discipline MeetingStore MeetingLock MeetingFact where
  inv _ s := MeetingsSound s
  guards := Guards
  keeps
    | .agenda fact, s, s' => fact.Keeps s s'
    | .door fact, s, s' => fact.Keeps s s'
    | .since, s, s' => MeetingsSince s s'
  allowed _ t s s' := Acted zone t s s'
  inv_mono _ h := h
  keeps_refl
    | .agenda fact, s => .refl fact s
    | .door fact, s => .of_same fact ⟨rfl, rfl⟩
    | .since, s => .refl s
  keeps_trans := by
    rintro (fact | fact | _) s₁ s₂ s₃ h h'
    · exact AgendaFact.Keeps.trans h h'
    · exact DoorFact.Keeps.trans h h'
    · exact MeetingsSince.trans h h'

end OpenBrf.Meetings
