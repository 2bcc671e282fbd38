import OpenBrf.Meetings.AgendaWrite

/-!
# Meetings.AgendaActs — what is settled of a meeting, and for how long

A meeting that has been summoned or held is settled.  `AgendaSound` is what the rows say of each
other, `AgendaAct` is one commit on them, and `AgendaSince` is what stands of a settled meeting.
-/

namespace OpenBrf.Meetings

open Txn Lang Shared Registers Motions MeetingStore

variable {zone : Zone} {t : Int} {s s' s'' : MeetingStore} {meetingId motionId : String}

/-! ### Settled meetings -/

/-- The meeting has been held. -/
def Concluded (s : MeetingStore) (meetingId : String) : Prop :=
  ∃ meeting, s.findMeeting meetingId = some meeting ∧ meeting.concludedAt ≠ none

def Settled (s : MeetingStore) (meetingId : String) : Prop :=
  Concluded s meetingId ∨ s.noticeOf meetingId ≠ none

/-- There is such a meeting, and it is not settled. -/
structure Open (s : MeetingStore) (meetingId : String) : Prop where
  there : (s.findMeeting meetingId).isSome
  unsettled : ¬ Settled s meetingId

/-- The motion is to be taken up at the meeting. -/
def OnAgenda (s : MeetingStore) (motionId meetingId : String) : Prop :=
  ∃ motion, s.findMotion motionId = some motion ∧ motion.meetingId = some meetingId

def Decided (s : MeetingStore) (agendaItemId : String) : Prop :=
  (rowAt (·.agendaItemId) s.decisions agendaItemId).isSome

/-- What the rows say of each other. -/
structure AgendaSound (s : MeetingStore) : Prop where
  meetings : Keyed (·.id) s.meetings
  notices : Keyed (·.meetingId) s.notices
  items : Keyed (·.id) s.items
  decisions : Keyed (·.agendaItemId) s.decisions
  motions : Keyed (·.id) s.motions
  numbered : ∀ meetingId, (s.itemsOf meetingId).map (·.position) =
    List.range' 1 (s.itemsOf meetingId).length
  placed : ∀ item ∈ s.items, (s.findMeeting item.meetingId).isSome
  summoned : ∀ notice ∈ s.notices, (s.findMeeting notice.meetingId).isSome ∧
    s.itemsOf notice.meetingId ≠ []
  decided : ∀ decision ∈ s.decisions, ∃ item ∈ s.items, item.id = decision.agendaItemId ∧
    Concluded s item.meetingId
  linked : ∀ motion ∈ s.motions, ∀ meetingId ∈ motion.meetingId, (s.findMeeting meetingId).isSome
  closed : ∀ motion ∈ s.motions, motion.status ≠ .SUBMITTED ↔ motion.closedAt ≠ none

theorem agendaSound_empty : AgendaSound {} where
  meetings := keyed_nil
  notices := keyed_nil
  items := keyed_nil
  decisions := keyed_nil
  motions := keyed_nil
  numbered _ := rfl
  placed _ h := absurd h List.not_mem_nil
  summoned _ h := absurd h List.not_mem_nil
  decided _ h := absurd h List.not_mem_nil
  linked _ h := absurd h List.not_mem_nil
  closed _ h := absurd h List.not_mem_nil

/-! ### One commit -/

/-- One commit on what meetings deal with, as they stand. -/
inductive AgendaAct (zone : Zone) (t : Int) (s : MeetingStore) : MeetingStore → Prop
  | arranged {meeting : Meeting} {entry : MeetingEntry} : s.findMeeting meeting.id = none →
      meeting.concludedAt = none →
      AgendaAct zone t s ({ s with meetings := meeting :: s.meetings }.record entry)
  | concluded {meeting : Meeting} {now concludedAt : Int} {entry : MeetingEntry} :
      s.findMeeting meeting.id = some meeting → meeting.concludedAt = none →
      now ≤ concludedAt → concludedAt ≤ t →
      compareLocalDays meeting.heldOn (dateOf zone now) ≤ 0 →
      AgendaAct zone t s ((s.writeMeeting meeting.id
        ({ · with concludedAt := some concludedAt })).record entry)
  | rewrote {meetingId : String} {items : List AgendaItem} {entry : MeetingEntry} :
      Open s meetingId → (∀ item ∈ items, item.meetingId = meetingId) → Keyed (·.id) items →
      items.map (·.position) = List.range' 1 items.length →
      (∀ item ∈ items, ∀ other ∈ (deleteItems meetingId s).items, other.id ≠ item.id) →
      AgendaAct zone t s ((createItems items (deleteItems meetingId s)).record entry)
  | summoned {notice : MeetingNotice} {deliveries : List MeetingNoticeDelivery}
      {entry : MeetingEntry} : Open s notice.meetingId → s.itemsOf notice.meetingId ≠ [] →
      AgendaAct zone t s ({ s with
        notices := notice :: s.notices
        deliveries := deliveries ++ s.deliveries }.record entry)
  | minuted {item : AgendaItem} {decision : MeetingDecision} {entry : MeetingEntry} :
      item ∈ s.items → item.id = decision.agendaItemId → Concluded s item.meetingId →
      AgendaAct zone t s ((upsertDecision decision s).record entry)
  | submitted {motion : Motion} {entry : MeetingEntry} : s.findMotion motion.id = none →
      motion.status = .SUBMITTED → motion.closedAt = none → motion.meetingId = none →
      AgendaAct zone t s ({ s with motions := motion :: s.motions }.record entry)
  | closed {motion : Motion} {status : MotionStatus} {closedAt : Int}
      {actorPersonId targetPersonId : String} : s.findMotion motion.id = some motion →
      motion.status = .SUBMITTED → status ≠ .SUBMITTED →
      AgendaAct zone t s ((s.writeMotion motion.id ({ · with
        status, closedAt := some closedAt, closedByPersonId := some actorPersonId })).record
          (.motionClosed motion.id status actorPersonId targetPersonId))
  | moved {motion : Motion} {meetingId : Option String} {actorPersonId targetPersonId : String} :
      s.findMotion motion.id = some motion → motion.status ≠ .WITHDRAWN →
      (∀ id ∈ motion.meetingId, Open s id) → (∀ id ∈ meetingId, Open s id) →
      AgendaAct zone t s ((s.writeMotion motion.id ({ · with meetingId })).record
        (.motionMeetingSet motion.id motion.meetingId meetingId actorPersonId targetPersonId))
  | erased {ids : List String} {now : Int} {personId : String} {count retentionDays : ℕ} :
      now ≤ t → (∀ id ∈ ids, ∀ motion, s.findMotion id = some motion →
        offAgendasToCome s motion = true ∧ ∃ closedAt ∈ motion.closedAt, closedAt ≤ now) →
      AgendaAct zone t s ((deleteMotions ids s).record (.motionsPurged personId count
        retentionDays))

/-! ### What stands from one commit to another -/

/-- A meeting stays what it is, and one that has been held stays as it was. -/
def MeetingsStand (s s' : MeetingStore) : Prop :=
  ∀ id meeting, s.findMeeting id = some meeting → ∃ meeting', s'.findMeeting id = some meeting' ∧
    meeting'.heldOn = meeting.heldOn ∧ (meeting.concludedAt ≠ none → meeting' = meeting)

theorem MeetingsStand.refl (s : MeetingStore) : MeetingsStand s s :=
  fun _ meeting h => ⟨meeting, h, rfl, fun _ => rfl⟩

theorem MeetingsStand.trans (h : MeetingsStand s s') (h' : MeetingsStand s' s'') :
    MeetingsStand s s'' := by
  intro id meeting hfound
  obtain ⟨meeting', hfound', hday, hsame⟩ := h id meeting hfound
  obtain ⟨meeting'', hfound'', hday', hsame'⟩ := h' id meeting' hfound'
  refine ⟨meeting'', hfound'', hday'.trans hday, fun hheld => ?_⟩
  obtain rfl := hsame hheld
  exact hsame' hheld

theorem MeetingsStand.isSome (h : MeetingsStand s s') (hthere : (s.findMeeting meetingId).isSome) :
    (s'.findMeeting meetingId).isSome := by
  obtain ⟨meeting, hfound⟩ := Option.isSome_iff_exists.mp hthere
  obtain ⟨meeting', hfound', -⟩ := h meetingId meeting hfound
  exact Option.isSome_iff_exists.mpr ⟨meeting', hfound'⟩

theorem MeetingsStand.concluded (h : MeetingsStand s s') (hheld : Concluded s meetingId) :
    Concluded s' meetingId := by
  obtain ⟨meeting, hfound, hheld⟩ := hheld
  obtain ⟨meeting', hfound', -, hsame⟩ := h meetingId meeting hfound
  obtain rfl := hsame hheld
  exact ⟨meeting', hfound', hheld⟩

/-- What stands: once a meeting is settled its notice, or that it has none, and its agenda; the
motions on it, until it has been held and one of them is erased; and that something has been
decided. -/
structure AgendaSince (s s' : MeetingStore) : Prop where
  meetings : MeetingsStand s s'
  notices : ∀ meetingId, Settled s meetingId → s'.noticeOf meetingId = s.noticeOf meetingId
  items : ∀ meetingId, Settled s meetingId → s'.itemsOf meetingId = s.itemsOf meetingId
  joined : ∀ meetingId, Settled s meetingId → ∀ motionId, OnAgenda s' motionId meetingId →
    OnAgenda s motionId meetingId
  kept : ∀ meetingId, Settled s meetingId → ¬ Concluded s' meetingId → ∀ motionId,
    OnAgenda s motionId meetingId → OnAgenda s' motionId meetingId
  decided : ∀ agendaItemId, Decided s agendaItemId → Decided s' agendaItemId

theorem AgendaSince.settled (h : AgendaSince s s') (hsettled : Settled s meetingId) :
    Settled s' meetingId := by
  rcases hsettled with hheld | hnotice
  · exact .inl (h.meetings.concluded hheld)
  · refine .inr ?_
    rw [h.notices meetingId (.inr hnotice)]
    exact hnotice

theorem AgendaSince.refl (s : MeetingStore) : AgendaSince s s where
  meetings := .refl s
  notices _ _ := rfl
  items _ _ := rfl
  joined _ _ _ h := h
  kept _ _ _ _ h := h
  decided _ h := h

theorem AgendaSince.trans (h : AgendaSince s s') (h' : AgendaSince s' s'') :
    AgendaSince s s'' where
  meetings := h.meetings.trans h'.meetings
  notices id hsettled := (h'.notices id (h.settled hsettled)).trans (h.notices id hsettled)
  items id hsettled := (h'.items id (h.settled hsettled)).trans (h.items id hsettled)
  joined id hsettled motionId hon :=
    h.joined id hsettled motionId (h'.joined id (h.settled hsettled) motionId hon)
  kept id hsettled hnot motionId hon :=
    h'.kept id (h.settled hsettled) hnot motionId
      (h.kept id hsettled (fun hheld => hnot (h'.meetings.concluded hheld)) motionId hon)
  decided id hdecided := h'.decided id (h.decided id hdecided)

/-! ### The tables an act leaves alone -/

/-- The meetings changed, and nothing else did. -/
theorem AgendaSound.of_meetings (h : AgendaSound s) {meetings : List Meeting}
    {log : List MeetingEntry} (hkeyed : Keyed (·.id) meetings)
    (hstand : MeetingsStand s { s with meetings, log }) :
    AgendaSound { s with meetings, log } where
  meetings := hkeyed
  notices := h.notices
  items := h.items
  decisions := h.decisions
  motions := h.motions
  numbered := h.numbered
  placed item hitem := hstand.isSome (h.placed item hitem)
  summoned notice hnotice := (h.summoned notice hnotice).imp_left hstand.isSome
  decided decision hdecision := by
    obtain ⟨item, hitem, hid, hheld⟩ := h.decided decision hdecision
    exact ⟨item, hitem, hid, hstand.concluded hheld⟩
  linked motion hmotion id hid := hstand.isSome (h.linked motion hmotion id hid)
  closed := h.closed

theorem AgendaSince.of_meetings {meetings : List Meeting} {log : List MeetingEntry}
    (hstand : MeetingsStand s { s with meetings, log }) :
    AgendaSince s { s with meetings, log } where
  meetings := hstand
  notices _ _ := rfl
  items _ _ := rfl
  joined _ _ _ h := h
  kept _ _ _ _ h := h
  decided _ h := h

/-- The motions changed, and nothing else did. -/
theorem AgendaSound.of_motions (h : AgendaSound s) {motions : List Motion}
    {log : List MeetingEntry} (hkeyed : Keyed (·.id) motions)
    (hrows : ∀ motion ∈ motions, (∀ id ∈ motion.meetingId, (s.findMeeting id).isSome) ∧
      (motion.status ≠ .SUBMITTED ↔ motion.closedAt ≠ none)) :
    AgendaSound { s with motions, log } :=
  { h with
    motions := hkeyed
    linked := fun motion hmotion => (hrows motion hmotion).1
    closed := fun motion hmotion => (hrows motion hmotion).2 }

theorem AgendaSince.of_motions {motions : List Motion} {log : List MeetingEntry}
    (hjoined : ∀ id, Settled s id → ∀ motionId, OnAgenda { s with motions, log } motionId id →
      OnAgenda s motionId id)
    (hkept : ∀ id, Settled s id → ¬ Concluded s id → ∀ motionId, OnAgenda s motionId id →
      OnAgenda { s with motions, log } motionId id) : AgendaSince s { s with motions, log } where
  meetings := .refl s
  notices _ _ := rfl
  items _ _ := rfl
  joined := hjoined
  kept := hkept
  decided _ h := h

/-! ### Meetings arranged and held -/

theorem meetingsStand_arranged {meeting : Meeting} (hnew : s.findMeeting meeting.id = none)
    {log : List MeetingEntry} :
    MeetingsStand s { s with meetings := meeting :: s.meetings, log } := by
  intro id other hfound
  refine ⟨other, (rowAt_cons_of_ne ?_).trans hfound, rfl, fun _ => rfl⟩
  rintro rfl
  rw [hnew] at hfound
  cases hfound

theorem meetingsStand_concluded {meeting : Meeting} {concludedAt : Option Int}
    (hfound : s.findMeeting meeting.id = some meeting) (hopen : meeting.concludedAt = none)
    {log : List MeetingEntry} : MeetingsStand s { s with
      meetings := overwrite (·.id) meeting.id ({ · with concludedAt }) s.meetings
      log } := by
  intro id other hother
  have hwritten : rowAt (·.id) (overwrite (·.id) meeting.id ({ · with concludedAt }) s.meetings) id =
      if id = meeting.id then (s.findMeeting id).map ({ · with concludedAt })
      else s.findMeeting id := rowAt_overwrite fun _ _ => rfl
  by_cases hid : id = meeting.id
  · rw [hid, hfound] at hother
    obtain rfl := Option.some.inj hother
    rw [if_pos hid, hid] at hwritten
    refine ⟨{ meeting with concludedAt }, ?_, rfl, fun hheld => absurd hopen hheld⟩
    rw [hid]
    exact hwritten.trans (congrArg (Option.map _) hfound)
  · rw [if_neg hid] at hwritten
    exact ⟨other, hwritten.trans hother, rfl, fun _ => rfl⟩

/-! ### The agenda written anew -/

section Rewriting

variable {items : List AgendaItem} {log : List MeetingEntry}

theorem itemsOf_rewrote_self (hitems : ∀ item ∈ items, item.meetingId = meetingId) :
    ({ createItems items (deleteItems meetingId s) with log }).itemsOf meetingId = items := by
  show (s.items.filter _ ++ items).filter _ = items
  rw [List.filter_append, List.filter_filter]
  have hnone : s.items.filter (fun item => decide (item.meetingId = meetingId) &&
      decide (item.meetingId ≠ meetingId)) = [] := by simp
  rw [hnone, List.nil_append]
  exact List.filter_eq_self.mpr fun item hitem => decide_eq_true (hitems item hitem)

theorem itemsOf_rewrote_of_ne (hitems : ∀ item ∈ items, item.meetingId = meetingId) {id : String}
    (hid : id ≠ meetingId) :
    ({ createItems items (deleteItems meetingId s) with log }).itemsOf id = s.itemsOf id := by
  show (s.items.filter _ ++ items).filter _ = s.items.filter _
  rw [List.filter_append, List.filter_filter]
  have hnone : items.filter (fun item => decide (item.meetingId = id)) = [] := by
    refine List.filter_eq_nil_iff.mpr fun item hitem => ?_
    rw [decide_eq_true_eq, hitems item hitem]
    exact hid.symm
  rw [hnone, List.append_nil]
  refine List.filter_congr fun item _ => ?_
  by_cases hitem : item.meetingId = id
  · simp [hitem, hid]
  · simp [hitem]

/-- A decision is on an item of a meeting that has been held, so none goes with the items of one
that has not. -/
theorem AgendaSound.undecided (h : AgendaSound s) (hopen : Open s meetingId)
    {decision : MeetingDecision} (hdecision : decision ∈ s.decisions) :
    decision.agendaItemId ∉ (s.itemsOf meetingId).map (·.id) := by
  intro hmem
  obtain ⟨item, hitem, hid, hheld⟩ := h.decided decision hdecision
  obtain ⟨other, hother, hid'⟩ := List.mem_map.mp hmem
  obtain ⟨hother, hat⟩ := List.mem_filter.mp hother
  rw [h.items.eq_of_key hitem hother (hid.trans hid'.symm), of_decide_eq_true hat] at hheld
  exact hopen.unsettled (.inl hheld)

theorem decisions_rewrote (h : AgendaSound s) (hopen : Open s meetingId) :
    (deleteItems meetingId s).decisions = s.decisions := by
  refine List.filter_eq_self.mpr fun decision hdecision => ?_
  exact decide_eq_true (h.undecided hopen hdecision)

theorem Open.notice_ne (hopen : Open s meetingId) {notice : MeetingNotice}
    (hnotice : notice ∈ s.notices) : notice.meetingId ≠ meetingId := by
  rintro rfl
  refine hopen.unsettled (.inr fun hnone => ?_)
  exact rowAt_eq_none.mp hnone notice hnotice rfl

theorem AgendaSound.rewrote (h : AgendaSound s) (hopen : Open s meetingId)
    (hitems : ∀ item ∈ items, item.meetingId = meetingId) (hkeyed : Keyed (·.id) items)
    (hnumbered : items.map (·.position) = List.range' 1 items.length)
    (hnew : ∀ item ∈ items, ∀ other ∈ (deleteItems meetingId s).items, other.id ≠ item.id) :
    AgendaSound { createItems items (deleteItems meetingId s) with log } where
  meetings := h.meetings
  notices := h.notices
  items := (h.items.filter _).append hkeyed hnew
  decisions := h.decisions.filter _
  motions := h.motions
  numbered id := by
    by_cases hid : id = meetingId
    · rw [hid, itemsOf_rewrote_self hitems]
      exact hnumbered
    · rw [itemsOf_rewrote_of_ne hitems hid]
      exact h.numbered id
  placed item hitem := by
    rcases List.mem_append.mp hitem with hitem | hitem
    · exact h.placed item (List.mem_filter.mp hitem).1
    · rw [hitems item hitem]
      exact hopen.there
  summoned notice hnotice := by
    rw [itemsOf_rewrote_of_ne hitems (hopen.notice_ne hnotice)]
    exact h.summoned notice hnotice
  decided decision hdecision := by
    obtain ⟨item, hitem, hid, hheld⟩ := h.decided decision (List.mem_filter.mp hdecision).1
    refine ⟨item, List.mem_append_left _ (List.mem_filter.mpr ⟨hitem, decide_eq_true ?_⟩), hid,
      hheld⟩
    intro hat
    rw [hat] at hheld
    exact hopen.unsettled (.inl hheld)
  linked := h.linked
  closed := h.closed

theorem AgendaSince.rewrote (h : AgendaSound s) (hopen : Open s meetingId)
    (hitems : ∀ item ∈ items, item.meetingId = meetingId) :
    AgendaSince s { createItems items (deleteItems meetingId s) with log } where
  meetings := .refl s
  notices _ _ := rfl
  items id hsettled := by
    refine itemsOf_rewrote_of_ne hitems ?_
    rintro rfl
    exact hopen.unsettled hsettled
  joined _ _ _ h := h
  kept _ _ _ _ h := h
  decided id hdecided := by
    show (rowAt _ (deleteItems meetingId s).decisions id).isSome
    rw [decisions_rewrote h hopen]
    exact hdecided

end Rewriting

/-! ### The notice, and what was decided -/

theorem AgendaSound.summon (h : AgendaSound s) {notice : MeetingNotice}
    (hopen : Open s notice.meetingId) (hitems : s.itemsOf notice.meetingId ≠ [])
    {deliveries : List MeetingNoticeDelivery} {log : List MeetingEntry} :
    AgendaSound { s with notices := notice :: s.notices, deliveries, log } :=
  { h with
    notices := h.notices.cons fun _ hother => hopen.notice_ne hother
    summoned := fun other hother => by
      rcases List.mem_cons.mp hother with rfl | hother
      · exact ⟨hopen.there, hitems⟩
      · exact h.summoned other hother }

theorem AgendaSince.summon {notice : MeetingNotice} (hopen : Open s notice.meetingId)
    {deliveries : List MeetingNoticeDelivery} {log : List MeetingEntry} :
    AgendaSince s { s with notices := notice :: s.notices, deliveries, log } where
  meetings := .refl s
  notices id hsettled := by
    refine rowAt_cons_of_ne ?_
    rintro rfl
    exact hopen.unsettled hsettled
  items _ _ := rfl
  joined _ _ _ h := h
  kept _ _ _ _ h := h
  decided _ h := h

theorem upsertDecision_eq (decision : MeetingDecision) : upsertDecision decision s = { s with
    decisions := if (rowAt (·.agendaItemId) s.decisions decision.agendaItemId).isSome
      then overwrite (·.agendaItemId) decision.agendaItemId (fun _ => decision) s.decisions
      else decision :: s.decisions } := rfl

theorem mem_upsertDecision {decision other : MeetingDecision}
    (h : other ∈ (upsertDecision decision s).decisions) : other = decision ∨ other ∈ s.decisions := by
  rw [upsertDecision_eq] at h
  split_ifs at h
  · obtain ⟨row, hrow, ⟨-, rfl⟩ | ⟨-, rfl⟩⟩ := mem_overwrite.mp h
    · exact .inl rfl
    · exact .inr hrow
  · exact List.mem_cons.mp h

theorem AgendaSound.minuted (h : AgendaSound s) {item : AgendaItem} {decision : MeetingDecision}
    (hitem : item ∈ s.items) (hid : item.id = decision.agendaItemId)
    (hheld : Concluded s item.meetingId) {log : List MeetingEntry} :
    AgendaSound { upsertDecision decision s with log } :=
  { h with
    decisions := by
      rw [upsertDecision_eq]
      split_ifs with hthere
      · exact h.decisions.overwrite fun _ hkey => hkey.symm
      · have hnone := rowAt_eq_none.mp (Option.not_isSome_iff_eq_none.mp hthere)
        exact h.decisions.cons hnone
    decided := fun other hother => by
      rcases mem_upsertDecision hother with rfl | hother
      · exact ⟨item, hitem, hid, hheld⟩
      · exact h.decided other hother }

theorem AgendaSince.minuted {decision : MeetingDecision} {log : List MeetingEntry} :
    AgendaSince s { upsertDecision decision s with log } where
  meetings := .refl s
  notices _ _ := rfl
  items _ _ := rfl
  joined _ _ _ h := h
  kept _ _ _ _ h := h
  decided id hdecided := by
    show (rowAt _ (upsertDecision decision s).decisions id).isSome
    rw [upsertDecision_eq]
    split_ifs with hthere
    · rw [rowAt_overwrite fun _ hkey => hkey.symm]
      split_ifs
      · rw [Option.isSome_map]
        exact hdecided
      · exact hdecided
    · by_cases hid : id = decision.agendaItemId
      · rw [hid, rowAt_cons_self]
        rfl
      · rw [rowAt_cons_of_ne hid]
        exact hdecided

/-! ### Motions -/

section Motions

variable {motion : Motion} {f : Motion → Motion} {log : List MeetingEntry}

theorem findMotion_written (hf : ∀ row, (f row).id = row.id) (id : String) :
    ({ s.writeMotion motion.id f with log }).findMotion id =
      if id = motion.id then (s.findMotion id).map f else s.findMotion id :=
  rowAt_overwrite fun row _ => hf row

theorem AgendaSound.motion_written (h : AgendaSound s)
    (hfound : s.findMotion motion.id = some motion) (hf : ∀ row, (f row).id = row.id)
    (hlinked : ∀ id ∈ (f motion).meetingId, (s.findMeeting id).isSome)
    (hclosed : (f motion).status ≠ .SUBMITTED ↔ (f motion).closedAt ≠ none) :
    AgendaSound { s.writeMotion motion.id f with log } := by
  refine h.of_motions (h.motions.overwrite fun row _ => hf row) fun row hrow => ?_
  obtain ⟨row', hrow', ⟨hid, rfl⟩ | ⟨-, rfl⟩⟩ := mem_overwrite.mp hrow
  · rw [h.motions.eq_of_key hrow' (mem_of_rowAt hfound).1 hid]
    exact ⟨hlinked, hclosed⟩
  · exact ⟨h.linked row hrow', h.closed row hrow'⟩

/-- The motion that was written is on no settled agenda, before or after. -/
theorem AgendaSince.motion_moved (hfound : s.findMotion motion.id = some motion)
    (hf : ∀ row, (f row).id = row.id) (hfrom : ∀ id ∈ motion.meetingId, Open s id)
    (hinto : ∀ id ∈ (f motion).meetingId, Open s id) :
    AgendaSince s { s.writeMotion motion.id f with log } := by
  refine .of_motions (fun id hsettled motionId hon => ?_) fun id hsettled _ motionId hon => ?_
  · obtain ⟨row, hrow, hat⟩ := hon
    change ({ s.writeMotion motion.id f with log }).findMotion motionId = some row at hrow
    rw [findMotion_written hf] at hrow
    split_ifs at hrow with hid
    · rw [hid, hfound] at hrow
      obtain rfl := Option.some.inj hrow
      exact absurd hsettled (hinto id hat).unsettled
    · exact ⟨row, hrow, hat⟩
  · obtain ⟨row, hrow, hat⟩ := hon
    refine ⟨row, ?_, hat⟩
    show ({ s.writeMotion motion.id f with log }).findMotion motionId = some row
    rw [findMotion_written hf, if_neg, hrow]
    rintro rfl
    rw [hfound] at hrow
    obtain rfl := Option.some.inj hrow
    exact (hfrom id hat).unsettled hsettled

/-- The motion that was written is on the agenda it was on. -/
theorem AgendaSince.motion_written (hf : ∀ row, (f row).id = row.id)
    (hsame : ∀ row, (f row).meetingId = row.meetingId) :
    AgendaSince s { s.writeMotion motion.id f with log } := by
  have hon : ∀ motionId id, OnAgenda { s.writeMotion motion.id f with log } motionId id ↔
      OnAgenda s motionId id := by
    intro motionId id
    unfold OnAgenda
    rw [findMotion_written hf]
    split_ifs
    · simp only [Option.map_eq_some_iff]
      constructor
      · rintro ⟨_, ⟨row, hrow, rfl⟩, hat⟩
        exact ⟨row, hrow, (hsame row).symm.trans hat⟩
      · rintro ⟨row, hrow, hat⟩
        exact ⟨_, ⟨row, hrow, rfl⟩, (hsame row).trans hat⟩
    · rfl
  exact .of_motions (fun id _ motionId => (hon motionId id).mp)
    fun id _ _ motionId => (hon motionId id).mpr

theorem AgendaSound.submitted (h : AgendaSound s) (hnew : s.findMotion motion.id = none)
    (hstatus : motion.status = .SUBMITTED) (hclosed : motion.closedAt = none)
    (hlink : motion.meetingId = none) :
    AgendaSound { s with motions := motion :: s.motions, log } := by
  refine h.of_motions (h.motions.cons (rowAt_eq_none.mp hnew)) fun row hrow => ?_
  rcases List.mem_cons.mp hrow with rfl | hrow
  · refine ⟨fun id hid => ?_, fun hnot => absurd hstatus hnot, fun hnot => absurd hclosed hnot⟩
    rw [hlink] at hid
    cases hid
  · exact ⟨h.linked row hrow, h.closed row hrow⟩

theorem AgendaSince.submitted (hnew : s.findMotion motion.id = none)
    (hlink : motion.meetingId = none) :
    AgendaSince s { s with motions := motion :: s.motions, log } := by
  refine .of_motions (fun id _ motionId hon => ?_) fun id _ _ motionId hon => ?_
  · obtain ⟨row, hrow, hat⟩ := hon
    by_cases hid : motionId = motion.id
    · have hself : rowAt Motion.id (motion :: s.motions) motionId = some motion := by
        rw [hid]
        exact rowAt_cons_self
      obtain rfl := Option.some.inj (hself.symm.trans hrow)
      rw [hlink] at hat
      cases hat
    · exact ⟨row, (rowAt_cons_of_ne hid).symm.trans hrow, hat⟩
  · obtain ⟨row, hrow, hat⟩ := hon
    refine ⟨row, (rowAt_cons_of_ne ?_).trans hrow, hat⟩
    rintro rfl
    rw [hnew] at hrow
    cases hrow

end Motions

section Erasing

variable {ids : List String} {log : List MeetingEntry}

theorem AgendaSound.erased (h : AgendaSound s) :
    AgendaSound { deleteMotions ids s with log } := by
  refine h.of_motions (h.motions.filter _) fun row hrow => ?_
  have hrow := (List.mem_filter.mp hrow).1
  exact ⟨h.linked row hrow, h.closed row hrow⟩

theorem findMotion_erased (h : AgendaSound s) (id : String) :
    ({ deleteMotions ids s with log }).findMotion id =
      if id ∈ ids then none else s.findMotion id := by
  refine (h.motions.rowAt_filter _).trans ?_
  show (s.findMotion id).filter _ = _
  cases hfound : s.findMotion id with
  | none => simp
  | some row =>
    have hid : row.id = id := (mem_of_rowAt hfound).2
    by_cases hmem : id ∈ ids
    · simp [hid, hmem]
    · simp [hid, hmem]

/-- A motion off agendas to come is on none, or on one of a meeting that has been held. -/
theorem concluded_of_offAgendasToCome {motion : Motion} (h : offAgendasToCome s motion = true)
    (hlink : motion.meetingId = some meetingId) : Concluded s meetingId := by
  unfold offAgendasToCome at h
  rw [hlink] at h
  change (s.findMeeting meetingId).any (·.concludedAt.isSome) = true at h
  cases hfound : s.findMeeting meetingId with
  | none =>
    rw [hfound] at h
    cases h
  | some meeting =>
    rw [hfound] at h
    exact ⟨meeting, hfound, Option.isSome_iff_ne_none.mp h⟩

theorem AgendaSince.erased (h : AgendaSound s)
    (hoff : ∀ id ∈ ids, ∀ motion, s.findMotion id = some motion →
      offAgendasToCome s motion = true) :
    AgendaSince s { deleteMotions ids s with log } := by
  refine .of_motions (fun id _ motionId hon => ?_) fun id _ hnot motionId hon => ?_
  · obtain ⟨row, hrow, hat⟩ := hon
    change ({ deleteMotions ids s with log }).findMotion motionId = some row at hrow
    rw [findMotion_erased h] at hrow
    split_ifs at hrow
    exact ⟨row, hrow, hat⟩
  · obtain ⟨row, hrow, hat⟩ := hon
    refine ⟨row, ?_, hat⟩
    show ({ deleteMotions ids s with log }).findMotion motionId = some row
    rw [findMotion_erased h, if_neg, hrow]
    intro hid
    exact hnot (concluded_of_offAgendasToCome (hoff motionId hid row hrow) hat)

end Erasing

/-! ### Every act -/

theorem AgendaSound.acted (h : AgendaSound s) (hact : AgendaAct zone t s s') : AgendaSound s' := by
  cases hact with
  | arranged hnew _ =>
    exact h.of_meetings (h.meetings.cons (rowAt_eq_none.mp hnew)) (meetingsStand_arranged hnew)
  | concluded hfound hopen _ _ _ =>
    exact h.of_meetings (h.meetings.overwrite fun _ _ => rfl)
      (meetingsStand_concluded hfound hopen)
  | rewrote hopen hitems hkeyed hnumbered hnew => exact h.rewrote hopen hitems hkeyed hnumbered hnew
  | summoned hopen hitems => exact h.summon hopen hitems
  | minuted hitem hid hheld => exact h.minuted hitem hid hheld
  | submitted hnew hstatus hclosed hlink => exact h.submitted hnew hstatus hclosed hlink
  | @closed motion _ _ _ _ hfound _ hstatus =>
    refine h.motion_written hfound (fun _ => rfl) (h.linked motion (mem_of_rowAt hfound).1) ?_
    exact ⟨fun _ => Option.some_ne_none _, fun _ => hstatus⟩
  | @moved motion _ _ _ hfound _ _ hinto =>
    exact h.motion_written hfound (fun _ => rfl) (fun id hid => (hinto id hid).there)
      (h.closed motion (mem_of_rowAt hfound).1)
  | erased => exact h.erased

theorem AgendaAct.since (h : AgendaSound s) (hact : AgendaAct zone t s s') : AgendaSince s s' := by
  cases hact with
  | arranged hnew _ => exact .of_meetings (meetingsStand_arranged hnew)
  | concluded hfound hopen _ _ _ => exact .of_meetings (meetingsStand_concluded hfound hopen)
  | rewrote hopen hitems _ _ _ => exact .rewrote h hopen hitems
  | summoned hopen _ => exact .summon hopen
  | minuted => exact .minuted
  | submitted hnew _ _ hlink => exact .submitted hnew hlink
  | closed => exact .motion_written (fun _ => rfl) fun _ => rfl
  | moved hfound _ hfrom hinto => exact .motion_moved hfound (fun _ => rfl) hfrom hinto
  | erased _ hoff => exact .erased h fun id hid motion hfound => (hoff id hid motion hfound).1

end OpenBrf.Meetings
