import OpenBrf.Meetings.MeetingDiscipline

/-!
# Meetings.AgendaInterleaving — the agenda, the notice and the motions beside each other

Whoever decides on what a meeting deals with holds its agenda, and whoever writes a motion its row,
so what is committed is an act on them as they stand.
-/

namespace OpenBrf.Meetings

open Txn Lang Shared Registers Motions MeetingStore

variable {zone : Zone}

section Commits

variable {held : List (MeetingLock × Mode)} {reads : List (Sight MeetingStore MeetingLock)}
  {t : Int} {s s' : MeetingStore} {k : MeetingFact} {l : MeetingLock} {m : Mode} {id : String}

/-- A fact whose lock is held is nobody else's. -/
theorem guarded_exclusive (hk : (meetingDiscipline zone).Unguarded held k)
    (hguards : Guards k l .exclusive) (hheld : (l, m) ∈ held) : False := by
  cases (hk l .exclusive hguards m hheld).1

theorem guarded_shared (hk : (meetingDiscipline zone).Unguarded held k)
    (hguards : Guards k l .shared) (hheld : (l, .exclusive) ∈ held) : False := by
  cases (hk l .shared hguards .exclusive hheld).2

theorem commits_nothing (hinv : MeetingsSound s) :
    (meetingDiscipline zone).Commits held reads t s s :=
  ⟨hinv, .inl rfl, fun k _ => (meetingDiscipline zone).keeps_refl k s⟩

theorem commits_agenda (hinv : MeetingsSound s) (hact : AgendaAct zone t s s')
    (hkeeps : ∀ fact : AgendaFact, (meetingDiscipline zone).Unguarded held (.agenda fact) →
      fact.Keeps s s') : (meetingDiscipline zone).Commits held reads t s s' := by
  refine ⟨hinv.acted (.inr (.inl hact)), .inr (.inl hact), ?_⟩
  rintro (fact | fact | _) hk
  · exact hkeeps fact hk
  · exact .of_same fact hact.same
  · exact Acted.since hinv (.inr (.inl hact))

/-! ### What may be relied on -/

theorem meeting_of_rely (h : (meetingDiscipline zone).Rely held s s')
    (hheld : (.meeting id, m) ∈ held) : s'.findMeeting id = s.findMeeting id := by
  refine h (.agenda (.meeting id)) fun l m' hl => ?_
  cases hl
  exact ⟨m, hheld, nofun⟩

theorem agenda_of_rely (h : (meetingDiscipline zone).Rely held s s')
    (hheld : (.agenda id, .exclusive) ∈ held) : SameAgenda id s s' := by
  refine h (.agenda (.agenda id)) fun l m' hl => ?_
  cases hl
  exact ⟨.exclusive, hheld, fun _ => rfl⟩

theorem item_of_rely (h : (meetingDiscipline zone).Rely held s s')
    (hheld : (.item id, .exclusive) ∈ held) :
    id ∈ s'.items.map (·.id) → id ∈ s.items.map (·.id) := by
  refine h (.agenda (.item id)) fun l m' hl => ?_
  cases hl
  exact ⟨.exclusive, hheld, fun _ => rfl⟩

theorem motion_of_rely (h : (meetingDiscipline zone).Rely held s s')
    (hheld : (.motion id, .exclusive) ∈ held) : s'.findMotion id = s.findMotion id := by
  refine h (.agenda (.motion id)) fun l m' hl => ?_
  cases hl
  exact ⟨.exclusive, hheld, fun _ => rfl⟩

theorem since_of_rely (h : (meetingDiscipline zone).Rely held s s') : MeetingsSince s s' :=
  h .since fun l m' hl => by cases hl

/-! ### What each act leaves to others -/

theorem commits_arranged (meeting : Meeting) (entry : MeetingEntry) (hinv : MeetingsSound s)
    (hnew : s.findMeeting meeting.id = none) (hopen : meeting.concludedAt = none)
    (hheld : (.meeting meeting.id, .exclusive) ∈ held)
    (hs' : s' = { s with meetings := meeting :: s.meetings }.record entry) :
    (meetingDiscipline zone).Commits held reads t s s' := by
  subst hs'
  refine commits_agenda hinv (.arranged hnew hopen) fun fact hk => ?_
  cases fact with
  | meeting id =>
    refine rowAt_cons_of_ne ?_
    rintro rfl
    exact guarded_shared hk .meeting hheld
  | agenda id =>
    refine ⟨fun other hfound => (rowAt_cons_of_ne ?_).trans hfound, rfl, rfl⟩
    rintro rfl
    rw [hnew] at hfound
    cases hfound
  | item id => exact fun hmem => hmem
  | motion id => rfl

theorem commits_concluded {meeting : Meeting} {now concludedAt : Int} (entry : MeetingEntry)
    (hinv : MeetingsSound s) (hfound : s.findMeeting meeting.id = some meeting)
    (hopen : meeting.concludedAt = none) (hnow : now ≤ concludedAt) (hat : concludedAt ≤ t)
    (hday : compareLocalDays meeting.heldOn (dateOf zone now) ≤ 0)
    (hagenda : (.agenda meeting.id, .exclusive) ∈ held)
    (hmeeting : (.meeting meeting.id, .exclusive) ∈ held)
    (hs' : s' = (s.writeMeeting meeting.id
      ({ · with concludedAt := some concludedAt })).record entry) :
    (meetingDiscipline zone).Commits held reads t s s' := by
  subst hs'
  refine commits_agenda hinv (.concluded hfound hopen hnow hat hday) fun fact hk => ?_
  have hother : ∀ id, id ≠ meeting.id → ((s.writeMeeting meeting.id
      ({ · with concludedAt := some concludedAt })).record entry).findMeeting id =
        s.findMeeting id :=
    fun id hid => rowAt_overwrite_of_ne hid fun _ _ => rfl
  cases fact with
  | meeting id =>
    refine hother id ?_
    rintro rfl
    exact guarded_shared hk .meeting hmeeting
  | agenda id =>
    refine ⟨fun other hfound => (hother id ?_).trans hfound, rfl, rfl⟩
    rintro rfl
    exact guarded_exclusive hk .agenda hagenda
  | item id => exact fun hmem => hmem
  | motion id => rfl

theorem commits_rewrote {meetingId : String} {items : List AgendaItem} (entry : MeetingEntry)
    (hinv : MeetingsSound s) (hopen : Open s meetingId)
    (hitems : ∀ item ∈ items, item.meetingId = meetingId) (hkeyed : Keyed (·.id) items)
    (hnumbered : items.map (·.position) = List.range' 1 items.length)
    (hnew : ∀ item ∈ items, ∀ other ∈ (deleteItems meetingId s).items, other.id ≠ item.id)
    (hagenda : (.agenda meetingId, .exclusive) ∈ held)
    (hheld : ∀ item ∈ items, (.item item.id, .exclusive) ∈ held)
    (hs' : s' = (createItems items (deleteItems meetingId s)).record entry) :
    (meetingDiscipline zone).Commits held reads t s s' := by
  subst hs'
  refine commits_agenda hinv (.rewrote hopen hitems hkeyed hnumbered hnew) fun fact hk => ?_
  cases fact with
  | meeting id => rfl
  | agenda id =>
    refine ⟨fun _ h => h, rfl, itemsOf_rewrote_of_ne hitems ?_⟩
    rintro rfl
    exact guarded_exclusive hk .agenda hagenda
  | item id =>
    intro hmem
    obtain ⟨item, hitem, rfl⟩ := List.mem_map.mp hmem
    rcases List.mem_append.mp hitem with hitem | hitem
    · exact List.mem_map.mpr ⟨item, (List.mem_filter.mp hitem).1, rfl⟩
    · exact (guarded_exclusive hk .item (hheld item hitem)).elim
  | motion id => rfl

theorem commits_summoned (notice : MeetingNotice) (deliveries : List MeetingNoticeDelivery)
    (entry : MeetingEntry) (hinv : MeetingsSound s) (hopen : Open s notice.meetingId)
    (hitems : s.itemsOf notice.meetingId ≠ [])
    (hagenda : (.agenda notice.meetingId, .exclusive) ∈ held)
    (hs' : s' = { s with
      notices := notice :: s.notices
      deliveries := deliveries ++ s.deliveries }.record entry) :
    (meetingDiscipline zone).Commits held reads t s s' := by
  subst hs'
  refine commits_agenda hinv (.summoned hopen hitems) fun fact hk => ?_
  cases fact with
  | meeting id => rfl
  | agenda id =>
    refine ⟨fun _ h => h, rowAt_cons_of_ne ?_, rfl⟩
    rintro rfl
    exact guarded_exclusive hk .agenda hagenda
  | item id => exact fun hmem => hmem
  | motion id => rfl

theorem commits_minuted {item : AgendaItem} (decision : MeetingDecision) (entry : MeetingEntry)
    (hinv : MeetingsSound s) (hitem : item ∈ s.items) (hid : item.id = decision.agendaItemId)
    (hheld : Concluded s item.meetingId)
    (hs' : s' = (upsertDecision decision s).record entry) :
    (meetingDiscipline zone).Commits held reads t s s' := by
  subst hs'
  refine commits_agenda hinv (.minuted hitem hid hheld) fun fact hk => ?_
  cases fact with
  | agenda id => exact ⟨fun _ h => h, rfl, rfl⟩
  | item id => exact fun hmem => hmem
  | _ => rfl

/-- Motions alone are written, each by whoever holds its row. -/
theorem commits_motions {motions : List Motion} {log : List MeetingEntry} (hinv : MeetingsSound s)
    (hact : AgendaAct zone t s { s with motions, log })
    (hothers : ∀ id, (.motion id, .exclusive) ∉ held →
      rowAt (·.id) motions id = rowAt (·.id) s.motions id) (hs' : s' = { s with motions, log }) :
    (meetingDiscipline zone).Commits held reads t s s' := by
  subst hs'
  refine commits_agenda hinv hact fun fact hk => ?_
  cases fact with
  | meeting id => rfl
  | agenda id => exact ⟨fun _ h => h, rfl, rfl⟩
  | item id => exact fun hmem => hmem
  | motion id => exact hothers id fun hheld => guarded_exclusive hk .motion hheld

end Commits

section Calls

variable {prompt : MeetingLock → Prop} {c : Ctx MeetingStore MeetingLock}
  {meetingId motionId actorPersonId : String}

/-! ### A meeting -/

theorem safe_createRow {key : String → MeetingLock} {ids : MeetingStore → List String} {id : String}
    {f : MeetingStore → MeetingStore} {Q : Unit → Ctx MeetingStore MeetingLock → Prop}
    (h : ∀ c' t s, c.Later c' → (key id, .exclusive) ∈ c'.held → MeetingsSound s → c.knows t s →
      id ∉ ids (c.pending s) →
      (∀ t' s', c'.knows t' s' →
        (meetingDiscipline zone).Rely ((key id, .exclusive) :: c.held) s s') → Q () (c'.write f)) :
    Safe (meetingDiscipline zone) prompt (createRow key ids id f) Q c := by
  unfold createRow
  rw [safe_bind, safe_acquire]
  intro t₀ s₀ _ _ _
  rw [safe_bind, safe_snapshot]
  intro t₁ s₁ hinv hknows
  rw [safe_bind, safe_refuseIf]
  intro hnew
  rw [safe_update]
  refine h _ t₁ s₁ ?_ List.mem_cons_self hinv hknows.1 hnew fun _ _ hk => hk.2.2
  exact (((Ctx.Later.refl c).acquire (key id) .exclusive).observe t₀ s₀).see t₁ s₁

/-- A meeting that is required is there, as it was read. -/
theorem safe_requireMeeting {Q : Meeting × Option MeetingNotice → Ctx MeetingStore MeetingLock → Prop}
    (hp : c.pending = id)
    (h : ∀ meeting c' t s, c.Later c' → (.meeting meetingId, .shared) ∈ c'.held →
      MeetingsSound s → c.knows t s → s.findMeeting meetingId = some meeting →
      (∀ t' s', c'.knows t' s' → (meetingDiscipline zone).Rely c'.held s s') →
      Q (meeting, s.noticeOf meetingId) c') :
    Safe (meetingDiscipline zone) prompt (requireMeeting meetingId) Q c := by
  unfold requireMeeting
  rw [safe_bind, safe_acquire]
  intro t₀ s₀ _ _ _
  rw [safe_bind, safe_snapshot]
  intro t₁ s₁ hinv hknows
  have hview : (Ctx.observe (meetingDiscipline zone) (c.acquire (.meeting meetingId) .shared) t₀
    s₀).pending s₁ = s₁ := congrFun hp s₁
  rw [hview]
  split
  · exact safe_fail
  · rename_i meeting hfound
    rw [safe_pure]
    have hlater := (((Ctx.Later.refl c).acquire (.meeting meetingId) .shared).observe
      (D := meetingDiscipline zone) t₀ s₀).see (D := meetingDiscipline zone) t₁ s₁
    exact h meeting _ t₁ s₁ hlater List.mem_cons_self hinv hknows.1 hfound fun _ _ hk => hk.2.2

theorem safe_refuseIfHeld {meeting : Meeting} {Q : Unit → Ctx MeetingStore MeetingLock → Prop} :
    Safe (meetingDiscipline zone) prompt (refuseIfHeld meeting) Q c ↔
      (meeting.concludedAt = none → Q () c) := by
  unfold refuseIfHeld
  rw [safe_refuseIf, not_not]

theorem safe_refuseIfSummoned {notice : Option MeetingNotice}
    {Q : Unit → Ctx MeetingStore MeetingLock → Prop} :
    Safe (meetingDiscipline zone) prompt (refuseIfSummoned notice) Q c ↔
      (notice = none → Q () c) := by
  unfold refuseIfSummoned
  rw [safe_refuseIf, not_not]

theorem reading_readMeetingDay (text : String) : Reading (readMeetingDay text) := by
  unfold readMeetingDay
  split
  · exact .fail _
  · exact .pure _

theorem safe_arrange {kind : MeetingKind} {heldOn : String} :
    SafeCall (meetingDiscipline zone) prompt (arrange kind heldOn actorPersonId) := by
  unfold SafeCall arrange
  rw [safe_bind]
  refine safe_reading (reading_readMeetingDay heldOn) fun day c hsince hp => ?_
  rw [safe_transaction, safe_bind, safe_fresh]
  intro drawn
  rw [safe_bind]
  refine safe_createRow fun c' t₀ s₀ hlater hheld hinv₀ hknows₀ hnew hrely => ?_
  rw [safe_update]
  refine ⟨fun t s hinv hk => ?_, trivial⟩
  have hnone : s.findMeeting (drawn.ids 0) = none := by
    rw [meeting_of_rely (hrely t s hk) List.mem_cons_self]
    rw [show c.pending = id from hp] at hnew
    exact rowAt_eq_none.mpr fun meeting hmeeting hid =>
      hnew (List.mem_map.mpr ⟨meeting, hmeeting, hid⟩)
  refine commits_arranged ⟨drawn.ids 0, kind, day, none⟩
    (.arranged (drawn.ids 0) kind day actorPersonId) hinv hnone rfl hheld ?_
  show MeetingStore.record { c'.pending s with meetings := _ :: (c'.pending s).meetings } _ = _
  rw [show c'.pending = id from hlater.pending.trans hp]
  rfl

theorem id_of_found {s : MeetingStore} {meeting : Meeting}
    (h : s.findMeeting meetingId = some meeting) : meeting.id = meetingId := (mem_of_rowAt h).2

theorem safe_conclude :
    SafeCall (meetingDiscipline zone) prompt (conclude zone meetingId actorPersonId) := by
  unfold SafeCall conclude
  rw [safe_transaction, safe_bind, safe_acquire]
  intro t₀ s₀ _ _ _
  rw [safe_bind]
  refine safe_requireMeeting rfl fun existing c t₁ s₁ hlater _ _ _ hfound hrely => ?_
  rw [safe_bind, safe_refuseIfHeld]
  intro hopen
  rw [safe_bind, safe_readClock]
  intro now s₂ _ _
  rw [safe_bind, safe_refuseIf]
  intro hday
  rw [safe_bind, safe_readClock]
  intro concludedAt s₃ _ hk₃
  rw [safe_bind]
  refine safe_updateRow (fun c' _ => ?_) fun c' t₄ s₄ hlater' hmeeting _ _ _ => ?_
  · rw [safe_bind, safe_refuseIf]
    exact fun hnot => absurd rfl hnot
  · rw [safe_bind, safe_refuseIf]
    intro _
    rw [safe_update]
    refine ⟨fun t s hinv hk => ?_, trivial⟩
    obtain ⟨⟨hk, -⟩, hnow, -⟩ := hlater'.knows t s hk
    have hagenda : (.agenda meetingId, .exclusive) ∈ c.held :=
      hlater.held _ List.mem_cons_self
    have hfound := (agenda_of_rely (hrely t s hk) hagenda).meeting existing hfound
    have hid := id_of_found hfound
    subst hid
    refine commits_concluded (.held existing.id existing.heldOn actorPersonId) hinv hfound hopen
      hk₃.2.1 hnow (not_lt.mp hday) (hlater'.held _ hagenda) hmeeting ?_
    show MeetingStore.record (MeetingStore.writeMeeting (c'.pending s) _ _) _ = _
    rw [show c'.pending = id from hlater'.pending.trans hlater.pending]
    rfl

/-! ### The agenda -/

theorem reading_refuseIfChanged (expected : Option (List String)) :
    Reading (refuseIfChanged meetingId expected) := by
  cases expected with
  | none => exact .pure ()
  | some expected => exact .bind .snapshot fun _ => .refuseIf

theorem unsettled_of_found {s : MeetingStore} {meeting : Meeting}
    (hfound : s.findMeeting meetingId = some meeting) (hopen : meeting.concludedAt = none)
    (hnotice : s.noticeOf meetingId = none) : Open s meetingId := by
  refine ⟨Option.isSome_iff_exists.mpr ⟨meeting, hfound⟩, ?_⟩
  rintro (⟨other, hother, hheld⟩ | hsummoned)
  · rw [hfound] at hother
    obtain rfl := Option.some.inj hother
    exact hheld hopen
  · exact hsummoned hnotice

theorem numberItems_meetingId {ids : ℕ → String} {titles : List String} :
    ∀ item ∈ numberItems ids meetingId titles, item.meetingId = meetingId := by
  intro item hitem
  obtain ⟨⟨title, index⟩, -, rfl⟩ := List.mem_map.mp hitem
  rfl

theorem numberItems_position (ids : ℕ → String) (titles : List String) :
    (numberItems ids meetingId titles).map (·.position) =
      List.range' 1 (numberItems ids meetingId titles).length := by
  unfold numberItems
  rw [List.map_map, List.length_map, List.length_zipIdx]
  refine List.ext_getElem (by simp) fun n h h' => ?_
  simp [Nat.add_comm]

theorem safe_setAgenda {input : SetAgendaInput} :
    SafeCall (meetingDiscipline zone) prompt (setAgenda meetingId input actorPersonId) := by
  unfold SafeCall setAgenda
  rw [safe_transaction, safe_bind, safe_acquire]
  intro t₀ s₀ _ _ _
  rw [safe_bind]
  refine safe_requireMeeting rfl fun meeting c₁ t₁ s₁ hlater₁ _ _ _ hfound hrely₁ => ?_
  rw [safe_bind, safe_refuseIfHeld]
  intro hopen
  rw [safe_bind, safe_refuseIfSummoned]
  intro hnotice
  rw [safe_bind]
  refine safe_reading (reading_refuseIfChanged _) fun _ c₂ hsince₂ hp₂ => ?_
  rw [safe_bind, safe_update, safe_bind, safe_fresh]
  intro drawn
  rw [safe_bind]
  refine safe_acquireAll fun c₃ hlater₃ hheld => ?_
  rw [safe_bind, safe_snapshot]
  intro t₃ s₃ hinv₃ hk₃
  rw [safe_bind, safe_refuseIf, not_not]
  rintro ⟨hkeyed, hnew⟩
  rw [safe_bind, safe_update, safe_update]
  refine ⟨fun t s hinv hk => ?_, trivial⟩
  have hagenda : (.agenda meetingId, .exclusive) ∈ c₁.held := hlater₁.held _ List.mem_cons_self
  have hknows : ∀ t s, c₃.knows t s → SameAgenda meetingId s₁ s := fun t s hk =>
    agenda_of_rely (hrely₁ t s (hsince₂.knows t s (hlater₃.knows t s hk))) hagenda
  have hpending : c₃.pending = deleteItems meetingId := by
    rw [hlater₃.pending]
    show deleteItems meetingId ∘ c₂.pending = _
    rw [hp₂, show c₁.pending = id from hlater₁.pending]
    rfl
  have hsame := hknows t s hk.1
  refine commits_rewrote (.agendaSet meetingId input.titles.length actorPersonId) hinv
    (unsettled_of_found (hsame.meeting meeting hfound) hopen (hsame.notice.trans hnotice))
    numberItems_meetingId hkeyed (numberItems_position drawn.ids input.titles)
    (fun item hitem other hother hid => ?_)
    (hlater₃.held _ (hsince₂.held _ hagenda)) hheld ?_
  · -- an item of another meeting that has the identifier had it when the locks were taken
    rw [hpending] at hnew
    obtain ⟨hother, hat⟩ := List.mem_filter.mp hother
    have hat : other.meetingId ≠ meetingId := of_decide_eq_true hat
    have hmem := item_of_rely hk.2.2 (hheld item hitem)
      (List.mem_map.mpr ⟨other, hother, hid⟩)
    obtain ⟨old, hold, hold'⟩ := List.mem_map.mp hmem
    by_cases hat' : old.meetingId = meetingId
    · have hitems : s.itemsOf meetingId = s₃.itemsOf meetingId :=
        hsame.items.trans (hknows t₃ s₃ hk₃).items.symm
      have hold : old ∈ s.itemsOf meetingId := by
        rw [hitems]
        exact List.mem_filter.mpr ⟨hold, decide_eq_true hat'⟩
      have heq := hinv.agenda.items.eq_of_key (List.mem_filter.mp hold).1 hother
        (hold'.trans hid.symm)
      rw [heq] at hat'
      exact hat hat'
    · refine hnew item hitem (List.mem_map.mpr ⟨old, ?_, hold'⟩)
      exact List.mem_filter.mpr ⟨hold, decide_eq_true hat'⟩
  · show MeetingStore.record (createItems _ (c₃.pending s)) _ = _
    rw [hpending]

theorem safe_recordDecision {agendaItemId : String} {input : RecordDecisionInput} :
    SafeCall (meetingDiscipline zone) prompt
      (recordDecision meetingId agendaItemId input actorPersonId) := by
  unfold SafeCall recordDecision
  rw [safe_transaction, safe_bind]
  refine safe_requireMeeting rfl fun meeting c₁ t₁ s₁ hlater₁ _ _ _ hfound hrely₁ => ?_
  rw [safe_bind, safe_refuseIf]
  intro hconcluded
  rw [safe_bind, safe_snapshot]
  intro t₂ s₂ _ hk₂
  rw [safe_bind, safe_refuseIf]
  intro hitem
  rw [safe_bind, safe_acquire]
  intro t₃ s₃ _ _ _
  rw [safe_bind, safe_update, safe_update]
  refine ⟨fun t s hinv hk => ?_, trivial⟩
  have hpending : c₁.pending = id := hlater₁.pending
  rw [hpending] at hitem
  push Not at hitem
  obtain ⟨item, hitem, hid, hat⟩ := hitem
  -- the items of a meeting that has been held stay
  have hheld : Concluded s₂ item.meetingId := by
    rw [hat]
    exact (since_of_rely (hrely₁ t₂ s₂ hk₂)).agenda.meetings.concluded ⟨meeting, hfound, hconcluded⟩
  have hsince := since_of_rely hk.1.2.2
  have hitem' : item ∈ s.items := by
    have hmem : item ∈ s₂.itemsOf item.meetingId :=
      List.mem_filter.mpr ⟨hitem, decide_eq_true rfl⟩
    rw [← hsince.agenda.items _ (.inl hheld)] at hmem
    exact (List.mem_filter.mp hmem).1
  refine commits_minuted (input.decision agendaItemId actorPersonId)
    (.decisionRecorded meetingId (input.decision agendaItemId actorPersonId)) hinv hitem' hid
    (hsince.agenda.meetings.concluded hheld) ?_
  show MeetingStore.record (upsertDecision _ (c₁.pending s)) _ = _
  rw [hpending]
  rfl

/-! ### The notice -/

theorem reading_readStartOfMeeting (text : String) (heldOn : LocalDay) :
    Reading (readStartOfMeeting zone text heldOn) := by
  unfold readStartOfMeeting
  extract_lets start
  clear_value start
  cases start with
  | none => exact .fail _
  | some instant => exact .pure _

theorem safe_issue {archive : List MemberRegisterEvent} {input : IssueNoticeInput} :
    SafeCall (meetingDiscipline zone) prompt
      (issue zone archive meetingId input actorPersonId) := by
  unfold SafeCall issue
  rw [safe_transaction, safe_bind, safe_acquire]
  intro t₀ s₀ _ _ _
  rw [safe_bind, safe_snapshot]
  intro t₁ s₁ _ _
  split
  · exact safe_fail
  · rename_i meeting hfound
    rw [safe_bind, safe_refuseIfHeld]
    intro hopen
    rw [safe_bind, safe_refuseIf]
    intro hnotice
    rw [safe_bind, safe_refuseIf]
    intro hitems
    rw [safe_bind]
    refine safe_reading (reading_readStartOfMeeting _ _) fun startsAt c₂ hsince₂ hp₂ => ?_
    rw [safe_bind, safe_fresh]
    intro drawn
    unfold createNotice
    rw [safe_bind, safe_bind, safe_acquire]
    intro t₃ s₃ _ _ _
    rw [safe_bind, safe_acquire]
    intro t₄ s₄ _ _ _
    rw [safe_bind, safe_snapshot]
    intro t₅ s₅ _ _
    rw [safe_bind, safe_refuseIf]
    intro _
    rw [safe_update, safe_bind, safe_update, safe_update]
    refine ⟨fun t s hinv hk => ?_, trivial⟩
    have hk₂ := hsince₂.knows t s hk.1.1.1
    have hagenda : (MeetingLock.agenda meetingId, Mode.exclusive) ∈ c₂.held :=
      hsince₂.held _ List.mem_cons_self
    have hsame : SameAgenda meetingId s₁ s := agenda_of_rely hk₂.2.2 List.mem_cons_self
    let notice : MeetingNotice := ⟨drawn.ids 0, meetingId, startsAt, input.place,
      input.digitalParticipation, drawn.createdAt, actorPersonId⟩
    let summoned := MeetingNotice.membersOn archive (localDayOf zone notice.issuedAt)
    refine commits_summoned notice (summoned.map (⟨notice.id, ·⟩))
      (.noticeIssued meetingId summoned.length meeting.heldOn actorPersonId) hinv
      (unsettled_of_found (hsame.meeting meeting hfound) hopen
        (hsame.notice.trans (not_not.mp hnotice))) (fun hnone => hitems ?_)
      (List.mem_cons_of_mem _ (List.mem_cons_of_mem _ hagenda)) ?_
    · rw [hsame.items] at hnone
      show (s₁.itemsOf meetingId).length = 0
      rw [hnone]
      rfl
    · show MeetingStore.record { c₂.pending s with
        notices := notice :: (c₂.pending s).notices
        deliveries := summoned.map (⟨notice.id, ·⟩) ++ (c₂.pending s).deliveries } _ = _
      rw [show c₂.pending s = s from congrFun hp₂ s]

/-! ### Motions -/

theorem safe_submit {title body : String} {isMember : Bool} {carriesNumber : Option MeetingFailure} :
    SafeCall (meetingDiscipline zone) prompt
      (submit title body isMember carriesNumber actorPersonId) := by
  unfold SafeCall submit
  rw [safe_bind, safe_refuseIf]
  intro _
  cases carriesNumber with
  | some refusal => exact safe_fail
  | none =>
    show Safe _ _ (transaction _) _ _
    rw [safe_transaction, safe_bind, safe_fresh]
    intro drawn
    rw [safe_bind]
    refine safe_createRow fun c' t₀ s₀ hlater hheld _ _ hnew hrely => ?_
    rw [safe_update]
    refine ⟨fun t s hinv hk => ?_, trivial⟩
    have hnone : s.findMotion (drawn.ids 0) = none := by
      rw [motion_of_rely (hrely t s hk) List.mem_cons_self]
      exact rowAt_eq_none.mpr fun motion hmotion hid =>
        hnew (List.mem_map.mpr ⟨motion, hmotion, hid⟩)
    let motion : Motion := ⟨drawn.ids 0, title, body, actorPersonId, .SUBMITTED, none, none, none⟩
    have hact : AgendaAct zone t s ({ s with motions := motion :: s.motions }.record
        (.motionSubmitted (drawn.ids 0) actorPersonId (lengthOf title) (lengthOf body))) :=
      .submitted hnone rfl rfl rfl
    refine commits_motions hinv hact (fun id hid => rowAt_cons_of_ne ?_) ?_
    · rintro rfl
      exact hid hheld
    · show MeetingStore.record { (c'.pending s) with motions := _ } _ = _
      rw [hlater.pending]
      rfl

/-- A motion that is matched and written is so as it stands. -/
theorem commits_motion_written {held : List (MeetingLock × Mode)}
    {reads : List (Sight MeetingStore MeetingLock)} {t : Int} {s s' : MeetingStore}
    {f : Motion → Motion} {entry : MeetingEntry} (hinv : MeetingsSound s)
    (hheld : (.motion motionId, .exclusive) ∈ held)
    (hact : AgendaAct zone t s ((s.writeMotion motionId f).record entry))
    (hf : ∀ row, (f row).id = row.id)
    (hs' : s' = (s.writeMotion motionId f).record entry) :
    (meetingDiscipline zone).Commits held reads t s s' := by
  refine commits_motions hinv hact (fun id hid => ?_) hs'
  refine rowAt_overwrite_of_ne ?_ fun row _ => hf row
  rintro rfl
  exact hid hheld

theorem safe_close {status : MotionStatus} {subjectPersonId : String} (hstatus : status ≠ .SUBMITTED)
    {c : Ctx MeetingStore MeetingLock} (hp : c.pending = id) :
    Safe (meetingDiscipline zone) prompt (close motionId status actorPersonId subjectPersonId)
      (fun _ _ => True) c := by
  unfold close
  rw [safe_transaction, safe_bind, safe_readClock]
  intro closedAt s₀ _ _
  rw [safe_bind]
  refine safe_updateRow (fun c' _ => ?_) fun c' t₁ s₁ hlater hheld hinv₁ hmatched hrely => ?_
  · rw [safe_bind, safe_refuseIf]
    exact fun hnot => absurd rfl hnot
  · rw [safe_bind, safe_refuseIf]
    intro _
    rw [safe_update]
    refine ⟨fun t s hinv hk => ?_, trivial⟩
    rw [show (Ctx.readAt (Ctx.observe (meetingDiscipline zone) c closedAt s₀) closedAt).pending = id
      from hp] at hmatched
    change (s₁.findMotion motionId).any (fun motion => decide (motion.status = .SUBMITTED)) = true
      at hmatched
    rw [← motion_of_rely (hrely t s hk) List.mem_cons_self] at hmatched
    cases hfound : s.findMotion motionId with
    | none =>
      rw [hfound] at hmatched
      cases hmatched
    | some motion =>
      rw [hfound] at hmatched
      have hid : motion.id = motionId := (mem_of_rowAt hfound).2
      subst hid
      have hact : AgendaAct zone t s ((s.writeMotion motion.id ({ · with
          status, closedAt := some closedAt, closedByPersonId := some actorPersonId })).record
            (.motionClosed motion.id status actorPersonId subjectPersonId)) :=
        .closed hfound (of_decide_eq_true hmatched) hstatus
      refine commits_motion_written hinv hheld hact (fun _ => rfl) ?_
      show MeetingStore.record (MeetingStore.writeMotion (c'.pending s) _ _) _ = _
      rw [show c'.pending = id from hlater.pending.trans hp]
      rfl

theorem safe_withdraw {isMember : Bool} :
    SafeCall (meetingDiscipline zone) prompt (withdraw motionId isMember actorPersonId) := by
  unfold SafeCall withdraw
  rw [safe_bind, safe_refuseIf]
  intro _
  rw [safe_bind, safe_snapshot]
  intro t₀ s₀ _ _
  split
  · exact safe_fail
  · rw [safe_bind, safe_refuseIf]
    intro _
    exact safe_close (by decide) rfl

theorem safe_acknowledge :
    SafeCall (meetingDiscipline zone) prompt (acknowledge motionId actorPersonId) := by
  unfold SafeCall acknowledge
  rw [safe_bind, safe_snapshot]
  intro t₀ s₀ _ _
  split
  · exact safe_fail
  · rw [safe_bind, safe_refuseIf]
    intro _
    exact safe_close (by decide) rfl

/-! ### Motions put to a meeting -/

theorem Open.of_sameAgenda {s s' : MeetingStore} (h : Open s meetingId)
    (hsame : SameAgenda meetingId s s') : Open s' meetingId := by
  obtain ⟨meeting, hfound⟩ := Option.isSome_iff_exists.mp h.there
  refine unsettled_of_found (hsame.meeting meeting hfound) ?_ ?_
  · by_contra hheld
    exact h.unsettled (.inl ⟨meeting, hfound, hheld⟩)
  · rw [hsame.notice]
    by_contra hsummoned
    exact h.unsettled (.inr hsummoned)

theorem safe_lockMeetingAgendasInOrder {ids : List String}
    {Q : Unit → Ctx MeetingStore MeetingLock → Prop}
    (h : ∀ c', c.Later c' → (∀ id ∈ ids, (.agenda id, .exclusive) ∈ c'.held) → Q () c') :
    Safe (meetingDiscipline zone) prompt (lockMeetingAgendasInOrder ids) Q c := by
  refine safe_acquireAll fun c' hlater hheld => h c' hlater fun id hid => hheld id ?_
  exact (List.mergeSort_perm _ _).mem_iff.mpr (mem_addAll.mpr (.inl hid))

/-- Meetings that are open, and whose agendas are held, stay so. -/
theorem safe_requireMeetingsOpen {Q : Unit → Ctx MeetingStore MeetingLock → Prop} :
    ∀ {ids : List String} {c : Ctx MeetingStore MeetingLock}, c.pending = id →
      (∀ id ∈ ids, (.agenda id, .exclusive) ∈ c.held) →
      (∀ c', c.Later c' → (∀ id ∈ ids, ∀ t s, c'.knows t s → Open s id) → Q () c') →
      Safe (meetingDiscipline zone) prompt (ids.forM requireMeetingOpen) Q c
  | [], c, _, _, h => h c (.refl c) fun _ hid => absurd hid List.not_mem_nil
  | id :: ids, c, hp, hheld, h => by
    show Safe _ _ (requireMeetingOpen id >>= fun _ => ids.forM requireMeetingOpen) Q c
    unfold requireMeetingOpen
    rw [safe_bind, safe_bind, safe_snapshot]
    intro t₁ s₁ _ _
    rw [show c.pending s₁ = s₁ from congrFun hp s₁]
    split
    · exact safe_fail
    · rename_i meeting hfound
      rw [safe_bind, safe_refuseIf]
      intro hnotice
      rw [safe_refuseIf]
      intro hopen
      have hseen := (Ctx.Later.refl c).see (D := meetingDiscipline zone) t₁ s₁
      refine safe_requireMeetingsOpen hp (fun id hid => hheld id (List.mem_cons_of_mem _ hid))
        fun c' hlater hothers => h c' (hseen.trans hlater) fun other hother t s hk => ?_
      rcases List.mem_cons.mp hother with rfl | hother
      · have hrely := (hlater.knows t s hk).2.2
        exact (unsettled_of_found hfound (not_not.mp hopen) (not_not.mp hnotice)).of_sameAgenda
          (agenda_of_rely hrely (hheld other List.mem_cons_self))
      · exact hothers other hother t s hk

theorem safe_refuseTheRaceThatWasLost {Q : Unit → Ctx MeetingStore MeetingLock → Prop} :
    Safe (meetingDiscipline zone) prompt (refuseTheRaceThatWasLost motionId) Q c := by
  unfold refuseTheRaceThatWasLost
  rw [safe_bind, safe_snapshot]
  intro t₀ s₀ _ _
  split
  · exact safe_fail
  · rw [safe_bind, safe_refuseIf]
    exact fun _ => safe_fail

theorem safe_setMeeting {into : Option String} :
    SafeCall (meetingDiscipline zone) prompt (setMeeting motionId into actorPersonId) := by
  unfold SafeCall setMeeting
  rw [safe_transaction, safe_bind, safe_snapshot]
  intro t₀ s₀ _ _
  split
  · exact safe_fail
  · rename_i existing _
    rw [safe_bind, safe_refuseIf]
    intro _
    rw [safe_bind]
    refine safe_lockMeetingAgendasInOrder fun c₁ hlater₁ hheld₁ => ?_
    have hp₁ : c₁.pending = id := hlater₁.pending
    rw [safe_bind]
    refine safe_requireMeetingsOpen hp₁ (fun id hid => hheld₁ id (List.mem_append_left _ hid))
      fun c₂ hlater₂ hfrom => ?_
    rw [safe_bind]
    refine safe_requireMeetingsOpen (hlater₂.pending.trans hp₁) (fun id hid => ?_)
      fun c₃ hlater₃ hinto => ?_
    · obtain ⟨hid, -⟩ := Option.mem_filter_iff.mp (Option.mem_toList.mp hid)
      exact hlater₂.held _ (hheld₁ id (List.mem_append_right _ (Option.mem_toList.mpr hid)))
    have hp₃ : c₃.pending = id := hlater₃.pending.trans (hlater₂.pending.trans hp₁)
    rw [safe_bind]
    refine safe_updateRow (fun c' _ => ?_) fun c' t₄ s₄ hlater hheld _ hmatched hrely => ?_
    · rw [safe_bind]
      exact safe_onlyIf (fun _ => safe_refuseTheRaceThatWasLost) fun hnot => absurd rfl hnot
    · rw [safe_bind]
      refine safe_onlyIf (fun hnot => absurd hnot (by decide)) fun _ => ?_
      rw [safe_update]
      refine ⟨fun t s hinv hk => ?_, trivial⟩
      rw [show c₃.pending s₄ = s₄ from congrFun hp₃ s₄] at hmatched
      rw [← motion_of_rely (hrely t s hk) List.mem_cons_self] at hmatched
      have hk₃ := hlater.knows t s hk
      cases hfound : s.findMotion motionId with
      | none =>
        rw [hfound] at hmatched
        cases hmatched
      | some motion =>
        rw [hfound] at hmatched
        obtain ⟨hlink, hstatus⟩ := of_decide_eq_true hmatched
        have hid : motion.id = motionId := (mem_of_rowAt hfound).2
        subst hid
        have hleft : ∀ id ∈ motion.meetingId, Open s id := fun id hid =>
          hfrom id (Option.mem_toList.mpr (hlink ▸ hid)) t s (hlater₃.knows t s hk₃)
        have hjoined : ∀ id ∈ into, Open s id := by
          intro id hid
          by_cases hsame : some id = existing.meetingId
          · exact hleft id (hlink.trans hsame.symm)
          · refine hinto id (Option.mem_toList.mpr ?_) t s hk₃
            exact Option.mem_filter_iff.mpr ⟨hid, decide_eq_true hsame⟩
        have hact : AgendaAct zone t s ((s.writeMotion motion.id ({ · with
            meetingId := into })).record (.motionMeetingSet motion.id motion.meetingId into
              actorPersonId existing.submittedByPersonId)) :=
          .moved hfound hstatus hleft hjoined
        refine commits_motion_written hinv hheld hact (fun _ => rfl) ?_
        show MeetingStore.record (MeetingStore.writeMotion (c'.pending s) _ _) _ = _
        rw [show c'.pending s = s from congrFun (hlater.pending.trans hp₃) s, ← hlink]

/-! ### The purge of motions -/

theorem mem_erasedMotions {s : MeetingStore} (h : AgendaSound s) {personId : String} {cutoff : Int}
    {id : String} (hid : id ∈ erasedMotions personId cutoff s) : ∃ motion,
      s.findMotion id = some motion ∧ offAgendasToCome s motion = true ∧
        ∃ closedAt ∈ motion.closedAt, closedAt ≤ cutoff := by
  obtain ⟨motion, hmotion, rfl⟩ := List.mem_map.mp hid
  obtain ⟨hmotion, hmatched⟩ := List.mem_filter.mp hmotion
  simp only [Bool.and_eq_true, decide_eq_true_eq] at hmatched
  obtain ⟨⟨-, hclosed⟩, hoff⟩ := hmatched
  refine ⟨motion, h.motions.rowAt_eq_some.mpr ⟨hmotion, rfl⟩, hoff, ?_⟩
  cases hat : motion.closedAt with
  | none =>
    rw [hat] at hclosed
    cases hclosed
  | some closedAt =>
    rw [hat] at hclosed
    exact ⟨closedAt, rfl, of_decide_eq_true hclosed⟩

/-- A meeting that has been held stays so, and its motions are off the agendas to come. -/
theorem offAgendasToCome_of_stand {s s' : MeetingStore} {motion : Motion}
    (h : MeetingsStand s s') (hoff : offAgendasToCome s motion = true) :
    offAgendasToCome s' motion = true := by
  unfold offAgendasToCome
  cases hlink : motion.meetingId with
  | none => rfl
  | some meetingId =>
    obtain ⟨meeting, hfound, hheld⟩ := h.concluded (concluded_of_offAgendasToCome hoff hlink)
    show (s'.findMeeting meetingId).any (·.concludedAt.isSome) = true
    rw [hfound]
    exact Option.isSome_iff_ne_none.mpr hheld

theorem cutoff_le (now : Int) (retentionDays : ℕ) (isErasureInForce : Bool) :
    (if isErasureInForce then now else motionPurgeCutoff now retentionDays) ≤ now := by
  split_ifs
  · exact le_refl now
  · have hdays : (0 : Int) ≤ retentionDays * MILLISECONDS_PER_DAY :=
      mul_nonneg (Int.natCast_nonneg _) (by decide)
    unfold motionPurgeCutoff
    omega

/-- Motions that are locked, closed and off the agendas to come are erased, and that there were any
is put on record. -/
theorem safe_erase {c' : Ctx MeetingStore MeetingLock} {erased : List String} {personId : String}
    {retentionDays : ℕ} (hp : c'.pending = id)
    (hheld : ∀ id ∈ erased, (MeetingLock.motion id, Mode.exclusive) ∈ c'.held)
    (hact : ∀ t s, c'.knows t s → AgendaAct zone t s ((deleteMotions erased s).record
      (.motionsPurged personId erased.length retentionDays))) :
    Safe (meetingDiscipline zone) prompt (onlyIf (erased.length ≠ 0)
        (update (·.record (.motionsPurged personId erased.length retentionDays))) : MeetingTx Unit)
      (fun _ c'' => (∀ t s, MeetingsSound s → c''.knows t s → (meetingDiscipline zone).Commits
        c''.held c''.reads t s (c''.pending s)) ∧ True) (c'.write (deleteMotions erased)) := by
  refine safe_onlyIf (fun _ => ?_) fun hnone => ⟨fun t s hinv hk => ?_, trivial⟩
  · rw [safe_update]
    refine ⟨fun t s hinv hk => ?_, trivial⟩
    refine commits_motions hinv (hact t s hk) (fun id hid => ?_) ?_
    · exact (findMotion_erased hinv.agenda id).trans (if_neg fun hmem => hid (hheld id hmem))
    · show MeetingStore.record (deleteMotions erased (c'.pending s)) _ = _
      rw [show c'.pending s = s from congrFun hp s]
      rfl
  · have hnil : erased = [] := List.length_eq_zero_iff.mp (not_not.mp hnone)
    have hsame : deleteMotions erased (c'.pending s) = s := by
      rw [show c'.pending s = s from congrFun hp s, hnil]
      show ({ s with motions := _ } : MeetingStore) = s
      rw [List.filter_eq_self.mpr fun motion _ => by simp]
    show (meetingDiscipline zone).Commits _ _ t s (deleteMotions erased (c'.pending s))
    rw [hsame]
    exact commits_nothing hinv

theorem safe_purgePerson {personId : String} {retentionDays : ℕ} {withheld isErasureInForce : Bool} :
    SafeCall (meetingDiscipline zone) prompt
      (purgePerson personId retentionDays withheld isErasureInForce) := by
  unfold SafeCall purgePerson
  rw [safe_bind, safe_readClock]
  intro now s₀ _ _
  rw [safe_transaction, safe_bind, safe_acquire]
  intro t₁ s₁ _ _ _
  rw [safe_bind, safe_acquire]
  intro t₂ s₂ _ _ _
  cases withheld with
  | true => exact ⟨fun t s hinv _ => commits_nothing hinv, trivial⟩
  | false =>
    have hcutoff := cutoff_le now retentionDays isErasureInForce
    show Safe _ _ (updateRows MeetingLock.motion (erasedMotions personId
      (if isErasureInForce then now else motionPurgeCutoff now retentionDays)) deleteMotions >>=
        fun erased => onlyIf (erased.length ≠ 0)
          (update (·.record (.motionsPurged personId erased.length retentionDays)))) _ _
    generalize (if isErasureInForce then now else motionPurgeCutoff now retentionDays) = cutoff
      at hcutoff ⊢
    rw [safe_bind]
    refine safe_updateRows fun c' t₃ s₃ t₄ s₄ hlater hheld _ _ hinv₄ _ _ hrely => ?_
    refine safe_erase hlater.pending (fun id hid => hheld id (List.mem_filter.mp hid).1)
      fun t s hk => ?_
    have hnow : now ≤ t := (hlater.knows t s hk).1.1.2.1
    refine .erased hnow fun id hid motion hfound => ?_
    obtain ⟨hid, hstill⟩ := List.mem_filter.mp hid
    -- the row is as the second look had it
    obtain ⟨motion', hfound', hoff, closedAt, hclosed, hle⟩ :=
      mem_erasedMotions hinv₄.agenda (of_decide_eq_true hstill)
    rw [motion_of_rely (hrely t s hk) (hheld id hid)] at hfound
    obtain rfl := Option.some.inj (hfound'.symm.trans hfound)
    exact ⟨offAgendasToCome_of_stand (since_of_rely (hrely t s hk)).agenda.meetings hoff,
      closedAt, hclosed, hle.trans hcutoff⟩

end Calls

end OpenBrf.Meetings
