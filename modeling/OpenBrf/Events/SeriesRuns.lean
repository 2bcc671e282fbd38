import OpenBrf.Events.Interleaving
import OpenBrf.Events.SeriesEffects

/-!
# Events.SeriesRuns — the dates of a series over a history of calls

`Scheduled` is what every call keeps: the rows of a series are on different days, and those that
have not begun are the ones its schedule names.
-/

namespace OpenBrf.Events

open Txn Shared

/-- The dates there are, and the schedules they were written for. -/
def timetable (s : EventStore) : List (String × String × Period) × List (String × SeriesSchedule) :=
  (s.occurrences.map fun occurrence => (occurrence.id, occurrence.eventId, occurrence.period),
    s.events.map fun event => (event.id, event.toSeriesSchedule))

/-- What stands of the dates between two calls. -/
structure Scheduled (zone : Zone) (t : Int) (s : EventStore) : Prop where
  ids : (s.occurrences.map (·.id)).Nodup
  eventIds : (s.events.map (·.id)).Nodup
  owned : ∀ occurrence ∈ s.occurrences, occurrence.eventId ∈ s.events.map (·.id)
  days : ∀ eventId, ((rowsOf s.occurrences eventId).map (·.day zone)).Nodup
  follows : ∀ event ∈ s.events, Follows zone (occurrencePeriods zone event.toSeriesSchedule) t
    ((rowsOf s.occurrences event.id).map (·.period))

variable {zone : Zone} {t t' : Int} {s s' : EventStore}

namespace Scheduled

theorem empty (zone : Zone) (t : Int) : Scheduled zone t {} where
  ids := .nil
  eventIds := .nil
  owned _ h := absurd h List.not_mem_nil
  days _ := .nil
  follows _ h := absurd h List.not_mem_nil

theorem mono (h : Scheduled zone t s) (hle : t ≤ t') : Scheduled zone t' s :=
  { h with follows := fun event hevent => (h.follows event hevent).mono hle }

theorem rowsOf_period (s : EventStore) (eventId : String) :
    (rowsOf s.occurrences eventId).map (·.period) =
      ((timetable s).1.filter fun date => date.2.1 = eventId).map (·.2.2) := by
  unfold rowsOf timetable
  rw [List.map_map, List.filter_map, List.map_map]
  rfl

theorem map_day (rows : List StoredOccurrence) : rows.map (·.day zone) =
    (rows.map (·.period)).map fun period => localDayOf zone period.startsAt := by
  rw [List.map_map]
  rfl

/-- A call that changes no date and no schedule. -/
theorem of_timetable (h : Scheduled zone t s) (hsame : timetable s' = timetable s) :
    Scheduled zone t s' := by
  have hdates := congrArg Prod.fst hsame
  have hseries := congrArg Prod.snd hsame
  have hids : s'.occurrences.map (·.id) = s.occurrences.map (·.id) := by
    have hmap := congrArg (List.map (·.1)) hdates
    unfold timetable at hmap
    rw [List.map_map, List.map_map] at hmap
    exact hmap
  have heventIds : s'.events.map (·.id) = s.events.map (·.id) := by
    have hmap := congrArg (List.map (·.1)) hseries
    unfold timetable at hmap
    rw [List.map_map, List.map_map] at hmap
    exact hmap
  have hperiods : ∀ eventId, (rowsOf s'.occurrences eventId).map (·.period) =
      (rowsOf s.occurrences eventId).map (·.period) := fun eventId => by
    rw [rowsOf_period, rowsOf_period, hsame]
  refine ⟨hids ▸ h.ids, heventIds ▸ h.eventIds, fun occurrence hocc => ?_, fun eventId => ?_,
    fun event hevent => ?_⟩
  · have hmem : (occurrence.id, occurrence.eventId, occurrence.period) ∈ (timetable s).1 :=
      hdates ▸ List.mem_map_of_mem hocc
    obtain ⟨other, hother, heq⟩ := List.mem_map.mp hmem
    obtain ⟨-, hrest⟩ := Prod.mk.inj heq
    obtain ⟨hevent, -⟩ := Prod.mk.inj hrest
    rw [heventIds, ← hevent]
    exact h.owned other hother
  · rw [map_day, hperiods, ← map_day]
    exact h.days eventId
  · have hmem : (event.id, event.toSeriesSchedule) ∈ (timetable s).2 :=
      hseries ▸ List.mem_map_of_mem hevent
    obtain ⟨other, hother, heq⟩ := List.mem_map.mp hmem
    obtain ⟨hid, hschedule⟩ := Prod.mk.inj heq
    rw [hperiods, ← hid, ← hschedule]
    exact h.follows other hother

end Scheduled

/-! ### Calls that change no date -/

/-- A write that leaves the dates and the schedules. -/
def OffTimetable (f : EventStore → EventStore) : Prop := ∀ s, timetable (f s) = timetable s

theorem offTimetable_setEvent (id : String) {f : Event → Event}
    (hf : ∀ e, (f e).toSeriesSchedule = e.toSeriesSchedule) : OffTimetable (setEvent id f) := by
  intro s
  unfold timetable setEvent
  dsimp only
  rw [List.map_map]
  congr 1
  refine List.map_congr_left fun e _ => ?_
  rw [Function.comp_apply]
  split_ifs with h
  · rw [h, hf]
  · rfl

theorem offTimetable_setOccurrence (id : String) {f : StoredOccurrence → StoredOccurrence}
    (hf : ∀ row, (f row).period = row.period) : OffTimetable (setOccurrence id f) := by
  intro s
  unfold timetable setOccurrence
  dsimp only
  rw [List.map_map]
  congr 1
  refine List.map_congr_left fun occurrence _ => ?_
  rw [Function.comp_apply]
  split_ifs with h
  · have hperiod := hf occurrence.toStoredOccurrence
    rw [← h]
    exact congrArg (fun period => (occurrence.id, occurrence.eventId, period)) hperiod
  · rfl

/-- A write of the sign-ups. -/
theorem offTimetable_signups (f : EventStore → List EventSignup) :
    OffTimetable fun s => { s with signups := f s } := fun _ => rfl

/-- A call of one transaction, with no write that is about the dates, keeps them. -/
theorem keeps_timetable {α : Type} {body : Int → EventTx α}
    (hbody : ∀ now, Within OffTimetable (body now)) (T) :
    Keeps (timetable · = T) (readClock >>= fun now => transaction (body now)) :=
  .readClock fun now => .transaction (.of_within (fun _ hf s hs => (hf s).trans hs) (hbody now))

theorem offTimetable_onlyIf {c : Prop} [Decidable c] {p : EventTx Unit}
    (hp : Within OffTimetable p) : Within OffTimetable (onlyIf c p) := by
  unfold onlyIf
  split_ifs
  · exact hp
  · exact .pure _

section Calls

variable {scan : String → List ℕ}

theorem offTimetable_requireEvent (id : String) : Within OffTimetable (requireEvent id) := by
  refine .bind .snapshot fun s => ?_
  split
  · exact .fail _
  · exact .pure _

theorem offTimetable_requireOccurrence (occurrenceId : String) :
    Within OffTimetable (requireOccurrence occurrenceId) := by
  refine .bind .snapshot fun s => ?_
  split
  · exact .fail _
  · exact .pure _

theorem offTimetable_lockEventOfOccurrence (occurrenceId : String) :
    Within OffTimetable (lockEventOfOccurrence occurrenceId) := by
  refine .bind .snapshot fun s => ?_
  split
  · exact .pure _
  · exact .acquire _ _

theorem offTimetable_requireAttendable (occurrenceId : String) :
    Within OffTimetable (requireAttendable occurrenceId) := by
  refine .bind .snapshot fun s => ?_
  split
  · exact .fail _
  · split
    · exact .fail _
    · exact .bind .refuseIf fun _ => .pure _

theorem keeps_publish (id : String) (input : PublishEventInput) (T) :
    Keeps (timetable · = T) (publish scan id input) := by
  refine keeps_timetable (fun now => ?_) T
  refine .bind (.acquire _ _) fun _ => .bind (offTimetable_requireEvent id) fun found => ?_
  obtain ⟨existing, _⟩ := found
  refine .bind (offTimetable_onlyIf .refuseIf) fun _ => offTimetable_onlyIf ?_
  exact .update (offTimetable_setEvent id fun _ => rfl)

theorem keeps_cancelOccurrence (occurrenceId : String) (T) :
    Keeps (timetable · = T) (cancelOccurrence occurrenceId) := by
  refine keeps_timetable (fun now => ?_) T
  refine .bind (offTimetable_lockEventOfOccurrence _) fun _ => .bind (.acquire _ _) fun _ => ?_
  refine .bind (offTimetable_requireOccurrence _) fun _ => .bind .refuseIf fun _ => ?_
  refine .bind .refuseIf fun _ => .bind (.acquire _ _) fun _ => ?_
  exact .update (offTimetable_setOccurrence occurrenceId fun _ => rfl)

theorem keeps_reinstateOccurrence (occurrenceId : String) (T) :
    Keeps (timetable · = T) (reinstateOccurrence occurrenceId) := by
  refine keeps_timetable (fun now => ?_) T
  refine .bind (offTimetable_lockEventOfOccurrence _) fun _ => ?_
  refine .bind (offTimetable_requireOccurrence _) fun _ => .bind .refuseIf fun _ => ?_
  refine .bind .refuseIf fun _ => .bind (.updateRow _ _ ?_) fun _ => .refuseIf
  exact offTimetable_setOccurrence occurrenceId fun _ => rfl

theorem keeps_signUp (personId occurrenceId : String) (T) :
    Keeps (timetable · = T) (signUp personId occurrenceId) := by
  refine keeps_timetable (fun now => ?_) T
  refine .bind (.acquire _ _) fun _ => .bind (offTimetable_requireAttendable _) fun found => ?_
  obtain ⟨occurrence, event⟩ := found
  refine .bind .refuseIf fun _ => .bind .refuseIf fun _ => .bind .refuseIf fun _ => ?_
  refine .bind .snapshot fun own => .bind .refuseIf fun _ => .bind .snapshot fun s => ?_
  refine .bind .refuseIf fun _ => ?_
  split
  · refine .bind .fresh fun _ => .bind (.acquire _ _) fun _ => .bind (.acquire _ _) fun _ => ?_
    exact .bind .snapshot fun _ => .bind .refuseIf fun _ => .update (offTimetable_signups _)
  · exact .bind (.updateRow _ _ (offTimetable_signups _)) fun _ => .refuseIf

theorem keeps_withdrawOwn (personId occurrenceId : String) (T) :
    Keeps (timetable · = T) (withdrawOwn personId occurrenceId) := by
  refine keeps_timetable (fun now => .bind (.bind .snapshot fun s => ?_) fun _ => ?_) T
  · split
    · exact .pure _
    · exact .updateRow _ _ (offTimetable_signups _)
  · refine offTimetable_onlyIf (.bind (offTimetable_requireAttendable _) fun _ => ?_)
    exact .bind .snapshot fun _ => .bind .refuseIf fun _ => .fail _

theorem keeps_withdrawFor (signupId : String) (T) :
    Keeps (timetable · = T) (withdrawFor signupId) := by
  refine keeps_timetable (fun now => .bind .snapshot fun s => ?_) T
  exact .bind .refuseIf fun _ =>
    .bind (.updateRow _ _ (offTimetable_signups _)) fun _ => .refuseIf

/-! ### Calls that write dates -/

/-- Any write. -/
def AnyWrite (_ : EventStore → EventStore) : Prop := True

theorem within_insertOccurrence (eventId : String) (period : Period) :
    Within AnyWrite (insertOccurrence eventId period) :=
  .bind .fresh fun _ => .bind (.acquire _ _) fun _ => .bind .snapshot fun _ =>
    .bind .refuseIf fun _ => .update trivial

theorem within_validated (input : EventInput) : Within AnyWrite (validated zone input) := by
  unfold validated
  split
  · exact .fail _
  · exact .pure _

theorem within_requireEvent (id : String) : Within AnyWrite (requireEvent id) :=
  (offTimetable_requireEvent id).mono fun _ _ => trivial

theorem within_refuseInUse (message : String) (occurrences : List StoredOccurrence) :
    Within AnyWrite (refuseInUse zone message occurrences) :=
  (silent_refuseInUse zone message occurrences).mono fun _ _ => trivial

theorem failsClean_create (input : EventInput) : FailsClean (create zone input) := by
  refine .bind (within_validated input) fun schedule => .transaction (P := AnyWrite) ?_
  refine .bind .fresh fun _ => .bind (.acquire _ _) fun _ => .bind .snapshot fun _ => ?_
  exact .bind .refuseIf fun _ => .bind (.update trivial) fun _ =>
    .forM (within_insertOccurrence _) _

theorem failsClean_edit (id : String) (input : EventInput) :
    FailsClean (edit scan zone id input) := by
  refine .bind (within_validated input) fun schedule => .bind (P := AnyWrite) .readClock fun now =>
    .transaction (P := AnyWrite) ?_
  refine .bind (.acquire _ _) fun _ => .bind (within_requireEvent id) fun found => ?_
  obtain ⟨existing, occurrences⟩ := found
  refine .bind ((silent_refusePersonalIdentityNumbers scan input _).mono fun _ _ => trivial)
    fun _ => .bind (within_refuseInUse _ _) fun _ => .bind ?_ fun _ => .update trivial
  refine .bind (.update trivial) fun _ => .bind (.forM (fun _ => ?_) _) fun _ =>
    .forM (within_insertOccurrence _) _
  exact .bind (.acquire _ _) fun _ => .update trivial

theorem failsClean_remove (id : String) : FailsClean (remove zone id) := by
  refine .transaction (P := AnyWrite) (.bind (.acquire _ _) fun _ => ?_)
  refine .bind (within_requireEvent id) fun found => ?_
  exact .bind (within_refuseInUse _ _) fun _ => .update trivial

end Calls

/-- A series that is entered. -/
theorem Scheduled.create (h : Scheduled zone t s) {input : EventInput} {id : String}
    {rows : List EventOccurrence} (hid : findEvent s id = none)
    (hrows : NewRows s id (occurrencePeriods zone input.toSeriesSchedule) rows)
    (hevents : s'.events = s.events ++ [⟨input, id, .MEMBER, false, none⟩])
    (hocc : s'.occurrences = s.occurrences ++ rows) : Scheduled zone t s' := by
  have hnew : id ∉ s.events.map (·.id) := by
    intro hmem
    obtain ⟨event, hevent, heq⟩ := List.mem_map.mp hmem
    exact List.find?_eq_none.mp hid event hevent (decide_eq_true heq)
  have hnone : rowsOf s.occurrences id = [] := by
    refine List.eq_nil_iff_forall_not_mem.mpr fun row hrow => hnew ?_
    obtain ⟨occurrence, hmem, heq, -⟩ := mem_rowsOf.mp hrow
    exact heq ▸ h.owned occurrence hmem
  have hown : (rowsOf s'.occurrences id).map (·.period) =
      occurrencePeriods zone input.toSeriesSchedule := by
    rw [hocc, rowsOf_append, hnone, List.nil_append, rowsOf_of_series hrows.series, List.map_map,
      ← hrows.periods]
    rfl
  have hother : ∀ other, other ≠ id → rowsOf s'.occurrences other = rowsOf s.occurrences other := by
    intro other hne
    rw [hocc, rowsOf_append, rowsOf_of_other hrows.series hne, List.append_nil]
  refine ⟨?_, ?_, ?_, fun eventId => ?_, ?_⟩
  · rw [hocc, List.map_append, List.nodup_append]
    refine ⟨h.ids, hrows.nodup, fun a ha b hb heq => ?_⟩
    obtain ⟨row, hrow, rfl⟩ := List.mem_map.mp hb
    exact hrows.fresh row hrow (heq ▸ ha)
  · rw [hevents, List.map_append, List.nodup_append]
    refine ⟨h.eventIds, List.nodup_singleton _, fun a ha b hb heq => hnew ?_⟩
    rw [List.map_singleton, List.mem_singleton] at hb
    exact (heq.trans hb : a = id) ▸ ha
  · intro occurrence hmem
    rw [hevents, List.map_append, List.mem_append]
    rcases List.mem_append.mp (hocc ▸ hmem) with hold | hrow
    · exact .inl (h.owned occurrence hold)
    · exact .inr (List.mem_singleton.mpr (hrows.series occurrence hrow))
  · by_cases heq : eventId = id
    · rw [heq, map_day, hown]
      exact nodup_days_occurrencePeriods _
    · rw [hother eventId heq]
      exact h.days eventId
  · intro event hevent
    rcases List.mem_append.mp (hevents ▸ hevent) with hold | hlast
    · have hne : event.id ≠ id := fun heq => hnew (heq ▸ List.mem_map_of_mem hold)
      rw [hother event.id hne]
      exact h.follows event hold
    · rw [List.mem_singleton.mp hlast, hown]
      exact ⟨fun period hperiod => List.mem_map_of_mem hperiod, fun row hrow _ => hrow⟩

/-- A series that is removed. -/
theorem Scheduled.remove (h : Scheduled zone t s) {id : String}
    (hocc : s'.occurrences = s.occurrences.filter (·.eventId ≠ id))
    (hevents : s'.events = s.events.filter (·.id ≠ id)) : Scheduled zone t s' := by
  have hother : ∀ other, other ≠ id → rowsOf s'.occurrences other = rowsOf s.occurrences other := by
    intro other hne
    unfold rowsOf
    rw [hocc, List.filter_filter]
    congr 1
    refine List.filter_congr fun occurrence _ => ?_
    by_cases heq : occurrence.eventId = other
    · simp [heq, hne]
    · simp [heq]
  refine ⟨?_, ?_, fun occurrence hmem => ?_, fun eventId => ?_, fun event hevent => ?_⟩
  · rw [hocc]
    exact h.ids.sublist (List.filter_sublist.map _)
  · rw [hevents]
    exact h.eventIds.sublist (List.filter_sublist.map _)
  · rw [hocc] at hmem
    obtain ⟨hold, hne⟩ := List.mem_filter.mp hmem
    obtain ⟨event, hevent, heq⟩ := List.mem_map.mp (h.owned occurrence hold)
    rw [hevents, ← heq]
    refine List.mem_map_of_mem (List.mem_filter.mpr ⟨hevent, ?_⟩)
    rw [heq]
    exact hne
  · rw [hocc]
    refine (h.days eventId).sublist ?_
    unfold rowsOf
    exact ((List.filter_sublist.filter _).map _).map _
  · rw [hevents] at hevent
    obtain ⟨hold, hne⟩ := List.mem_filter.mp hevent
    rw [hother event.id (of_decide_eq_true hne)]
    exact h.follows event hold

namespace Scheduled

theorem nodup_days (h : Scheduled zone t s) (eventId : String) :
    ((datesOf s eventId).map (·.day zone)).Nodup :=
  ((perm_datesOf s eventId).map _).nodup_iff.mpr (h.days eventId)

theorem nodup_ids (h : Scheduled zone t s) (eventId : String) :
    ((datesOf s eventId).map (·.id)).Nodup :=
  ((perm_datesOf s eventId).map _).nodup_iff.mpr (h.ids.sublist (sublist_ids_rowsOf _ _))

theorem planSplit (h : Scheduled zone t s) (eventId : String) (schedule : SeriesSchedule)
    (now : Int) : PlanSplit zone (datesOf s eventId) (occurrencePeriods zone schedule) now
      (planOccurrences zone (datesOf s eventId) (occurrencePeriods zone schedule) now) :=
  planSplit_planOccurrences now (h.nodup_days eventId) (nodup_days_occurrencePeriods schedule)

variable {id : String} {planned : List Period} {plan : OccurrencePlan} {now : Int}
  {rows : List EventOccurrence}

/-- The rows of a series that an edit keeps or moves. -/
theorem perm_rearranged (h : Scheduled zone t s)
    (hplan : PlanSplit zone (datesOf s id) planned now plan) :
    (rowsOf (rearranged plan s) id).Perm (plan.kept ++ plan.moved.map (·.row)) := by
  rw [rowsOf_rearranged]
  exact (((perm_datesOf s id).symm.filter _).map _).trans (hplan.perm_movedRow (h.nodup_ids id))

/-- **The rows of a series that is edited.** -/
theorem rewritten (h : Scheduled zone t s)
    (hplan : PlanSplit zone (datesOf s id) planned now plan)
    (hwritten : PlanWritten id plan s s'.occurrences rows) :
    Rewritten zone (datesOf s id) planned now (datesOf s' id) := by
  have hrearranged := h.perm_rearranged hplan
  have hperiods : (rows.map (·.toStoredOccurrence)).map (·.period) = plan.added := by
    rw [List.map_map, ← hwritten.periods]
    rfl
  refine hplan.rewritten (h.nodup_ids id) hperiods ?_ ?_
  · -- the rows that have begun are still there when the new ones are written
    intro row hrow hmem
    obtain ⟨new, hnew, rfl⟩ := List.mem_map.mp hrow
    refine hwritten.fresh new hnew ((sublist_ids_rowsOf _ id).subset ?_)
    obtain ⟨begun, hbegun, heq⟩ := List.mem_map.mp hmem
    rw [← heq]
    refine List.mem_map_of_mem (hrearranged.symm.subset (List.mem_append_left _ ?_))
    rw [← hplan.begun] at hbegun
    exact (List.mem_filter.mp hbegun).1
  · refine (perm_datesOf s' id).trans ?_
    rw [hwritten.dates, rowsOf_append, rowsOf_of_series hwritten.series]
    exact hrearranged.append_right _

/-- A series beside the one edited keeps its rows. -/
theorem rowsOf_other (h : Scheduled zone t s)
    (hplan : PlanSplit zone (datesOf s id) planned now plan)
    (hwritten : PlanWritten id plan s s'.occurrences rows) {other : String} (hne : other ≠ id) :
    rowsOf s'.occurrences other = rowsOf s.occurrences other := by
  have hapart : ∀ row ∈ rowsOf s.occurrences other, ∀ row' ∈ datesOf s id, row.id ≠ row'.id := by
    intro row hrow row' hrow' heq
    obtain ⟨occurrence, hmem, hother, rfl⟩ := mem_rowsOf.mp hrow
    obtain ⟨occurrence', hmem', hid, rfl⟩ := mem_rowsOf.mp ((perm_datesOf s id).subset hrow')
    have hsame := List.inj_on_of_nodup_map h.ids hmem hmem' heq
    exact hne (hother.symm.trans (hsame ▸ hid))
  rw [hwritten.dates, rowsOf_append, rowsOf_of_other hwritten.series hne, List.append_nil,
    rowsOf_rearranged, List.filter_eq_self.mpr]
  · refine (List.map_congr_left fun row hrow => movedRow_of_absent fun hmem => ?_).trans
      (List.map_id _)
    obtain ⟨entry, hentry, heq⟩ := List.mem_map.mp hmem
    refine hapart row hrow entry.occurrence (hplan.rows.subset ?_) heq.symm
    exact List.mem_append_left _ (List.mem_append_right _ (List.mem_map_of_mem hentry))
  · refine fun row hrow => decide_eq_true fun hmem => ?_
    obtain ⟨dropped, hdropped, heq⟩ := List.mem_map.mp hmem
    exact hapart row hrow dropped (hplan.rows.subset (List.mem_append_right _ hdropped)) heq.symm

theorem nodup_ids_written (h : Scheduled zone t s)
    (hwritten : PlanWritten id plan s s'.occurrences rows) :
    (s'.occurrences.map (·.id)).Nodup := by
  rw [hwritten.dates, List.map_append, List.nodup_append]
  refine ⟨h.ids.sublist (sublist_ids_rearranged plan s), hwritten.nodup, fun a ha b hb heq => ?_⟩
  obtain ⟨row, hrow, rfl⟩ := List.mem_map.mp hb
  exact hwritten.fresh row hrow (heq ▸ ha)

/-- A series that is edited. -/
theorem edit (h : Scheduled zone t s) {input : EventInput}
    (hexists : ∃ event ∈ s.events, event.id = id)
    (hplan : PlanSplit zone (datesOf s id) (occurrencePeriods zone input.toSeriesSchedule) t plan)
    (hwritten : PlanWritten id plan s s'.occurrences rows)
    (hevents : s'.events = s.events.map fun e =>
      if e.id = id then { e with toEventInput := input, id := id } else e) :
    Scheduled zone t s' := by
  have hids := h.nodup_ids_written hwritten
  have hrewritten := h.rewritten hplan hwritten
  have hperm := perm_datesOf s' id
  have heventIds : s'.events.map (·.id) = s.events.map (·.id) := by
    rw [hevents, List.map_map]
    refine List.map_congr_left fun e _ => ?_
    rw [Function.comp_apply]
    split_ifs with heq
    · exact heq.symm
    · rfl
  refine ⟨hids, heventIds ▸ h.eventIds, fun occurrence hmem => ?_, fun eventId => ?_,
    fun event hevent => ?_⟩
  · rw [heventIds]
    by_cases hid : occurrence.eventId = id
    · obtain ⟨event, hevent, heq⟩ := hexists
      rw [hid, ← heq]
      exact List.mem_map_of_mem hevent
    · have hrow : occurrence.toStoredOccurrence ∈ rowsOf s'.occurrences occurrence.eventId :=
        mem_rowsOf.mpr ⟨occurrence, hmem, rfl, rfl⟩
      rw [h.rowsOf_other hplan hwritten hid] at hrow
      obtain ⟨old, hold, heq, -⟩ := mem_rowsOf.mp hrow
      exact heq ▸ h.owned old hold
  · by_cases heq : eventId = id
    · rw [heq]
      refine (hperm.map _).nodup_iff.mp (hrewritten.nodup_days ?_ (h.nodup_days id)
        (nodup_days_occurrencePeriods _))
      refine List.Nodup.of_map (·.id) ((hperm.map _).nodup_iff.mpr ?_)
      exact hids.sublist (sublist_ids_rowsOf _ id)
    · rw [h.rowsOf_other hplan hwritten heq]
      exact h.days eventId
  · rw [hevents] at hevent
    obtain ⟨old, hold, rfl⟩ := List.mem_map.mp hevent
    split_ifs with heq
    · exact hrewritten.follows.perm (hperm.map _)
    · rw [h.rowsOf_other hplan hwritten heq]
      exact h.follows old hold

end Scheduled

/-! ### Every history -/

section Histories

variable {scan : String → List ℕ}

/-- **One call.** -/
theorem Scheduled.call (h : Scheduled zone t s) (hle : t ≤ t') {p : EventTx Unit}
    (hp : EventCall scan zone p) {draws : ℕ → String} {answer : Except EventFailure Unit}
    (hcall : Txn.call p t' draws s = (answer, s')) : Scheduled zone t' s' := by
  have hlater := h.mono hle
  have hkept : (∀ T, Keeps (timetable · = T) p) → Scheduled zone t' s' := fun hkeeps =>
    hlater.of_timetable ((hkeeps (timetable s)).call hcall rfl)
  cases hp with
  | create input =>
    rcases (failsClean_create input).call hcall with rfl | ⟨_, w', -, hrun, rfl⟩
    · exact hlater
    · obtain ⟨id, rows, hid, hrows, hw'⟩ := exec_create hrun
      exact hlater.create hid hrows (by rw [hw']) (by rw [hw'])
  | edit id input =>
    rcases (failsClean_edit id input).call hcall with rfl | ⟨_, w', -, hrun, rfl⟩
    · exact hlater
    · have hplan := hlater.planSplit id input.toSeriesSchedule t'
      obtain ⟨hexists, ⟨rows, hwritten⟩, hevents⟩ := exec_edit (w := ⟨t', draws, s, s⟩)
        (hplan.nodup_moved (hlater.nodup_ids id)) hrun
      exact hlater.edit hexists hplan hwritten hevents
  | publish id input => exact hkept (keeps_publish id input)
  | cancelOccurrence occurrenceId => exact hkept (keeps_cancelOccurrence occurrenceId)
  | reinstateOccurrence occurrenceId => exact hkept (keeps_reinstateOccurrence occurrenceId)
  | remove id =>
    rcases (failsClean_remove id).call hcall with rfl | ⟨_, w', -, hrun, rfl⟩
    · exact hlater
    · obtain ⟨hocc, hevents⟩ := exec_remove hrun
      exact hlater.remove hocc hevents
  | signUp personId occurrenceId => exact hkept (keeps_signUp personId occurrenceId)
  | withdrawOwn personId occurrenceId => exact hkept (keeps_withdrawOwn personId occurrenceId)
  | withdrawFor signupId => exact hkept (keeps_withdrawFor signupId)

/-- Calls one after the other, the clock advancing. -/
inductive History (scan : String → List ℕ) (zone : Zone) : Int → EventStore → Prop
  | start (t : Int) : History scan zone t {}
  | call {t t' : Int} {s s' : EventStore} {p : EventTx Unit} {draws : ℕ → String}
      {answer : Except EventFailure Unit} : History scan zone t s → t ≤ t' →
      EventCall scan zone p → Txn.call p t' draws s = (answer, s') → History scan zone t' s'

theorem History.after (h : History scan zone t s) (hle : t ≤ t') {p : EventTx Unit}
    (hp : EventCall scan zone p) (draws : ℕ → String) :
    History scan zone t' (Txn.call p t' draws s).2 :=
  .call h hle hp rfl

theorem History.scheduled (h : History scan zone t s) : Scheduled zone t s := by
  induction h with
  | start t => exact .empty zone t
  | call _ hle hp hcall ih => exact ih.call hle hp hcall

/-- Nothing to write: the rows there are are those the schedule names. -/
def OccurrencePlan.changesNothing (plan : OccurrencePlan) : Prop :=
  plan.moved = [] ∧ plan.dropped = [] ∧ plan.added = []

/-- **The dates of a series.**  After any history of calls the rows of a series are on different
local days; a plan for any schedule puts each row in one class; planning the schedule of a series
again changes nothing; and an edit that succeeds leaves the rows that have begun, writes the new
schedule less their days, keeps the identifier and the cancellation of a row of a day of both
schedules, and planning its schedule again changes nothing. -/
theorem dates_of_history (scan : String → List ℕ) (zone : Zone) {t : Int} {s : EventStore}
    (hrun : History scan zone t s) :
    (∀ eventId, ((datesOf s eventId).map (·.day zone)).Nodup) ∧
    (∀ eventId schedule now,
      let plan := planOccurrences zone (datesOf s eventId) (occurrencePeriods zone schedule) now
      PlanSplit zone (datesOf s eventId) (occurrencePeriods zone schedule) now plan ∧
        ((plan.kept ++ plan.moved.map (·.occurrence) ++ plan.dropped).map (·.id)).Nodup) ∧
    (∀ event ∈ s.events, ∀ now, t ≤ now →
      (planOccurrences zone (datesOf s event.id) (occurrencePeriods zone event.toSeriesSchedule)
        now).changesNothing) ∧
    ∀ eventId input t' draws s', t ≤ t' →
      Txn.call (edit scan zone eventId input) t' draws s = (.ok (), s') →
      Rewritten zone (datesOf s eventId) (occurrencePeriods zone input.toSeriesSchedule) t'
        (datesOf s' eventId) ∧
      (∀ period, t' < period.startsAt → (period ∈ (datesOf s' eventId).map (·.period) ↔
        period ∈ openPeriods zone (datesOf s eventId)
          (occurrencePeriods zone input.toSeriesSchedule) t')) ∧
      ∀ now, t' ≤ now → (planOccurrences zone (datesOf s' eventId)
        (occurrencePeriods zone input.toSeriesSchedule) now).changesNothing := by
  have h := hrun.scheduled
  refine ⟨h.nodup_days, fun eventId schedule now => ?_, fun event hevent now hle => ?_, ?_⟩
  · have hplan := h.planSplit eventId schedule now
    exact ⟨hplan, (hplan.rows.map _).nodup_iff.mpr (h.nodup_ids eventId)⟩
  · have hfollows := (h.follows event hevent).mono hle
    refine Follows.plan (hfollows.perm ((perm_datesOf s event.id).symm.map _))
      (h.nodup_days event.id) (nodup_days_occurrencePeriods _)
  · intro eventId input t' draws s' hle hcall
    have hlater := h.mono hle
    have hplan := hlater.planSplit eventId input.toSeriesSchedule t'
    have hs' := h.call hle (.edit eventId input) hcall
    obtain ⟨hanswer, rfl⟩ := Prod.mk.inj hcall
    obtain ⟨-, ⟨rows, hwritten⟩, -⟩ := exec_edit (w := ⟨t', draws, s, s⟩)
      (hplan.nodup_moved (hlater.nodup_ids eventId)) (Prod.ext hanswer rfl)
    have hrewritten := hlater.rewritten hplan hwritten
    refine ⟨hrewritten, fun period => hrewritten.future, fun now hnow => ?_⟩
    exact (hrewritten.follows.mono hnow).plan (hs'.nodup_days eventId)
      (nodup_days_occurrencePeriods _)

end Histories

/-! ### A series re-cut -/

section SpringDays

/-- Cleaning days of two hours, four of them, every so many weeks from the eighth of January 1970. -/
def springDays (interval minute : Int) (hminute : 0 ≤ minute ∧ minute < MINUTES_PER_DAY) :
    EventInput :=
  ⟨⟨⟨1970, 1, 8⟩, minute, 120, some ⟨.WEEKLY, interval, some 4, none⟩, hminute⟩, "Cleaning day", none,
    none, none, true, true, none⟩

def springIds (n : ℕ) : String := ["cleaning", "d8", "d15", "d22", "d29"].getD n ""

def addedIds (n : ℕ) : String := ["d36", "d50"].getD n ""

def springEntered : EventStore :=
  (call (create utc (springDays 1 540 (by decide))) 0 springIds {}).2

/-- The third is called off. -/
def springCalledOff : EventStore := (call (cancelOccurrence "d22") 1 springIds springEntered).2

/-- On the day after the first, every other week, and an hour later. -/
def springMoved : Except EventFailure Unit × EventStore :=
  call (edit (fun _ => []) utc "cleaning" (springDays 2 600 (by decide))) 700000000 addedIds
    springCalledOff

theorem history_springCalledOff : History (fun _ => []) utc 1 springCalledOff :=
  ((History.start 0).after le_rfl (.create (springDays 1 540 (by decide))) springIds).after
    (by decide) (.cancelOccurrence "d22") springIds

/-- The day that has begun stays, the second and the fourth are dropped, the third is moved by an hour
and still called off, and two are added. -/
theorem dates_of_springMoved :
    Rewritten utc (datesOf springCalledOff "cleaning")
      (occurrencePeriods utc (springDays 2 600 (by decide)).toSeriesSchedule) 700000000
      (datesOf springMoved.2 "cleaning") ∧
    ((datesOf springCalledOff "cleaning").map (·.day utc)).Nodup ∧
    datesOf springCalledOff "cleaning" =
      [⟨"d8", 637200000, 644400000, none⟩, ⟨"d15", 1242000000, 1249200000, none⟩,
        ⟨"d22", 1846800000, 1854000000, some 1⟩, ⟨"d29", 2451600000, 2458800000, none⟩] ∧
    datesOf springMoved.2 "cleaning" =
      [⟨"d8", 637200000, 644400000, none⟩, ⟨"d22", 1850400000, 1857600000, some 1⟩,
        ⟨"d36", 3060000000, 3067200000, none⟩, ⟨"d50", 4269600000, 4276800000, none⟩] := by
  have hok : springMoved.1.isOk = true := by decide +kernel
  have hcall : springMoved = (.ok (), springMoved.2) := by
    match hm : springMoved, hok with
    | (.ok (), s'), _ => rfl
    | (.error e, s'), hok => cases hok
  have hdates := dates_of_history (fun _ => []) utc history_springCalledOff
  have hedit := hdates.2.2.2 "cleaning" (springDays 2 600 (by decide)) 700000000 addedIds springMoved.2
    (by decide) hcall
  exact ⟨hedit.1, hdates.1 "cleaning", by decide +kernel⟩

end SpringDays

end OpenBrf.Events
