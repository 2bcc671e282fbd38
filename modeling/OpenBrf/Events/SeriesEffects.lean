import OpenBrf.Events.PlanSplit
import OpenBrf.Events.Service

/-!
# Events.SeriesEffects — what entering and editing a series leave

A series that is entered gets a row for each of its periods; one that is edited keeps, moves and
drops rows as its plan says.  No row of another series changes.
-/

namespace OpenBrf.Events

open Txn Shared

variable {w w' : World EventStore String} {u : Unit}

/-- The dates of a series, as they stand in the table. -/
def rowsOf (occurrences : List EventOccurrence) (eventId : String) : List StoredOccurrence :=
  (occurrences.filter fun occurrence => occurrence.eventId = eventId).map (·.toStoredOccurrence)

/-- The same, in the order an edit reads them. -/
def datesOf (s : EventStore) (eventId : String) : List StoredOccurrence :=
  (occurrencesOf s eventId).map (·.toStoredOccurrence)

theorem perm_datesOf (s : EventStore) (eventId : String) :
    (datesOf s eventId).Perm (rowsOf s.occurrences eventId) :=
  (List.perm_insertionSort _ _).map _

theorem mem_rowsOf {occurrences : List EventOccurrence} {eventId : String}
    {row : StoredOccurrence} : row ∈ rowsOf occurrences eventId ↔
      ∃ occurrence ∈ occurrences, occurrence.eventId = eventId ∧
        occurrence.toStoredOccurrence = row := by
  unfold rowsOf
  simp only [List.mem_map, List.mem_filter, decide_eq_true_eq, and_assoc]

@[simp] theorem rowsOf_append (occurrences rows : List EventOccurrence) (eventId : String) :
    rowsOf (occurrences ++ rows) eventId = rowsOf occurrences eventId ++ rowsOf rows eventId := by
  unfold rowsOf
  rw [List.filter_append, List.map_append]

theorem rowsOf_of_series {rows : List EventOccurrence} {eventId : String}
    (h : ∀ row ∈ rows, row.eventId = eventId) :
    rowsOf rows eventId = rows.map (·.toStoredOccurrence) := by
  unfold rowsOf
  rw [List.filter_eq_self.mpr fun row hrow => decide_eq_true (h row hrow)]

theorem rowsOf_of_other {rows : List EventOccurrence} {eventId other : String}
    (h : ∀ row ∈ rows, row.eventId = eventId) (hne : other ≠ eventId) : rowsOf rows other = [] := by
  unfold rowsOf
  rw [List.filter_eq_nil_iff.mpr, List.map_nil]
  intro row hrow heq
  exact hne ((of_decide_eq_true heq).symm.trans (h row hrow))

/-- The identifiers of the rows of a series are among those of the table. -/
theorem sublist_ids_rowsOf (occurrences : List EventOccurrence) (eventId : String) :
    ((rowsOf occurrences eventId).map (·.id)).Sublist (occurrences.map (·.id)) := by
  unfold rowsOf
  rw [List.map_map]
  exact List.filter_sublist.map _

/-- No write. -/
def Silent (_ : EventStore → EventStore) : Prop := False

theorem Silent.frame {α : Type} {p : EventTx α} (hp : Within Silent p) {a : α}
    (h : exec p w = (.ok a, w')) : w'.working = w.working := by
  have hview : id w'.working = id w.working := hp.frame (fun _ hf => hf.elim) h
  exact hview

/-! ### Rows added -/

/-- Rows for the periods of a series, under identifiers not in use. -/
structure NewRows (s : EventStore) (eventId : String) (periods : List Period)
    (rows : List EventOccurrence) : Prop where
  periods : rows.map (·.period) = periods
  series : ∀ row ∈ rows, row.eventId = eventId
  fresh : ∀ row ∈ rows, row.id ∉ s.occurrences.map (·.id)
  nodup : (rows.map (·.id)).Nodup

theorem exec_insertOccurrence {eventId : String} {period : Period}
    (h : exec (insertOccurrence eventId period) w = (.ok u, w')) :
    ∃ id, findOccurrence w.working id = none ∧ w'.working = { w.working with
      occurrences := w.working.occurrences ++
        [⟨⟨id, period.startsAt, period.endsAt, none⟩, eventId⟩] } := by
  obtain ⟨id, w₁, hid, h⟩ := exec_bind_ok.mp h
  obtain ⟨_, w₂, hlock, h⟩ := exec_bind_ok.mp h
  obtain ⟨s, w₃, hs, h⟩ := exec_bind_ok.mp h
  obtain ⟨_, w₄, hrefuse, h⟩ := exec_bind_ok.mp h
  obtain ⟨-, rfl⟩ := Prod.mk.inj hid
  obtain ⟨-, rfl⟩ := Prod.mk.inj hlock
  obtain ⟨hread, rfl⟩ := Prod.mk.inj hs
  obtain ⟨hnone, rfl⟩ := (exec_refuseIf _).mp hrefuse
  obtain ⟨-, rfl⟩ := Prod.mk.inj h
  obtain rfl := Except.ok.inj hread
  exact ⟨id, not_not.mp hnone, rfl⟩

theorem exec_insertOccurrences {eventId : String} :
    ∀ {periods : List Period} {w : World EventStore String},
      exec (periods.forM (insertOccurrence eventId)) w = (.ok u, w') →
      ∃ rows, NewRows w.working eventId periods rows ∧
        w'.working = { w.working with occurrences := w.working.occurrences ++ rows }
  | [], w, h => by
    obtain ⟨-, rfl⟩ := Prod.mk.inj h
    exact ⟨[], ⟨rfl, nofun, nofun, .nil⟩, by rw [List.append_nil]⟩
  | period :: periods, w, h => by
    obtain ⟨_, w₁, hfirst, h⟩ := exec_bind_ok.mp h
    obtain ⟨id, hnone, hw₁⟩ := exec_insertOccurrence hfirst
    obtain ⟨rows, hrows, hw'⟩ := exec_insertOccurrences h
    rw [hw₁] at hrows hw'
    have hid : id ∉ w.working.occurrences.map (·.id) := by
      intro hmem
      obtain ⟨occurrence, hocc, rfl⟩ := List.mem_map.mp hmem
      exact List.find?_eq_none.mp hnone occurrence hocc (decide_eq_true rfl)
    refine ⟨⟨⟨id, period.startsAt, period.endsAt, none⟩, eventId⟩ :: rows, ⟨?_, ?_, ?_, ?_⟩, ?_⟩
    · rw [List.map_cons, hrows.periods]
      rfl
    · exact List.forall_mem_cons.mpr ⟨rfl, hrows.series⟩
    · refine List.forall_mem_cons.mpr ⟨hid, fun row hrow hmem => hrows.fresh row hrow ?_⟩
      rw [List.map_append]
      exact List.mem_append_left _ hmem
    · refine List.nodup_cons.mpr ⟨fun hmem => ?_, hrows.nodup⟩
      obtain ⟨row, hrow, heq⟩ := List.mem_map.mp hmem
      refine hrows.fresh row hrow ?_
      rw [List.map_append, heq]
      exact List.mem_append_right _ (List.mem_singleton_self _)
    · rw [hw', List.append_assoc]
      rfl

/-! ### Rows moved -/

/-- The moves of a plan, one after the other. -/
theorem exec_moves : ∀ {moved : List MovedOccurrence} {w : World EventStore String},
    (moved.map (·.occurrence.id)).Nodup →
    exec (moved.forM fun entry => do
      acquire (.occurrenceRow entry.occurrence.id) .exclusive
      update (setOccurrence entry.occurrence.id fun row =>
        { row with startsAt := entry.period.startsAt, endsAt := entry.period.endsAt }) :
      EventTx Unit) w = (.ok u, w') →
      w'.working = { w.working with occurrences := w.working.occurrences.map fun occurrence =>
        { occurrence with
          toStoredOccurrence := movedRow moved occurrence.toStoredOccurrence } }
  | [], w, _, h => by
    obtain ⟨-, rfl⟩ := Prod.mk.inj h
    exact congrArg (fun rows => { w.working with occurrences := rows }) (List.map_id _).symm
  | entry :: moved, w, hids, h => by
    rw [List.map_cons, List.nodup_cons] at hids
    obtain ⟨_, w₁, hfirst, h⟩ := exec_bind_ok.mp h
    obtain ⟨_, w₂, hlock, hfirst⟩ := exec_bind_ok.mp hfirst
    obtain ⟨-, rfl⟩ := Prod.mk.inj hlock
    obtain ⟨-, rfl⟩ := Prod.mk.inj hfirst
    rw [exec_moves hids.2 h]
    unfold setOccurrence
    dsimp only
    rw [List.map_map]
    congr 1
    refine List.map_congr_left fun occurrence _ => ?_
    by_cases heq : occurrence.id = entry.occurrence.id
    · -- no later move is of the same row
      rw [movedRow_cons_of_eq heq.symm, Function.comp_apply, if_pos heq, movedRow_of_absent]
      · rw [← heq]
      · exact hids.1
    · rw [movedRow_cons_of_ne (Ne.symm heq), Function.comp_apply, if_neg heq]

/-! ### The programs -/

theorem exec_refusalOf {zone : Zone} {input : EventInput} {schedule : SeriesSchedule}
    (h : exec (validated zone input) w = (.ok schedule, w')) :
    schedule = input.toSeriesSchedule ∧ w' = w := by
  unfold validated at h
  split at h
  · cases h
  · obtain ⟨heq, rfl⟩ := Prod.mk.inj h
    exact ⟨(Except.ok.inj heq).symm, rfl⟩

theorem exec_requireEvent {id : String} {found : Event × List EventOccurrence}
    (h : exec (requireEvent id) w = (.ok found, w')) :
    findEvent w.working id = some found.1 ∧ found.2 = occurrencesOf w.working id ∧ w' = w := by
  unfold requireEvent at h
  obtain ⟨s, w₁, hs, h⟩ := exec_bind_ok.mp h
  obtain ⟨hread, rfl⟩ := Prod.mk.inj hs
  obtain rfl := Except.ok.inj hread
  split at h
  · cases h
  · next existing hfound =>
    obtain ⟨heq, rfl⟩ := Prod.mk.inj h
    rw [← Except.ok.inj heq]
    exact ⟨hfound, rfl, rfl⟩

theorem silent_refuseInUse (zone : Zone) (message : String) (occurrences : List StoredOccurrence) :
    Within Silent (refuseInUse zone message occurrences) :=
  .bind (.forM (fun _ => .acquire _ _) _) fun _ => .bind .snapshot fun _ => .refuseIf

theorem silent_refusePersonalIdentityNumbers (scan : String → List ℕ) (fields : EventInput)
    (c : Prop) [Decidable c] :
    Within Silent (onlyIf c (refusePersonalIdentityNumbers scan fields) : EventTx Unit) := by
  unfold onlyIf
  split_ifs
  · exact .refuseIf
  · exact .pure _

/-- **What entering a series leaves.** -/
theorem exec_create {zone : Zone} {input : EventInput}
    (h : exec (create zone input) w = (.ok u, w')) :
    ∃ id rows, findEvent w.working id = none ∧
      NewRows w.working id (occurrencePeriods zone input.toSeriesSchedule) rows ∧
      w'.committed = { w.working with
        events := w.working.events ++ [⟨input, id, .MEMBER, false, none⟩]
        occurrences := w.working.occurrences ++ rows } := by
  obtain ⟨schedule, w₁, hvalid, hcall⟩ := exec_bind_ok.mp h
  obtain ⟨rfl, rfl⟩ := exec_refusalOf hvalid
  obtain ⟨w₂, hbody, rfl⟩ := exec_transaction_ok.mp hcall
  obtain ⟨id, w₃, hid, h⟩ := exec_bind_ok.mp hbody
  obtain ⟨-, rfl⟩ := Prod.mk.inj hid
  obtain ⟨_, w₄, hlock, h⟩ := exec_bind_ok.mp h
  obtain ⟨-, rfl⟩ := Prod.mk.inj hlock
  obtain ⟨s, w₅, hs, h⟩ := exec_bind_ok.mp h
  obtain ⟨hread, rfl⟩ := Prod.mk.inj hs
  obtain rfl := Except.ok.inj hread
  obtain ⟨_, w₆, hrefuse, h⟩ := exec_bind_ok.mp h
  obtain ⟨hnone, rfl⟩ := (exec_refuseIf _).mp hrefuse
  obtain ⟨_, w₇, hupdate, h⟩ := exec_bind_ok.mp h
  obtain ⟨-, rfl⟩ := Prod.mk.inj hupdate
  obtain ⟨rows, hrows, hw'⟩ := exec_insertOccurrences h
  exact ⟨id, rows, not_not.mp hnone, ⟨hrows.periods, hrows.series, hrows.fresh, hrows.nodup⟩, hw'⟩

/-- The plan an edit makes of the dates of a series. -/
def editPlan (zone : Zone) (id : String) (input : EventInput) (now : Int) (s : EventStore) :
    OccurrencePlan :=
  planOccurrences zone (datesOf s id) (occurrencePeriods zone input.toSeriesSchedule) now

/-- The dates once the rows a plan drops are deleted and those it moves are written. -/
def rearranged (plan : OccurrencePlan) (s : EventStore) : List EventOccurrence :=
  (s.occurrences.filter fun occurrence => occurrence.id ∉ plan.dropped.map (·.id)).map
    fun occurrence => { occurrence with
      toStoredOccurrence := movedRow plan.moved occurrence.toStoredOccurrence }

theorem sublist_ids_rearranged (plan : OccurrencePlan) (s : EventStore) :
    ((rearranged plan s).map (·.id)).Sublist (s.occurrences.map (·.id)) := by
  have hids : (rearranged plan s).map (·.id) =
      (s.occurrences.filter fun occurrence => occurrence.id ∉ plan.dropped.map (·.id)).map
        (·.id) := by
    unfold rearranged
    rw [List.map_map]
    exact List.map_congr_left fun occurrence _ => movedRow_id _ _
  rw [hids]
  exact List.filter_sublist.map _

theorem rowsOf_rearranged (plan : OccurrencePlan) (s : EventStore) (eventId : String) :
    rowsOf (rearranged plan s) eventId =
      ((rowsOf s.occurrences eventId).filter fun row => row.id ∉ plan.dropped.map (·.id)).map
        (movedRow plan.moved) := by
  unfold rowsOf rearranged
  rw [List.filter_map, List.filter_map, List.map_map, List.map_map, List.filter_filter,
    List.filter_filter]
  congr 1
  refine List.filter_congr fun occurrence _ => ?_
  exact Bool.and_comm _ _

/-- The dates once a plan is written, with the rows it adds. -/
structure PlanWritten (id : String) (plan : OccurrencePlan) (s : EventStore)
    (dates rows : List EventOccurrence) : Prop where
  dates : dates = rearranged plan s ++ rows
  periods : rows.map (·.period) = plan.added
  series : ∀ row ∈ rows, row.eventId = id
  fresh : ∀ row ∈ rows, row.id ∉ (rearranged plan s).map (·.id)
  nodup : (rows.map (·.id)).Nodup

theorem exec_writePlan {id : String} {plan : OccurrencePlan}
    (hids : (plan.moved.map (·.occurrence.id)).Nodup)
    (h : exec (writePlan id plan) w = (.ok u, w')) :
    (∃ rows, PlanWritten id plan w.working w'.working.occurrences rows) ∧
      w'.working.events = w.working.events := by
  obtain ⟨_, w₁, hdrop, hrest⟩ := exec_bind_ok.mp h
  obtain ⟨-, rfl⟩ := Prod.mk.inj hdrop
  obtain ⟨_, w₂, hmove, hadd⟩ := exec_bind_ok.mp hrest
  have hmoved := exec_moves hids hmove
  have hkept : w₂.working.occurrences = rearranged plan w.working := by
    rw [hmoved]
    unfold rearranged deleteOccurrences
    simp only [decide_eq_true_eq, decide_not]
  obtain ⟨rows, hrows, hw'⟩ := exec_insertOccurrences hadd
  refine ⟨⟨rows, ?_, hrows.periods, hrows.series, ?_, hrows.nodup⟩, ?_⟩
  · rw [hw', hkept]
  · rw [← hkept]
    exact hrows.fresh
  · rw [hw', hmoved]
    rfl

/-- **What editing a series leaves.** -/
theorem exec_edit {scan : String → List ℕ} {zone : Zone} {id : String} {input : EventInput}
    (hids : ((editPlan zone id input w.clock w.working).moved.map (·.occurrence.id)).Nodup)
    (h : exec (edit scan zone id input) w = (.ok u, w')) :
    (∃ event ∈ w.working.events, event.id = id) ∧
      (∃ rows, PlanWritten id (editPlan zone id input w.clock w.working) w.working
        w'.committed.occurrences rows) ∧
      w'.committed.events = w.working.events.map fun e =>
        if e.id = id then { e with toEventInput := input, id := id } else e := by
  obtain ⟨schedule, w₁, hvalid, hcall⟩ := exec_bind_ok.mp h
  obtain ⟨rfl, rfl⟩ := exec_refusalOf hvalid
  obtain ⟨now, w₂, hclock, htx⟩ := exec_bind_ok.mp hcall
  obtain ⟨heq, rfl⟩ := Prod.mk.inj hclock
  obtain rfl := Except.ok.inj heq
  obtain ⟨w₃, hbody, rfl⟩ := exec_transaction_ok.mp htx
  obtain ⟨_, w₄, hlock, h⟩ := exec_bind_ok.mp hbody
  obtain ⟨-, rfl⟩ := Prod.mk.inj hlock
  obtain ⟨found, w₅, hfound, h⟩ := exec_bind_ok.mp h
  obtain ⟨hevent, hdates, rfl⟩ := exec_requireEvent hfound
  obtain ⟨existing, occurrences⟩ := found
  obtain ⟨_, w₆, hscan, h⟩ := exec_bind_ok.mp h
  have hw₆ := Silent.frame (silent_refusePersonalIdentityNumbers scan input _) hscan
  obtain ⟨_, w₇, huse, h⟩ := exec_bind_ok.mp h
  have hw₇ := (Silent.frame (silent_refuseInUse _ _ _) huse).trans hw₆
  obtain ⟨_, w₈, hwrite, h⟩ := exec_bind_ok.mp h
  obtain ⟨-, rfl⟩ := Prod.mk.inj h
  dsimp only at hdates
  rw [hdates] at hwrite
  have hwritten := exec_writePlan hids hwrite
  rw [hw₇] at hwritten
  obtain ⟨hrows, hevents⟩ := hwritten
  refine ⟨⟨existing, List.mem_of_find?_eq_some hevent, ?_⟩, hrows, ?_⟩
  · have hp := List.find?_some hevent
    exact of_decide_eq_true hp
  · show (w₈.working.events.map _) = _
    rw [hevents]

/-- **What removing a series leaves.** -/
theorem exec_remove {zone : Zone} {id : String} (h : exec (remove zone id) w = (.ok u, w')) :
    w'.committed.occurrences = w.working.occurrences.filter (·.eventId ≠ id) ∧
      w'.committed.events = w.working.events.filter (·.id ≠ id) := by
  obtain ⟨w₁, hbody, rfl⟩ := exec_transaction_ok.mp h
  obtain ⟨_, w₂, hlock, hrest⟩ := exec_bind_ok.mp hbody
  obtain ⟨-, rfl⟩ := Prod.mk.inj hlock
  obtain ⟨found, w₃, hfound, hwrite⟩ := exec_bind_ok.mp hrest
  obtain ⟨-, -, rfl⟩ := exec_requireEvent hfound
  obtain ⟨_, w₄, huse, hdelete⟩ := exec_bind_ok.mp hwrite
  have hw₄ := Silent.frame (silent_refuseInUse _ _ _) huse
  obtain ⟨-, rfl⟩ := Prod.mk.inj hdelete
  dsimp only
  rw [hw₄]
  unfold deleteOccurrences
  simp only [decide_eq_true_eq, decide_not, and_self]

end OpenBrf.Events
