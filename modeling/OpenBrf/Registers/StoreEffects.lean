import OpenBrf.Registers.Store
import OpenBrf.Registers.OwedRows
import OpenBrf.Registers.Reading

/-!
# Registers.StoreEffects — what the register's statements leave in the store
-/

namespace OpenBrf.Registers

open Txn

variable {w w' : World Store String}

/-- No restriction on what a program writes. -/
abbrev AnyWrite : (Store → Store) → Prop := fun _ => True

theorem exec_createResidency {personId apartmentId id : String} {role : ResidencyRole}
    {movedInOn : Int} {movedOutOn : Option Int}
    (h : exec (createResidency personId apartmentId role movedInOn movedOutOn) w = (.ok id, w')) :
    (∀ r ∈ w.working.residencies, r.id ≠ id) ∧
      (∃ p ∈ w.working.persons, p.id = personId) ∧ apartmentId ∈ w.working.apartmentIds ∧
      w'.working = { w.working with
        residencies := w.working.residencies ++
          [⟨id, personId, apartmentId, role, movedInOn, movedOutOn⟩] } := by
  simp only [createResidency, exec_bind_ok, exec_fresh, exec_acquire, exec_snapshot,
    exec_refuseIf, exec_update, exec_pure, Prod.mk.injEq, Except.ok.injEq] at h
  obtain ⟨i, w₁, ⟨rfl, rfl⟩, _, w₂, ⟨-, rfl⟩, s, w₃, ⟨rfl, rfl⟩, _, w₄, ⟨hfree, rfl⟩, _, w₅,
    ⟨hperson, rfl⟩, _, w₆, ⟨hapt, rfl⟩, _, w₇, ⟨-, rfl⟩, rfl, rfl⟩ := h
  refine ⟨fun r hr heq => hfree ⟨r, hr, heq⟩, not_not.mp hperson, not_not.mp hapt, rfl⟩

theorem within_createResidency (personId apartmentId : String) (role : ResidencyRole)
    (movedInOn : Int) (movedOutOn : Option Int) :
    Within AnyWrite (createResidency personId apartmentId role movedInOn movedOutOn) :=
  .bind .fresh fun _ => .bind (.acquire _ _) fun _ => .bind .snapshot fun _ =>
    .bind .refuseIf fun _ => .bind .refuseIf fun _ => .bind .refuseIf fun _ =>
      .bind (.update trivial) fun _ => .pure _

/-! ### Residencies held -/

theorem mem_memberSpans {residencies : List Residency} {personId : String}
    {span : MemberResidencySpan} : span ∈ memberSpans residencies personId ↔
      ∃ r ∈ residencies, r.personId = personId ∧ r.role = .MEMBER ∧ r.span = span := by
  simp [memberSpans, memberResidenciesOf, and_assoc]

theorem covered_memberSpans {residencies : List Residency} {personId : String} {d : Int} :
    covered (memberSpans residencies personId) d = true ↔
      ∃ r ∈ residencies, r.personId = personId ∧ r.role = .MEMBER ∧ r.span.covers d = true := by
  rw [covered_iff]
  constructor
  · rintro ⟨span, hspan, hd⟩
    obtain ⟨r, hr, hp, hrole, rfl⟩ := mem_memberSpans.mp hspan
    exact ⟨r, hr, hp, hrole, hd⟩
  · rintro ⟨r, hr, hp, hrole, hd⟩
    exact ⟨r.span, mem_memberSpans.mpr ⟨r, hr, hp, hrole, rfl⟩, hd⟩

/-! ### Register rows -/

/-- A row that records an owed event for a person, stamped by the clock. -/
structure Records (personId : String) (createdAt : Int) (event : OwedMembershipEvent)
    (row : MemberRegisterArchiveRow) : Prop where
  personId : row.personId = personId
  eventType : row.eventType = match event.eventType with
    | .ENTRY => .ENTRY
    | .EXIT => .EXIT
  eventOn : row.eventOn = event.eventOn
  correctsEntryId : row.correctsEntryId = none
  createdAt : row.createdAt = createdAt
  apartmentId : row.apartmentId = some event.apartmentId

theorem records_memberRegisterRow (id : String) (createdAt : Int) (person : Person)
    (note : Option String) (event : OwedMembershipEvent) :
    Records person.id createdAt event (memberRegisterRow id createdAt person note event) :=
  ⟨rfl, rfl, rfl, rfl, rfl, rfl⟩

theorem exec_createMemberRegisterEntries {person : Person} {note : Option String} :
    ∀ {owed : List OwedMembershipEvent} {w w' : World Store String} {u : Unit},
      exec (owed.forM (createMemberRegisterEntry person note)) w = (.ok u, w') →
      ∃ rows, List.Forall₂ (Records person.id w.clock) owed rows ∧ w'.working = { w.working with
        memberRegisterEntries := w.working.memberRegisterEntries ++ rows }
  | [], w, w', u, h => by
    obtain ⟨-, rfl⟩ := Prod.mk.inj h
    exact ⟨[], List.Forall₂.nil, by simp⟩
  | event :: owed, w, w', u, h => by
    obtain ⟨_, w₁, h₁, h₂⟩ := exec_bind_ok.mp h
    obtain ⟨rows, hrows, hw'⟩ := exec_createMemberRegisterEntries h₂
    simp only [createMemberRegisterEntry, exec_bind_ok, exec_fresh, exec_readClock, exec_acquire,
      exec_snapshot, exec_refuseIf, exec_update, Prod.mk.injEq, Except.ok.injEq] at h₁
    obtain ⟨i, w₂, ⟨rfl, rfl⟩, t, w₃, ⟨rfl, rfl⟩, _, w₄, ⟨-, rfl⟩, s, w₅, ⟨rfl, rfl⟩, _, w₆,
      ⟨-, rfl⟩, -, rfl⟩ := h₁
    refine ⟨memberRegisterRow (w.draws 0) w.clock person note event :: rows,
      List.Forall₂.cons (records_memberRegisterRow ..) hrows, ?_⟩
    rw [hw']
    simp

theorem within_createMemberRegisterEntry (person : Person) (note : Option String)
    (event : OwedMembershipEvent) : Within AnyWrite (createMemberRegisterEntry person note event) :=
  .bind .fresh fun _ => .bind .readClock fun _ => .bind (.acquire _ _) fun _ =>
    .bind .snapshot fun _ => .bind .refuseIf fun _ => .update trivial

theorem within_findPersonOrThrow (personId : String) :
    Within AnyWrite (findPersonOrThrow personId) :=
  .bind .snapshot fun s => by
    cases findPerson s.persons personId with
    | none => exact .fail _
    | some person => exact .pure _

theorem within_orThrow {α : Type} (a : Except String α) : Within AnyWrite (orThrow a) := by
  cases a with
  | error message => exact .fail _
  | ok a => exact .pure a

/-- The archive the moves write: ENTRY and EXIT rows, none of them a correction. -/
structure PlainRows (rows : List MemberRegisterArchiveRow) : Prop where
  eventType : ∀ row ∈ rows, row.eventType ≠ .CORRECTION
  correctsEntryId : ∀ row ∈ rows, row.correctsEntryId = none

theorem PlainRows.nil : PlainRows [] := ⟨by simp, by simp⟩

theorem PlainRows.superseded {rows : List MemberRegisterArchiveRow} (h : PlainRows rows) :
    superseded rows = [] := by
  rw [Registers.superseded, List.filterMap_eq_nil_iff]
  exact h.correctsEntryId

theorem Records.plain {personId : String} {createdAt : Int} {event : OwedMembershipEvent}
    {row : MemberRegisterArchiveRow} (h : Records personId createdAt event row) :
    row.eventType ≠ .CORRECTION := by
  rw [h.eventType]
  cases event.eventType <;> simp

theorem exists_records {personId : String} {createdAt : Int} {owed : List OwedMembershipEvent}
    {rows : List MemberRegisterArchiveRow} (h : List.Forall₂ (Records personId createdAt) owed rows)
    {row : MemberRegisterArchiveRow} (hrow : row ∈ rows) :
    ∃ event ∈ owed, Records personId createdAt event row := by
  induction h with
  | nil => simp at hrow
  | cons hrec _ ih =>
    rcases List.mem_cons.mp hrow with rfl | hrow
    · exact ⟨_, by simp, hrec⟩
    · obtain ⟨event, hevent, hr⟩ := ih hrow
      exact ⟨event, by simp [hevent], hr⟩

theorem exists_recorded {personId : String} {createdAt : Int} {owed : List OwedMembershipEvent}
    {rows : List MemberRegisterArchiveRow} (h : List.Forall₂ (Records personId createdAt) owed rows)
    {event : OwedMembershipEvent} (hevent : event ∈ owed) :
    ∃ row ∈ rows, Records personId createdAt event row := by
  induction h with
  | nil => simp at hevent
  | cons hrec _ ih =>
    rcases List.mem_cons.mp hevent with rfl | hevent
    · exact ⟨_, by simp, hrec⟩
    · obtain ⟨row, hrow, hr⟩ := ih hevent
      exact ⟨row, by simp [hrow], hr⟩

/-- Rows that record owed events are appended under their stamp once their ids are fresh. -/
theorem appendedTo_of_records {personId : String} {createdAt : Int}
    {owed : List OwedMembershipEvent} {register rows : List MemberRegisterArchiveRow}
    (hrows : List.Forall₂ (Records personId createdAt) owed rows)
    (hfresh : ∀ row ∈ rows, row.id ∉ superseded register)
    (hlater : ∀ row ∈ register, row.createdAt < createdAt) : AppendedTo register rows := by
  refine ⟨?_, ?_, hfresh, ?_⟩
  · intro row hrow
    obtain ⟨event, -, hr⟩ := exists_records hrows hrow
    exact hr.plain
  · intro row hrow
    obtain ⟨event, -, hr⟩ := exists_records hrows hrow
    exact hr.correctsEntryId
  · intro old hold row hrow
    obtain ⟨event, -, hr⟩ := exists_records hrows hrow
    show old.createdAt < row.createdAt
    rw [hr.createdAt]
    exact hlater old hold

theorem Records.isEntry_plainEvent {personId : String} {createdAt : Int}
    {event : OwedMembershipEvent} {row : MemberRegisterArchiveRow} {v : Bool}
    (h : Records personId createdAt event row) (htype : event.eventType = eventTypeOf v) :
    (plainEvent row).isEntry = v := by
  have hrow : row.eventType = if v then .ENTRY else .EXIT := by
    rw [h.eventType, htype]
    cases v <;> rfl
  unfold plainEvent ResolvedRegisterEvent.isEntry RegisterRow.event
  cases v <;> simp_all [instRegisterRowMemberRegisterArchiveRow]

/-- Rows recorded for owed events settle the days the events answer. -/
theorem settles_records {personId : String} {createdAt : Int} {owed : List OwedMembershipEvent}
    {rows : List MemberRegisterArchiveRow} {f : Int → Option Bool}
    (hrows : List.Forall₂ (Records personId createdAt) owed rows)
    (howed : ∀ e ∈ owed, ∃ v, f e.eventOn = some v ∧ e.eventType = eventTypeOf v)
    (hdays : ∀ d v, f d = some v → ∃ e ∈ owed, e.eventOn = d) :
    Timeline.settles ResolvedRegisterEvent.isEntry
      ((rows.map plainEvent).filter fun e => e.personId = personId) = f := by
  refine Timeline.settles_eq _ ?_ ?_
  · intro e he
    obtain ⟨row, hrow, rfl⟩ := List.mem_map.mp (List.mem_filter.mp he).1
    obtain ⟨event, hevent, hrec⟩ := exists_records hrows hrow
    obtain ⟨v, hv, htype⟩ := howed event hevent
    have hday : Timeline.Dated.day (plainEvent row) = event.eventOn := hrec.eventOn
    rw [hday, hv, hrec.isEntry_plainEvent htype]
  · intro d v hv
    obtain ⟨event, hevent, rfl⟩ := hdays d v hv
    obtain ⟨row, hrow, hrec⟩ := exists_recorded hrows hevent
    exact ⟨plainEvent row, List.mem_filter.mpr ⟨List.mem_map_of_mem hrow,
      decide_eq_true hrec.personId⟩, hrec.eventOn⟩

/-- The rows `owed` stand for settle the days a change owes. -/
theorem settles_owed {personId : String} {createdAt : Int} {before after : List MemberResidencySpan}
    {owed : List OwedMembershipEvent} {rows : List MemberRegisterArchiveRow}
    (hbefore : CountedDays before) (hafter : CountedDays after)
    (howed : owedMembershipEvents before after = .ok owed)
    (hrows : List.Forall₂ (Records personId createdAt) owed rows) :
    Timeline.settles ResolvedRegisterEvent.isEntry
        ((rows.map plainEvent).filter fun e => e.personId = personId) =
      owedOn before after := by
  refine settles_records hrows (fun e he => ?_) fun d v hv => exists_owed hbefore hafter howed hv
  obtain ⟨v, hv, htype, -⟩ := (mem_owed hbefore hafter howed e).mp he
  exact ⟨v, hv, htype⟩

/-- **What `appendOwedMembershipEvents` leaves**: the rows the change owes, appended. -/
theorem exec_appendOwedMembershipEvents {personId : String} {before : List MemberResidencySpan}
    {owed : List OwedMembershipEvent}
    (h : exec (appendOwedMembershipEvents personId before) w = (.ok owed, w')) :
    owedMembershipEvents before (memberSpans w.working.residencies personId) = .ok owed ∧
      ∃ rows, List.Forall₂ (Records personId w.clock) owed rows ∧ w'.working = { w.working with
        memberRegisterEntries := w.working.memberRegisterEntries ++ rows } := by
  simp only [appendOwedMembershipEvents, readMemberResidencies, exec_bind_ok, exec_snapshot,
    exec_pure, Prod.mk.injEq, Except.ok.injEq] at h
  obtain ⟨after, w₁, ⟨s, w₂, ⟨rfl, rfl⟩, rfl, rfl⟩, owed', w₃, howed, h⟩ := h
  have hthrow : owedMembershipEvents before (memberSpans w.working.residencies personId) =
      .ok owed' ∧ w₃ = w := by
    cases hcase : owedMembershipEvents before (memberSpans w.working.residencies personId) with
    | error message =>
      rw [hcase] at howed
      cases howed
    | ok a =>
      rw [hcase] at howed
      obtain ⟨ha, rfl⟩ := Prod.mk.inj howed
      exact ⟨congrArg Except.ok (Except.ok.inj ha), rfl⟩
  obtain ⟨howed, rfl⟩ := hthrow
  split_ifs at h with hnil
  · obtain ⟨heq, rfl⟩ := Prod.mk.inj h
    obtain rfl := Except.ok.inj heq
    subst hnil
    exact ⟨howed, [], List.Forall₂.nil, by simp⟩
  · simp only [exec_bind_ok, exec_pure, Prod.mk.injEq, Except.ok.injEq] at h
    obtain ⟨person, w₄, hperson, _, w₅, hrows, rfl, rfl⟩ := h
    unfold findPersonOrThrow at hperson
    simp only [exec_bind_ok, exec_snapshot, Prod.mk.injEq, Except.ok.injEq] at hperson
    obtain ⟨s, w₆, ⟨rfl, rfl⟩, hperson⟩ := hperson
    cases hfind : findPerson w₃.working.persons personId with
    | none =>
      rw [hfind] at hperson
      cases hperson
    | some found =>
      rw [hfind] at hperson
      obtain ⟨heq, rfl⟩ := Prod.mk.inj hperson
      obtain rfl := Except.ok.inj heq
      obtain ⟨rows, hrows, hw'⟩ := exec_createMemberRegisterEntries hrows
      have hid : found.id = personId := by simpa using List.find?_some hfind
      exact ⟨howed, rows, hid ▸ hrows, hw'⟩

theorem within_appendOwedMembershipEvents (personId : String)
    (before : List MemberResidencySpan) :
    Within AnyWrite (appendOwedMembershipEvents personId before) := by
  refine .bind (.bind .snapshot fun _ => .pure _) fun after =>
    .bind (within_orThrow _) fun owed => ?_
  split_ifs
  · exact .pure _
  · exact .bind (within_findPersonOrThrow _) fun _ =>
      .bind (.forM (within_createMemberRegisterEntry _ _) _) fun _ => .pure _

end OpenBrf.Registers
