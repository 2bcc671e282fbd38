import OpenBrf.Moves.HoldingRows

/-!
# Moves.HoldingRuns — runs of moves that keep one person's rows paired

Which rows a move appends, by the apartment each names, and the runs along which every person's
rows stay paired.
-/

namespace OpenBrf.Moves

open Txn Registers Timeline Shared

/-! ### Whose residencies, whose rows -/

/-- A residency a person holds, or held, as a member. -/
def MemberOf (s : Store) (personId : String) (x : Residency) : Prop :=
  x ∈ s.residencies ∧ x.personId = personId ∧ x.role = .MEMBER

/-- A row about a person. -/
def RowOf (s : Store) (personId : String) (row : MemberRegisterArchiveRow) : Prop :=
  row ∈ s.memberRegisterEntries ∧ row.personId = personId

theorem memberHeld_iff {s : Store} {personId : String} {d : Int} :
    memberHeld s personId d = true ↔ ∃ x, MemberOf s personId x ∧ Holds x d := by
  simp only [memberHeld, covered_memberSpans, MemberOf, Holds.eq_span, and_assoc]

theorem memberHeld_eq_false {s : Store} {personId : String} {d : Int} :
    memberHeld s personId d = false ↔ ∀ x, MemberOf s personId x → ¬ Holds x d := by
  rw [← Bool.not_eq_true, memberHeld_iff]
  push Not
  rfl

theorem heldByOthers_iff {s : Store} {residencyId personId : String} {d : Int} :
    heldByOthers s residencyId personId d = true ↔
      ∃ x, MemberOf s personId x ∧ x.id ≠ residencyId ∧ Holds x d := by
  simp only [heldByOthers, covered_memberSpans, MemberOf, Holds.eq_span, List.mem_filter,
    decide_eq_true_eq]
  refine exists_congr fun x => ?_
  tauto

theorem mem_memberSpans_iff {s : Store} {personId : String} {span : MemberResidencySpan} :
    span ∈ memberSpans s.residencies personId ↔ ∃ x, MemberOf s personId x ∧ x.span = span := by
  simp only [mem_memberSpans, MemberOf, and_assoc]

/-! ### The days a move owes rows on -/

/-- A move-in on a day not held owes a row on that day and on each later one the others stop. -/
theorem rowOn_entered {f : Int → Bool} {day d : Int} {v : Bool} (hday : f day = false) :
    rowOn (changes f) (fun d => f d || decide (day ≤ d)) d = some v ↔
      v = true ∧ (d = day ∨ (day < d ∧ f d = false ∧ f (d - 1) = true)) := by
  simp only [rowOn, changes]
  rcases lt_trichotomy day d with h | rfl | h
  · have h1 : day ≤ d := h.le
    have h2 : day ≤ d - 1 := by omega
    have h3 : d ≠ day := h.ne'
    by_cases hd : f d = true <;> by_cases hp : f (d - 1) = true <;> cases v <;> simp [h, h1, h2, h3, hd, hp]
  · have h1 : ¬ day ≤ day - 1 := by omega
    by_cases hp : f (day - 1) = true <;> cases v <;> simp [hday, h1, hp]
  · have h1 : ¬ day ≤ d := not_le.mpr h
    have h2 : ¬ day ≤ d - 1 := by omega
    have h3 : d ≠ day := h.ne
    have h4 : ¬ day < d := h.le.not_gt
    by_cases hd : f d = true <;> by_cases hp : f (d - 1) = true <;> cases v <;> simp [h1, h2, h3, h4, hd, hp]

/-- A move-out on a day the others do not hold, and after which they never stop, owes a row on
that day and on each later one the others begin. -/
theorem rowOn_movedOut {f : Int → Bool} {first day d : Int} {v : Bool} (hlt : first < day)
    (hday : f day = false) (hup : ∀ d, day < d → f (d - 1) = true → f d = true) :
    rowOn (changes fun d => f d || decide (first ≤ d))
        (fun d => f d || decide (first ≤ d ∧ d < day)) d = some v ↔
      (v = false ∧ d = day) ∨ (v = true ∧ day < d ∧ f d = true ∧ f (d - 1) = false) := by
  simp only [rowOn, changes]
  rcases lt_trichotomy day d with h | rfl | h
  · have h1 : first ≤ d := by omega
    have h2 : first ≤ d - 1 := by omega
    have h3 : ¬ d < day := by omega
    have h4 : ¬ d - 1 < day := by omega
    have h5 : d ≠ day := h.ne'
    by_cases hd : f d = true
    · by_cases hp : f (d - 1) = true <;> cases v <;> simp [h, h1, h2, h3, h4, h5, hd, hp]
    · have hp : ¬ f (d - 1) = true := fun hp => hd (hup d h hp)
      cases v <;> simp [h1, h2, h3, h4, h5, hd, hp]
  · have h1 : first ≤ day := hlt.le
    have h2 : first ≤ day - 1 := by omega
    have h3 : day - 1 < day := by omega
    by_cases hp : f (day - 1) = true <;> cases v <;> simp [hday, h1, h2, h3, hp]
  · have h3 : d ≠ day := h.ne
    have h4 : ¬ day < d := h.le.not_gt
    have h5 : d - 1 < day := by omega
    by_cases h1 : first ≤ d <;> by_cases h2 : first ≤ d - 1 <;> by_cases hd : f d = true <;>
      by_cases hp : f (d - 1) = true <;> cases v <;> simp [h, h1, h2, h3, h4, h5, hd, hp]

/-- The same of the register's own rows: besides, on the first day counted the ENTRY of what is held on
it is owed again where the last day of 1999 is held too. -/
theorem owedOn_entered {before after : List MemberResidencySpan} (hafter : CountedDays after)
    {day d : Int} {v : Bool} (hin : FIRST_COUNTED_DAY ≤ day) (hday : covered before day = false)
    (hheld : covered after = fun d => covered before d || decide (day ≤ d)) :
    owedOn before after d = some v ↔ v = true ∧
      (d = day ∨ (day < d ∧ covered before d = false ∧ covered before (d - 1) = true) ∨
        (d = FIRST_COUNTED_DAY ∧ covered before d = true ∧
          covered before (dayBefore FIRST_COUNTED_DAY) = true)) := by
  by_cases hfirst : d = FIRST_COUNTED_DAY
  · subst hfirst
    have hprev := hafter.covered_of_lt (d := FIRST_COUNTED_DAY - 1) (by omega)
    unfold owedOn rowOn
    rw [registeredRow_first, hprev, hheld]
    rcases hin.eq_or_lt with rfl | hlt
    · rw [hday]
      cases covered before (dayBefore FIRST_COUNTED_DAY) <;> cases v <;> simp
    · have h1 : ¬ day ≤ FIRST_COUNTED_DAY := hlt.not_ge
      have h2 : ¬ day < FIRST_COUNTED_DAY := hlt.le.not_gt
      have h3 : FIRST_COUNTED_DAY ≠ day := hlt.ne
      cases hb : covered before FIRST_COUNTED_DAY <;>
        cases covered before (dayBefore FIRST_COUNTED_DAY) <;> cases v <;> simp [h1, h2, h3, hb]
  · unfold owedOn registeredRow
    rw [hheld]
    simp only [rowOn, if_neg hfirst]
    exact (rowOn_entered hday).trans (by simp [hfirst])

theorem owedOn_movedOut {f : Int → Bool} {before after : List MemberResidencySpan}
    (hafter : CountedDays after) {first day d : Int} {v : Bool} (hin : FIRST_COUNTED_DAY ≤ first)
    (hlt : first < day) (hday : f day = false)
    (hup : ∀ d, day < d → f (d - 1) = true → f d = true)
    (hbefore : covered before = fun d => f d || decide (first ≤ d))
    (hheld : covered after = fun d => f d || decide (first ≤ d ∧ d < day)) :
    owedOn before after d = some v ↔
      (v = false ∧ d = day) ∨ (v = true ∧ ((day < d ∧ f d = true ∧ f (d - 1) = false) ∨
        (d = FIRST_COUNTED_DAY ∧ covered before d = true ∧
          covered before (dayBefore FIRST_COUNTED_DAY) = true))) := by
  by_cases hfirst : d = FIRST_COUNTED_DAY
  · subst hfirst
    have hprev := hafter.covered_of_lt (d := FIRST_COUNTED_DAY - 1) (by omega)
    have hsame : covered after FIRST_COUNTED_DAY = covered before FIRST_COUNTED_DAY := by
      rw [hheld, hbefore]
      have hlast : FIRST_COUNTED_DAY < day := by omega
      simp [hlast]
    have h1 : FIRST_COUNTED_DAY ≠ day := by omega
    have h2 : ¬ day < FIRST_COUNTED_DAY := by omega
    unfold owedOn rowOn
    rw [registeredRow_first, hprev, hsame]
    cases hb : covered before FIRST_COUNTED_DAY <;>
      cases covered before (dayBefore FIRST_COUNTED_DAY) <;> cases v <;> simp [h1, h2]
  · unfold owedOn registeredRow
    simp only [rowOn, if_neg hfirst]
    rw [hheld, hbefore]
    exact (rowOn_movedOut hlt hday hup).trans (by simp [hfirst])

/-! ### The apartment a row names -/

theorem mem_of_entrySpan {spans : List MemberResidencySpan} {d : Int} {span : MemberResidencySpan}
    (hd : FIRST_COUNTED_DAY ≤ d) (h : entrySpan spans d = some span) :
    span ∈ spans ∧ span.covers d = true := by
  unfold entrySpan at h
  rw [← span.isHeldOn_eq hd]
  rcases Option.or_eq_some_iff.mp h with h | ⟨-, h⟩
  · exact ⟨List.mem_of_find?_eq_some h, by have := List.find?_some h; simp_all⟩
  · exact ⟨List.mem_of_find?_eq_some h, by simpa using List.find?_some h⟩

/-- Where a residency begins on the day, an ENTRY names one that does. -/
theorem movedInOn_of_entrySpan {spans : List MemberResidencySpan} {d : Int}
    {span : MemberResidencySpan} (hd : FIRST_COUNTED_DAY ≤ d) (h : entrySpan spans d = some span)
    (hbegins : ∃ span ∈ spans, span.movedInOn = d ∧ span.covers d = true) :
    span.movedInOn = d := by
  unfold entrySpan at h
  rcases Option.or_eq_some_iff.mp h with h | ⟨hnone, -⟩
  · have := List.find?_some h
    simp_all
  · obtain ⟨span', hspan', hin, hheld⟩ := hbegins
    have := List.find?_eq_none.mp hnone span' hspan'
    rw [← span'.isHeldOn_eq hd] at hheld
    simp [hin, hheld] at this

instance : IsTrans Residency ByMoveIn where
  trans a b c hab hbc := by
    unfold ByMoveIn at *
    rcases hab with hab | ⟨hab, hid⟩ <;> rcases hbc with hbc | ⟨hbc, hid'⟩
    · exact .inl (hab.trans hbc)
    · exact .inl (hbc ▸ hab)
    · exact .inl (hab ▸ hbc)
    · exact .inr ⟨hab.trans hbc, String.le_trans hid hid'⟩

instance : Std.Total ByMoveIn where
  total a b := by
    unfold ByMoveIn
    rcases lt_trichotomy a.movedInOn b.movedInOn with h | h | h
    · exact .inl (.inl h)
    · exact (String.le_total a.id b.id).imp (fun hid => .inr ⟨h, hid⟩) fun hid => .inr ⟨h.symm, hid⟩
    · exact .inr (.inl h)

/-- Residencies are listed by the day they begin. -/
theorem pairwise_memberSpans (residencies : List Residency) (personId : String) :
    (memberSpans residencies personId).Pairwise (·.movedInOn ≤ ·.movedInOn) := by
  unfold memberSpans memberResidenciesOf
  rw [List.pairwise_map]
  refine (List.pairwise_insertionSort ByMoveIn _).imp ?_
  rintro a b (h | ⟨h, -⟩)
  · exact h.le
  · exact h.le

/-- An EXIT names a residency that ended on the day, and of those the first begun. -/
theorem exists_of_exitSpan {s : Store} {personId : String} {d : Int} {span : MemberResidencySpan}
    (h : (memberSpans s.residencies personId).find? (fun span => span.movedOutOn = some d) =
      some span) :
    ∃ x, MemberOf s personId x ∧ x.span = span ∧ x.movedOutOn = some d ∧
      ∀ y, MemberOf s personId y → y.movedOutOn = some d → x.movedInOn ≤ y.movedInOn := by
  obtain ⟨x, hx, rfl⟩ := mem_memberSpans_iff.mp (List.mem_of_find?_eq_some h)
  have hout := List.find?_some h
  refine ⟨x, hx, rfl, of_decide_eq_true hout, fun y hy hy' => ?_⟩
  have hrel := rel_of_find? (r := fun a b => a.movedInOn ≤ b.movedInOn) (b := y.span)
    (pairwise_memberSpans s.residencies personId) le_rfl h
  exact hrel (mem_memberSpans_iff.mpr ⟨y, hy, rfl⟩) (decide_eq_true hy')

theorem apartmentOf_eq_ok {spans : List MemberResidencySpan} {d : Int} {entry : Bool}
    {apartmentId : String} (h : apartmentOf spans d entry = .ok apartmentId) :
    ∃ span, (if entry then entrySpan spans d
      else spans.find? fun span => span.movedOutOn = some d) = some span ∧
        span.apartmentId = apartmentId := by
  unfold apartmentOf at h
  dsimp only at h
  split at h
  · cases h
  · rename_i span hspan
    exact ⟨span, hspan, Except.ok.inj h⟩

/-! ### The rows a move appends -/

theorem Enters.memberOf_iff {input : EnterResidencyInput} {createdAt : Int} {s s' : Store}
    (h : Enters input createdAt s s') : ∃ id, (∀ r ∈ s.residencies, r.id ≠ id) ∧
      ∀ personId y, MemberOf s' personId y ↔ MemberOf s personId y ∨
        (y = ⟨id, input.personId, input.apartmentId, input.role, input.movedInOn, none⟩ ∧
          input.personId = personId ∧ input.role = .MEMBER) := by
  obtain ⟨id, hid, hres⟩ := h.residencies
  refine ⟨id, hid, fun personId y => ?_⟩
  unfold MemberOf
  rw [hres, List.mem_append, List.mem_singleton, or_and_right]
  refine or_congr_right (and_congr_right ?_)
  rintro rfl
  rfl

/-- An ENTRY on a first day covered names a home that begins on it. -/
theorem begins_of_apartmentOf {s : Store} {personId apartmentId : String} {d : Int}
    (hd : FIRST_COUNTED_DAY ≤ d) (hheld : memberHeld s personId d = true)
    (hprev : memberHeld s personId (d - 1) = false)
    (h : apartmentOf (memberSpans s.residencies personId) d true = .ok apartmentId) :
    ∃ y, MemberOf s personId y ∧ y.movedInOn = d ∧ Holds y d ∧ apartmentId = y.apartmentId := by
  obtain ⟨span, hspan, rfl⟩ := apartmentOf_eq_ok h
  have hin := movedInOn_of_entrySpan hd hspan (exists_movedInOn hheld hprev)
  obtain ⟨hmem, hon⟩ := mem_of_entrySpan hd hspan
  obtain ⟨y, hy, rfl⟩ := mem_memberSpans_iff.mp hmem
  exact ⟨y, hy, hin, Holds.eq_span.mp hon, rfl⟩

/-- Nobody holds anything before the first day counted. -/
theorem Sound.memberHeld_of_lt {s : Store} (h : Sound s) {personId : String} {d : Int}
    (hd : d < FIRST_COUNTED_DAY) : memberHeld s personId d = false :=
  (h.counted personId).covered_of_lt hd

/-- The ENTRY rows of the first day counted name the home that begins on it. -/
theorem firstRows {s : Store} (hsound : Sound s) {personId : String} {createdAt : Int}
    {new : MemberRegisterArchiveRow → Prop}
    (hnew : ∀ row, new row → row.createdAt = createdAt ∧ row.eventType = .ENTRY ∧
      row.eventOn = FIRST_COUNTED_DAY ∧ memberHeld s personId row.eventOn = true ∧
      ∃ apartmentId, row.apartmentId = some apartmentId ∧
        apartmentOf (memberSpans s.residencies personId) row.eventOn true = .ok apartmentId) :
    FirstRows (MemberOf s personId) createdAt new where
  createdAt := fun row hrow => (hnew row hrow).1
  eventType := fun row hrow => (hnew row hrow).2.1
  home := by
    intro row hrow
    obtain ⟨-, -, hon, hheld, apartmentId, hname, hapt⟩ := hnew row hrow
    obtain ⟨y, hy, hin, hy', rfl⟩ := begins_of_apartmentOf hon.ge hheld
      (hsound.memberHeld_of_lt (by omega)) hapt
    exact ⟨y, hy, hin, hy', hname⟩
  first := by
    intro row hrow y hy
    rw [(hnew row hrow).2.2.1]
    exact (hsound.dated y hy.1).1

section MoveIn

variable {input : EnterResidencyInput} {createdAt : Int} {s s' : Store} {x : Residency}
  {rows : List MemberRegisterArchiveRow} (h : Enters input createdAt s s') (hsound : Sound s)
  (hsound' : Sound s') (hdated : FIRST_COUNTED_DAY ≤ input.movedInOn) (hrole : input.role = .MEMBER)
  (hnot : memberHeld s input.personId input.movedInOn = false)
  (hrows : AppendsOwed input.personId createdAt input.role
    (memberSpans s.residencies input.personId) (memberSpans s'.residencies input.personId) rows)

include h hsound hsound' hdated hrole hnot hrows

/-- The rows of a move-in on a day not held are ENTRY rows: on its day, on each later day the others
stop, and again on the first day counted. -/
theorem Enters.exists_owed : (∃ row ∈ rows, row.eventOn = input.movedInOn) ∧
    ∀ row ∈ rows, row.createdAt = createdAt ∧ row.eventType = .ENTRY ∧
      FIRST_COUNTED_DAY ≤ row.eventOn ∧
      (row.eventOn = input.movedInOn ∨ (input.movedInOn < row.eventOn ∧
        memberHeld s input.personId row.eventOn = false ∧
          memberHeld s input.personId (row.eventOn - 1) = true) ∨
        (row.eventOn = FIRST_COUNTED_DAY ∧ memberHeld s input.personId row.eventOn = true)) ∧
      ∃ apartmentId, row.apartmentId = some apartmentId ∧
        apartmentOf (memberSpans s'.residencies input.personId) row.eventOn true =
          .ok apartmentId := by
  obtain ⟨owed, howed, hrecs⟩ := hrows.member hrole
  have hbefore := hsound.counted input.personId
  have hafter := hsound'.counted input.personId
  have hheld : covered (memberSpans s'.residencies input.personId) = fun d =>
      covered (memberSpans s.residencies input.personId) d || decide (input.movedInOn ≤ d) := by
    funext d
    have := h.memberHeld_eq input.personId d
    simpa [hrole, memberHeld] using this
  refine ⟨?_, fun row hrow => ?_⟩
  · obtain ⟨event, hevent, hon⟩ := Registers.exists_owed hbefore hafter howed
      ((owedOn_entered hafter hdated hnot hheld).mpr ⟨rfl, .inl rfl⟩)
    obtain ⟨row, hmem, hrec⟩ := exists_recorded hrecs hevent
    exact ⟨row, hmem, hrec.eventOn.trans hon⟩
  · obtain ⟨event, hevent, hrec⟩ := exists_records hrecs hrow
    obtain ⟨v, hv, htype, hapt⟩ := (mem_owed hbefore hafter howed event).mp hevent
    have hle := le_of_owedOn hbefore hafter hv
    obtain ⟨rfl, hday⟩ := (owedOn_entered hafter hdated hnot hheld).mp hv
    rw [← hrec.eventOn] at hle hday hapt
    refine ⟨hrec.createdAt, by rw [hrec.eventType, htype]; rfl, hle, ?_, event.apartmentId,
      hrec.apartmentId, hapt⟩
    rcases hday with hon | hlater | ⟨hon, hfirst, -⟩
    · exact .inl hon
    · exact .inr (.inl hlater)
    · exact .inr (.inr ⟨hon, hfirst⟩)

/-- The rows of a move-in on a day not held, from its day on. -/
theorem Enters.entryRows
    (hmember : ∀ y, MemberOf s' input.personId y ↔ MemberOf s input.personId y ∨ y = x)
    (hx : x.movedInOn = input.movedInOn) : EntryRows (MemberOf s input.personId) x createdAt
      (fun row => row ∈ rows ∧ input.movedInOn ≤ row.eventOn) := by
  obtain ⟨⟨first, hfirst, hon⟩, howed⟩ :=
    h.exists_owed hsound hsound' hdated hrole hnot hrows
  -- nothing else is held on the day of a row
  have hday : ∀ row ∈ rows, input.movedInOn ≤ row.eventOn →
      memberHeld s input.personId row.eventOn = false ∧ (input.movedInOn < row.eventOn →
        memberHeld s input.personId (row.eventOn - 1) = true) := by
    intro row hrow hle
    obtain ⟨-, -, -, hcases, -⟩ := howed row hrow
    rcases hcases with hon | ⟨-, hnone, hprev⟩ | ⟨hon, hheld⟩
    · rw [hon]
      exact ⟨hnot, fun hlt => absurd hlt (lt_irrefl _)⟩
    · exact ⟨hnone, fun _ => hprev⟩
    · have hsame : row.eventOn = input.movedInOn := by omega
      rw [hsame, hnot] at hheld
      cases hheld
  refine ⟨fun row hrow => (howed row hrow.1).1, fun row hrow => (howed row hrow.1).2.1, ?_, ?_, ?_,
    ⟨first, ⟨hfirst, hon.ge⟩, hon.trans hx.symm⟩⟩
  · rintro row ⟨hrow, hle⟩
    obtain ⟨-, -, hcounted, -, apartmentId, hname, hapt⟩ := howed row hrow
    obtain ⟨span, hspan, rfl⟩ := apartmentOf_eq_ok hapt
    obtain ⟨hspan, hheld⟩ := mem_of_entrySpan hcounted hspan
    obtain ⟨y, hy, rfl⟩ := mem_memberSpans_iff.mp hspan
    rcases (hmember y).mp hy with hy | rfl
    · exact absurd (Holds.eq_span.mp hheld) (memberHeld_eq_false.mp (hday row hrow hle).1 y hy)
    · exact hname
  · exact fun row hrow => hx ▸ hrow.2
  · rintro row ⟨hrow, hle⟩ hlt
    obtain ⟨hnone, hprev⟩ := hday row hrow hle
    exact ⟨memberHeld_iff.mp (hprev (hx ▸ hlt)), memberHeld_eq_false.mp hnone⟩

/-- Its rows before its day say again that the first home began. -/
theorem Enters.firstRows : FirstRows (MemberOf s' input.personId) createdAt
    (fun row => row ∈ rows ∧ ¬ input.movedInOn ≤ row.eventOn) := by
  obtain ⟨-, howed⟩ := h.exists_owed hsound hsound' hdated hrole hnot hrows
  refine Moves.firstRows hsound' fun row hrow => ?_
  obtain ⟨hat, htype, -, hcases, hname⟩ := howed row hrow.1
  rcases hcases with hon | ⟨hlt, -⟩ | ⟨hon, hheld⟩
  · exact absurd hon.ge hrow.2
  · exact absurd hlt.le hrow.2
  · refine ⟨hat, htype, hon, ?_, hname⟩
    rw [h.memberHeld_eq, hheld, Bool.true_or]

end MoveIn

section MoveOut

variable {input : MoveOutInput} {createdAt : Int} {s s' : Store} {r : Residency}
  (h : MovesOut input createdAt s s' r) (hsound : Sound s)

include h hsound

theorem MovesOut.memberOf_iff (personId : String) (y : Residency) : MemberOf s' personId y ↔
    (MemberOf s personId y ∧ y.id ≠ r.id) ∨
      (y = { r with movedOutOn := some input.movedOutOn } ∧ r.personId = personId ∧
        r.role = .MEMBER) := by
  have hafter := h.exists_after hsound (P := fun r' => y = r' ∧ y.personId = personId ∧
    y.role = .MEMBER)
  have hleft : MemberOf s' personId y ↔ ∃ r' ∈ s'.residencies, y = r' ∧ y.personId = personId ∧
      y.role = .MEMBER := by
    unfold MemberOf
    constructor
    · rintro ⟨hy, hrest⟩
      exact ⟨y, hy, rfl, hrest⟩
    · rintro ⟨r', hr', rfl, hrest⟩
      exact ⟨hr', hrest⟩
  rw [hleft, hafter, h.mem.2]
  refine or_congr ?_ (and_congr_right ?_)
  · constructor
    · rintro ⟨r', hr', rfl, hrest⟩
      obtain ⟨hmem, hne⟩ := List.mem_filter.mp hr'
      exact ⟨⟨hmem, hrest⟩, of_decide_eq_true hne⟩
    · rintro ⟨⟨hmem, hrest⟩, hne⟩
      exact ⟨y, List.mem_filter.mpr ⟨hmem, decide_eq_true hne⟩, rfl, hrest⟩
  · rintro rfl
    rfl

omit hsound in
/-- A residency that ended on the day of the move began after the one moved out of. -/
theorem MovesOut.movedInOn_lt {st : Stamps} {isRow : MemberRegisterArchiveRow → Prop}
    (hpaired : Paired (MemberOf s r.personId) isRow st) (hr : MemberOf s r.personId r)
    (hlt : r.movedInOn < input.movedOutOn) {y : Residency} (hy : MemberOf s r.personId y)
    (hne : y.id ≠ r.id) (hout : y.movedOutOn = some input.movedOutOn) :
    r.movedInOn < y.movedInOn := by
  have hdiff := hpaired.distinct y r hy hr hne
  by_contra hge
  rcases hpaired.nested y r hy hr (by omega) with ⟨n, hn, hle⟩ | hall
  · obtain rfl : input.movedOutOn = n := Option.some.inj (hout.symm.trans hn)
    omega
  · obtain ⟨n, hn, -⟩ := hall _ hout
    rw [h.wasOpen] at hn
    cases hn

section Rows

variable {rows : List MemberRegisterArchiveRow} (hsound' : Sound s') (hrole : r.role = .MEMBER)
  (hlt : r.movedInOn < input.movedOutOn)
  (hnot : heldByOthers s input.residencyId r.personId input.movedOutOn = false)
  (hup : ∀ d, input.movedOutOn < d →
    heldByOthers s input.residencyId r.personId (d - 1) = true →
      heldByOthers s input.residencyId r.personId d = true)
  (hrows : AppendsOwed r.personId createdAt r.role (memberSpans s.residencies r.personId)
    (memberSpans s'.residencies r.personId) rows)

include hsound' hrole hlt hnot hup hrows

/-- The rows of a move-out on a day the others do not hold, after which they never stop: an EXIT on
its day, an ENTRY on each later day the others begin, and again on the first day counted. -/
theorem MovesOut.exists_owed : (∃ row ∈ rows, row.eventType = .EXIT) ∧
    ∀ row ∈ rows, row.createdAt = createdAt ∧ ∃ apartmentId, row.apartmentId = some apartmentId ∧
      ((row.eventType = .EXIT ∧ row.eventOn = input.movedOutOn ∧
          apartmentOf (memberSpans s'.residencies r.personId) input.movedOutOn false =
            .ok apartmentId) ∨
        (row.eventType = .ENTRY ∧ FIRST_COUNTED_DAY ≤ row.eventOn ∧
          ((input.movedOutOn < row.eventOn ∧
              heldByOthers s input.residencyId r.personId row.eventOn = true ∧
              heldByOthers s input.residencyId r.personId (row.eventOn - 1) = false) ∨
            (row.eventOn = FIRST_COUNTED_DAY ∧ memberHeld s r.personId row.eventOn = true)) ∧
          apartmentOf (memberSpans s'.residencies r.personId) row.eventOn true =
            .ok apartmentId)) := by
  obtain ⟨owed, howed, hrecs⟩ := hrows.member hrole
  have hcounted := hsound.counted r.personId
  have hcounted' := hsound'.counted r.personId
  have hbefore : covered (memberSpans s.residencies r.personId) =
      fun d => heldByOthers s input.residencyId r.personId d || decide (r.movedInOn ≤ d) := by
    funext d
    have := h.memberHeld_before hsound r.personId d
    simpa [hrole, memberHeld] using this
  have hafter : covered (memberSpans s'.residencies r.personId) =
      fun d => heldByOthers s input.residencyId r.personId d ||
        decide (r.movedInOn ≤ d ∧ d < input.movedOutOn) := by
    funext d
    have := h.memberHeld_after hsound r.personId d
    simpa [hrole, memberHeld] using this
  have howedOn := fun d v => owedOn_movedOut (d := d) (v := v) hcounted'
    (hsound.dated r h.mem.1).1 hlt hnot hup hbefore hafter
  refine ⟨?_, fun row hrow => ?_⟩
  · obtain ⟨event, hevent, hon⟩ := Registers.exists_owed hcounted hcounted' howed
      ((howedOn input.movedOutOn false).mpr (.inl ⟨rfl, rfl⟩))
    obtain ⟨row, hmem, hrec⟩ := exists_recorded hrecs hevent
    obtain ⟨v, hv, htype, -⟩ := (mem_owed hcounted hcounted' howed event).mp hevent
    refine ⟨row, hmem, ?_⟩
    rcases (howedOn event.eventOn v).mp hv with ⟨rfl, -⟩ | ⟨rfl, ⟨hlater, -⟩ | ⟨hfirst, -⟩⟩
    · rw [hrec.eventType, htype]
      rfl
    · omega
    · have := (hsound.dated r h.mem.1).1
      omega
  · obtain ⟨event, hevent, hrec⟩ := exists_records hrecs hrow
    obtain ⟨v, hv, htype, hapt⟩ := (mem_owed hcounted hcounted' howed event).mp hevent
    have hle := le_of_owedOn hcounted hcounted' hv
    have hday := (howedOn event.eventOn v).mp hv
    rw [← hrec.eventOn] at hle hday hapt
    refine ⟨hrec.createdAt, event.apartmentId, hrec.apartmentId, ?_⟩
    rcases hday with ⟨rfl, hon⟩ | ⟨rfl, hday⟩
    · exact .inl ⟨by rw [hrec.eventType, htype]; rfl, hon, hon ▸ hapt⟩
    · refine .inr ⟨by rw [hrec.eventType, htype]; rfl, hle, ?_, hapt⟩
      exact hday.imp_right fun hfirst => ⟨hfirst.1, hfirst.2.1⟩

omit hsound' hlt hnot hup hrows in
/-- The EXIT names the residency closed. -/
theorem MovesOut.exit_names {st : Stamps} {isRow : MemberRegisterArchiveRow → Prop}
    (hpaired : Paired (MemberOf s r.personId) isRow st) (hlt : r.movedInOn < input.movedOutOn)
    {apartmentId : String} (hapt : apartmentOf (memberSpans s'.residencies r.personId)
      input.movedOutOn false = .ok apartmentId) : apartmentId = r.apartmentId := by
  have hmember := h.memberOf_iff hsound r.personId
  have hr : MemberOf s r.personId r := ⟨h.mem.1, rfl, hrole⟩
  obtain ⟨span, hspan, rfl⟩ := apartmentOf_eq_ok hapt
  obtain ⟨y, hy, rfl, hout, hfirst⟩ := exists_of_exitSpan hspan
  rcases (hmember y).mp hy with ⟨hy, hne⟩ | ⟨rfl, -⟩
  · have hle := hfirst _ ((hmember _).mpr (.inr ⟨rfl, rfl, hrole⟩)) rfl
    exact absurd (h.movedInOn_lt hpaired hr hlt hy hne hout) hle.not_gt
  · rfl

omit hsound' hrole hlt hnot hup hrows in
/-- An ENTRY after the day names a residency of the others that begins on its own. -/
theorem MovesOut.entry_names {d : Int} (hcounted : FIRST_COUNTED_DAY ≤ d) (hd : input.movedOutOn < d)
    (hheld : heldByOthers s input.residencyId r.personId d = true)
    (hprev : heldByOthers s input.residencyId r.personId (d - 1) = false) {apartmentId : String}
    (hapt : apartmentOf (memberSpans s'.residencies r.personId) d true = .ok apartmentId) :
    ∃ z, MemberOf s r.personId z ∧ z.id ≠ r.id ∧ z.movedInOn = d ∧ Holds z d ∧
      apartmentId = z.apartmentId := by
  have hheld' : memberHeld s' r.personId d = true := by
    rw [h.memberHeld_after hsound, hheld, Bool.true_or]
  have hprev' : memberHeld s' r.personId (d - 1) = false := by
    have hover : ¬ d - 1 < input.movedOutOn := by omega
    rw [h.memberHeld_after hsound, hprev]
    simp [hover]
  obtain ⟨z, hz, hin, hon, rfl⟩ := begins_of_apartmentOf hcounted hheld' hprev' hapt
  rcases (h.memberOf_iff hsound r.personId z).mp hz with ⟨hz, hne⟩ | ⟨rfl, -⟩
  · exact ⟨z, hz, hne, hin, hon, rfl⟩
  · have hin : r.movedInOn = d := hin
    have hle := h.movedInOn_le
    omega

/-- The rows of the move-out from its day on. -/
theorem MovesOut.exitRows {st : Stamps} {isRow : MemberRegisterArchiveRow → Prop}
    (hpaired : Paired (MemberOf s r.personId) isRow st) :
    ExitRows (MemberOf s r.personId) r input.movedOutOn createdAt
      (fun row => row ∈ rows ∧ input.movedOutOn ≤ row.eventOn) := by
  obtain ⟨⟨exit, hexit, hexitType⟩, howed⟩ :=
    h.exists_owed hsound hsound' hrole hlt hnot hup hrows
  refine ⟨fun row hrow => (howed row hrow.1).1, ?_, ?_, ?_, ⟨exit, ⟨hexit, ?_⟩, hexitType⟩⟩
  · rintro row ⟨hrow, -⟩
    obtain ⟨-, -, -, ⟨htype, -⟩ | ⟨htype, -⟩⟩ := howed row hrow
    · exact .inr htype
    · exact .inl htype
  · rintro row ⟨hrow, -⟩ htype
    obtain ⟨-, apartmentId, hname, ⟨-, hon, hapt⟩ | ⟨hentry, -⟩⟩ := howed row hrow
    · exact ⟨hon, hname.trans (congrArg some (h.exit_names hsound hrole hpaired hlt hapt))⟩
    · rw [hentry] at htype
      cases htype
  · rintro row ⟨hrow, hle⟩ htype
    obtain ⟨-, apartmentId, hname, ⟨hexit, -⟩ | ⟨-, hcounted, hday, hapt⟩⟩ := howed row hrow
    · rw [hexit] at htype
      cases htype
    · rcases hday with ⟨hlater, hheld, hprev⟩ | ⟨hfirst, -⟩
      · obtain ⟨z, hz, hne, hin, hon, rfl⟩ :=
          h.entry_names hsound hcounted hlater hheld hprev hapt
        exact ⟨hlater, z, hz, hne, hin, hon, hname⟩
      · have := (hsound.dated r h.mem.1).1
        omega
  · obtain ⟨-, -, -, ⟨-, hon, -⟩ | ⟨hentry, -⟩⟩ := howed exit hexit
    · exact hon.ge
    · rw [hentry] at hexitType
      cases hexitType

/-- Its rows before its day say again that the first home began. -/
theorem MovesOut.firstRows : FirstRows (MemberOf s' r.personId) createdAt
    (fun row => row ∈ rows ∧ ¬ input.movedOutOn ≤ row.eventOn) := by
  obtain ⟨-, howed⟩ := h.exists_owed hsound hsound' hrole hlt hnot hup hrows
  refine Moves.firstRows hsound' fun row hrow => ?_
  obtain ⟨hat, apartmentId, hname, ⟨-, hon, -⟩ | ⟨htype, -, hday, hapt⟩⟩ := howed row hrow.1
  · exact absurd hon.ge hrow.2
  · rcases hday with ⟨hlater, -⟩ | ⟨hfirst, hheld⟩
    · exact absurd hlater.le hrow.2
    · refine ⟨hat, htype, hfirst, ?_, apartmentId, hname, hapt⟩
      -- the day is over before the move, so what is held on it stays
      have hday : row.eventOn < input.movedOutOn := not_le.mp hrow.2
      rw [h.memberHeld_before hsound] at hheld
      rw [h.memberHeld_after hsound]
      simpa [hday] using hheld

end Rows

end MoveOut

/-! ### Every run -/

/-- Everybody's residencies as a member and their rows are paired. -/
def HoldingsPaired (s : Store) : Prop :=
  ∀ personId, ∃ st, Paired (MemberOf s personId) (RowOf s personId) st

/-- **The moves that keep rows paired.**  A member moves in on a day they hold nothing else, and
out after the day they moved in, on a day they hold nothing else and after which nothing else they
hold ends. -/
def Move.PairsUp (s : Store) : Move → Prop
  | .enter input => input.role = .MEMBER → memberHeld s input.personId input.movedInOn = false
  | .moveIn input => input.role = .MEMBER → memberHeld s input.personId input.movedInOn = false
  | .out input => ∀ r ∈ findResidency s.residencies input.residencyId, r.role = .MEMBER →
      r.movedInOn < input.movedOutOn ∧
        heldByOthers s input.residencyId r.personId input.movedOutOn = false ∧
          ∀ d, input.movedOutOn < d →
            heldByOthers s input.residencyId r.personId (d - 1) = true →
              heldByOthers s input.residencyId r.personId d = true

/-- Rows appended about one person, those that meet a condition first. -/
theorem rowOf_append {s s' : Store} {rows : List MemberRegisterArchiveRow} {personId : String}
    (hentries : s'.memberRegisterEntries = s.memberRegisterEntries ++ rows)
    (hrows : ∀ row ∈ rows, row.personId = personId) (P : MemberRegisterArchiveRow → Prop) :
    RowOf s' personId =
      fun row => (RowOf s personId row ∨ (row ∈ rows ∧ P row)) ∨ (row ∈ rows ∧ ¬ P row) := by
  funext row
  unfold RowOf
  rw [hentries, List.mem_append, or_and_right, eq_iff_iff, or_assoc, ← and_or_left]
  exact or_congr_right ((and_iff_left_of_imp (hrows row)).trans (by simp [em]))

theorem rowOf_append_other {s s' : Store} {rows : List MemberRegisterArchiveRow}
    {personId : String} (hentries : s'.memberRegisterEntries = s.memberRegisterEntries ++ rows)
    (hrows : ∀ row ∈ rows, row.personId ≠ personId) : RowOf s' personId = RowOf s personId := by
  funext row
  unfold RowOf
  rw [hentries, List.mem_append, or_and_right, eq_iff_iff, or_iff_left]
  rintro ⟨hrow, hp⟩
  exact hrows row hrow hp

theorem AppendsOwed.personId {personId : String} {createdAt : Int} {role : ResidencyRole}
    {before after : List MemberResidencySpan} {rows : List MemberRegisterArchiveRow}
    (h : AppendsOwed personId createdAt role before after rows) (hrole : role = .MEMBER) :
    ∀ row ∈ rows, row.personId = personId := by
  obtain ⟨owed, -, hrecs⟩ := h.member hrole
  intro row hrow
  obtain ⟨event, -, hrec⟩ := exists_records hrecs hrow
  exact hrec.personId

theorem Enters.holdingsPaired {input : EnterResidencyInput} {createdAt : Int} {s s' : Store}
    (h : Enters input createdAt s s') (hsound : Sound s)
    (hdated : FIRST_COUNTED_DAY ≤ input.movedInOn)
    (hstamp : ∀ e ∈ s.memberRegisterEntries, e.createdAt < createdAt)
    (hnot : input.role = .MEMBER → memberHeld s input.personId input.movedInOn = false)
    (hpaired : HoldingsPaired s) : HoldingsPaired s' := by
  intro personId
  obtain ⟨st, hp⟩ := hpaired personId
  obtain ⟨id, hid, hmember⟩ := h.memberOf_iff
  obtain ⟨rows, hentries, hrows⟩ := h.entries
  by_cases hmover : input.personId = personId ∧ input.role = .MEMBER
  · obtain ⟨rfl, hrole⟩ := hmover
    have hmember' : MemberOf s' input.personId = fun y => MemberOf s input.personId y ∨
        y = ⟨id, input.personId, input.apartmentId, input.role, input.movedInOn, none⟩ := by
      funext y
      rw [hmember, eq_iff_iff]
      simp [hrole]
    have hsound' := h.sound hsound hdated hstamp
    have hentry := h.entryRows hsound hsound' hdated hrole (hnot hrole) hrows
      (x := ⟨id, input.personId, input.apartmentId, input.role, input.movedInOn, none⟩)
      (fun y => by rw [hmember']) rfl
    have hfirst := h.firstRows hsound hsound' hdated hrole (hnot hrole) hrows
    rw [hmember'] at hfirst
    rw [hmember', rowOf_append hentries (hrows.personId hrole) fun row =>
      input.movedInOn ≤ row.eventOn]
    have hpaired' := hp.enter hentry rfl (fun y hy => hid y hy.1) ?_
      (memberHeld_eq_false.mp (hnot hrole)) fun row hrow => hstamp row hrow.1
    · refine ⟨st.open id createdAt, hpaired'.again hfirst ?_⟩
      rintro row (hrow | hrow)
      · exact (hstamp row hrow.1).le
      · exact (hentry.createdAt row hrow).le
    · intro y hy hapt
      have hfree := h.notResident y hy.1
      by_contra hnone
      push Not at hnone
      have hresident : isAlreadyResident input.personId input.apartmentId input.movedInOn y = true := by
        simpa [isAlreadyResident, hy.2.1, hapt, Option.all_eq_true] using hnone
      rw [hfree] at hresident
      cases hresident
  · have hne : input.personId ≠ personId ∨ input.role ≠ .MEMBER := by
      rwa [not_and_or] at hmover
    have hmember' : MemberOf s' personId = MemberOf s personId := by
      funext y
      rw [hmember, eq_iff_iff, or_iff_left]
      exact fun hy => hmover hy.2
    rw [hmember', rowOf_append_other hentries fun row hrow => hrows.about hrow hne]
    exact ⟨st, hp⟩

theorem MovesOut.holdingsPaired {input : MoveOutInput} {createdAt : Int} {s s' : Store}
    {r : Residency} (h : MovesOut input createdAt s s' r) (hsound : Sound s)
    (hstamp : ∀ e ∈ s.memberRegisterEntries, e.createdAt < createdAt)
    (hcond : (Move.out input).PairsUp s) (hpaired : HoldingsPaired s) : HoldingsPaired s' := by
  intro personId
  obtain ⟨st, hp⟩ := hpaired personId
  obtain ⟨rows, hentries, hrows⟩ := h.entries
  by_cases hmover : r.personId = personId ∧ r.role = .MEMBER
  · obtain ⟨rfl, hrole⟩ := hmover
    obtain ⟨hlt, hnot, hup⟩ := hcond r h.found hrole
    have hr : MemberOf s r.personId r := ⟨h.mem.1, rfl, hrole⟩
    have hmember : MemberOf s' r.personId = fun y => (MemberOf s r.personId y ∧ y.id ≠ r.id) ∨
        y = { r with movedOutOn := some input.movedOutOn } := by
      funext y
      rw [h.memberOf_iff hsound, eq_iff_iff]
      simp [hrole]
    have hids : ∀ y z, MemberOf s r.personId y → MemberOf s r.personId z → y.id = z.id → y = z :=
      fun y z hy hz => List.inj_on_of_nodup_map hsound.ids hy.1 hz.1
    have hsound' := h.sound hsound hstamp
    have hexit := h.exitRows hsound hsound' hrole hlt hnot hup hrows hp
    have hfirst := h.firstRows hsound hsound' hrole hlt hnot hup hrows
    rw [hmember] at hfirst
    rw [hmember, rowOf_append hentries (hrows.personId hrole) fun row =>
      input.movedOutOn ≤ row.eventOn]
    have hpaired' := hp.moveOut hr h.wasOpen hids ?_ hexit hlt ?_ fun row hrow => hstamp row hrow.1
    · refine ⟨st.close r.id createdAt, hpaired'.again hfirst ?_⟩
      rintro row (hrow | hrow)
      · exact (hstamp row hrow.1).le
      · exact (hexit.createdAt row hrow).le
    · intro y hy hne hheld
      rw [← Bool.not_eq_true, heldByOthers_iff] at hnot
      exact hnot ⟨y, hy, h.mem.2 ▸ hne, hheld⟩
    · intro d hd hprev
      have := hup d hd
      rw [heldByOthers_iff, heldByOthers_iff, ← h.mem.2] at this
      exact this hprev
  · have hne : r.personId ≠ personId ∨ r.role ≠ .MEMBER := by
      rwa [not_and_or] at hmover
    have hmember : MemberOf s' personId = MemberOf s personId := by
      funext y
      rw [h.memberOf_iff hsound, eq_iff_iff]
      constructor
      · rintro (⟨hy, -⟩ | ⟨-, hy⟩)
        · exact hy
        · exact absurd hy hmover
      · intro hy
        refine .inl ⟨hy, fun hid => hmover ?_⟩
        obtain rfl := h.eq_of_id hsound hy.1 (hid.trans h.mem.2)
        exact hy.2
    rw [hmember, rowOf_append_other hentries fun row hrow => hrows.about hrow hne]
    exact ⟨st, hp⟩

/-- **One move.**  A recorded move that pairs up keeps everybody's rows paired. -/
theorem Recording.holdingsPaired {m : Recording} {s : Store} (hsound : Sound s)
    (hstamp : ∀ e ∈ s.memberRegisterEntries, e.createdAt < m.time) (hpaired : HoldingsPaired s)
    (hcond : m.IsRecorded s → m.move.PairsUp s) :
    Sound (m.after s) ∧ HoldingsPaired (m.after s) := by
  by_cases hrec : m.IsRecorded s
  · have hcond := hcond hrec
    have henter : ∀ input, m.move.entering = some input →
        (input.role = .MEMBER → memberHeld s input.personId input.movedInOn = false) →
        Sound (m.after s) ∧ HoldingsPaired (m.after s) := by
      intro input hm hnot
      have h := Recording.enters hm hrec
      have hdated := Recording.dated_entering hm
      exact ⟨h.sound hsound hdated hstamp, h.holdingsPaired hsound hdated hstamp hnot hpaired⟩
    cases hm : m.move with
    | enter input =>
      rw [hm] at hcond
      exact henter input (by rw [hm]; rfl) hcond
    | moveIn input =>
      rw [hm] at hcond
      exact henter input.entering (by rw [hm]; rfl) hcond
    | out input =>
      rw [hm] at hcond
      obtain ⟨r, h⟩ := Recording.movesOut hm hrec
      exact ⟨h.sound hsound hstamp, h.holdingsPaired hsound hstamp hcond hpaired⟩
  · rw [Recording.after_of_refused hrec]
    exact ⟨hsound, hpaired⟩

theorem NothingRecorded.holdingsPaired {s : Store} (h : NothingRecorded s) : HoldingsPaired s := by
  intro personId
  have hmember : MemberOf s personId = fun _ => False := by
    funext y
    simp [MemberOf, h.residencies]
  have hrow : RowOf s personId = fun _ => False := by
    funext row
    simp [RowOf, h.entries]
  rw [hmember, hrow]
  exact ⟨⟨fun _ => 0, fun _ => 0⟩, Paired.nil _⟩

/-- **Every run.**  Along recorded moves that pair up everybody's rows stay paired. -/
theorem trace_paired {s : Store} (hs : NothingRecorded s) (ms : List Recording)
    (hstamps : ∀ t ∈ trace s ms, ∀ e ∈ t.1.memberRegisterEntries, e.createdAt < t.2.time)
    (hpairs : ∀ t ∈ trace s ms, t.2.IsRecorded t.1 → t.2.move.PairsUp t.1) :
    ∀ t ∈ trace s ms, Sound (t.2.after t.1) ∧ HoldingsPaired (t.2.after t.1) := by
  have hkeeps := trace_keeps (P := fun s => Sound s ∧ HoldingsPaired s) ms s
    ⟨hs.sound, hs.holdingsPaired⟩ fun t ht hp =>
      Recording.holdingsPaired hp.1 (hstamps t ht) hp.2 (hpairs t ht)
  exact fun t ht => (hkeeps t ht).2

end OpenBrf.Moves
