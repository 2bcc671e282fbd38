import Mathlib.Data.List.Dedup
import OpenBrf.Timeline.Sweep
import OpenBrf.Registers.MembershipTransitions

/-!
# Registers.OwedRows — the rows `owedMembershipEvents` owes

The loop is a sweep of the days on which a residency begins or ends, so a row is owed on a day
exactly when what is held differs from what the register reads there.
-/

namespace OpenBrf.Registers

open Timeline Shared

/-! ### Days held -/

/-- Whether a residency covers a day of the calendar. -/
def MemberResidencySpan.covers (span : MemberResidencySpan) (day : Int) : Bool :=
  span.movedInOn ≤ day && span.movedOutOn.all (day < ·)

/-- Whether any residency covers a day of the calendar. -/
def covered (spans : List MemberResidencySpan) (day : Int) : Bool :=
  spans.any fun span => span.covers day

theorem MemberResidencySpan.covers_iff {span : MemberResidencySpan} {d : Int} :
    span.covers d = true ↔ span.movedInOn ≤ d ∧ ∀ m ∈ span.movedOutOn, d < m := by
  unfold covers
  cases span.movedOutOn <;> simp

/-- From the year 100 on, the days held are days of the calendar. -/
theorem MemberResidencySpan.isHeldOn_eq {span : MemberResidencySpan} {d : Int}
    (h : FIRST_COUNTED_DAY ≤ d) : span.isHeldOn d = span.covers d := by
  unfold isHeldOn isResidencyHeldOn covers
  rw [dateUTC_of_counted h]

theorem heldOn_eq {spans : List MemberResidencySpan} {d : Int} (h : FIRST_COUNTED_DAY ≤ d) :
    heldOn spans d = covered spans d := by
  unfold heldOn covered
  simp only [MemberResidencySpan.isHeldOn_eq h]

theorem dayBefore_eq {d : Int} (h : FIRST_COUNTED_DAY < d) : dayBefore d = d - 1 := by
  unfold dayBefore
  rw [dateUTC_of_counted h.le, dateUTC_of_counted (by omega)]

/-- The day read before the first of January of the year 100: the last of 1999. -/
theorem dayBefore_first : dayBefore FIRST_COUNTED_DAY = 10956 := by decide +kernel

theorem covered_iff {spans : List MemberResidencySpan} {d : Int} :
    covered spans d = true ↔ ∃ span ∈ spans, span.covers d = true := by
  simp [covered]

theorem covered_eq_false {spans : List MemberResidencySpan} {d : Int} :
    covered spans d = false ↔ ∀ span ∈ spans, span.covers d = false := by
  simp [covered]

theorem MemberResidencySpan.mem_days {span : MemberResidencySpan} {d : Int} :
    d ∈ span.days ↔ d = span.movedInOn ∨ span.movedOutOn = some d := by
  cases h : span.movedOutOn <;> simp [MemberResidencySpan.days, h, eq_comm]

theorem MemberResidencySpan.covers_pred {span : MemberResidencySpan} {d : Int}
    (hd : d ∉ span.days) : span.covers d = span.covers (d - 1) := by
  rw [mem_days, not_or] at hd
  rw [Bool.eq_iff_iff, covers_iff, covers_iff]
  constructor
  · rintro ⟨hin, hout⟩
    exact ⟨by omega, fun m hm => by have := hout m hm; omega⟩
  · rintro ⟨hin, hout⟩
    refine ⟨by omega, fun m hm => ?_⟩
    have h1 := hout m hm
    have h2 : m ≠ d := fun h => hd.2 (h ▸ hm)
    omega

/-- What is held changes only on a day a residency begins or ends. -/
theorem covered_pred {spans : List MemberResidencySpan} {d : Int}
    (hd : d ∉ spans.flatMap MemberResidencySpan.days) : covered spans d = covered spans (d - 1) := by
  have h : ∀ span ∈ spans, span.covers d = span.covers (d - 1) := fun span hs =>
    span.covers_pred fun hmem => hd (List.mem_flatMap.mpr ⟨span, hs, hmem⟩)
  rw [Bool.eq_iff_iff, covered_iff, covered_iff]
  constructor
  · rintro ⟨span, hs, hh⟩
    exact ⟨span, hs, h span hs ▸ hh⟩
  · rintro ⟨span, hs, hh⟩
    exact ⟨span, hs, (h span hs).symm ▸ hh⟩

theorem covered_of_lt {spans : List MemberResidencySpan} {d : Int}
    (h : ∀ e ∈ spans.flatMap MemberResidencySpan.days, d < e) : covered spans d = false := by
  rw [covered_eq_false]
  intro span hs
  rw [← Bool.not_eq_true, MemberResidencySpan.covers_iff]
  rintro ⟨hin, -⟩
  have := h span.movedInOn
    (List.mem_flatMap.mpr ⟨span, hs, MemberResidencySpan.mem_days.mpr (.inl rfl)⟩)
  omega

/-- A first day held: some residency begins on it. -/
theorem exists_movedInOn {spans : List MemberResidencySpan} {d : Int} (hd : covered spans d = true)
    (hprev : covered spans (d - 1) = false) :
    ∃ span ∈ spans, span.movedInOn = d ∧ span.covers d = true := by
  obtain ⟨span, hs, hh⟩ := covered_iff.mp hd
  refine ⟨span, hs, ?_, hh⟩
  have hn := covered_eq_false.mp hprev span hs
  rw [← Bool.not_eq_true, MemberResidencySpan.covers_iff] at hn
  obtain ⟨h1, h2⟩ := MemberResidencySpan.covers_iff.mp hh
  by_contra hne
  exact hn ⟨by omega, fun m hm => by have := h2 m hm; omega⟩

/-- A first day no longer held: some residency ended on it. -/
theorem exists_movedOutOn {spans : List MemberResidencySpan} {d : Int}
    (hd : covered spans d = false) (hprev : covered spans (d - 1) = true) :
    ∃ span ∈ spans, span.movedOutOn = some d := by
  obtain ⟨span, hs, hh⟩ := covered_iff.mp hprev
  refine ⟨span, hs, ?_⟩
  have hn := covered_eq_false.mp hd span hs
  rw [← Bool.not_eq_true, MemberResidencySpan.covers_iff] at hn
  obtain ⟨h1, h2⟩ := MemberResidencySpan.covers_iff.mp hh
  cases hm : span.movedOutOn with
  | none => exact absurd ⟨by omega, by simp [hm]⟩ hn
  | some m =>
    have := h2 m hm
    by_contra hne
    refine hn ⟨by omega, fun m' hm' => ?_⟩
    rw [hm, Option.mem_some_iff] at hm'
    subst hm'
    have : m ≠ d := fun h => hne (by rw [h])
    omega

/-! ### The loop as a sweep -/

theorem mem_sortedDays {times : List Int} {d : Int} : d ∈ sortedDays times ↔ d ∈ times := by
  simp [sortedDays]

/-- Distinct days in ascending order. -/
theorem pairwise_lt_insertionSort {times : List Int} (h : times.Nodup) :
    (times.insertionSort (· ≤ ·)).Pairwise (· < ·) := by
  have hle : (times.insertionSort (· ≤ ·)).Pairwise (· ≤ ·) := List.pairwise_insertionSort _ _
  have hne : (times.insertionSort (· ≤ ·)).Nodup :=
    (List.perm_insertionSort _ _).nodup_iff.mpr h
  exact (hle.and hne).imp fun h => lt_of_le_of_ne h.1 h.2

theorem pairwise_sortedDays (times : List Int) : (sortedDays times).Pairwise (· < ·) :=
  pairwise_lt_insertionSort (List.nodup_dedup _)

/-- The row a day is owed, with the apartment it names. -/
def owedRow (after : List MemberResidencySpan) (row : Int × Bool) :
    Except String OwedMembershipEvent := do
  let apartmentId ← apartmentOf after row.1 row.2
  return ⟨eventTypeOf row.2, row.1, apartmentId⟩

/-- The register's own row for a day: its membership begins or ends there when the day read before
it read differently. -/
def registeredOn (before : List MemberResidencySpan) (day : Int) : Option Bool :=
  if heldOn before day ≠ heldOn before (dayBefore day) then some (heldOn before day) else none

theorem owedFrom_eq (before after : List MemberResidencySpan) :
    ∀ (days : List Int) (registered : Bool), owedFrom before after registered days =
      (sweep (registeredOn before) (heldOn after) registered days).mapM (owedRow after)
  | [], _ => rfl
  | day :: days, registered => by
    have hbase : (registeredOn before day).getD registered =
        if heldOn before day ≠ heldOn before (dayBefore day) then heldOn before day
        else registered := by
      unfold registeredOn
      split_ifs <;> rfl
    unfold owedFrom sweep
    rw [hbase]
    dsimp only
    split_ifs with h h' h'
    · rw [owedFrom_eq before after days, h']
    · simp only [List.mapM_cons, owedFrom_eq before after days, owedRow, bind_assoc, pure_bind]
    · rw [owedFrom_eq before after days, h']
    · simp only [List.mapM_cons, owedFrom_eq before after days, owedRow, bind_assoc, pure_bind]

/-! ### The rows owed -/

/-- A `mapM` that succeeds holds the result of each element. -/
theorem mem_of_mapM_ok {α β ε : Type} {f : α → Except ε β} :
    ∀ {xs : List α} {ys : List β}, xs.mapM f = .ok ys → ∀ y, y ∈ ys ↔ ∃ x ∈ xs, f x = .ok y
  | [], ys, h, y => by
    obtain rfl : [] = ys := Except.ok.inj h
    simp
  | x :: xs, ys, h, y => by
    rw [List.mapM_cons] at h
    cases hx : f x with
    | error e => rw [hx] at h; cases h
    | ok b =>
      cases hxs : xs.mapM f with
      | error e => rw [hx, hxs] at h; cases h
      | ok bs =>
        rw [hx, hxs] at h
        obtain rfl : b :: bs = ys := Except.ok.inj h
        rw [List.mem_cons, mem_of_mapM_ok hxs y]
        simp [hx, eq_comm]

theorem ok_of_mapM_ok {α β ε : Type} {f : α → Except ε β} :
    ∀ {xs : List α} {ys : List β}, xs.mapM f = .ok ys → ∀ x ∈ xs, ∃ y, f x = .ok y
  | x :: xs, ys, h, x', hx' => by
    rw [List.mapM_cons] at h
    cases hx : f x with
    | error e => rw [hx] at h; cases h
    | ok b =>
      cases hxs : xs.mapM f with
      | error e => rw [hx, hxs] at h; cases h
      | ok bs =>
        rcases List.mem_cons.mp hx' with rfl | hx'
        · exact ⟨b, hx⟩
        · exact ok_of_mapM_ok hxs x' hx'

theorem mapM_ok {α β ε : Type} {f : α → Except ε β} :
    ∀ {xs : List α}, (∀ x ∈ xs, ∃ y, f x = .ok y) → ∃ ys, xs.mapM f = .ok ys
  | [], _ => ⟨[], rfl⟩
  | x :: xs, h => by
    obtain ⟨y, hy⟩ := h x (by simp)
    obtain ⟨ys, hys⟩ := mapM_ok fun x' hx' => h x' (List.mem_cons_of_mem x hx')
    exact ⟨y :: ys, by rw [List.mapM_cons, hy, hys]; rfl⟩

/-- Residencies that begin and end from the year 100 on. -/
def CountedDays (spans : List MemberResidencySpan) : Prop :=
  ∀ d ∈ spans.flatMap MemberResidencySpan.days, FIRST_COUNTED_DAY ≤ d

theorem CountedDays.covered_of_lt {spans : List MemberResidencySpan} (h : CountedDays spans) {d : Int}
    (hd : d < FIRST_COUNTED_DAY) : covered spans d = false :=
  Registers.covered_of_lt fun e he => hd.trans_le (h e he)

/-- The register's own rows by the days of the calendar, but for the first day counted: the day
read before it is the last of 1999. -/
def registeredRow (before : List MemberResidencySpan) (d : Int) : Option Bool :=
  if d = FIRST_COUNTED_DAY then registeredOn before d else changes (covered before) d

theorem registeredOn_eq {before : List MemberResidencySpan} {d : Int} (h : FIRST_COUNTED_DAY ≤ d) :
    registeredOn before d = registeredRow before d := by
  unfold registeredRow
  split_ifs with hfirst
  · rfl
  · have hlt : FIRST_COUNTED_DAY < d := lt_of_le_of_ne h (Ne.symm hfirst)
    unfold registeredOn changes
    rw [dayBefore_eq hlt, heldOn_eq h, heldOn_eq (show FIRST_COUNTED_DAY ≤ d - 1 by omega)]
    by_cases hsame : covered before d = covered before (d - 1) <;> simp [hsame]

/-- On the first day counted a row of the register stands unless the last day of 1999 reads the
same. -/
theorem registeredRow_first (before : List MemberResidencySpan) :
    registeredRow before FIRST_COUNTED_DAY =
      if covered before FIRST_COUNTED_DAY = covered before (dayBefore FIRST_COUNTED_DAY) then none
      else some (covered before FIRST_COUNTED_DAY) := by
  have hlater : FIRST_COUNTED_DAY ≤ dayBefore FIRST_COUNTED_DAY := by
    rw [dayBefore_first]
    decide
  unfold registeredRow registeredOn
  rw [if_pos rfl, heldOn_eq le_rfl, heldOn_eq hlater]
  split_ifs <;> simp_all

theorem registeredRow_eq_some {before : List MemberResidencySpan} {d : Int} {v : Bool}
    (h : registeredRow before d = some v) : covered before d = v := by
  by_cases hfirst : d = FIRST_COUNTED_DAY
  · subst hfirst
    rw [registeredRow_first] at h
    split_ifs at h
    exact Option.some.inj h
  · unfold registeredRow changes at h
    rw [if_neg hfirst] at h
    split_ifs at h
    exact Option.some.inj h

/-- A row of the register that says a membership begins stands on a day the one before is not
covered. -/
theorem CountedDays.not_covered_before {before : List MemberResidencySpan} (h : CountedDays before) {d : Int}
    (hrow : registeredRow before d = some true) : covered before (d - 1) = false := by
  by_cases hfirst : d = FIRST_COUNTED_DAY
  · exact h.covered_of_lt (by omega)
  · have hd := registeredRow_eq_some hrow
    unfold registeredRow changes at hrow
    rw [if_neg hfirst] at hrow
    split_ifs at hrow with hsame
    rw [hd] at hsame
    simpa using Ne.symm hsame

/-- The row the register is owed on a day: none where what it reads there is what is covered. -/
abbrev owedOn (before after : List MemberResidencySpan) : Int → Option Bool :=
  rowOn (registeredRow before) (covered after)

/-- No row is owed before the first day counted. -/
theorem le_of_owedOn {before after : List MemberResidencySpan} (hbefore : CountedDays before)
    (hafter : CountedDays after) {d : Int} {v : Bool} (h : owedOn before after d = some v) :
    FIRST_COUNTED_DAY ≤ d := by
  by_contra hlt
  unfold owedOn rowOn registeredRow changes at h
  rw [if_neg (show d ≠ FIRST_COUNTED_DAY by omega), hbefore.covered_of_lt (d := d) (by omega),
    hbefore.covered_of_lt (d := d - 1) (by omega), hafter.covered_of_lt (d := d) (by omega),
    hafter.covered_of_lt (d := d - 1) (by omega)] at h
  simp at h

/-- The sweep of `owedMembershipEvents` leaves a row on each day one is owed, and on no other. -/
theorem mem_owedSweep {before after : List MemberResidencySpan} (hbefore : CountedDays before)
    (hafter : CountedDays after) (d : Int) (v : Bool) :
    (d, v) ∈ sweep (registeredOn before) (heldOn after) false
        (sortedDays ((before ++ after).flatMap MemberResidencySpan.days)) ↔
      owedOn before after d = some v := by
  set days := sortedDays ((before ++ after).flatMap MemberResidencySpan.days) with hdays
  have hmem : ∀ e, e ∈ days ↔ e ∈ before.flatMap MemberResidencySpan.days ∨
      e ∈ after.flatMap MemberResidencySpan.days := by
    intro e
    rw [hdays, mem_sortedDays, List.flatMap_append, List.mem_append]
  have hcounted : ∀ e ∈ days, FIRST_COUNTED_DAY ≤ e := fun e he =>
    ((hmem e).mp he).elim (hbefore e) (hafter e)
  rw [sweep_congr (fun e he => registeredOn_eq (hcounted e he)) fun e he => heldOn_eq (hcounted e he)]
  have hconst : ∀ e, e ∉ days → covered after e = covered after (e - 1) := fun e he =>
    covered_pred fun hmem' => he ((hmem e).mpr (.inr hmem'))
  obtain ⟨lo, hlo⟩ := exists_before_all days
  rw [mem_sweep days lo false (pairwise_sortedDays _) hlo (fun e _ he => hconst e he) ?_]
  · unfold owedOn rowOn
    constructor
    · rintro ⟨-, rfl, hne⟩
      rw [if_neg hne]
    · intro h
      split_ifs at h with heq
      refine ⟨?_, (Option.some.inj h).symm, heq⟩
      -- off the listed days neither reading changes, so no row is owed
      by_contra hd
      refine heq ?_
      cases hrow : registeredRow before d with
      | none => exact hconst d hd
      | some u =>
        have hb : covered before d = covered before (d - 1) :=
          covered_pred fun hmem' => hd ((hmem d).mpr (.inl hmem'))
        have hfirst : d = FIRST_COUNTED_DAY := by
          by_contra hne
          unfold registeredRow changes at hrow
          rw [if_neg hne, if_pos hb] at hrow
          cases hrow
        rw [Option.getD_some, ← registeredRow_eq_some hrow, hb, hconst d hd,
          hbefore.covered_of_lt (by omega), hafter.covered_of_lt (by omega)]
  · rw [covered_of_lt fun e he => ?_]
    have := hlo e ((hmem e).mpr (.inr he))
    omega

/-- **What a change owes.**  A row on each day what is held differs from what the register reads,
of the type that makes it read so, naming the apartment the search finds. -/
theorem mem_owed {before after : List MemberResidencySpan} {owed : List OwedMembershipEvent}
    (hbefore : CountedDays before) (hafter : CountedDays after)
    (h : owedMembershipEvents before after = .ok owed) (e : OwedMembershipEvent) :
    e ∈ owed ↔ ∃ v, owedOn before after e.eventOn = some v ∧ e.eventType = eventTypeOf v ∧
      apartmentOf after e.eventOn v = .ok e.apartmentId := by
  unfold owedMembershipEvents at h
  rw [owedFrom_eq] at h
  rw [mem_of_mapM_ok h]
  constructor
  · rintro ⟨⟨d, v⟩, hmem, hrow⟩
    unfold owedRow at hrow
    cases hapt : apartmentOf after d v with
    | error message => rw [hapt] at hrow; cases hrow
    | ok apartmentId =>
      rw [hapt] at hrow
      obtain rfl := Except.ok.inj hrow
      exact ⟨v, (mem_owedSweep hbefore hafter d v).mp hmem, rfl, hapt⟩
  · rintro ⟨v, hv, htype, hapt⟩
    refine ⟨(e.eventOn, v), (mem_owedSweep hbefore hafter _ v).mpr hv, ?_⟩
    unfold owedRow
    rw [hapt, ← htype]
    rfl

/-- Each day a change owes a row has one. -/
theorem exists_owed {before after : List MemberResidencySpan} {owed : List OwedMembershipEvent}
    (hbefore : CountedDays before) (hafter : CountedDays after)
    (h : owedMembershipEvents before after = .ok owed) {d : Int} {v : Bool}
    (hv : owedOn before after d = some v) : ∃ e ∈ owed, e.eventOn = d := by
  have h' := h
  unfold owedMembershipEvents at h'
  rw [owedFrom_eq] at h'
  obtain ⟨e, he⟩ := ok_of_mapM_ok h' (d, v) ((mem_owedSweep hbefore hafter d v).mpr hv)
  have hmem := (mem_of_mapM_ok h' e).mpr ⟨(d, v), (mem_owedSweep hbefore hafter d v).mpr hv, he⟩
  refine ⟨e, hmem, ?_⟩
  unfold owedRow at he
  cases hapt : apartmentOf after d v with
  | error message => rw [hapt] at he; cases he
  | ok apartmentId =>
    rw [hapt] at he
    rw [← Except.ok.inj he]

end OpenBrf.Registers
