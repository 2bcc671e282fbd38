import Mathlib.Data.List.Nodup
import OpenBrf.Bookings.SlotEngine

/-!
# Bookings.SlotTiling — the slots of a day and of a range of days (`slot-engine.ts`)

The slots of a day lie between the boundaries of it that exist, and the slots of a range are those of
its days, in order.  The days are those on and around which `Date.UTC` counts as the calendar does.
-/

namespace OpenBrf.Bookings

open Shared

variable {zone : Zone} {resource : SlotResource}

/-! ### The boundaries of a day -/

theorem mem_pairsOf {boundaries : List Int} {p : Period} (h : p ∈ pairsOf boundaries) :
    p.startsAt ∈ boundaries ∧ p.endsAt ∈ boundaries ∧ p.startsAt < p.endsAt := by
  obtain ⟨hmem, hlt⟩ := List.mem_filter.mp h
  obtain ⟨⟨a, b⟩, hab, rfl⟩ := List.mem_map.mp hmem
  obtain ⟨ha, hb⟩ := List.of_mem_zip hab
  exact ⟨ha, List.mem_of_mem_tail hb, of_decide_eq_true hlt⟩

theorem minutesOf_pairwise {opensAtMinute closesAtMinute slotMinutes : Int} (hslot : 0 < slotMinutes) :
    (minutesOf opensAtMinute closesAtMinute slotMinutes).Pairwise (· < ·) := by
  unfold minutesOf
  rw [List.pairwise_map]
  refine List.pairwise_lt_range.imp fun {a b} h => ?_
  have hab : (a : Int) < b := by exact_mod_cast h
  have := Int.mul_lt_mul_of_pos_right hab hslot
  omega

theorem mem_minutesOf {opensAtMinute closesAtMinute slotMinutes minute : Int}
    (hslot : 0 < slotMinutes)
    (h : minute ∈ minutesOf opensAtMinute closesAtMinute slotMinutes) :
    opensAtMinute ≤ minute ∧ minute ≤ closesAtMinute := by
  obtain ⟨n, hn, rfl⟩ := List.mem_map.mp h
  have hn := List.mem_range.mp hn
  have hle : (n : Int) ≤ (closesAtMinute - opensAtMinute) / slotMinutes := by omega
  have hmul : (n : Int) * slotMinutes ≤ closesAtMinute - opensAtMinute :=
    (Int.le_ediv_iff_mul_le hslot).mp hle
  have hnonneg : 0 ≤ (n : Int) * slotMinutes := Int.mul_nonneg (by omega) hslot.le
  omega

theorem checkResourceSchedule_eq_none {resource : SlotResource} {slotMinutes opensAtMinute
    closesAtMinute : Int} (hmode : resource.mode = .TIME_SLOTS)
    (hslot : resource.slotMinutes = some slotMinutes)
    (hopens : resource.opensAtMinute = some opensAtMinute)
    (hcloses : resource.closesAtMinute = some closesAtMinute)
    (h : checkResourceSchedule resource = none) :
    0 < slotMinutes ∧ 0 ≤ opensAtMinute ∧ closesAtMinute ≤ MINUTES_PER_DAY := by
  unfold checkResourceSchedule at h
  rw [if_neg (by simp [hmode]), hslot, hopens, hcloses] at h
  dsimp only at h
  split_ifs at h with hwithin
  push Not at hwithin
  simp only [isWholeMinuteWithin, Bool.and_eq_true, decide_eq_true_eq] at hwithin
  omega

/-- The times of day at which a slot of a resource ends or begins, from the opening to the closing.
A whole day ends at the midnight after it. -/
def boundaryMinutes (resource : SlotResource) : List Int :=
  if resource.mode ≠ .TIME_SLOTS then [0, MINUTES_PER_DAY]
  else if checkResourceSchedule resource ≠ none then []
  else match resource.slotMinutes, resource.opensAtMinute, resource.closesAtMinute with
    | some slotMinutes, some opensAtMinute, some closesAtMinute =>
      minutesOf opensAtMinute closesAtMinute slotMinutes
    | _, _, _ => []

/-- The boundaries of a day that exist: not the ones the clocks jumped over. -/
def boundariesOf (zone : Zone) (resource : SlotResource) (day : Int) : List Int :=
  (boundaryMinutes resource).filterMap fun minute => instantAt zone day minute

theorem boundaryMinutes_spec (resource : SlotResource) :
    (boundaryMinutes resource).Pairwise (· < ·) ∧
      ∀ minute ∈ boundaryMinutes resource, 0 ≤ minute ∧ minute ≤ MINUTES_PER_DAY := by
  unfold boundaryMinutes
  split_ifs with hmode hcheck
  · simp [MINUTES_PER_DAY]
  · simp
  · cases hslot : resource.slotMinutes with
    | none => simp
    | some slotMinutes =>
      cases hopens : resource.opensAtMinute with
      | none => simp
      | some opensAtMinute =>
        cases hcloses : resource.closesAtMinute with
        | none => simp
        | some closesAtMinute =>
          obtain ⟨hpos, hlo, hhi⟩ := checkResourceSchedule_eq_none (not_not.mp hmode) hslot hopens
            hcloses (not_not.mp hcheck)
          refine ⟨minutesOf_pairwise hpos, fun minute hminute => ?_⟩
          have hwithin := mem_minutesOf hpos hminute
          omega

/-- The later a boundary of a day, the later its instant. -/
theorem boundariesOf_pairwise {day : Int} (hday : Counted day) :
    (boundariesOf zone resource day).Pairwise (· < ·) := by
  obtain ⟨hminutes, hwithin⟩ := boundaryMinutes_spec resource
  unfold boundariesOf
  rw [List.pairwise_filterMap]
  refine hminutes.imp_of_mem fun {minute minute'} hm hm' hlt t ht t' ht' => ?_
  refine instantAt_lt hday (hday.later (hwithin minute hm).1) hday (hday.later (hwithin minute' hm').1)
    ht ht' ?_
  simp only [wallOf, MILLISECONDS_PER_MINUTE]
  omega

/-! ### The slots of a day -/

/-- A slot of a day, between that day's opening and closing. -/
structure SlotOfDay (zone : Zone) (day : Int) (p : Period) : Prop where
  starts : ∃ minute, 0 ≤ minute ∧ instantAt zone day minute = some p.startsAt
  ends : ∃ minute, 0 ≤ minute ∧ minute ≤ MINUTES_PER_DAY ∧ instantAt zone day minute = some p.endsAt

/-- The slots of one day. -/
def slotsOf (zone : Zone) (resource : SlotResource) (day : Int) : List Period :=
  pairsOf (boundariesOf zone resource day)

theorem pairsOf_cons {first second : Int} (hlt : first < second) (later : List Int) :
    pairsOf (first :: second :: later) = ⟨first, second⟩ :: pairsOf (second :: later) := by
  unfold pairsOf
  rw [List.tail_cons, List.zip_cons_cons, List.map_cons, List.filter_cons_of_pos]
  · rfl
  · exact decide_eq_true hlt

/-- The slots between boundaries come one after the other. -/
theorem pairsOf_pairwise {boundaries : List Int} (hs : boundaries.Pairwise (· < ·)) :
    (pairsOf boundaries).Pairwise fun p q => p.endsAt ≤ q.startsAt := by
  induction boundaries with
  | nil => exact .nil
  | cons first later ih =>
    cases later with
    | nil => exact .nil
    | cons second later =>
      obtain ⟨hfirst, hlater⟩ := List.pairwise_cons.mp hs
      have hsecond : ∀ boundary ∈ second :: later, second ≤ boundary := by
        intro boundary hboundary
        rcases List.mem_cons.mp hboundary with rfl | hrest
        · exact le_rfl
        · exact ((List.pairwise_cons.mp hlater).1 boundary hrest).le
      rw [pairsOf_cons (hfirst second List.mem_cons_self)]
      refine .cons (fun slot hslot => ?_) (ih hlater)
      exact hsecond _ (mem_pairsOf hslot).1

theorem mem_slotsOf {day : Int} (hday : Counted day) {p : Period} (h : p ∈ slotsOf zone resource day) :
    SlotOfDay zone day p ∧ p.startsAt < p.endsAt ∧ localDayOf zone p.startsAt = day := by
  obtain ⟨hstart, hend, hlt⟩ := mem_pairsOf h
  obtain ⟨minute, hmem, hstart⟩ := List.mem_filterMap.mp hstart
  obtain ⟨minute', hmem', hend⟩ := List.mem_filterMap.mp hend
  have hwithin := (boundaryMinutes_spec resource).2 minute hmem
  have hwithin' := (boundaryMinutes_spec resource).2 minute' hmem'
  refine ⟨⟨⟨minute, hwithin.1, hstart⟩, ⟨minute', hwithin'.1, hwithin'.2, hend⟩⟩, hlt, ?_⟩
  have hon := hday.later hwithin.1
  -- a slot does not start at the last boundary, so it starts before midnight
  have hbefore : minute < MINUTES_PER_DAY := by
    by_contra hge
    have hlast : minute' ≤ minute := by omega
    rcases hlast.lt_or_eq with hless | rfl
    · have hearlier := instantAt_lt hday (hday.later hwithin'.1) hday hon hend hstart (by
        simp only [wallOf, MILLISECONDS_PER_MINUTE]
        omega)
      omega
    · rw [hstart] at hend
      have hsame := Option.some.inj hend
      omega
  rw [localDayOf_instantAt hday hon hstart]
  unfold MINUTES_PER_DAY at hbefore ⊢
  omega

/-! ### The slots of a range -/

/-- The days from one to another. -/
def daysBetween (first last : Int) : List Int :=
  (List.range (last - first + 1).toNat).map fun (n : ℕ) => first + n

theorem mem_daysBetween {first last day : Int} :
    day ∈ daysBetween first last ↔ first ≤ day ∧ day ≤ last := by
  unfold daysBetween
  rw [List.mem_map]
  constructor
  · rintro ⟨n, hn, rfl⟩
    have hn := List.mem_range.mp hn
    omega
  · rintro ⟨hfirst, hlast⟩
    exact ⟨(day - first).toNat, List.mem_range.mpr (by omega), by omega⟩

theorem daysBetween_pairwise (first last : Int) : (daysBetween first last).Pairwise (· < ·) := by
  unfold daysBetween
  rw [List.pairwise_map]
  exact List.pairwise_lt_range.imp fun h => by omega

theorem daysBetween_append {first last day : Int} (hfirst : first ≤ day) (hlast : day ≤ last + 1) :
    daysBetween first last = daysBetween first (day - 1) ++ daysBetween day last := by
  unfold daysBetween
  have hcount : (last - first + 1).toNat =
      (day - 1 - first + 1).toNat + (last - day + 1).toNat := by omega
  rw [hcount, List.range_add, List.map_append, List.map_map]
  congr 1
  refine List.map_congr_left fun n _ => ?_
  simp only [Function.comp_apply]
  omega

theorem daysBetween_self (day : Int) : daysBetween day day = [day] := by
  unfold daysBetween
  rw [show day - day + 1 = 1 by omega]
  simp

theorem daysBetween_of_lt {first last : Int} (h : last < first) : daysBetween first last = [] := by
  unfold daysBetween
  rw [Int.toNat_eq_zero.mpr (by omega)]
  rfl

/-- Where `Date.UTC` counts as the calendar does, the loop goes over the days. -/
theorem daysFrom_of_counted {last : Int} (hlast : FIRST_COUNTED_DAY ≤ last) :
    ∀ (turns : ℕ) {day : Int}, FIRST_COUNTED_DAY ≤ day → (last - day + 1).toNat = turns →
      daysFrom last turns day = daysBetween day last
  | 0, day, _, h => by
    rw [daysBetween_of_lt (by omega)]
    rfl
  | turns + 1, day, hday, h => by
    have hrest : daysBetween day last = daysBetween day (day + 1 - 1) ++ daysBetween (day + 1) last :=
      daysBetween_append (by omega) (by omega)
    unfold daysFrom
    rw [dateUTC_of_counted hday, dateUTC_of_counted hlast, if_pos (by omega),
      daysFrom_of_counted hlast turns (by omega) (by omega), hrest,
      show day + 1 - 1 = day by omega, daysBetween_self]
    rfl

theorem daysOf_eq {first last : Int} (hfirst : FIRST_COUNTED_DAY ≤ first)
    (hlast : FIRST_COUNTED_DAY ≤ last) : daysOf first last = daysBetween first last := by
  unfold daysOf
  rw [dateUTC_of_counted hfirst, dateUTC_of_counted hlast, daysFrom_of_counted hlast _ hfirst rfl]

/-- A day's slot, midnight to midnight, is the pair of its two boundaries. -/
theorem slotsOf_wholeDay (hmode : resource.mode ≠ .TIME_SLOTS) {day : Int} (hday : Counted day) :
    slotsOf zone resource day = (wholeDay zone day).toList := by
  have hmidnight : instantAt zone day MINUTES_PER_DAY = instantAt zone (day + 1) 0 := by
    have hnext : Counted (day + 1) := hday.succ
    rw [instantAt_eq hday (hday.later (by decide)), instantAt_eq hnext (hnext.later le_rfl)]
    have hwall : wallOf day MINUTES_PER_DAY = wallOf (day + 1) 0 := by
      simp only [wallOf, MILLISECONDS_PER_MINUTE, MILLISECONDS_PER_DAY, MINUTES_PER_DAY]
      omega
    rw [hwall]
  unfold slotsOf boundariesOf boundaryMinutes wholeDay
  rw [if_pos hmode, hday.dateUTC_eq]
  cases hstart : instantAt zone day 0 with
  | none =>
    cases hend : instantAt zone (day + 1) 0 with
    | none => simp [hstart, hend, hmidnight, pairsOf]
    | some endsAt => simp [hstart, hend, hmidnight, pairsOf]
  | some startsAt =>
    cases hend : instantAt zone (day + 1) 0 with
    | none => simp [hstart, hend, hmidnight, pairsOf]
    | some endsAt =>
      by_cases hlt : startsAt < endsAt
      · simp [hstart, hend, hmidnight, pairsOf, hlt]
      · simp [hstart, hend, hmidnight, pairsOf, hlt]

/-- The slots of the days from one to another. -/
def slotsBetween (zone : Zone) (resource : SlotResource) (first last : Int) : List Period :=
  (daysBetween first last).flatMap (slotsOf zone resource)

theorem generateSlots_eq {first last : Int} (hfirst : Counted first) (hlast : Counted last) :
    generateSlots zone resource first last = slotsBetween zone resource first last := by
  have hdays : daysOf first last = daysBetween first last := by
    unfold Counted at hfirst hlast
    exact daysOf_eq (by omega) (by omega)
  unfold generateSlots slotsBetween
  rw [hfirst.dateUTC_eq, hlast.dateUTC_eq]
  by_cases hempty : last < first
  · rw [if_pos hempty, daysBetween_of_lt hempty]
    rfl
  · rw [if_neg hempty]
    by_cases hmode : resource.mode = .TIME_SLOTS
    · rw [if_pos hmode]
      unfold timeSlots slotsOf boundariesOf boundaryMinutes
      rw [if_neg (not_not.mpr hmode), hdays]
      by_cases hcheck : checkResourceSchedule resource ≠ none
      · rw [if_pos hcheck, if_pos hcheck]
        simp [pairsOf]
      · rw [if_neg hcheck, if_neg hcheck]
        cases resource.slotMinutes <;> cases resource.opensAtMinute <;>
          cases resource.closesAtMinute <;> simp [pairsOf]
    · rw [if_neg hmode]
      unfold wholeDays
      rw [hdays, List.filterMap_eq_flatMap_toList]
      refine List.flatMap_congr fun day hday => ?_
      exact (slotsOf_wholeDay hmode (hfirst.trans (mem_daysBetween.mp hday).1)).symm

theorem mem_slotsBetween {first last : Int} (hfirst : Counted first) {p : Period} :
    p ∈ slotsBetween zone resource first last ↔
      p ∈ slotsOf zone resource (localDayOf zone p.startsAt) ∧
        first ≤ localDayOf zone p.startsAt ∧ localDayOf zone p.startsAt ≤ last := by
  unfold slotsBetween
  rw [List.mem_flatMap]
  constructor
  · rintro ⟨day, hday, hslot⟩
    have hwithin := mem_daysBetween.mp hday
    obtain ⟨-, -, hlocal⟩ := mem_slotsOf (hfirst.trans hwithin.1) hslot
    rw [hlocal]
    exact ⟨hslot, hwithin⟩
  · rintro ⟨hslot, hwithin⟩
    exact ⟨_, mem_daysBetween.mpr hwithin, hslot⟩

/-- The slots of a range come one after the other, and none before the last one has ended. -/
theorem slotsBetween_pairwise {first : Int} (hfirst : Counted first) (last : Int) :
    (slotsBetween zone resource first last).Pairwise fun p q => p.endsAt ≤ q.startsAt := by
  unfold slotsBetween
  rw [List.pairwise_flatMap]
  refine ⟨fun day hday => pairsOf_pairwise (boundariesOf_pairwise
    (hfirst.trans (mem_daysBetween.mp hday).1)), ?_⟩
  refine (daysBetween_pairwise first last).imp_of_mem fun {day day'} hmem hmem' hlt p hp q hq => ?_
  have hday : Counted day := hfirst.trans (mem_daysBetween.mp hmem).1
  have hday' : Counted day' := hfirst.trans (mem_daysBetween.mp hmem').1
  obtain ⟨hslot, -, -⟩ := mem_slotsOf hday hp
  obtain ⟨hslot', -, -⟩ := mem_slotsOf hday' hq
  obtain ⟨minute, hpos, hle, hends⟩ := hslot.ends
  obtain ⟨minute', hnonneg, hstarts⟩ := hslot'.starts
  refine instantAt_le hday (hday.later hpos) hday' (hday'.later hnonneg) hends hstarts ?_
  simp only [wallOf, MILLISECONDS_PER_MINUTE, MILLISECONDS_PER_DAY, MINUTES_PER_DAY] at *
  omega

theorem slotsBetween_lt {first last : Int} (hfirst : Counted first) {p : Period}
    (hp : p ∈ slotsBetween zone resource first last) : p.startsAt < p.endsAt := by
  obtain ⟨hslot, hle, -⟩ := (mem_slotsBetween hfirst).mp hp
  exact (mem_slotsOf (hfirst.trans hle) hslot).2.1

/-- So the slots of a range start later and later, and end later and later. -/
theorem slotsBetween_increasing {first : Int} (hfirst : Counted first) (last : Int) :
    (slotsBetween zone resource first last).Pairwise fun p q =>
      p.startsAt < q.startsAt ∧ p.endsAt < q.endsAt := by
  refine List.Pairwise.imp_of_mem ?_ (slotsBetween_pairwise hfirst last)
  intro p q hp hq hle
  have hlt := slotsBetween_lt hfirst hp
  have hlt' := slotsBetween_lt hfirst hq
  omega

end OpenBrf.Bookings
