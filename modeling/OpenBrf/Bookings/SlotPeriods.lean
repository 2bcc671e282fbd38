import Mathlib.Data.List.Pairwise
import OpenBrf.Bookings.SlotTiling

/-!
# Bookings.SlotPeriods — the periods that are slots (`slot-engine.ts`)

A requested period is looked up among the slots of the days around it, which are enough days to find
every period the resource offers.  A guest apartment is let for the nights from one to another, at most
thirty of them.
-/

namespace OpenBrf.Bookings

open Shared

variable {zone : Zone} {resource : SlotResource}

/-! ### The slot a period names -/

/-- A period that is a slot of the resource on some day. -/
def Generated (zone : Zone) (resource : SlotResource) (p : Period) : Prop :=
  ∃ first last, (Counted first ∧ Counted last) ∧ p ∈ generateSlots zone resource first last

theorem generated_iff {p : Period} : Generated zone resource p ↔
    Counted (localDayOf zone p.startsAt) ∧ p ∈ slotsOf zone resource (localDayOf zone p.startsAt) := by
  constructor
  · rintro ⟨first, last, ⟨hfirst, hlast⟩, h⟩
    rw [generateSlots_eq hfirst hlast, mem_slotsBetween hfirst] at h
    exact ⟨hfirst.trans h.2.1, h.1⟩
  · rintro ⟨hday, h⟩
    refine ⟨_, _, ⟨hday, hday⟩, ?_⟩
    rw [generateSlots_eq hday hday, mem_slotsBetween hday]
    exact ⟨h, le_rfl, le_rfl⟩

/-- A search among values that differ finds the one that is there. -/
theorem dropWhile_append_cons {α : Type} {f : α → Int} {before : List α} {a : α} {after : List α}
    (hbefore : ∀ b ∈ before, f b < f a) :
    (before ++ a :: after).dropWhile (fun b => f b ≠ f a) = a :: after := by
  induction before with
  | nil => simp
  | cons b before ih =>
    have hne : f b ≠ f a := (hbefore b List.mem_cons_self).ne
    rw [List.cons_append, List.dropWhile_cons, if_pos (decide_eq_true hne)]
    exact ih fun c hc => hbefore c (List.mem_cons_of_mem _ hc)

/-- The slots from the one that starts at an instant on. -/
theorem dropWhile_slotsBetween {first last : Int} (hfirst : Counted first)
    {before after : List Period} {p : Period}
    (heq : slotsBetween zone resource first last = before ++ p :: after) :
    (slotsBetween zone resource first last).dropWhile (fun slot => slot.startsAt ≠ p.startsAt) =
      p :: after := by
  have hincreasing : (slotsBetween zone resource first last).Pairwise _ :=
    slotsBetween_increasing hfirst last
  rw [heq, List.pairwise_append] at hincreasing
  rw [heq]
  exact dropWhile_append_cons (f := (·.startsAt)) fun slot hslot =>
    (hincreasing.2.2 slot hslot p List.mem_cons_self).1

/-- The last day whose slots a requested period is looked up among; the first is the day before. -/
def lastSearched (zone : Zone) (resource : SlotResource) (startsAt : Int) : Int :=
  localDayOf zone startsAt - 1 +
    if resource.mode = .DATE_RANGE then (MAX_BOOKING_NIGHTS : Int) + 2 else 2

theorem le_lastSearched (startsAt : Int) :
    localDayOf zone startsAt ≤ lastSearched zone resource startsAt := by
  unfold lastSearched MAX_BOOKING_NIGHTS
  split_ifs <;> omega

/-- What is made of the slots from the one that starts as requested on. -/
def fromSlot (resource : SlotResource) (endsAt : Option Int) : List Period → Option Period
  | [] => none
  | start :: later =>
    match endsAt with
    | none => some start
    | some endsAt =>
      if resource.mode ≠ .DATE_RANGE then if endsAt = start.endsAt then some start else none
      else (((start :: later).take MAX_BOOKING_NIGHTS).find? fun night =>
        night.endsAt = endsAt).map fun night => ⟨start.startsAt, night.endsAt⟩

/-- Where the days searched are counted, the slots of those days are searched. -/
theorem periodFor_eq {requested : RequestedPeriod}
    (hday : Counted (localDayOf zone requested.startsAt - 1)) :
    periodFor zone resource requested = fromSlot resource requested.endsAt
      ((slotsBetween zone resource (localDayOf zone requested.startsAt - 1)
        (lastSearched zone resource requested.startsAt)).dropWhile fun slot =>
          slot.startsAt ≠ requested.startsAt) := by
  have hlast : Counted (lastSearched zone resource requested.startsAt) := by
    have hle : localDayOf zone requested.startsAt ≤ lastSearched zone resource requested.startsAt :=
      le_lastSearched _
    unfold Counted at hday ⊢
    omega
  have hsame : utcDayOf zone requested.startsAt = localDayOf zone requested.startsAt ∧
      dateUTC (localDayOf zone requested.startsAt - 1) = localDayOf zone requested.startsAt - 1 := by
    unfold Counted at hday
    exact ⟨utcDayOf_eq (by omega), dateUTC_of_counted (by omega)⟩
  rw [← generateSlots_eq hday hlast]
  unfold periodFor lastSearched
  dsimp only
  rw [hsame.1, hsame.2]
  generalize (generateSlots zone resource _ _).dropWhile _ = found
  cases found with
  | nil => rfl
  | cons start later => rfl

/-- A period that is found starts where it is asked for. -/
theorem startsAt_of_periodFor {requested : RequestedPeriod} {p : Period}
    (h : periodFor zone resource requested = some p) : p.startsAt = requested.startsAt := by
  unfold periodFor at h
  dsimp only at h
  split at h
  · cases h
  · rename_i start later hdrop
    have hat : start.startsAt = requested.startsAt := by
      by_contra hne
      have hhead := List.head?_dropWhile_not (fun slot : Period => decide
        (slot.startsAt ≠ requested.startsAt)) (generateSlots zone resource
          (utcDayOf zone requested.startsAt - 1) (dateUTC (utcDayOf zone requested.startsAt - 1) +
            if resource.mode = .DATE_RANGE then (MAX_BOOKING_NIGHTS : Int) + 2 else 2))
      rw [hdrop] at hhead
      exact absurd (decide_eq_true hne) (by simpa using hhead)
    rw [← hat]
    split at h
    · rw [← Option.some.inj h]
    · split_ifs at h
      · rw [← Option.some.inj h]
      · obtain ⟨night, -, rfl⟩ := Option.map_eq_some_iff.mp h
        rfl

/-- A period that is found starts with a slot. -/
theorem exists_slot_of_periodFor {requested : RequestedPeriod}
    (hday : Counted (localDayOf zone requested.startsAt - 1)) {p : Period}
    (h : periodFor zone resource requested = some p) :
    ∃ start, Generated zone resource start ∧ start.startsAt = requested.startsAt := by
  rw [periodFor_eq hday] at h
  match hdrop : (slotsBetween zone resource (localDayOf zone requested.startsAt - 1)
      (lastSearched zone resource requested.startsAt)).dropWhile fun slot =>
        slot.startsAt ≠ requested.startsAt with
  | [] =>
    rw [hdrop] at h
    cases h
  | start :: later =>
    have hmem : start ∈ start :: later := List.mem_cons_self
    rw [← hdrop] at hmem
    obtain ⟨hslot, hle, -⟩ :=
      (mem_slotsBetween hday).mp ((List.dropWhile_sublist _).subset hmem)
    refine ⟨start, generated_iff.mpr ⟨hday.trans hle, hslot⟩, ?_⟩
    by_contra hne
    have hhead := List.head?_dropWhile_not (fun slot : Period => decide
      (slot.startsAt ≠ requested.startsAt)) (slotsBetween zone resource
        (localDayOf zone requested.startsAt - 1) (lastSearched zone resource requested.startsAt))
    rw [hdrop] at hhead
    exact absurd (decide_eq_true hne) (by simpa using hhead)

/-- What is made of the slot a period starts with, and of the slots after it. -/
theorem periodFor_of_slot {requested : RequestedPeriod}
    (hday : Counted (localDayOf zone requested.startsAt - 1)) {start : Period}
    {before after : List Period} (hat : start.startsAt = requested.startsAt)
    (heq : slotsBetween zone resource (localDayOf zone requested.startsAt - 1)
      (lastSearched zone resource requested.startsAt) = before ++ start :: after) :
    periodFor zone resource requested = fromSlot resource requested.endsAt (start :: after) := by
  have hdrop := dropWhile_slotsBetween hday heq
  rw [periodFor_eq hday, ← hat, ← hdrop, hat]

theorem mem_searched {start : Period} (hday : Counted (localDayOf zone start.startsAt - 1))
    (hstart : Generated zone resource start) :
    start ∈ slotsBetween zone resource (localDayOf zone start.startsAt - 1)
      (lastSearched zone resource start.startsAt) := by
  refine (mem_slotsBetween hday).mpr ⟨(generated_iff.mp hstart).2, by omega, le_lastSearched _⟩

/-- Outside DATE_RANGE the periods found are the slots, and so they are where no end is named. -/
theorem periodFor_slot_iff {requested : RequestedPeriod}
    (hday : Counted (localDayOf zone requested.startsAt - 1))
    (hone : resource.mode ≠ .DATE_RANGE ∨ requested.endsAt = none) {p : Period} :
    periodFor zone resource requested = some p ↔
      Generated zone resource p ∧ p.startsAt = requested.startsAt ∧
        ∀ endsAt ∈ requested.endsAt, p.endsAt = endsAt := by
  have hfrom : ∀ {start : Period}, Generated zone resource start →
      start.startsAt = requested.startsAt → ∃ after, periodFor zone resource requested =
        fromSlot resource requested.endsAt (start :: after) := by
    intro start hstart hat
    rw [← hat] at hday
    obtain ⟨before, after, heq⟩ := List.append_of_mem (mem_searched hday hstart)
    rw [hat] at hday heq
    exact ⟨after, periodFor_of_slot hday hat heq⟩
  constructor
  · intro h
    obtain ⟨start, hstart, hat⟩ := exists_slot_of_periodFor hday h
    obtain ⟨after, hperiod⟩ := hfrom hstart hat
    rw [hperiod] at h
    cases hend : requested.endsAt with
    | none =>
      rw [hend] at h
      rw [← Option.some.inj h]
      exact ⟨hstart, hat, fun _ hmem => by cases hmem⟩
    | some endsAt =>
      have hmode := hone.resolve_right (by rw [hend]; exact Option.some_ne_none _)
      rw [hend] at h
      unfold fromSlot at h
      dsimp only at h
      rw [if_pos hmode] at h
      split_ifs at h with hsame
      rw [← Option.some.inj h]
      refine ⟨hstart, hat, fun _ hmem => ?_⟩
      rw [← Option.mem_some_iff.mp hmem, hsame]
  · rintro ⟨hslot, hat, hends⟩
    obtain ⟨after, hperiod⟩ := hfrom hslot hat
    rw [hperiod]
    cases hend : requested.endsAt with
    | none => rfl
    | some endsAt =>
      have hmode := hone.resolve_right (by rw [hend]; exact Option.some_ne_none _)
      have hsame := hends endsAt hend
      unfold fromSlot
      dsimp only
      rw [if_pos hmode, if_pos hsame.symm]

/-- **Two bookings of one schedule**, outside DATE_RANGE, are of one slot or apart. -/
theorem Offers.apart (hmode : resource.mode ≠ .DATE_RANGE) {p q : Period}
    (hp : Offers zone resource p) (hq : Offers zone resource q)
    (hday : Counted (localDayOf zone p.startsAt - 1))
    (hday' : Counted (localDayOf zone q.startsAt - 1)) : p = q ∨ Apart p q := by
  have hslot : ∀ {r : Period}, Offers zone resource r → Counted (localDayOf zone r.startsAt - 1) →
      Generated zone resource r := by
    rintro r ⟨requested, hr⟩ hcounted
    have hat := startsAt_of_periodFor hr
    rw [hat] at hcounted
    exact ((periodFor_slot_iff hcounted (.inl hmode)).mp hr).1
  obtain ⟨hcounted, hp⟩ := generated_iff.mp (hslot hp hday)
  obtain ⟨hcounted', hq⟩ := generated_iff.mp (hslot hq hday')
  -- both are among the slots of the days from the earlier to the later
  set first := min (localDayOf zone p.startsAt) (localDayOf zone q.startsAt) with hfirst
  set last := max (localDayOf zone p.startsAt) (localDayOf zone q.startsAt) with hlast
  have hcountedFirst : Counted first := le_min hcounted hcounted'
  have hmem : p ∈ slotsBetween zone resource first last :=
    (mem_slotsBetween hcountedFirst).mpr ⟨hp, by omega, by omega⟩
  have hmem' : q ∈ slotsBetween zone resource first last :=
    (mem_slotsBetween hcountedFirst).mpr ⟨hq, by omega, by omega⟩
  rcases eq_or_ne p q with heq | hne
  · exact .inl heq
  · refine .inr ?_
    have happart : (slotsBetween zone resource first last).Pairwise Apart :=
      (slotsBetween_pairwise hcountedFirst last).imp .inl
    exact happart.forall hmem hmem' hne

/-! ### The nights a period covers -/

end OpenBrf.Bookings
