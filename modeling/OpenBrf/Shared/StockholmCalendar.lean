import OpenBrf.Shared.CalendarDates

/-!
# Shared.StockholmCalendar — the wall clock the calendar is read against (`stockholm-calendar.ts`)

An instant is a number of milliseconds, and a day the number of a date on the calendar.  The zone is
what `Intl.DateTimeFormat` knows of it: the offset in force at an instant.  On the days `Date.UTC`
counts as the calendar does, and that lie two days and more after the first of them, the instant a
local time names is found by the offset in force a day before or a day after it.
-/

namespace OpenBrf.Shared

def MINUTES_PER_DAY : Int := 24 * 60

def MILLISECONDS_PER_MINUTE : Int := 60 * 1000

def MILLISECONDS_PER_DAY : Int := MINUTES_PER_DAY * MILLISECONDS_PER_MINUTE

/-- The furthest a `Date` reaches from the first of January 1970. -/
def MAX_TIME : Int := 8640000000000000

/-- A time zone: how many minutes its clock is ahead of UTC at an instant. -/
structure Zone where
  offset : Int → Int
  /-- An offset is less than a day. -/
  offset_lt : ∀ t, -MINUTES_PER_DAY < offset t ∧ offset t < MINUTES_PER_DAY
  /-- The clock changes at most once in any 48 hours. -/
  changes_once : ∀ t, ∃ change before after, ∀ u, t ≤ u → u < t + 2 * MILLISECONDS_PER_DAY →
    offset u = if u < change then before else after

/-- A clock that is never changed. -/
def utc : Zone where
  offset _ := 0
  offset_lt _ := by decide
  changes_once t := ⟨t, 0, 0, fun u _ _ => by rw [ite_self]⟩

/-- The booked period a slot or a booking covers, as instants. -/
structure Period where
  startsAt : Int
  endsAt : Int
  deriving DecidableEq, Repr

variable (zone : Zone)

/-- What the wall clock shows at an instant, in milliseconds of local time. -/
def Zone.wall (t : Int) : Int := t + zone.offset t * MILLISECONDS_PER_MINUTE

/-- The day an instant falls on.  The source has its date, and in it a year before the first by its
number in its own era. -/
def localDayOf (instant : Int) : Int := zone.wall instant / MILLISECONDS_PER_DAY

/-- The date an instant falls on. -/
def dateOf (instant : Int) : LocalDay := .ofNumber (localDayOf zone instant)

/-- The minute past local midnight an instant falls on. -/
def localMinuteOf (instant : Int) : Int :=
  zone.wall instant % MILLISECONDS_PER_DAY / MILLISECONDS_PER_MINUTE

/-- The local calendar fields of an instant, as `Intl.DateTimeFormat` shows them: the date, and the
minutes past midnight. -/
def fieldsAt (instant : Int) : LocalDay × Int :=
  let day := dateOf zone instant
  (⟨shownYear day.year, day.month, day.day⟩, localMinuteOf zone instant)

/-- The day `Date.UTC` takes the date of an instant for. -/
def utcDayOf (instant : Int) : Int := (fieldsAt zone instant).1.dateUTC

/-- How far ahead of UTC the clock is at an instant, measured by reading the fields back as though
they were UTC.  `Math.round(x)` is the floor of `x + 1/2`. -/
def offsetMinutesAt (instant : Int) : Int :=
  let asIfUtc := utcDayOf zone instant * MILLISECONDS_PER_DAY +
    (fieldsAt zone instant).2 * MILLISECONDS_PER_MINUTE
  (2 * (asIfUtc - instant) + MILLISECONDS_PER_MINUTE) / (2 * MILLISECONDS_PER_MINUTE)

/-- Whether an instant is exactly this local date and time of day. -/
def isLocally (instant day minuteOfDay : Int) : Bool :=
  fieldsAt zone instant = (.ofNumber day, minuteOfDay)

/-- The instant a local time of day names, or none when it never happens.  The day is within the reach
of a `Date`, and two days and more from its ends, where the source throws. -/
def instantAt (day minuteOfDay : Int) : Option Int :=
  let shift := minuteOfDay / MINUTES_PER_DAY
  let minute := minuteOfDay - shift * MINUTES_PER_DAY
  -- `addLocalDays`, which counts as `Date.UTC` does
  let on := if shift = 0 then day else dateUTC day + shift
  let asIfUtc := dateUTC on * MILLISECONDS_PER_DAY + minute * MILLISECONDS_PER_MINUTE
  let before := asIfUtc -
    offsetMinutesAt zone (asIfUtc - MILLISECONDS_PER_DAY) * MILLISECONDS_PER_MINUTE
  let after := asIfUtc -
    offsetMinutesAt zone (asIfUtc + MILLISECONDS_PER_DAY) * MILLISECONDS_PER_MINUTE
  if isLocally zone before on minute then some before
  else if before ≠ after ∧ isLocally zone after on minute then some after
  else none

/-- The calendar week an instant falls in, Monday to Monday, or the day of a week with no midnight
at an end.  Day 0 of the calendar is a Thursday. -/
def localWeekAround (instant : Int) : Except Int Period :=
  let weekday := (utcDayOf zone instant + 3) % 7
  let monday := utcDayOf zone instant - weekday
  match instantAt zone monday 0, instantAt zone (dateUTC monday + 7) 0 with
  | some startsAt, some endsAt => .ok ⟨startsAt, endsAt⟩
  | _, _ => .error (localDayOf zone instant)

/-! ### Reading the wall clock -/

variable {zone}

/-- A time of day on a day, as milliseconds of local time. -/
def wallOf (day minuteOfDay : Int) : Int :=
  day * MILLISECONDS_PER_DAY + minuteOfDay * MILLISECONDS_PER_MINUTE

/-- A day from the third of January of the year 100 on: a day before any time of it, in whatever zone,
`Date.UTC` counts as the calendar does. -/
def Counted (day : Int) : Prop := FIRST_COUNTED_DAY + 2 ≤ day

instance (day : Int) : Decidable (Counted day) := inferInstanceAs (Decidable (_ ≤ _))

theorem Counted.succ {day : Int} (h : Counted day) : Counted (day + 1) := by
  unfold Counted at h ⊢
  omega

theorem Counted.dateUTC_eq {day : Int} (h : Counted day) : dateUTC day = day := by
  unfold Counted at h
  exact dateUTC_of_counted (by omega)

/-- Read back as though it were UTC, a day an instant falls on is none before it. -/
theorem localDayOf_le_utcDayOf (zone : Zone) (t : Int) : localDayOf zone t ≤ utcDayOf zone t := by
  have hmonth := (LocalDay.real_ofNumber (localDayOf zone t)).1
  have hyear : (dateOf zone t).year ≤ shownYear (dateOf zone t).year := by
    unfold shownYear
    split_ifs <;> omega
  have hle : (dateOf zone t).number ≤ (fieldsAt zone t).1.number :=
    LocalDay.number_le_number hmonth hyear
  rw [dateOf, LocalDay.number_ofNumber] at hle
  exact hle.trans (LocalDay.number_le_dateUTC hmonth)

/-- The fields of an instant of the year 100 or later are its date and minute. -/
theorem fieldsAt_eq {t : Int} (ht : FIRST_COUNTED_DAY ≤ localDayOf zone t) :
    fieldsAt zone t = (dateOf zone t, localMinuteOf zone t) := by
  have hyear : 100 ≤ (dateOf zone t).year := year_ofNumber_of_counted ht
  unfold fieldsAt shownYear
  dsimp only
  rw [if_neg (by omega)]

theorem utcDayOf_eq {t : Int} (ht : FIRST_COUNTED_DAY ≤ localDayOf zone t) :
    utcDayOf zone t = localDayOf zone t := by
  unfold utcDayOf
  rw [fieldsAt_eq ht]
  exact dateUTC_of_counted ht

/-- At a whole minute of those years the offset measured is the one in force. -/
theorem offsetMinutesAt_eq {t : Int} (ht : FIRST_COUNTED_DAY ≤ localDayOf zone t)
    (hwhole : t % MILLISECONDS_PER_MINUTE = 0) : offsetMinutesAt zone t = zone.offset t := by
  unfold offsetMinutesAt
  rw [fieldsAt_eq ht, utcDayOf_eq ht]
  unfold localDayOf localMinuteOf Zone.wall
  simp only [MILLISECONDS_PER_MINUTE, MILLISECONDS_PER_DAY, MINUTES_PER_DAY] at hwhole ⊢
  generalize zone.offset t = o
  omega

/-- At a whole minute of those years an instant is locally what its wall clock shows. -/
theorem isLocally_iff {t day minute : Int} (ht : FIRST_COUNTED_DAY ≤ localDayOf zone t)
    (hwhole : t % MILLISECONDS_PER_MINUTE = 0) (hlo : 0 ≤ minute) (hhi : minute < MINUTES_PER_DAY) :
    isLocally zone t day minute = true ↔ zone.wall t = wallOf day minute := by
  have hdate : dateOf zone t = .ofNumber day ↔ localDayOf zone t = day := by
    refine ⟨fun h => ?_, fun h => congrArg LocalDay.ofNumber h⟩
    have hnumber := congrArg LocalDay.number h
    unfold dateOf at hnumber
    rwa [LocalDay.number_ofNumber, LocalDay.number_ofNumber] at hnumber
  unfold isLocally
  rw [fieldsAt_eq ht, decide_eq_true_eq, Prod.mk.injEq, hdate]
  unfold localDayOf localMinuteOf Zone.wall wallOf
  simp only [MILLISECONDS_PER_MINUTE, MILLISECONDS_PER_DAY, MINUTES_PER_DAY] at hwhole hhi ⊢
  generalize zone.offset t = o
  omega

/-- From a day before a counted day on, instants are of the year 100 or later. -/
theorem Counted.localDayOf_le {day t : Int} (h : Counted day)
    (ht : (day - 1) * MILLISECONDS_PER_DAY ≤ t) : FIRST_COUNTED_DAY ≤ localDayOf zone t := by
  have hoffset := (zone.offset_lt t).1
  unfold localDayOf Zone.wall
  unfold Counted at h
  simp only [MILLISECONDS_PER_MINUTE, MILLISECONDS_PER_DAY, MINUTES_PER_DAY] at *
  omega

/-- The instant that shows a local time under the offset in force a day before it. -/
def Zone.before (zone : Zone) (wall : Int) : Int :=
  wall - zone.offset (wall - MILLISECONDS_PER_DAY) * MILLISECONDS_PER_MINUTE

/-- The instant that shows a local time under the offset in force a day after it. -/
def Zone.after (zone : Zone) (wall : Int) : Int :=
  wall - zone.offset (wall + MILLISECONDS_PER_DAY) * MILLISECONDS_PER_MINUTE

theorem wallOf_emod (day minute : Int) :
    wallOf day minute % MILLISECONDS_PER_MINUTE = 0 := by
  simp only [wallOf, MILLISECONDS_PER_MINUTE, MILLISECONDS_PER_DAY, MINUTES_PER_DAY]
  omega

/-- `instantAt` tries two instants, and takes the first whose clock shows the time asked for. -/
theorem instantAt_eq {day minute : Int} (hday : Counted day)
    (hon : Counted (day + minute / MINUTES_PER_DAY)) : instantAt zone day minute =
    if zone.wall (zone.before (wallOf day minute)) = wallOf day minute then
      some (zone.before (wallOf day minute))
    else if zone.before (wallOf day minute) ≠ zone.after (wallOf day minute) ∧
        zone.wall (zone.after (wallOf day minute)) = wallOf day minute then
      some (zone.after (wallOf day minute))
    else none := by
  have hwhole := wallOf_emod day minute
  have hshift : (if minute / MINUTES_PER_DAY = 0 then day
      else dateUTC day + minute / MINUTES_PER_DAY) = day + minute / MINUTES_PER_DAY := by
    unfold Counted at hday
    rw [dateUTC_of_counted (by omega)]
    split_ifs <;> omega
  have hrolled : dateUTC (day + minute / MINUTES_PER_DAY) * MILLISECONDS_PER_DAY +
      (minute - minute / MINUTES_PER_DAY * MINUTES_PER_DAY) * MILLISECONDS_PER_MINUTE =
        wallOf day minute := by
    unfold Counted at hon
    rw [dateUTC_of_counted (by omega)]
    simp only [wallOf, MILLISECONDS_PER_MINUTE, MILLISECONDS_PER_DAY, MINUTES_PER_DAY]
    omega
  -- the local time is on the day it rolls into
  have hstart : (day + minute / MINUTES_PER_DAY) * MILLISECONDS_PER_DAY ≤ wallOf day minute := by
    simp only [wallOf, MILLISECONDS_PER_MINUTE, MILLISECONDS_PER_DAY, MINUTES_PER_DAY]
    omega
  have hbefore : offsetMinutesAt zone (wallOf day minute - MILLISECONDS_PER_DAY) =
      zone.offset (wallOf day minute - MILLISECONDS_PER_DAY) := by
    refine offsetMinutesAt_eq (hon.localDayOf_le ?_) ?_
    · simp only [MILLISECONDS_PER_MINUTE, MILLISECONDS_PER_DAY, MINUTES_PER_DAY] at hstart ⊢
      omega
    · simp only [MILLISECONDS_PER_MINUTE, MILLISECONDS_PER_DAY, MINUTES_PER_DAY] at hwhole ⊢
      omega
  have hafter : offsetMinutesAt zone (wallOf day minute + MILLISECONDS_PER_DAY) =
      zone.offset (wallOf day minute + MILLISECONDS_PER_DAY) := by
    refine offsetMinutesAt_eq (hon.localDayOf_le ?_) ?_
    · simp only [MILLISECONDS_PER_MINUTE, MILLISECONDS_PER_DAY, MINUTES_PER_DAY] at hstart ⊢
      omega
    · simp only [MILLISECONDS_PER_MINUTE, MILLISECONDS_PER_DAY, MINUTES_PER_DAY] at hwhole ⊢
      omega
  have hlocal : ∀ t, isLocally zone (wallOf day minute - zone.offset t * MILLISECONDS_PER_MINUTE)
      (day + minute / MINUTES_PER_DAY) (minute - minute / MINUTES_PER_DAY * MINUTES_PER_DAY) =
        true ↔ zone.wall (wallOf day minute - zone.offset t * MILLISECONDS_PER_MINUTE) =
          wallOf day minute := by
    intro t
    have hoffset := (zone.offset_lt t).2
    have hcarry : wallOf (day + minute / MINUTES_PER_DAY)
        (minute - minute / MINUTES_PER_DAY * MINUTES_PER_DAY) = wallOf day minute := by
      simp only [wallOf, MILLISECONDS_PER_MINUTE, MILLISECONDS_PER_DAY, MINUTES_PER_DAY]
      omega
    rw [isLocally_iff (hon.localDayOf_le ?_), hcarry]
    · simp only [MILLISECONDS_PER_MINUTE] at hwhole ⊢
      omega
    · simp only [MINUTES_PER_DAY]
      omega
    · simp only [MINUTES_PER_DAY]
      omega
    · simp only [MILLISECONDS_PER_MINUTE, MILLISECONDS_PER_DAY, MINUTES_PER_DAY] at *
      omega
  unfold instantAt
  dsimp only
  rw [hshift, hrolled, hbefore, hafter]
  simp only [hlocal]
  rfl

/-- The instant a time of day names shows its date, whatever the year. -/
theorem fieldsAt_instantAt {day minute t : Int} (hlo : 0 ≤ minute) (hhi : minute < MINUTES_PER_DAY)
    (h : instantAt zone day minute = some t) : fieldsAt zone t = (.ofNumber day, minute) := by
  have hshift : minute / MINUTES_PER_DAY = 0 := Int.ediv_eq_zero_of_lt hlo hhi
  unfold instantAt at h
  dsimp only at h
  rw [hshift, if_pos rfl, Int.zero_mul, Int.sub_zero] at h
  split_ifs at h with hbefore hafter
  · rw [← Option.some.inj h]
    exact of_decide_eq_true hbefore
  · rw [← Option.some.inj h]
    exact of_decide_eq_true hafter.2

/-- The instant a local time names shows it, and is one of the two tried. -/
theorem wall_instantAt {day minute t : Int} (hday : Counted day)
    (hon : Counted (day + minute / MINUTES_PER_DAY)) (h : instantAt zone day minute = some t) :
    zone.wall t = wallOf day minute := by
  rw [instantAt_eq hday hon] at h
  split_ifs at h with hbefore hafter
  · rwa [← Option.some.inj h]
  · rw [← Option.some.inj h]
    exact hafter.2

/-- A time of day names an instant on its day, and one past midnight on a day after it. -/
theorem localDayOf_instantAt {day minute t : Int} (hday : Counted day)
    (hon : Counted (day + minute / MINUTES_PER_DAY)) (h : instantAt zone day minute = some t) :
    localDayOf zone t = day + minute / MINUTES_PER_DAY := by
  unfold localDayOf
  rw [wall_instantAt hday hon h]
  simp only [wallOf, MILLISECONDS_PER_MINUTE, MILLISECONDS_PER_DAY, MINUTES_PER_DAY]
  omega

/-- The minutes past a counted midnight are on counted days. -/
theorem Counted.later {day minute : Int} (h : Counted day) (hminute : 0 ≤ minute) :
    Counted (day + minute / MINUTES_PER_DAY) := by
  have hshift : 0 ≤ minute / MINUTES_PER_DAY := Int.ediv_nonneg hminute (by decide)
  unfold Counted at h ⊢
  omega

/-- Two instants less than two days apart, with an earlier one close enough: where the later two
differ in offset, the earlier one has that of the first. -/
theorem Zone.offset_eq_of_change (zone : Zone) {u t t' : Int} (hut : u ≤ t) (htt' : t ≤ t')
    (hlt : t' < u + 2 * MILLISECONDS_PER_DAY) (hne : zone.offset t ≠ zone.offset t') :
    zone.offset u = zone.offset t := by
  obtain ⟨change, before, after, hall⟩ := zone.changes_once u
  have hu := hall u le_rfl (by omega)
  have ht := hall t hut (by omega)
  have ht' := hall t' (hut.trans htt') hlt
  rw [ht, ht'] at hne
  rw [hu, ht]
  split_ifs at hne ⊢ with h1 h2 h3 h4 <;> first | rfl | omega

/-- **The calendar is increasing.**  A later local time names a later instant. -/
theorem instantAt_lt {day day' minute minute' t t' : Int} (hday : Counted day)
    (hon : Counted (day + minute / MINUTES_PER_DAY)) (hday' : Counted day')
    (hon' : Counted (day' + minute' / MINUTES_PER_DAY)) (h : instantAt zone day minute = some t)
    (h' : instantAt zone day' minute' = some t')
    (hlt : wallOf day minute < wallOf day' minute') : t < t' := by
  by_contra hge
  have hw := wall_instantAt hday hon h
  have hw' := wall_instantAt hday' hon' h'
  rw [← hw, ← hw'] at hlt
  have ho := zone.offset_lt t
  have ho' := zone.offset_lt t'
  have hne : zone.offset t' ≠ zone.offset t := by
    intro heq
    unfold Zone.wall at hlt
    rw [heq] at hlt
    omega
  -- the clock went back between `t'` and `t`, so the time before it is the one `instantAt` takes
  have hprobe : zone.offset (zone.wall t - MILLISECONDS_PER_DAY) = zone.offset t' := by
    refine zone.offset_eq_of_change ?_ (not_lt.mp hge) ?_ hne
    · unfold Zone.wall at hlt ⊢
      simp only [MILLISECONDS_PER_MINUTE, MILLISECONDS_PER_DAY, MINUTES_PER_DAY] at *
      omega
    · unfold Zone.wall
      simp only [MILLISECONDS_PER_MINUTE, MILLISECONDS_PER_DAY, MINUTES_PER_DAY] at *
      omega
  have hbefore : zone.before (zone.wall t) =
      zone.wall t - zone.offset t' * MILLISECONDS_PER_MINUTE := by
    unfold Zone.before
    rw [hprobe]
  have hshows : zone.wall (zone.before (zone.wall t)) = zone.wall t := by
    have hoff : zone.offset (zone.before (zone.wall t)) = zone.offset t' := by
      refine zone.offset_eq_of_change ?_ (not_lt.mp hge) ?_ hne
      · rw [hbefore]
        unfold Zone.wall at hlt ⊢
        omega
      · rw [hbefore]
        unfold Zone.wall
        simp only [MILLISECONDS_PER_MINUTE, MILLISECONDS_PER_DAY, MINUTES_PER_DAY] at *
        omega
    have hdef : zone.wall (zone.before (zone.wall t)) = zone.before (zone.wall t) +
        zone.offset (zone.before (zone.wall t)) * MILLISECONDS_PER_MINUTE := rfl
    rw [hdef, hoff, hbefore]
    omega
  rw [instantAt_eq hday hon, ← hw, if_pos hshows] at h
  have hself := Option.some.inj h
  rw [hbefore] at hself
  have hdef : zone.wall t = t + zone.offset t * MILLISECONDS_PER_MINUTE := rfl
  rw [hdef] at hself
  refine hne ?_
  simp only [MILLISECONDS_PER_MINUTE] at hself
  omega

theorem instantAt_le {day day' minute minute' t t' : Int} (hday : Counted day)
    (hon : Counted (day + minute / MINUTES_PER_DAY)) (hday' : Counted day')
    (hon' : Counted (day' + minute' / MINUTES_PER_DAY)) (h : instantAt zone day minute = some t)
    (h' : instantAt zone day' minute' = some t')
    (hle : wallOf day minute ≤ wallOf day' minute') : t ≤ t' := by
  rcases hle.eq_or_lt with heq | hlt
  · rw [instantAt_eq hday hon, heq, ← instantAt_eq hday' hon', h'] at h
    exact (Option.some.inj h).ge
  · exact (instantAt_lt hday hon hday' hon' h h' hlt).le

end OpenBrf.Shared
