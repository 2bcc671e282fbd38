import OpenBrf.Shared.StockholmCalendar

/-!
# Shared.LocalInstants — the first instant that reads a local time (`stockholm-calendar.ts`)

On a clock that is changed on whole minutes, and from the third of January of the year 100 on,
`instantAt` finds the first instant that reads a local time whenever there is one.  Changed within a
minute, a clock can first read a minute where it has begun already, which is no instant `instantAt`
tries; and a probe in the years `Date.UTC` takes for others measures no offset.
-/

namespace OpenBrf.Shared

attribute [ext] LocalDay

variable {zone : Zone}

/-- An instant reads a minute past the midnight of a day; minutes of 1440 and more are in the days
after it. -/
def Reads (zone : Zone) (day minute t : Int) : Prop :=
  localDayOf zone t = day + minute / MINUTES_PER_DAY ∧ localMinuteOf zone t = minute % MINUTES_PER_DAY

theorem reads_iff {day minute t : Int} : Reads zone day minute t ↔
    wallOf day minute ≤ zone.wall t ∧ zone.wall t < wallOf day minute + MILLISECONDS_PER_MINUTE := by
  unfold Reads localDayOf localMinuteOf wallOf
  simp only [MILLISECONDS_PER_MINUTE, MILLISECONDS_PER_DAY, MINUTES_PER_DAY]
  generalize zone.wall t = w
  omega

end OpenBrf.Shared
