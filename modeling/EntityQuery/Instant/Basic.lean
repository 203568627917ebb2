import EntityQuery.Instant.Calendar

/-!
# Instants

An instant is a point in time together with the offset at which it was written down.
Two instants are the same moment, and compare, by the point in time alone; the offset
decides which calendar date and clock time they show.
-/

namespace EntityQuery

/-- A moment and the offset of the clock that shows it. -/
structure Instant where
  /-- Nanoseconds since the beginning of 1970 in UTC. -/
  nanos : Int
  /-- Seconds by which the clock is ahead of UTC. -/
  offset : Int
  deriving Repr, DecidableEq

namespace Instant

/-- Nanoseconds of a second. -/
def nanosPerSecond : Int := 1000000000

/-- Nanoseconds of a day. -/
def nanosPerDay : Int := 86400000000000

/-- Nanoseconds since the beginning of 1970 on the clock that shows the instant. -/
def localNanos (t : Instant) : Int := t.nanos + t.offset * nanosPerSecond

/-- The number of the calendar day that the clock shows. -/
def localDay (t : Instant) : Int := t.localNanos / nanosPerDay

/-- The calendar date that the clock shows. -/
def date (t : Instant) : Calendar.Date := Calendar.dateOfDay t.localDay

/-- Nanoseconds since midnight on the clock. -/
def timeOfDay (t : Instant) : Nat := (t.localNanos % nanosPerDay).toNat

/-- The hour on the clock. -/
def hour (t : Instant) : Nat := t.timeOfDay / 3600000000000

/-- The minute on the clock. -/
def minute (t : Instant) : Nat := t.timeOfDay / 60000000000 % 60

/-- The second on the clock. -/
def second (t : Instant) : Nat := t.timeOfDay / 1000000000 % 60

/-- The part of a second on the clock, in nanoseconds. -/
def nanosecond (t : Instant) : Nat := t.timeOfDay % 1000000000

/-- The instant at which a clock with some offset shows a day and a time of day. -/
def ofLocal (day : Int) (timeOfDay : Int) (offset : Int) : Instant :=
  ⟨day * nanosPerDay + timeOfDay - offset * nanosPerSecond, offset⟩

/-- The same moment. -/
def same (s t : Instant) : Bool := s.nanos == t.nanos

/-- The first day of the years that can be represented. -/
def firstDay : Int := Calendar.Date.toDay ⟨-9999, 1, 1⟩

/-- The last day of the years that can be represented. -/
def lastDay : Int := Calendar.Date.toDay ⟨9999, 12, 31⟩

/-- The instant, shown in UTC, so many nanoseconds after the beginning of 1970. Years
have at most four digits. -/
def ofNanos? (nanos : Int) : Option Instant :=
  let t : Instant := ⟨nanos, 0⟩
  if firstDay ≤ t.localDay ∧ t.localDay ≤ lastDay then some t else none

/-- The instant so many milliseconds after the beginning of 1970. -/
def ofMillis? (millis : Int) : Option Instant := ofNanos? (millis * 1000000)

/-- The instant so many seconds after the beginning of 1970. -/
def ofSeconds? (seconds : Int) : Option Instant := ofNanos? (seconds * nanosPerSecond)

/-- The instant in whole seconds since the beginning of 1970, rounded down. -/
def seconds (t : Instant) : Int := t.nanos / nanosPerSecond

end Instant

end EntityQuery
