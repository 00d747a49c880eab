import Stencil.Time.Instant
import Stencil.Time.Offset
/-!
# Civil time

A date and a time of day, as calendars and clocks show them. `LocalTime` is what a clock at a fixed
distance from UTC shows.

* `Instant.localTime` — the local time of an instant.
* `CivilTime.instant?` — the instant at which a clock shows a civil time.
-/

namespace Stencil

/-- A date and a time of day. -/
structure CivilTime where
  date : Date
  /-- The seconds since midnight. -/
  secondOfDay : Nat
  /-- The nanoseconds since the start of that second; a thousand million or more in a leap second.
  -/
  nanos : Nat
deriving DecidableEq, Repr

namespace CivilTime

/-- The civil time that is so many seconds after 1970-01-01 00:00:00. -/
def ofSeconds (seconds : Int) (nanos : Nat) : CivilTime :=
  ⟨.ofDayNumber (seconds / secondsPerDay), (seconds % secondsPerDay).toNat, nanos⟩

/-- The number of seconds since 1970-01-01 00:00:00 on the same clock. -/
def seconds (time : CivilTime) : Int := time.date.dayNumber * secondsPerDay + time.secondOfDay

/-- The hour, from 0 to 23. -/
def hour (time : CivilTime) : Nat := time.secondOfDay / 3600

/-- The hour on a clock with twelve hours, from 1 to 12. -/
def hour12 (time : CivilTime) : Nat := (time.hour + 11) % 12 + 1

/-- Whether the time is in the second half of the day. -/
def isAfternoon (time : CivilTime) : Bool := 12 ≤ time.hour

/-- The minute of the hour. -/
def minute (time : CivilTime) : Nat := time.secondOfDay / 60 % 60

/-- The second of the minute; 60 in a leap second. -/
def second (time : CivilTime) : Nat := time.secondOfDay % 60 + time.nanos / 1000000000

/-- The nanoseconds of the second, where a leap second is a second of its own. -/
def nanosecond (time : CivilTime) : Nat := time.nanos % 1000000000

/-- The instant at which a clock that is `offset` seconds ahead of UTC shows the time. -/
def instant? (time : CivilTime) (offset : Int) : Option Instant :=
  Instant.ofSeconds? (time.seconds - offset) time.nanos

end CivilTime

/-- What a clock at a distance from UTC shows. -/
structure LocalTime extends CivilTime where
  offset : Offset
deriving DecidableEq, Repr

namespace LocalTime

/-- The seconds since 1970-01-01 00:00:00 UTC. -/
def timestamp (time : LocalTime) : Int := time.seconds - time.offset.seconds

end LocalTime

/-- What a clock at the distance `offset` from UTC shows at an instant. -/
def Instant.localTime (instant : Instant) (offset : Offset) : LocalTime :=
  ⟨.ofSeconds (instant.seconds + offset.seconds) instant.nanos, offset⟩

end Stencil
