import Stencil.Decimal.Basic
import Stencil.Decimal.Division
import Stencil.Decimal.Numeral
import Stencil.Journal
import Stencil.Time.Calendar
/-!
# Instants

A point in time, to the nanosecond. Instants lie between the first day of `Date.firstYear` and the
last day of `Date.lastYear`. During a leap second the count of seconds stands still and the
nanoseconds go on beyond a full second.

* `Instant.ofTimestamp` — the instant of a Unix timestamp.
-/

namespace Stencil

/-- The number of seconds of a day. -/
def secondsPerDay : Int := 86400

/-- A point in time. -/
structure Instant where
  /-- The seconds since 1970-01-01 00:00:00 UTC. -/
  seconds : Int
  /-- The nanoseconds since the start of that second; a thousand million or more in a leap second.
  -/
  nanos : Nat
deriving DecidableEq, Repr

namespace Instant

/-- The first second that instants reach. -/
def firstSecond : Int := daysBeforeYear Date.firstYear * secondsPerDay

/-- The last second that instants reach. -/
def lastSecond : Int := daysBeforeYear (Date.lastYear + 1) * secondsPerDay - 1

/-- The instant at the given second, if instants reach it. -/
def ofSeconds? (seconds : Int) (nanos : Nat) : Option Instant :=
  if firstSecond ≤ seconds ∧ seconds ≤ lastSecond then some ⟨seconds, nanos⟩ else none

/-- The instant with the given date and time of day, in UTC. -/
def ofDate (date : Date) (secondOfDay : Nat) (nanos : Nat) : Instant :=
  ⟨date.dayNumber * secondsPerDay + secondOfDay, nanos⟩

/-- Timestamps above this count milliseconds, the others seconds. -/
def millisecondThreshold : Decimal := Decimal.ofNat 10000000000

/-- The seconds that a timestamp counts. -/
def secondsOfTimestamp (timestamp : Decimal) : Traced Decimal :=
  match timestamp.cmp millisecondThreshold with
  | .gt => .orAbort (timestamp.div? (Decimal.ofNat 1000))
  | _ => pure timestamp

/-- The nanoseconds of a number of seconds beyond its whole part, `whole`. -/
def nanosOf (seconds : Decimal) (whole : Decimal) : Traced Int := do
  let fraction ← .orAbort (seconds.sub? whole)
  let nanos ← .orAbort (fraction.mul? (Decimal.ofNat 1000000000))
  return nanos.trunc

/-- The instant of a Unix timestamp in seconds or milliseconds. -/
def ofTimestamp (timestamp : Decimal) : Traced Instant := do
  let seconds ← secondsOfTimestamp timestamp
  let whole ← .orAbort (Decimal.ofUnits? seconds.floor 0)
  let nanos ← nanosOf seconds whole
  .ofOption (.functionFailure "timezone" s!"timestamp {timestamp.toText} out of range")
    (ofSeconds? whole.units nanos.toNat)

end Instant

end Stencil
