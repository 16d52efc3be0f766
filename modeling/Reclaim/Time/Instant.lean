import Reclaim.Time.Calendar

/-!
# Instants

A point of time in UTC: whole seconds since the epoch and nanoseconds.  The
second 60 of a minute is the second 59 with a thousand million further
nanoseconds, so that instants are ordered by seconds and then by nanoseconds.
-/

namespace Reclaim
namespace Time

/-- Nanoseconds in a second. -/
def nanosPerSecond : Nat := 1000000000

/-- A point of time; only the last second of a minute can be a leap second. -/
structure Instant where
  seconds : Int
  nanos : Nat
  nanos_lt : nanos < 2 * nanosPerSecond
  leap_only_at_59 : nanosPerSecond ≤ nanos → seconds % 60 = 59
  deriving DecidableEq

/-- The day number of 1 January 1970. -/
def epochDay : Int := 719528

/-- Seconds in a day. -/
def secondsPerDay : Int := 86400

namespace Instant

instance : Ord Instant :=
  ⟨fun a b => (compare a.seconds b.seconds).then (compare a.nanos b.nanos)⟩

/-- The first second of the years that instants reach. -/
def firstSecond : Int :=
  (daysBeforeYear (-262143) - epochDay) * secondsPerDay

/-- The last second of the years that instants reach. -/
def lastSecond : Int :=
  (daysBeforeYear 262143 - epochDay) * secondsPerDay - 1

/-- The instant of a count of seconds since the epoch, within the years that instants reach. -/
def ofSeconds? (seconds : Int) : Option Instant :=
  if firstSecond ≤ seconds ∧ seconds ≤ lastSecond then
    some ⟨seconds, 0, by decide, fun h => absurd h (by decide)⟩
  else
    none

/-- The instant of a count of milliseconds since the epoch, within the years that instants reach. -/
def ofMillis? (millis : Int) : Option Instant :=
  if firstSecond ≤ millis / 1000 ∧ millis / 1000 ≤ lastSecond then
    some ⟨millis / 1000, (millis % 1000).toNat * 1000000,
      by simp only [nanosPerSecond]; omega,
      by simp only [nanosPerSecond]; omega⟩
  else
    none

/--
The instant of a date and a time of day at an offset from UTC; the second 60 is
a leap second.
-/
def ofLocal? (date : Date) (hour minute second nanos : Nat)
    (offsetMinutes : Int) : Option Instant :=
  let start : Int :=
    (date.dayNumber - epochDay) * secondsPerDay + hour * 3600 +
      (minute - offsetMinutes) * 60
  if h : hour < 24 ∧ minute < 60 ∧ nanos < nanosPerSecond then
    if second < 60 then
      some ⟨start + second, nanos, by omega, fun h' => absurd h' (by omega)⟩
    else if second = 60 then
      some ⟨start + 59, nanosPerSecond + nanos, by omega,
        fun _ => by simp only [start, secondsPerDay]; omega⟩
    else
      none
  else
    none

/-- The day number of an instant. -/
def dayNumber (t : Instant) : Int :=
  t.seconds / secondsPerDay + epochDay

/-- The second of the day. -/
def secondOfDay (t : Instant) : Nat :=
  (t.seconds % secondsPerDay).toNat

/-- The date of an instant. -/
def date (t : Instant) : Date :=
  Date.ofDayNumber t.dayNumber

/-- The year of an instant. -/
def year (t : Instant) : Int :=
  t.date.year

/-- The instant with its nanoseconds cut to whole milliseconds. -/
def truncateToMillis (t : Instant) : Instant :=
  ⟨t.seconds, t.nanos / 1000000 * 1000000,
    by have := t.nanos_lt; omega,
    fun h => t.leap_only_at_59 (by omega)⟩

/--
The nanoseconds from `b` to `a`.  A leap second lies after the second it shares
its count with, so it counts as one second more where the other instant is
earlier in its day, and as one second less where that one is later.
-/
def nanosSince (a b : Instant) : Int :=
  let plain :=
    (a.seconds - b.seconds) * nanosPerSecond + ((a.nanos : Int) - b.nanos)
  if b.secondOfDay < a.secondOfDay ∧ nanosPerSecond ≤ b.nanos then
    plain + nanosPerSecond
  else if a.secondOfDay < b.secondOfDay ∧ nanosPerSecond ≤ a.nanos then
    plain - nanosPerSecond
  else
    plain

end Instant
end Time
end Reclaim
