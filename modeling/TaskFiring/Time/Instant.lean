import TaskFiring.Time.Calendar

/-!
Points in time: seconds since 1970-01-01 in UTC and nanoseconds into the second.
A leap second counts as a longer second before it, so the nanoseconds may reach
two thousand million. Times are ordered by second, then by nanosecond.
-/

namespace TaskFiring

structure Instant where
  seconds : Int
  nanos : Nat
  nanos_lt : nanos < 2000000000 := by omega
  deriving DecidableEq

namespace Instant

def nanosPerSecond : Nat := 1000000000

def secondsPerDay : Int := 86400

/-- The first second of the first year that can be told. -/
def minSeconds : Int := (Date.mk (-262143) 1 1).toDays * secondsPerDay

/-- The last second of the last year that can be told. -/
def maxSeconds : Int := (Date.mk 262142 12 31).toDays * secondsPerDay + 86399

def max : Instant := { seconds := maxSeconds, nanos := 999999999 }

instance : Inhabited Instant := ⟨{ seconds := 0, nanos := 0 }⟩

def inRange (t : Instant) : Bool := minSeconds ≤ t.seconds && t.seconds ≤ maxSeconds

def le (s t : Instant) : Bool :=
  s.seconds < t.seconds || (s.seconds == t.seconds && s.nanos ≤ t.nanos)

def ofMillis (ms : Int) : Instant :=
  { seconds := ms / 1000
    nanos := (ms % 1000).toNat * 1000000
    nanos_lt := by have := Int.emod_lt_of_pos ms (b := 1000) (by decide); omega }

/-- Milliseconds since the epoch, rounded down. -/
def toMillis (t : Instant) : Int := t.seconds * 1000 + (t.nanos / 1000000 : Nat)

/-- Moves a time by nanoseconds, unless that leaves the range. -/
def shift? (t : Instant) (nanos : Int) : Option Instant :=
  let total := t.seconds * nanosPerSecond + t.nanos + nanos
  let moved : Instant :=
    { seconds := total / 1000000000
      nanos := (total % 1000000000).toNat
      nanos_lt := by
        have := Int.emod_lt_of_pos total (b := 1000000000) (by decide); omega }
  if moved.inRange then some moved else none

/-- The time that many whole seconds later, unless that leaves the range. Going on
from a leap second, the leap second itself is the first to pass. -/
def later? (t : Instant) (seconds : Nat) : Option Instant :=
  let moved : Instant :=
    { seconds := t.seconds + seconds
      nanos := if seconds = 0 then t.nanos else t.nanos % nanosPerSecond
      nanos_lt := by
        have := t.nanos_lt
        have := Nat.mod_lt t.nanos (y := nanosPerSecond) (by decide)
        simp only [nanosPerSecond] at *
        split <;> omega }
  if moved.inRange then some moved else none

end Instant
end TaskFiring
