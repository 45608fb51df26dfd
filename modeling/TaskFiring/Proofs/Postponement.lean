import TaskFiring.Proofs.Refusal

/-!
How far a refused task is put off where its trigger is not relied upon: by the delay, or to the
last moment that can be told where the delay goes beyond that. On its way to the calendar the
delay is converted three times. Each conversion has a limit and a way out of its own, and all
of them come to the same moment.
-/

namespace TaskFiring

namespace Instant

variable {s t u : Instant} {seconds : Nat}

theorem ext (seconds : s.seconds = t.seconds) (nanos : s.nanos = t.nanos) : s = t := by
  cases s
  cases t
  cases seconds
  cases nanos
  rfl

/-- The first moment that can be told. -/
def min : Instant := { seconds := minSeconds, nanos := 0, nanos_lt := Nat.succ_pos _ }

/-- The moments that can be told. -/
structure Told (t : Instant) : Prop where
  lower : Instant.min.le t
  upper : t.le .max

theorem nanos_after_lt (t : Instant) (seconds : Nat) :
    (if seconds = 0 then t.nanos else t.nanos % nanosPerSecond) < 2000000000 := by
  split
  · exact t.nanos_lt
  · exact Nat.lt_trans (Nat.mod_lt _ (by decide)) (by decide)

/-- The moment that many seconds later, were there no last one. -/
def after (t : Instant) (seconds : Nat) : Instant :=
  { seconds := t.seconds + seconds
    nanos := if seconds = 0 then t.nanos else t.nanos % nanosPerSecond
    nanos_lt := nanos_after_lt t seconds }

/-- A leap second counts as a part of the second before it, and only until it has passed. -/
example : ¬ (after { seconds := 0, nanos := 999999999 } 1).le
    (after { seconds := 0, nanos := 1000000000 } 1) := by decide

/-- Whether a moment is inside a leap second still that many milliseconds later. -/
def Stays (t : Instant) (millis : Nat) : Prop :=
  nanosPerSecond ≤ t.nanos ∧ t.nanos + millis * 1000000 < 2 * nanosPerSecond

instance (t : Instant) (millis : Nat) : Decidable (t.Stays millis) :=
  inferInstanceAs (Decidable (_ ∧ _))

/-- The moment that many milliseconds later, were there no last one. Going on from a leap
second, the leap second itself is the first to pass. -/
def plus (t : Instant) (millis : Nat) : Instant :=
  if h : t.Stays millis then
    { seconds := t.seconds, nanos := t.nanos + millis * 1000000, nanos_lt := h.2 }
  else
    { seconds := t.seconds + (millis / 1000 : Nat)
        + ((t.nanos % nanosPerSecond + millis % 1000 * 1000000) / nanosPerSecond : Nat)
      nanos := (t.nanos % nanosPerSecond + millis % 1000 * 1000000) % nanosPerSecond
      nanos_lt := Nat.lt_trans (Nat.mod_lt _ (by decide)) (by decide) }

end Instant

namespace Postponement

open Program (Reaches)
open Admission (Saturation)

variable {config config' : Config} {t t' : Task} {cs cs' : Option Constraints} {w w' : World}
  {now retryAt retryAt' : Instant}

/-! The conversions of a delay, one after the other. -/

/-- The longest delay there is. -/
def patient : Constraints :=
  { groups := [⟨"g", some 1⟩], retryAfter := some 18446744073709551615 }

end Postponement
end TaskFiring
