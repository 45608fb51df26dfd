/-!
Natural numbers written in ASCII digits, below a bound. The first character that
breaks the form decides the fault: a digit that carries the value past the bound
is reported before a later character that is no digit.
-/

namespace TaskFiring.Text

inductive NaturalFault
  | noDigits
  | badDigit
  | tooLarge
  deriving DecidableEq, Repr

def NaturalFault.message : NaturalFault → String
  | .noDigits => "cannot parse integer from empty string"
  | .badDigit => "invalid digit found in string"
  | .tooLarge => "number too large to fit in target type"

/-- Reads on from the value so far. -/
def naturalFrom (bound : Nat) : Nat → List Char → Except NaturalFault Nat
  | value, [] => .ok value
  | value, c :: cs =>
      if c.isDigit then
        let next := value * 10 + (c.toNat - '0'.toNat)
        if next < bound then naturalFrom bound next cs else .error .tooLarge
      else .error .badDigit

/-- A plus sign may lead. -/
def natural (bound : Nat) (s : String) : Except NaturalFault Nat :=
  match s.toList with
  | [] => .error .noDigits
  | ['+'] => .error .badDigit
  | '+' :: cs => naturalFrom bound 0 cs
  | cs => naturalFrom bound 0 cs

theorem naturalFrom_lt {bound value n : Nat} {cs : List Char} (hv : value < bound)
    (h : naturalFrom bound value cs = .ok n) : n < bound := by
  induction cs generalizing value with
  | nil => cases h; exact hv
  | cons c cs ih =>
      simp only [naturalFrom] at h
      split at h
      · split at h
        · exact ih (by assumption) h
        · cases h
      · cases h

end TaskFiring.Text
