import TaskFiring.Text.Blank
import TaskFiring.Time.Instant

/-!
Times as text. Two layouts are written, both in UTC: the one of RFC 3339 with the
letters T and Z, and the one of messages with blanks and the word UTC. Fractions
have 0, 3, 6 or 9 digits, whichever is the first that is exact. Any offset is read,
with blanks around the parts of a date and a time.
-/

namespace TaskFiring
namespace Instant

/-- The digits of `n`, with zeros in front up to `width`. -/
def padded (width n : Nat) : List Char :=
  let ds := Nat.toDigits 10 n
  List.replicate (width - ds.length) '0' ++ ds

/-- Years of four digits stand alone; all others carry a sign. -/
def yearText (year : Int) : List Char :=
  if 0 ≤ year ∧ year ≤ 9999 then padded 4 year.toNat
  else (if year < 0 then '-' else '+') :: padded 4 year.natAbs

def fractionText (nanos : Nat) : List Char :=
  if nanos = 0 then []
  else if nanos % 1000000 = 0 then '.' :: padded 3 (nanos / 1000000)
  else if nanos % 1000 = 0 then '.' :: padded 6 (nanos / 1000)
  else '.' :: padded 9 nanos

def dateText (d : Date) : List Char :=
  yearText d.year ++ '-' :: padded 2 d.month ++ '-' :: padded 2 d.day

def date (t : Instant) : Date := Date.ofDays (t.seconds / secondsPerDay)

def secondOfDay (t : Instant) : Nat := (t.seconds % secondsPerDay).toNat

/-- A leap second is the sixtieth of its minute. -/
def timeText (t : Instant) : List Char :=
  let second := t.secondOfDay
  padded 2 (second / 3600) ++ ':' :: padded 2 (second / 60 % 60) ++
    ':' :: padded 2 (second % 60 + t.nanos / nanosPerSecond) ++
    fractionText (t.nanos % nanosPerSecond)

def stampChars (t : Instant) : List Char := dateText t.date ++ 'T' :: t.timeText ++ ['Z']

/-- The layout of RFC 3339. -/
def stamp (t : Instant) : String := String.ofList t.stampChars

/-- The layout of messages. -/
def display (t : Instant) : String :=
  String.ofList (dateText t.date ++ ' ' :: t.timeText) ++ " UTC"

/-- Between one and `most` digits. -/
def readDigits (most : Nat) (cs : List Char) : Option (Nat × List Char) :=
  let ds := (cs.take most).takeWhile Char.isDigit
  if ds.isEmpty then none
  else some (ds.foldl (fun n c => n * 10 + (c.toNat - '0'.toNat)) 0, cs.drop ds.length)

/-- A number of at most `most` digits within bounds, after any blanks. -/
def readPart (most low high : Nat) (cs : List Char) : Option (Nat × List Char) := do
  let (n, rest) ← readDigits most (Text.trimLeft cs)
  if low ≤ n ∧ n ≤ high then some (n, rest) else none

/-- A year of at most four digits, or a signed one of any length. -/
def readYear (cs : List Char) : Option (Int × List Char) :=
  match Text.trimLeft cs with
  | '-' :: cs => (readDigits cs.length cs).map fun (n, rest) => (-(n : Int), rest)
  | '+' :: cs => (readDigits cs.length cs).map fun (n, rest) => ((n : Int), rest)
  | cs => (readDigits 4 cs).map fun (n, rest) => ((n : Int), rest)

/-- One given character, after any blanks. -/
def readMark (mark : Char) (cs : List Char) : Option (List Char) :=
  match Text.trimLeft cs with
  | c :: rest => if c = mark then some rest else none
  | [] => none

/-- A fraction of a second in nanoseconds; digits after the ninth are dropped. -/
def readFraction : List Char → Option (Nat × List Char)
  | '.' :: cs =>
      let ds := (cs.take 9).takeWhile Char.isDigit
      (readDigits 9 cs).map fun (n, rest) =>
        (n * Nat.pow 10 (9 - ds.length), rest.dropWhile Char.isDigit)
  | cs => some (0, cs)

private def digitOf? (c : Char) : Option Nat :=
  if c.isDigit then some (c.toNat - '0'.toNat) else none

/-- Hours, the two digits of which are there, and minutes of two digits, in seconds. -/
def readHoursMinutes (b c : Char) (cs : List Char) : Option (Nat × List Char) := do
  let hours := (← digitOf? b) * 10 + (← digitOf? c)
  match cs.dropWhile fun c => c = ':' || Text.isBlank c with
  | m :: n :: rest =>
      let minutes := (← digitOf? m) * 10 + (← digitOf? n)
      if minutes < 60 ∧ hours < 24 then some (hours * 3600 + minutes * 60, rest) else none
  | _ => none

/-- An offset from UTC in seconds: the letter Z, the word UTC, or a sign, hours and
minutes of two digits each. -/
def readOffset (cs : List Char) : Option (Int × List Char) :=
  match Text.trimLeft cs with
  | 'Z' :: rest => some (0, rest)
  | 'z' :: rest => some (0, rest)
  | a :: b :: c :: rest =>
      if [a.toUpper, b.toUpper, c.toUpper] = ['U', 'T', 'C'] then some (0, rest)
      else if a = '+' then
        (readHoursMinutes b c rest).map fun (n, rest) => ((n : Int), rest)
      else if a = '-' ∨ a = '\u2212' then
        (readHoursMinutes b c rest).map fun (n, rest) => (-(n : Int), rest)
      else none
  | _ => none

/-- The time that a text names, if it names one in range. -/
def ofStampChars (cs : List Char) : Option Instant := do
  let (year, cs) ← readYear cs
  let cs ← readMark '-' cs
  let (month, cs) ← readPart 2 1 12 cs
  let cs ← readMark '-' cs
  let (day, cs) ← readPart 2 1 31 cs
  let cs ← match cs with
    | c :: cs => if c = 'T' ∨ c = 't' ∨ c = ' ' then some cs else none
    | [] => none
  let (hour, cs) ← readPart 2 0 23 cs
  let cs ← readMark ':' cs
  let (minute, cs) ← readPart 2 0 59 cs
  let cs ← readMark ':' cs
  let (second, cs) ← readPart 2 0 60 cs
  let (nanos, cs) ← readFraction cs
  let (offset, cs) ← readOffset cs
  if !(Text.trimLeft cs).isEmpty ∨ Date.daysInMonth year month < day then none
  else
    let date : Date := ⟨year, month, day⟩
    let wholeSecond := if second = 60 then 59 else second
    let shown := date.toDays * secondsPerDay
      + (hour * 3600 + minute * 60 + wholeSecond : Nat)
    let leap := if second = 60 then nanosPerSecond else 0
    if h : nanos + leap < 2000000000 then
      let t : Instant := ⟨shown - offset, nanos + leap, h⟩
      let civil : Instant := { seconds := shown, nanos := 0 }
      if t.inRange ∧ civil.inRange then some t else none
    else none

def ofStamp? (s : String) : Option Instant := ofStampChars s.toList

end Instant
end TaskFiring
