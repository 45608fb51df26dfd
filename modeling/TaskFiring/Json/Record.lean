import TaskFiring.Json

/-!
Reading records from JSON values. A record comes as an object, where unknown keys
are passed over and a known key may come once, or as an array of its fields in the
order of declaration, from which fields may be missing at the end. A record may
hold only so many containers, one in the other.
-/

namespace TaskFiring.Json

/-- How many containers may stand one in the other around and in a record. -/
def maxNesting : Nat := 127

/-- The fields of a record in order of declaration, `none` where missing. -/
def fields? (names : List String) : Json → Option (List (Option Json))
  | .object members =>
      if members.any (·.1.isNone) then none
      else names.mapM fun name =>
        match members.filter (·.1 = some name) with
        | [] => some none
        | [m] => some (some m.2)
        | _ => none
  | .array items =>
      if items.length ≤ names.length then
        some (items.map some ++ List.replicate (names.length - items.length) none)
      else none
  | _ => none

variable {α : Type}

def required (read : Json → Option α) (field : Option Json) : Option α := field.bind read

def withDefault (default : α) (read : Json → Option α) : Option Json → Option α
  | none => some default
  | some j => read j

/-- Missing and null both mean absent. -/
def optional (read : Json → Option α) : Option Json → Option (Option α)
  | none => some none
  | some .null => some none
  | some j => (read j).map some

def text? : Json → Option String
  | .text s => s
  | _ => none

def bool? : Json → Option Bool
  | .bool b => some b
  | _ => none

def readNat (ds : List Char) : Nat :=
  ds.foldl (fun n c => n * 10 + (c.toNat - '0'.toNat)) 0

/-- A number written with digits only, below the bound. -/
def natBelow? (bound : Nat) : Json → Option Nat
  | .number ds =>
      if ds.all Char.isDigit ∧ readNat ds < bound then some (readNat ds) else none
  | _ => none

def word? : Json → Option UInt64
  | j => (j.natBelow? UInt64.size).map UInt64.ofNat

def half? : Json → Option UInt32
  | j => (j.natBelow? UInt32.size).map UInt32.ofNat

/-- A named case comes as its name, or as an object with that one key and null. -/
def case? (cases : List α) (name : α → String) : Json → Option α
  | .text (some s) => cases.find? (name · = s)
  | .object [(some s, .null)] => cases.find? (name · = s)
  | _ => none

def list? (read : Json → Option α) : Json → Option (List α)
  | .array items => items.mapM read
  | _ => none

end TaskFiring.Json
