import TaskFiring.Json.Record
import TaskFiring.Text.Base32

/-!
Identifiers of tasks and of lightweight children. Both are numbers of 128 bits;
the kind is part of the type and shows in the prefix of the written form. In JSON
an identifier is the bare digits.
-/

namespace TaskFiring

inductive IdKind
  | task
  | child
  deriving DecidableEq, Repr

structure Id (kind : IdKind) where
  number : BitVec 128
  deriving DecidableEq

abbrev TaskOid := Id .task

abbrev ChildId := Id .child

namespace IdKind

def mark : IdKind → List Char
  | .task => ['t', 'a', 's', 'k', '-']
  | .child => ['l', 'w', 't', '-']

end IdKind

namespace Id

variable {kind : IdKind}

def digits (id : Id kind) : String := Base32.encode id.number

def display (id : Id kind) : String := String.ofList kind.mark ++ id.digits

/-- One mark of the right kind may lead. -/
def ofText (s : String) : Except Base32.Fault (Id kind) :=
  let bare :=
    if kind.mark.isPrefixOf s.toList then String.ofList (s.toList.drop kind.mark.length)
    else s
  (Base32.decode bare).map Id.mk

def toJson (id : Id kind) : Json := .str id.digits

def ofJson? (j : Json) : Option (Id kind) := do
  match Base32.decode (← j.text?) with
  | .ok n => some ⟨n⟩
  | .error _ => none

/-- The milliseconds that a time-ordered identifier was made at: its top 48 bits. -/
def timestamp (id : Id kind) : Nat := (id.number >>> 80).toNat

/-- A time-ordered identifier: the low 48 bits of the milliseconds above 80 bits of
the caller's choice. -/
def ofParts (millis : Int) (rest : BitVec 80) : Id kind :=
  ⟨(BitVec.ofInt 48 millis ++ rest).cast (by decide)⟩

def le (a b : Id kind) : Bool := a.number ≤ b.number

/-- In ascending order, each once. -/
def sorted (ids : List (Id kind)) : List (Id kind) := (ids.mergeSort le).eraseDups

end Id

/-- The name of a node of the cluster. -/
structure NodeId where
  name : String
  deriving DecidableEq

end TaskFiring
