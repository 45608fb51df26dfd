/-!
Numbers of 128 bits as 26 digits of Crockford's base 32. The digits leave out I,
L, O and U; a digit may be read in either case. 26 digits have room for 130 bits,
of which reading keeps the low 128.
-/

namespace TaskFiring.Base32

def width : Nat := 26

def digits : List Char := "0123456789ABCDEFGHJKMNPQRSTVWXYZ".toList

def digitOf (n : Nat) : Char := digits.getD n '0'

def valueOf? (c : Char) : Option Nat := digits.idxOf? c.toUpper

/-- The lowest `count` digits of `n`, the highest first. -/
def encodeDigits : Nat → Nat → List Char
  | 0, _ => []
  | count + 1, n => encodeDigits count (n / 32) ++ [digitOf (n % 32)]

def encode (n : BitVec 128) : String := String.ofList (encodeDigits width n.toNat)

inductive Fault
  | length
  | character
  deriving DecidableEq, Repr

def Fault.message : Fault → String
  | .length => "invalid length"
  | .character => "invalid character"

def decodeDigits : BitVec 128 → List Char → Except Fault (BitVec 128)
  | n, [] => .ok n
  | n, c :: cs =>
      match valueOf? c with
      | some d => decodeDigits (n <<< 5 ||| BitVec.ofNat 128 d) cs
      | none => .error .character

/-- The length counts bytes, so a text of 26 bytes with a wider character in it
fails by that character. -/
def decode (s : String) : Except Fault (BitVec 128) :=
  if s.utf8ByteSize = width then decodeDigits 0 s.toList else .error .length

end TaskFiring.Base32
