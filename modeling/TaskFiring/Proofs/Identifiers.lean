import Mathlib.Algebra.Group.Nat.Defs
import TaskFiring.Id

/-!
Identifiers as text that can be read. The digits of a number of 128 bits, each worth 32 times
the next, are read back one after another: what has been read so far moves up by five bits for
each digit, and no digit reaches beyond five.
-/

namespace TaskFiring
namespace Base32

/-! One digit. -/

theorem valueOf?_digitOf : ∀ d : Nat, d < 32 → valueOf? (digitOf d) = some d := by
  decide

theorem utf8Size_digitOf : ∀ d : Nat, d < 32 → (digitOf d).utf8Size = 1 := by
  decide

/-- A digit goes below what has been read. -/
theorem ofNat_shift (high : Nat) {d : Nat} (hd : d < 32) :
    BitVec.ofNat 128 high <<< 5 ||| BitVec.ofNat 128 d = BitVec.ofNat 128 (high * 32 + d) := by
  have hshift : BitVec.ofNat 128 high <<< 5 = BitVec.ofNat 128 (high <<< 5) := by
    apply BitVec.eq_of_toNat_eq
    simp only [BitVec.toNat_shiftLeft, BitVec.toNat_ofNat, Nat.shiftLeft_eq, Nat.mod_mul_mod]
  rw [hshift, ← BitVec.ofNat_or, ← Nat.shiftLeft_add_eq_or_of_lt hd, Nat.shiftLeft_eq]

/-! All digits of a number. -/

theorem decodeDigits_encodeDigits (count n high : Nat) (rest : List Char) :
    decodeDigits (BitVec.ofNat 128 high) (encodeDigits count n ++ rest)
      = decodeDigits (BitVec.ofNat 128 (high * 32 ^ count + n % 32 ^ count)) rest := by
  induction count generalizing n rest with
  | zero => simp [encodeDigits, Nat.mod_one]
  | succ count ih =>
      have hdigit : n % 32 < 32 := Nat.mod_lt _ (by decide)
      have hvalue : (high * 32 ^ count + n / 32 % 32 ^ count) * 32 + n % 32
          = high * 32 ^ (count + 1) + n % 32 ^ (count + 1) := by
        rw [Nat.pow_succ', Nat.mod_mul, Nat.add_mul, Nat.mul_assoc, Nat.mul_comm (32 ^ count) 32]
        omega
      rw [encodeDigits, List.append_assoc, List.cons_append, List.nil_append, ih, decodeDigits,
        valueOf?_digitOf _ hdigit]
      dsimp only
      rw [ofNat_shift _ hdigit, hvalue]

theorem length_encodeDigits (count n : Nat) : (encodeDigits count n).length = count := by
  induction count generalizing n with
  | zero => rfl
  | succ count ih => simp [encodeDigits, ih]

theorem utf8Size_encodeDigits {count n : Nat} : ∀ c ∈ encodeDigits count n, c.utf8Size = 1 := by
  induction count generalizing n with
  | zero => simp [encodeDigits]
  | succ count ih =>
      intro c hc
      rw [encodeDigits, List.mem_append, List.mem_singleton] at hc
      cases hc with
      | inl hc => exact ih c hc
      | inr hc => exact hc ▸ utf8Size_digitOf _ (Nat.mod_lt _ (by decide))

theorem utf8ByteSize_ofList {cs : List Char} (hcs : ∀ c ∈ cs, c.utf8Size = 1) :
    (String.ofList cs).utf8ByteSize = cs.length := by
  rw [← String.size_toByteArray, String.toByteArray_ofList]
  induction cs with
  | nil => simp
  | cons c cs ih =>
      obtain ⟨hc, hcs⟩ := List.forall_mem_cons.mp hcs
      rw [List.utf8Encode_cons, ByteArray.size_append, ih hcs, List.utf8Encode_singleton,
        List.size_toByteArray, String.length_utf8EncodeChar, hc, List.length_cons, Nat.add_comm]

/-- A number is read from its digits. -/
theorem decode_encode (n : BitVec 128) : decode (encode n) = .ok n := by
  have hsize : (encode n).utf8ByteSize = width := by
    rw [encode, utf8ByteSize_ofList utf8Size_encodeDigits, length_encodeDigits]
  have hdigits := decodeDigits_encodeDigits width n.toNat 0 []
  have hsmall : n.toNat < 32 ^ width := Nat.lt_trans n.isLt (by decide)
  rw [List.append_nil, Nat.zero_mul, Nat.zero_add, Nat.mod_eq_of_lt hsmall, BitVec.ofNat_toNat,
    BitVec.setWidth_eq] at hdigits
  rw [decode, if_pos hsize, encode, String.toList_ofList]
  exact hdigits

end Base32

namespace Id

variable {kind : IdKind}

theorem ofJson?_toJson (id : Id kind) : ofJson? id.toJson = some id := by
  simp [ofJson?, toJson, Json.str, Json.text?, digits, Base32.decode_encode]

end Id
end TaskFiring
