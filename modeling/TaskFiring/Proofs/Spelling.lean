import Mathlib.Data.List.Basic
import TaskFiring.Proofs.Identifiers
import TaskFiring.Proofs.Printing

/-!
Which texts an identifier is read from. They are its digits, in any case, with the mark of its
kind in front or without, and besides the digits of the three numbers of 130 bits that differ
from it only in the bits that are dropped. In JSON the mark is not read, and nowhere is the
mark of the other kind.
-/

namespace TaskFiring

namespace Base32

/-! The case of letters. -/

/-- Only the letters from a to z are changed, by the distance to those from A to Z. -/
theorem toUpper_cases (c : Char) :
    c.toUpper = c ∨ 97 ≤ c.toNat ∧ c.toNat ≤ 122 ∧ c.toUpper.toNat = c.toNat - 32 := by
  unfold Char.toUpper
  split
  · next h =>
    have low : 97 ≤ c.toNat := UInt32.le_iff_toNat_le.mp h.1
    have high : c.toNat ≤ 122 := UInt32.le_iff_toNat_le.mp h.2
    have sum : (c.val + ('A'.val - 'a'.val)).toNat = (c.toNat + 4294967264) % 4294967296 :=
      UInt32.toNat_add _ _
    exact .inr ⟨low, high, sum.trans (by omega)⟩
  · exact .inl rfl

theorem toUpper_toUpper (c : Char) : c.toUpper.toUpper = c.toUpper := by
  rcases toUpper_cases c with same | ⟨low, high, upper⟩
  · rw [same, same]
  · rcases toUpper_cases c.toUpper with same | ⟨low', -, -⟩
    · exact same
    · omega

theorem utf8Size_toUpper (c : Char) : c.toUpper.utf8Size = c.utf8Size := by
  have narrow {d : Char} (hd : d.toNat ≤ 127) : d.utf8Size = 1 := Char.utf8Size_eq_one_iff.mpr hd
  rcases toUpper_cases c with same | ⟨low, high, upper⟩
  · rw [same]
  · rw [narrow (by omega), narrow (by omega)]

theorem toUpper_digitOf : ∀ d : Nat, d < 32 → (digitOf d).toUpper = digitOf d := by
  decide

theorem exists_digit {count n : Nat} {c : Char} (h : c ∈ encodeDigits count n) :
    ∃ d, d < 32 ∧ c = digitOf d := by
  induction count generalizing n with
  | zero => cases h
  | succ count ih =>
      rw [encodeDigits, List.mem_append, List.mem_singleton] at h
      cases h with
      | inl h => exact ih h
      | inr h => exact ⟨n % 32, Nat.mod_lt _ (by decide), h⟩

/-- Digits are written as capitals. -/
theorem map_toUpper_encodeDigits (count n : Nat) :
    (encodeDigits count n).map Char.toUpper = encodeDigits count n := by
  refine (List.map_congr_left fun c hc => ?_).trans (List.map_id _)
  obtain ⟨d, hd, rfl⟩ := exists_digit hc
  exact toUpper_digitOf d hd

theorem valueOf?_toUpper (c : Char) : valueOf? c.toUpper = valueOf? c := by
  rw [valueOf?, valueOf?, toUpper_toUpper]

/-- Digits are read whatever their case. -/
theorem decodeDigits_map_toUpper (n : BitVec 128) (cs : List Char) :
    decodeDigits n (cs.map Char.toUpper) = decodeDigits n cs := by
  induction cs generalizing n with
  | nil => rfl
  | cons c cs ih =>
      rw [List.map_cons, decodeDigits, decodeDigits, valueOf?_toUpper]
      cases valueOf? c with
      | none => rfl
      | some d => exact ih _

/-! What is read from digits. -/

theorem digitOf_of_valueOf? {c : Char} {d : Nat} (h : valueOf? c = some d) :
    d < 32 ∧ c.toUpper = digitOf d := by
  obtain ⟨hd, hc, -⟩ := List.idxOf?_eq_some_iff.mp h
  refine ⟨hd, ?_⟩
  rw [digitOf, List.getD_eq_getElem?_getD, List.getElem?_eq_getElem hd, Option.getD_some, hc]

/-- The highest digit comes first. -/
theorem encodeDigits_cons {count k : Nat} (hk : k < 32 ^ count) {d : Nat} (hd : d < 32) :
    encodeDigits (count + 1) (d * 32 ^ count + k) = digitOf d :: encodeDigits count k := by
  induction count generalizing k with
  | zero =>
      obtain rfl : k = 0 := by omega
      simp [encodeDigits, Nat.mod_eq_of_lt hd]
  | succ count ih =>
      have hk' : k / 32 < 32 ^ count := by
        rw [Nat.pow_succ] at hk
        omega
      have split : d * 32 ^ (count + 1) + k = d * 32 ^ count * 32 + k := by
        rw [Nat.pow_succ, Nat.mul_assoc]
      have high : (d * 32 ^ (count + 1) + k) / 32 = d * 32 ^ count + k / 32 := by omega
      have low : (d * 32 ^ (count + 1) + k) % 32 = k % 32 := by omega
      rw [encodeDigits, high, low, ih hk', encodeDigits, List.cons_append]

/-- Whatever is read are the digits of some number, in any case. -/
theorem digits_of_decodeDigits {cs : List Char} {high : Nat} {m : BitVec 128}
    (h : decodeDigits (BitVec.ofNat 128 high) cs = .ok m) :
    ∃ k, k < 32 ^ cs.length ∧ cs.map Char.toUpper = encodeDigits cs.length k ∧
      m = BitVec.ofNat 128 (high * 32 ^ cs.length + k) := by
  induction cs generalizing high with
  | nil =>
      refine ⟨0, Nat.one_pos, rfl, ?_⟩
      rw [List.length_nil, Nat.pow_zero, Nat.mul_one, Nat.add_zero]
      exact (Except.ok.inj h).symm
  | cons c cs ih =>
      rw [decodeDigits] at h
      cases hv : valueOf? c with
      | none =>
          rw [hv] at h
          cases h
      | some d =>
          obtain ⟨hd, hc⟩ := digitOf_of_valueOf? hv
          simp only [hv, ofNat_shift _ hd] at h
          obtain ⟨k, hk, hcs, rfl⟩ := ih h
          refine ⟨d * 32 ^ cs.length + k, ?_, ?_, ?_⟩
          · have room : d * 32 ^ cs.length + 32 ^ cs.length ≤ 32 * 32 ^ cs.length := by
              rw [← Nat.succ_mul]
              exact Nat.mul_le_mul_right _ hd
            rw [List.length_cons, Nat.pow_succ]
            omega
          · rw [List.map_cons, List.length_cons, encodeDigits_cons hk hd, hc, hcs]
          · rw [List.length_cons, Nat.pow_succ, Nat.add_mul, Nat.mul_assoc,
              Nat.mul_comm 32, Nat.add_assoc]

/-- The characters are the digits of a number of 130 bits, in any case, and this is what is left
of it in 128 bits. -/
def Spells (cs : List Char) (n : BitVec 128) : Prop :=
  ∃ k, k < 32 ^ width ∧ cs.map Char.toUpper = encodeDigits width k ∧ BitVec.ofNat 128 k = n

variable {cs : List Char} {n : BitVec 128}

theorem Spells.length (h : Spells cs n) : cs.length = width := by
  obtain ⟨k, -, hcs, -⟩ := h
  rw [← List.length_map Char.toUpper, hcs, length_encodeDigits]

theorem Spells.exists_digit {c : Char} (h : Spells cs n) (hc : c ∈ cs) :
    ∃ d, d < 32 ∧ c.toUpper = digitOf d := by
  obtain ⟨k, -, hcs, -⟩ := h
  have upper : c.toUpper ∈ encodeDigits width k := hcs ▸ List.mem_map_of_mem hc
  exact Base32.exists_digit upper

theorem Spells.utf8Size (h : Spells cs n) : ∀ c ∈ cs, c.utf8Size = 1 := by
  intro c hc
  obtain ⟨d, hd, upper⟩ := h.exists_digit hc
  rw [← utf8Size_toUpper, upper, utf8Size_digitOf d hd]

/-- A hyphen, which every mark ends with, is not a digit. -/
theorem Spells.not_mem_hyphen (h : Spells cs n) : '-' ∉ cs := by
  intro hc
  obtain ⟨d, hd, upper⟩ := h.exists_digit hc
  have none : ∀ d : Nat, d < 32 → '-'.toUpper ≠ digitOf d := by decide
  exact none d hd upper

theorem spells_of_recased (h : cs.map Char.toUpper = encodeDigits width n.toNat) : Spells cs n := by
  refine ⟨n.toNat, Nat.lt_trans n.isLt (by decide), h, ?_⟩
  rw [BitVec.ofNat_toNat, BitVec.setWidth_eq]

/-- Exactly such texts are read. -/
theorem decode_eq_ok_iff {s : String} : decode s = .ok n ↔ Spells s.toList n := by
  unfold decode
  constructor
  · intro h
    split at h
    · next size =>
      have h : decodeDigits (BitVec.ofNat 128 0) s.toList = .ok n := h
      obtain ⟨k, hk, hcs, hn⟩ := digits_of_decodeDigits h
      have narrow : ∀ c ∈ s.toList, c.utf8Size = 1 := by
        intro c hc
        have upper : c.toUpper ∈ encodeDigits s.toList.length k := hcs ▸ List.mem_map_of_mem hc
        rw [← utf8Size_toUpper, utf8Size_encodeDigits _ upper]
      have length : s.toList.length = width := by
        rw [← utf8ByteSize_ofList narrow, String.ofList_toList, size]
      rw [length] at hk hcs hn
      rw [Nat.zero_mul, Nat.zero_add] at hn
      exact ⟨k, hk, hcs, hn.symm⟩
    · cases h
  · intro h
    have size : s.utf8ByteSize = width := by
      rw [← String.ofList_toList (s := s), utf8ByteSize_ofList h.utf8Size, h.length]
    obtain ⟨k, hk, hcs, rfl⟩ := h
    have digits := decodeDigits_encodeDigits width k 0 []
    rw [List.append_nil, Nat.zero_mul, Nat.zero_add, Nat.mod_eq_of_lt hk] at digits
    rw [if_pos size, ← decodeDigits_map_toUpper, hcs]
    exact digits

end Base32

namespace Id

open Base32 (Spells)

variable {kind other : IdKind} {id : Id kind} {s : String}

theorem map_decode_eq_ok_iff :
    (Base32.decode s).map Id.mk = (.ok id : Except Base32.Fault (Id kind)) ↔
      Spells s.toList id.number := by
  rw [← Base32.decode_eq_ok_iff]
  cases Base32.decode s with
  | error e => simp [Except.map]
  | ok n =>
      simp only [Except.map, Except.ok.injEq]
      exact ⟨fun h => h ▸ rfl, fun h => h ▸ rfl⟩

/-- After the mark of its kind, a text is read as it would be without. -/
theorem ofText_mark_append (cs : List Char) :
    (ofText (String.ofList (kind.mark ++ cs)) : Except Base32.Fault (Id kind))
      = (Base32.decode (String.ofList cs)).map Id.mk := by
  have marked : kind.mark.isPrefixOf (kind.mark ++ cs) :=
    List.isPrefixOf_iff_prefix.mpr (List.prefix_append _ _)
  rw [ofText, String.toList_ofList, if_pos marked, List.drop_left]

theorem ofText_of_not_mark (h : ¬ kind.mark <+: s.toList) :
    (ofText s : Except Base32.Fault (Id kind)) = (Base32.decode s).map Id.mk := by
  rw [ofText, if_neg (mt List.isPrefixOf_iff_prefix.mp h)]

theorem hyphen_mem_mark (kind : IdKind) : '-' ∈ kind.mark := by
  cases kind <;> decide

/-- An identifier is read from its spellings, and from these after the mark of its kind. -/
theorem ofText_eq_ok_iff : ofText s = .ok id ↔
    Spells s.toList id.number ∨ ∃ cs, s.toList = kind.mark ++ cs ∧ Spells cs id.number := by
  by_cases h : kind.mark <+: s.toList
  · obtain ⟨cs, hcs⟩ := h
    have bare : ¬ Spells (kind.mark ++ cs) id.number := by
      intro spells
      exact spells.not_mem_hyphen (List.mem_append_left _ (hyphen_mem_mark kind))
    have text : s = String.ofList (kind.mark ++ cs) := by rw [hcs, String.ofList_toList]
    rw [text, ofText_mark_append, map_decode_eq_ok_iff, String.toList_ofList,
      String.toList_ofList, or_iff_right bare]
    simp only [List.append_cancel_left_eq, exists_eq_left']
  · have unmarked : ¬ ∃ cs, s.toList = kind.mark ++ cs ∧ Spells cs id.number := by
      rintro ⟨cs, hcs, -⟩
      exact h ⟨cs, hcs.symm⟩
    rw [ofText_of_not_mark h, map_decode_eq_ok_iff, or_iff_left unmarked]

theorem toList_display (id : Id kind) : id.display.toList = kind.mark ++ id.digits.toList := by
  rw [display, String.toList_append, String.toList_ofList]

/-- With a mark in front there are too many bytes. -/
theorem decode_display (id : Id kind) : Base32.decode id.display = .error .length := by
  have digits : id.digits.utf8ByteSize = Base32.width := by
    rw [Id.digits, Base32.encode, Base32.utf8ByteSize_ofList Base32.utf8Size_encodeDigits,
      Base32.length_encodeDigits]
  have mark : 0 < (String.ofList kind.mark).utf8ByteSize := by cases kind <;> decide
  rw [Base32.decode, if_neg]
  rw [display, String.utf8ByteSize_append, digits]
  omega

/-- The mark of the other kind is not read. -/
theorem ofText_display_of_ne (h : other ≠ kind) (id : Id kind) :
    (ofText id.display : Except Base32.Fault (Id other)) = .error .length := by
  have unmarked : ¬ other.mark <+: id.display.toList := by
    rw [toList_display]
    cases kind <;> cases other <;> simp [IdKind.mark] at h ⊢
  rw [ofText_of_not_mark unmarked, decode_display]
  rfl

/-! Identifiers in JSON. -/

/-- A text without characters to be escaped stands in JSON as it is. -/
theorem render_str (h : ∀ c ∈ s.toList, Json.escapedChar c = [c]) :
    (Json.str s).render = "\"" ++ s ++ "\"" := by
  have plain : s.toList.flatMap Json.escapedChar = s.toList := by
    refine (List.flatMap_congr h).trans ?_
    simp
  rw [Json.render, Json.str, Json.renderChars, Json.renderText, plain]
  apply String.toList_injective
  simp

theorem plain_digits (id : Id kind) : ∀ c ∈ id.digits.toList, Json.escapedChar c = [c] := by
  intro c hc
  rw [digits, Base32.encode, String.toList_ofList] at hc
  obtain ⟨d, hd, rfl⟩ := Base32.exists_digit hc
  have plain : ∀ d : Nat, d < 32 →
      Json.escapedChar (Base32.digitOf d) = [Base32.digitOf d] := by decide
  exact plain d hd

theorem plain_display (id : Id kind) : ∀ c ∈ id.display.toList, Json.escapedChar c = [c] := by
  intro c hc
  rw [toList_display, List.mem_append] at hc
  cases hc with
  | inl hc =>
      have plain : kind.mark.all fun c => Json.escapedChar c = [c] := by
        cases kind <;> decide
      exact of_decide_eq_true (List.all_eq_true.mp plain c hc)
  | inr hc => exact plain_digits id c hc

/-- A text in JSON is read as a bare identifier. -/
theorem ofJson?_render_str (s : String) :
    ((Json.parse (Json.str s).render).bind ofJson? : Option (Id kind))
      = ((Base32.decode s).map Id.mk).toOption := by
  rw [Json.parse_render (Json.printable_str s)]
  simp only [Option.bind_some, ofJson?, Json.str, Json.text?, Option.bind_eq_bind]
  cases Base32.decode s with
  | error e => rfl
  | ok n => rfl

/-- An identifier is read back from its display form and from its bare digits, whatever the case
of the digits, and from its JSON, which is the bare form. The display form is not read as JSON,
nor as an identifier of the other kind. So what has been read from any text is read again from
its own display form. -/
theorem round_trip_by_kind (id : Id kind) :
    ofText id.display = .ok id ∧ ofText id.digits = .ok id ∧
      (∀ cs, cs.map Char.toUpper = id.digits.toList →
        ofText (String.ofList cs) = .ok id ∧
          ofText (String.ofList (kind.mark ++ cs)) = .ok id) ∧
      id.toJson.render = "\"" ++ id.digits ++ "\"" ∧
      (Json.parse id.toJson.render).bind ofJson? = some id ∧
      (Json.parse ("\"" ++ id.display ++ "\"")).bind (ofJson? : Json → Option (Id kind)) = none ∧
      (∀ other, other ≠ kind →
        (ofText id.display : Except Base32.Fault (Id other)) = .error .length) ∧
      ∀ s (read : Id kind), ofText s = .ok read → ofText read.display = .ok read := by
  have recased (id : Id kind) (cs : List Char) (h : cs.map Char.toUpper = id.digits.toList) :
      ofText (String.ofList cs) = .ok id ∧
        ofText (String.ofList (kind.mark ++ cs)) = .ok id := by
    rw [digits, Base32.encode, String.toList_ofList] at h
    have spells := Base32.spells_of_recased h
    refine ⟨ofText_eq_ok_iff.mpr (.inl ?_), ofText_eq_ok_iff.mpr (.inr ⟨cs, ?_, spells⟩)⟩
    · rwa [String.toList_ofList]
    · rw [String.toList_ofList]
  have own (id : Id kind) : id.digits.toList.map Char.toUpper = id.digits.toList := by
    rw [digits, Base32.encode, String.toList_ofList, Base32.map_toUpper_encodeDigits]
  have displayed (id : Id kind) : ofText id.display = .ok id := by
    rw [← String.ofList_toList (s := id.display), toList_display]
    exact (recased id _ (own id)).2
  refine ⟨displayed id, ?_, recased id, render_str (plain_digits id), ?_, ?_,
    fun other h => ofText_display_of_ne h id, fun _ read _ => displayed read⟩
  · rw [← String.ofList_toList (s := id.digits)]
    exact (recased id _ (own id)).1
  · rw [toJson, ofJson?_render_str, digits, Base32.decode_encode]
    rfl
  · rw [← render_str (plain_display id), ofJson?_render_str, decode_display]
    rfl

/-- The number of a million, in small letters. -/
theorem round_trip_by_kind_small_letters :
    "0000000000000000000000ygj0".toList.map Char.toUpper
        = (⟨1000000⟩ : TaskOid).digits.toList ∧
      ofText "0000000000000000000000ygj0" = .ok (⟨1000000⟩ : TaskOid) ∧
      ofText "task-0000000000000000000000ygj0" = .ok (⟨1000000⟩ : TaskOid) ∧
      (ofText (⟨1000000⟩ : TaskOid).display : Except Base32.Fault ChildId) = .error .length := by
  have recased : "0000000000000000000000ygj0".toList.map Char.toUpper
      = (⟨1000000⟩ : TaskOid).digits.toList := by decide
  obtain ⟨-, -, small, -, -, -, mixed, -⟩ := round_trip_by_kind (⟨1000000⟩ : TaskOid)
  exact ⟨recased, (small _ recased).1, (small _ recased).2, mixed .child (by decide)⟩

end Id
end TaskFiring
