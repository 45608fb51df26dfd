import Mathlib.Algebra.Group.Nat.Defs
import TaskFiring.Json.Reader
import TaskFiring.Json.Record
import TaskFiring.Time.Stamp

/-!
Numbers in decimal digits, written and read. What is written of a number has digits only, no
zero in front but for the number zero, and as many digits as asked for; read up to where
the digits end, it gives the number again.
-/

namespace TaskFiring

theorem isDigit_range {c : Char} (hc : c.isDigit) : 48 ≤ c.toNat ∧ c.toNat ≤ 57 := by
  simp only [Char.isDigit, Bool.and_eq_true, decide_eq_true_eq, UInt32.le_iff_toNat_le] at hc
  exact hc

/-- No digit comes first. -/
def Stops (cs : List Char) : Prop := ∀ c, cs.head? = some c → c.isDigit = false

section

variable {ds rest : List Char}

theorem takeWhile_isDigit (hds : ∀ c ∈ ds, c.isDigit) (hrest : Stops rest) :
    (ds ++ rest).takeWhile Char.isDigit = ds := by
  rw [List.takeWhile_append_of_pos hds]
  cases rest with
  | nil => simp
  | cons c rest => simp [hrest c rfl]

theorem dropWhile_isDigit (hds : ∀ c ∈ ds, c.isDigit) (hrest : Stops rest) :
    (ds ++ rest).dropWhile Char.isDigit = rest := by
  rw [List.dropWhile_append_of_pos hds]
  cases rest with
  | nil => simp
  | cons c rest => simp [hrest c rfl]

end

namespace Json

theorem readNat_eq (ds : List Char) : readNat ds = Nat.ofDigitChars 10 ds 0 := by
  simp only [readNat, Nat.ofDigitChars_eq_foldl, Nat.mul_comm]

@[simp] theorem readNat_toDigits (n : Nat) : readNat (Nat.toDigits 10 n) = n := by
  rw [readNat_eq, Nat.ofDigitChars_toDigits (by decide) (by decide)]

theorem readNat_lt {ds : List Char} (hds : ∀ c ∈ ds, c.isDigit) : readNat ds < 10 ^ ds.length := by
  -- The value read so far grows by a factor of ten with each digit.
  have hfrom (value : Nat) : ds.foldl (fun n c => n * 10 + (c.toNat - '0'.toNat)) value
      < (value + 1) * 10 ^ ds.length := by
    induction ds generalizing value with
    | nil => simp
    | cons c ds ih =>
        obtain ⟨hc, hds⟩ := List.forall_mem_cons.mp hds
        have hvalue : c.toNat - '0'.toNat < 10 := by
          have hrange := isDigit_range hc
          have hzero : '0'.toNat = 48 := rfl
          omega
        calc (c :: ds).foldl (fun n c => n * 10 + (c.toNat - '0'.toNat)) value
            < (value * 10 + (c.toNat - '0'.toNat) + 1) * 10 ^ ds.length := ih hds _
          _ ≤ ((value + 1) * 10) * 10 ^ ds.length := Nat.mul_le_mul_right _ (by omega)
          _ = (value + 1) * 10 ^ (c :: ds).length := by
              rw [List.length_cons, Nat.pow_succ', Nat.mul_assoc]
  simpa [readNat] using hfrom 0

theorem readNat_zeros (count : Nat) (ds : List Char) :
    readNat (List.replicate count '0' ++ ds) = readNat ds := by
  induction count with
  | zero => rfl
  | succ count ih => exact ih

theorem isDigit_of_mem_toDigits {n : Nat} : ∀ c ∈ Nat.toDigits 10 n, c.isDigit :=
  fun _ hc => Nat.isDigit_of_mem_toDigits (by decide) (by decide) hc

/-- Only the number zero begins with a zero. -/
theorem head?_toDigits {n : Nat} (h : (Nat.toDigits 10 n).head? = some '0') : n = 0 := by
  induction n using Nat.strongRecOn with
  | ind n ih =>
      by_cases hn : n < 10
      · rw [Nat.toDigits_of_lt_base hn] at h
        have hdigit : n.digitChar.toNat = 48 := by rw [Option.some.inj h]; rfl
        rw [Nat.toNat_digitChar_of_lt_ten hn] at hdigit
        omega
      · rw [Nat.toDigits_of_base_le (by decide) (by omega)] at h
        have hten : (Nat.toDigits 10 (n / 10)).head? = some '0' := by
          cases hds : Nat.toDigits 10 (n / 10) with
          | nil => exact absurd hds Nat.toDigits_ne_nil
          | cons d ds => simpa [hds] using h
        have hzero := ih (n / 10) (by omega) hten
        omega

theorem digits?_append {ds rest : List Char} (hne : ds ≠ []) (hds : ∀ c ∈ ds, c.isDigit)
    (hrest : Stops rest) : digits? (ds ++ rest) = some (ds, rest) := by
  unfold digits?
  rw [takeWhile_isDigit hds hrest, dropWhile_isDigit hds hrest]
  cases ds with
  | nil => exact absurd rfl hne
  | cons d ds => rfl

/-- A text after which a number is over. -/
def Ends (cs : List Char) : Prop :=
  ∀ c, cs.head? = some c → c.isDigit = false ∧ c ≠ '.' ∧ c ≠ 'e' ∧ c ≠ 'E'

theorem numberLiteral?_toDigits (n : Nat) {rest : List Char} (hrest : Ends rest) :
    numberLiteral? (Nat.toDigits 10 n ++ rest) = some (Nat.toDigits 10 n, rest) := by
  have hstops : Stops rest := fun c hc => (hrest c hc).1
  have hdigits : digits? (Nat.toDigits 10 n ++ rest) = some (Nat.toDigits 10 n, rest) :=
    digits?_append Nat.toDigits_ne_nil isDigit_of_mem_toDigits hstops
  have hfraction : fraction? rest = some ([], rest) := by
    unfold fraction?
    split
    · exact absurd rfl (hrest _ rfl).2.1
    · rfl
  have hexponent : exponent? rest = some ([], rest) := by
    cases rest with
    | nil => rfl
    | cons c rest =>
        obtain ⟨-, -, he, hE⟩ := hrest c rfl
        simp [exponent?, he, hE]
  have hzero : ¬ ((Nat.toDigits 10 n).head? = some '0' ∧ (Nat.toDigits 10 n).length ≠ 1) := by
    intro h
    have hn := head?_toDigits h.1
    subst hn
    exact h.2 rfl
  have hminus : ∀ cs, Nat.toDigits 10 n ++ rest ≠ '-' :: cs := by
    intro cs h
    cases hds : Nat.toDigits 10 n with
    | nil => exact absurd hds Nat.toDigits_ne_nil
    | cons d ds =>
        have hd : d.isDigit := isDigit_of_mem_toDigits d (by rw [hds]; exact List.mem_cons_self)
        rw [hds] at h
        cases h
        cases hd
  unfold numberLiteral?
  split
  next sign cs hsign =>
  split at hsign
  · next cs' h => exact absurd h (hminus cs')
  · cases hsign
    simp only [hdigits, hfraction, hexponent, hzero, Option.bind_eq_bind, Option.bind_some,
      if_false, List.nil_append, List.append_nil]

end Json

namespace Instant

variable {width most n : Nat}

theorem isDigit_of_mem_padded : ∀ c ∈ padded width n, c.isDigit := by
  intro c hc
  simp only [padded, List.mem_append, List.mem_replicate] at hc
  obtain ⟨-, rfl⟩ | hc := hc
  · rfl
  · exact Json.isDigit_of_mem_toDigits c hc

@[simp] theorem readNat_padded (width n : Nat) : Json.readNat (padded width n) = n := by
  rw [padded, Json.readNat_zeros, Json.readNat_toDigits]

theorem length_padded (hwidth : 0 < width) (hn : n < 10 ^ width) :
    (padded width n).length = width := by
  have hlength := (Nat.length_toDigits_le_iff (b := 10) (by decide) hwidth).mpr hn
  simp only [padded, List.length_append, List.length_replicate]
  omega

theorem padded_ne_nil (width n : Nat) : padded width n ≠ [] := by
  simp [padded, Nat.toDigits_ne_nil]

/-- Digits end where a text does not go on with one, or where there are as many as may be. -/
theorem takeWhile_take_isDigit {ds : List Char} (rest : List Char) (hds : ∀ c ∈ ds, c.isDigit)
    (hlength : ds.length ≤ most) (hrest : ds.length = most ∨ Stops rest) :
    ((ds ++ rest).take most).takeWhile Char.isDigit = ds := by
  have hstops : Stops (rest.take (most - ds.length)) := by
    cases hrest with
    | inl h => simp [h, Stops]
    | inr h =>
        intro c hc
        rw [List.head?_take] at hc
        split at hc
        · cases hc
        · exact h c hc
  rw [List.take_append, List.take_of_length_le hlength, takeWhile_isDigit hds hstops]

theorem readDigits_append {ds : List Char} (rest : List Char) (hne : ds ≠ [])
    (hds : ∀ c ∈ ds, c.isDigit) (hlength : ds.length ≤ most)
    (hrest : ds.length = most ∨ Stops rest) :
    readDigits most (ds ++ rest) = some (Json.readNat ds, rest) := by
  unfold readDigits
  rw [takeWhile_take_isDigit rest hds hlength hrest]
  simp [hne, Json.readNat]

end Instant

end TaskFiring
