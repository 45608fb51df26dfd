import TaskFiring.Proofs.Calendar
import TaskFiring.Proofs.Numerals

/-!
Times as text that can be read. A time is tellable if it is in range and a leap second of it is
the last second of its minute: such a time is read from its stamp. Whatever time a text names
is tellable, since offsets are whole minutes.
-/

namespace TaskFiring
namespace Instant

/-- Some text names the time. -/
structure Tellable (t : Instant) : Prop where
  inRange : t.inRange
  leap : t.nanos < nanosPerSecond ∨ t.seconds % 60 = 59

/-! Parts of a stamp. -/

section

variable {rest : List Char} {n : Nat}

theorem isBlank_of_isDigit {c : Char} (hc : c.isDigit) : Text.isBlank c = false := by
  have hrange := isDigit_range hc
  simp only [Text.isBlank, Bool.or_eq_false_iff, Bool.and_eq_false_iff, decide_eq_false_iff_not,
    beq_eq_false_iff_ne]
  omega

theorem trimLeft_cons {c : Char} (hc : Text.isBlank c = false) (cs : List Char) :
    Text.trimLeft (c :: cs) = c :: cs := by
  simp [Text.trimLeft, hc]

theorem padded_cons (width n : Nat) : ∃ d ds, padded width n = d :: ds ∧ d.isDigit := by
  cases hds : padded width n with
  | nil => exact absurd hds (padded_ne_nil width n)
  | cons d ds =>
      exact ⟨d, ds, rfl, isDigit_of_mem_padded d (by rw [hds]; exact List.mem_cons_self)⟩

theorem trimLeft_padded (width n : Nat) (rest : List Char) :
    Text.trimLeft (padded width n ++ rest) = padded width n ++ rest := by
  obtain ⟨d, ds, h, hd⟩ := padded_cons width n
  rw [h]
  exact trimLeft_cons (isBlank_of_isDigit hd) _

theorem readMark_cons {mark : Char} (hmark : Text.isBlank mark = false) (cs : List Char) :
    readMark mark (mark :: cs) = some cs := by
  simp [readMark, trimLeft_cons hmark]

/-- A number below 100 is read from its two digits. -/
theorem readPart_padded {low high : Nat} (hlow : low ≤ n) (hhigh : n ≤ high) (hn : n < 100)
    (rest : List Char) : readPart 2 low high (padded 2 n ++ rest) = some (n, rest) := by
  have hlength : (padded 2 n).length = 2 := length_padded (by decide) hn
  have hdigits := readDigits_append rest (padded_ne_nil 2 n) isDigit_of_mem_padded hlength.le
    (.inl hlength)
  rw [readNat_padded] at hdigits
  simp [readPart, trimLeft_padded, hdigits, hlow, hhigh]

theorem stops_cons {c : Char} (hc : c.isDigit = false) (cs : List Char) : Stops (c :: cs) := by
  intro d hd
  cases hd
  exact hc

/-- After a sign, all digits are read. -/
theorem readDigits_signed (n : Nat) (rest : List Char) :
    readDigits (padded 4 n ++ '-' :: rest).length (padded 4 n ++ '-' :: rest)
      = some (n, '-' :: rest) := by
  rw [readDigits_append _ (padded_ne_nil 4 n) isDigit_of_mem_padded (by simp)
    (.inr (stops_cons rfl rest)), readNat_padded]

theorem readYear_yearText (year : Int) (rest : List Char) :
    readYear (yearText year ++ '-' :: rest) = some (year, '-' :: rest) := by
  unfold yearText
  split
  · next h =>
    have hlength : (padded 4 year.toNat).length = 4 := length_padded (by decide) (by omega)
    have hdigits := readDigits_append ('-' :: rest) (padded_ne_nil 4 year.toNat)
      isDigit_of_mem_padded hlength.le (.inl hlength)
    obtain ⟨d, ds, hcons, hd⟩ := padded_cons 4 year.toNat
    unfold readYear
    rw [trimLeft_padded]
    split
    · next hminus =>
      rw [hcons] at hminus
      cases hminus
      cases hd
    · next hplus =>
      rw [hcons] at hplus
      cases hplus
      cases hd
    · simp only [hdigits, readNat_padded, Option.map_some]
      rw [Int.toNat_of_nonneg h.1]
  · by_cases hnegative : year < 0
    · simp only [hnegative, if_true, List.cons_append, readYear,
        trimLeft_cons (show Text.isBlank '-' = false by decide), readDigits_signed,
        Option.map_some]
      congr
      omega
    · simp only [hnegative, if_false, List.cons_append, readYear,
        trimLeft_cons (show Text.isBlank '+' = false by decide), readDigits_signed,
        Option.map_some]
      congr
      omega

/-- A fraction of so many digits. -/
theorem readFraction_padded {width n : Nat} (hwidth : 0 < width) (hmost : width ≤ 9)
    (hn : n < 10 ^ width) (rest : List Char) :
    readFraction ('.' :: (padded width n ++ 'Z' :: rest))
      = some (n * 10 ^ (9 - width), 'Z' :: rest) := by
  have hlength := length_padded hwidth hn
  have hstops : Stops ('Z' :: rest) := stops_cons rfl rest
  have hdigits := readDigits_append ('Z' :: rest) (padded_ne_nil width n) isDigit_of_mem_padded
    (hlength.le.trans hmost) (.inr hstops)
  have hcount := takeWhile_take_isDigit ('Z' :: rest) (isDigit_of_mem_padded (n := n))
    (hlength.le.trans hmost) (.inr hstops)
  rw [readFraction, hdigits, hcount, hlength, readNat_padded]
  rfl

theorem readFraction_fractionText {nanos : Nat} (hn : nanos < nanosPerSecond) (rest : List Char) :
    readFraction (fractionText nanos ++ 'Z' :: rest) = some (nanos, 'Z' :: rest) := by
  unfold nanosPerSecond at hn
  unfold fractionText
  split
  · next h => rw [h]; rfl
  split
  · next h =>
    rw [List.cons_append, readFraction_padded (by decide) (by decide) (by omega)]
    congr
    omega
  split
  · next h =>
    rw [List.cons_append, readFraction_padded (by decide) (by decide) (by omega)]
    congr
    omega
  · rw [List.cons_append, readFraction_padded (by decide) (by decide) (by omega)]
    congr
    omega

end

/-! A whole stamp. -/

section

variable {t : Instant}

theorem secondOfDay_lt (t : Instant) : t.secondOfDay < 86400 := by
  unfold secondOfDay secondsPerDay
  omega

/-- The seconds of a time by its day and the time of day. -/
theorem seconds_eq (t : Instant) :
    t.date.toDays * secondsPerDay + (t.secondOfDay : Nat) = t.seconds := by
  rw [date, Date.toDays_ofDays]
  unfold secondOfDay secondsPerDay
  omega

/-- The parts of a stamp in a row. -/
theorem stampChars_eq (t : Instant) :
    t.stampChars = yearText t.date.year ++ '-' :: (padded 2 t.date.month ++ '-' ::
      (padded 2 t.date.day ++ 'T' :: (padded 2 (t.secondOfDay / 3600) ++ ':' ::
        (padded 2 (t.secondOfDay / 60 % 60) ++ ':' ::
          (padded 2 (t.secondOfDay % 60 + t.nanos / nanosPerSecond) ++
            (fractionText (t.nanos % nanosPerSecond) ++ ['Z'])))))) := by
  simp only [stampChars, dateText, timeText, List.append_assoc, List.cons_append]

theorem readOffset_utc : readOffset ['Z'] = some (0, []) := rfl

/-- A sixtieth second shows just where there is a leap, and so after the fifty-ninth. -/
theorem second_shown (ht : t.Tellable) :
    (t.secondOfDay % 60 + t.nanos / nanosPerSecond = 60 ↔ nanosPerSecond ≤ t.nanos) ∧
      (nanosPerSecond ≤ t.nanos → t.secondOfDay % 60 = 59) := by
  have hnanos := t.nanos_lt
  have hleap := ht.leap
  have hminute : t.secondOfDay % 60 = t.seconds % 60 := by
    unfold secondOfDay secondsPerDay
    omega
  unfold nanosPerSecond at hleap ⊢
  omega

theorem second_read (ht : t.Tellable) :
    t.secondOfDay / 3600 * 3600 + t.secondOfDay / 60 % 60 * 60
      + (if t.secondOfDay % 60 + t.nanos / nanosPerSecond = 60 then 59
        else t.secondOfDay % 60 + t.nanos / nanosPerSecond) = t.secondOfDay := by
  obtain ⟨hshown, hlast⟩ := second_shown ht
  simp only [hshown]
  unfold nanosPerSecond at hlast ⊢
  split <;> omega

theorem nanos_read (ht : t.Tellable) :
    t.nanos % nanosPerSecond
      + (if t.secondOfDay % 60 + t.nanos / nanosPerSecond = 60 then nanosPerSecond else 0)
        = t.nanos := by
  have hnanos := t.nanos_lt
  obtain ⟨hshown, -⟩ := second_shown ht
  simp only [hshown]
  unfold nanosPerSecond
  split <;> omega

theorem readPart_month (t : Instant) (rest : List Char) :
    readPart 2 1 12 (padded 2 t.date.month ++ rest) = some (t.date.month, rest) := by
  have hmonth : 1 ≤ t.date.month ∧ t.date.month ≤ 12 := Date.month_ofDays_range _
  exact readPart_padded hmonth.1 hmonth.2 (by omega) rest

theorem day_le (t : Instant) : t.date.day ≤ Date.daysInMonth t.date.year t.date.month :=
  Date.day_ofDays_le _

theorem readPart_day (t : Instant) (rest : List Char) :
    readPart 2 1 31 (padded 2 t.date.day ++ rest) = some (t.date.day, rest) := by
  have hpos : 1 ≤ t.date.day := Date.day_ofDays_pos _
  have hmost : t.date.day ≤ 31 := t.day_le.trans (Date.daysInMonth_le _ _)
  exact readPart_padded hpos hmost (by omega) rest

theorem readPart_hour (t : Instant) (rest : List Char) :
    readPart 2 0 23 (padded 2 (t.secondOfDay / 3600) ++ rest)
      = some (t.secondOfDay / 3600, rest) := by
  have hsecond := t.secondOfDay_lt
  exact readPart_padded (Nat.zero_le _) (by omega) (by omega) rest

theorem readPart_minute (t : Instant) (rest : List Char) :
    readPart 2 0 59 (padded 2 (t.secondOfDay / 60 % 60) ++ rest)
      = some (t.secondOfDay / 60 % 60, rest) :=
  readPart_padded (Nat.zero_le _) (by omega) (by omega) rest

theorem readPart_second (t : Instant) (rest : List Char) :
    readPart 2 0 60 (padded 2 (t.secondOfDay % 60 + t.nanos / nanosPerSecond) ++ rest)
      = some (t.secondOfDay % 60 + t.nanos / nanosPerSecond, rest) := by
  have hnanos := t.nanos_lt
  have hleap : t.nanos / nanosPerSecond ≤ 1 := by
    unfold nanosPerSecond
    omega
  exact readPart_padded (Nat.zero_le _) (by omega) (by omega) rest

/-- A time is read from its stamp. -/
theorem ofStampChars_stampChars (ht : t.Tellable) : ofStampChars t.stampChars = some t := by
  have hyphen := readMark_cons (show Text.isBlank '-' = false by decide)
  have colon := readMark_cons (show Text.isBlank ':' = false by decide)
  have hfraction : t.nanos % nanosPerSecond < nanosPerSecond := Nat.mod_lt _ (by decide)
  -- The parts are read one after the other; each step leaves the next part in front.
  rw [stampChars_eq, ofStampChars, readYear_yearText, Option.bind_eq_bind, Option.bind_some]
  dsimp only
  rw [hyphen, Option.bind_eq_bind, Option.bind_some, readPart_month, Option.bind_eq_bind,
    Option.bind_some]
  dsimp only
  rw [hyphen, Option.bind_some, readPart_day, Option.bind_some]
  dsimp only
  rw [if_pos (.inl rfl), Option.bind_some, readPart_hour, Option.bind_some]
  dsimp only
  rw [colon, Option.bind_some, readPart_minute, Option.bind_some]
  dsimp only
  rw [colon, Option.bind_some, readPart_second, Option.bind_some]
  dsimp only
  rw [readFraction_fractionText hfraction, Option.bind_some]
  dsimp only
  rw [readOffset_utc, Option.bind_some]
  dsimp only
  have hvalid : ¬ ((!(Text.trimLeft []).isEmpty) = true ∨
      Date.daysInMonth t.date.year t.date.month < t.date.day) := by
    intro h
    cases h with
    | inl hrest => cases hrest
    | inr hlong => exact absurd t.day_le (by omega)
  have hcivil : Instant.inRange { seconds := t.seconds, nanos := 0 } = true := ht.inRange
  simp only [hvalid, second_read ht, nanos_read ht, t.seconds_eq, t.nanos_lt, Int.sub_zero, hcivil,
    ht.inRange, if_false, dif_pos, and_self, if_true]

/-! What is read of any text. -/

theorem readDigits_lt {most n : Nat} {cs rest : List Char}
    (h : readDigits most cs = some (n, rest)) :
    n < 10 ^ ((cs.take most).takeWhile Char.isDigit).length := by
  unfold readDigits at h
  dsimp only at h
  split at h
  · cases h
  · cases h
    exact Json.readNat_lt fun c hc => List.all_eq_true.mp List.all_takeWhile c hc

theorem readFraction_lt {n : Nat} {cs rest : List Char} (h : readFraction cs = some (n, rest)) :
    n < nanosPerSecond := by
  unfold readFraction at h
  split at h
  · next cs =>
    obtain ⟨⟨m, rest'⟩, hdigits, h⟩ := Option.map_eq_some_iff.mp h
    cases h
    have hm := readDigits_lt hdigits
    have hlength : ((cs.take 9).takeWhile Char.isDigit).length ≤ 9 :=
      ((List.takeWhile_sublist _).length_le).trans (List.length_take_le _ _)
    calc m * 10 ^ (9 - ((cs.take 9).takeWhile Char.isDigit).length)
        < 10 ^ ((cs.take 9).takeWhile Char.isDigit).length
            * 10 ^ (9 - ((cs.take 9).takeWhile Char.isDigit).length) :=
          Nat.mul_lt_mul_of_pos_right hm (Nat.pow_pos (by decide))
      _ = nanosPerSecond := by
          rw [← Nat.pow_add, Nat.add_sub_cancel' hlength]
          rfl
  · cases h
    decide

theorem readHoursMinutes_minutes {b c : Char} {n : Nat} {cs rest : List Char}
    (h : readHoursMinutes b c cs = some (n, rest)) : n % 60 = 0 := by
  unfold readHoursMinutes at h
  obtain ⟨tens, -, h⟩ := Option.bind_eq_some_iff.mp h
  obtain ⟨ones, -, h⟩ := Option.bind_eq_some_iff.mp h
  split at h
  · obtain ⟨tens', -, h⟩ := Option.bind_eq_some_iff.mp h
    obtain ⟨ones', -, h⟩ := Option.bind_eq_some_iff.mp h
    obtain ⟨-, h⟩ := Option.ite_none_right_eq_some.mp h
    cases h
    omega
  · cases h

/-- Offsets are whole minutes. -/
theorem readOffset_minutes {offset : Int} {cs rest : List Char}
    (h : readOffset cs = some (offset, rest)) : offset % 60 = 0 := by
  unfold readOffset at h
  split at h
  · cases h
    rfl
  · cases h
    rfl
  · split_ifs at h with utc plus minus
    · cases h
      rfl
    · obtain ⟨⟨n, rest⟩, hn, h⟩ := Option.map_eq_some_iff.mp h
      cases h
      have whole := readHoursMinutes_minutes hn
      omega
    · obtain ⟨⟨n, rest⟩, hn, h⟩ := Option.map_eq_some_iff.mp h
      cases h
      have whole := readHoursMinutes_minutes hn
      omega
  · cases h

/-- Whatever is read of a text can be told. -/
theorem tellable_of_ofStampChars {cs : List Char} (h : ofStampChars cs = some t) : t.Tellable := by
  unfold ofStampChars at h
  obtain ⟨⟨year, cs⟩, -, h⟩ := Option.bind_eq_some_iff.mp h
  obtain ⟨cs, -, h⟩ := Option.bind_eq_some_iff.mp h
  obtain ⟨⟨month, cs⟩, -, h⟩ := Option.bind_eq_some_iff.mp h
  obtain ⟨cs, -, h⟩ := Option.bind_eq_some_iff.mp h
  obtain ⟨⟨day, cs⟩, -, h⟩ := Option.bind_eq_some_iff.mp h
  dsimp only at h
  split at h
  · split at h
    · obtain ⟨cs, -, h⟩ := Option.bind_eq_some_iff.mp h
      obtain ⟨⟨hour, cs⟩, -, h⟩ := Option.bind_eq_some_iff.mp h
      obtain ⟨cs, -, h⟩ := Option.bind_eq_some_iff.mp h
      obtain ⟨⟨minute, cs⟩, -, h⟩ := Option.bind_eq_some_iff.mp h
      obtain ⟨cs, -, h⟩ := Option.bind_eq_some_iff.mp h
      obtain ⟨⟨second, cs⟩, -, h⟩ := Option.bind_eq_some_iff.mp h
      obtain ⟨⟨nanos, cs⟩, hfraction, h⟩ := Option.bind_eq_some_iff.mp h
      obtain ⟨⟨offset, cs⟩, hoffset, h⟩ := Option.bind_eq_some_iff.mp h
      dsimp only at h
      obtain ⟨-, h⟩ := Option.ite_none_left_eq_some.mp h
      obtain ⟨hfits, h⟩ := Option.dite_none_right_eq_some.mp h
      obtain ⟨hrange, h⟩ := Option.ite_none_right_eq_some.mp h
      cases h
      have hnanos := readFraction_lt hfraction
      have hminutes := readOffset_minutes hoffset
      refine ⟨hrange.1, ?_⟩
      dsimp only [secondsPerDay]
      by_cases hleap : second = 60
      · right
        rw [if_pos hleap]
        omega
      · left
        rw [if_neg hleap]
        exact hnanos
    · cases h
  · cases h

theorem ofStamp?_stamp (ht : t.Tellable) : ofStamp? t.stamp = some t := by
  rw [ofStamp?, stamp, String.toList_ofList]
  exact ofStampChars_stampChars ht

end

end Instant
end TaskFiring
