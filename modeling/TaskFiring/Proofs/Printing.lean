import TaskFiring.Proofs.Numerals

/-!
JSON text that is written can be read. A value whose numbers are natural and whose texts can be
read is got back from its text, whatever follows it there: the texts by their pieces, the
containers item by item. The length of the text bounds the steps that this takes.
-/

namespace TaskFiring
namespace Json

/-! Texts. -/

/-- The piece that stands for a character in a text that was written. -/
def pieceOf (c : Char) : Piece :=
  if c.toNat < 32 ∧ c ≠ '\n' ∧ c ≠ '\r' ∧ c ≠ '\t' ∧ c.toNat ≠ 8 ∧ c.toNat ≠ 12 then
    .unit c.toNat
  else .char c

theorem hexValue?_hexDigit : ∀ n : Nat, n < 16 → hexValue? (hexDigit n) = some n := by
  decide

section

variable {rest rest' : List Char} {ps : List Piece}

/-- A character with a number below 32 is written by its number, two hexadecimal digits. -/
theorem pieces_unit {n : Nat} (hn : n < 32) (h : pieces rest = some (ps, rest')) :
    pieces ('\\' :: 'u' :: '0' :: '0' :: hexDigit (n / 16) :: hexDigit (n % 16) :: rest)
      = some (.unit n :: ps, rest') := by
  have hzero : hexValue? '0' = some 0 := rfl
  have hhigh := hexValue?_hexDigit (n / 16) (by omega)
  have hlow := hexValue?_hexDigit (n % 16) (by omega)
  have hsum : 0 * 4096 + 0 * 256 + n / 16 * 16 + n % 16 = n := by omega
  rw [pieces, hzero, hhigh, hlow, h]
  simp only [Option.bind_eq_bind, Option.bind_some, hsum]

/-- A character that needs no escape. -/
theorem pieces_plain {c : Char} (hquote : c ≠ '"') (hescape : c ≠ '\\') (hn : ¬ c.toNat < 32)
    (h : pieces rest = some (ps, rest')) :
    pieces (c :: rest) = some (.char c :: ps, rest') := by
  rw [pieces.eq_def]
  split
  · next hc => cases hc
  · next hc => exact absurd (List.cons.inj hc).1 hquote
  · next hc => exact absurd (List.cons.inj hc).1 hescape
  · next hc => exact absurd (List.cons.inj hc).1 hescape
  · next hc =>
    cases hc
    simp only [hn, hescape, or_self, if_false, h, Option.bind_eq_bind, Option.bind_some]

/-- What is written of a character is read as the piece that stands for it. -/
theorem pieces_escapedChar (c : Char) (h : pieces rest = some (ps, rest')) :
    pieces (escapedChar c ++ rest) = some (pieceOf c :: ps, rest') := by
  have hshort {e : Char} (he : pieces ('\\' :: e :: rest) = some (.char c :: ps, rest'))
      (hplain : pieceOf c = .char c) :
      pieces (['\\', e] ++ rest) = some (pieceOf c :: ps, rest') := by
    rw [hplain]
    exact he
  unfold escapedChar
  split
  · next hc => subst hc; exact hshort (by simp [pieces, h]) rfl
  split
  · next hc => subst hc; exact hshort (by simp [pieces, h]) rfl
  split
  · next hc => subst hc; exact hshort (by simp [pieces, h]) rfl
  split
  · next hc => subst hc; exact hshort (by simp [pieces, h]) rfl
  split
  · next hc => subst hc; exact hshort (by simp [pieces, h]) rfl
  have hnumber {n : Nat} (hc : c.toNat = n) : Char.ofNat n = c := by rw [← hc, Char.ofNat_toNat]
  split
  · next hc => exact hshort (by simpa [pieces, h] using hnumber hc) (by simp [pieceOf, hc])
  split
  · next hc => exact hshort (by simpa [pieces, h] using hnumber hc) (by simp [pieceOf, hc])
  split
  · next hquote hescape hn hr ht h8 h12 hc =>
    have hpiece : pieceOf c = .unit c.toNat := if_pos ⟨hc, hn, hr, ht, h8, h12⟩
    rw [hpiece]
    exact pieces_unit hc h
  · next hquote hescape hn hr ht h8 h12 hc =>
    have hpiece : pieceOf c = .char c := if_neg fun hunit => hc hunit.1
    rw [hpiece]
    exact pieces_plain hquote hescape hc h

theorem pieces_flatMap (cs : List Char) (rest : List Char) :
    pieces (cs.flatMap escapedChar ++ '"' :: rest) = some (cs.map pieceOf, rest) := by
  induction cs with
  | nil => simp [pieces]
  | cons c cs ih =>
      rw [List.flatMap_cons, List.append_assoc]
      exact pieces_escapedChar c ih

end

theorem joinPieces_unit {n : Nat} (hn : n < 0xD800) (ps : List Piece) :
    joinPieces (.unit n :: ps) = (joinPieces ps).map (Char.ofNat n :: ·) := by
  have hhigh : ¬ (0xD800 ≤ n ∧ n < 0xDC00) := by omega
  have hlow : ¬ (0xDC00 ≤ n ∧ n < 0xE000) := by omega
  have hnone : ¬ (0xD800 ≤ n ∧ n < 0xE000) := by omega
  cases ps with
  | nil => simp [joinPieces, hnone]
  | cons p ps =>
      cases p with
      | char c => simp [joinPieces, hnone]
      | unit m => simp [joinPieces, hhigh, hlow]

theorem joinPieces_pieceOf (cs : List Char) : joinPieces (cs.map pieceOf) = some cs := by
  induction cs with
  | nil => rfl
  | cons c cs ih =>
      rw [List.map_cons, pieceOf]
      split
      · next h => rw [joinPieces_unit (by omega), ih, Option.map_some, Char.ofNat_toNat]
      · rw [joinPieces, ih, Option.map_some]

/-- A text is read up to its closing quote. -/
theorem readText_renderText (s : String) (rest : List Char) :
    readText (s.toList.flatMap escapedChar ++ '"' :: rest) = some (some s, rest) := by
  unfold readText
  rw [pieces_flatMap]
  simp [joinPieces_pieceOf]

/-! Values. -/

mutual

/-- All numbers in it are natural, and all texts can be read. -/
def Printable : Json → Prop
  | .null | .bool _ => True
  | .number literal => ∃ n, literal = Nat.toDigits 10 n
  | .text s => s.isSome
  | .array js => AllPrintable js
  | .object ms => MembersPrintable ms

def AllPrintable : List Json → Prop
  | [] => True
  | j :: js => j.Printable ∧ AllPrintable js

def MembersPrintable : List (Option String × Json) → Prop
  | [] => True
  | (key, j) :: ms => key.isSome ∧ j.Printable ∧ MembersPrintable ms

end

theorem skip_cons {c : Char} (hc : isSpace c = false) (cs : List Char) :
    skip (c :: cs) = c :: cs := by
  simp [skip, hc]

theorem ends_cons {c : Char} (hc : c = ',' ∨ c = ']' ∨ c = '\x7d') (cs : List Char) :
    Ends (c :: cs) := by
  intro d hd
  cases hd
  rcases hc with rfl | rfl | rfl <;> decide

/-- A digit begins no value but a number. -/
theorem isSpace_of_isDigit {c : Char} (hc : c.isDigit) :
    isSpace c = false ∧ c ≠ ']' ∧ c ≠ 'n' ∧ c ≠ 't' ∧ c ≠ 'f' ∧ c ≠ '"' ∧ c ≠ '[' ∧
      c ≠ '\x7b' := by
  refine ⟨?_, ?_, ?_, ?_, ?_, ?_, ?_, ?_⟩
  · simp only [isSpace, Bool.or_eq_false_iff, decide_eq_false_iff_not]
    refine ⟨⟨⟨?_, ?_⟩, ?_⟩, ?_⟩ <;>
    · intro h
      subst h
      cases hc
  all_goals
    intro h
    subst h
    cases hc

/-- What is written of a value does not begin as the end of a list. -/
theorem renderChars_cons {j : Json} (hj : j.Printable) :
    ∃ c cs, j.renderChars = c :: cs ∧ isSpace c = false ∧ c ≠ ']' := by
  cases j with
  | null => exact ⟨_, _, rfl, by decide, by decide⟩
  | bool b => cases b <;> exact ⟨_, _, rfl, by decide, by decide⟩
  | text s =>
      cases s with
      | none => cases hj
      | some s => exact ⟨_, _, rfl, by decide, by decide⟩
  | array js => exact ⟨_, _, rfl, by decide, by decide⟩
  | object ms => exact ⟨_, _, rfl, by decide, by decide⟩
  | number literal =>
      obtain ⟨n, rfl⟩ := hj
      cases hds : Nat.toDigits 10 n with
      | nil => exact absurd hds Nat.toDigits_ne_nil
      | cons d ds =>
          have hd : d.isDigit := isDigit_of_mem_toDigits d (by rw [hds]; exact List.mem_cons_self)
          obtain ⟨hspace, hclose, -⟩ := isSpace_of_isDigit hd
          exact ⟨d, ds, rfl, hspace, hclose⟩

theorem renderItems_cons {j : Json} (hj : j.Printable) (js : List Json) :
    ∃ c cs, renderItems (j :: js) = c :: cs ∧ isSpace c = false ∧ c ≠ ']' := by
  obtain ⟨c, cs, h, hspace, hclose⟩ := renderChars_cons hj
  cases js with
  | nil => exact ⟨c, cs, h, hspace, hclose⟩
  | cons k js => exact ⟨c, _, by rw [renderItems, h]; rfl, hspace, hclose⟩

/-- What is written of a member begins with the quote of its key. -/
theorem renderMembers_cons (m : Option String × Json) (ms : List (Option String × Json)) :
    ∃ cs, renderMembers (m :: ms) = '"' :: cs := by
  cases ms with
  | nil => exact ⟨_, rfl⟩
  | cons m' ms => exact ⟨_, rfl⟩

theorem length_renderChars_pos {j : Json} (hj : j.Printable) : 0 < j.renderChars.length := by
  obtain ⟨c, cs, h, -⟩ := renderChars_cons hj
  rw [h]
  exact Nat.succ_pos _

theorem value_number (fuel n : Nat) {rest : List Char} (hrest : Ends rest) :
    value (fuel + 1) (Nat.toDigits 10 n ++ rest)
      = some (.number (Nat.toDigits 10 n), rest) := by
  have hnumber := numberLiteral?_toDigits n hrest
  cases hds : Nat.toDigits 10 n with
  | nil => exact absurd hds Nat.toDigits_ne_nil
  | cons d ds =>
      have hd : d.isDigit := isDigit_of_mem_toDigits d (by rw [hds]; exact List.mem_cons_self)
      obtain ⟨hspace, -, hn, ht, hf, hq, ha, ho⟩ := isSpace_of_isDigit hd
      rw [hds] at hnumber
      unfold value
      rw [List.cons_append, skip_cons hspace]
      rw [List.cons_append] at hnumber
      simp [hnumber, hn, ht, hf, hq, ha, ho]

mutual

/-- A value is read from its text, whatever follows. -/
theorem value_renderChars : ∀ (j : Json) (fuel : Nat) (rest : List Char), j.Printable →
    Ends rest → j.renderChars.length ≤ fuel → value fuel (j.renderChars ++ rest) = some (j, rest)
  | j, 0, _, hj, _, hfuel => by
      have hpos := length_renderChars_pos hj
      omega
  | .null, _ + 1, _, _, _, _ => by simp [renderChars, value, skip_cons, isSpace]
  | .bool true, _ + 1, _, _, _, _ => by simp [renderChars, value, skip_cons, isSpace]
  | .bool false, _ + 1, _, _, _, _ => by simp [renderChars, value, skip_cons, isSpace]
  | .text none, _ + 1, _, hj, _, _ => by cases hj
  | .text (some s), _ + 1, rest, _, _, _ => by
      simp [renderChars, renderText, value, skip_cons, isSpace, readText_renderText]
  | .number literal, fuel + 1, rest, hj, hrest, _ => by
      obtain ⟨n, rfl⟩ := hj
      exact value_number fuel n hrest
  | .array [], _ + 1, _, _, _, _ => by
      simp [renderChars, renderItems, value, skip_cons, isSpace]
  | .array (j :: js), fuel + 1, rest, hj, _, hfuel => by
      have hitems := items_renderItems j js fuel rest hj (by simp [renderChars] at hfuel; omega)
      obtain ⟨c, cs, hhead, hspace, hclose⟩ := renderItems_cons hj.1 js
      rw [hhead] at hitems
      rw [List.cons_append] at hitems
      simp [renderChars, value, hhead, hitems, hclose, skip_cons hspace, skip_cons, isSpace]
  | .object [], _ + 1, _, _, _, _ => by
      simp [renderChars, renderMembers, value, skip_cons, isSpace]
  | .object (m :: ms), fuel + 1, rest, hj, _, hfuel => by
      have hmembers := members_renderMembers m ms fuel rest hj
        (by simp [renderChars] at hfuel; omega)
      obtain ⟨cs, hhead⟩ := renderMembers_cons m ms
      rw [hhead, List.cons_append] at hmembers
      simp [renderChars, value, hhead, hmembers, skip_cons, isSpace]

theorem items_renderItems : ∀ (j : Json) (js : List Json) (fuel : Nat) (rest : List Char),
    AllPrintable (j :: js) → (renderItems (j :: js)).length < fuel →
    items fuel (renderItems (j :: js) ++ ']' :: rest) = some (j :: js, rest)
  | _, _, 0, _, _, hfuel => by omega
  | j, [], fuel + 1, rest, hj, hfuel => by
      have hvalue := value_renderChars j fuel (']' :: rest) hj.1 (ends_cons (by simp) rest)
        (by simp [renderItems] at hfuel; omega)
      simp [renderItems, items, hvalue, skip_cons, isSpace]
  | j, k :: js, fuel + 1, rest, hj, hfuel => by
      have hvalue := value_renderChars j fuel (',' :: (renderItems (k :: js) ++ ']' :: rest)) hj.1
        (ends_cons (by simp) _) (by simp [renderItems] at hfuel; omega)
      have hitems := items_renderItems k js fuel rest hj.2 (by simp [renderItems] at hfuel ⊢; omega)
      simp [renderItems, items, hvalue, hitems, skip_cons, isSpace]

theorem members_renderMembers : ∀ (m : Option String × Json) (ms : List (Option String × Json))
    (fuel : Nat) (rest : List Char), MembersPrintable (m :: ms) →
    (renderMembers (m :: ms)).length < fuel →
    members fuel (renderMembers (m :: ms) ++ '\x7d' :: rest) = some (m :: ms, rest)
  | _, _, 0, _, _, hfuel => by omega
  | (none, _), _, _ + 1, _, hm, _ => by cases hm.1
  | (some key, j), [], fuel + 1, rest, hm, hfuel => by
      have hvalue := value_renderChars j fuel ('\x7d' :: rest) hm.2.1 (ends_cons (by simp) rest)
        (by simp [renderMembers] at hfuel; omega)
      simp [renderMembers, renderText, members, readText_renderText, hvalue, skip_cons, isSpace]
  | (some key, j), m :: ms, fuel + 1, rest, hm, hfuel => by
      have hvalue := value_renderChars j fuel (',' :: (renderMembers (m :: ms) ++ '\x7d' :: rest))
        hm.2.1 (ends_cons (by simp) _) (by simp [renderMembers] at hfuel; omega)
      have hmembers := members_renderMembers m ms fuel rest hm.2.2
        (by simp [renderMembers] at hfuel ⊢; omega)
      simp [renderMembers, renderText, members, readText_renderText, hvalue, hmembers, skip_cons,
        isSpace]

end

/-- A value is got back from its text. -/
theorem parse_render {j : Json} (hj : j.Printable) : parse j.render = some j := by
  have hends : Ends [] := by simp [Ends]
  have hvalue := value_renderChars j (j.renderChars.length + 1) [] hj hends (Nat.le_succ _)
  rw [List.append_nil] at hvalue
  simp [parse, render, parseChars, hvalue, skip]

/-! What is written of records. -/

@[simp] theorem printable_bool (b : Bool) : (bool b).Printable := trivial

@[simp] theorem printable_nat (n : Nat) : (nat n).Printable := ⟨n, rfl⟩

@[simp] theorem printable_str (s : String) : (str s).Printable := rfl

theorem printable_option {α : Type} {write : α → Json} (h : ∀ x, (write x).Printable)
    (a : Option α) : (option write a).Printable := by
  cases a with
  | none => trivial
  | some x => exact h x

theorem printable_list {α : Type} {write : α → Json} (h : ∀ x, (write x).Printable)
    (as : List α) : (list write as).Printable := by
  induction as with
  | nil => trivial
  | cons a as ih => exact ⟨h a, ih⟩

theorem printable_record {members : List (String × Json)} :
    (record members).Printable ↔ ∀ m ∈ members, m.2.Printable := by
  induction members with
  | nil => simp [record, Printable, MembersPrintable]
  | cons m members ih =>
      rw [List.forall_mem_cons, ← ih]
      simp [record, Printable, MembersPrintable]

end Json
end TaskFiring
