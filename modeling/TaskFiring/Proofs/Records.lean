import TaskFiring.Json.Record
import TaskFiring.Proofs.Numerals

/-!
Records as they are written can be read. The fields of a record with distinct names are found
under their names, and each reader gets back what was written of its kind of value.
-/

namespace TaskFiring
namespace Json

/-- Where each item is read, the list is read. -/
theorem mapM_eq_some_map {α β : Type} {read : α → Option β} {value : α → β} {as : List α}
    (h : ∀ a ∈ as, read a = some (value a)) : as.mapM read = some (as.map value) := by
  induction as with
  | nil => rfl
  | cons a as ih =>
      obtain ⟨ha, has⟩ := List.forall_mem_cons.mp h
      simp [ha, ih has]

/-- Each item of a list that is read was read. -/
theorem read_of_mem_mapM {α : Type} {read : Json → Option α} {js : List Json} {as : List α}
    (h : js.mapM read = some as) : ∀ a ∈ as, ∃ j, read j = some a := by
  induction js generalizing as with
  | nil =>
      cases h
      intro a ha
      cases ha
  | cons j js ih =>
      rw [List.mapM_cons] at h
      obtain ⟨first, hfirst, h⟩ := Option.bind_eq_some_iff.mp h
      obtain ⟨others, hothers, h⟩ := Option.bind_eq_some_iff.mp h
      cases h
      intro a ha
      cases List.mem_cons.mp ha with
      | inl ha => exact ⟨j, ha ▸ hfirst⟩
      | inr ha => exact ih hothers a ha

/-! Fields. -/

section

variable {members : List (String × Json)}

/-- In a record with distinct names, at most one member has a given name. -/
theorem filter_name (hnames : (members.map (·.1)).Nodup) (name : String) :
    (members.map fun m => (some m.1, m.2)).filter (fun m => decide (m.1 = some name))
      = (members.lookup name).toList.map fun j => (some name, j) := by
  induction members with
  | nil => rfl
  | cons m members ih =>
      obtain ⟨key, j⟩ := m
      obtain ⟨hkey, hrest⟩ := List.nodup_cons.mp hnames
      by_cases hname : name = key
      · subst hname
        have hnone : members.lookup name = none := by
          rw [List.lookup_eq_none_iff]
          intro m hm
          rw [bne_iff_ne]
          intro heq
          exact hkey (List.mem_map.mpr ⟨m, hm, heq.symm⟩)
        simp [ih hrest, hnone]
      · have hother : (name == key) = false := by rw [beq_eq_false_iff_ne]; exact hname
        simp [ih hrest, Ne.symm hname, List.lookup_cons, hother]

/-- The fields of a record, each found under its name. -/
theorem fields?_record (hnames : (members.map (·.1)).Nodup) (names : List String) :
    (record members).fields? names = some (names.map fun name => members.lookup name) := by
  have hkeys : (members.map fun m => (some m.1, m.2)).any (·.1.isNone) = false := by simp
  simp only [fields?, record, hkeys, Bool.false_eq_true, if_false]
  apply mapM_eq_some_map
  intro name _
  rw [filter_name hnames]
  cases members.lookup name with
  | none => rfl
  | some j => rfl

theorem lookup_of_mem (hnames : (members.map (·.1)).Nodup) :
    ∀ m ∈ members, members.lookup m.1 = some m.2 := by
  induction members with
  | nil => simp
  | cons m members ih =>
      obtain ⟨key, j⟩ := m
      obtain ⟨hkey, hrest⟩ := List.nodup_cons.mp hnames
      intro m hm
      cases List.mem_cons.mp hm with
      | inl hfirst => simp [hfirst]
      | inr hlater =>
          have hother : (m.1 == key) = false := by
            rw [beq_eq_false_iff_ne]
            intro heq
            exact hkey (List.mem_map.mpr ⟨m, hlater, heq⟩)
          simp [List.lookup_cons, hother, ih hrest m hlater]

/-- A record that is read by its own names gives its values. -/
theorem fields?_record_names (hnames : (members.map (·.1)).Nodup) :
    (record members).fields? (members.map (·.1)) = some (members.map fun m => some m.2) := by
  rw [fields?_record hnames, List.map_map]
  exact congrArg some (List.map_congr_left (lookup_of_mem hnames))

end

/-! Values. -/

section

variable {α : Type} {read : Json → Option α} {write : α → Json}

theorem text?_str (s : String) : text? (str s) = some s := rfl

theorem natBelow?_nat {bound n : Nat} (hn : n < bound) : (nat n).natBelow? bound = some n := by
  have hdigits : (Nat.toDigits 10 n).all Char.isDigit = true :=
    List.all_eq_true.mpr isDigit_of_mem_toDigits
  simp [natBelow?, nat, hdigits, hn]

theorem word?_nat (n : UInt64) : (nat n.toNat).word? = some n := by
  rw [word?, natBelow?_nat n.toNat_lt, Option.map_some, UInt64.ofNat_toNat]

theorem half?_nat (n : UInt32) : (nat n.toNat).half? = some n := by
  rw [half?, natBelow?_nat n.toNat_lt, Option.map_some, UInt32.ofNat_toNat]

/-- A value that was written may be absent, as long as null is not read as one. -/
theorem optional_option {a : Option α} (hnull : read .null = none)
    (h : ∀ x ∈ a, read (write x) = some x) : optional read (some (option write a)) = some a := by
  cases a with
  | none => rfl
  | some x =>
      have hx : read (write x) = some x := h x rfl
      have hpresent : write x ≠ .null := by
        intro hwrite
        rw [hwrite, hnull] at hx
        cases hx
      simp only [option]
      unfold optional
      split
      · next habsent => cases habsent
      · next habsent => exact absurd (Option.some.inj habsent) hpresent
      · next hsome => rw [← Option.some.inj hsome, hx, Option.map_some]

theorem read_of_mem_optional {field : Option Json} {a : Option α}
    (h : optional read field = some a) : ∀ x ∈ a, ∃ j, read j = some x := by
  intro x hx
  cases hx
  unfold optional at h
  split at h
  · cases h
  · cases h
  · next j _ =>
    obtain ⟨y, hy, h⟩ := Option.map_eq_some_iff.mp h
    cases h
    exact ⟨j, hy⟩

theorem list?_list {as : List α} (h : ∀ a ∈ as, read (write a) = some a) :
    (list write as).list? read = some as := by
  have hread := mapM_eq_some_map h
  rw [List.map_id'] at hread
  rw [list, list?, List.mapM_map]
  exact hread

theorem read_of_mem_list? {j : Json} {as : List α} (h : j.list? read = some as) :
    ∀ a ∈ as, ∃ j, read j = some a := by
  cases j with
  | array js => exact read_of_mem_mapM h
  | _ => cases h

end

end Json
end TaskFiring
