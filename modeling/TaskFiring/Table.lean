/-!
Rows of which no two share a key, in the order in which their keys first came
in. The stored tasks, the registry of running firings, the trigger's fire times
and the named limits are all such tables. Looking a key up after `put` or
`erase` depends on that key alone.
-/

namespace TaskFiring

structure Table {ρ κ : Type} (key : ρ → κ) where
  rows : List ρ
  distinct : (rows.map key).Nodup

namespace Table

variable {ρ κ : Type} {key : ρ → κ}

def empty : Table key := ⟨[], by simp⟩

instance : Inhabited (Table key) := ⟨empty⟩

def size (t : Table key) : Nat := t.rows.length

def isEmpty (t : Table key) : Bool := t.rows.isEmpty

def keys (t : Table key) : List κ := t.rows.map key

variable [DecidableEq κ]

def find? (t : Table key) (k : κ) : Option ρ := t.rows.find? fun r => key r = k

def contains (t : Table key) (k : κ) : Bool := (t.find? k).isSome

private theorem map_key_replace (rows : List ρ) (r : ρ) :
    (rows.map fun x => if key x = key r then r else x).map key = rows.map key := by
  rw [List.map_map]
  apply List.map_congr_left
  intro x _
  simp only [Function.comp]
  split
  · next h => exact h.symm
  · rfl

theorem find?_eq_none_iff (t : Table key) (k : κ) :
    t.find? k = none ↔ k ∉ t.keys := by
  simp [find?, keys]

theorem key_of_find? {t : Table key} {k : κ} {r : ρ} (h : t.find? k = some r) :
    key r = k := by
  simpa using List.find?_some h

/-- A row with a known key takes the place of the old one; a new key comes last. -/
def put (t : Table key) (r : ρ) : Table key :=
  if h : key r ∈ t.rows.map key then
    ⟨t.rows.map fun x => if key x = key r then r else x,
      by rw [map_key_replace]; exact t.distinct⟩
  else
    ⟨t.rows ++ [r], by
      rw [List.map_append, List.nodup_append]
      refine ⟨t.distinct, by simp, ?_⟩
      intro a ha b hb
      have : b = key r := by simpa using hb
      subst this
      exact fun e => h (e ▸ ha)⟩

def erase (t : Table key) (k : κ) : Table key :=
  ⟨t.rows.filter fun r => key r ≠ k,
    t.distinct.sublist (List.Sublist.map key List.filter_sublist)⟩

def ofList (rows : List ρ) : Table key := rows.foldl put empty

@[simp] theorem find?_empty (k : κ) : (empty : Table key).find? k = none := rfl

theorem find?_put (t : Table key) (r : ρ) (k : κ) :
    (t.put r).find? k = if key r = k then some r else t.find? k := by
  unfold put
  split
  · next hmem =>
    have hkey (x : ρ) : key (if key x = key r then r else x) = key x := by
      split
      · next h => exact h.symm
      · rfl
    have hfind : (t.rows.map fun x => if key x = key r then r else x).find?
        (fun x => key x = k)
        = (t.find? k).map fun x => if key x = key r then r else x := by
      rw [List.find?_map]
      simp only [find?, Function.comp_def, hkey]
    rw [show ∀ d, find? ⟨_, d⟩ k = _ from fun _ => hfind]
    cases hk : t.find? k with
    | none =>
        have hne : key r ≠ k := fun e => (t.find?_eq_none_iff k).mp hk (e ▸ hmem)
        simp [hne]
    | some x =>
        have hx : key x = k := key_of_find? hk
        by_cases he : k = key r <;> simp [hx, he, Ne.symm]
  · next hnot =>
    simp only [find?, List.find?_append]
    by_cases hk : key r = k
    · have hnone : t.find? k = none := (t.find?_eq_none_iff k).mpr (hk ▸ hnot)
      simp only [find?] at hnone
      simp [hnone, hk]
    · simp [hk]

theorem find?_erase (t : Table key) (k k' : κ) :
    (t.erase k).find? k' = if k = k' then none else t.find? k' := by
  simp only [erase, find?, List.find?_filter]
  split
  · next h =>
    subst h
    rw [List.find?_eq_none]
    intro x _
    simp
  · next h =>
    congr 1
    funext x
    by_cases hx : key x = k'
    · simpa [hx] using fun e => h e.symm
    · simp [hx]

end Table
end TaskFiring
