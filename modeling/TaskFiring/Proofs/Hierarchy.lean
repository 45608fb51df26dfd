import Mathlib.Data.List.Nodup
import TaskFiring.Proofs.Surroundings

/-!
Tasks in their hierarchy, and how many of them run in a group. Which group a task belongs to
depends on the parents and constraints that are stored, which no write changes. Where these
are the same and nothing has come to run, no group has more running tasks.
-/

namespace TaskFiring

namespace Table

variable {ρ κ : Type} {key : ρ → κ} [DecidableEq κ] {t t' : Table key} {p p' : ρ → Bool}

/-- The keys of the rows of a kind. -/
def keysOf (t : Table key) (p : ρ → Bool) : List κ := (t.rows.filter p).map key

omit [DecidableEq κ] in
theorem nodup_keysOf (t : Table key) (p : ρ → Bool) : (t.keysOf p).Nodup :=
  t.distinct.sublist (List.Sublist.map key List.filter_sublist)

omit [DecidableEq κ] in
theorem length_keysOf (t : Table key) (p : ρ → Bool) : (t.keysOf p).length = t.rows.countP p := by
  rw [keysOf, List.length_map, List.countP_eq_length_filter]

theorem find?_of_mem {r : ρ} (h : r ∈ t.rows) : t.find? (key r) = some r := by
  cases hf : t.find? (key r) with
  | none => exact absurd (List.mem_map_of_mem h) ((t.find?_eq_none_iff _).mp hf)
  | some r' =>
      have hr' : r' ∈ t.rows := List.mem_of_find?_eq_some hf
      exact congrArg some (List.inj_on_of_nodup_map t.distinct hr' h (key_of_find? hf))

theorem mem_keysOf {k : κ} : k ∈ t.keysOf p ↔ ∃ r, t.find? k = some r ∧ p r := by
  simp only [keysOf, List.mem_map, List.mem_filter]
  constructor
  · rintro ⟨r, ⟨hr, hp⟩, rfl⟩
    exact ⟨r, find?_of_mem hr, hp⟩
  · rintro ⟨r, hr, hp⟩
    exact ⟨r, ⟨List.mem_of_find?_eq_some hr, hp⟩, key_of_find? hr⟩

/-- There are no more rows of a kind if each is of the kind under its key before. -/
theorem countP_le (h : ∀ k r', t'.find? k = some r' → p' r' → ∃ r, t.find? k = some r ∧ p r) :
    t'.rows.countP p' ≤ t.rows.countP p := by
  rw [← length_keysOf, ← length_keysOf]
  refine (nodup_keysOf t' p').length_le_of_subset fun k hk => ?_
  obtain ⟨r', hr', hp'⟩ := mem_keysOf.mp hk
  exact mem_keysOf.mpr (h k r' hr' hp')

/-- There is at most one more if that is so under all keys but one. -/
theorem countP_le_succ (k₀ : κ) (h : ∀ k r', k ≠ k₀ → t'.find? k = some r' → p' r' →
    ∃ r, t.find? k = some r ∧ p r) : t'.rows.countP p' ≤ t.rows.countP p + 1 := by
  rw [← length_keysOf, ← length_keysOf, ← List.length_cons (a := k₀)]
  refine (nodup_keysOf t' p').length_le_of_subset fun k hk => ?_
  by_cases hk₀ : k = k₀
  · exact List.mem_cons.mpr (.inl hk₀)
  · obtain ⟨r', hr', hp'⟩ := mem_keysOf.mp hk
    exact List.mem_cons_of_mem _ (mem_keysOf.mpr (h k r' hk₀ hr' hp'))

end Table

namespace Store

/-- The same tasks, with the same parents and constraints. -/
def SameForest (s s' : Store) : Prop :=
  ∀ oid, (s'.find? oid).map (fun t => (t.parent, t.constraints))
    = (s.find? oid).map fun t => (t.parent, t.constraints)

section

variable {s s' s'' : Store} {oid : TaskOid} {t t' : Task} {g : String}

theorem SameForest.refl (s : Store) : s.SameForest s := fun _ => rfl

theorem SameForest.trans (h : s.SameForest s') (h' : s'.SameForest s'') : s.SameForest s'' :=
  fun oid => (h' oid).trans (h oid)

/-- The task is there in both, in the same place. -/
theorem SameForest.find? (h : s.SameForest s') (ht : s'.find? oid = some t') :
    ∃ t, s.find? oid = some t ∧ t'.parent = t.parent ∧ t'.constraints = t.constraints := by
  have ho := h oid
  rw [ht] at ho
  obtain ⟨t, ht, he⟩ := Option.map_eq_some_iff.mp ho.symm
  obtain ⟨hp, hc⟩ := Prod.mk.inj he
  exact ⟨t, ht, hp.symm, hc.symm⟩

theorem SameForest.find?_eq_none (h : s.SameForest s') (ht : s'.find? oid = none) :
    s.find? oid = none := by
  have ho := h oid
  rw [ht] at ho
  exact Option.map_eq_none_iff.mp ho.symm

/-- The way up leads to the same constraints. -/
theorem SameForest.topmost (h : s.SameForest s') (room : Nat) (visited : List TaskOid)
    (hp : t'.parent = t.parent) (hc : t'.constraints = t.constraints) :
    (s'.topmost room visited t').constraints = (s.topmost room visited t).constraints := by
  induction room generalizing visited t t' with
  | zero => exact hc
  | succ room ih =>
      unfold Store.topmost
      rw [hp]
      cases t.parent with
      | none => exact hc
      | some parent =>
          by_cases hv : parent ∈ visited
          · simp only [hv, if_true]
            exact hc
          · simp only [hv, if_false]
            cases hf : s'.find? parent with
            | none =>
                rw [h.find?_eq_none hf]
                exact hc
            | some p' =>
                obtain ⟨p, hf', hp', hc'⟩ := h.find? hf
                rw [hf']
                exact ih _ hp' hc'

theorem effectiveConstraints_eq_or (s : Store) (t : Task) :
    s.effectiveConstraints t
      = t.constraints.or (s.topmost (maxHierarchyDepth - 1) [t.oid] t).constraints := by
  unfold Store.effectiveConstraints
  cases t.constraints <;> rfl

/-- The task is there in both, with the same constraints, be they its own or those of the
root of its hierarchy. -/
theorem SameForest.effectiveConstraints (h : s.SameForest s') (ht' : s'.find? oid = some t') :
    ∃ t, s.find? oid = some t ∧ s'.effectiveConstraints t' = s.effectiveConstraints t := by
  obtain ⟨t, ht, hp, hc⟩ := h.find? ht'
  have ho : t'.oid = t.oid := (oid_of_find? ht').trans (oid_of_find? ht).symm
  refine ⟨t, ht, ?_⟩
  rw [effectiveConstraints_eq_or, effectiveConstraints_eq_or, hc, ho, h.topmost _ _ hp hc]

/-- The hierarchy is the same, and nothing has come to run. -/
structure Refrains (s s' : Store) : Prop where
  forest : s.SameForest s'
  running : ∀ oid t', s'.find? oid = some t' → t'.execution = .running →
    ∃ t, s.find? oid = some t ∧ t.execution = .running

theorem Refrains.refl (s : Store) : s.Refrains s := ⟨.refl s, fun _ t h hr => ⟨t, h, hr⟩⟩

/-- What runs in a group has run in it before. -/
theorem Refrains.runsInGroup (h : s.Refrains s') (ht : s'.find? oid = some t')
    (hr : s'.runsInGroup g t') : ∃ t, s.find? oid = some t ∧ s.runsInGroup g t := by
  simp only [Store.runsInGroup, Bool.and_eq_true, decide_eq_true_eq] at hr ⊢
  obtain ⟨t, ht', hrunning⟩ := h.running oid t' ht hr.1
  obtain ⟨_, ht'', hc⟩ := h.forest.effectiveConstraints ht
  obtain rfl := Option.some.inj (ht''.symm.trans ht')
  rw [hc] at hr
  exact ⟨_, ht', hrunning, hr.2⟩

/-- How many tasks run in a group. -/
def runningIn (s : Store) (g : String) : Nat := s.tasks.rows.countP (s.runsInGroup g)

/-- How many of them besides one. -/
def others (s : Store) (g : String) (oid : TaskOid) : Nat :=
  s.tasks.rows.countP fun t => t.oid ≠ oid && s.runsInGroup g t

theorem others_of_countRunning {n : Nat} (h : s.countRunning g oid = .ok n) :
    s.others g oid = n := by
  unfold countRunning at h
  split at h
  · exact Except.ok.inj h
  · cases h

theorem Refrains.runningIn_le (h : s.Refrains s') : s'.runningIn g ≤ s.runningIn g :=
  Table.countP_le fun _ _ => h.runsInGroup

theorem Refrains.others_le (h : s.Refrains s') : s'.others g oid ≤ s.others g oid := by
  refine Table.countP_le fun k t' ht hp => ?_
  simp only [Bool.and_eq_true, decide_eq_true_eq] at hp ⊢
  obtain ⟨t, ht', hr⟩ := h.runsInGroup ht hp.2
  refine ⟨t, ht', ?_, hr⟩
  rw [oid_of_find? ht']
  rw [oid_of_find? ht] at hp
  exact hp.1

/-! What a write may change. -/

/-- The same records. -/
def SameRecords (s s' : Store) : Prop := ∀ oid, s'.find? oid = s.find? oid

theorem SameRecords.refl (s : Store) : s.SameRecords s := fun _ => rfl

theorem SameRecords.trans (h : s.SameRecords s') (h' : s'.SameRecords s'') : s.SameRecords s'' :=
  fun oid => (h' oid).trans (h oid)

theorem SameRecords.symm (h : s.SameRecords s') : s'.SameRecords s := fun oid => (h oid).symm

theorem SameRecords.refrains (h : s.SameRecords s') : s.Refrains s' where
  forest oid := by rw [h]
  running oid t ht hr := ⟨t, (h oid).symm.trans ht, hr⟩

/-- No write moves a task in the hierarchy. -/
theorem sameForest_modify (s : Store) (oid : TaskOid) (d : TaskDelta) (c : Precondition) :
    s.SameForest (s.modify oid d c).2 := by
  rcases s.modify_cases oid d c with ⟨e, hm⟩ | ⟨r, s', hm, hr, -, -, hf⟩
  · rw [hm]
    exact .refl s
  · rw [hm]
    intro oid'
    simp only [hf]
    split
    · next ho =>
      subst ho
      rw [hr]
      rfl
    · rfl

theorem refrains_modify {d : TaskDelta} (hd : d.execution ≠ some .running) (s : Store)
    (oid : TaskOid) (c : Precondition) : s.Refrains (s.modify oid d c).2 := by
  refine ⟨sameForest_modify s oid d c, fun oid' t ht hrun => ?_⟩
  rcases s.modify_cases oid d c with ⟨e, hm⟩ | ⟨r, s', hm, hr, -, -, hf⟩
  · rw [hm] at ht
    exact ⟨t, ht, hrun⟩
  · rw [hm] at ht
    simp only [hf] at ht
    split at ht
    · next ho =>
      subst ho
      cases ht
      exact ⟨r, hr, (running_of_written hd hrun).2⟩
    · exact ⟨t, ht, hrun⟩

/-- If the task belongs to the group, there is room for it besides the others. -/
def Room (s : Store) (g : String) (limit : Nat) (oid : TaskOid) : Prop :=
  ∀ t, s.find? oid = some t → (s.effectiveConstraints t).any (·.containsGroup g) →
    s.others g oid < limit

theorem Room.refrains {limit : Nat} (h : s.Room g limit oid) (hs : s.Refrains s') :
    s'.Room g limit oid := by
  intro t' ht' hg
  obtain ⟨t, ht, hc⟩ := hs.forest.effectiveConstraints ht'
  rw [hc] at hg
  exact Nat.lt_of_le_of_lt hs.others_le (h t ht hg)

/-- A task for which there is room may come to run. -/
theorem Room.runningIn_le {limit : Nat} (h : s.Room g limit oid) (hs : s.SameForest s')
    (hf : ∀ oid', oid' ≠ oid → s'.find? oid' = s.find? oid') (hle : s.runningIn g ≤ limit) :
    s'.runningIn g ≤ limit := by
  have rest : ∀ k t', k ≠ oid → s'.find? k = some t' → s'.runsInGroup g t' →
      s.find? k = some t' ∧ s.runsInGroup g t' := by
    intro k t' hk ht' hr
    have ht := (hf k hk).symm.trans ht'
    obtain ⟨_, ht'', hc⟩ := hs.effectiveConstraints ht'
    obtain rfl := Option.some.inj (ht''.symm.trans ht)
    unfold runsInGroup at hr ⊢
    rw [hc] at hr
    exact ⟨ht, hr⟩
  by_cases hg : ∃ t, s.find? oid = some t ∧ (s.effectiveConstraints t).any (·.containsGroup g)
  · obtain ⟨t, ht, hg⟩ := hg
    have more : s'.runningIn g ≤ s.others g oid + 1 := by
      refine Table.countP_le_succ oid fun k t' hk ht' hr => ?_
      obtain ⟨ht, hr⟩ := rest k t' hk ht' hr
      refine ⟨t', ht, ?_⟩
      rw [oid_of_find? ht]
      simp [hk, hr]
    exact Nat.le_trans more (h t ht hg)
  · refine Nat.le_trans (Table.countP_le fun k t' ht' hr => ?_) hle
    by_cases hk : k = oid
    · subst hk
      obtain ⟨t, ht, hc⟩ := hs.effectiveConstraints ht'
      simp only [runsInGroup, Bool.and_eq_true, hc] at hr
      exact absurd ⟨t, ht, hr.2⟩ hg
    · exact ⟨t', rest k t' hk ht' hr⟩

end

end Store
end TaskFiring
