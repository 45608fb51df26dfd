import TaskFiring.Proofs.Exclusion
import TaskFiring.Proofs.Reliance

/-!
How a firing loads its task while nobody writes the record. It gets that record with the
root of its hierarchy, and goes on exactly if the task is ready.
-/

namespace TaskFiring

theorem Store.get_error {s : Store} {oid : TaskOid} {e : StoreError} (ha : s.available)
    (h : s.get oid = .error e) : e = .notFound oid := by
  unfold get at h
  rw [if_pos ha] at h
  split at h <;> cases h
  rfl

theorem Store.find?_of_notFound {s : Store} {oid oid' : TaskOid}
    (h : s.get oid = .error (.notFound oid')) : s.find? oid = none := by
  unfold get at h
  split at h
  · split at h
    · cases h
    · assumption
  · cases h

namespace World

/-- Others may leave the record of a task alone for as long as they like. -/
theorem reliance_spares (oid : TaskOid) : Reliance (Spares oid) where
  refl w := (Agrees.refl w).spares
  trans h h' :=
    ⟨h'.record.trans h.record, fun ha => h'.available (h.available ha),
      fun place => (h'.registered place).trans (h.registered place),
      fun k o hk => h'.owner k o (h.owner k o hk)⟩
  onHandle w h _ hf := (agrees_onHandle w h hf).spares

/-- The store is available and has this record of the task. -/
structure Has (w : World) (oid : TaskOid) (t : Task) : Prop where
  available : w.store.available
  record : w.store.find? oid = some t

section

variable {w w' : World} {place : Place} {oid : TaskOid} {t : Task}

theorem Has.spared (h : w.Has oid t) (hw : w.Spares oid w') : w'.Has oid t :=
  ⟨hw.available h.available, hw.record.trans h.record⟩

/-- What is read is the record. -/
theorem Has.get (h : w.Has oid t) {a : Except StoreError Task}
    (ha : w.Replies place (.get oid) a w') : w' = w ∧ a = .ok t := by
  obtain ⟨rfl, rfl⟩ := (ha.answers id).get
  exact ⟨rfl, Store.get_of_find? h.available h.record⟩

/-- A write whose condition is met succeeds. -/
theorem Has.modify (h : w.Has oid t) {d : TaskDelta} {c : Precondition}
    {a : Except StoreError Task} (hc : Store.violation? t c = none)
    (ha : w.Replies place (.modify oid d c) a w') :
    a = .ok (Store.written t d) ∧ w'.Has oid (Store.written t d) := by
  have hm := (ha.answers id).modify.2
  rcases w.store.modify_cases oid d c with ⟨e, he⟩ | ⟨r, s, hs, hr, -, hav, hf⟩
  · simp [Store.modify, h.available, h.record, hc] at he
  · obtain rfl : r = t := Option.some.inj (hr.symm.trans h.record)
    obtain ⟨rfl, hstore⟩ := Prod.mk.inj (hs.symm.trans hm)
    refine ⟨rfl, ?_, ?_⟩
    · rw [← hstore, hav]
      exact h.available
    · rw [← hstore, hf]
      exact if_pos rfl

end

end World

namespace Loading

open Program (Meets)

variable {place : Place} {rely : World → World → Prop} {pre : World → Call → Prop}
  {P : World → Prop} {oid : TaskOid} {t : Task} {w : World}

theorem ancestor_runs (hP : World.Calm place rely pre P) (ha : ∀ w, P w → w.store.available)
    (task : TaskOid) (room : Nat) (visited : List TaskOid) (top : Option Task)
    (next : Option TaskOid) (hw : P w) :
    (Preparation.ancestor task room visited top next).run.Meets (.amid place rely pre) w
      fun w' r => P w' ∧ ∃ root, r = .ok root := by
  induction room generalizing visited top next w with
  | zero => exact ⟨hw, top, rfl⟩
  | succ room ih =>
      cases next with
      | none => exact ⟨hw, top, rfl⟩
      | some parent =>
          by_cases hv : parent ∈ visited
          · rw [Course.ancestor_visited hv]
            exact ⟨hw, top, rfl⟩
          · rw [Course.ancestor_unvisited hv]
            refine Meets.query ⟨hP.made hw trivial trivial, fun answer w₁ w₂ hr hw₂ => ?_⟩
            obtain ⟨rfl, hg⟩ := (hr.answers id).get
            cases answer with
            | ok p => exact ih _ _ _ (hP.beside hw hw₂)
            | error e =>
                obtain rfl := Store.get_error (ha _ hw) hg.symm
                exact ⟨hP.beside hw hw₂, top, rfl⟩

theorem load_runs (hP : World.Calm place rely pre P) (hh : ∀ w, P w → w.Has oid t)
    (hw : P w) :
    (Preparation.load oid).run.Meets (.amid place rely pre) w fun w' r =>
      P w' ∧ ∃ snapshot, r = .ok snapshot ∧ snapshot.task = t := by
  unfold Preparation.load
  refine Meets.query ⟨hP.made hw trivial trivial, fun answer w₁ w₂ hr hw₂ => ?_⟩
  obtain ⟨rfl, rfl⟩ := (hh _ hw).get hr
  refine Meets.attempt Demand.amid_monotone (ancestor_runs hP (fun w h => (hh w h).available)
    _ _ _ _ _ (hP.beside hw hw₂)) ?_ ?_
  · exact fun w' root h => ⟨h.1, _, rfl, rfl⟩
  · rintro w' e ⟨-, root, h⟩
    cases h

theorem ensureReady_runs (hP : World.Calm place rely pre P) (hw : P w) :
    (Preparation.ensureReady t).run.Meets (.amid place rely pre) w fun w' r =>
      P w' ∧ (r = .ok () ↔ t.isReady) := by
  unfold Preparation.ensureReady
  by_cases hready : t.isReady
  · rw [if_pos hready]
    exact ⟨hw, by simp [hready]⟩
  · rw [if_neg hready]
    refine ⟨hP.made hw trivial trivial, fun answer w₁ w₂ hr hw₂ => ?_⟩
    have kept := hP.beside (hP.aside (r := .unschedule t.oid) hw trivial hr) hw₂
    cases answer with
    | ok u => exact ⟨kept, by simp [hready]⟩
    | error e => exact ⟨kept, by simp [hready]⟩

end Loading
end TaskFiring
