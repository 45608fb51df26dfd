import Mathlib.Data.List.Chain
import Mathlib.Data.Finset.SDiff
import Mathlib.Data.Finset.Card
import TaskFiring.Proofs.Membership

/-!
How far up the root of a task lies. Its ancestors are the tasks along the parent links, up to
where there is no parent, where it is missing, or where the links close a cycle. A walk visits
the task itself first, and counts each parent as visited before it reads it; so with a limit on
the tasks visited it takes one hop less than that, and a task with as many ancestors as the
limit or more has its root one place too low.
-/

namespace TaskFiring

namespace Store

variable {s : Store} {t : Task} {ancestors : List Task} {visited : List TaskOid}

/-- The walk up as it counts: the next parent is visited first, and then there must not be more
tasks visited than the limit allows; only after that is it read. -/
def climb (s : Store) (limit : Nat) (visited : List TaskOid) (t : Task) : Task :=
  match t.parent with
  | none => t
  | some parent =>
      if parent ∈ visited then t
      else if limit < visited.length + 1 then t
      else
        match s.find? parent with
        | some p => s.climb limit (parent :: visited) p
        | none => t
termination_by limit - visited.length
decreasing_by
  rw [List.length_cons]
  omega

/-- Counted down, the same walk has room for as many tasks as are not visited yet. -/
theorem climb_eq_topmost (s : Store) (room : Nat) (visited : List TaskOid) (t : Task) :
    s.climb (visited.length + room) visited t = s.topmost room visited t := by
  induction room generalizing visited t with
  | zero =>
      rw [climb, topmost]
      split
      · rfl
      · simp
  | succ room ih =>
      rw [climb, topmost]
      cases t.parent with
      | none => rfl
      | some parent =>
          have enough : ¬ visited.length + (room + 1) < visited.length + 1 := by omega
          have next (p : Task) : s.climb (visited.length + (room + 1)) (parent :: visited) p
              = s.topmost room (parent :: visited) p := by
            rw [← ih, List.length_cons, Nat.add_right_comm, Nat.add_assoc]
          by_cases seen : parent ∈ visited
          · simp only [seen, if_true]
          · simp only [seen, enough, if_false]
            cases s.find? parent with
            | none => rfl
            | some p => exact next p

/-- The ancestors of a task, the nearest first: they are there, no two are the same and none is
the task itself, and above the last of them there is nothing new. -/
structure Lineage (s : Store) (t : Task) (ancestors : List Task) : Prop where
  links : (t :: ancestors).IsChain fun child p => child.parent = some p.oid
  stored : ∀ p ∈ ancestors, s.find? p.oid = some p
  distinct : ((t :: ancestors).map Task.oid).Nodup
  ends : ∀ parent, (ancestors.getLastD t).parent = some parent →
    s.find? parent = none ∨ parent ∈ (t :: ancestors).map Task.oid

/-- The part of a lineage that is yet to be walked, with the tasks visited so far. -/
structure Ascent (s : Store) (visited : List TaskOid) (t : Task) (ancestors : List Task) :
    Prop where
  links : (t :: ancestors).IsChain fun child p => child.parent = some p.oid
  stored : ∀ p ∈ ancestors, s.find? p.oid = some p
  distinct : (ancestors.map Task.oid).Nodup
  fresh : ∀ p ∈ ancestors, p.oid ∉ visited
  ends : ∀ parent, (ancestors.getLastD t).parent = some parent →
    s.find? parent = none ∨ parent ∈ visited ∨ parent ∈ ancestors.map Task.oid

theorem Lineage.ascent (h : s.Lineage t ancestors) : s.Ascent [t.oid] t ancestors where
  links := h.links
  stored := h.stored
  distinct := (List.nodup_cons.mp h.distinct).2
  fresh p hp same := by
    have self : t.oid ∉ ancestors.map Task.oid := (List.nodup_cons.mp h.distinct).1
    exact self (List.mem_singleton.mp same ▸ List.mem_map_of_mem hp)
  ends parent hp := by simpa using h.ends parent hp

theorem Ascent.next {p : Task} (h : s.Ascent visited t (p :: ancestors)) :
    t.parent = some p.oid ∧ s.find? p.oid = some p ∧ p.oid ∉ visited ∧
      s.Ascent (p.oid :: visited) p ancestors := by
  obtain ⟨link, links⟩ := List.isChain_cons_cons.mp h.links
  obtain ⟨new, distinct⟩ := List.nodup_cons.mp h.distinct
  refine ⟨link, h.stored p (by simp), h.fresh p (by simp), links, ?_, distinct, ?_, ?_⟩
  · exact fun q hq => h.stored q (List.mem_cons_of_mem _ hq)
  · intro q hq visit
    rcases List.mem_cons.mp visit with same | visit
    · exact new (same ▸ List.mem_map_of_mem hq)
    · exact h.fresh q (List.mem_cons_of_mem _ hq) visit
  · intro parent hp
    rw [← List.getLastD_cons] at hp
    have := h.ends parent hp
    grind

/-- The walk goes as far as there is room, or to the last ancestor if that is nearer. -/
theorem Ascent.topmost (h : s.Ascent visited t ancestors) (room : Nat) :
    (t :: ancestors)[min ancestors.length room]? = some (s.topmost room visited t) := by
  induction ancestors generalizing visited t room with
  | nil =>
      cases room with
      | zero => rfl
      | succ room =>
          rw [Store.topmost]
          cases hp : t.parent with
          | none => rfl
          | some parent =>
              have stops := h.ends parent hp
              rcases stops with missing | visit | ⟨⟨⟩⟩
              · simp [missing]
              · simp [visit]
  | cons p ancestors ih =>
      obtain ⟨link, found, new, rest⟩ := h.next
      cases room with
      | zero => rfl
      | succ room =>
          rw [Store.topmost, link]
          simp only [new, if_false, found]
          rw [List.length_cons, Nat.succ_min_succ, List.getElem?_cons_succ]
          exact ih rest room

theorem Ascent.cons {p : Task} (link : t.parent = some p.oid) (found : s.find? p.oid = some p)
    (new : p.oid ∉ visited) (rest : s.Ascent (p.oid :: visited) p ancestors) :
    s.Ascent visited t (p :: ancestors) where
  links := .cons_cons link rest.links
  stored := List.forall_mem_cons.mpr ⟨found, rest.stored⟩
  distinct := by
    refine List.nodup_cons.mpr ⟨fun known => ?_, rest.distinct⟩
    obtain ⟨q, hq, same⟩ := List.mem_map.mp known
    exact rest.fresh q hq (same ▸ List.mem_cons_self)
  fresh := List.forall_mem_cons.mpr
    ⟨new, fun q hq visit => rest.fresh q hq (List.mem_cons_of_mem _ visit)⟩
  ends parent hp := by
    rw [List.getLastD_cons] at hp
    have := rest.ends parent hp
    grind

/-- There are only so many tasks to be visited. -/
theorem exists_ascent (s : Store) (visited : List TaskOid) (t : Task) :
    ∃ ancestors, s.Ascent visited t ancestors := by
  induction hn : (s.tasks.keys.toFinset \ visited.toFinset).card using Nat.strong_induction_on
    generalizing visited t with
  | _ n ih =>
      by_cases more : ∃ p, t.parent = some p.oid ∧ s.find? p.oid = some p ∧ p.oid ∉ visited
      · obtain ⟨p, link, found, new⟩ := more
        have known : p.oid ∈ s.tasks.keys := by
          by_contra unknown
          cases found.symm.trans ((s.tasks.find?_eq_none_iff _).mpr unknown)
        have fewer : (s.tasks.keys.toFinset \ (p.oid :: visited).toFinset).card < n := by
          rw [← hn, List.toFinset_cons, Finset.sdiff_insert]
          apply Finset.card_erase_lt_of_mem
          simp [known, new]
        obtain ⟨ancestors, rest⟩ := ih _ fewer (p.oid :: visited) p rfl
        exact ⟨p :: ancestors, rest.cons link found new⟩
      · refine ⟨[], .singleton t, List.forall_mem_nil _, List.nodup_nil, List.forall_mem_nil _,
          fun parent hp => ?_⟩
        cases found : s.find? parent with
        | none => exact .inl rfl
        | some p =>
            cases oid_of_find? found
            exact .inr (.inl (by_contra fun new => more ⟨p, hp, found, new⟩))

/-- Every task has a lineage. -/
theorem exists_lineage (s : Store) (t : Task) : ∃ ancestors, s.Lineage t ancestors := by
  obtain ⟨ancestors, h⟩ := s.exists_ascent [t.oid] t
  refine ⟨ancestors, h.links, h.stored, List.nodup_cons.mpr ⟨fun known => ?_, h.distinct⟩, ?_⟩
  · obtain ⟨p, hp, same⟩ := List.mem_map.mp known
    exact h.fresh p hp (List.mem_singleton.mpr same)
  · intro parent hp
    simpa using h.ends parent hp

end Store

/-- A firing and the store find the same root for a task: of all its ancestors the last, or the
63rd where there are more. That is the place at the documented number of hops exactly if there
are fewer ancestors than that. -/
theorem root_at_limit_iff {w : World} {t : Task} {ancestors : List Task}
    (lineage : w.store.Lineage t ancestors) (place : Place) :
    ∃ root, (t :: ancestors)[min ancestors.length (maxHierarchyDepth - 1)]? = some root ∧
      w.store.climb maxHierarchyDepth [t.oid] t = root ∧
      w.store.effectiveConstraints t = t.constraints.or root.constraints ∧
      (w.store.available → w.store.find? t.oid = some t →
        ∀ r w', (Preparation.load t.oid).run.Reaches place w (.done r) w' ↔
          r = .ok
            { task := t
              rootOid := root.oid
              constraints := t.constraints.or root.constraints } ∧ w' = w) ∧
      ((t :: ancestors)[min ancestors.length maxHierarchyDepth]? = some root ↔
        ancestors.length < maxHierarchyDepth) := by
  have reached := lineage.ascent.topmost (maxHierarchyDepth - 1)
  have effective := w.store.effectiveConstraints_eq_or t
  refine ⟨_, reached, w.store.climb_eq_topmost (maxHierarchyDepth - 1) [t.oid] t, effective,
    fun available found => ?_, ?_⟩
  · rw [← effective]
    exact Membership.load_yields place available found
  · have distinct : (t :: ancestors).Nodup := lineage.distinct.of_map
    have bound : min ancestors.length maxHierarchyDepth < (t :: ancestors).length := by
      rw [List.length_cons]
      omega
    rw [← reached, List.getElem?_inj bound distinct, maxHierarchyDepth]
    omega

namespace Lineage

/-- Sixty-five tasks, each below the next. Only the topmost has constraints. -/
def storey (k : Nat) : Task where
  oid := ⟨BitVec.ofNat 128 k⟩
  name := "t"
  handlerRef := "h"
  parent := if k < 65 then some ⟨BitVec.ofNat 128 (k + 1)⟩ else none
  constraints := if k < 65 then none else some { groups := [⟨"g", some 1⟩], retryAfter := none }

def above : List Task := (List.range' 2 64).map storey

def tower : World where
  now := default
  store := { tasks := Table.ofList (storey 1 :: above) }

theorem lineage_tower : tower.store.Lineage (storey 1) above where
  links := by decide +kernel
  stored := by decide +kernel
  distinct := by decide +kernel
  ends := by
    have topmost : (above.getLastD (storey 1)).parent = none := by decide +kernel
    rw [topmost]
    exact nofun

theorem find?_foot : tower.store.find? (storey 1).oid = some (storey 1) := by decide +kernel

end Lineage

/-- The task at the foot has 64 ancestors, and the 63rd of them is taken for its root. -/
theorem root_at_limit_iff_tower :
    Lineage.tower.store.Lineage (Lineage.storey 1) Lineage.above ∧ Lineage.above.length = 64 ∧
      ∃ s, (Preparation.load (Lineage.storey 1).oid).run.Reaches .aside Lineage.tower
          (.done (.ok s)) Lineage.tower ∧
        s.rootOid = (Lineage.storey 64).oid := by
  obtain ⟨root, reached, -, -, loads, -⟩ := root_at_limit_iff Lineage.lineage_tower .aside
  have penultimate : (Lineage.storey 1 :: Lineage.above)[63]? = some (Lineage.storey 64) := by
    decide +kernel
  obtain rfl : root = Lineage.storey 64 := Option.some.inj (reached.symm.trans penultimate)
  exact ⟨Lineage.lineage_tower, rfl, _, (loads rfl Lineage.find?_foot _ _).mpr ⟨rfl, rfl⟩, rfl⟩

/-- So neither a firing nor the store follows as many hops as documented: at the 64th there is
the topmost task, whose constraints are not found. -/
theorem root_below_limit :
    Lineage.tower.store.Lineage (Lineage.storey 1) Lineage.above ∧
      (Lineage.storey 1 :: Lineage.above)[min Lineage.above.length maxHierarchyDepth]?
        = some (Lineage.storey 65) ∧
      Lineage.tower.store.effectiveConstraints (Lineage.storey 1)
        ≠ (Lineage.storey 1).constraints.or (Lineage.storey 65).constraints ∧
      ∀ place, ∃ s, (Preparation.load (Lineage.storey 1).oid).run.Reaches place Lineage.tower
          (.done (.ok s)) Lineage.tower ∧
        s.rootOid ≠ (Lineage.storey 65).oid := by
  refine ⟨Lineage.lineage_tower, by decide +kernel, by decide +kernel, fun place => ?_⟩
  have loads := Membership.load_yields place rfl Lineage.find?_foot
  exact ⟨_, (loads _ _).mpr ⟨rfl, rfl⟩, by decide +kernel⟩

end TaskFiring
