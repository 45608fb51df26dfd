import TaskFiring.Proofs.Exclusion
import TaskFiring.Proofs.KnownRecord

/-!
Firings that need not look for other runs. The write that takes a task makes sure that the
record is the one that was loaded, not that nobody ran the task when it was. So what is left
of mutual exclusion is this: it lasts until a firing takes over a task that it has loaded
while another node ran it. A firing that looks for other runs never does.
-/

namespace TaskFiring

/-- The firing takes its task while the record says that a node runs it. -/
def Change.TakesOver {ι : Type} (f : Occasion) (i : ι) (x : Change ι) (r : Task)
    (n : NodeId) : Prop :=
  x.event.Takes f i ∧ x.before.store.find? f.oid = some r ∧ r.runningOn? = some n

/-- How a firing gets at a task that the node runs: it does not look for other runs, has loaded
the task when that node ran it, and takes it from another firing, which does not let go. -/
structure Change.Usurps {ι : Type} (crew : ι → Occasion) (i : ι) (before : List (Change ι))
    (x : Change ι) (r : Task) (n : NodeId) : Prop where
  unguarded : (crew i).node.config.checkConcurrent = false
  loaded : ∃ load ∈ before, load.event = .deed i (Grasp.loading (crew i) r)
  elsewhere : n ≠ (crew i).nodeId
  held : ∃ j, j ≠ i ∧ (crew j).nodeId = n ∧ Possesses (crew j) j (before.map Change.event) ∧
    Possesses (crew j) j ((before ++ [x]).map Change.event)

/-- No two firings have the task at a time. -/
def Exclusive {ι : Type} (crew : ι → Occasion) (es : List (Event ι)) : Prop :=
  ∀ before after, es = before ++ after →
    ∀ i j, Possesses (crew i) i before → Possesses (crew j) j before → i = j

namespace Task

variable {r : Task} {d : TaskDelta} {n : NodeId}

/-- A write that names no node makes no node run the task. -/
theorem runningOn?_of_written (hd : d.execution ≠ some .running) (hn : d.node = none)
    (h : (Store.written r d).runningOn? = some n) : r.runningOn? = some n := by
  simp only [runningOn?, Option.ite_none_right_eq_some] at h ⊢
  obtain ⟨hx, hr⟩ := Store.running_of_written hd h.1
  refine ⟨hr, ?_⟩
  simpa [Store.written, TaskDelta.apply, hn] using h.2

theorem runningOn?_of_cleared (hn : d.node = some none) :
    (Store.written r d).runningOn? = none := by
  simp [runningOn?, Store.written, TaskDelta.apply, hn]

end Task

namespace Contention

open Exclusion

section

variable {ι : Type} (crew : ι → Occasion) (oid : TaskOid)

/-- A node that runs the task, as the record says, is that of a firing that holds it. -/
structure Shown (s : Stage ι) : Prop where
  available : s.world.store.available
  holder : ∀ r n, s.world.store.find? oid = some r → r.runningOn? = some n →
    ∃ j, (s.phase j).Holds ∧ (crew j).nodeId = n

end

section

variable {ι : Type} [DecidableEq ι] {crew : ι → Occasion} {oid : TaskOid} {s s' : Stage ι}
  {w : World} {i : ι} {p : Phase} {e : Event ι}

omit [DecidableEq ι] in
theorem Shown.outside (hi : Shown crew oid s) (hw : s.world.Spares oid w) :
    Shown crew oid ⟨w, s.phase⟩ := by
  refine ⟨hw.available hi.available, fun r n hr => ?_⟩
  rw [hw.record] at hr
  exact hi.holder r n hr

/-- A firing goes on, and no node comes to run the task by that. -/
theorem Shown.keep (hi : Shown crew oid s) (ha : s.world.store.available → w.store.available)
    (hr : ∀ r' n, w.store.find? oid = some r' → r'.runningOn? = some n →
      ∃ r, s.world.store.find? oid = some r ∧ r.runningOn? = some n)
    (hh : (s.phase i).Holds → p.Holds) : Shown crew oid ⟨w, Function.update s.phase i p⟩ := by
  refine ⟨ha hi.available, fun r' n hr' hn => ?_⟩
  obtain ⟨r, hf, hrun⟩ := hr r' n hr' hn
  obtain ⟨j, hj, hnode⟩ := hi.holder r n hf hrun
  refine ⟨j, ?_, hnode⟩
  by_cases hji : j = i
  · subst hji
    simpa using hh hj
  · simpa [hji] using hj

/-- A firing goes on without a write of the record. -/
theorem Shown.quiet (hi : Shown crew oid s)
    (hr : w.store.find? oid = s.world.store.find? oid)
    (ha : s.world.store.available → w.store.available) (hh : (s.phase i).Holds → p.Holds) :
    Shown crew oid ⟨w, Function.update s.phase i p⟩ :=
  hi.keep ha (fun r _ hf hn => ⟨r, hr ▸ hf, hn⟩) hh

/-- Nothing is shown where there is no record, or where no node is named. -/
theorem Shown.none (ha : w.store.available)
    (hr : ∀ r, w.store.find? oid = some r → r.runningOn? = none) :
    Shown crew oid ⟨w, Function.update s.phase i p⟩ :=
  ⟨ha, fun r _ hf hn => by rw [hr r hf] at hn; cases hn⟩

theorem Shown.modify_ok {d : TaskDelta} {c : Precondition} {t : Task}
    (hi : Shown crew oid s) (ho : (crew i).oid = oid)
    (ha : s.world.Answers (crew i).place (.modify (crew i).oid d c) (.ok t) w)
    (hm : Phase.Move (crew i) (HandlerCall.Spares oid) (s.phase i)
      (.modify (crew i).oid d c) (.ok t) p) :
    Shown crew oid ⟨w, Function.update s.phase i p⟩ := by
  subst ho
  obtain ⟨hav, r, hf, -, rfl, hf'⟩ := Store.modify_ok ha.modify.2
  have after : w.store.find? (crew i).oid = some (Store.written r d) := by
    simpa using hf' (crew i).oid
  have available : w.store.available := by rw [hav]; exact hi.available
  have cleared (hd : d.node = some .none) :
      Shown crew (crew i).oid ⟨w, Function.update s.phase i p⟩ :=
    Shown.none available fun r' hr' => by
      obtain rfl := Option.some.inj (after.symm.trans hr')
      exact Task.runningOn?_of_cleared hd
  have kept (hd : d.execution ≠ some .running) (hn : d.node = .none)
      (hh : (s.phase i).Holds → p.Holds) :
      Shown crew (crew i).oid ⟨w, Function.update s.phase i p⟩ :=
    hi.keep (fun _ => available) (fun r' n hr' hrun => by
      obtain rfl := Option.some.inj (after.symm.trans hr')
      exact ⟨r, hf, Task.runningOn?_of_written hd hn hrun⟩) hh
  generalize hq : s.phase i = q at hm
  rw [hq] at kept
  cases hm with
  | aside hr => cases hr
  | repair | settle => exact cleared rfl
  | start =>
      refine ⟨available, fun r' n hr' hn => ⟨i, ?_, ?_⟩⟩
      · simp [Phase.Holds]
      · obtain rfl := Option.some.inj (after.symm.trans hr')
        simpa [Task.runningOn?, Store.written, TaskDelta.apply, Possession.runningDelta]
          using hn
  | close => exact kept (Starting.closingDelta_execution _ _) rfl Phase.Holds.busy
  | suspend => exact kept (Starting.suspendingDelta_execution _) rfl Phase.Holds.busy
  | wake => exact kept (by decide) rfl Phase.Holds.busy
  | record => exact kept (Option.some_ne_none _).symm rfl id

theorem Shown.answered {r : Call} {a : r.Response} (hc : Contenders crew oid)
    (hi : Shown crew oid s) (ha : s.world.Answers (crew i).place r a w)
    (hm : Phase.Move (crew i) (HandlerCall.Spares oid) (s.phase i) r a p) :
    Shown crew oid ⟨w, Function.update s.phase i p⟩ := by
  obtain rfl := hc.task i
  have hm' := hm
  have quiet (hr : w.store = s.world.store) := fun (p : Phase) =>
    hi.quiet (i := i) (w := w) (p := p) (by rw [hr]) (by rw [hr]; exact id)
  have failed {d : TaskDelta} {c : Precondition} {e : StoreError}
      (ha : s.world.Answers (crew i).place (.modify (crew i).oid d c) (.error e) w) :=
    quiet (Store.eq_of_modify_error ha.modify.2)
  generalize hq : s.phase i = q at hm
  rw [hq] at quiet failed
  cases hm with
  | aside hr => exact quiet (ha.agrees hr).store _ id
  | repair | start | settle => exact hi.modify_ok rfl ha hm'
  | @close _ _ _ a | @suspend _ _ a | @wake _ _ a =>
      cases a with
      | ok t => exact hi.modify_ok rfl ha hm'
      | error e => exact failed ha _ Phase.Holds.busy
  | @record _ _ a =>
      cases a with
      | ok t => exact hi.modify_ok rfl ha hm'
      | error e => exact failed ha _ id
  | notRepaired | notStarted => exact failed ha _ False.elim
  | notSettled => exact failed ha _ id
  | @neverSettled _ t e =>
      -- an unconditional write of a record that is there does not fail
      have hstore := Store.eq_of_modify_error ha.modify.2
      refine Shown.none (by rw [hstore]; exact hi.available) fun r hr => ?_
      rw [hstore] at hr
      have hw := Store.modify_always hi.available hr (Possession.settlingDelta t)
      rw [ha.modify.2] at hw
      cases hw
  | giveUp =>
      obtain ⟨rfl, hg⟩ := ha.get
      refine Shown.none hi.available fun r hr => ?_
      rw [Store.get_of_find? hi.available hr] at hg
      cases hg
  | handler hcall =>
      have hw := ha.handler_spares hcall
      exact hi.quiet hw.record hw.available fun h => by rwa [hq] at h
  | decide | readToClose | readToSuspend | forget | readToSettle =>
      exact quiet (ha.store id) _ Phase.Holds.busy
  | _ => exact quiet (ha.store id) _ (by first | exact id | exact False.elim)

theorem Shown.step (hc : Contenders crew oid) (hi : Shown crew oid s)
    (he : s.Step crew (HandlerCall.Spares oid) (World.Spares oid) e s') : Shown crew oid s' := by
  cases he with
  | answered ha hm => exact hi.answered hc ha hm
  | gathered hw => exact hi.outside hw.spares
  | outside hw => exact hi.outside hw

structure Inv (crew : ι → Occasion) (oid : TaskOid) (s : Stage ι) : Prop where
  runs : Registration.Inv crew s
  copies : Copies.Inv crew s
  watched : Watched crew oid s
  shown : Shown crew oid s

theorem Inv.step (hc : Contenders crew oid) (hi : Inv crew oid s)
    (he : s.Step crew (HandlerCall.Spares oid) (World.Spares oid) e s')
    (hv : ∀ t, e.written? = some t → t.version ≠ 0) : Inv crew oid s' := by
  have advances := advances_of_step hc he hv
  refine ⟨hi.runs.step (fun w w' hw => ⟨fun i => ?_, hw.owner⟩) he,
    hi.copies.step (fun i => ?_) he, hi.watched.step hc hi.copies advances he,
    hi.shown.step hc he⟩
  · rw [hc.task]
    exact hw.registered _
  · rw [hc.task]
    exact advances

theorem run_inv {es : List (Event ι)} (hc : Contenders crew oid) (ha : w.store.available)
    (hn : ∀ r, w.store.find? oid = some r → r.runningOn? = none)
    (hr : Run (Stage.Step crew (HandlerCall.Spares oid) (World.Spares oid)) (Stage.begin w)
      es s) (hv : NoWrap es) : Inv crew oid s := by
  induction hr with
  | nil =>
      refine ⟨Registration.inv_begin w, Copies.inv_begin w, fun _ _ => trivial, ha, ?_⟩
      intro r n hr hrun
      rw [hn r hr] at hrun
      cases hrun
  | snoc _ he ih =>
      exact (ih fun e he => hv e (List.mem_append_left _ he)).step hc he (hv _ (by simp))

/-- Whoever takes over a task that a node runs did not look for other runs. The other firing
holds it before and after. -/
theorem Inv.takesOver (hc : Contenders crew oid) (hi : Inv crew oid s)
    (he : s.Step crew (HandlerCall.Spares oid) (World.Spares oid) e s')
    (ht : e.Takes (crew i) i) {r : Task} {n : NodeId}
    (hr : s.world.store.find? oid = some r) (hn : r.runningOn? = some n) :
    (crew i).node.config.checkConcurrent = false ∧ n ≠ (crew i).nodeId ∧
      ∃ j, j ≠ i ∧ (crew j).nodeId = n ∧ (s.phase j).Holds ∧ (s'.phase j).Holds := by
  obtain ⟨t, r', h, p, hq, hf, hv, hp, hs⟩ := Stage.registered_of_takes he ht
  rw [hc.task] at hf
  obtain rfl : r = r' := Option.some.inj (hr.symm.trans hf)
  obtain rfl : r = t := by
    refine Copies.eq_of_violation? (hi.copies.precedes i t r ?_ ?_) hv
    · rw [hq]
      rfl
    · rw [hc.task, hr]
  obtain ⟨j, hj, rfl⟩ := hi.shown.holder r n hr hn
  have hji : j ≠ i := by
    rintro rfl
    rw [hq] at hj
    exact hj
  refine ⟨?_, fun hnode => hji ?_, j, hji, rfl, hj, by simpa [hs, hji] using hj⟩
  · refine Bool.eq_false_iff.mpr fun looked => ?_
    have idle := hi.watched i looked
    rw [hq] at idle
    rw [idle hr] at hn
    cases hn
  · refine hi.runs.alone j i hj.entered (by rw [hq]; trivial) (hc.place j i hnode) ?_
    rw [hc.task, hc.task]

section

variable {c : Scene ι} {xs : List (Change ι)}
  (hr : Run (Scene.Changes crew (World.Spares oid)) (.begin crew w) xs c)

include hr

/-- In a run in which nobody takes over, every taking of the task is vetted. -/
theorem vetted_run (hc : Contenders crew oid)
    (hn : ∀ x ∈ xs, ∀ i r n, ¬ x.TakesOver (crew i) i r n) :
    ∃ s, Run (VettedStep crew oid) (Stage.begin w) (xs.map Change.event) s ∧
      c.ShownBy crew (HandlerCall.Spares oid) s := by
  induction hr with
  | nil => exact ⟨_, .nil, Scene.begin_shown hc.handlers w⟩
  | @snoc c c' xs x _ hx ih =>
      obtain ⟨s, hs, hshown⟩ := ih fun x hx => hn x (List.mem_append_left _ hx)
      obtain ⟨he, hbefore, -⟩ := hx
      obtain ⟨s', he, hshown'⟩ := Scene.step_shown hshown he
      rw [List.map_append]
      refine ⟨s', hs.snoc ⟨he, fun i ht => .inr fun r hf => ?_⟩, hshown'⟩
      refine Option.eq_none_iff_forall_ne_some.mpr fun n hrun => ?_
      refine hn x (by simp) i r n ⟨ht, ?_, hrun⟩
      rw [hbefore, hc.task, ← hshown.world]
      exact hf

theorem noWrap_of_run (hc : Contenders crew oid) (hv : NoWrap (xs.map Change.event)) :
    ∀ x ∈ xs, x.NoWrap oid := by
  intro x hx r' hr'
  obtain ⟨before, after, rfl⟩ := List.append_of_mem hx
  obtain ⟨c₁, c₂, h₁, ⟨he, hbefore, hafter⟩, -⟩ := hr.around
  obtain ⟨s, -, hshown⟩ :=
    Scene.run_shown (Scene.begin_shown hc.handlers w) (Scene.events_of_changes h₁)
  obtain ⟨s', he, hshown'⟩ := Scene.step_shown hshown he
  have advances := advances_of_step hc he (hv _ (by simp))
  rw [hshown.world, hshown'.world, ← hbefore, ← hafter] at advances
  obtain ⟨r, hf, rfl | hlt⟩ := advances r' hr'
  · exact .inl hf
  · refine .inr fun h => ?_
    rw [h] at hlt
    exact absurd hlt (Nat.not_lt_zero _)

/-- Whoever takes the task over has loaded it as it was. -/
theorem loaded_of_takesOver (hc : Contenders crew oid) (hv : NoWrap (xs.map Change.event))
    {c' : Scene ι} (he : c.Step crew (World.Spares oid) e c') (ht : e.Takes (crew i) i)
    {r : Task} {n : NodeId} (hf : c.world.store.find? oid = some r)
    (hn : r.runningOn? = some n) :
    ∃ load ∈ xs, load.event = .deed i (Grasp.loading (crew i) r) := by
  obtain ⟨v, t', rfl⟩ := ht
  obtain ⟨s, u, told, hcopy, checked, rfl⟩ := Grasp.told_of_takes hr he
  obtain ⟨r', hrecord, hs, -, -⟩ := he.answers.replaced
  have ho := hc.task i
  rw [ho] at hrecord
  obtain rfl : r' = r := Option.some.inj (hrecord.symm.trans hf)
  have amends : Run (Scene.Changes crew (World.Amends oid)) (.begin crew w) xs c :=
    hr.restrict (P := fun _ => True) (fun _ _ => trivial) fun _ _ _ _ hx =>
      ⟨hx.1.mono fun _ _ hw => .inl hw.record, hx.2⟩
  have foreseen := Grasp.foreseen (i := i) (by rwa [ho]) (by rw [ho]; exact noWrap_of_run hr hc hv)
    (by rw [ho]; exact hf) told hcopy checked hs
  obtain ⟨earlier, load, between, t, rfl, -, hload, rfl | ⟨y, hy, hrepair⟩, -⟩ := foreseen
  · exact ⟨load, by simp, hload⟩
  · -- what a firing has repaired names no node
    obtain ⟨before, after, rfl⟩ := List.append_of_mem hy
    obtain ⟨_, _, -, -, hrest⟩ := hr.around
    obtain ⟨_, _, -, ⟨hy', -, -⟩, -⟩ := hrest.around
    rw [hrepair] at hy'
    obtain ⟨r₀, -, -, rfl, -⟩ := hy'.answers.replaced
    rw [Task.runningOn?_of_cleared rfl] at hn
    cases hn

end

/-- Nobody takes over in another way. -/
theorem usurps_of_takesOver {c : Scene ι} {xs before after : List (Change ι)} {x : Change ι}
    {r : Task} {n : NodeId} (hc : Contenders crew oid) (ha : w.store.available)
    (hn : ∀ r, w.store.find? oid = some r → r.runningOn? = none)
    (hr : Run (Scene.Changes crew (World.Spares oid)) (.begin crew w) xs c)
    (hv : NoWrap (xs.map Change.event)) (hx : xs = before ++ x :: after)
    (ht : x.TakesOver (crew i) i r n) : x.Usurps crew i before r n := by
  subst hx
  obtain ⟨ht, hf, hrun⟩ := ht
  have hv₁ : NoWrap (before.map Change.event) := fun e he => hv e (by
    rw [List.map_append]
    exact List.mem_append_left _ he)
  obtain ⟨c₁, c₂, h₁, ⟨he, hbefore, -⟩, -⟩ := hr.around
  rw [hbefore, hc.task] at hf
  obtain ⟨s, hs, hshown⟩ :=
    Scene.run_shown (Scene.begin_shown hc.handlers w) (Scene.events_of_changes h₁)
  obtain ⟨s', hstep, -⟩ := Scene.step_shown hshown he
  have inv := run_inv hc ha hn hs hv₁
  obtain ⟨unguarded, elsewhere, j, hji, hj, held, held'⟩ :=
    inv.takesOver hc hstep ht (by rw [hshown.world]; exact hf) hrun
  refine ⟨unguarded, loaded_of_takesOver h₁ hc hv₁ he ht hf hrun, elsewhere, j, hji, hj,
    Stage.possesses_of_holds hs held, ?_⟩
  rw [List.map_append]
  exact Stage.possesses_of_holds (hs.snoc hstep) held'

end

end Contention

/-- Of firings that need not look for other runs, no two have the task at a time as long as
nobody takes it over, and no longer. Whoever takes it over did not look, and had loaded the
task when the other node ran it. -/
theorem exclusive_iff_none_takes_over {ι : Type} [DecidableEq ι] {crew : ι → Occasion}
    {oid : TaskOid} {w : World} {c : Scene ι} {xs : List (Change ι)}
    (hc : Exclusion.Contenders crew oid) (ha : w.store.available)
    (hn : ∀ r, w.store.find? oid = some r → r.runningOn? = none)
    (hr : Run (Scene.Changes crew (World.Spares oid)) (.begin crew w) xs c)
    (hv : NoWrap (xs.map Change.event)) :
    (Exclusive crew (xs.map Change.event) ↔
      ∀ x ∈ xs, ∀ i r n, ¬ x.TakesOver (crew i) i r n) ∧
    ∀ before x after i r n, xs = before ++ x :: after → x.TakesOver (crew i) i r n →
      x.Usurps crew i before r n := by
  refine ⟨⟨fun exclusive x hx i r n ht => ?_, fun none before after hes i j hi hj => ?_⟩,
    fun _ _ _ _ _ _ => Contention.usurps_of_takesOver hc ha hn hr hv⟩
  · obtain ⟨before, after, rfl⟩ := List.append_of_mem hx
    obtain ⟨j, hji, -, -, hj⟩ := (Contention.usurps_of_takesOver hc ha hn hr hv rfl ht).held
    have hi : Possesses (crew i) i ((before ++ [x]).map Change.event) := by
      rw [List.map_append]
      exact ⟨_, _, [], rfl, ht.1, fun _ h => absurd h List.not_mem_nil⟩
    exact hji (exclusive _ (after.map Change.event) (by simp) j i hj hi)
  · obtain ⟨xs₁, xs₂, rfl, rfl, rfl⟩ := List.map_eq_append_iff.mp hes
    obtain ⟨c₁, h₁, -⟩ := hr.split
    obtain ⟨s, hs, -⟩ := Contention.vetted_run h₁ hc fun x hx => none x (by simp [hx])
    obtain ⟨inv, holds⟩ := Exclusion.vetted_run_inv hc ha hs fun e he => hv e (by
      rw [List.map_append]
      exact List.mem_append_left _ he)
    exact inv.claims.exclusive i j (holds i hi) (holds j hj)

namespace Contention

/-- The firing, on a node that does not look for other runs. -/
def unguarded (f : Occasion) : Occasion :=
  { f with node := { f.node with config := { f.node.config with checkConcurrent := false } } }

/-- Two such firings, whose handlers end at once. -/
abbrev crew (i : Bool) : Occasion :=
  unguarded (Rehearsal.pair (.done (.ok .interrupted)) (.done (.ok .interrupted)) i)

/-- The first of them takes the task, and the second one loads it and takes it over. -/
abbrev played : List (Event Bool) × Scene Bool :=
  Scene.play crew (List.replicate 7 (.go true) ++ List.replicate 7 (.go false))
    (.begin crew Rehearsal.world)

theorem crew_contenders : Exclusion.Contenders crew Rehearsal.task.oid := by
  refine ⟨by decide, by decide, by decide, fun i => ?_⟩
  have done : (.done (.ok .interrupted) : HandlerWork).Only
      (HandlerCall.Spares Rehearsal.task.oid) := trivial
  have keeps := Rehearsal.pair_keepsTo done done i
  exact keeps

theorem played_run :
    Run (Scene.Step crew (World.Spares Rehearsal.task.oid)) (.begin crew Rehearsal.world)
      played.1 played.2 :=
  Scene.play_run _ _ fun f hf => by simp at hf

/-- Whether the first firing may let go of its task in an event. -/
def letsGo : Event Bool → Bool
  | .deed i (.answered (.modify _ d _) _) => i && d.node = some none
  | _ => false

theorem letsGo_of {f : Occasion} {e : Event Bool} (h : e.LetsGo f true) : letsGo e := by
  obtain ⟨read, p, t, rfl⟩ := h
  rfl

theorem played_possesses (i : Bool) : Possesses (crew i) i played.1 := by
  cases i with
  | true =>
      refine ⟨played.1.take 6, _, played.1.drop 7, rfl, ⟨0, _, rfl⟩, fun e he hl => ?_⟩
      have calm : (played.1.drop 7).all (!letsGo ·) := by decide +kernel
      have := List.all_eq_true.mp calm e he
      simp [letsGo_of hl] at this
  | false =>
      exact ⟨played.1.take 13, _, [], rfl, ⟨1, _, rfl⟩, fun _ h => absurd h List.not_mem_nil⟩

end Contention

/-- Without a look for other runs two firings have the task at a time, though both take it
by versioned writes. -/
theorem not_exclusive :
    ∃ (crew : Bool → Occasion) (c : Scene Bool) (es : List (Event Bool)),
      Exclusion.Contenders crew Rehearsal.task.oid ∧
      (∀ i, (crew i).node.config.checkConcurrent = false) ∧
      (crew true).nodeId ≠ (crew false).nodeId ∧
      Run (Scene.Step crew (World.Spares Rehearsal.task.oid)) (.begin crew Rehearsal.world) es
        c ∧
      NoWrap es ∧ Possesses (crew true) true es ∧ Possesses (crew false) false es :=
  ⟨Contention.crew, _, _, Contention.crew_contenders, by decide, by decide,
    Contention.played_run, noWrap_of_all (by decide +kernel), Contention.played_possesses true,
    Contention.played_possesses false⟩

/-- There one of them has taken over. -/
theorem taken_over_of_played :
    ∃ (before after : List (Change Bool)) (x : Change Bool) (i : Bool) (r : Task) (n : NodeId),
      (before ++ x :: after).map Change.event = Contention.played.1 ∧
      x.TakesOver (Contention.crew i) i r n ∧ x.Usurps Contention.crew i before r n := by
  obtain ⟨xs, hevents, hr⟩ := Scene.changes_of_events Contention.played_run
  have hv : NoWrap (xs.map Change.event) := by
    rw [hevents]
    exact noWrap_of_all (by decide +kernel)
  have idle : ∀ r, Rehearsal.world.store.find? Rehearsal.task.oid = some r →
      r.runningOn? = none := by
    rintro r ⟨⟩
    rfl
  obtain ⟨exclusive, usurps⟩ :=
    exclusive_iff_none_takes_over Contention.crew_contenders rfl idle hr hv
  have shared : ¬ ∀ x ∈ xs, ∀ i r n, ¬ x.TakesOver (Contention.crew i) i r n := by
    intro none
    have h := exclusive.mpr none _ [] (List.append_nil _).symm true false
    rw [hevents] at h
    cases h (Contention.played_possesses true) (Contention.played_possesses false)
  push Not at shared
  obtain ⟨x, hx, i, r, n, ht⟩ := shared
  obtain ⟨before, after, rfl⟩ := List.append_of_mem hx
  exact ⟨before, after, x, i, r, n, hevents, ht, usurps before x after i r n rfl ht⟩

end TaskFiring
