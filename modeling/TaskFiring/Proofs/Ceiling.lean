import TaskFiring.Proofs.Hierarchy
import TaskFiring.Proofs.KnownRecord
import TaskFiring.Proofs.Loading

/-!
How many tasks run in a group. A firing takes its task only after it has found room in each
group of the task that has a limit. It finds the groups by a walk of its own up the
hierarchy, which leads where the one of the store leads. So if nobody else writes from when
a firing loads its task to when it takes it, no group ever has more running tasks than it
may, besides those that it had at first.
-/

namespace TaskFiring

/-- A call of a handler by which no task comes to run, and none goes. -/
def HandlerCall.StartsNone : HandlerCall → Prop
  | .disturb (.write _ d) => d.execution ≠ some .running
  | .disturb (.remove _) => False
  | _ => True

/-- A call by which no task comes to run, and none goes. -/
def Call.RunsNone : Call → Prop
  | .modify _ d _ => d.execution ≠ some .running
  | .handler _ _ call => call.StartsNone
  | _ => True

theorem Call.StartsNone.runsNone {r : Call} (h : r.StartsNone) : r.RunsNone := by
  cases r with
  | modify => exact h.2
  | isInterrupted | handler => cases h
  | _ => trivial

namespace World

section

variable {w w' : World} {place : Place} {r : Call} {a : r.Response}

theorem disturb_refrains {d : Disturbance} (hd : (HandlerCall.disturb d).StartsNone) :
    w.store.Refrains (w.disturb d).store := by
  cases d with
  | write oid d => exact Store.refrains_modify hd _ _ _
  | remove oid => cases hd
  | storeAvailable _ | triggerFailing _ | advance _ =>
      exact Store.SameRecords.refrains fun _ => rfl

theorem Answers.refrains (ha : w.Answers place r a w') (hr : r.RunsNone) :
    w.store.Refrains w'.store := by
  cases r with
  | modify oid d c =>
      have hm : (w.store.modify oid d c).2 = w'.store := by rw [ha.modify.2]
      exact hm ▸ Store.refrains_modify hr _ _ _
  | handler h oid call =>
      rcases ha.handler_cases with hw | ⟨b, -, -, hm⟩ | ⟨d, rfl, rfl⟩
      · exact hw.store ▸ .refl _
      · have hm : (w.store.modify oid waitingDelta .always).2 = w'.store := by rw [hm]
        exact hm ▸ Store.refrains_modify (by decide) _ _ _
      · exact disturb_refrains hr
  | _ => exact ha.store id ▸ .refl _

theorem Replies.refrains (ha : w.Replies place r a w') (hr : r.RunsNone) :
    w.store.Refrains w'.store := by
  cases ha with
  | answered ha => exact ha.refrains hr
  | collected => exact .refl _

end

end World

/-- Of the moves of a firing only that by which it takes its task makes a task run. -/
theorem Phase.Move.runsNone_or_takes {f : Occasion} {q p : Phase} {r : Call} {a : r.Response}
    (hm : Phase.Move f HandlerCall.StartsNone q r a p) :
    r.RunsNone ∨ ∃ v, r = .modify f.oid (Possession.runningDelta f.nodeId) (.version v) := by
  cases hm with
  | aside hr => exact .inl hr.startsNone.runsNone
  | handler hc => exact .inl hc
  | start | notStarted => exact .inr ⟨_, rfl⟩
  | close => exact .inl (Starting.closingDelta_execution _ _)
  | suspend => exact .inl (Starting.suspendingDelta_execution _)
  | settle | notSettled | neverSettled =>
      exact .inl (Starting.settlingDelta_startsNone f.oid _ .always).2
  | repair | notRepaired | wake | record => exact .inl nofun
  | _ => exact .inl trivial

namespace Ceiling

open Program (Meets Only)
open Starting

/-- The others leave all records alone. -/
abbrev Idle (w w' : World) : Prop := w.store.SameRecords w'.store

/-- A task is not taken without room in the group. -/
abbrev Heeds (g : String) (limit : Nat) (oid : TaskOid) (w : World) (r : Call) : Prop :=
  r.AssignsNone ∨ w.store.Room g limit oid

/-- A part of a firing, among others that write nothing. -/
abbrev Runs {α : Type} (f : Occasion) (g : String) (limit : Nat) (p : Action α) (w : World)
    (Q : World → α → Prop) : Prop :=
  p.Meets (.amid f.place Idle (Heeds g limit f.oid)) w Q

/-- The constraints that a task has, if it is there. -/
def Bound (s : Store) (oid : TaskOid) (constraints : Option Constraints) : Prop :=
  ∀ t, s.find? oid = some t → s.effectiveConstraints t = constraints

theorem Bound.refrains {s s' : Store} {oid : TaskOid} {constraints : Option Constraints}
    (h : Bound s oid constraints) (hs : s.Refrains s') : Bound s' oid constraints := by
  intro t' ht'
  obtain ⟨t, ht, hc⟩ := hs.forest.effectiveConstraints ht'
  rw [hc]
  exact h t ht

section

variable {α : Type} {f : Occasion} {g : String} {limit : Nat} {p : Action α} {w : World}
  {s : Store} {t : Task} {constraints : Option Constraints}

theorem runs_of_assignsNone (hp : p.Only Call.AssignsNone) :
    Runs f g limit p w fun _ _ => True :=
  hp.meets (P := fun _ => True) (fun _ _ _ hr => .inl hr) (fun _ _ _ => trivial)
    (fun _ _ => trivial) trivial

/-- What lasts where nothing comes to run. -/
theorem runs_of_startsNone {P : Store → Prop} (hP : ∀ {s s'}, P s → s.Refrains s' → P s')
    (hp : p.Only Call.StartsNone) (hw : P w.store) :
    Runs f g limit p w fun w' _ => P w'.store :=
  hp.meets (P := fun w => P w.store) (fun _ _ _ hr => .inl hr.assignsNone)
    (fun h hr ha => hP h (ha.refrains hr.runsNone)) (fun h hs => hP h hs.refrains) hw

theorem calm (f : Occasion) (g : String) (limit : Nat) (s : Store) :
    World.Calm f.place Idle (Heeds g limit f.oid) fun w => s.SameRecords w.store where
  made _ hr _ := .inl hr.startsNone.assignsNone
  aside h hr ha := (ha.agrees hr).store ▸ h
  beside h hs := h.trans hs

/-- The walk of a firing up the hierarchy leads where that of the store leads. -/
theorem ancestor_runs (task : TaskOid) (room : Nat) (visited : List TaskOid) (top : Option Task)
    (t : Task) (hw : s.SameRecords w.store) :
    Runs f g limit (Preparation.ancestor task room visited top (top.getD t).parent).run w
      fun w' r => s.SameRecords w'.store ∧
        ∀ root, r = .ok root → root.getD t = s.topmost room visited (top.getD t) := by
  induction room generalizing visited top w with
  | zero => exact ⟨hw, fun _ h => by cases h; rfl⟩
  | succ room ih =>
      unfold Store.topmost
      cases hp : (top.getD t).parent with
      | none => exact ⟨hw, fun _ h => by cases h; rfl⟩
      | some parent =>
          by_cases hv : parent ∈ visited
          · rw [Course.ancestor_visited hv]
            simp only [hv, if_true]
            exact ⟨hw, fun _ h => by cases h; rfl⟩
          · rw [Course.ancestor_unvisited hv]
            simp only [hv, if_false]
            refine Meets.query ⟨.inl trivial, fun answer w₁ w₂ ha hw₂ => ?_⟩
            obtain ⟨rfl, hg⟩ := (ha.answers id).get
            have hw₂ := hw.trans hw₂
            cases answer with
            | ok p =>
                have found : s.find? parent = some p :=
                  (hw parent).symm.trans (Store.get_ok hg.symm)
                rw [found]
                exact ih (parent :: visited) (some p) hw₂
            | error e =>
                cases e with
                | notFound oid =>
                    have missing : s.find? parent = none :=
                      (hw parent).symm.trans (Store.find?_of_notFound hg.symm)
                    rw [missing]
                    exact ⟨hw₂, fun _ h => by cases h; rfl⟩
                | conflict _ _ _ | preconditionFailed _ _ | backend _ =>
                    exact ⟨hw₂, fun _ h => nomatch h⟩

/-- The constraints that a firing loads are those that the store counts by. -/
theorem load_runs : Runs f g limit (Preparation.load f.oid).run w fun w' r =>
    ∀ snapshot, r = .ok snapshot →
      snapshot.task.oid = f.oid ∧ Bound w'.store f.oid snapshot.constraints := by
  unfold Preparation.load
  refine Meets.query ⟨.inl trivial, fun answer w₁ w₂ ha hw₂ => ?_⟩
  obtain ⟨rfl, hg⟩ := (ha.answers id).get
  cases answer with
  | error e =>
      cases e with
      | notFound oid =>
          exact Meets.query ⟨.inl trivial, fun _ _ _ _ _ _ h => nomatch h⟩
      | conflict _ _ _ | preconditionFailed _ _ | backend _ => exact fun _ h => nomatch h
  | ok t =>
      have found := Store.get_ok hg.symm
      have ho := Store.oid_of_find? found
      refine Meets.attempt Demand.amid_monotone
        (ancestor_runs f.oid (maxHierarchyDepth - 1) [t.oid] none t hw₂) ?_
        fun _ _ _ _ h => nomatch h
      rintro w₃ root ⟨hw₃, hroot⟩ snapshot ⟨⟩
      refine ⟨ho, Bound.refrains (fun t' ht' => ?_) hw₃.refrains⟩
      obtain rfl : t = t' := Option.some.inj (found.symm.trans ht')
      have hroot : root.getD t = w₁.store.topmost (maxHierarchyDepth - 1) [t.oid] t :=
        hroot root rfl
      rw [Store.effectiveConstraints_eq_or, ← hroot]
      cases root with
      | some p => rfl
      | none => exact Option.or_self.trans Option.or_none.symm

theorem repair_runs {here : NodeId} {recovering : Bool} (ho : t.oid = f.oid)
    (hw : Bound w.store f.oid constraints) :
    Runs f g limit (Preparation.repair here t recovering).run w fun w' r =>
      Bound w'.store f.oid constraints ∧ ∀ u, r = .ok u → u.oid = f.oid := by
  refine (runs_of_startsNone Bound.refrains (repair_startsNone _ _ _) hw).and ?_
  unfold Preparation.repair
  refine Meets.query ⟨.inl trivial, fun found w₁ w₂ _ _ => ?_⟩
  dsimp only
  split
  · rintro u ⟨⟩
    exact ho
  · refine Meets.query ⟨.inl fun _ h => (nomatch h), fun answer w₃ w₄ ha _ => ?_⟩
    have fair := (ha.answers id).fair
    cases answer with
    | ok u =>
        rintro _ ⟨⟩
        exact fair.trans ho
    | error e => cases e <;> exact fun _ h => nomatch h

/-- What is counted is how many run besides the task. -/
theorem count_runs (group : String) (oid : TaskOid) (stop : StoreError → Stop)
    (hw : s.SameRecords w.store) :
    Runs f g limit (orStop (call (.countRunning group oid)) stop).run w fun w' r =>
      s.SameRecords w'.store ∧ ∀ n, r = .ok n → s.others group oid ≤ n := by
  refine ⟨.inl trivial, fun answer w₁ w₂ ha hw₂ => ?_⟩
  obtain ⟨rfl, rfl⟩ := (ha.answers id).countRunning
  refine ⟨hw.trans hw₂, fun n hn => ?_⟩
  cases hcount : w₁.store.countRunning group oid with
  | error e =>
      rw [hcount] at hn
      cases hn
  | ok m =>
      rw [hcount] at hn
      cases hn
      rw [← Store.others_of_countRunning hcount]
      exact hw.symm.refrains.others_le

/-- Groups with limits that are not saturated have room besides the task. -/
theorem saturated_runs (config : Config) (oid : TaskOid) (gs : List GroupConstraint)
    (hw : s.SameRecords w.store) :
    Runs f g limit (Admission.saturated config oid gs).run w fun w' r =>
      s.SameRecords w'.store ∧ (r = .ok [] → ∀ c ∈ gs, ∀ n,
        Admission.limitFor config c = some n → s.others c.group oid < n.toNat) := by
  induction gs generalizing w with
  | nil => exact ⟨hw, fun _ _ h => absurd h List.not_mem_nil⟩
  | cons c gs ih =>
      unfold Admission.saturated
      cases hl : Admission.limitFor config c with
      | none =>
          refine (ih hw).mono Demand.amid_monotone ?_
          rintro w' r ⟨hw', room⟩
          refine ⟨hw', fun h => List.forall_mem_cons.mpr ⟨fun n hn => ?_, room h⟩⟩
          rw [hl] at hn
          cases hn
      | some n =>
          refine Meets.attempt Demand.amid_monotone (count_runs _ _ _ hw) ?_
            fun _ _ h => ⟨h.1, fun h => by cases h⟩
          rintro w₁ count ⟨hw₁, hcount⟩
          refine Meets.attempt Demand.amid_monotone (ih hw₁) ?_
            fun _ _ h => ⟨h.1, fun h => by cases h⟩
          rintro w₂ rest ⟨hw₂, room⟩
          by_cases full : n.toNat ≤ count
          · rw [if_pos full]
            exact ⟨hw₂, fun h => by cases h⟩
          · rw [if_neg full]
            refine ⟨hw₂, fun h => List.forall_mem_cons.mpr ⟨fun n' hn => ?_, room h⟩⟩
            obtain rfl := Option.some.inj (hl.symm.trans hn)
            exact Nat.lt_of_le_of_lt (hcount count rfl) (Nat.lt_of_not_le full)

theorem check_runs (config : Config) (hw : s.SameRecords w.store) :
    Runs f g limit (Admission.check config t constraints).run w fun w' r =>
      s.SameRecords w'.store ∧ (r = .ok .allowed → ∀ cs, constraints = some cs →
        ∀ c ∈ cs.groups, ∀ n, Admission.limitFor config c = some n →
          s.others c.group t.oid < n.toNat) := by
  unfold Admission.check
  cases constraints with
  | none => exact ⟨hw, fun _ _ h => nomatch h⟩
  | some cs =>
      refine Meets.attempt Demand.amid_monotone (saturated_runs _ _ _ hw) ?_
        fun _ _ h => ⟨h.1, fun h => nomatch h⟩
      rintro w₁ full ⟨hw₁, room⟩
      cases full with
      | nil =>
          refine ⟨hw₁, fun _ _ h => ?_⟩
          cases h
          exact room rfl
      | cons c full =>
          refine Meets.query ⟨.inl trivial, fun now w₂ w₃ ha hw₃ => ?_⟩
          have hw₂ := (calm f g limit s).aside (r := .now) hw₁ trivial ha
          refine Meets.lift Demand.amid_monotone ((calm f g limit s).inquire
            (Course.naturalRefire?_inquires _ _ _) (hw₂.trans hw₃)) fun w₄ next hw₄ => ?_
          split <;> exact ⟨hw₄, fun h => nomatch h⟩

/-- A task is admitted to the group only if there is room. -/
theorem enforce_runs {config : Config} {n : UInt32} (hlimit : config.limit? g = some n)
    (ho : t.oid = f.oid) (hw : Bound w.store f.oid constraints) :
    Runs f g limit (Admission.enforce config t constraints).run w fun w' r =>
      r = .ok () → w'.store.Room g n.toNat f.oid := by
  unfold Admission.enforce
  refine Meets.attempt Demand.amid_monotone (check_runs config (.refl w.store)) ?_
    fun _ _ _ h => nomatch h
  rintro w₁ decision ⟨hw₁, room⟩
  cases decision with
  | allowed =>
      refine fun _ => Store.Room.refrains (fun u hu hg => ?_) hw₁.refrains
      obtain ⟨cs, hcs, hg⟩ := (Option.any_eq_true _ _).mp (hw u hu ▸ hg)
      obtain ⟨c, hc, hg⟩ := List.any_eq_true.mp hg
      obtain rfl := of_decide_eq_true hg
      have limited : Admission.limitFor config c = some n := by
        rw [Admission.limitFor, hlimit]
        rfl
      rw [← ho]
      exact room rfl cs hcs c hc n limited
  | refused full retryAt regular =>
      cases regular with
      | true => exact fun h => nomatch h
      | false =>
          exact Meets.attempt Demand.amid_monotone
            (runs_of_assignsNone ⟨trivial, fun _ => trivial⟩) (fun _ _ _ h => nomatch h)
            fun _ _ _ h => nomatch h

theorem prepare_runs {n : UInt32} (hlimit : f.node.config.limit? g = some n) :
    Runs f g limit (Firing.prepare f.node f.oid f.recovering).run w fun w' r =>
      ∀ q, r = .ok q → w'.store.Room g n.toNat f.oid := by
  unfold Firing.prepare
  refine Meets.attempt Demand.amid_monotone load_runs ?_ fun _ _ _ _ h => nomatch h
  intro w₁ snapshot hs
  obtain ⟨ho, bound⟩ := hs snapshot rfl
  refine Meets.attempt Demand.amid_monotone (runs_of_startsNone Bound.refrains
    (ensureReady_startsNone _) bound) ?_ fun _ _ _ _ h => nomatch h
  rintro w₂ ⟨⟩ bound
  refine Meets.attempt Demand.amid_monotone (repair_runs ho bound) ?_
    fun _ _ _ _ h => nomatch h
  rintro w₃ t ⟨bound, ho⟩
  refine Meets.attempt Demand.amid_monotone (runs_of_startsNone Bound.refrains
    (ensureSchedulerRunning_startsNone _) bound) ?_ fun _ _ _ _ h => nomatch h
  rintro w₄ ⟨⟩ bound
  refine Meets.attempt Demand.amid_monotone (runs_of_startsNone Bound.refrains
    (applyRecoveryPolicy_startsNone _ _) bound) ?_ fun _ _ _ _ h => nomatch h
  rintro w₅ ⟨⟩ bound
  refine Meets.attempt Demand.amid_monotone (enforce_runs hlimit (ho t rfl) bound) ?_
    fun _ _ _ _ h => nomatch h
  rintro w₆ ⟨⟩ room
  refine Meets.query ⟨.inl trivial, fun h w₇ w₈ ha hw₈ => ?_⟩
  rintro q ⟨⟩
  exact ((room rfl).refrains (ha.refrains trivial)).refrains hw₈.refrains

/-- A firing takes its task where there is room. -/
theorem start_runs (room : w.store.Room g limit f.oid) :
    Runs f g limit (Possession.start t f.nodeId).run w fun _ _ => True := by
  unfold Possession.start
  refine Meets.query ⟨.inr room, fun answer w₁ w₂ _ _ => ?_⟩
  cases answer with
  | ok u => trivial
  | error e =>
      cases e with
      | conflict _ _ _ =>
          refine runs_of_assignsNone (Only.lift ?_ fun _ => trivial)
          exact assignsNone (startsNone_of_aside (Course.lostRace_aside _ _))
      | notFound _ | preconditionFailed _ _ | backend _ => trivial

theorem runPrepared_runs {q : Firing} (room : w.store.Room g limit f.oid) :
    Runs f g limit (Firing.runPrepared f.node q) w fun _ _ => True := by
  unfold Firing.runPrepared
  have lasts {α : Type} {p : Action α} {w : World} (hp : p.Only Call.StartsNone)
      (room : w.store.Room g limit f.oid) :
      Runs f g limit p w fun w' _ => w'.store.Room g limit f.oid :=
    runs_of_startsNone Store.Room.refrains hp room
  refine Meets.bind Demand.amid_monotone (lasts (guard_startsNone _ _) room) ?_
  intro w₁ guarded room
  cases guarded with
  | error stop => trivial
  | ok u =>
      refine Meets.bind Demand.amid_monotone
        (lasts (p := call (.register q.handle)) ⟨trivial, fun _ => trivial⟩ room) ?_
      intro w₂ registered room
      cases registered with
      | false => trivial
      | true =>
          refine Meets.bind Demand.amid_monotone
            (lasts (p := call .isShutDown) ⟨trivial, fun _ => trivial⟩ room) ?_
          intro w₃ shutDown room
          have rest {w : World} (room : w.store.Room g limit f.oid) : Runs f g limit
              ((Firing.runRegistered f.node q).bind fun e => Firing.finish f.node e.1 e.2) w
              fun _ _ => True := by
            refine Meets.bind Demand.amid_monotone (Q := fun _ _ => True) ?_ fun _ _ _ =>
              runs_of_assignsNone (assignsNone (finish_startsNone _ _ _))
            refine Meets.bind Demand.amid_monotone (start_runs room) fun _ started _ => ?_
            cases started with
            | error stop => trivial
            | ok t => exact runs_of_assignsNone (runStarted_assignsNone _ _)
          cases shutDown with
          | false => exact rest room
          | true =>
              refine Meets.bind Demand.amid_monotone
                (lasts (startsNone_of_aside (Course.interrupt_aside _ _)) room) ?_
              exact fun _ _ room => rest room

/-- A firing on a node that limits the group takes its task only where there is room, if
nobody else writes meanwhile. -/
theorem program_runs {n : UInt32} (hlimit : f.node.config.limit? g = some n) :
    Runs f g n.toNat f.program w fun _ _ => True := by
  unfold Occasion.program Node.fire
  refine Meets.bind Demand.amid_monotone (prepare_runs hlimit) ?_
  intro w₁ prepared room
  cases prepared with
  | error stop => trivial
  | ok q => exact runPrepared_runs (room q rfl)

end

end Ceiling

/-- From when the firing loads its task to when it takes it, nobody else writes a record. -/
def Secluded {ι : Type} [DecidableEq ι] (crew : ι → Occasion) (i : ι) (xs : List (Change ι)) :
    Prop :=
  ∀ earlier load between take later t, xs = earlier ++ load :: between ++ take :: later →
    load.event = .deed i (Grasp.loading (crew i) t) → take.event.Takes (crew i) i →
    ∀ x ∈ between, x.event.deed? i = none → x.before.store.SameRecords x.after.store

namespace Ceiling

section

variable {ι : Type} [DecidableEq ι] {crew : ι → Occasion} {outside : World → World → Prop}
  {c c' : Scene ι} {e : Event ι} {x : Change ι} {xs : List (Change ι)} {w : World} {i : ι}
  {g : String} {n : UInt32}

theorem secluded_of_snoc (h : Secluded crew i (xs ++ [x])) : Secluded crew i xs :=
  fun earlier load between take later t hxs =>
    h earlier load between take (later ++ [x]) t (by simp [hxs])

/-- What happens in a run makes no task run, unless a firing takes its task. -/
theorem refrains_of_step {s : Stage ι}
    (ho : ∀ w w', outside w w' → w.store.Refrains w'.store)
    (hs : c.ShownBy crew HandlerCall.StartsNone s) (he : c.Step crew outside e c') :
    (∃ i, e.Takes (crew i) i) ∨ c.world.store.Refrains c'.world.store := by
  obtain ⟨s', hstep, hs'⟩ := Scene.step_shown hs he
  rw [← hs.world, ← hs'.world]
  cases hstep with
  | gathered hw => exact .inr (hw.store ▸ .refl _)
  | outside hw => exact .inr (ho _ _ hw)
  | @answered i r a p w ha hm =>
      rcases hm.runsNone_or_takes with hr | ⟨v, rfl⟩
      · exact .inr (ha.refrains hr)
      · cases a with
        | ok t => exact .inl ⟨i, v, t, rfl⟩
        | error e => exact .inr ((Store.eq_of_modify_error ha.modify.2) ▸ .refl _)

/-- A run is one beside the firing if what others do in it is put up with. -/
theorem run_beside {rely : World → World → Prop}
    (hr : Run (Scene.Changes crew outside) c xs c')
    (h : ∀ x ∈ xs, x.event.deed? i = none → rely x.before x.after) :
    Run (Scene.StepBeside crew outside rely i) c (xs.map Change.event) c' := by
  have beside : Run (fun c x c' => c.StepBeside crew outside rely i x.event c') c xs c' := by
    refine hr.restrict h fun c x c' hx he => ⟨he.1, fun hd => ?_⟩
    rw [← he.2.1, ← he.2.2]
    exact hx hd
  exact beside.image fun _ _ _ h => h

/-- A firing that takes its task has loaded it before, and done nothing until then. -/
theorem exists_load_of_takes (hr : Run (Scene.Changes crew outside) (.begin crew w) xs c)
    (he : c.Step crew outside e c') (ht : e.Takes (crew i) i) :
    ∃ earlier load between t c₁, xs = earlier ++ load :: between ∧
      load.event = .deed i (Grasp.loading (crew i) t) ∧
      c₁.program i = (crew i).program ∧
      Run (Scene.Changes crew outside) c₁ (load :: between) c := by
  obtain ⟨v, t', rfl⟩ := ht
  obtain ⟨s, u, told, hcopy, -, -⟩ := Grasp.told_of_takes hr he
  obtain ⟨t, later, hds⟩ := told.loads hcopy
  obtain ⟨earlier, load, between, rfl, hearlier, hload, -⟩ := exists_first_change_of_deedsOf hds
  obtain ⟨c₁, h₁, h₂⟩ := hr.split
  refine ⟨earlier, load, between, t, c₁, rfl, hload, ?_, h₂⟩
  have way := Scene.way_of_run (Scene.events_of_changes h₁) i
  rw [hearlier] at way
  exact way.eq_of_nil

/-- Where a firing takes its task there is room, if it was left alone. -/
theorem room_of_takes (hlimit : (crew i).node.config.limit? g = some n)
    (hr : Run (Scene.Changes crew outside) (.begin crew w) xs c)
    (he : c.Changes crew outside x c') (ht : x.event.Takes (crew i) i)
    (hs : Secluded crew i (xs ++ [x])) : c.world.store.Room g n.toNat (crew i).oid := by
  obtain ⟨earlier, load, between, t, c₁, rfl, hload, outset, hr⟩ :=
    exists_load_of_takes hr he.1 ht
  have reliance : World.Reliance Idle := .of_store Store.SameRecords.refl Store.SameRecords.trans
  have steady : ∀ w, Call.Steady (Heeds g n.toNat (crew i).oid w) :=
    fun _ _ _ _ _ _ _ _ _ => .inl trivial
  have secure : c₁.Secure crew Idle (Heeds g n.toNat (crew i).oid) i fun _ _ => True := by
    intro w' _
    rw [outset]
    exact program_runs hlimit
  have beside : Run (Scene.StepBeside crew outside Idle i) c₁
      ((load :: between).map Change.event) c := by
    refine run_beside hr (List.forall_mem_cons.mpr ⟨fun hd => ?_, ?_⟩)
    · rw [hload, Event.deed?_eq_some.mpr rfl] at hd
      cases hd
    · exact hs earlier load between x [] t (by simp) hload ht
  obtain ⟨v, t', hx⟩ := ht
  obtain ⟨hstep, -, -⟩ := he
  rw [hx] at hstep
  rcases (secure.run reliance steady beside).called reliance.refl hstep with h | room
  · exact absurd rfl (h (crew i).nodeId)
  · exact room

/-- By the write that takes its task no firing exceeds the limit. -/
theorem runningIn_of_takes (he : c.Step crew outside e c') (ht : e.Takes (crew i) i)
    (room : c.world.store.Room g n.toNat (crew i).oid)
    (hle : c.world.store.runningIn g ≤ n.toNat) : c'.world.store.runningIn g ≤ n.toNat := by
  obtain ⟨v, t, rfl⟩ := ht
  have hm := he.answers.modify.2
  obtain ⟨-, -, -, -, -, hf⟩ := Store.modify_ok hm
  have forest := Store.sameForest_modify c.world.store (crew i).oid
    (Possession.runningDelta (crew i).nodeId) (.version v)
  rw [hm] at forest
  exact room.runningIn_le forest (fun oid ho => (hf oid).trans (if_neg (Ne.symm ho))) hle

end

end Ceiling

/-- In a run of firings on nodes that all give a group the same limit, no more tasks run in
the group than that, be it by their own constraints or by those of the root of their
hierarchy: if no more did at first, no task comes or goes, nothing but the firings makes a
task run, and nobody else writes from when a firing loads its task to when it takes it. -/
theorem running_within_limit {ι : Type} [DecidableEq ι] {crew : ι → Occasion} {w : World}
    {c : Scene ι} {xs : List (Change ι)} {g : String} {n : UInt32}
    (hlimit : ∀ i, (crew i).node.config.limit? g = some n)
    (hk : ∀ i, (crew i).node.KeepsTo HandlerCall.StartsNone)
    (hw : w.store.runningIn g ≤ n.toNat)
    (hr : Run (Scene.Changes crew fun w w' => w.store.Refrains w'.store) (.begin crew w) xs c)
    (hs : ∀ i, Secluded crew i xs) : c.world.store.runningIn g ≤ n.toNat := by
  induction hr with
  | nil => exact hw
  | @snoc c₁ c₂ xs x hr he ih =>
      have hle := ih fun i => Ceiling.secluded_of_snoc (hs i)
      obtain ⟨s, -, shown⟩ := Scene.run_shown (Scene.begin_shown hk w) (Scene.events_of_changes hr)
      rcases Ceiling.refrains_of_step (fun _ _ h => h) shown he.1 with ⟨i, htakes⟩ | refrains
      · have room := Ceiling.room_of_takes (hlimit i) hr he htakes (hs i)
        exact Ceiling.runningIn_of_takes he.1 htakes room hle
      · exact Nat.le_trans refrains.runningIn_le hle

namespace Ceiling

def grouped : Constraints := { groups := [⟨"g", none⟩], retryAfter := none }

/-- A task that is in a group by its parent, and one that runs in the same group. -/
def world : World where
  now := default
  store :=
    { tasks := Table.ofList
        [{ Rehearsal.task with parent := some ⟨2⟩ },
          { Rehearsal.task with oid := ⟨2⟩, constraints := some grouped },
          { Rehearsal.task with
            oid := ⟨3⟩, constraints := some grouped, execution := .running, node := some ⟨"b"⟩ }] }

abbrev crew (_ : Unit) : Occasion :=
  let f := Rehearsal.occasion "a" (.done (.ok .finished))
  { f with node := { f.node with config := f.node.config.withGroupLimit "g" 2 } }

/-- The task is taken. -/
abbrev played : List (Event Unit) × Scene Unit :=
  Scene.play crew (List.replicate 12 (.go ())) (.begin crew world)

theorem crew_keepsTo (i : Unit) : (crew i).node.KeepsTo HandlerCall.StartsNone := by
  change (Rehearsal.occasion "a" (.done (.ok .finished))).node.KeepsTo _
  exact Rehearsal.occasion_keepsTo trivial

theorem played_run :
    Run (Scene.Step crew fun w w' => w.store.Refrains w'.store) (.begin crew world) played.1
      played.2 :=
  Scene.play_run _ _ fun f hf => by simp at hf

/-- Nobody else is there. -/
theorem played_secluded {xs : List (Change Unit)} (h : xs.map Change.event = played.1) :
    Secluded crew () xs := by
  have own : played.1.all fun e => (e.deed? ()).isSome := by decide +kernel
  rintro earlier load between take later t rfl - - x hx hd
  have hmem : x.event ∈ played.1 := by
    rw [← h]
    exact List.mem_map_of_mem (by simp [hx])
  have := List.all_eq_true.mp own _ hmem
  rw [hd] at this
  cases this

end Ceiling

/-- The limit is reached. -/
theorem running_at_limit : Ceiling.played.2.world.store.runningIn "g" = 2 := by
  obtain ⟨xs, hevents, hr⟩ := Scene.changes_of_events Ceiling.played_run
  refine Nat.le_antisymm ?_ (by decide +kernel)
  exact running_within_limit (n := 2) (fun () => by decide +kernel) Ceiling.crew_keepsTo
    (by decide +kernel) hr fun _ => Ceiling.played_secluded hevents

end TaskFiring
