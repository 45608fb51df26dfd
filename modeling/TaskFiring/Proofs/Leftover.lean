import TaskFiring.Proofs.Loading
import TaskFiring.Proofs.Rehearsal
import TaskFiring.Proofs.Starting

/-!
What a dead run leaves behind. A firing that recovers a run that has died clears the node
and the running state from the record of its task, and whichever way it ends, nothing of
that kind is left, nor of its own. But it looks at the scheduling state before: a task
that is not ready keeps what it had.
-/

namespace TaskFiring

/-- The task is assigned to no node and does not run. -/
def Task.Idle (t : Task) : Prop := t.node = none ∧ t.execution ≠ .running

instance (t : Task) : Decidable t.Idle := inferInstanceAs (Decidable (_ ∧ _))

/-- A call of a handler that does nothing to the record of its task, except to put the
task into waiting. -/
def HandlerCall.MindsOwn (oid : TaskOid) (call : HandlerCall) : Prop :=
  call = .switchToWaiting ∨ call.Spares oid

/-- Of the calls of handlers, one that is allowed. -/
def Call.Admits (allowed : HandlerCall → Prop) : Call → Prop
  | .handler _ _ call => allowed call
  | _ => True

theorem Call.StartsNone.admits {allowed : HandlerCall → Prop} {r : Call} (h : r.StartsNone) :
    r.Admits allowed := by
  cases r with
  | handler => cases h
  | _ => trivial

namespace World

/-- The store is available and has a record of the task of that kind. -/
def Finds (w : World) (oid : TaskOid) (P : Task → Prop) : Prop := ∃ t, w.Has oid t ∧ P t

section

variable {w w' : World} {place : Place} {oid : TaskOid} {t : Task} {P : Task → Prop}

theorem Finds.spared (h : w.Finds oid P) (hw : w.Spares oid w') : w'.Finds oid P := by
  obtain ⟨t, ht, hp⟩ := h
  exact ⟨t, ht.spared hw, hp⟩

theorem Finds.of_store (h : w.Finds oid P) (hw : w'.store = w.store) : w'.Finds oid P := by
  obtain ⟨t, ht, hp⟩ := h
  exact ⟨t, ⟨by rw [hw]; exact ht.available, by rw [hw]; exact ht.record⟩, hp⟩

/-- Any write leaves a record of a kind that the update does not change. -/
theorem Finds.modify (h : w.Finds oid P) {oid' : TaskOid} {d : TaskDelta} {c : Precondition}
    (hd : ∀ t, P t → P (Store.written t d))
    (hm : w'.store = (w.store.modify oid' d c).2) : w'.Finds oid P := by
  rcases w.store.modify_cases oid' d c with ⟨e, he⟩ | ⟨r, s, hs, hr, -, hav, hf⟩
  · exact h.of_store (by rw [hm, he])
  · obtain ⟨t, ht, hp⟩ := h
    rw [hs] at hm
    have available : w'.store.available := by
      rw [hm, hav]
      exact ht.available
    by_cases ho : oid' = oid
    · subst ho
      obtain rfl : r = t := Option.some.inj (hr.symm.trans ht.record)
      exact ⟨_, ⟨available, by simp [hm, hf]⟩, hd r hp⟩
    · exact ⟨t, ⟨available, by simp [hm, hf, ho, ht.record]⟩, hp⟩

end

end World

namespace Leftover

open Program (Meets)
open Starting

/-- Letting go of a task leaves it idle. -/
theorem idle_settled (t : Task) : (Store.written t (Possession.settlingDelta t)).Idle := by
  refine ⟨rfl, ?_⟩
  simp only [Store.written, TaskDelta.apply, Possession.settlingDelta]
  cases t.scheduling <;> cases t.execution <;> decide

/-- So does the repair of a record. -/
theorem idle_repaired (t : Task) : (Store.written t Preparation.repairDelta).Idle := by
  refine ⟨rfl, ?_⟩
  change ExecutionState.runnable ≠ .running
  decide

/-- A write that starts no task leaves it idle. -/
theorem idle_written {t : Task} {oid : TaskOid} {d : TaskDelta} {c : Precondition}
    (hr : Call.StartsNone (.modify oid d c)) (ht : t.Idle) : (Store.written t d).Idle := by
  obtain ⟨hn, he⟩ := hr
  refine ⟨?_, ?_⟩
  · change d.node.getD t.node = none
    cases hd : d.node with
    | none => exact ht.1
    | some node =>
        cases node with
        | none => rfl
        | some n => exact absurd hd (hn n)
  · exact fun h => ht.2 (Store.running_of_written he h).2

section

variable {w w' : World} {place : Place} {oid : TaskOid} {r : Call} {a : r.Response}

theorem idle_of_startsNone (hw : w.Finds oid Task.Idle) (hr : r.StartsNone)
    (ha : w.Replies place r a w') : w'.Finds oid Task.Idle := by
  cases r with
  | modify oid' d c =>
      have hm : w'.store = (w.store.modify oid' d c).2 := by rw [(ha.answers id).modify.2]
      exact hw.modify (fun t => idle_written hr) hm
  | isInterrupted | handler => cases hr
  | _ => exact hw.of_store (ha.store id)

/-- No call takes a record away, as long as handlers do not. -/
theorem stored_of_admits (hw : w.Finds oid fun _ => True)
    (hr : r.Admits (HandlerCall.MindsOwn oid)) (ha : w.Replies place r a w') :
    w'.Finds oid fun _ => True := by
  cases r with
  | modify oid' d c =>
      have hm : w'.store = (w.store.modify oid' d c).2 := by rw [(ha.answers id).modify.2]
      exact hw.modify (fun _ => id) hm
  | handler h oid' call =>
      rcases hr with rfl | hr
      · rcases (ha.answers id).handler_cases with hag | ⟨b, -, -, hm⟩ | ⟨d, hd, -⟩
        · exact hw.of_store hag.store
        · exact hw.modify (fun _ => id) (d := World.waitingDelta) (by rw [hm])
        · cases hd
      · exact hw.spared ((ha.answers id).handler_spares hr)
  | _ => exact hw.of_store (ha.store id)

end

/-- A part of a firing, among others that leave the record of its task alone. -/
abbrev Runs {α : Type} (oid : TaskOid) (place : Place) (p : Action α) (w : World)
    (Q : World → α → Prop) : Prop :=
  p.Meets (.amid place (World.Spares oid) fun _ _ => True) w Q

section

variable {α : Type} {p : Action α} {w : World} {place : Place} {oid : TaskOid} {t : Task}

theorem idle_runs (hp : p.Only Call.StartsNone) (hw : w.Finds oid Task.Idle) :
    Runs oid place p w fun w' _ => w'.Finds oid Task.Idle :=
  hp.meets (fun _ _ _ _ => trivial) idle_of_startsNone (fun h => h.spared) hw

theorem stored_runs (hp : p.Only (Call.Admits (HandlerCall.MindsOwn oid)))
    (hw : w.Finds oid fun _ => True) :
    Runs oid place p w fun w' _ => w'.Finds oid fun _ => True :=
  hp.meets (fun _ _ _ _ => trivial) stored_of_admits (fun h => h.spared) hw

/-! Up to the repair. -/

/-- The record, of which the registry of the place knows nothing. -/
structure Abandoned (w : World) (place : Place) (oid : TaskOid) (t : Task) : Prop
    extends w.Has oid t where
  vacant : w.registered place oid = none

theorem Abandoned.spared {w' : World} (h : Abandoned w place oid t) (hw : w.Spares oid w') :
    Abandoned w' place oid t :=
  ⟨h.toHas.spared hw, (hw.registered place).trans h.vacant⟩

theorem abandoned_calm (place : Place) (oid : TaskOid) (t : Task) :
    World.Calm place (World.Spares oid) (fun _ _ => True) fun w => Abandoned w place oid t where
  made _ _ _ := trivial
  aside h hr ha := h.spared (ha.agrees hr).spares
  beside := Abandoned.spared

/-- A run that is not registered here is dead to a firing that recovers it. -/
theorem not_isLive (t : Task) (here : NodeId) : ¬ Preparation.isLive t here false true := by
  unfold Preparation.isLive
  split
  · exact Bool.false_ne_true
  · split <;> exact Bool.false_ne_true

theorem idle_of_isClean (h : Preparation.isClean t) : t.Idle := by
  obtain ⟨hn, he⟩ : t.node = none ∧ t.execution = .runnable := by
    simpa [Preparation.isClean] using h
  exact ⟨hn, by rw [he]; decide⟩

theorem repair_runs (here : NodeId) (hw : Abandoned w place oid t) :
    Runs oid place (Preparation.repair here t true).run w fun w' r =>
      w'.Finds oid Task.Idle ∧ ∃ t', r = .ok t' ∧ t'.oid = oid := by
  have ho := Store.oid_of_find? hw.record
  unfold Preparation.repair
  rw [ho]
  refine Meets.query ⟨trivial, fun found w₁ w₂ hr hw₂ => ?_⟩
  obtain ⟨rfl, rfl⟩ := (hr.answers id).registered
  have hw' := hw.toHas.spared hw₂
  by_cases hc : Preparation.isClean t
  · rw [if_pos (by simp [hc])]
    exact ⟨⟨t, hw', idle_of_isClean hc⟩, t, rfl, ho⟩
  · have dead := not_isLive t here
    rw [if_neg (by simpa [hw.vacant, hc] using dead)]
    refine Meets.query ⟨trivial, fun answer w₁ w₃ hr hw₃ => ?_⟩
    obtain ⟨rfl, hw⟩ := hw'.modify (by simp [Store.violation?]) hr
    exact ⟨⟨_, hw.spared hw₃, idle_repaired t⟩, _, rfl, ho⟩

/-! Past the repair. -/

/-- From the look at the scheduler to the end of preparation, the record stays idle. -/
theorem admission_runs (config : Config) {t' : Task} (constraints : Option Constraints)
    (result : OperationResult) (ho : t'.oid = oid) (hw : w.Finds oid Task.Idle) :
    Runs oid place (do
      Preparation.ensureSchedulerRunning t'
      Preparation.applyRecoveryPolicy t' true
      Admission.enforce config t' constraints
      let handle ← call (.newHandle oid)
      return { task := t', recovering := true, handle, result } : Step Firing).run w
      fun w' r => w'.Finds oid Task.Idle ∧
        ∀ g, r = .ok g → g.task.oid = oid := by
  have stopped (w : World) (e : Stop) (hw : w.Finds oid Task.Idle) :
      w.Finds oid Task.Idle ∧
        ∀ g, (.error e : Except Stop Firing) = .ok g → g.task.oid = oid :=
    ⟨hw, fun _ h => nomatch h⟩
  refine Meets.attempt Demand.amid_monotone
    (idle_runs (ensureSchedulerRunning_startsNone t') hw) (fun w₁ _ hw₁ => ?_) stopped
  refine Meets.attempt Demand.amid_monotone
    (idle_runs (applyRecoveryPolicy_startsNone t' true) hw₁) (fun w₂ _ hw₂ => ?_) stopped
  refine Meets.attempt Demand.amid_monotone
    (idle_runs (startsNone_of_aside (Course.enforce_aside _ _ _)) hw₂)
    (fun w₃ _ hw₃ => ?_) stopped
  refine Meets.query ⟨trivial, fun h w₄ w₅ hr hw₅ => ⟨?_, ?_⟩⟩
  · exact (hw₃.of_store (hr.store id)).spared hw₅
  · rintro g ⟨⟩
    exact ho

/-- The record is idle once the firing has got past the scheduling state. -/
theorem prepare_runs (node : Node) (hw : Abandoned w place oid t) :
    Runs oid place (Firing.prepare node oid true).run w fun w' r =>
      (¬ t.isReady ∧ w'.Has oid t ∧ ∃ e, r = .error e) ∨
        t.isReady ∧ w'.Finds oid Task.Idle ∧
          ∀ g, r = .ok g → g.task.oid = oid := by
  unfold Firing.prepare
  refine Meets.attempt Demand.amid_monotone
    (Loading.load_runs (abandoned_calm _ _ _) (fun _ h => h.toHas) hw) (fun w₁ snapshot h => ?_)
    fun w₁ e h => ?_
  · obtain ⟨hw₁, _, hs, rfl⟩ := h
    cases hs
    refine Meets.attempt Demand.amid_monotone
      (Loading.ensureReady_runs (abandoned_calm _ _ _) hw₁) (fun w₂ u h => ?_)
      fun w₂ e h => .inl ⟨fun hr => (nomatch h.2.mpr hr), h.1.toHas, e, rfl⟩
    obtain ⟨hw₂, hready⟩ := h
    have ready := hready.mp rfl
    refine Meets.attempt Demand.amid_monotone (repair_runs node.config.nodeId hw₂)
      (fun w₃ t' h => ?_) fun w₃ e h => ?_
    · obtain ⟨hw₃, _, ht, ho⟩ := h
      cases ht
      refine (admission_runs node.config snapshot.constraints _ ho hw₃).mono
        Demand.amid_monotone fun w₄ r h => .inr ⟨ready, h⟩
    · obtain ⟨-, t', h, -⟩ := h
      cases h
  · obtain ⟨-, snapshot, h, -⟩ := h
    cases h

/-! Once the task is taken, it is let go of. -/

/-- A firing that has not taken the task leaves it idle; else there is still its record. -/
def Settled (w : World) (oid : TaskOid) (g : Firing) : Prop :=
  w.Finds oid fun t => g.nodeSet = false → t.Idle

theorem Settled.idle {g : Firing} (h : Settled w oid g) (hg : g.nodeSet = false) :
    w.Finds oid Task.Idle := by
  obtain ⟨t, ht, hi⟩ := h
  exact ⟨t, ht, hi hg⟩

theorem settled_of_nodeSet {g : Firing} (hg : g.nodeSet = true)
    (hw : w.Finds oid fun _ => True) : Settled w oid g := by
  obtain ⟨t, ht, -⟩ := hw
  exact ⟨t, ht, fun h => by rw [hg] at h; cases h⟩

theorem start_runs {t' : Task} (node : NodeId) (ho : t'.oid = oid)
    (hw : w.Finds oid Task.Idle) :
    Runs oid place (Possession.start t' node).run w fun w' r =>
      (∀ e, r = .error e → w'.Finds oid Task.Idle) ∧
        ∀ u, r = .ok u → u.oid = oid ∧ w'.Finds oid fun _ => True := by
  unfold Possession.start
  rw [ho]
  refine Meets.query ⟨trivial, fun answer w₁ w₂ hr hw₂ => ?_⟩
  have hm := (hr.answers id).modify.2
  cases answer with
  | ok u =>
      obtain ⟨-, r, hf, -, rfl, -⟩ := Store.modify_ok hm
      refine ⟨fun _ h => (nomatch h), ?_⟩
      rintro _ ⟨⟩
      obtain ⟨t, ht, -⟩ := hw
      have stored : w.Finds oid fun _ => True := ⟨t, ht, trivial⟩
      exact ⟨(Store.oid_of_find? hf : r.oid = oid),
        (stored.modify (fun _ => id) (by rw [hm])).spared hw₂⟩
  | error e =>
      have hw := (hw.of_store (Store.eq_of_modify_error hm)).spared hw₂
      have stopped (w : World) (e : Stop) (hw : w.Finds oid Task.Idle) :
          (∀ e', (.error e : Except Stop Task) = .error e' → w.Finds oid Task.Idle) ∧
            ∀ u, (.error e : Except Stop Task) = .ok u →
              u.oid = oid ∧ w.Finds oid fun _ => True :=
        ⟨fun _ _ => hw, fun _ h => nomatch h⟩
      cases e with
      | conflict o expected actual =>
          refine Meets.lift Demand.amid_monotone
            (idle_runs (startsNone_of_aside (Course.lostRace_aside _ _)) hw) ?_
          exact fun w stop hw => stopped w stop hw
      | notFound _ | preconditionFailed _ _ | backend _ => exact stopped _ _ hw

/-- Neither the task nor whether it was taken changes while its handler runs. -/
theorem runStarted_given (node : Node) (g : Firing) :
    (Firing.runStarted node g).Meets Demand.free () fun _ r =>
      r.1.task = g.task ∧ r.1.nodeSet = g.nodeSet := by
  unfold Firing.runStarted
  refine Meets.bind Demand.free_monotone (Program.meets_free _) fun _ resolved _ => ?_
  obtain ⟨resolved, result⟩ := resolved
  cases resolved with
  | error stop => exact ⟨rfl, rfl⟩
  | ok handler =>
      refine Meets.bind Demand.free_monotone
        (Q := fun _ r => r.1.task = g.task ∧ r.1.nodeSet = g.nodeSet) ?_ fun _ r h => ?_
      · refine Meets.bind Demand.free_monotone (Program.meets_free _) fun _ _ _ => ?_
        refine Meets.bind Demand.free_monotone (Program.meets_free _) fun _ _ _ => ?_
        refine Meets.bind Demand.free_monotone (Program.meets_free _) fun _ _ _ => ?_
        refine Meets.bind Demand.free_monotone (Program.meets_free _) fun _ _ _ => ?_
        exact fun answer => ⟨rfl, rfl⟩
      · obtain ⟨g', ended⟩ := r
        refine Meets.bind Demand.free_monotone (Program.meets_free _) fun _ _ _ => ?_
        cases ended <;> exact h

theorem runRegistered_runs {g : Firing} (node : Node)
    (hk : node.KeepsTo (HandlerCall.MindsOwn oid)) (ho : g.task.oid = oid)
    (hw : w.Finds oid Task.Idle) :
    Runs oid place (Firing.runRegistered node g) w fun w' r =>
      Settled w' oid r.1 ∧ r.1.task.oid = oid := by
  unfold Firing.runRegistered
  refine Meets.bind Demand.amid_monotone (start_runs node.config.nodeId ho hw)
    fun w₁ started h => ?_
  cases started with
  | error stop =>
      obtain ⟨t, ht, hi⟩ := h.1 stop rfl
      exact ⟨⟨t, ht, fun _ => hi⟩, ho⟩
  | ok u =>
      obtain ⟨hu, hw₁⟩ := h.2 u rfl
      have admits := runStarted_only (fun _ => Call.StartsNone.admits) (fun _ => trivial)
        (fun _ _ _ => id) hk { g with task := u, nodeSet := true }
      have given := runStarted_given node { g with task := u, nodeSet := true }
      refine ((stored_runs admits hw₁).and (given.given fun _ _ => trivial)).mono
        Demand.amid_monotone fun w₂ r h => ?_
      obtain ⟨hw₂, ht, hn⟩ := h
      exact ⟨settled_of_nodeSet hn hw₂, by rw [ht, hu]⟩

theorem settle_runs (hw : w.Finds oid fun _ => True) :
    Runs oid place (Possession.settle oid) w fun w' _ => w'.Finds oid Task.Idle := by
  obtain ⟨t, ht, -⟩ := hw
  unfold Possession.settle Possession.settleWithin
  refine Meets.ask ⟨trivial, fun answer w₁ w₂ hr hw₂ => ?_⟩
  obtain ⟨rfl, rfl⟩ := ht.get hr
  refine Meets.ask ⟨trivial, fun answer w₃ w₄ hr hw₄ => ?_⟩
  obtain ⟨rfl, hw₃⟩ := (ht.spared hw₂).modify (by simp [Store.violation?]) hr
  exact ⟨_, hw₃.spared hw₄, idle_settled t⟩

theorem release_runs {g : Firing} (node : Node) (ho : g.task.oid = oid)
    (hw : Settled w oid g) :
    Runs oid place (Firing.release node g) w fun w' _ => w'.Finds oid Task.Idle := by
  unfold Firing.release
  cases hg : g.nodeSet with
  | false => exact hw.idle hg
  | true =>
      obtain ⟨t, ht, -⟩ := hw
      have stored : w.Finds oid fun _ => True := ⟨t, ht, trivial⟩
      have aside (p : Action Unit) (hp : p.Only Call.IsAside) {w : World}
          (hw : w.Finds oid fun _ => True) :
          Runs oid place p w fun w' _ => w'.Finds oid fun _ => True :=
        stored_runs (hp.mono fun _ h => h.startsNone.admits) hw
      refine Meets.bind Demand.amid_monotone
        (aside (call (.notifyFinished g.task.oid g.result.status)) ⟨trivial, fun _ => trivial⟩
          stored) fun w₁ _ hw₁ => ?_
      refine Meets.bind Demand.amid_monotone (aside _ (Course.spawnAll_aside _ _) hw₁)
        fun w₂ _ hw₂ => ?_
      rw [ho]
      exact settle_runs hw₂

theorem finish_runs {g : Firing} (node : Node) (ending : Firing.Ending)
    (ho : g.task.oid = oid) (hw : Settled w oid g) :
    Runs oid place (Firing.finish node g ending) w fun w' _ => w'.Finds oid Task.Idle := by
  refine Meets.bind Demand.amid_monotone (Q := fun w' _ => w'.Finds oid Task.Idle) ?_
    fun w₁ g' hw₁ => idle_runs ⟨trivial, fun _ => trivial⟩ hw₁
  refine Meets.ask ⟨trivial, fun _ w₁ w₂ hr hw₂ => ?_⟩
  have settled : Settled w₂ oid g := (hw.of_store (hr.store id)).spared hw₂
  refine Meets.bind Demand.amid_monotone (release_runs node ho settled) fun w₃ _ hw₃ => ?_
  refine Meets.bind Demand.amid_monotone (idle_runs (obeyStop_startsNone g) hw₃)
    fun w₄ _ hw₄ => ?_
  exact idle_runs (collectLate_startsNone g) hw₄

theorem runPrepared_runs {g : Firing} (node : Node)
    (hk : node.KeepsTo (HandlerCall.MindsOwn oid)) (ho : g.task.oid = oid)
    (hw : w.Finds oid Task.Idle) :
    Runs oid place (Firing.runPrepared node g) w fun w' _ => w'.Finds oid Task.Idle := by
  unfold Firing.runPrepared
  refine Meets.bind Demand.amid_monotone (idle_runs (guard_startsNone _ _) hw)
    fun w₁ guarded hw₁ => ?_
  cases guarded with
  | error stop => exact hw₁
  | ok _ =>
      refine Meets.bind Demand.amid_monotone
        (idle_runs (p := call (.register g.handle)) ⟨trivial, fun _ => trivial⟩ hw₁)
        fun w₂ registered hw₂ => ?_
      cases registered with
      | false => exact hw₂
      | true =>
          refine Meets.bind Demand.amid_monotone
            (idle_runs (p := call .isShutDown) ⟨trivial, fun _ => trivial⟩ hw₂)
            fun w₃ shutDown hw₃ => ?_
          have rest {w : World} (hw : w.Finds oid Task.Idle) :
              Runs oid place
                ((Firing.runRegistered node g).bind fun e => Firing.finish node e.1 e.2) w
                fun w' _ => w'.Finds oid Task.Idle :=
            Meets.bind Demand.amid_monotone (runRegistered_runs node hk ho hw)
              fun _ e h => finish_runs node e.2 h.2 h.1
          cases shutDown with
          | false => exact rest hw₃
          | true =>
              exact Meets.bind Demand.amid_monotone
                (idle_runs (startsNone_of_aside (Course.interrupt_aside _ _)) hw₃)
                fun _ _ hw₄ => rest hw₄

/-- A firing that recovers a dead run leaves the task idle if it was ready, and as it was
if it was not. -/
theorem fire_runs (node : Node) (hk : node.KeepsTo (HandlerCall.MindsOwn oid))
    (hw : Abandoned w place oid t) :
    Runs oid place (node.fire oid true) w fun w' _ =>
      t.isReady ∧ w'.Finds oid Task.Idle ∨ ¬ t.isReady ∧ w'.Has oid t := by
  unfold Node.fire
  refine Meets.bind Demand.amid_monotone (prepare_runs node hw) fun w₁ prepared h => ?_
  rcases h with ⟨hready, hw₁, e, rfl⟩ | ⟨hready, hw₁, hg⟩
  · exact .inr ⟨hready, hw₁⟩
  · cases prepared with
    | error stop => exact .inl ⟨hready, hw₁⟩
    | ok g =>
        refine (runPrepared_runs node hk (hg g rfl) hw₁).mono Demand.amid_monotone ?_
        exact fun w₂ _ hw₂ => .inl ⟨hready, hw₂⟩

end

end Leftover

/-- When a firing is over that recovers a run its node does not know of, while nobody else
touches the record of the task, the task is idle exactly if it was ready or idle before;
one that was not ready has been left as it was. -/
theorem idle_after_recovery {ι : Type} [DecidableEq ι] {crew : ι → Occasion}
    {outside : World → World → Prop} {w : World} {c : Scene ι} {es : List (Event ι)} {i : ι}
    {t : Task} {report : FiringOutcome} (hrec : (crew i).recovering = true)
    (hk : (crew i).node.KeepsTo (HandlerCall.MindsOwn (crew i).oid))
    (hw : w.Has (crew i).oid t) (hu : w.registered (crew i).place (crew i).oid = none)
    (hr : Run (Scene.StepBeside crew outside (World.Spares (crew i).oid) i)
      (.begin crew w) es c)
    (hd : c.program i = .done report) :
    ∃ t', c.world.Has (crew i).oid t' ∧ (t'.Idle ↔ t.isReady ∨ t.Idle) ∧
      (¬ t.isReady → t' = t) := by
  have secure : (Scene.begin crew w).Secure crew (World.Spares (crew i).oid)
      (fun _ _ => True) i fun w' _ =>
        t.isReady ∧ w'.Finds (crew i).oid Task.Idle ∨ ¬ t.isReady ∧ w'.Has (crew i).oid t := by
    intro w' hw'
    have abandoned : Leftover.Abandoned w (crew i).place (crew i).oid t := ⟨hw, hu⟩
    change Program.Meets _ ((crew i).node.fire (crew i).oid (crew i).recovering) w' _
    rw [hrec]
    exact Leftover.fire_runs (crew i).node hk (abandoned.spared hw')
  have reliance := World.reliance_spares (crew i).oid
  rcases (secure.run reliance (fun _ _ _ _ _ _ _ _ h => h) hr).done reliance.refl hd with
    ⟨hready, t', ht', hi⟩ | ⟨hready, left⟩
  · exact ⟨t', ht', by simp [hready, hi], fun h => absurd hready h⟩
  · exact ⟨t, left, by simp [hready], fun _ => rfl⟩

namespace Leftover

/-- The task as a dead run may have left it. -/
def remains (s : SchedulingState) : Task :=
  { Rehearsal.task with scheduling := s, execution := .running, node := some ⟨"dead"⟩ }

def world (s : SchedulingState) : World :=
  { now := default, store := { tasks := Table.empty.put (remains s) } }

abbrev crew (_ : Unit) : Occasion :=
  { Rehearsal.occasion "a" (.done (.ok .finished)) with recovering := true }

/-- The firing goes on to its report. -/
abbrev played (s : SchedulingState) : List (Event Unit) × Scene Unit :=
  Scene.play crew (List.replicate 30 (.go ())) (.begin crew (world s))

theorem played_run (s : SchedulingState) :
    Run (Scene.StepBeside crew (fun _ _ => False) (World.Spares Rehearsal.task.oid) ())
      (.begin crew (world s)) (played s).1 (played s).2 :=
  Scene.run_beside _ (Scene.play_run _ _ fun f hf => by simp at hf)

theorem crew_keepsTo : (crew ()).node.KeepsTo (HandlerCall.MindsOwn Rehearsal.task.oid) := by
  change (Rehearsal.occasion "a" _).node.KeepsTo _
  exact Rehearsal.occasion_keepsTo trivial

theorem played_done (s : SchedulingState) (hs : s = .ready ∨ s = .closed) :
    ∃ report, (played s).2.program () = .done report := by
  apply Scene.done_of_hasEnded
  rcases hs with rfl | rfl <;> decide +kernel

end Leftover

/-- A firing that recovers a dead run leaves a closed task assigned and running. -/
theorem not_idle_after_recovery :
    ∃ (crew : Unit → Occasion) (w : World) (c : Scene Unit) (es : List (Event Unit))
      (report : FiringOutcome) (t' : Task),
      (crew ()).recovering = true ∧
      (crew ()).node.KeepsTo (HandlerCall.MindsOwn (crew ()).oid) ∧
      (∃ t, w.Has (crew ()).oid t) ∧ (∀ place, w.registered place (crew ()).oid = none) ∧
      w.trigger.failing = false ∧
      Run (Scene.StepBeside crew (fun _ _ => False) (World.Spares (crew ()).oid) ())
        (.begin crew w) es c ∧
      c.program () = .done report ∧ c.world.Has (crew ()).oid t' ∧
      t'.node ≠ none ∧ t'.execution = .running := by
  obtain ⟨report, hd⟩ := Leftover.played_done .closed (.inr rfl)
  refine ⟨Leftover.crew, Leftover.world .closed, (Leftover.played .closed).2, _, report,
    Leftover.remains .closed, rfl, Leftover.crew_keepsTo, ⟨_, rfl, rfl⟩, fun _ => rfl, rfl,
    Leftover.played_run .closed, hd, ⟨?_, ?_⟩, nofun, rfl⟩
  · decide +kernel
  · decide +kernel

/-- One that was ready is idle. -/
theorem idle_after_recovery_ready :
    ∃ t', (Leftover.played .ready).2.world.Has Rehearsal.task.oid t' ∧ t'.Idle := by
  obtain ⟨report, hd⟩ := Leftover.played_done .ready (.inl rfl)
  obtain ⟨t', ht', hi, -⟩ := idle_after_recovery (i := ()) (by rfl)
    Leftover.crew_keepsTo (t := Leftover.remains .ready) ⟨by rfl, by rfl⟩ (by rfl)
    (Leftover.played_run .ready) hd
  exact ⟨t', ht', hi.mpr (.inl rfl)⟩

end TaskFiring
