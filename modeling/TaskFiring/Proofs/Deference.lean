import TaskFiring.Proofs.Loading
import TaskFiring.Proofs.Milestones
import TaskFiring.Proofs.Rehearsal

/-!
Firings of a task that runs elsewhere. While the record says on which node the task runs
and the firing that runs it is registered there, any further firing comes to its end
without running a handler. It neither takes the node from the record nor the running
state. All it may write is what the stop action asks for: where the scheduler does not
run, and where it was told to recover a run that has not died.
-/

namespace TaskFiring

theorem Call.IsPrompt.not_isHandlers {r : Call} (h : r.IsPrompt) : r.isHandlers = false := by
  cases r with
  | isInterrupted | handler => cases h
  | _ => rfl

/-- Of what it may come to, what withdraws the task. -/
def StopDirective.withdrawing? : StopDirective → Option StopDirective
  | .close => some .close
  | .suspend => some .suspend
  | _ => none

namespace Task

/-- What the stop action asks of a firing of the task that does not get to run it: of any
firing where the scheduler does not run, and elsewhere of one that recovers a run, if the
task is to be closed or suspended then. -/
def policy? (t : Task) (working recovering : Bool) : Option StopDirective :=
  if !t.isReady then none
  else if !working then t.halting.toOption
  else if !recovering then none
  else t.recovery.toOption.bind StopDirective.withdrawing?

/-- The task after what the stop action asked for was done. -/
def heeding (t : Task) (now : Instant) : Option StopDirective → Task
  | some .close => Store.written t (Administration.closingDelta t now)
  | some .suspend => Store.written t (Administration.suspendingDelta t)
  | some .resume | some .rescheduleNow => Store.written t { scheduling := some .ready }
  | some .awaitNaturalRefire | none => t

/-- None of that takes a running task from its node. -/
theorem runningOn?_heeding {t : Task} {n : NodeId} (h : t.runningOn? = some n)
    (now : Instant) (d : Option StopDirective) : (t.heeding now d).runningOn? = some n := by
  have running : t.execution = .running := by
    unfold runningOn? at h
    split at h
    · assumption
    · cases h
  rw [← h]
  unfold heeding
  split
  · simp [runningOn?, Store.written, TaskDelta.apply, Administration.closingDelta, running]
  · simp [runningOn?, Store.written, TaskDelta.apply, Administration.suspendingDelta, running]
  · rfl
  · rfl
  · rfl
  · rfl

/-- Where the scheduler runs, only a firing that recovers does anything of that. -/
theorem policy?_eq_none {t : Task} {working recovering : Bool}
    (h : ¬ t.isReady ∨ working ∧
      (recovering → t.recovery ≠ .ok .close ∧ t.recovery ≠ .ok .suspend)) :
    t.policy? working recovering = none := by
  unfold policy?
  rcases h with h | ⟨rfl, h⟩
  · rw [if_pos (by simpa using h)]
  · cases recovering with
    | false => simp
    | true =>
        obtain ⟨hc, hs⟩ := h rfl
        have none : t.recovery.toOption.bind StopDirective.withdrawing? = none := by
          cases hd : t.recovery with
          | error e => rfl
          | ok d =>
              cases d with
              | close => exact absurd hd hc
              | suspend => exact absurd hd hs
              | _ => rfl
        simp [none]

end Task

/-- A firing that makes prompt calls only, whatever the others do that it puts up with, runs no
handler, can go on to its end, and ends as it is to. -/
theorem Scene.Secure.prompt {ι : Type} [DecidableEq ι] {crew : ι → Occasion}
    {outside rely : World → World → Prop} {i : ι} {Q : World → FiringOutcome → Prop}
    {c c' : Scene ι} {es : List (Event ι)} (hrely : World.Reliance rely)
    (hc : c.Secure crew rely (fun _ r => r.IsPrompt) i Q)
    (hr : Run (Scene.StepBeside crew outside rely i) c es c') :
    (∀ (r : Call) (a : r.Response), .deed i (.answered r a) ∈ es → r.isHandlers = false) ∧
    (∃ es' c'' report, Run (Scene.StepBeside crew outside rely i) c' es' c'' ∧
      c''.program i = .done report) ∧
    ∀ report, c'.program i = .done report → Q c'.world report := by
  have steady : ∀ w : World, Call.Steady fun r => r.IsPrompt := fun _ _ _ _ _ _ _ _ h => h
  have secure := hc.run hrely steady hr
  refine ⟨fun r a he => ?_, ?_, fun report hd => secure.done hrely.refl hd⟩
  · obtain ⟨before, after, rfl⟩ := List.append_of_mem he
    obtain ⟨c₁, c₂, h₁, hstep, -⟩ := hr.around
    exact ((hc.run hrely steady h₁).called hrely.refl hstep.1).not_isHandlers
  · obtain ⟨es', c'', report, hr', hd⟩ := secure.ends hrely.refl fun _ _ => id
    exact ⟨es', c'', report, hr', hd⟩

namespace World

/-- Whatever else happened, it left the record of the task and its entries alone, and the
scheduler running or not as it was. -/
structure StandsBy (oid : TaskOid) (w w' : World) : Prop extends w.Spares oid w' where
  scheduler : w'.trigger.running = w.trigger.running

theorem reliance_standsBy (oid : TaskOid) : Reliance (StandsBy oid) where
  refl w := ⟨(Agrees.refl w).spares, rfl⟩
  trans h h' :=
    ⟨(reliance_spares oid).trans h.toSpares h'.toSpares, h'.scheduler.trans h.scheduler⟩
  onHandle w h _ hf := ⟨(agrees_onHandle w h hf).spares, rfl⟩

section

variable {w w' : World} {place : Place} {r : Call} {a : r.Response}

/-- A call that stays aside neither starts nor stops the scheduler. -/
theorem Answers.scheduler (ha : w.Answers place r a w') (hr : r.IsAside) :
    w'.trigger.running = w.trigger.running := by
  cases ha with
  | gathered _ | cut _ => rfl
  | performed hp =>
      cases r with
      | modify | register | deregister | shutDown | isInterrupted | handler => cases hr
      | collect => cases hp
      | unschedule | rescheduleLater | scheduleNow | deleteJob =>
          cases hp
          exact (Trigger.record_rest _ _).2.2.1
      | _ =>
          cases hp
          rfl

theorem Replies.standsBy (ha : w.Replies place r a w') (hr : r.IsAside) (oid : TaskOid) :
    w.StandsBy oid w' := by
  refine ⟨(ha.agrees hr).spares, ?_⟩
  cases ha with
  | answered ha => exact ha.scheduler hr
  | collected => rfl

end

end World

namespace Deference

open Program (Meets)

/-- A part of a firing that does not run a handler, among others that stand by. -/
abbrev Runs {α : Type} (oid : TaskOid) (place : Place) (p : Action α) (w : World)
    (Q : World → α → Prop) : Prop :=
  p.Meets (.amid place (World.StandsBy oid) fun _ r => r.IsPrompt) w Q

/-- The record, with an entry in the registry at home, and the scheduler. -/
structure Live (w : World) (home : Place) (oid : TaskOid) (t : Task) (working : Bool) : Prop
    extends w.Has oid t where
  registered : w.registered home oid ≠ none
  scheduler : w.trigger.running = working

section

variable {α : Type} {w w' : World} {place home : Place} {oid : TaskOid} {t : Task}
  {n : NodeId} {working recovering : Bool}

theorem Live.beside (h : Live w home oid t working) (hw : w.StandsBy oid w') :
    Live w' home oid t working :=
  ⟨h.toHas.spared hw.toSpares, by rw [hw.registered]; exact h.registered,
    hw.scheduler.trans h.scheduler⟩

theorem live_calm (place home : Place) (oid : TaskOid) (t : Task) (working : Bool) :
    World.Calm place (World.StandsBy oid) (fun _ r => r.IsPrompt) fun w =>
      Live w home oid t working where
  made _ _ hr := hr
  aside h hr ha := h.beside (ha.standsBy hr oid)
  beside := Live.beside

theorem has_calm (place : Place) (oid : TaskOid) (t : Task) :
    World.Calm place (World.StandsBy oid) (fun _ r => r.IsPrompt) fun w => w.Has oid t where
  made _ _ hr := hr
  aside h hr ha := h.spared (ha.standsBy hr oid).toSpares
  beside h hw := h.spared hw.toSpares

/-! What the stop action asks for. -/

/-- Writes the record and then makes a trigger call. -/
theorem write_runs {d : TaskDelta} {rest : Task → Attempt α} (hw : w.Has oid t)
    (hr : ∀ t, (rest t).run.Only fun r : Call => r.IsAside ∧ r.IsPrompt) :
    Runs oid place (orFail (call (.modify oid d .always)) Cause.store >>= rest).run w
      fun w' _ => w'.Has oid (Store.written t d) := by
  refine Meets.attempt Demand.amid_monotone (Q := fun w' _ => w'.Has oid (Store.written t d))
    ?_ ?_ fun _ _ => id
  · refine ⟨trivial, fun a w₁ w₂ ha hw₂ => ?_⟩
    exact (hw.modify (by rfl) ha).2.spared hw₂.toSpares
  · exact fun w' u hw' => (has_calm place oid _).meets (hr u) hw'

theorem read_runs (hw : w.Has oid t) :
    Runs oid place (orFail (call (.get oid)) Cause.store).run w fun w' r =>
      w'.Has oid t ∧ r = .ok t := by
  refine ⟨trivial, fun a w₁ w₂ ha hw₂ => ?_⟩
  obtain ⟨rfl, rfl⟩ := hw.get ha
  exact ⟨hw.spared hw₂.toSpares, rfl⟩

theorem close_runs (hw : w.Has oid t) :
    Runs oid place (Administration.close oid).run w fun w' _ =>
      ∃ now, w'.Has oid (Store.written t (Administration.closingDelta t now)) := by
  refine Meets.attempt Demand.amid_monotone (read_runs hw) ?_ ?_
  · rintro w₁ _ ⟨hw₁, ⟨⟩⟩
    refine Meets.query ⟨trivial, fun now w₂ w₃ ha hw₃ => ?_⟩
    have hw₂ := (has_calm place oid t).aside (r := .now) hw₁ trivial ha
    refine (write_runs (hw₂.spared hw₃.toSpares) fun u => ?_).mono Demand.amid_monotone
      fun w' _ hw' => ⟨now, hw'⟩
    exact Program.Only.attempt ⟨⟨trivial, trivial⟩, fun _ => trivial⟩ fun _ => trivial
  · rintro w₁ _ ⟨-, ⟨⟩⟩

theorem suspend_runs (hw : w.Has oid t) :
    Runs oid place (Administration.suspend oid).run w fun w' _ =>
      w'.Has oid (Store.written t (Administration.suspendingDelta t)) := by
  refine Meets.attempt Demand.amid_monotone (read_runs hw) ?_ ?_
  · rintro w₁ _ ⟨hw₁, ⟨⟩⟩
    refine write_runs hw₁ fun u => ?_
    exact Program.Only.attempt ⟨⟨trivial, trivial⟩, fun _ => trivial⟩ fun _ => trivial
  · rintro w₁ _ ⟨-, ⟨⟩⟩

theorem scheduleNow_runs (hw : w.Has oid t) :
    Runs oid place (Administration.scheduleNow oid).run w fun w' _ =>
      w'.Has oid (Store.written t { scheduling := some .ready }) :=
  write_runs hw fun _ => ⟨⟨trivial, trivial⟩, fun _ => trivial⟩

theorem bestEffort_runs {x : Attempt α} {Q : World → Prop}
    (hx : Runs oid place x.run w fun w' _ => Q w') :
    Runs oid place (Administration.bestEffort x) w fun w' _ => Q w' :=
  Meets.bind Demand.amid_monotone hx fun _ _ => id

/-- The stop action of a ready task is done, whatever it is. -/
theorem applyStopAction_runs (ready : t.isReady) (hw : w.Has oid t) :
    Runs oid place (Administration.applyStopAction oid) w fun w' _ =>
      ∃ now, w'.Has oid (t.heeding now t.halting.toOption) := by
  unfold Administration.applyStopAction
  refine Meets.ask ⟨trivial, fun a w₁ w₂ ha hw₂ => ?_⟩
  obtain ⟨rfl, rfl⟩ := hw.get ha
  have hw := hw.spared hw₂.toSpares
  have heeded {p : Action Unit} {d : StopDirective} (hd : t.halting = .ok d)
      (hp : Runs oid place p w₂ fun w' _ => ∃ now, w'.Has oid (t.heeding now (some d))) :
      Runs oid place p w₂ fun w' _ => ∃ now, w'.Has oid (t.heeding now t.halting.toOption) := by
    rw [hd]
    exact hp
  have rescheduled : Runs oid place
      (Administration.bestEffort (Administration.scheduleNow oid)) w₂ fun w' _ =>
        ∃ now, w'.Has oid (t.heeding now (some .rescheduleNow)) :=
    bestEffort_runs ((scheduleNow_runs hw).mono Demand.amid_monotone fun _ _ h => ⟨default, h⟩)
  simp only [ready, Bool.not_true, Bool.false_eq_true, if_false]
  split
  · next hd =>
    rw [show t.halting = .error _ from hd]
    exact ⟨default, hw⟩
  · next hd => exact heeded hd (bestEffort_runs (close_runs hw))
  · next hd =>
    refine heeded hd (bestEffort_runs ?_)
    exact (suspend_runs hw).mono Demand.amid_monotone fun _ _ h => ⟨default, h⟩
  · next hd => exact heeded hd rescheduled
  · next hd => exact heeded hd rescheduled
  · next hd => exact heeded hd ⟨default, hw⟩

/-! Up to the look for other runs. -/

/-- The firing has come to its end without running the task. -/
def Refused (w : World) (oid : TaskOid) (t : Task) (working recovering : Bool) : Prop :=
  ∃ now, w.Has oid (t.heeding now (t.policy? working recovering))

/-- A part of the firing goes on and leaves the task live, or refuses it. -/
abbrev Passed (home : Place) (oid : TaskOid) (t : Task) (working recovering : Bool)
    (Q : α → Prop) (w : World) (r : Except Stop α) : Prop :=
  (∃ a, r = .ok a ∧ Q a ∧ Live w home oid t working) ∨
    (∃ e, r = .error e) ∧ Refused w oid t working recovering

/-- Parts of the firing one after the other. -/
theorem attempt_runs {β : Type} {x : Step α} {k : α → Step β} {Q : α → Prop} {R : β → Prop}
    (hx : Runs oid place x.run w (Passed home oid t working recovering Q))
    (hk : ∀ a w, Q a → Live w home oid t working →
      Runs oid place (k a).run w (Passed home oid t working recovering R)) :
    Runs oid place (x >>= k).run w (Passed home oid t working recovering R) := by
  refine Meets.attempt Demand.amid_monotone hx ?_ ?_
  · rintro w₁ a (⟨_, ⟨⟩, ha, hw₁⟩ | ⟨⟨e, ⟨⟩⟩, -⟩)
    exact hk a w₁ ha hw₁
  · rintro w₁ e (⟨_, ⟨⟩, -⟩ | ⟨-, hw₁⟩)
    exact .inr ⟨⟨e, rfl⟩, hw₁⟩

theorem refused_of_none (h : t.policy? working recovering = none)
    (hw : w.Has oid t) : Refused w oid t working recovering :=
  ⟨default, by rw [h]; exact hw⟩

theorem load_runs (hw : Live w home oid t working) :
    Runs oid place (Preparation.load oid).run w
      (Passed home oid t working recovering fun snapshot => snapshot.task = t) := by
  refine (Loading.load_runs (live_calm place home oid t working) (fun _ h => h.toHas) hw).mono
    Demand.amid_monotone ?_
  rintro w' _ ⟨hw', snapshot, rfl, hs⟩
  exact .inl ⟨snapshot, rfl, hs, hw'⟩

theorem ensureReady_runs (hw : Live w home oid t working) :
    Runs oid place (Preparation.ensureReady t).run w
      (Passed home oid t working recovering fun _ => t.isReady) := by
  refine (Loading.ensureReady_runs (live_calm place home oid t working) hw).mono
    Demand.amid_monotone ?_
  rintro w' r ⟨hw', hready⟩
  cases r with
  | ok u => exact .inl ⟨u, rfl, hready.mp rfl, hw'⟩
  | error e =>
      refine .inr ⟨⟨e, rfl⟩, refused_of_none (Task.policy?_eq_none (.inl fun h => ?_)) hw'.toHas⟩
      cases hready.mpr h

/-- The run is not taken for dead: it is registered here, or the firing does not recover. -/
theorem repair_runs {here : NodeId} (hn : t.runningOn? = some n)
    (hhere : here = n → place = home) (helse : here ≠ n → recovering = false)
    (hw : Live w home oid t working) :
    Runs oid place (Preparation.repair here t recovering).run w
      (Passed home oid t working recovering fun u => u = t) := by
  unfold Preparation.repair
  rw [Store.oid_of_find? hw.record]
  refine Meets.query ⟨trivial, fun found w₁ w₂ ha hw₂ => ?_⟩
  obtain ⟨rfl, rfl⟩ := (ha.answers id).registered
  have live : Preparation.isLive t here (w₁.registered place oid).isSome recovering := by
    unfold Preparation.isLive
    rw [hn]
    by_cases h : here = n
    · rw [hhere h]
      simpa [h, Option.isSome_iff_ne_none] using hw.registered
    · simp [Ne.symm h, helse h]
  rw [if_pos (by simp [live])]
  exact .inl ⟨t, rfl, rfl, hw.beside hw₂⟩

theorem ensureSchedulerRunning_runs (ready : t.isReady) (hw : Live w home oid t working) :
    Runs oid place (Preparation.ensureSchedulerRunning t).run w
      (Passed home oid t working recovering fun _ => working) := by
  unfold Preparation.ensureSchedulerRunning
  rw [Store.oid_of_find? hw.record]
  refine Meets.query ⟨trivial, fun running w₁ w₂ ha hw₂ => ?_⟩
  obtain ⟨rfl, rfl⟩ : w₁ = w ∧ running = working := by
    cases ha.answers id with
    | performed hp =>
        cases hp
        exact ⟨rfl, hw.scheduler⟩
  have hw := hw.beside hw₂
  cases running with
  | true => exact .inl ⟨(), rfl, rfl, hw⟩
  | false =>
      refine Meets.lift Demand.amid_monotone (applyStopAction_runs ready hw.toHas) ?_
      rintro w₃ ⟨⟩ ⟨now, hw₃⟩
      refine .inr ⟨⟨_, rfl⟩, now, ?_⟩
      have policy : t.policy? false recovering = t.halting.toOption := by
        simp [Task.policy?, ready]
      rw [policy]
      exact hw₃

theorem applyRecoveryPolicy_runs (ready : t.isReady) (hw : Live w home oid t true) :
    Runs oid place (Preparation.applyRecoveryPolicy t recovering).run w
      (Passed home oid t true recovering fun _ => t.policy? true recovering = none) := by
  unfold Preparation.applyRecoveryPolicy
  rw [Store.oid_of_find? hw.record]
  cases recovering with
  | false => exact .inl ⟨(), rfl, Task.policy?_eq_none (.inr ⟨rfl, nofun⟩), hw⟩
  | true =>
      have policy {d : Except UnknownStopAction StopDirective} (hd : t.recovery = d) :
          t.policy? true true = d.toOption.bind StopDirective.withdrawing? := by
        simp [Task.policy?, ready, hd]
      simp only [Bool.not_true, Bool.false_eq_true, if_false]
      split
      · next hd => exact .inr ⟨⟨_, rfl⟩, refused_of_none (policy hd) hw.toHas⟩
      · next hd =>
        refine Meets.lift Demand.amid_monotone (bestEffort_runs (close_runs hw.toHas)) ?_
        rintro w₁ ⟨⟩ ⟨now, hw₁⟩
        exact .inr ⟨⟨_, rfl⟩, now, by rw [policy hd]; exact hw₁⟩
      · next hd =>
        refine Meets.lift Demand.amid_monotone (bestEffort_runs (suspend_runs hw.toHas)) ?_
        rintro w₁ ⟨⟩ hw₁
        exact .inr ⟨⟨_, rfl⟩, default, by rw [policy hd]; exact hw₁⟩
      · next hd => exact .inr ⟨⟨_, rfl⟩, refused_of_none (policy hd) hw.toHas⟩
      · next hd => exact .inl ⟨(), rfl, policy hd, hw⟩
      · next hd => exact .inl ⟨(), rfl, policy hd, hw⟩

theorem enforce_runs (config : Config) (constraints : Option Constraints)
    (hp : t.policy? working recovering = none) (hw : Live w home oid t working) :
    Runs oid place (Admission.enforce config t constraints).run w
      (Passed home oid t working recovering fun _ => True) := by
  refine ((live_calm place home oid t working).inquire (Course.enforce_inquires _ _ _) hw).mono
    Demand.amid_monotone fun w' r hw' => ?_
  cases r with
  | ok u => exact .inl ⟨u, rfl, trivial, hw'⟩
  | error e => exact .inr ⟨⟨e, rfl⟩, refused_of_none hp hw'.toHas⟩

theorem prepare_runs (node : Node) (hn : t.runningOn? = some n)
    (hhere : node.config.nodeId = n → place = home)
    (helse : node.config.nodeId ≠ n → recovering = false)
    (hw : Live w home oid t working) :
    Runs oid place (Firing.prepare node oid recovering).run w
      (Passed home oid t working recovering fun g =>
        g.task = t ∧ t.policy? working recovering = none) := by
  unfold Firing.prepare
  refine attempt_runs (load_runs hw) fun snapshot w₁ hs hw₁ => ?_
  rw [hs]
  refine attempt_runs (ensureReady_runs hw₁) fun _ w₂ ready hw₂ => ?_
  refine attempt_runs (repair_runs hn hhere helse hw₂) ?_
  rintro _ w₃ rfl hw₃
  refine attempt_runs (ensureSchedulerRunning_runs ready hw₃) ?_
  rintro _ w₄ rfl hw₄
  refine attempt_runs (applyRecoveryPolicy_runs ready hw₄) fun _ w₅ hp hw₅ => ?_
  refine attempt_runs (enforce_runs _ _ hp hw₅) fun _ w₆ _ hw₆ => ?_
  refine Meets.query ⟨trivial, fun h w₇ w₈ ha hw₈ => ?_⟩
  have hw₇ := (live_calm place home oid _ true).aside (r := .newHandle oid) hw₆ trivial ha
  exact .inl ⟨_, rfl, ⟨rfl, hp⟩, hw₇.beside hw₈⟩

/-- A firing that has got as far as to look sees the node. -/
theorem guard_runs (hn : t.runningOn? = some n) (hw : w.Has oid t) :
    Runs oid place (Possession.guard true t).run w fun w' r =>
      w'.Has oid t ∧ ∃ e, r = .error e := by
  unfold Possession.guard
  rw [Store.oid_of_find? hw.record]
  refine Meets.query ⟨trivial, fun answer w₁ w₂ ha hw₂ => ?_⟩
  obtain ⟨rfl, rfl⟩ := hw.get ha
  simp only [hn]
  exact ⟨hw.spared hw₂.toSpares, _, rfl⟩

theorem fire_runs (node : Node) (hg : node.config.checkConcurrent)
    (hn : t.runningOn? = some n) (hhere : node.config.nodeId = n → place = home)
    (helse : node.config.nodeId ≠ n → recovering = false)
    (hw : Live w home oid t working) :
    Runs oid place (node.fire oid recovering) w fun w' _ =>
      Refused w' oid t working recovering := by
  unfold Node.fire
  refine Meets.bind Demand.amid_monotone (prepare_runs node hn hhere helse hw) ?_
  rintro w₁ _ (⟨g, rfl, ⟨hgt, hp⟩, hw₁⟩ | ⟨⟨e, rfl⟩, hw₁⟩)
  · change Runs oid place (Firing.runPrepared node g) w₁ _
    unfold Firing.runPrepared
    rw [hg, hgt]
    refine Meets.bind Demand.amid_monotone (guard_runs hn hw₁.toHas) ?_
    rintro w₂ _ ⟨hw₂, e, rfl⟩
    exact refused_of_none hp hw₂
  · exact hw₁

end

end Deference

/-- While a task runs on a node at whose place its firing is registered, any further firing
that looks for other runs, on that node or as a fresh one elsewhere, runs no handler and can
come to its end. By then it has left the task running where it runs. It has done what the
stop action asks for, if it has found the task ready and the scheduler stopped, or was told
to recover the run; otherwise the record is the same. -/
theorem live_task_stays {ι : Type} [DecidableEq ι] {crew : ι → Occasion}
    {outside : World → World → Prop} {w : World} {c : Scene ι} {es : List (Event ι)} {i : ι}
    {t : Task} {n : NodeId} {home : Place}
    (hg : (crew i).node.config.checkConcurrent)
    (hw : w.Has (crew i).oid t) (hn : t.runningOn? = some n)
    (hreg : w.registered home (crew i).oid ≠ none)
    (hhere : (crew i).nodeId = n → (crew i).place = home)
    (helse : (crew i).nodeId ≠ n → (crew i).recovering = false)
    (hr : Run (Scene.StepBeside crew outside (World.StandsBy (crew i).oid) i)
      (.begin crew w) es c) :
    (∀ (r : Call) (a : r.Response), .deed i (.answered r a) ∈ es → r.isHandlers = false) ∧
    (∃ es' c' report, Run (Scene.StepBeside crew outside (World.StandsBy (crew i).oid) i)
      c es' c' ∧ c'.program i = .done report) ∧
    ∀ report, c.program i = .done report → ∃ t' now, c.world.Has (crew i).oid t' ∧
      t' = t.heeding now (t.policy? w.trigger.running (crew i).recovering) ∧
      t'.runningOn? = some n ∧
      (¬ t.isReady ∨ w.trigger.running ∧ ((crew i).recovering →
        t.recovery ≠ .ok .close ∧ t.recovery ≠ .ok .suspend) → t' = t) := by
  have secure : (Scene.begin crew w).Secure crew (World.StandsBy (crew i).oid)
      (fun _ r => r.IsPrompt) i fun w' _ =>
        Deference.Refused w' (crew i).oid t w.trigger.running (crew i).recovering := by
    intro w' hw'
    have live : Deference.Live w home (crew i).oid t w.trigger.running := ⟨hw, hreg, rfl⟩
    exact Deference.fire_runs (crew i).node hg hn hhere helse (live.beside hw')
  obtain ⟨handlers, ends, ending⟩ := secure.prompt (World.reliance_standsBy (crew i).oid) hr
  refine ⟨handlers, ends, fun report hd => ?_⟩
  obtain ⟨now, hc⟩ := ending report hd
  refine ⟨_, now, hc, rfl, Task.runningOn?_heeding hn _ _, fun h => ?_⟩
  rw [Task.policy?_eq_none h]
  rfl

namespace Deference

/-- The task runs on a node, and is to be closed when its thread is stopped. -/
def task : Task :=
  { Rehearsal.task with execution := .running, node := some ⟨"a"⟩, stopAction := some .close }

def world (working : Bool) : World where
  now := default
  store := { tasks := Table.empty.put task }
  trigger := { running := working }
  handles := [{ oid := task.oid }]
  sites := Table.empty.put (.node "a", { running := Table.empty.put (task.oid, ⟨0⟩) })

abbrev crew (name : String) (recovering : Bool) (_ : Unit) : Occasion :=
  { Rehearsal.occasion name (.done (.ok .finished)) with recovering }

/-- The firing goes on to its report. -/
abbrev played (name : String) (recovering working : Bool) : List (Event Unit) × Scene Unit :=
  Scene.play (crew name recovering) (List.replicate 12 (.go ()))
    (.begin (crew name recovering) (world working))

theorem played_run (name : String) (recovering working : Bool) :
    Run (Scene.StepBeside (crew name recovering) (fun _ _ => False)
      (World.StandsBy Rehearsal.task.oid) ()) (.begin (crew name recovering) (world working))
      (played name recovering working).1 (played name recovering working).2 :=
  Scene.run_beside _ (Scene.play_run _ _ fun f hf => by simp at hf)

/-- Where the scheduler runs, or where it does not, a firing of a task that runs elsewhere
has written its record. -/
def Overwrites (working : Bool) : Prop :=
  ∃ (crew : Unit → Occasion) (w : World) (c : Scene Unit) (es : List (Event Unit))
    (report : FiringOutcome) (t t' : Task) (n : NodeId) (home : Place),
    w.trigger.running = working ∧ (crew ()).node.config.checkConcurrent ∧
    w.Has (crew ()).oid t ∧ t.runningOn? = some n ∧
    w.registered home (crew ()).oid ≠ none ∧
    ((crew ()).nodeId = n → (crew ()).place = home) ∧
    ((crew ()).nodeId ≠ n → (crew ()).recovering = false) ∧
    Run (Scene.StepBeside crew (fun _ _ => False) (World.StandsBy (crew ()).oid) ())
      (.begin crew w) es c ∧
    c.program () = .done report ∧ c.world.Has (crew ()).oid t' ∧ t' ≠ t

theorem overwrites_of_played (name : String) (recovering working : Bool)
    (hplace : name = "a" ∨ recovering = false)
    (hdone : (played name recovering working).2.hasEnded ())
    (havailable : (played name recovering working).2.world.store.available)
    (hrecord : ((played name recovering working).2.world.store.find? task.oid).any (· ≠ task)) :
    Overwrites working := by
  obtain ⟨t', ht', hne⟩ := Option.any_eq_true _ _ |>.mp hrecord
  obtain ⟨report, hd⟩ := Scene.done_of_hasEnded hdone
  refine ⟨crew name recovering, world working, _, _, report, task, t', ⟨"a"⟩, .node "a", rfl,
    rfl, ⟨rfl, rfl⟩, rfl, ?_, ?_, ?_, played_run name recovering working, hd,
    ⟨havailable, ht'⟩, by simpa using hne⟩
  · nofun
  · intro h
    exact congrArg Place.node (congrArg NodeId.name h)
  · intro h
    exact hplace.resolve_left fun hn => h (congrArg NodeId.mk hn)

end Deference

/-- A firing that was told to recover a run that goes on has closed the task, and so has one
elsewhere while the scheduler was stopped. -/
theorem live_task_overwritten : Deference.Overwrites true ∧ Deference.Overwrites false := by
  refine ⟨Deference.overwrites_of_played "a" true true (.inl rfl) ?_ ?_ ?_,
    Deference.overwrites_of_played "b" false false (.inr rfl) ?_ ?_ ?_⟩
  all_goals decide +kernel

/-- One elsewhere, while the scheduler runs, leaves it alone. -/
theorem live_task_stays_elsewhere :
    (Deference.played "b" false true).2.world.Has Deference.task.oid Deference.task := by
  obtain ⟨report, hd⟩ : ∃ report, (Deference.played "b" false true).2.program () = .done report :=
    Scene.done_of_hasEnded (by decide +kernel)
  have registered : (Deference.world true).registered (.node "a") Deference.task.oid ≠ none :=
    nofun
  obtain ⟨-, -, ending⟩ := live_task_stays (i := ()) (t := Deference.task) (n := ⟨"a"⟩)
    (by rfl) ⟨by rfl, by rfl⟩ (by rfl) registered (fun h => absurd h (by decide))
    (fun _ => rfl) (Deference.played_run "b" false true)
  obtain ⟨t', -, ht', -, -, same⟩ := ending report hd
  rw [same (.inr ⟨rfl, nofun⟩)] at ht'
  exact ht'

end TaskFiring
