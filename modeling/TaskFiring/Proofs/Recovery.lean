import TaskFiring.Proofs.Deference
import TaskFiring.Proofs.Resumption

/-!
What becomes of a firing that recovers a dead run. It first repairs the record, then goes by
the stop action: that ends it, or it goes on to run the task. From then on it does what a fresh
firing does that finds the record as the repair has left it.
-/

namespace TaskFiring

/-- How a stop action ends a firing: with a report, a state of the task and what the trigger
engine is told. -/
structure Verdict where
  report : FiringOutcome
  scheduling : SchedulingState
  execution : ExecutionState
  told : List TriggerEvent

/-- Which stop actions end a firing that recovers a dead run. -/
def Task.verdict? (t : Task) : Option Verdict :=
  match t.stopAction with
  | some .close => some
      { report := .ok (.halted .info
          s!"closed recovered task {t.display} (thread stop action CLOSE)")
        scheduling := .closed
        execution := .closed
        told := [.jobDeleted t.oid] }
  | some .suspend => some
      { report := .ok (.halted .info
          s!"suspended recovered task {t.display} (thread stop action SUSPEND)")
        scheduling := .suspended
        execution := .suspended
        told := [.unscheduled t.oid] }
  | some .reschedule =>
      if t.isLooselyRecurring then some
        { report := .ok (.halted .info
            (s!"recovered task {t.display} will be re-fired by its trigger "
              ++ "(thread stop action RESCHEDULE)"))
          scheduling := .ready
          execution := .runnable
          told := [] }
      else none
  | some (.unrecognized raw) => some
      { report := .error (.stopped .unexpectedError
          s!"can't apply thread stop action of recovering task {t.display}" (.policy ⟨raw⟩))
        scheduling := .ready
        execution := .runnable
        told := [] }
  | some .restart | none => none

/-- The task is left in that state on no node, and that is all that was told. -/
def Verdict.Left (x : Verdict) (oid : TaskOid) (events : List TriggerEvent) (w : World) : Prop :=
  (∃ r, w.store.find? oid = some r ∧ r.scheduling = x.scheduling ∧ r.execution = x.execution ∧
    r.node = none) ∧ w.trigger.events = events ++ x.told

namespace Recovery

open Program (Meets)

theorem mended_verdict? (t : Task) : (mended t).verdict? = t.verdict? := by
  unfold mended
  split <;> rfl

/-! The stop action, where it ends the firing. -/

/-- The record, in a world where the trigger engine works and the scheduler runs, and what
the engine has been told. -/
structure Stands (w : World) (oid : TaskOid) (t : Task) (events : List TriggerEvent) : Prop
    extends w.Has oid t where
  working : w.trigger.failing = false
  scheduler : w.trigger.running
  events : w.trigger.events = events

/-- A part of a firing that runs no handler, while all stays intact. -/
abbrev Runs {α : Type} (place : Place) (p : Action α) (w : World) (Q : World → α → Prop) :
    Prop :=
  p.Meets (.amid place World.Intact fun _ r => r.IsPrompt) w Q

section

variable {α β ε : Type} {w w' : World} {place : Place} {oid : TaskOid} {t : Task}
  {events : List TriggerEvent}

theorem Stands.intact (h : Stands w oid t events) (hw : w.Intact w') :
    Stands w' oid t events where
  toHas := h.toHas.of_store hw.store
  working := hw.trigger ▸ h.working
  scheduler := hw.trigger ▸ h.scheduler
  events := hw.trigger ▸ h.events

/-- A part that does not fail, and then the rest. -/
theorem then_runs {x : ExceptT ε (Program Calls) α} {f : α → ExceptT ε (Program Calls) β} {a : α}
    {P : World → Prop} {Q : World → Except ε β → Prop}
    (hx : Runs place x.run w fun w' r => r = .ok a ∧ P w')
    (hf : ∀ w', P w' → Runs place (f a).run w' Q) : Runs place (x >>= f).run w Q := by
  refine Meets.attempt Demand.amid_monotone hx ?_ ?_
  · rintro w' _ ⟨⟨⟩, hw'⟩
    exact hf w' hw'
  · rintro w' e ⟨h, -⟩
    cases h

theorem get_runs (hw : Stands w oid t events) :
    Runs place (orFail (call (.get oid)) Cause.store).run w fun w' r =>
      r = .ok t ∧ Stands w' oid t events := by
  refine ⟨trivial, fun a w₁ w₂ ha hw₂ => ?_⟩
  obtain ⟨rfl, rfl⟩ := hw.toHas.get ha
  exact ⟨rfl, hw.intact hw₂⟩

theorem modify_runs (hw : Stands w oid t events) (d : TaskDelta) :
    Runs place (orFail (call (.modify oid d .always)) Cause.store).run w fun w' r =>
      r = .ok (Store.written t d) ∧ Stands w' oid (Store.written t d) events := by
  refine ⟨trivial, fun a w₁ w₂ ha hw₂ => ?_⟩
  have trigger : w₁.trigger = w.trigger := by
    cases ha.answers id with
    | performed hp =>
        cases hp
        rfl
  obtain ⟨rfl, has⟩ := hw.toHas.modify (by rfl) ha
  have stands : Stands w₁ oid (Store.written t d) events :=
    ⟨has, trigger ▸ hw.working, trigger ▸ hw.scheduler, trigger ▸ hw.events⟩
  exact ⟨rfl, stands.intact hw₂⟩

/-- What the trigger engine is told, it notes, as it works. -/
theorem Stands.notes (hw : Stands w oid t events) {g : Trigger} (e : TriggerEvent)
    (hg : g.failing = w.trigger.failing ∧ g.running = w.trigger.running ∧
      g.events = w.trigger.events) :
    (g.record e).1 = .ok () ∧
      Stands { w with trigger := (g.record e).2 } oid t (events ++ [e]) := by
  obtain ⟨failing, running, told⟩ := hg
  have noted : g.record e = (.ok (), { g with events := g.events ++ [e] }) :=
    if_neg (by simp [failing, hw.working])
  rw [noted]
  exact ⟨rfl, ⟨hw.available, hw.record⟩, failing.trans hw.working, running.trans hw.scheduler,
    congrArg (· ++ [e]) (told.trans hw.events)⟩

theorem deleteJob_runs (hw : Stands w oid t events) :
    Runs place (orFail (call (.deleteJob oid)) Cause.trigger).run w fun w' r =>
      r = .ok () ∧ Stands w' oid t (events ++ [.jobDeleted oid]) := by
  refine ⟨trivial, fun a w₁ w₂ ha hw₂ => ?_⟩
  obtain ⟨ok, stands⟩ := hw.notes (g := w.trigger.forget oid) (.jobDeleted oid) ⟨rfl, rfl, rfl⟩
  cases ha.answers id with
  | performed hp =>
      cases hp
      rw [show (w.trigger.deleteJob oid).1 = .ok () from ok]
      exact ⟨rfl, stands.intact hw₂⟩

theorem unschedule_runs (hw : Stands w oid t events) :
    Runs place (orFail (call (.unschedule oid)) Cause.trigger).run w fun w' r =>
      r = .ok () ∧ Stands w' oid t (events ++ [.unscheduled oid]) := by
  refine ⟨trivial, fun a w₁ w₂ ha hw₂ => ?_⟩
  obtain ⟨ok, stands⟩ := hw.notes (g := w.trigger) (.unscheduled oid) ⟨rfl, rfl, rfl⟩
  cases ha.answers id with
  | performed hp =>
      cases hp
      rw [show (w.trigger.record (.unscheduled oid)).1 = .ok () from ok]
      exact ⟨rfl, stands.intact hw₂⟩

theorem close_runs (hw : Stands w oid t events) :
    Runs place (Administration.bestEffort (Administration.close oid)) w fun w' _ => ∃ now,
      Stands w' oid (Store.written t (Administration.closingDelta t now))
        (events ++ [.jobDeleted oid]) := by
  refine Meets.bind Demand.amid_monotone (Q := fun w' _ => ∃ now,
    Stands w' oid (Store.written t (Administration.closingDelta t now))
      (events ++ [.jobDeleted oid])) ?_ fun _ _ => id
  refine then_runs (get_runs hw) fun w₁ hw₁ => ?_
  refine Meets.query ⟨trivial, fun now w₂ w₃ ha hw₃ => ?_⟩
  have same : w₁.Intact w₂ := by
    cases ha.answers id with
    | performed hp =>
        cases hp
        exact .refl _
  refine then_runs (modify_runs (hw₁.intact (same.trans hw₃)) _) fun w₄ hw₄ => ?_
  exact then_runs (deleteJob_runs hw₄) fun w₅ hw₅ => ⟨now, hw₅⟩

theorem suspend_runs (hw : Stands w oid t events) :
    Runs place (Administration.bestEffort (Administration.suspend oid)) w fun w' _ =>
      Stands w' oid (Store.written t (Administration.suspendingDelta t))
        (events ++ [.unscheduled oid]) := by
  refine Meets.bind Demand.amid_monotone (Q := fun w' _ =>
    Stands w' oid (Store.written t (Administration.suspendingDelta t))
      (events ++ [.unscheduled oid])) ?_ fun _ _ => id
  refine then_runs (get_runs hw) fun w₁ hw₁ => ?_
  refine then_runs (modify_runs hw₁ _) fun w₂ hw₂ => ?_
  exact then_runs (unschedule_runs hw₂) fun w₃ hw₃ => hw₃

theorem schedulerRunning_runs (hw : Stands w oid t events) :
    Runs place (Preparation.ensureSchedulerRunning t).run w fun w' r =>
      r = .ok () ∧ Stands w' oid t events := by
  unfold Preparation.ensureSchedulerRunning
  refine Meets.query ⟨trivial, fun working w₁ w₂ ha hw₂ => ?_⟩
  cases ha.answers id with
  | performed hp =>
      cases hp
      rw [hw.scheduler]
      exact ⟨rfl, hw.intact hw₂⟩

/-- The stop action of a task without remains of a run ends the firing as the verdict says. -/
theorem policy_runs {x : Verdict} (hx : t.verdict? = some x) (hr : t.isReady)
    (hn : t.node = none) (he : t.execution = .runnable) (hw : Stands w oid t events) :
    Runs place (Preparation.applyRecoveryPolicy t true).run w fun w' r =>
      x.Left oid events w' ∧ ∃ stop, r = .error stop ∧ stop.outcome = x.report := by
  have ho : t.oid = oid := Store.oid_of_find? hw.record
  have ready : t.scheduling = .ready := by simpa [Task.isReady] using hr
  have left {w : World} (hw : Stands w oid t events) :
      (∃ r, w.store.find? oid = some r ∧ r.scheduling = .ready ∧ r.execution = .runnable ∧
        r.node = none) ∧ w.trigger.events = events ++ [] :=
    ⟨⟨t, hw.record, ready, he, hn⟩, by simpa using hw.events⟩
  -- one case for each row of the table
  unfold Preparation.applyRecoveryPolicy StopDirective.resolve
  unfold Task.verdict? at hx
  cases ha : t.stopAction with
  | none => simp [ha] at hx
  | some action =>
      rw [ha] at hx
      cases action with
      | restart => cases hx
      | close =>
          cases hx
          rw [ho]
          refine Meets.lift Demand.amid_monotone (close_runs hw) fun w₁ _ h => ?_
          obtain ⟨now, hw₁⟩ := h
          refine ⟨⟨⟨_, hw₁.record, rfl, ?_, hn⟩, hw₁.events⟩, _, rfl, rfl⟩
          simp [Store.written, TaskDelta.apply, Administration.closingDelta, he]
      | suspend =>
          cases hx
          rw [ho]
          refine Meets.lift Demand.amid_monotone (suspend_runs hw) fun w₁ _ hw₁ => ?_
          refine ⟨⟨⟨_, hw₁.record, rfl, ?_, hn⟩, hw₁.events⟩, _, rfl, rfl⟩
          simp [Store.written, TaskDelta.apply, Administration.suspendingDelta, he]
      | reschedule =>
          obtain ⟨hl, hx⟩ := Option.ite_none_right_eq_some.mp hx
          cases hx
          simp only [Bool.not_true, Bool.false_eq_true, if_false]
          rw [if_pos (show (t.recurring && t.binding = .loose) = true from hl)]
          exact ⟨left hw, _, rfl, rfl⟩
      | unrecognized raw =>
          cases hx
          exact ⟨left hw, _, rfl, rfl⟩

/-- A firing that recovers a dead run, and that the stop action ends, comes to that end. -/
theorem fire_runs {f : Occasion} {x : Verdict} (h : Setting f w t) (hf : f.recovering)
    (hx : t.verdict? = some x) {v : World} (hv : w.Intact v) :
    Runs f.place f.program v fun w' report =>
      report = x.report ∧ x.Left f.oid w.trigger.events w' := by
  rw [program_eq]
  have opened := (enters h (.inl hf) w (.refl w)).meets (opening_still _ _ _) hv
  refine Meets.bind Demand.amid_monotone opened ?_
  rintro w₁ _ ⟨rfl, hw₁⟩
  have stands : Stands { w with store := mendedStore w.store t } f.oid (mended t)
      w.trigger.events :=
    ⟨⟨(mendedStore_available _ _).trans h.available,
      (mendedStore_find? h.record _).trans (if_pos rfl)⟩, h.working, h.scheduler, rfl⟩
  replace stands := stands.intact hw₁
  refine Meets.bind Demand.amid_monotone (Q := fun w' r =>
    x.Left f.oid w.trigger.events w' ∧ ∃ stop, r = .error stop ∧ stop.outcome = x.report) ?_ ?_
  · refine then_runs (schedulerRunning_runs stands) fun w₂ hw₂ => ?_
    obtain ⟨hn, he⟩ := mended_idle t
    rw [hf]
    refine Meets.attempt Demand.amid_monotone
      (policy_runs ((mended_verdict? t).trans hx) (mended_ready h.ready) hn he hw₂) ?_ ?_
    · rintro w₃ _ ⟨-, stop, hs, -⟩
      cases hs
    · rintro w₃ stop ⟨hleft, _, ⟨⟩, hs⟩
      exact ⟨hleft, stop, rfl, hs⟩
  · rintro w₂ _ ⟨hleft, stop, rfl, hs⟩
    exact ⟨hs, hleft⟩

end

/-- Whatever goes on outside, the firing runs no handler and can come to its end; and its end
is that. -/
def Halts (f : Occasion) (outside : World → World → Prop) (w : World) (x : Verdict) : Prop :=
  ∀ c es, Run (Scene.Step (fun _ : Unit => f) outside) (.begin (fun _ => f) w) es c →
    (∀ (r : Call) (a : r.Response), .deed () (.answered r a) ∈ es → r.isHandlers = false) ∧
    (∃ es' c' report, Run (Scene.Step (fun _ : Unit => f) outside) c es' c' ∧
      c'.program () = .done report) ∧
    ∀ report, c.program () = .done report →
      report = x.report ∧ x.Left f.oid w.trigger.events c.world

section

variable {f : Occasion} {outside : World → World → Prop} {w : World} {t : Task}

/-- The one firing, and whatever leaves the world intact. -/
theorem run_intact (hout : World.Detached outside) {c c' : Scene Unit}
    {es : List (Event Unit)} (hr : Run (Scene.Step (fun _ : Unit => f) outside) c es c') :
    Run (Scene.StepBeside (fun _ : Unit => f) outside World.Intact ()) c es c' := by
  refine hr.restrict (P := fun _ => True) (fun _ _ => trivial) fun c e c' _ he => ⟨he, ?_⟩
  cases he with
  | outside h => exact fun _ => hout.intact h
  | deed _ => exact fun h => nomatch h

theorem halts (hout : World.Detached outside) (h : Setting f w t) (hf : f.recovering)
    {x : Verdict} (hx : t.verdict? = some x) : Halts f outside w x := by
  intro c es hr
  have secure : (Scene.begin (fun _ : Unit => f) w).Secure (fun _ => f) World.Intact
      (fun _ r => r.IsPrompt) () fun w' report =>
        report = x.report ∧ x.Left f.oid w.trigger.events w' :=
    fun v hv => fire_runs h hf hx hv
  obtain ⟨handlers, ⟨es', c', report, hr', hd⟩, ending⟩ :=
    secure.prompt World.reliance_intact (run_intact hout hr)
  have onward : Run (Scene.Step (fun _ : Unit => f) outside) c es' c' :=
    hr'.restrict (P := fun _ => True) (fun _ _ => trivial) fun _ _ _ _ he => he.1
  exact ⟨handlers, ⟨es', c', report, onward, hd⟩, ending⟩

end

/-! Where it does not. -/

/-- The task made runnable on no node, at that version. -/
def renewed (t : Task) (version : UInt64) : Task :=
  { t with execution := .runnable, node := none, version }

/-- The world with that record of the task. -/
def anew (w : World) (t : Task) (version : UInt64) : World :=
  { w with store := { w.store with tasks := w.store.tasks.put (renewed t version) } }

section

variable {f : Occasion} {w : World} {t : Task} {version : UInt64}

/-- Without a verdict, the stop action asks for nothing. -/
theorem policy_passes (hx : t.verdict? = none) (recovering : Bool) :
    Preparation.applyRecoveryPolicy t recovering = pure () := by
  unfold Task.verdict? at hx
  unfold Preparation.applyRecoveryPolicy StopDirective.resolve
  cases recovering with
  | false => rfl
  | true =>
      cases ha : t.stopAction with
      | none => rfl
      | some action =>
          rw [ha] at hx
          cases action with
          | restart => rfl
          | close | suspend | unrecognized _ => cases hx
          | reschedule =>
              by_cases hl : t.isLooselyRecurring
              · exact nomatch hx.symm.trans (if_pos hl)
              · simp only [Bool.not_true, Bool.false_eq_true, if_false]
                rw [if_neg (show ¬ (t.recurring && t.binding = .loose) = true from hl)]
                rfl

theorem find?_anew (h : w.store.find? f.oid = some t) (o : TaskOid) :
    (anew w t version).store.find? o =
      if f.oid = o then some (renewed t version) else w.store.find? o := by
  have ho : t.oid = f.oid := Store.oid_of_find? h
  rw [← ho]
  exact Table.find?_put _ _ _

/-- What the repair leaves is the task made runnable on no node, but for the version. -/
theorem mended_alike {ρ : UInt64 → UInt64 → Prop} (hv : ρ (mended t).version version) :
    (mended t).Alike ρ (renewed t version) := by
  refine ⟨version, hv, ?_⟩
  unfold mended renewed
  split
  · next hc =>
    obtain ⟨hn, he⟩ : t.node = none ∧ t.execution = .runnable := by
      simpa [Preparation.isClean] using hc
    rw [← hn, ← he]
  · rfl

theorem sameForest_anew (h : w.store.find? f.oid = some t) :
    w.store.SameForest (anew w t version).store := by
  intro o
  rw [find?_anew h]
  split
  · next ho =>
    rw [← ho, h]
    rfl
  · rfl

/-- The two firings get to the ends of their openings alike. -/
theorem meeting {ρ : UInt64 → UInt64 → Prop} {g : Occasion} (hf : f.recovering)
    (hg : g = { f with recovering := false }) (h : Setting f w t) (hx : t.verdict? = none)
    (hv : ρ (mended t).version version) (hn : f.node.Overlooks ρ true false) :
    Meeting ρ f w (mended t, w.store.effectiveConstraints t) (mendedStore w.store t)
      g (anew w t version) (renewed t version, w.store.effectiveConstraints t)
      (anew w t version).store := by
  subst hg
  have ho : t.oid = f.oid := Store.oid_of_find? h.record
  have found : (anew w t version).store.find? f.oid = some (renewed t version) :=
    (find?_anew h.record f.oid).trans (if_pos rfl)
  have fresh : Setting { f with recovering := false } (anew w t version) (renewed t version) :=
    { h with record := found }
  have constraints : (anew w t version).store.effectiveConstraints (renewed t version)
      = w.store.effectiveConstraints t := by
    obtain ⟨_, ht, hc⟩ := (sameForest_anew h.record).effectiveConstraints found
    obtain rfl := Option.some.inj (ht.symm.trans h.record)
    exact hc
  refine ⟨rfl, rfl, ⟨_, w.listener, w.journal, rfl⟩, enters h (.inl hf), ?_, ?_, ?_⟩
  · have right := enters fresh (.inr rfl)
    rw [mended_of_isClean rfl, constraints] at right
    exact right
  · refine ⟨(mendedStore_available w.store t).symm, fun o ho => ?_,
      .inr ⟨mended t, renewed t version, ?_, found, mended_alike hv⟩⟩
    · rw [find?_anew h.record, mendedStore_find? h.record, if_neg (Ne.symm ho),
        if_neg (Ne.symm ho)]
    · exact (mendedStore_find? h.record f.oid).trans (if_pos rfl)
  · have overlooks : f.node.Overlooks ρ f.recovering false := by rwa [hf]
    refine onward_pairs (f := f) (g := { f with recovering := false }) rfl rfl overlooks _ ?_
      (mended_alike hv) (policy_passes ((mended_verdict? t).trans hx) _) rfl
    unfold mended
    split <;> exact ho

end

end Recovery

/-- Of a ready task that its node does not run, while nobody else writes and all works, a
firing that recovers a dead run comes to the verdict of the stop action, if there is one,
without running a handler. If there is none, it comes to what a fresh firing of the task comes
to that was made runnable on no node. The handlers are to make nothing of the recovery; their
task is at the version that the repair leaves, or at any other that they overlook. -/
theorem recovers_as_told {f : Occasion} {outside : World → World → Prop} {w : World} {t : Task}
    (hout : World.Detached outside) (hf : f.recovering) (h : Recovery.Setting f w t) :
    (∀ x, t.verdict? = some x → Recovery.Halts f outside w x) ∧
    (t.verdict? = none →
      (f.node.IgnoresRecovery → f.ComesAlike Eq outside w { f with recovering := false }
        (Recovery.anew w t (Recovery.mended t).version)) ∧
      ∀ ρ version, Abreast ρ → ρ (Recovery.mended t).version version →
        f.node.Overlooks ρ true false →
        f.ComesAlike ρ outside w { f with recovering := false }
          (Recovery.anew w t version)) := by
  refine ⟨fun x hx => Recovery.halts hout h hf hx, fun hx => ⟨fun hi => ?_, ?_⟩⟩
  · have abreast : Abreast Eq := fun _ _ h => h ▸ rfl
    exact (Recovery.meeting hf rfl h hx rfl hi.overlooks).comesAlike abreast hout
  · intro ρ version hρ hv hn
    exact (Recovery.meeting hf rfl h hx hv hn).comesAlike hρ hout

namespace Recovery

/-- A task that a dead run has left running on a node. -/
def remains (action : Option StopAction) : Task :=
  { Leftover.remains .ready with stopAction := action }

def world (action : Option StopAction) : World :=
  { now := default, store := { tasks := Table.empty.put (remains action) } }

abbrev occasion : Occasion := Leftover.crew ()

theorem setting (action : Option StopAction) :
    Setting occasion (world action) (remains action) where
  available := rfl
  record := rfl
  vacant := rfl
  ready := rfl
  working := rfl
  scheduler := rfl

theorem work_of_resolve {name : String} {handler : Handler}
    (h : occasion.node.handlers.resolve name = some handler) (context : RunContext) :
    handler.work context = .done (.ok .finished) := by
  simp only [Rehearsal.occasion, Handlers.resolve, Table.find?_put, Table.find?_empty] at h
  split at h
  · cases h
    rfl
  · cases h

theorem occasion_ignores : occasion.node.IgnoresRecovery := by
  intro name handler h t
  rw [work_of_resolve h, work_of_resolve h]

theorem occasion_overlooks (ρ : UInt64 → UInt64 → Prop) :
    occasion.node.Overlooks ρ true false := by
  intro name handler h t u _
  rw [work_of_resolve h, work_of_resolve h]
  rfl

/-- The firing goes on to its report. -/
abbrev played : List (Event Unit) × Scene Unit :=
  Scene.play Leftover.crew (List.replicate 30 (.go ())) (.begin Leftover.crew (world none))

theorem played_run : Run (Scene.Step (fun _ : Unit => occasion) World.Stirs)
    (.begin (fun _ => occasion) (world none)) played.1 played.2 :=
  Scene.play_run _ _ fun f hf => by simp at hf

theorem played_ends : ∃ x, occasion.MayCome World.Stirs (world none) x := by
  have ended : played.2.hasEnded () := by decide +kernel
  obtain ⟨report, hd⟩ := Scene.done_of_hasEnded ended
  exact ⟨_, Occasion.mayCome_of_run played_run hd⟩

end Recovery

/-- One with the stop action CLOSE is closed; one without a stop action is run to an end, and a
fresh firing comes to the same, also from a record at the version before the repair. -/
theorem closes_or_runs :
    (∃ x, (Recovery.remains (some .close)).verdict? = some x ∧ x.scheduling = .closed ∧
      Recovery.Halts Recovery.occasion World.Stirs (Recovery.world (some .close)) x) ∧
    (∃ x y, Recovery.occasion.MayCome World.Stirs (Recovery.world none) x ∧
      Occasion.MayCome { Recovery.occasion with recovering := false } World.Stirs
        (Recovery.anew (Recovery.world none) (Recovery.remains none) 1) y ∧ x.Alike Eq y) ∧
    Recovery.occasion.ComesAlike (fun _ _ => True) World.Stirs (Recovery.world none)
      { Recovery.occasion with recovering := false }
      (Recovery.anew (Recovery.world none) (Recovery.remains none) 0) := by
  obtain ⟨closes, -⟩ := recovers_as_told World.detached_stirs rfl
    (Recovery.setting (some .close))
  obtain ⟨-, runs⟩ := recovers_as_told World.detached_stirs rfl
    (Recovery.setting none)
  obtain ⟨x, hx⟩ := Recovery.played_ends
  obtain ⟨y, hy, halike⟩ := ((runs rfl).1 Recovery.occasion_ignores).forth x hx
  have anyhow := (runs rfl).2 (fun _ _ => True) 0 (fun _ _ _ => trivial) trivial
    (Recovery.occasion_overlooks _)
  exact ⟨⟨_, rfl, rfl, closes _ rfl⟩, ⟨x, y, hx, hy, halike⟩, anyhow⟩

end TaskFiring
