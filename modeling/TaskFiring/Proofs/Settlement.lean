import TaskFiring.Proofs.Milestones

/-!
The end of a firing that nobody interferes with: from the end of its handler until the
stop policy is done, it alone writes its task. What it reads is then what it has written,
and what becomes of the task is a matter of the record, of how the handler has ended and
of the leave to run.
-/

namespace TaskFiring

/-- The scheduling state in which a firing leaves its task, and what it tells the trigger
engine. -/
abbrev Fate := SchedulingState × List TriggerEvent

/-- What the end of a handler makes of a ready task, if anything. -/
def HandlerEnd.fate? (oid : TaskOid) (recurring : Bool) : HandlerEnd → Option Fate
  | .ok outcome =>
      match outcome.status with
      | .finished | .temporaryError =>
          if recurring then none else some (.closed, [.jobDeleted oid])
      | .permanentError => some (.suspended, [.unscheduled oid])
      | .interrupted => none
  | .error _ => none

namespace Task

/-- What becomes of a ready task whose firing has lost its leave to run. -/
def stopFate (t : Task) : Fate :=
  match t.stopAction with
  | some .close => (.closed, [.jobDeleted t.oid])
  | some .suspend => (.suspended, [.unscheduled t.oid])
  | none | some .restart => (.ready, [.scheduledNow t.oid])
  | some .reschedule =>
      if t.recurring && t.binding = .loose then (.ready, [])
      else (.ready, [.scheduledNow t.oid])
  | some (.unrecognized _) => (.ready, [])

/-- What becomes of a task with that record at the end of a handler. -/
def fate (t : Task) (recurring : Bool) (ended : HandlerEnd) (leave : Bool) : Fate :=
  if t.isReady then
    match ended.fate? t.oid recurring with
    | some fate => fate
    | none => if leave then (.ready, []) else t.stopFate
  else (t.scheduling, [])

/-- Records that tell the same about what to do with a stopped task. -/
structure Akin (t t' : Task) : Prop where
  oid : t'.oid = t.oid
  stopAction : t'.stopAction = t.stopAction
  recurring : t'.recurring = t.recurring
  binding : t'.binding = t.binding

namespace Akin

variable {t t' t'' : Task}

theorem refl (t : Task) : t.Akin t := ⟨rfl, rfl, rfl, rfl⟩

theorem trans (h : t.Akin t') (h' : t'.Akin t'') : t.Akin t'' :=
  ⟨h'.oid.trans h.oid, h'.stopAction.trans h.stopAction, h'.recurring.trans h.recurring,
    h'.binding.trans h.binding⟩

theorem written (t : Task) (d : TaskDelta) : t.Akin (Store.written t d) :=
  ⟨rfl, rfl, rfl, rfl⟩

theorem stopFate (h : t.Akin t') : t'.stopFate = t.stopFate := by
  unfold Task.stopFate
  rw [h.oid, h.stopAction, h.recurring, h.binding]

end Akin

end Task

def Call.trigger? : Call → Option TriggerEvent
  | .unschedule oid => some (.unscheduled oid)
  | .deleteJob oid => some (.jobDeleted oid)
  | .rescheduleLater oid time => some (.rescheduledLater oid time)
  | .scheduleNow oid => some (.scheduledNow oid)
  | _ => none

/-- Where a firing is that sees to the end of its task. -/
inductive Standing
  /-- It alone writes the record, has told the trigger engine so much, and has found its
  leave to run to be so. -/
  | alone (t : Task) (told : List TriggerEvent) (leaves : List Bool)
  /-- The stop policy is done. -/
  | late

/-- What is demanded of a firing that sees to the end of its task: only such calls as are
answered by its own record, and that its task meets its fate before it waits for late
children. -/
def Settlement.demand (oid : TaskOid) (fate : Bool → Fate) : Demand Calls Standing
  | .late, r, k => r.trigger? = none ∧ ∀ answer, k answer .late
  | .alone t told leaves, .get oid', k => oid' = oid ∧ k (.ok t) (.alone t told leaves)
  | .alone t told leaves, .modify oid' d c, k =>
      oid' = oid ∧ Store.violation? t c = none ∧
        k (.ok (Store.written t d)) (.alone (Store.written t d) told leaves)
  | .alone t told leaves, .deleteJob oid', k =>
      k (.ok ()) (.alone t (told ++ [.jobDeleted oid']) leaves)
  | .alone t told leaves, .unschedule oid', k =>
      k (.ok ()) (.alone t (told ++ [.unscheduled oid']) leaves)
  | .alone t told leaves, .scheduleNow oid', k =>
      k (.ok ()) (.alone t (told ++ [.scheduledNow oid']) leaves)
  | .alone t told leaves, .canRun _, k =>
      ∀ leave, k leave (.alone t told (leaves ++ [leave]))
  | .alone t told leaves, .collect _ _ _ _, k =>
      (∃ leave, leaves = [leave] ∧ (t.scheduling, told) = fate leave) ∧
        ∀ answer, k answer .late
  | s, .now, k => ∀ answer, k answer s
  | s, .setExecuting _ _, k => ∀ answer, k answer s
  | s, .notifyFinished _ _, k => ∀ answer, k answer s
  | s, .spawn _ _, k => ∀ answer, k answer s
  | _, _, _ => False

namespace Settlement

variable {oid : TaskOid} {fate : Bool → Fate} {t : Task} {told : List TriggerEvent}
  {leaves : List Bool}

theorem demand_monotone : (demand oid fate).Monotone := by
  intro s r k k' h hk
  cases s with
  | late => exact ⟨hk.1, fun answer => h _ _ (hk.2 answer)⟩
  | alone t told leaves =>
      cases r with
      | get => exact ⟨hk.1, h _ _ hk.2⟩
      | modify => exact ⟨hk.1, hk.2.1, h _ _ hk.2.2⟩
      | deleteJob | unschedule | scheduleNow => exact h _ _ hk
      | canRun | now | setExecuting | notifyFinished | spawn =>
          exact fun answer => h _ _ (hk answer)
      | collect => exact ⟨hk.1, fun answer => h _ _ (hk.2 answer)⟩
      | _ => exact hk.elim

/-- A part of a firing meets the demand. -/
abbrev Runs {α : Type} (oid : TaskOid) (fate : Bool → Fate) (p : Action α) (s : Standing)
    (Q : Standing → α → Prop) : Prop :=
  p.Meets (demand oid fate) s Q

/-- The standing differs only in the record, which is akin and has that state. -/
def Left (t : Task) (state : SchedulingState) (told : List TriggerEvent)
    (leaves : List Bool) (s : Standing) : Prop :=
  ∃ t', t.Akin t' ∧ t'.scheduling = state ∧ s = .alone t' told leaves

theorem recordResult_runs (result : OperationResult) :
    Runs oid fate (Administration.recordResult oid result).run (.alone t told leaves)
      fun s r => r = .ok (Store.written t { result := some result }) ∧
        s = .alone (Store.written t { result := some result }) told leaves :=
  ⟨rfl, rfl, rfl, rfl⟩

theorem close_runs :
    Runs oid fate (Administration.close oid).run (.alone t told leaves) fun s _ =>
      Left t .closed (told ++ [.jobDeleted oid]) leaves s :=
  ⟨rfl, fun _ => ⟨rfl, rfl, _, .written t _, rfl, rfl⟩⟩

theorem suspend_runs :
    Runs oid fate (Administration.suspend oid).run (.alone t told leaves) fun s _ =>
      Left t .suspended (told ++ [.unscheduled oid]) leaves s :=
  ⟨rfl, rfl, rfl, _, .written t _, rfl, rfl⟩

theorem scheduleNow_runs :
    Runs oid fate (Administration.scheduleNow oid).run (.alone t told leaves) fun s _ =>
      Left t .ready (told ++ [.scheduledNow oid]) leaves s :=
  ⟨rfl, rfl, _, .written t _, rfl, rfl⟩

theorem bestEffort_runs {α : Type} {x : Attempt α} {s : Standing} {Q : Standing → Prop}
    (hx : Runs oid fate x.run s fun s _ => Q s) :
    Runs oid fate (Administration.bestEffort x) s fun s _ => Q s :=
  Program.Meets.bind demand_monotone hx fun _ _ h => h

theorem spawnAll_runs (h : HandleId) (cs : List ChildSpec) :
    Runs oid fate (Firing.spawnAll h cs) (.alone t told leaves) fun s _ =>
      s = .alone t told leaves := by
  induction cs with
  | nil => rfl
  | cons c cs ih => exact fun _ => ih

/-- Letting go of the task leaves its scheduling state alone. -/
theorem settle_runs :
    Runs oid fate (Possession.settle oid) (.alone t told leaves) fun s _ =>
      Left t t.scheduling told leaves s := by
  unfold Possession.settle Possession.settleWithin
  exact ⟨rfl, rfl, by simp [Store.violation?], _, .written t _, rfl, rfl⟩

/-! What is still to come. -/

/-- What the stop policy still makes of the task is its fate. -/
def Pending (fate : Bool → Fate) (t : Task) (told : List TriggerEvent) : Prop :=
  ∀ leave, fate leave =
    if t.isReady && !leave then (t.stopFate.1, told ++ t.stopFate.2) else (t.scheduling, told)

theorem Pending.akin {t' : Task} (h : Pending fate t told) (ha : t.Akin t')
    (hs : t'.scheduling = t.scheduling) : Pending fate t' told := by
  intro leave
  rw [h leave, ha.stopFate, hs, Task.isReady, Task.isReady, hs]

variable {recurring : Bool} {ended : HandlerEnd}

/-- The handler has not moved the task, nor does its end. -/
theorem pending_of_kept (h : t.isReady → ended.fate? t.oid recurring = none) :
    Pending (t.fate recurring ended) t [] := by
  intro leave
  unfold Task.fate
  by_cases hr : t.isReady
  · have hs : t.scheduling = .ready := by simpa [Task.isReady] using hr
    rw [if_pos hr, h hr, hr, hs]
    cases leave <;> rfl
  · simp [hr]

/-- The end of the handler has closed or suspended the task. -/
theorem pending_of_moved {t' : Task} {state : SchedulingState} (hr : t.isReady)
    (hf : ended.fate? t.oid recurring = some (state, told)) (hn : state ≠ .ready)
    (hs : t'.scheduling = state) : Pending (t.fate recurring ended) t' told := by
  subst hs
  intro leave
  unfold Task.fate
  rw [if_pos hr, hf]
  simp [Task.isReady, hn]

/-- The fate that is asked for is the consequence that is drawn. -/
theorem fate?_consequence (oid : TaskOid) (outcome : HandlerOutcome) (recurring : Bool) :
    HandlerEnd.fate? oid recurring (.ok outcome)
      = match Handling.consequence outcome.status recurring with
        | .close => some (.closed, [.jobDeleted oid])
        | .suspend => some (.suspended, [.unscheduled oid])
        | .keep => none := by
  obtain ⟨status, message⟩ := outcome
  cases status <;> cases recurring <;> rfl

theorem applyOutcome_runs {t₀ : Task} (ho₀ : t₀.oid = oid) (ho : t.oid = oid)
    (result : OperationResult) :
    Runs oid (t.fate t₀.recurring ended) (Handling.applyOutcome t₀ ended result)
      (.alone t [] []) fun s _ =>
        ∃ t' told, s = .alone t' told [] ∧ t.Akin t' ∧
          Pending (t.fate t₀.recurring ended) t' told := by
  subst ho₀
  unfold Handling.applyOutcome
  cases ended with
  | error e =>
      refine Program.Meets.bind demand_monotone (bestEffort_runs
        (Q := fun s => Left t t.scheduling [] [] s) ?_) ?_
      · exact ⟨rfl, rfl, _, .written t _, rfl, rfl⟩
      · rintro s ⟨⟩ ⟨t', ha, hs, rfl⟩
        exact ⟨t', [], rfl, ha, (pending_of_kept fun _ => rfl).akin ha hs⟩
  | ok outcome =>
      let delta (result : OperationResult) : TaskDelta := { result := some result }
      refine Program.Meets.bind demand_monotone (recordResult_runs _) ?_
      rintro s r ⟨rfl, rfl⟩
      have akin := Task.Akin.written t (delta (result.record outcome.status.resultStatus
        outcome.message))
      have kept (h : t.isReady → HandlerEnd.fate? t.oid t₀.recurring (.ok outcome) = none) :=
        (pending_of_kept h).akin akin rfl
      by_cases hr : t.isReady
      · dsimp only
        rw [if_pos (by exact hr)]
        have hf := fate?_consequence t.oid outcome t₀.recurring
        cases hc : Handling.consequence outcome.status t₀.recurring with
        | keep =>
            rw [hc] at hf
            exact ⟨_, [], rfl, akin, kept fun _ => hf⟩
        | close =>
            rw [hc] at hf
            refine Program.Meets.bind demand_monotone (bestEffort_runs close_runs) ?_
            rintro s ⟨⟩ ⟨t', ha, hs, rfl⟩
            refine ⟨t', _, rfl, akin.trans ha, pending_of_moved hr ?_ (by decide) hs⟩
            rw [hf, ho]
            rfl
        | suspend =>
            rw [hc] at hf
            refine Program.Meets.bind demand_monotone (bestEffort_runs suspend_runs) ?_
            rintro s ⟨⟩ ⟨t', ha, hs, rfl⟩
            refine ⟨t', _, rfl, akin.trans ha, pending_of_moved hr ?_ (by decide) hs⟩
            rw [hf, ho]
            rfl
      · dsimp only
        rw [if_neg (by exact hr)]
        exact ⟨_, [], rfl, akin, kept fun h => absurd h hr⟩

theorem release_runs {g : Firing} (node : Node) (ho : g.task.oid = oid)
    (hn : g.nodeSet = true) :
    Runs oid fate (Firing.release node g) (.alone t told leaves) fun s _ =>
      Left t t.scheduling told leaves s := by
  unfold Firing.release
  rw [if_pos hn, ho]
  refine Program.Meets.ask fun _ => ?_
  refine Program.Meets.bind demand_monotone (spawnAll_runs _ _) ?_
  rintro s ⟨⟩ rfl
  exact settle_runs

/-- The fate that is asked for is the directive that is given. -/
theorem stopFate_halting (t : Task) :
    t.stopFate = match t.halting with
      | .ok .close => (.closed, [.jobDeleted t.oid])
      | .ok .suspend => (.suspended, [.unscheduled t.oid])
      | .ok .rescheduleNow | .ok .resume => (.ready, [.scheduledNow t.oid])
      | .ok .awaitNaturalRefire | .error _ => (.ready, []) := by
  unfold Task.stopFate Task.halting
  cases t.stopAction with
  | none => rfl
  | some action =>
      cases action with
      | reschedule =>
          simp only [StopDirective.resolve]
          split <;> rfl
      | _ => rfl

theorem applyStopAction_runs (ho : t.oid = oid) (hr : t.isReady) :
    Runs oid fate (Administration.applyStopAction oid) (.alone t told leaves) fun s _ =>
      Left t t.stopFate.1 (told ++ t.stopFate.2) leaves s := by
  have kept : Left t .ready (told ++ []) leaves (.alone t told leaves) :=
    ⟨t, .refl t, by simpa [Task.isReady] using hr, by rw [List.append_nil]⟩
  unfold Administration.applyStopAction
  refine Program.Meets.ask ⟨rfl, ?_⟩
  rw [stopFate_halting, ho]
  simp only [hr, Bool.not_true, Bool.false_eq_true, if_false]
  have directive : StopDirective.resolve t.stopAction .halting t.recurring t.binding
      = t.halting := rfl
  rw [directive]
  cases t.halting with
  | error e => exact kept
  | ok d =>
      cases d with
      | close => exact bestEffort_runs close_runs
      | suspend => exact bestEffort_runs suspend_runs
      | rescheduleNow | resume => exact bestEffort_runs scheduleNow_runs
      | awaitNaturalRefire => exact kept

theorem obeyStop_runs {g : Firing} (hg : g.task.oid = oid) (ho : t.oid = oid)
    (hp : Pending fate t told) :
    Runs oid fate (Firing.obeyStop g) (.alone t told []) fun s _ =>
      ∃ t' told' leave, s = .alone t' told' [leave] ∧ (t'.scheduling, told') = fate leave := by
  unfold Firing.obeyStop
  refine Program.Meets.ask fun leave => ?_
  have hp := hp leave
  cases leave with
  | true => exact ⟨t, told, true, rfl, by simpa using hp.symm⟩
  | false =>
      rw [hg]
      by_cases hr : t.isReady
      · refine (applyStopAction_runs ho hr).mono demand_monotone ?_
        rintro s ⟨⟩ ⟨t', -, hs, rfl⟩
        refine ⟨t', _, false, rfl, ?_⟩
        rw [hp, hs, hr]
        rfl
      · unfold Administration.applyStopAction
        refine Program.Meets.ask ⟨rfl, ?_⟩
        simp only [hr, Bool.not_false, if_true]
        exact ⟨t, told, false, rfl, by rw [hp]; simp [hr]⟩

theorem late_runs {α : Type} {p : Action α} (hp : p.Only fun r : Call => r.trigger? = none) :
    Runs oid fate p .late fun s _ => s = .late := by
  induction p with
  | done a => rfl
  | ask r next ih => exact ⟨hp.1, fun answer => ih answer (hp.2 answer)⟩

/-- Once the stop policy is done, the trigger engine is told nothing more. -/
theorem silent_of_late {α : Type} {p : Action α} {Q : Standing → α → Prop}
    (hp : Runs oid fate p .late Q) : p.Only fun r : Call => r.trigger? = none := by
  induction p with
  | done a => trivial
  | ask r next ih => exact ⟨hp.1, fun answer => ih answer (hp.2 answer)⟩

theorem collectLate_runs {leave : Bool} (g : Firing) (hf : (t.scheduling, told) = fate leave) :
    Runs oid fate (Firing.collectLate g) (.alone t told [leave]) fun s _ => s = .late := by
  refine ⟨⟨leave, rfl, hf⟩, fun answer => late_runs ?_⟩
  change Program.Only _ (if answer.2 = 0 then _ else _)
  split
  · trivial
  · refine Program.Only.bind ?_ fun _ => trivial
    exact Program.Only.bind ⟨rfl, fun _ => trivial⟩ fun _ => trivial

theorem finish_runs {g : Firing} (node : Node) (hg : g.task.oid = oid) (hn : g.nodeSet = true)
    (ho : t.oid = oid) (hp : Pending fate t told) (ending : Firing.Ending) :
    Runs oid fate (Firing.finish node g ending) (.alone t told []) fun s _ => s = .late := by
  refine Program.Meets.bind demand_monotone (Q := fun s _ => s = .late) ?_ ?_
  · refine Program.Meets.ask fun _ => ?_
    refine Program.Meets.bind demand_monotone (release_runs node hg hn) ?_
    rintro s ⟨⟩ ⟨t', ha, hs, rfl⟩
    refine Program.Meets.bind demand_monotone
      (obeyStop_runs hg (ha.oid.trans ho) (hp.akin ha hs)) ?_
    rintro s ⟨⟩ ⟨t'', told', leave, rfl, hf⟩
    exact collectLate_runs g hf
  · rintro s g' rfl
    exact late_runs ⟨rfl, fun _ => trivial⟩

theorem conclude_runs {g : Firing} (hg : g.task.oid = oid) (ho : t.oid = oid)
    (ended : HandlerEnd) :
    Runs oid (t.fate g.task.recurring ended) (Firing.conclude g ended) (.alone t [] [])
      fun s r => r.1.task = g.task ∧ r.1.nodeSet = g.nodeSet ∧
        ∃ t' told, s = .alone t' told [] ∧ t.Akin t' ∧
          Pending (t.fate g.task.recurring ended) t' told := by
  unfold Firing.conclude
  refine Program.Meets.bind demand_monotone (applyOutcome_runs hg ho g.result) ?_
  intro s result h
  cases ended with
  | ok outcome => exact ⟨rfl, rfl, h⟩
  | error e => exact ⟨rfl, rfl, h⟩

/-- From the end of its handler on, a firing brings its task to its fate. -/
theorem rest_runs {g : Firing} (node : Node) (hg : g.task.oid = oid) (hn : g.nodeSet = true)
    (ho : t.oid = oid) (ended : HandlerEnd) :
    Runs oid (t.fate g.task.recurring ended) (Milestones.rest node (g, ended))
      (.alone t [] []) fun s _ => s = .late := by
  refine Program.Meets.bind demand_monotone (conclude_runs hg ho ended) ?_
  rintro s ⟨g', ending⟩ ⟨ht, hn', t', told, rfl, ha, hp⟩
  exact finish_runs node (by rw [ht, hg]) (hn'.trans hn) (ha.oid.trans ho) hp ending

end Settlement
end TaskFiring
