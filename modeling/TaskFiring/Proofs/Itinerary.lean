import TaskFiring.Proofs.Custody
import TaskFiring.Proofs.Milestones

/-!
The way of a firing, leg by leg. A firing gets its handle, registers, looks at the stop
signal of its node, takes the task, runs the handler between the announcement and the end
of its scope, records the outcome and tells that it is over. Each call that marks the way
belongs to one leg and leads to the next; the other calls may come on any leg and are not
spoken of. Nothing is said of whether a firing gets on.
-/

namespace TaskFiring

/-- How far on its way a firing is. -/
inductive Leg
  | outset
  | equipped (h : HandleId)
  /-- It is registered, and has not looked at the stop signal. -/
  | entered (h : HandleId)
  /-- It has seen the stop signal, and still has its leave to run. -/
  | warned (h : HandleId)
  /-- It is past its look at the stop signal. -/
  | abroad (h : HandleId)
  /-- It is about to interrupt its own handler. -/
  | doomed (h : HandleId)
  /-- It did not get the task. -/
  | left (h : HandleId)
  | taken (h : HandleId) (t : Task)
  /-- The handle tells whether the handler is safe. -/
  | marked (h : HandleId) (t : Task)
  | announced (h : HandleId) (t : Task)
  /-- It is in the scope in which the handler runs. -/
  | acting (h : HandleId) (t : Task)
  | acted (h : HandleId) (t : Task)
  /-- The outcome is recorded. There was an announcement unless no handler was found. -/
  | concluded (h : HandleId) (t : Task) (announced : Bool) (status : ResultStatus)
  /-- The listeners were told that it is over. -/
  | told (h : HandleId) (t : Task) (announced : Bool) (status : ResultStatus)

namespace Leg

def handle? : Leg → Option HandleId
  | .outset => none
  | .equipped h | .entered h | .warned h | .abroad h | .doomed h | .left h | .taken h _
  | .marked h _ | .announced h _ | .acting h _ | .acted h _ | .concluded h _ _ _
  | .told h _ _ _ => some h

/-- The record with which the task was taken. -/
def task? : Leg → Option Task
  | .outset | .equipped _ | .entered _ | .warned _ | .abroad _ | .doomed _ | .left _ => none
  | .taken _ t | .marked _ t | .announced _ t | .acting _ t | .acted _ t
  | .concluded _ t _ _ | .told _ t _ _ => some t

/-- What a firing may report at the end of such a leg. -/
inductive Allows (oid : TaskOid) : Leg → FiringOutcome → Prop
  | outset (stop : Stop) : Allows oid .outset stop.outcome
  | equipped {h : HandleId} (stop : Stop) : Allows oid (.equipped h) stop.outcome
  | left {h : HandleId} (stop : Stop) : Allows oid (.left h) stop.outcome
  | dismissed {h : HandleId} {t : Task} {status : ResultStatus} (stop : Stop) :
      Allows oid (.told h t false status) stop.outcome
  | completed {h : HandleId} {t : Task} {status : ResultStatus} :
      Allows oid (.told h t true status) (.ok (.completed oid status))
  | failed {h : HandleId} {t : Task} {status : ResultStatus} (e : HandlerError) :
      Allows oid (.told h t true status) (.error (.handler oid e))

end Leg

namespace Call

/-- A call that does not mark the way of a firing. -/
def IsIncidental : Call → Prop
  | .modify _ d _ => d.result = none ∧ ∀ n, d.node ≠ some (some n)
  | .newHandle _ | .clearCanRun _ | .isSafe _ | .setSafe _ _ | .interruptHandler _
  | .isInterrupted _ | .register _ | .registeredHandles | .shutDown | .isShutDown
  | .notifyStarted _ _ | .notifyFinished _ _ | .establish _ | .clearIdentity
  | .handler _ _ _ => False
  | _ => True

theorem IsErrand.incidental {oid : TaskOid} {r : Call} (h : r.IsErrand oid)
    (ha : r.AssignsNone) : r.IsIncidental := by
  cases r with
  | modify => exact ⟨h.2, ha⟩
  | get | unschedule | deleteJob | rescheduleLater | scheduleNow | nextFireTime | now
  | schedulerRunning => trivial
  | _ => cases h

theorem IsInquiry.incidental {r : Call} (h : r.IsInquiry) : r.IsIncidental := by
  cases r with
  | get | countRunning | nextFireTime | now | rescheduleLater => trivial
  | _ => cases h

end Call

namespace Itinerary

open Program (Only Follows)
open Starting

/-- A wait for children leaves the status of the result that it adds to. -/
def Fair : (r : Call) → r.Response → Prop
  | .collect _ result _ _, a => a.1.status = result.status
  | r, a => r.Fair a

section

variable (f : Occasion)

/-- The calls of a firing that mark its way, and all others. -/
inductive Move : Protocol Calls Leg
  | rest {s : Leg} {r : Call} {a : r.Response} : r.IsIncidental → Move s r a s
  | equip {h : HandleId} : Move .outset (.newHandle f.oid) h (.equipped h)
  | enter {h : HandleId} : Move (.equipped h) (.register h) true (.entered h)
  | refused {h : HandleId} : Move (.equipped h) (.register h) false (.equipped h)
  | pass {h : HandleId} : Move (.entered h) .isShutDown false (.abroad h)
  | heed {h : HandleId} : Move (.entered h) .isShutDown true (.warned h)
  | yield {h : HandleId} : Move (.warned h) (.clearCanRun h) () (.abroad h)
  | spare {h : HandleId} : Move (.abroad h) (.isSafe h) true (.abroad h)
  | doom {h : HandleId} : Move (.abroad h) (.isSafe h) false (.doomed h)
  | strike {h : HandleId} : Move (.doomed h) (.interruptHandler h) () (.abroad h)
  | strikeAtOnce {h : HandleId} : f.node.config.interruptPolicy = .always →
      Move (.abroad h) (.interruptHandler h) () (.abroad h)
  | take {h : HandleId} {v : UInt64} {t : Task} :
      Move (.abroad h) (.modify f.oid (Possession.runningDelta f.nodeId) (.version v)) (.ok t)
        (.taken h t)
  | notTaken {h : HandleId} {v : UInt64} {e : StoreError} :
      Move (.abroad h) (.modify f.oid (Possession.runningDelta f.nodeId) (.version v)) (.error e)
        (.left h)
  /-- Whoever did not get the task may still have to do with late children. -/
  | stray {h : HandleId} {result : OperationResult} {a : Except StoreError Task} :
      Move (.left h) (.modify f.oid { result := some result } .always) a (.left h)
  | mark {h : HandleId} {t : Task} {handler : Handler} :
      f.node.handlers.resolve t.handlerRef = some handler →
      Move (.taken h t) (.setSafe h handler.safe) () (.marked h t)
  | announce {h : HandleId} {t : Task} :
      Move (.marked h t) (.notifyStarted f.oid f.recovering) () (.announced h t)
  | establish {h : HandleId} {t : Task} :
      Move (.announced h t) (.establish t.owner) () (.acting h t)
  | invoke {h : HandleId} {t : Task} {b : Bool} :
      Move (.acting h t) (.isInterrupted h) b (.acting h t)
  | handler {h : HandleId} {t : Task} {call : HandlerCall} {a : Option call.Response} :
      Move (.acting h t) (.handler h f.oid call) a (.acting h t)
  | clear {h : HandleId} {t : Task} : Move (.acting h t) .clearIdentity () (.acted h t)
  | conclude {h : HandleId} {t : Task} {result : OperationResult}
      {a : Except StoreError Task} :
      Move (.acted h t) (.modify f.oid { result := some result } .always) a
        (.concluded h t true result.status)
  | dismiss {h : HandleId} {t : Task} {result : OperationResult}
      {a : Except StoreError Task} : f.node.handlers.resolve t.handlerRef = none →
      Move (.taken h t) (.modify f.oid { result := some result } .always) a
        (.concluded h t false result.status)
  | tell {h : HandleId} {t : Task} {b : Bool} {status : ResultStatus} :
      Move (.concluded h t b status) (.notifyFinished f.oid status) () (.told h t b status)
  | amend {h : HandleId} {t : Task} {b : Bool} {result : OperationResult}
      {a : Except StoreError Task} :
      Move (.told h t b result.status) (.modify f.oid { result := some result } .always) a
        (.told h t b result.status)

end

/-- A part of a firing, with answers that are fair. -/
abbrev Runs (f : Occasion) {α : Type} (p : Action α) (s : Leg) (Q : Leg → α → Prop) : Prop :=
  p.Follows Fair (Move f) s Q

section

variable {f : Occasion} {α : Type} {p : Action α} {s : Leg} {g : Firing} {h : HandleId}
  {oid : TaskOid}

theorem runs_of_incidental (hp : p.Only Call.IsIncidental) : Runs f p s fun s' _ => s' = s :=
  hp.follows fun _ _ => .rest

theorem incidental_of_errand (hb : p.Only (Call.IsErrand oid)) (ha : p.Only Call.StartsNone) :
    p.Only Call.IsIncidental := by
  induction p with
  | done a => trivial
  | ask r next ih =>
      refine ⟨hb.1.incidental ha.1.assignsNone, fun answer => ?_⟩
      exact ih answer (hb.2 answer) (ha.2 answer)

theorem runs_of_errand (hb : p.Only (Call.IsErrand oid)) (ha : p.Only Call.StartsNone) :
    Runs f p s fun s' _ => s' = s :=
  runs_of_incidental (incidental_of_errand hb ha)

theorem runs_of_inquiry (hp : p.Only Call.IsInquiry) : Runs f p s fun s' _ => s' = s :=
  runs_of_incidental (hp.mono fun _ => Call.IsInquiry.incidental)

theorem runs_of_best {x : Attempt α} (hb : x.run.Only (Call.IsErrand oid))
    (ha : x.run.Only Call.StartsNone) :
    Runs f (Administration.bestEffort x) s fun s' _ => s' = s :=
  runs_of_errand (Custody.bestEffort_only hb) (bestEffort_startsNone ha)

theorem runs_of_spawnAll (cs : List ChildSpec) :
    Runs f (Firing.spawnAll h cs) s fun s' _ => s' = s :=
  runs_of_incidental (Course.spawnAll_only (fun _ => trivial) cs)

/-! Up to the handle. -/

theorem load_runs : Runs f (Preparation.load f.oid).run s fun s' r =>
    s' = s ∧ ∀ snapshot, r = .ok snapshot → snapshot.task.oid = f.oid := by
  unfold Preparation.load
  refine Follows.query fun answer fair => ⟨s, .rest trivial, ?_⟩
  split
  · refine Follows.query fun _ _ => ⟨s, .rest trivial, rfl, ?_⟩
    exact fun _ hr => nomatch hr
  · exact ⟨rfl, fun _ hr => nomatch hr⟩
  · refine Follows.attempt (runs_of_inquiry (Course.ancestor_inquires _ _ _ _ _)) ?_ ?_
    · rintro _ root rfl
      refine ⟨rfl, ?_⟩
      rintro snapshot ⟨⟩
      exact fair
    · rintro _ e rfl
      exact ⟨rfl, fun _ hr => nomatch hr⟩

theorem repair_runs {t : Task} (ho : t.oid = f.oid) :
    Runs f (Preparation.repair f.nodeId t f.recovering).run s fun s' r =>
      s' = s ∧ ∀ t', r = .ok t' → t'.oid = f.oid := by
  unfold Preparation.repair
  refine Follows.query fun found _ => ⟨s, .rest trivial, ?_⟩
  split
  · refine ⟨rfl, ?_⟩
    rintro t' ⟨⟩
    exact ho
  · refine Follows.query fun answer fair => ⟨s, .rest ⟨rfl, fun _ h => nomatch h⟩, ?_⟩
    split
    · refine ⟨rfl, ?_⟩
      rintro t' ⟨⟩
      exact (fair : _ = t.oid).trans ho
    · exact ⟨rfl, fun _ hr => nomatch hr⟩
    · exact ⟨rfl, fun _ hr => nomatch hr⟩
    · exact ⟨rfl, fun _ hr => nomatch hr⟩

theorem prepare_runs : Runs f (Firing.prepare f.node f.oid f.recovering).run .outset fun s r =>
    match r with
    | .ok g => s = .equipped g.handle ∧ g.task.oid = f.oid ∧ g.recovering = f.recovering ∧
        g.nodeSet = false
    | .error _ => s = .outset := by
  unfold Firing.prepare
  refine Follows.attempt load_runs ?_ fun _ _ h => h.1
  rintro _ snapshot ⟨rfl, ho⟩
  have ho := ho snapshot rfl
  refine Follows.attempt (runs_of_errand (Custody.ensureReady_errand _)
    (ensureReady_startsNone _)) ?_ fun _ _ h => h
  rintro _ _ rfl
  refine Follows.attempt (repair_runs ho) ?_ fun _ _ h => h.1
  rintro _ t ⟨rfl, ho⟩
  have ho := ho t rfl
  refine Follows.attempt (runs_of_errand (Custody.ensureSchedulerRunning_errand t)
    (ensureSchedulerRunning_startsNone t)) ?_ fun _ _ h => h
  rintro _ _ rfl
  refine Follows.attempt (runs_of_errand (Custody.applyRecoveryPolicy_errand t f.recovering)
    (applyRecoveryPolicy_startsNone t f.recovering)) ?_ fun _ _ h => h
  rintro _ _ rfl
  refine Follows.attempt (runs_of_inquiry (Course.enforce_inquires _ _ _)) ?_ fun _ _ h => h
  rintro _ _ rfl
  exact Follows.query fun h _ => ⟨_, .equip, rfl, ho, rfl, rfl⟩

/-! From the registry to the write that takes the task. -/

theorem interrupt_runs :
    Runs f (Interruption.interrupt f.node.config.interruptPolicy h) (.warned h) fun s _ =>
      s = .abroad h := by
  unfold Interruption.interrupt
  refine Follows.ask fun _ _ => ⟨_, .yield, ?_⟩
  refine Follows.ask fun _ _ => ⟨_, .rest trivial, ?_⟩
  cases hp : f.node.config.interruptPolicy with
  | always => exact Follows.ask fun _ _ => ⟨_, .strikeAtOnce hp, rfl⟩
  | never => exact rfl
  | maybe =>
      refine Follows.ask fun safe _ => ?_
      cases safe with
      | true => exact ⟨_, .spare, rfl⟩
      | false => exact ⟨_, .doom, fun _ _ => ⟨_, .strike, rfl⟩⟩

theorem start_runs {t : Task} (ho : t.oid = f.oid) :
    Runs f (Possession.start t f.nodeId).run (.abroad h) fun s r =>
      match r with
      | .ok t' => s = .taken h t' ∧ t'.oid = f.oid
      | .error _ => s = .left h := by
  unfold Possession.start
  rw [ho]
  refine Follows.query fun answer fair => ?_
  cases answer with
  | ok t' => exact ⟨_, .take, rfl, fair⟩
  | error e =>
      refine ⟨_, .notTaken, ?_⟩
      cases e with
      | conflict o expected actual =>
          refine Follows.lift (runs_of_errand (Custody.lostRace_errand t _)
            (startsNone_of_aside (Course.lostRace_aside _ _))) ?_
          rintro _ stop rfl
          exact rfl
      | _ => exact rfl

/-! The handler, between the announcement and the end of its scope. -/

theorem guarded_runs {t : Task} (work : HandlerWork) :
    Runs f (Handling.guarded h f.oid work) (.acting h t) fun s _ => s = .acting h t := by
  induction work with
  | done r => exact rfl
  | ask r next ih =>
      unfold Handling.guarded
      refine fun answer _ => ⟨_, .handler, ?_⟩
      cases answer with
      | some a => exact ih a
      | none => exact rfl

theorem runHandler_runs {handler : Handler} (ho : g.task.oid = f.oid) :
    Runs f (Firing.runHandler handler g) (.announced g.handle g.task) fun s _ =>
      s = .acted g.handle g.task := by
  unfold Firing.runHandler
  refine Follows.ask fun _ _ => ⟨_, .establish, ?_⟩
  refine Follows.ask fun _ _ => ⟨_, .rest trivial, ?_⟩
  refine Follows.bind (Q := fun s _ => s = .acting g.handle g.task) ?_ ?_
  · refine Follows.ask fun interrupted _ => ⟨_, .invoke, ?_⟩
    cases interrupted with
    | true => exact rfl
    | false =>
        have run := guarded_runs (f := f) (h := g.handle) (t := g.task)
          (handler.work { task := g.task, recovering := g.recovering })
        rw [← ho] at run
        exact run
  · rintro _ ended rfl
    refine Follows.ask fun _ _ => ⟨_, .rest trivial, ?_⟩
    exact Follows.ask fun _ _ => ⟨_, .clear, rfl⟩

/-- What stays the same of a firing from one part to the next. -/
structure Same (g g' : Firing) : Prop where
  handle : g'.handle = g.handle
  task : g'.task = g.task
  nodeSet : g'.nodeSet = g.nodeSet

theorem collectChildren_runs :
    Runs f (Firing.collectChildren g) s fun s' r =>
      s' = s ∧ Same g r.1 ∧ r.1.result.status = g.result.status :=
  fun _ fair => ⟨s, .rest trivial, rfl, ⟨rfl, rfl, rfl⟩, fair⟩

theorem runTaken_runs {handler : Handler} (ho : g.task.oid = f.oid)
    (hr : g.recovering = f.recovering)
    (hh : f.node.handlers.resolve g.task.handlerRef = some handler) :
    Runs f (Firing.runTaken f.node handler g) (.taken g.handle g.task) fun s r =>
      s = .acted g.handle g.task ∧ Same g r.1 := by
  unfold Firing.runTaken
  refine Follows.ask fun _ _ => ⟨_, .mark hh, ?_⟩
  rw [ho, hr]
  refine Follows.ask fun _ _ => ⟨_, .announce, ?_⟩
  refine (runs_of_spawnAll _).bind ?_
  rintro _ ⟨⟩ rfl
  refine (runHandler_runs ho).bind ?_
  rintro _ ended rfl
  refine collectChildren_runs.bind ?_
  rintro _ ⟨g', closed⟩ ⟨rfl, same, -⟩
  exact ⟨rfl, same⟩

/-! Recording the outcome. -/

theorem applyOutcome_runs {t : Task} {ended : HandlerEnd} {result : OperationResult}
    (ho : t.oid = f.oid) :
    Runs f (Handling.applyOutcome t ended result) (.acted h t) fun s r =>
      s = .concluded h t true r.status := by
  unfold Handling.applyOutcome Administration.recordResult
  rw [ho]
  cases ended with
  | error e => exact fun answer _ => ⟨_, .conclude, by cases answer <;> exact rfl⟩
  | ok outcome =>
      refine fun answer _ => ⟨_, .conclude, ?_⟩
      cases answer with
      | error e => exact rfl
      | ok current =>
          change Runs f (if current.isReady then _ else _) _ _
          split
          · split
            · refine (runs_of_best (Custody.close_errand _) (close_startsNone _)).bind ?_
              rintro _ ⟨⟩ rfl
              exact rfl
            · refine (runs_of_best (Custody.suspend_errand _) (suspend_startsNone _)).bind ?_
              rintro _ ⟨⟩ rfl
              exact rfl
            · exact rfl
          · exact rfl

theorem conclude_runs {ended : HandlerEnd} (ho : g.task.oid = f.oid) :
    Runs f (Firing.conclude g ended) (.acted g.handle g.task) fun s r =>
      s = .concluded g.handle g.task true r.1.result.status ∧ Same g r.1 ∧
        ∀ stop, r.2 ≠ .stopped stop := by
  refine (applyOutcome_runs ho).bind ?_
  rintro _ result rfl
  cases ended <;> exact ⟨rfl, ⟨rfl, rfl, rfl⟩, nofun⟩

theorem resolve_none_runs {t : Task} {result : OperationResult} (ho : t.oid = f.oid)
    (hh : f.node.handlers.resolve t.handlerRef = none) :
    Runs f (Handling.resolve f.node.handlers t result) (.taken h t) fun s r =>
      s = .concluded h t false r.2.status ∧ ∃ stop, r.1 = .error stop := by
  simp only [Handling.resolve, hh]
  unfold Administration.recordResult
  rw [ho]
  refine fun answer _ => ⟨_, .dismiss hh, ?_⟩
  cases answer <;>
  · refine (runs_of_best (Custody.close_errand _) (close_startsNone _)).bind ?_
    rintro _ _ rfl
    exact ⟨rfl, _, rfl⟩

/-- How a firing that has the outcome recorded may report. -/
def Fits : Bool → Firing.Ending → Prop
  | true, .ran | true, .failed _ | false, .stopped _ => True
  | _, _ => False

theorem runStarted_runs (ho : g.task.oid = f.oid) (hr : g.recovering = f.recovering) :
    Runs f (Firing.runStarted f.node g) (.taken g.handle g.task) fun s r =>
      Same g r.1 ∧ ∃ b, s = .concluded g.handle g.task b r.1.result.status ∧ Fits b r.2 := by
  unfold Firing.runStarted
  cases hh : f.node.handlers.resolve g.task.handlerRef with
  | none =>
      refine (resolve_none_runs ho hh).bind ?_
      rintro _ ⟨_, result⟩ ⟨rfl, stop, rfl⟩
      exact ⟨⟨rfl, rfl, rfl⟩, false, rfl, trivial⟩
  | some handler =>
      rw [Handling.resolve_of_some hh]
      change Runs f (Firing.runTaken f.node handler g >>= fun e => Firing.conclude e.1 e.2) _ _
      refine (runTaken_runs ho hr hh).bind ?_
      rintro _ ⟨g', ended⟩ ⟨rfl, same⟩
      rw [← same.handle, ← same.task]
      refine (conclude_runs (by rw [same.task, ho])).mono ?_
      rintro _ ⟨g'', ending⟩ ⟨rfl, same', fits⟩
      refine ⟨⟨same'.handle.trans same.handle, same'.task.trans same.task,
        same'.nodeSet.trans same.nodeSet⟩, true, rfl, ?_⟩
      cases ending with
      | ran | failed => trivial
      | stopped stop => exact absurd rfl (fits stop)

/-- What a firing comes back with: it did not get the task, or it has recorded an outcome. -/
inductive Back : Leg → Firing → Firing.Ending → Prop
  | left {g : Firing} {stop : Stop} : g.nodeSet = false → Back (.left g.handle) g (.stopped stop)
  | concluded {g : Firing} {b : Bool} {ending : Firing.Ending} : g.nodeSet = true →
      Fits b ending → Back (.concluded g.handle g.task b g.result.status) g ending

theorem runRegistered_runs (ho : g.task.oid = f.oid) (hr : g.recovering = f.recovering)
    (hn : g.nodeSet = false) :
    Runs f (Firing.runRegistered f.node g) (.abroad g.handle) fun s r =>
      Back s r.1 r.2 ∧ r.1.task.oid = f.oid := by
  refine (start_runs ho).bind ?_
  rintro s (stop | t) hs
  · obtain rfl : s = .left g.handle := hs
    exact ⟨.left hn, ho⟩
  · obtain ⟨rfl, ho⟩ := hs
    refine (runStarted_runs (g := { g with task := t, nodeSet := true }) ho hr).mono ?_
    rintro _ ⟨g', ending⟩ ⟨⟨hh, ht, hn⟩, b, rfl, fits⟩
    rw [← hh, ← ht]
    exact ⟨.concluded hn fits, by rw [ht, ho]⟩

/-! The end of a firing. -/

/-- Where a firing is that has let go of its task, or did not have it. -/
inductive Over : Leg → Firing → Firing.Ending → Prop
  | left {g : Firing} {stop : Stop} : Over (.left g.handle) g (.stopped stop)
  | told {g : Firing} {b : Bool} {ending : Firing.Ending} : Fits b ending →
      Over (.told g.handle g.task b g.result.status) g ending

theorem release_runs {ending : Firing.Ending} (ho : g.task.oid = f.oid) (hs : Back s g ending) :
    Runs f (Firing.release f.node g) s fun s _ => Over s g ending := by
  unfold Firing.release
  cases hs with
  | left hn =>
      rw [hn]
      exact .left
  | concluded hn fits =>
      rw [hn, ho]
      refine Follows.ask fun _ _ => ⟨_, .tell, ?_⟩
      refine (runs_of_spawnAll _).bind ?_
      rintro _ ⟨⟩ rfl
      refine (runs_of_errand (Custody.settle_errand _) ?_).mono ?_
      · exact settleWithin_only trivial (settlingDelta_startsNone _) 1
      · rintro _ _ rfl
        exact .told fits

theorem obeyStop_runs : Runs f (Firing.obeyStop g) s fun s' _ => s' = s := by
  refine Follows.ask fun canRun _ => ⟨s, .rest trivial, ?_⟩
  cases canRun with
  | true => exact rfl
  | false => exact runs_of_errand (Custody.applyStopAction_errand _) (applyStopAction_startsNone _)

theorem collectLate_runs {ending : Firing.Ending} (ho : g.task.oid = f.oid)
    (hs : Over s g ending) :
    Runs f (Firing.collectLate g) s fun s g' => Over s g' ending ∧ g'.task.oid = f.oid := by
  have kept {g' : Firing} (same : Same g g') (hr : g'.result.status = g.result.status) :
      Over s g' ending ∧ g'.task.oid = f.oid := by
    refine ⟨?_, by rw [same.task, ho]⟩
    cases hs with
    | left =>
        rw [← same.handle]
        exact .left
    | told fits =>
        rw [← same.handle, ← same.task, ← hr]
        exact .told fits
  refine collectChildren_runs.bind ?_
  rintro _ ⟨g', closed⟩ ⟨rfl, same, hr⟩
  dsimp only
  have kept := kept same hr
  split
  · exact kept
  · unfold Administration.recordResult
    rw [kept.2]
    obtain ⟨hover, ho⟩ := kept
    intro answer _
    cases hover with
    | left => exact ⟨_, .stray, by cases answer <;> exact ⟨.left, ho⟩⟩
    | told fits => exact ⟨_, .amend, by cases answer <;> exact ⟨.told fits, ho⟩⟩

theorem report_allowed {ending : Firing.Ending} (ho : g.task.oid = f.oid)
    (hs : Over s g ending) : s.Allows f.oid (g.report ending) := by
  cases hs with
  | left => exact .left _
  | @told _ b _ fits =>
      rw [← ho]
      cases b with
      | true =>
          cases ending with
          | ran => exact .completed
          | failed e => exact .failed e
          | stopped stop => cases fits
      | false =>
          cases ending with
          | ran | failed => cases fits
          | stopped stop => exact .dismissed stop

theorem finish_runs {ending : Firing.Ending} (ho : g.task.oid = f.oid) (hs : Back s g ending) :
    Runs f (Firing.finish f.node g ending) s fun s r => s.Allows f.oid r := by
  have clean : Runs f (Firing.cleanUp f.node g) s fun s g' =>
      Over s g' ending ∧ g'.task.oid = f.oid := by
    refine Follows.ask fun _ _ => ⟨_, .rest trivial, ?_⟩
    refine (release_runs ho hs).bind ?_
    rintro s ⟨⟩ hover
    refine obeyStop_runs.bind ?_
    rintro _ ⟨⟩ rfl
    exact collectLate_runs ho hover
  refine clean.bind ?_
  rintro s g' ⟨hover, ho⟩
  exact Follows.ask fun _ _ => ⟨_, .rest trivial, report_allowed ho hover⟩

theorem runPrepared_runs (ho : g.task.oid = f.oid) (hr : g.recovering = f.recovering)
    (hn : g.nodeSet = false) :
    Runs f (Firing.runPrepared f.node g) (.equipped g.handle) fun s r => s.Allows f.oid r := by
  unfold Firing.runPrepared
  refine (runs_of_errand (Custody.guard_errand _ _) (guard_startsNone _ _)).bind ?_
  rintro _ (stop | ⟨⟩) rfl
  · exact .equipped stop
  refine Follows.ask fun registered _ => ?_
  cases registered with
  | false => exact ⟨_, .refused, .equipped _⟩
  | true =>
      refine ⟨_, .enter, ?_⟩
      have run : Runs f ((Firing.runRegistered f.node g).bind fun e =>
          Firing.finish f.node e.1 e.2) (.abroad g.handle) fun s r => s.Allows f.oid r := by
        refine (runRegistered_runs ho hr hn).bind ?_
        rintro s e ⟨back, ho⟩
        exact finish_runs ho back
      refine Follows.ask fun shutDown _ => ?_
      cases shutDown with
      | false => exact ⟨_, .pass, run⟩
      | true =>
          refine ⟨_, .heed, interrupt_runs.bind ?_⟩
          rintro _ ⟨⟩ rfl
          exact run

end

end Itinerary

theorem Occasion.program_runs (f : Occasion) :
    Itinerary.Runs f f.program .outset fun s r => s.Allows f.oid r := by
  unfold Occasion.program Node.fire
  refine Itinerary.prepare_runs.bind ?_
  rintro s (stop | g) hs
  · obtain rfl : s = .outset := hs
    exact .outset stop
  · obtain ⟨rfl, ho, hr, hn⟩ := hs
    exact Itinerary.runPrepared_runs ho hr hn

/-! The deeds of a firing on its way. -/

namespace Itinerary

/-- A deed takes a firing from a leg to a leg. -/
abbrev Passes (f : Occasion) : Leg → Deed → Leg → Prop := Protocol.Passes (Move f)

/-- The deeds lead to that leg. -/
abbrev Path (f : Occasion) (ds : List Deed) (s : Leg) : Prop := Run (Passes f) .outset ds s

theorem fair_of_answers {w w' : World} {place : Place} {r : Call} {a : r.Response}
    (ha : w.Answers place r a w') : Fair r a := by
  cases r with
  | collect h result closed batch =>
      cases ha with
      | performed hp => cases hp
      | gathered _ => exact rfl
  | _ => exact ha.fair

section

variable {f : Occasion} {α : Type} {place : Place} {p p' : Action α} {w w' : World} {d : Deed}
  {s s' : Leg} {Q : Leg → α → Prop} {h : HandleId} {ds : List Deed}

/-- A firing goes from leg to leg by what it does. -/
theorem turn (hp : Runs f p s Q) (ht : p.Turn place w d p' w') :
    ∃ s', Passes f s d s' ∧ Runs f p' s' Q := by
  cases ht with
  | answered ha =>
      obtain ⟨s', hm, hn⟩ := hp _ (fair_of_answers ha)
      exact ⟨s', .answered hm, hn⟩
  | @gathered h result result' _ _ _ _ _ _ _ hg =>
      have status : result'.status = result.status := by cases hg <;> rfl
      refine ⟨s, .gathered, fun answer fair => ?_⟩
      obtain ⟨s', hm, hn⟩ := hp answer (Eq.trans fair status)
      cases hm with
      | rest _ => exact ⟨s, .rest trivial, hn⟩

theorem handle?_of_passes (hd : Passes f s d s') (hh : s.handle? = some h) :
    s'.handle? = some h := by
  cases hd with
  | gathered => exact hh
  | answered hm =>
      cases hm with
      | equip => cases hh
      | _ => exact hh

theorem made?_of_passes (hd : Passes f s d s') :
    s.handle?.or (Custody.made? d) = s'.handle? := by
  cases hd with
  | gathered => exact Option.or_none
  | @answered _ r _ hm =>
      cases hm with
      | rest hr =>
          cases r with
          | newHandle => cases hr
          | _ => exact Option.or_none
      | _ => rfl

/-- The handle on which a firing makes its calls is the one that was made for it. -/
theorem handleOf_of_path (hp : Path f ds s) : Custody.handleOf ds = s.handle? := by
  induction hp with
  | nil => rfl
  | snoc _ hd ih => rw [Custody.handleOf_snoc, ih, made?_of_passes hd]

/-- A firing registers that handle. -/
theorem handle_of_registers (hp : Path f ds s) (hr : .answered (.register h) true ∈ ds) :
    s.handle? = some h := by
  induction hp with
  | nil => cases hr
  | snoc _ hd ih =>
      rcases List.mem_append.mp hr with hr | hr
      · exact handle?_of_passes hd (ih hr)
      · cases List.mem_singleton.mp hr
        cases hd with
        | answered hm =>
            cases hm with
            | rest hr => cases hr
            | enter => rfl

/-- Who has taken a task has done so by a write. -/
theorem taking_of_path {t : Task} (hp : Path f ds s) (ht : s.task? = some t) :
    ∃ v, Milestones.taking f v t ∈ ds := by
  induction hp with
  | nil => cases ht
  | @snoc s₁ _ ds d _ step ih =>
      have before (ht : s₁.task? = some t) : ∃ v, Milestones.taking f v t ∈ ds ++ [d] :=
        (ih ht).imp fun _ => List.mem_append_left _
      cases step with
      | gathered => exact before ht
      | answered hm =>
          cases hm with
          | @take _ v =>
              cases ht
              exact ⟨v, by simp⟩
          | notTaken | equip | enter | pass | heed | yield | doom | strike => cases ht
          | _ => exact before ht

theorem task?_of_passes {t : Task} (hd : Passes f s d s') (ht : s.task? = some t) :
    s'.task? = some t := by
  cases hd with
  | gathered => exact ht
  | answered hm =>
      cases hm with
      | equip | enter | pass | heed | yield | doom | strike | take | notTaken => cases ht
      | _ => exact ht

/-- It does so once. -/
theorem task?_of_taking {v : UInt64} {t : Task} (hp : Path f ds s)
    (hd : Milestones.taking f v t ∈ ds) : s.task? = some t := by
  induction hp with
  | nil => cases hd
  | snoc _ step ih =>
      rcases List.mem_append.mp hd with hd | hd
      · exact task?_of_passes step (ih hd)
      · cases List.mem_singleton.mp hd
        cases step with
        | answered hm =>
            cases hm with
            | rest hr => exact absurd rfl (hr.2 _)
            | take => rfl

theorem task?_of_cleared (hp : Path f ds s) (hc : .answered .clearIdentity () ∈ ds) :
    ∃ t, s.task? = some t := by
  induction hp with
  | nil => cases hc
  | snoc _ step ih =>
      rcases List.mem_append.mp hc with hc | hc
      · exact (ih hc).imp fun _ => task?_of_passes step
      · cases List.mem_singleton.mp hc
        cases step with
        | answered hm =>
            cases hm with
            | rest hr => cases hr
            | clear => exact ⟨_, rfl⟩

/-- The deed leaves the scope of the handler. -/
def clears : Deed → Bool
  | .answered .clearIdentity _ => true
  | _ => false

theorem cleared_of_any (h : ds.any clears) : .answered .clearIdentity () ∈ ds := by
  obtain ⟨d, hd, hc⟩ := List.any_eq_true.mp h
  unfold clears at hc
  split at hc
  · exact hd
  · cases hc

/-- A firing takes its task before the scope begins in which the handler runs. -/
theorem not_cleared_of_taking {v : UInt64} {t : Task}
    (hp : Path f (ds ++ [Milestones.taking f v t]) s) : .answered .clearIdentity () ∉ ds := by
  intro hc
  obtain ⟨s₁, path, step⟩ := hp.last
  obtain ⟨t', taken⟩ := task?_of_cleared path hc
  cases step with
  | answered hm =>
      cases hm with
      | rest hr => exact hr.2 _ rfl
      | take => cases taken

end

section

variable {ι : Type} [DecidableEq ι] {crew : ι → Occasion} {outside : World → World → Prop}
  {w : World} {c : Scene ι} {es : List (Event ι)}

/-- In a run, each firing is on its way. -/
theorem path_of_run (hr : Run (Scene.Step crew outside) (.begin crew w) es c) (i : ι) :
    ∃ s, Path (crew i) (deedsOf i es) s ∧
      Runs (crew i) (c.program i) s fun s r => s.Allows (crew i).oid r := by
  induction hr with
  | nil => exact ⟨.outset, .nil, (crew i).program_runs⟩
  | snoc _ he ih =>
      obtain ⟨s, path, runs⟩ := ih
      cases he with
      | outside _ => exact ⟨s, by simpa using path, runs⟩
      | @deed j d _ _ ht =>
          by_cases hj : j = i
          · subst hj
            obtain ⟨s', hd, runs⟩ := turn runs ht
            exact ⟨s', by simpa using path.snoc hd, by simpa using runs⟩
          · exact ⟨s, by simpa [hj] using path, by simpa [Ne.symm hj] using runs⟩

end

end Itinerary
end TaskFiring
