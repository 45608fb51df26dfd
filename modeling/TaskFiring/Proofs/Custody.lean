import TaskFiring.Proofs.Passage
import TaskFiring.Proofs.Starting

/-!
Whose handle is whose. Until it is admitted a firing has no handle and asks for nothing that
takes one; then one is made for it, and from there on it makes its calls on that handle and
on no other. So a handle is in the custody of the firing that it was made for, whatever the
other firings do.
-/

namespace TaskFiring

namespace Call

/-- The handle that a call is made on. -/
def handle? : Call → Option HandleId
  | .canRun h | .clearCanRun h | .cancelChildren h _ | .isSafe h | .setSafe h _
  | .setExecuting h _ | .interruptHandler h | .isInterrupted h | .spawn h _
  | .collect h _ _ _ | .register h | .deregister h | .handler h _ _ => some h
  | _ => none

/-- A call as to that task, without a handle and without a result to record. -/
def IsErrand (oid : TaskOid) : Call → Prop
  | .get oid' | .unschedule oid' | .deleteJob oid' | .rescheduleLater oid' _
  | .scheduleNow oid' | .nextFireTime oid' => oid' = oid
  | .modify oid' d _ => oid' = oid ∧ d.result = none
  | .now | .schedulerRunning => True
  | _ => False

/-- A call without a handle, and without a result to record, that makes no handle either. -/
def IsBare : Call → Prop
  | .modify _ d _ => d.result = none
  | .newHandle _ => False
  | r => r.handle? = none

/-- A call on that handle, if it is made on one, that makes no other. -/
def KeepsTo (h : HandleId) : Call → Prop
  | .newHandle _ => False
  | r => ∀ h', r.handle? = some h' → h' = h

theorem IsErrand.bare {oid : TaskOid} {r : Call} (h : r.IsErrand oid) : r.IsBare := by
  cases r with
  | modify => exact h.2
  | get | unschedule | deleteJob | rescheduleLater | scheduleNow | nextFireTime | now
  | schedulerRunning => rfl
  | _ => cases h

theorem IsInquiry.bare {r : Call} (h : r.IsInquiry) : r.IsBare := by
  cases r with
  | get | countRunning | nextFireTime | now | rescheduleLater => rfl
  | _ => cases h

theorem IsBare.keepsTo {r : Call} (hr : r.IsBare) (h : HandleId) : r.KeepsTo h := by
  cases r with
  | modify => exact nofun
  | newHandle => cases hr
  | _ => exact fun h' hh => nomatch (hr : handle? _ = none).symm.trans hh

end Call

namespace Custody

open Program (Only Follows)

section

variable {α : Type} {kind : Call → Prop} {oid : TaskOid} {t : Task}

theorem bestEffort_only {x : Attempt α} (hx : x.run.Only kind) :
    (Administration.bestEffort x).Only kind :=
  Only.bind hx fun _ => trivial

/-! The parts that run errands for their task. -/

theorem close_errand (oid : TaskOid) :
    (Administration.close oid).run.Only (Call.IsErrand oid) := by
  refine Only.attempt ⟨rfl, fun _ => trivial⟩ fun current => ?_
  refine Only.lift ⟨trivial, fun _ => trivial⟩ fun now => ?_
  refine Only.attempt ⟨⟨rfl, rfl⟩, fun _ => trivial⟩ fun _ => ?_
  exact Only.attempt ⟨rfl, fun _ => trivial⟩ fun _ => trivial

theorem suspend_errand (oid : TaskOid) :
    (Administration.suspend oid).run.Only (Call.IsErrand oid) := by
  refine Only.attempt ⟨rfl, fun _ => trivial⟩ fun current => ?_
  refine Only.attempt ⟨⟨rfl, rfl⟩, fun _ => trivial⟩ fun _ => ?_
  exact Only.attempt ⟨rfl, fun _ => trivial⟩ fun _ => trivial

theorem scheduleNow_errand (oid : TaskOid) :
    (Administration.scheduleNow oid).run.Only (Call.IsErrand oid) :=
  Only.attempt ⟨⟨rfl, rfl⟩, fun _ => trivial⟩ fun _ => ⟨rfl, fun _ => trivial⟩

theorem applyStopAction_errand (oid : TaskOid) :
    (Administration.applyStopAction oid).Only (Call.IsErrand oid) := by
  refine Only.bind ⟨rfl, fun _ => trivial⟩ fun answer => ?_
  cases answer with
  | error e => trivial
  | ok t =>
      dsimp only
      split
      · trivial
      · split
        · trivial
        · exact bestEffort_only (close_errand oid)
        · exact bestEffort_only (suspend_errand oid)
        · exact bestEffort_only (scheduleNow_errand oid)
        · exact bestEffort_only (scheduleNow_errand oid)
        · trivial

theorem ensureReady_errand (t : Task) :
    (Preparation.ensureReady t).run.Only (Call.IsErrand t.oid) := by
  unfold Preparation.ensureReady
  split
  · trivial
  · exact Only.attempt ⟨rfl, fun _ => trivial⟩ fun _ => trivial

theorem ensureSchedulerRunning_errand (t : Task) :
    (Preparation.ensureSchedulerRunning t).run.Only (Call.IsErrand t.oid) := by
  refine Only.lift ⟨trivial, fun _ => trivial⟩ fun running => ?_
  cases running with
  | true => trivial
  | false => exact Only.lift (applyStopAction_errand t.oid) fun _ => trivial

theorem applyRecoveryPolicy_errand (t : Task) (recovering : Bool) :
    (Preparation.applyRecoveryPolicy t recovering).run.Only (Call.IsErrand t.oid) := by
  unfold Preparation.applyRecoveryPolicy
  split
  · trivial
  · split
    · trivial
    · exact Only.lift (bestEffort_only (close_errand _)) fun _ => trivial
    · exact Only.lift (bestEffort_only (suspend_errand _)) fun _ => trivial
    · trivial
    · trivial
    · trivial

theorem guard_errand (enabled : Bool) (t : Task) :
    (Possession.guard enabled t).run.Only (Call.IsErrand t.oid) := by
  unfold Possession.guard
  cases enabled with
  | false => trivial
  | true =>
      refine Only.lift ⟨rfl, fun _ => trivial⟩ fun answer => ?_
      split
      · trivial
      · trivial
      · split <;> trivial

theorem lostRace_errand (t : Task) (e : StoreError) :
    (Possession.lostRace t e).Only (Call.IsErrand t.oid) := by
  refine Only.bind ⟨rfl, fun _ => trivial⟩ fun answer => ?_
  cases answer with
  | error e => trivial
  | ok fresh =>
      dsimp only
      split <;> trivial

theorem start_errand (t : Task) (node : NodeId) :
    (Possession.start t node).run.Only (Call.IsErrand t.oid) := by
  refine Only.lift ⟨⟨rfl, rfl⟩, fun _ => trivial⟩ fun answer => ?_
  split
  · trivial
  · exact Only.lift (lostRace_errand _ _) fun _ => trivial
  · trivial
  · trivial

theorem settle_errand (oid : TaskOid) : (Possession.settle oid).Only (Call.IsErrand oid) := by
  refine Starting.settleWithin_only ?_ (fun _ _ => ?_) 1
  · exact rfl
  · exact ⟨rfl, rfl⟩

end

/-! Up to admission a firing needs no handle. -/

section

variable {α : Type} {p : Action α} {oid : TaskOid}

theorem bare_of_errand (hp : p.Only (Call.IsErrand oid)) : p.Only Call.IsBare :=
  hp.mono fun _ => Call.IsErrand.bare

theorem bare_of_inquiry (hp : p.Only Call.IsInquiry) : p.Only Call.IsBare :=
  hp.mono fun _ => Call.IsInquiry.bare

theorem load_bare (oid : TaskOid) : (Preparation.load oid).run.Only Call.IsBare := by
  refine Only.lift ⟨rfl, fun _ => trivial⟩ fun answer => ?_
  split
  · exact Only.lift ⟨rfl, fun _ => trivial⟩ fun _ => trivial
  · trivial
  · exact Only.attempt (bare_of_inquiry (Course.ancestor_inquires _ _ _ _ _)) fun _ => trivial

theorem repair_bare (here : NodeId) (t : Task) (recovering : Bool) :
    (Preparation.repair here t recovering).run.Only Call.IsBare := by
  refine Only.lift ⟨rfl, fun _ => trivial⟩ fun found => ?_
  split
  · trivial
  · refine Only.lift ⟨rfl, fun _ => trivial⟩ fun answer => ?_
    split <;> trivial

end

/-- The handle of a firing, once there is one, and the calls that it may then make. -/
inductive Move : Protocol Calls (Option HandleId)
  | make {oid : TaskOid} {h : HandleId} : Move none (.newHandle oid) h (some h)
  | bare {s : Option HandleId} {r : Call} {a : r.Response} : r.IsBare → Move s r a s
  | keep {h : HandleId} {r : Call} {a : r.Response} : r.KeepsTo h → Move (some h) r a (some h)

/-- A part of a firing, whatever it is answered. -/
abbrev Runs {α : Type} (p : Action α) (s : Option HandleId) (Q : Option HandleId → α → Prop) :
    Prop :=
  p.Follows (fun _ _ => True) Move s Q

section

variable {α : Type} {p : Action α} {s : Option HandleId} {h : HandleId} {node : Node}
  {g : Firing}

theorem runs_of_bare (hp : p.Only Call.IsBare) : Runs p s fun s' _ => s' = s :=
  hp.follows fun _ _ => .bare

theorem runs_of_keepsTo (hp : p.Only (Call.KeepsTo h)) :
    Runs p (some h) fun s _ => s = some h :=
  hp.follows fun _ _ => .keep

theorem keepsTo_of_bare (hp : p.Only Call.IsBare) : p.Only (Call.KeepsTo h) :=
  hp.mono fun _ hr => hr.keepsTo h

theorem keepsTo_of_errand {oid : TaskOid} (hp : p.Only (Call.IsErrand oid)) :
    p.Only (Call.KeepsTo h) :=
  keepsTo_of_bare (bare_of_errand hp)

/-- A call on the handle itself is no call on another one. -/
theorem keepsTo_self {r : Call} (hh : r.handle? = some h) : r.KeepsTo h := by
  cases r with
  | newHandle oid => cases hh
  | _ => exact fun h' hh' => Option.some.inj (hh'.symm.trans hh)

theorem prepare_runs (node : Node) (oid : TaskOid) (recovering : Bool) :
    Runs (Firing.prepare node oid recovering).run none fun s r =>
      ∀ g, r = .ok g → s = some g.handle := by
  have attempt {α : Type} {x : Step α} {k : α → Step Firing} (hx : x.run.Only Call.IsBare)
      (hk : ∀ a, Runs (k a).run none fun s r => ∀ g, r = .ok g → s = some g.handle) :
      Runs (x >>= k).run none fun s r => ∀ g, r = .ok g → s = some g.handle := by
    refine Follows.attempt (runs_of_bare hx) ?_ fun _ _ _ _ h => nomatch h
    rintro _ a rfl
    exact hk a
  unfold Firing.prepare
  refine attempt (load_bare oid) fun snapshot => ?_
  refine attempt (bare_of_errand (ensureReady_errand _)) fun _ => ?_
  refine attempt (repair_bare _ _ _) fun t => ?_
  refine attempt (bare_of_errand (ensureSchedulerRunning_errand t)) fun _ => ?_
  refine attempt (bare_of_errand (applyRecoveryPolicy_errand t recovering)) fun _ => ?_
  refine attempt (bare_of_inquiry (Course.enforce_inquires _ _ _)) fun _ => ?_
  refine Follows.query fun h _ => ⟨some h, .make, ?_⟩
  rintro g ⟨⟩
  rfl

theorem interrupt_keepsTo (policy : InterruptPolicy) (h : HandleId) :
    (Interruption.interrupt policy h).Only (Call.KeepsTo h) :=
  Course.interrupt_only (keepsTo_self rfl) (fun _ => keepsTo_self rfl) (keepsTo_self rfl)
    (keepsTo_self rfl) policy

theorem spawnAll_keepsTo (h : HandleId) (cs : List ChildSpec) :
    (Firing.spawnAll h cs).Only (Call.KeepsTo h) :=
  Course.spawnAll_only (fun _ => keepsTo_self rfl) cs

theorem guarded_keepsTo (h : HandleId) (oid : TaskOid) (work : HandlerWork) :
    (Handling.guarded h oid work).Only (Call.KeepsTo h) := by
  induction work with
  | done r => trivial
  | ask r next ih =>
      unfold Handling.guarded
      refine ⟨keepsTo_self rfl, fun answer => ?_⟩
      cases answer with
      | some a => exact ih a
      | none => trivial

theorem run_keepsTo (handler : Handler) (h : HandleId) (context : RunContext) :
    (Handling.run handler h context).Only (Call.KeepsTo h) := by
  refine Only.bind ⟨keepsTo_self rfl, fun _ => trivial⟩ fun interrupted => ?_
  cases interrupted with
  | true => trivial
  | false => exact guarded_keepsTo _ _ _

theorem runHandler_keepsTo (handler : Handler) (g : Firing) :
    (Firing.runHandler handler g).Only (Call.KeepsTo g.handle) := by
  refine Only.bind ⟨nofun, fun _ => trivial⟩ fun _ => ?_
  refine Only.bind ⟨keepsTo_self rfl, fun _ => trivial⟩ fun _ => ?_
  refine Only.bind (run_keepsTo _ _ _) fun ended => ?_
  refine Only.bind ⟨keepsTo_self rfl, fun _ => trivial⟩ fun _ => ?_
  exact Only.bind ⟨nofun, fun _ => trivial⟩ fun _ => trivial

theorem recordResult_keepsTo (oid : TaskOid) (result : OperationResult) :
    (Administration.recordResult oid result).run.Only (Call.KeepsTo h) :=
  ⟨nofun, fun _ => trivial⟩

theorem applyOutcome_keepsTo (t : Task) (ended : HandlerEnd) (result : OperationResult) :
    (Handling.applyOutcome t ended result).Only (Call.KeepsTo h) := by
  cases ended with
  | error e => exact Only.bind (bestEffort_only (recordResult_keepsTo _ _)) fun _ => trivial
  | ok outcome =>
      refine Only.bind (recordResult_keepsTo _ _) fun answer => ?_
      cases answer with
      | error e => trivial
      | ok current =>
          dsimp only
          split
          · split
            · exact Only.bind (bestEffort_only (keepsTo_of_errand (close_errand _)))
                fun _ => trivial
            · exact Only.bind (bestEffort_only (keepsTo_of_errand (suspend_errand _)))
                fun _ => trivial
            · trivial
          · trivial

theorem resolve_keepsTo (handlers : Handlers) (t : Task) (result : OperationResult) :
    (Handling.resolve handlers t result).Only (Call.KeepsTo h) := by
  cases hh : handlers.resolve t.handlerRef with
  | some handler =>
      rw [Handling.resolve_of_some hh]
      trivial
  | none =>
      simp only [Handling.resolve, hh]
      refine Only.bind (bestEffort_only (recordResult_keepsTo _ _)) fun _ => ?_
      exact Only.bind (bestEffort_only (keepsTo_of_errand (close_errand _))) fun _ => trivial

/-! A registered firing goes on under its handle. -/

theorem collectChildren_runs (g : Firing) :
    Runs (Firing.collectChildren g) (some g.handle) fun s r =>
      s = some g.handle ∧ r.1.handle = g.handle :=
  fun _ _ => ⟨_, .keep (keepsTo_self rfl), rfl, rfl⟩

theorem runTaken_runs (node : Node) (handler : Handler) (g : Firing) :
    Runs (Firing.runTaken node handler g) (some g.handle) fun s r =>
      s = some g.handle ∧ r.1.handle = g.handle := by
  unfold Firing.runTaken
  refine Follows.ask fun _ _ => ⟨_, .keep (keepsTo_self rfl), ?_⟩
  refine Follows.ask fun _ _ => ⟨_, .bare rfl, ?_⟩
  refine (runs_of_keepsTo (spawnAll_keepsTo _ _)).bind ?_
  rintro _ ⟨⟩ rfl
  refine (runs_of_keepsTo (runHandler_keepsTo handler g)).bind ?_
  rintro _ ended rfl
  exact (collectChildren_runs g).bind fun _ _ h => h

theorem conclude_runs (g : Firing) (ended : HandlerEnd) :
    Runs (Firing.conclude g ended) (some g.handle) fun s r =>
      s = some g.handle ∧ r.1.handle = g.handle := by
  refine (runs_of_keepsTo (applyOutcome_keepsTo _ _ _)).bind ?_
  rintro _ result rfl
  cases ended <;> exact ⟨rfl, rfl⟩

theorem runStarted_runs (node : Node) (g : Firing) :
    Runs (Firing.runStarted node g) (some g.handle) fun s r =>
      s = some g.handle ∧ r.1.handle = g.handle := by
  refine (runs_of_keepsTo (resolve_keepsTo _ _ _)).bind ?_
  rintro _ ⟨resolved, result⟩ rfl
  cases resolved with
  | error stop => exact ⟨rfl, rfl⟩
  | ok handler =>
      refine (runTaken_runs node handler { g with result }).bind ?_
      rintro _ ⟨g', ended⟩ ⟨rfl, hg⟩
      rw [← hg]
      exact conclude_runs g' ended

theorem runRegistered_runs (node : Node) (g : Firing) :
    Runs (Firing.runRegistered node g) (some g.handle) fun s r =>
      s = some g.handle ∧ r.1.handle = g.handle := by
  refine (runs_of_keepsTo (keepsTo_of_errand (start_errand _ _))).bind ?_
  rintro _ started rfl
  cases started with
  | error stop => exact ⟨rfl, rfl⟩
  | ok task => exact runStarted_runs node { g with task, nodeSet := true }

theorem release_keepsTo (node : Node) (g : Firing) :
    (Firing.release node g).Only (Call.KeepsTo g.handle) := by
  unfold Firing.release
  split
  · refine Only.bind ⟨nofun, fun _ => trivial⟩ fun _ => ?_
    refine Only.bind (spawnAll_keepsTo _ _) fun _ => ?_
    exact keepsTo_of_errand (settle_errand _)
  · trivial

theorem obeyStop_keepsTo (g : Firing) : (Firing.obeyStop g).Only (Call.KeepsTo g.handle) := by
  refine Only.bind ⟨keepsTo_self rfl, fun _ => trivial⟩ fun canRun => ?_
  cases canRun with
  | true => trivial
  | false => exact keepsTo_of_errand (applyStopAction_errand _)

theorem collectLate_runs (g : Firing) :
    Runs (Firing.collectLate g) (some g.handle) fun s g' =>
      s = some g.handle ∧ g'.handle = g.handle := by
  refine (collectChildren_runs g).bind ?_
  rintro _ ⟨g', closed⟩ ⟨rfl, hg⟩
  dsimp only
  split
  · exact ⟨rfl, hg⟩
  · refine (runs_of_keepsTo (bestEffort_only (recordResult_keepsTo _ _))).bind ?_
    rintro _ ⟨⟩ rfl
    exact ⟨rfl, hg⟩

theorem finish_runs (node : Node) (g : Firing) (ending : Firing.Ending) :
    Runs (Firing.finish node g ending) (some g.handle) fun _ _ => True := by
  have clean : Runs (Firing.cleanUp node g) (some g.handle) fun s g' =>
      s = some g.handle ∧ g'.handle = g.handle := by
    refine Follows.ask fun _ _ => ⟨_, .keep (keepsTo_self rfl), ?_⟩
    refine (runs_of_keepsTo (release_keepsTo node g)).bind ?_
    rintro _ ⟨⟩ rfl
    refine (runs_of_keepsTo (obeyStop_keepsTo g)).bind ?_
    rintro _ ⟨⟩ rfl
    exact collectLate_runs g
  refine clean.bind ?_
  rintro _ g' ⟨rfl, hg⟩
  rw [← hg]
  exact Follows.ask fun _ _ => ⟨_, .keep (keepsTo_self rfl), trivial⟩

theorem runPrepared_runs (node : Node) (g : Firing) :
    Runs (Firing.runPrepared node g) (some g.handle) fun _ _ => True := by
  unfold Firing.runPrepared
  refine (runs_of_keepsTo (keepsTo_of_errand (guard_errand _ _))).bind ?_
  rintro _ (stop | ⟨⟩) rfl
  · trivial
  refine Follows.ask fun registered _ => ⟨_, .keep (keepsTo_self rfl), ?_⟩
  cases registered with
  | false => trivial
  | true =>
      have run : Runs ((Firing.runRegistered node g).bind fun e => Firing.finish node e.1 e.2)
          (some g.handle) fun _ _ => True := by
        refine (runRegistered_runs node g).bind ?_
        rintro _ e ⟨rfl, hg⟩
        rw [← hg]
        exact finish_runs _ _ _
      refine Follows.ask fun shutDown _ => ⟨_, .bare rfl, ?_⟩
      cases shutDown with
      | false => exact run
      | true =>
          refine (runs_of_keepsTo (interrupt_keepsTo _ _)).bind ?_
          rintro _ ⟨⟩ rfl
          exact run

/-- A firing makes its calls on the handle that was made for it. -/
theorem program_runs (f : Occasion) : Runs f.program none fun _ _ => True := by
  unfold Occasion.program Node.fire
  refine (prepare_runs _ _ _).bind ?_
  intro s prepared hp
  cases prepared with
  | error stop => trivial
  | ok g =>
      obtain rfl := hp g rfl
      exact runPrepared_runs _ _

end

end Custody

/-! What that means for the handles there are. -/

namespace World

section

variable {w w' : World} {place : Place} {h k : HandleId}

/-- A handle that was there stays what it is. -/
structure LeavesHandle (k : HandleId) (w w' : World) : Prop where
  length : w.handles.length ≤ w'.handles.length
  handle : k.index < w.handles.length → w'.handle? k = w.handle? k

theorem leavesHandle_of_handles (hw : w'.handles = w.handles) : w.LeavesHandle k w' :=
  ⟨Nat.le_of_eq (by rw [hw]), fun _ => by rw [handle?, hw]; rfl⟩

theorem leavesHandle_of_modify {f : Handle → Handle} (hw : w'.handles = w.handles.modify h.index f)
    (hk : h ≠ k) : w.LeavesHandle k w' := by
  refine ⟨Nat.le_of_eq (by simp [hw]), fun _ => ?_⟩
  have hne : h.index ≠ k.index := fun e => hk (congrArg HandleId.mk e)
  simp [handle?, hw, hne]

theorem register_handles {b : Bool} (hw : w.register place h = (b, w')) :
    w'.handles = w.handles := by
  obtain ⟨_, rfl, -⟩ := onlyRegisters_register hw
  rfl

theorem deregister_handles {b : Bool} (hw : w.deregister place h = (b, w')) :
    w'.handles = w.handles := by
  obtain ⟨_, rfl, -⟩ := onlyRegisters_deregister hw
  rfl

/-- A call leaves all handles alone on which it is not made. -/
theorem Answers.leavesHandle {r : Call} {a : r.Response} (ha : w.Answers place r a w')
    (hk : r.handle? ≠ some k) : w.LeavesHandle k w' := by
  cases ha with
  | gathered _ | cut _ => exact leavesHandle_of_handles rfl
  | performed hp =>
      cases r with
      | collect => cases hp
      | newHandle oid =>
          cases hp
          refine ⟨by simp, fun hlt => ?_⟩
          simp [handle?, List.getElem?_append_left hlt]
      | clearCanRun h | setSafe h | setExecuting h | interruptHandler h | cancelChildren h =>
          cases hp
          exact leavesHandle_of_modify rfl fun e => hk (congrArg some e)
      | spawn h spec =>
          cases hp
          exact leavesHandle_of_modify rfl fun e => hk (congrArg some e)
      | register h => exact leavesHandle_of_handles (register_handles (Option.some.inj hp))
      | deregister h => exact leavesHandle_of_handles (deregister_handles (Option.some.inj hp))
      | handler h oid call =>
          obtain ⟨⟨b, w₁⟩, hb, hp⟩ := Option.map_eq_some_iff.mp hp
          obtain ⟨rfl, rfl⟩ := Prod.mk.inj hp
          cases call with
          | spawn spec =>
              cases hb
              exact leavesHandle_of_modify rfl fun e => hk (congrArg some e)
          | wait _ | awaitInterrupt =>
              simp only [performHandler, Option.ite_none_right_eq_some, Option.some.injEq,
                Prod.mk.injEq] at hb
              obtain ⟨-, -, rfl⟩ := hb
              exact leavesHandle_of_handles rfl
          | disturb d =>
              cases hb
              cases d <;> exact leavesHandle_of_handles rfl
          | canRun | identity | write | switchToWaiting =>
              cases hb
              exact leavesHandle_of_handles rfl
      | _ =>
          cases hp
          exact leavesHandle_of_handles rfl

theorem Gathers.leavesHandle {result result' : OperationResult} {closed closed' : Nat}
    {batch batch' : List Nat}
    (hg : w.Gathers h result closed batch result' closed' batch' w') (hk : h ≠ k) :
    w.LeavesHandle k w' := by
  obtain ⟨f, -, rfl⟩ := hg.onHandle
  exact leavesHandle_of_modify rfl hk

end

end World

namespace Custody

section

variable {α : Type} {place : Place} {p p' : Action α} {w w' : World} {d : Deed}
  {s : Option HandleId} {Q : Option HandleId → α → Prop}

/-- The handle that is made in a deed. -/
def made? : Deed → Option HandleId
  | .answered (.newHandle _) h => some h
  | _ => none

/-- A firing spares all handles but its own. One that is made for it is none of those that
were there. -/
theorem turn (hp : Runs p s Q) (ht : p.Turn place w d p' w') :
    Runs p' (s.or (made? d)) Q ∧ (∀ k, s ≠ some k → w.LeavesHandle k w') ∧
      ∀ h, made? d = some h → s = none ∧ h.index = w.handles.length ∧
        h.index < w'.handles.length := by
  cases ht with
  | @answered r next _ _ a ha =>
      obtain ⟨s', hm, hn⟩ := hp a trivial
      have spares : ∀ k, s ≠ some k → w.LeavesHandle k w' := by
        refine fun k hk => ha.leavesHandle fun hh => ?_
        cases hm with
        | make => cases hh
        | bare hr => cases r <;> simp_all [Call.IsBare, Call.handle?]
        | keep hr => cases r <;> simp_all [Call.KeepsTo, Call.handle?]
      cases hm with
      | make =>
          cases ha with
          | performed hw =>
              cases hw
              refine ⟨hn, spares, fun h hh => ?_⟩
              cases hh
              exact ⟨rfl, rfl, by simp⟩
      | bare hr | keep hr =>
          have quiet : made? (.answered r a) = none := by
            cases r with
            | newHandle => cases hr
            | _ => rfl
          rw [quiet, Option.or_none]
          exact ⟨hn, spares, nofun⟩
  | @gathered h result _ _ _ _ _ _ _ _ hg =>
      obtain rfl : s = some h := by
        obtain ⟨_, hm, -⟩ := hp (result, 0) trivial
        cases hm with
        | bare hr => cases hr
        | keep hr => rw [hr h rfl]
      refine ⟨fun answer _ => ?_, fun k hk => hg.leavesHandle fun e => hk (congrArg some e), nofun⟩
      obtain ⟨s', hm, hn⟩ := hp answer trivial
      refine ⟨s', ?_, hn⟩
      cases hm with
      | bare hr => cases hr
      | keep hr => exact .keep hr

/-- The handle that is made on a way. -/
def handleOf (ds : List Deed) : Option HandleId := ds.findSome? made?

theorem handleOf_snoc (ds : List Deed) (d : Deed) :
    handleOf (ds ++ [d]) = (handleOf ds).or (made? d) := by
  simp [handleOf, List.findSome?_append]

end

section

variable {ι : Type} [DecidableEq ι] {crew : ι → Occasion} {outside : World → World → Prop}
  {c c' : Scene ι} {w : World} {es : List (Event ι)} {i j : ι} {d : Deed} {h : HandleId}

/-- No two firings share a handle, and each keeps to its own. -/
structure Inv (c : Scene ι) (es : List (Event ι)) : Prop where
  course : ∀ i, Runs (c.program i) (handleOf (deedsOf i es)) fun _ _ => True
  made : ∀ i h, handleOf (deedsOf i es) = some h → h.index < c.world.handles.length
  apart : ∀ i j h, handleOf (deedsOf i es) = some h → handleOf (deedsOf j es) = some h → i = j

theorem handleOf_other (hj : j ≠ i) (d : Deed) (es : List (Event ι)) :
    handleOf (deedsOf i (es ++ [.deed j d])) = handleOf (deedsOf i es) := by
  simp [hj]

theorem handleOf_own (i : ι) (d : Deed) (es : List (Event ι)) :
    handleOf (deedsOf i (es ++ [.deed i d])) = (handleOf (deedsOf i es)).or (made? d) := by
  simp [handleOf_snoc]

theorem handleOf_outside (i : ι) (es : List (Event ι)) :
    handleOf (deedsOf i (es ++ [.outside])) = handleOf (deedsOf i es) := by
  simp

theorem inv_begin (w : World) : Inv (Scene.begin crew w) [] :=
  ⟨fun i => program_runs (crew i), nofun, nofun⟩

theorem Inv.step {e : Event ι} (hi : Inv c es)
    (ho : ∀ w w', outside w w' → w.handles.length ≤ w'.handles.length)
    (he : c.Step crew outside e c') : Inv c' (es ++ [e]) := by
  cases he with
  | outside hw =>
      refine ⟨fun i => ?_, fun i h hh => ?_, fun i i' h hh hh' => ?_⟩
      · rw [handleOf_outside]
        exact hi.course i
      · rw [handleOf_outside] at hh
        exact Nat.lt_of_lt_of_le (hi.made i h hh) (ho _ _ hw)
      · rw [handleOf_outside] at hh hh'
        exact hi.apart i i' h hh hh'
  | @deed j d p w ht =>
      obtain ⟨course, spares, fresh⟩ := turn (hi.course j) ht
      have length : c.world.handles.length ≤ w.handles.length := by
        -- some handle is none of the firing's
        obtain ⟨k, hk⟩ : ∃ k, handleOf (deedsOf j es) ≠ some k := by
          cases handleOf (deedsOf j es) with
          | none => exact ⟨⟨0⟩, nofun⟩
          | some h =>
              refine ⟨⟨h.index + 1⟩, fun e => ?_⟩
              simpa using congrArg (·.map HandleId.index) e
        exact (spares k hk).length
      have cases_of {i : ι} {h : HandleId}
          (hh : handleOf (deedsOf i (es ++ [.deed j d])) = some h) :
          handleOf (deedsOf i es) = some h ∨
            i = j ∧ h.index = c.world.handles.length ∧ h.index < w.handles.length := by
        by_cases hj : j = i
        · subst hj
          rw [handleOf_own] at hh
          rcases Option.or_eq_some_iff.mp hh with hh | ⟨-, hh⟩
          · exact .inl hh
          · exact .inr ⟨rfl, (fresh h hh).2⟩
        · exact .inl (handleOf_other hj d es ▸ hh)
      refine ⟨fun i => ?_, fun i h hh => ?_, fun i i' h hh hh' => ?_⟩
      · by_cases hj : j = i
        · subst hj
          rw [handleOf_own]
          simpa using course
        · rw [handleOf_other hj]
          simpa [Ne.symm hj] using hi.course i
      · rcases cases_of hh with old | ⟨-, -, hlt⟩
        · exact Nat.lt_of_lt_of_le (hi.made i h old) length
        · exact hlt
      · rcases cases_of hh with old | ⟨rfl, new, -⟩
        · rcases cases_of hh' with old' | ⟨rfl, new, -⟩
          · exact hi.apart i i' h old old'
          · exact absurd new (Nat.ne_of_lt (hi.made i h old))
        · rcases cases_of hh' with old | ⟨rfl, -, -⟩
          · exact absurd new (Nat.ne_of_lt (hi.made i' h old))
          · rfl

theorem inv_of_run (ho : ∀ w w', outside w w' → w.handles.length ≤ w'.handles.length)
    (hr : Run (Scene.Step crew outside) (.begin crew w) es c) : Inv c es := by
  induction hr with
  | nil => exact inv_begin w
  | snoc _ he ih => exact ih.step ho he

/-- The other firings leave the handle of a firing alone. -/
theorem Inv.leavesHandle {place : Place} {p : Action FiringOutcome} {w : World} (hi : Inv c es)
    (ht : (c.program j).Turn place c.world d p w) (hj : j ≠ i)
    (hh : handleOf (deedsOf i es) = some h) : w.handle? h = c.world.handle? h := by
  obtain ⟨-, spares, -⟩ := turn (hi.course j) ht
  exact (spares h fun hh' => hj (hi.apart j i h hh' hh)).handle (hi.made i h hh)

end

end Custody
end TaskFiring
