import TaskFiring.Proofs.Course

/-!
What starts a task. Of all writes of a firing only the one that takes the task assigns a
node to it or says that it runs. There is one statement for each part of a firing.
-/

namespace TaskFiring

namespace Call

/-- A call that assigns no node to a task. -/
def AssignsNone : Call → Prop
  | .modify _ d _ => ∀ n, d.node ≠ some (some n)
  | _ => True

/-- A call by which no handler runs, and which neither assigns a node to a task nor says
that the task runs. -/
def StartsNone : Call → Prop
  | .modify _ d _ => (∀ n, d.node ≠ some (some n)) ∧ d.execution ≠ some .running
  | .isInterrupted _ | .handler _ _ _ => False
  | _ => True

theorem IsAside.startsNone {r : Call} (h : r.IsAside) : r.StartsNone := by
  cases r with
  | modify | isInterrupted | handler => cases h
  | _ => trivial

theorem StartsNone.assignsNone {r : Call} (h : r.StartsNone) : r.AssignsNone := by
  cases r with
  | modify => exact h.1
  | _ => trivial

end Call

namespace Starting

open Program (Only)

theorem startsNone_of_aside {α : Type} {p : Action α} (hp : p.Only Call.IsAside) :
    p.Only Call.StartsNone :=
  hp.mono fun _ => Call.IsAside.startsNone

theorem assignsNone {α : Type} {p : Action α} (hp : p.Only Call.StartsNone) :
    p.Only Call.AssignsNone :=
  hp.mono fun _ => Call.StartsNone.assignsNone

theorem bestEffort_startsNone {α : Type} {x : Attempt α} (hx : x.run.Only Call.StartsNone) :
    (Administration.bestEffort x).Only Call.StartsNone :=
  Only.bind hx fun _ => trivial

theorem closingDelta_execution (t : Task) (now : Instant) :
    (Administration.closingDelta t now).execution ≠ some .running := by
  unfold Administration.closingDelta
  dsimp only
  split <;> nofun

theorem suspendingDelta_execution (t : Task) :
    (Administration.suspendingDelta t).execution ≠ some .running := by
  unfold Administration.suspendingDelta
  dsimp only
  split <;> nofun

theorem settlingDelta_startsNone (oid : TaskOid) (t : Task) (p : Precondition) :
    Call.StartsNone (.modify oid (Possession.settlingDelta t) p) := by
  refine ⟨fun _ h => (nomatch h), ?_⟩
  unfold Possession.settlingDelta
  cases t.scheduling <;> cases t.execution <;> decide

theorem close_startsNone (oid : TaskOid) :
    (Administration.close oid).run.Only Call.StartsNone := by
  refine Only.attempt ⟨trivial, fun _ => trivial⟩ fun current => ?_
  refine Only.lift ⟨trivial, fun _ => trivial⟩ fun now => ?_
  refine Only.attempt ⟨?_, fun _ => trivial⟩ fun _ => ?_
  · exact ⟨fun _ h => (nomatch h), closingDelta_execution current now⟩
  · exact Only.attempt ⟨trivial, fun _ => trivial⟩ fun _ => trivial

theorem suspend_startsNone (oid : TaskOid) :
    (Administration.suspend oid).run.Only Call.StartsNone := by
  refine Only.attempt ⟨trivial, fun _ => trivial⟩ fun current => ?_
  refine Only.attempt ⟨?_, fun _ => trivial⟩ fun _ => ?_
  · exact ⟨fun _ h => (nomatch h), suspendingDelta_execution current⟩
  · exact Only.attempt ⟨trivial, fun _ => trivial⟩ fun _ => trivial

theorem scheduleNow_startsNone (oid : TaskOid) :
    (Administration.scheduleNow oid).run.Only Call.StartsNone := by
  refine Only.attempt ⟨?_, fun _ => trivial⟩ fun _ => ⟨trivial, fun _ => trivial⟩
  exact ⟨nofun, nofun⟩

theorem recordResult_startsNone (oid : TaskOid) (result : OperationResult) :
    (Administration.recordResult oid result).run.Only Call.StartsNone :=
  ⟨⟨nofun, nofun⟩, fun _ => trivial⟩

theorem applyStopAction_startsNone (oid : TaskOid) :
    (Administration.applyStopAction oid).Only Call.StartsNone := by
  refine Only.bind ⟨trivial, fun _ => trivial⟩ fun answer => ?_
  cases answer with
  | error e => trivial
  | ok t =>
      dsimp only
      split
      · trivial
      · split
        · trivial
        · exact bestEffort_startsNone (close_startsNone oid)
        · exact bestEffort_startsNone (suspend_startsNone oid)
        · exact bestEffort_startsNone (scheduleNow_startsNone oid)
        · exact bestEffort_startsNone (scheduleNow_startsNone oid)
        · trivial

theorem ensureReady_startsNone (t : Task) :
    (Preparation.ensureReady t).run.Only Call.StartsNone := by
  unfold Preparation.ensureReady
  split
  · trivial
  · exact Only.attempt ⟨trivial, fun _ => trivial⟩ fun _ => trivial

theorem repair_startsNone (here : NodeId) (t : Task) (recovering : Bool) :
    (Preparation.repair here t recovering).run.Only Call.StartsNone := by
  refine Only.lift ⟨trivial, fun _ => trivial⟩ fun found => ?_
  split
  · trivial
  · refine Only.lift ⟨⟨fun _ h => (nomatch h), nofun⟩, fun _ => trivial⟩ fun answer => ?_
    split <;> trivial

theorem ensureSchedulerRunning_startsNone (t : Task) :
    (Preparation.ensureSchedulerRunning t).run.Only Call.StartsNone := by
  refine Only.lift ⟨trivial, fun _ => trivial⟩ fun running => ?_
  cases running with
  | true => trivial
  | false => exact Only.lift (applyStopAction_startsNone t.oid) fun _ => trivial

theorem applyRecoveryPolicy_startsNone (t : Task) (recovering : Bool) :
    (Preparation.applyRecoveryPolicy t recovering).run.Only Call.StartsNone := by
  unfold Preparation.applyRecoveryPolicy
  split
  · trivial
  · split
    · trivial
    · refine Only.lift (bestEffort_startsNone (close_startsNone _)) fun _ => trivial
    · refine Only.lift (bestEffort_startsNone (suspend_startsNone _)) fun _ => trivial
    · trivial
    · trivial
    · trivial

theorem load_startsNone (oid : TaskOid) :
    (Preparation.load oid).run.Only Call.StartsNone := by
  refine Only.lift ⟨trivial, fun _ => trivial⟩ fun answer => ?_
  split
  · exact Only.lift ⟨trivial, fun _ => trivial⟩ fun _ => trivial
  · trivial
  · refine Only.attempt ?_ fun _ => trivial
    exact startsNone_of_aside (Course.ancestor_aside _ _ _ _ _)

theorem prepare_startsNone (node : Node) (oid : TaskOid) (recovering : Bool) :
    (Firing.prepare node oid recovering).run.Only Call.StartsNone := by
  refine Only.attempt (load_startsNone oid) fun snapshot => ?_
  refine Only.attempt (ensureReady_startsNone _) fun _ => ?_
  refine Only.attempt (repair_startsNone _ _ _) fun t => ?_
  refine Only.attempt (ensureSchedulerRunning_startsNone t) fun _ => ?_
  refine Only.attempt (applyRecoveryPolicy_startsNone t recovering) fun _ => ?_
  refine Only.attempt (startsNone_of_aside (Course.enforce_aside _ _ _)) fun _ => ?_
  exact Only.lift ⟨trivial, fun _ => trivial⟩ fun _ => trivial

theorem guard_startsNone (enabled : Bool) (t : Task) :
    (Possession.guard enabled t).run.Only Call.StartsNone := by
  unfold Possession.guard
  cases enabled with
  | false => trivial
  | true =>
      refine Only.lift ⟨trivial, fun _ => trivial⟩ fun answer => ?_
      split
      · trivial
      · trivial
      · split <;> trivial

section

variable {kind : Call → Prop} {oid : TaskOid}

theorem settleAnyhow_only (hg : kind (.get oid))
    (hm : ∀ t p, kind (.modify oid (Possession.settlingDelta t) p)) (lastRead : Task) :
    (Possession.settleAnyhow oid lastRead).Only kind := by
  refine Only.bind ⟨hg, fun _ => trivial⟩ fun answer => ?_
  exact Only.bind ⟨hm _ _, fun _ => trivial⟩ fun _ => trivial

theorem settleWithin_only (hg : kind (.get oid))
    (hm : ∀ t p, kind (.modify oid (Possession.settlingDelta t) p)) (retries : Nat) :
    (Possession.settleWithin retries oid).Only kind := by
  induction retries with
  | zero =>
      unfold Possession.settleWithin
      refine Only.bind ⟨hg, fun _ => trivial⟩ fun answer => ?_
      cases answer with
      | error e => trivial
      | ok t =>
          refine Only.bind ⟨hm _ _, fun _ => trivial⟩ fun answer => ?_
          split
          · trivial
          · exact settleAnyhow_only hg hm t
          · exact settleAnyhow_only hg hm t
  | succ retries ih =>
      unfold Possession.settleWithin
      refine Only.bind ⟨hg, fun _ => trivial⟩ fun answer => ?_
      cases answer with
      | error e => trivial
      | ok t =>
          refine Only.bind ⟨hm _ _, fun _ => trivial⟩ fun answer => ?_
          split
          · trivial
          · exact ih
          · exact settleAnyhow_only hg hm t

end

theorem release_startsNone (node : Node) (g : Firing) :
    (Firing.release node g).Only Call.StartsNone := by
  unfold Firing.release
  split
  · refine Only.bind ⟨trivial, fun _ => trivial⟩ fun _ => ?_
    refine Only.bind (startsNone_of_aside (Course.spawnAll_aside _ _)) fun _ => ?_
    exact settleWithin_only trivial (settlingDelta_startsNone _) 1
  · trivial

theorem obeyStop_startsNone (g : Firing) : (Firing.obeyStop g).Only Call.StartsNone := by
  refine Only.bind ⟨trivial, fun _ => trivial⟩ fun canRun => ?_
  cases canRun with
  | true => trivial
  | false => exact applyStopAction_startsNone _

theorem collectLate_startsNone (g : Firing) :
    (Firing.collectLate g).Only Call.StartsNone := by
  refine Only.bind ⟨trivial, fun _ => trivial⟩ fun collected => ?_
  dsimp only
  split
  · trivial
  · exact Only.bind (bestEffort_startsNone (recordResult_startsNone _ _)) fun _ => trivial

theorem finish_startsNone (node : Node) (g : Firing) (ending : Firing.Ending) :
    (Firing.finish node g ending).Only Call.StartsNone := by
  refine Only.bind ?_ fun g' => Only.bind ⟨trivial, fun _ => trivial⟩ fun _ => trivial
  refine Only.bind ⟨trivial, fun _ => trivial⟩ fun _ => ?_
  refine Only.bind (release_startsNone node g) fun _ => ?_
  exact Only.bind (obeyStop_startsNone g) fun _ => collectLate_startsNone g

theorem conclude_startsNone (g : Firing) (ended : HandlerEnd) :
    (Firing.conclude g ended).Only Call.StartsNone := by
  refine Only.bind ?_ fun result => by cases ended <;> trivial
  cases ended with
  | error e =>
      exact Only.bind (bestEffort_startsNone (recordResult_startsNone _ _)) fun _ => trivial
  | ok outcome =>
      refine Only.bind (recordResult_startsNone _ _) fun answer => ?_
      cases answer with
      | error e => trivial
      | ok current =>
          dsimp only
          split
          · split
            · exact Only.bind (bestEffort_startsNone (close_startsNone _)) fun _ => trivial
            · exact Only.bind (bestEffort_startsNone (suspend_startsNone _)) fun _ => trivial
            · trivial
          · trivial

/-! A held task. Its handler makes such calls as it is allowed. -/

section

variable {kind : Call → Prop} {allowed : HandlerCall → Prop}

theorem guarded_only (hk : ∀ h oid call, allowed call → kind (.handler h oid call))
    (h : HandleId) (oid : TaskOid) {work : HandlerWork} (hw : work.Only allowed) :
    (Handling.guarded h oid work).Only kind := by
  induction work with
  | done r => trivial
  | ask r next ih =>
      unfold Handling.guarded
      refine ⟨hk _ _ _ hw.1, fun answer => ?_⟩
      cases answer with
      | some a => exact ih a (hw.2 a)
      | none => trivial

theorem run_only (hi : ∀ h, kind (.isInterrupted h))
    (hk : ∀ h oid call, allowed call → kind (.handler h oid call)) {handler : Handler}
    (hw : handler.KeepsTo allowed) (h : HandleId) (context : RunContext) :
    (Handling.run handler h context).Only kind := by
  refine Only.bind ⟨hi h, fun _ => trivial⟩ fun interrupted => ?_
  cases interrupted with
  | true => trivial
  | false => exact guarded_only hk _ _ (hw _)

theorem runHandler_only (hs : ∀ r : Call, r.StartsNone → kind r)
    (hi : ∀ h, kind (.isInterrupted h))
    (hk : ∀ h oid call, allowed call → kind (.handler h oid call)) {handler : Handler}
    (hw : handler.KeepsTo allowed) (g : Firing) : (Firing.runHandler handler g).Only kind := by
  refine Only.bind ⟨hs _ trivial, fun _ => trivial⟩ fun _ => ?_
  refine Only.bind ⟨hs _ trivial, fun _ => trivial⟩ fun _ => ?_
  refine Only.bind (run_only hi hk hw _ _) fun ended => ?_
  refine Only.bind ⟨hs _ trivial, fun _ => trivial⟩ fun _ => ?_
  exact Only.bind ⟨hs _ trivial, fun _ => trivial⟩ fun _ => trivial

theorem runTaken_only (hs : ∀ r : Call, r.StartsNone → kind r)
    (hi : ∀ h, kind (.isInterrupted h))
    (hk : ∀ h oid call, allowed call → kind (.handler h oid call)) (node : Node)
    {handler : Handler} (hw : handler.KeepsTo allowed) (g : Firing) :
    (Firing.runTaken node handler g).Only kind := by
  refine Only.bind ⟨hs _ trivial, fun _ => trivial⟩ fun _ => ?_
  refine Only.bind ⟨hs _ trivial, fun _ => trivial⟩ fun _ => ?_
  refine Only.bind ((startsNone_of_aside (Course.spawnAll_aside _ _)).mono hs) fun _ => ?_
  refine Only.bind (runHandler_only hs hi hk hw g) fun ended => ?_
  exact Only.bind ⟨hs _ trivial, fun _ => trivial⟩ fun _ => trivial

theorem runStarted_only (hs : ∀ r : Call, r.StartsNone → kind r)
    (hi : ∀ h, kind (.isInterrupted h))
    (hk : ∀ h oid call, allowed call → kind (.handler h oid call)) {node : Node}
    (hw : node.KeepsTo allowed) (g : Firing) : (Firing.runStarted node g).Only kind := by
  unfold Firing.runStarted
  cases hh : node.handlers.resolve g.task.handlerRef with
  | none =>
      -- the task is closed, and nothing runs
      simp only [Handling.resolve, hh, bind_assoc, pure_bind]
      refine Only.bind ((bestEffort_startsNone (recordResult_startsNone _ _)).mono hs)
        fun _ => ?_
      exact Only.bind ((bestEffort_startsNone (close_startsNone _)).mono hs) fun _ => trivial
  | some handler =>
      rw [Handling.resolve_of_some hh]
      change Program.Only kind (Firing.runTaken node handler g >>= fun e =>
        Firing.conclude e.1 e.2)
      refine Only.bind (runTaken_only hs hi hk node (hw _ _ hh) _) fun ended => ?_
      exact (conclude_startsNone _ _).mono hs

end

theorem runHandler_assignsNone (handler : Handler) (g : Firing) :
    (Firing.runHandler handler g).Only Call.AssignsNone := by
  have keeps : handler.KeepsTo fun _ => True := fun _ => Program.only_true _
  exact runHandler_only (fun _ => Call.StartsNone.assignsNone) (fun _ => trivial)
    (fun _ _ _ _ => trivial) keeps g

theorem runStarted_assignsNone (node : Node) (g : Firing) :
    (Firing.runStarted node g).Only Call.AssignsNone :=
  runStarted_only (fun _ => Call.StartsNone.assignsNone) (fun _ => trivial)
    (fun _ _ _ _ => trivial) node.keepsTo_true g

end Starting
end TaskFiring
