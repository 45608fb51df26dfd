import TaskFiring.Proofs.Ledger
import TaskFiring.Proofs.Succession

/-!
No result of a child is lost or doubled. A firing that has taken its task waits for its
children twice, once its handler has ended and once it has let go of the task. Each wait adds
the results of the children there are to its own result, and each is followed by a record of
that, unless the second wait has found nobody. So whatever children do meanwhile, the result
that is stored when the firing returns tells of each of them once, in order.
-/

namespace TaskFiring

/-- What a firing that has taken its task has done about its children. -/
structure Account where
  oid : TaskOid
  handle : HandleId
  /-- The results of children that it has been told. -/
  paid : List OperationResult := []
  /-- The children that it waits for. -/
  batch : List Nat := []
  /-- Those of the results that it has recorded. -/
  recorded : Option (List OperationResult) := none
  /-- No child was spawned since the last wait. -/
  settled : Bool := true

inductive Tally
  /-- There is no handle yet. -/
  | unmade
  /-- There is one, but the task is not taken. -/
  | handed (h : HandleId)
  | taken (x : Account)
  /-- The task was not taken, or a result could not be recorded. -/
  | failed

namespace Tally

def handle? : Tally → Option HandleId
  | .handed h => some h
  | .taken x => some x.handle
  | .unmade | .failed => none

/-- All that was told of children is recorded, and nobody was spawned since. -/
def Square : Tally → Prop
  | .taken x => x.recorded = some x.paid ∧ x.batch = [] ∧ x.settled
  | _ => True

end Tally

/-- A call by which no task is taken, no result is recorded and no child comes or goes. -/
def Call.IsQuiet : Call → Prop
  | .modify _ d _ => d.result = none ∧ ∀ n, d.node ≠ some (some n)
  | .newHandle _ | .spawn _ _ | .collect _ _ _ _ | .handler _ _ _ => False
  | _ => True

theorem Call.IsBare.quiet {r : Call} (h : r.IsBare) (ha : r.AssignsNone) : r.IsQuiet := by
  cases r with
  | modify => exact ⟨h, ha⟩
  | newHandle | spawn | collect | handler => cases h
  | _ => trivial

/-- From outside, children go on, end, panic and are cancelled, and nobody writes the result of
the task or takes it away. -/
structure World.Lets (oid : TaskOid) (w w' : World) : Prop where
  result : w.LeavesResult oid w'
  children : w.LeavesChildren w'

namespace Accounts

open Program (Only Follows)
open Starting

/-- A wait for children adds to the result that it was given, and counts what it adds. -/
def Fair : (r : Call) → r.Response → Prop
  | .collect _ result closed _, a =>
      ∃ rs, a.1.subresults = result.subresults ++ rs ∧ a.2 = closed + rs.length
  | r, a => r.Fair a

/-- The calls of a firing, as to its children and its result. -/
inductive Move : Protocol Calls Tally
  | make {oid : TaskOid} {h : HandleId} : Move .unmade (.newHandle oid) h (.handed h)
  | take {h : HandleId} {oid : TaskOid} {d : TaskDelta} {c : Precondition} {t : Task} :
      Move (.handed h) (.modify oid d c) (.ok t) (.taken { oid, handle := h })
  | notTaken {h : HandleId} {oid : TaskOid} {d : TaskDelta} {c : Precondition}
      {e : StoreError} : Move (.handed h) (.modify oid d c) (.error e) .failed
  | collect {x : Account} {h : HandleId} {result : OperationResult} {closed : Nat}
      {batch : List Nat} {a : OperationResult × Nat} :
      h = x.handle → result.subresults = x.paid → batch = x.batch →
      Move (.taken x) (.collect h result closed batch) a
        (.taken { x with paid := a.1.subresults, batch := [], settled := true })
  | record {x : Account} {result : OperationResult} {t : Task} :
      result.subresults = x.paid →
      Move (.taken x) (.modify x.oid { result := some result } .always) (.ok t)
        (.taken { x with recorded := some x.paid })
  | notRecorded {x : Account} {result : OperationResult} {e : StoreError} :
      Move (.taken x) (.modify x.oid { result := some result } .always) (.error e) .failed
  | spawn {x : Account} {h : HandleId} {spec : ChildSpec} {id : ChildId} : h = x.handle →
      Move (.taken x) (.spawn h spec) id (.taken { x with settled := false })
  | handler {x : Account} {h : HandleId} {oid : TaskOid} {call : HandlerCall}
      {a : Option call.Response} : h = x.handle →
      Move (.taken x) (.handler h oid call) a (.taken { x with settled := false })
  | quiet {s : Tally} {r : Call} {a : r.Response} : r.IsQuiet → Move s r a s
  | idle {r : Call} {a : r.Response} : r.AssignsNone → Move .failed r a .failed

/-- A part of a firing, with answers that are fair. -/
abbrev Runs {α : Type} (p : Action α) (s : Tally) (Q : Tally → α → Prop) : Prop :=
  p.Follows Fair Move s Q

section

variable {α : Type} {p : Action α} {s : Tally} {x : Account} {g : Firing} {node : Node}

theorem runs_of_quiet (hp : p.Only Call.IsQuiet) : Runs p s fun s' _ => s' = s :=
  hp.follows fun _ _ => .quiet

theorem runs_of_assignsNone (hp : p.Only Call.AssignsNone) :
    Runs p .failed fun s _ => s = .failed :=
  hp.follows fun _ _ => .idle

theorem quiet_of_bare (hb : p.Only Call.IsBare) (ha : p.Only Call.StartsNone) :
    p.Only Call.IsQuiet := by
  induction p with
  | done a => trivial
  | ask r next ih =>
      exact ⟨hb.1.quiet ha.1.assignsNone, fun answer => ih answer (hb.2 answer) (ha.2 answer)⟩

theorem quiet_of_errand {oid : TaskOid} (hb : p.Only (Call.IsErrand oid))
    (ha : p.Only Call.StartsNone) : p.Only Call.IsQuiet :=
  quiet_of_bare (Custody.bare_of_errand hb) ha

theorem close_quiet (oid : TaskOid) : (Administration.close oid).run.Only Call.IsQuiet :=
  quiet_of_errand (Custody.close_errand oid) (close_startsNone oid)

theorem suspend_quiet (oid : TaskOid) : (Administration.suspend oid).run.Only Call.IsQuiet :=
  quiet_of_errand (Custody.suspend_errand oid) (suspend_startsNone oid)

/-! Until the task is taken. -/

theorem prepare_runs (node : Node) (oid : TaskOid) (recovering : Bool) :
    Runs (Firing.prepare node oid recovering).run .unmade fun s r =>
      match r with
      | .ok g => s = .handed g.handle ∧ g.result.subresults = []
      | .error _ => s = .unmade := by
  have attempt {α : Type} {x : Step α} {k : α → Step Firing}
      {Q : Tally → Except Stop Firing → Prop} (herror : ∀ e, Q .unmade (.error e))
      (hb : x.run.Only Call.IsBare) (ha : x.run.Only Call.StartsNone)
      (hk : ∀ a, Runs (k a).run .unmade Q) : Runs (x >>= k).run .unmade Q := by
    refine Follows.attempt (runs_of_quiet (quiet_of_bare hb ha)) ?_ ?_
    · rintro _ a rfl
      exact hk a
    · rintro _ e rfl
      exact herror e
  have aside {α : Type} {x : Step α} (h : x.run.Only Call.IsInquiry) :
      x.run.Only Call.IsBare ∧ x.run.Only Call.StartsNone :=
    ⟨Custody.bare_of_inquiry h, startsNone_of_aside (h.mono fun _ => Call.IsInquiry.aside)⟩
  unfold Firing.prepare
  refine attempt (fun _ => rfl) (Custody.load_bare oid) (load_startsNone oid) fun snapshot => ?_
  refine attempt (fun _ => rfl) (Custody.bare_of_errand (Custody.ensureReady_errand _))
    (ensureReady_startsNone _) fun _ => ?_
  refine attempt (fun _ => rfl) (Custody.repair_bare _ _ _) (repair_startsNone _ _ _) fun t => ?_
  refine attempt (fun _ => rfl) (Custody.bare_of_errand (Custody.ensureSchedulerRunning_errand t))
    (ensureSchedulerRunning_startsNone t) fun _ => ?_
  refine attempt (fun _ => rfl)
    (Custody.bare_of_errand (Custody.applyRecoveryPolicy_errand t recovering))
    (applyRecoveryPolicy_startsNone t recovering) fun _ => ?_
  refine attempt (fun _ => rfl) (aside (Course.enforce_inquires _ _ _)).1
    (aside (Course.enforce_inquires _ _ _)).2 fun _ => ?_
  exact Follows.query fun h _ => ⟨_, .make, rfl, rfl⟩

theorem interrupt_quiet (policy : InterruptPolicy) (h : HandleId) :
    (Interruption.interrupt policy h).Only Call.IsQuiet :=
  Course.interrupt_only trivial (fun _ => trivial) trivial trivial policy

theorem start_runs {t : Task} {n : NodeId} {h : HandleId} :
    Runs (Possession.start t n).run (.handed h) fun s r =>
      match r with
      | .ok u => s = .taken { oid := u.oid, handle := h }
      | .error _ => s = .failed := by
  unfold Possession.start
  refine Follows.query fun answer fair => ?_
  cases answer with
  | ok u =>
      have fair : u.oid = t.oid := fair
      exact ⟨_, .take, congrArg (fun oid => Tally.taken { oid, handle := h }) fair.symm⟩
  | error e =>
      refine ⟨.failed, .notTaken, ?_⟩
      cases e with
      | conflict o expected actual =>
          refine Follows.lift (runs_of_assignsNone (assignsNone
            (startsNone_of_aside (Course.lostRace_aside _ _)))) ?_
          rintro _ stop rfl
          exact rfl
      | notFound _ | preconditionFailed _ _ | backend _ => exact rfl

/-! The task is taken. -/

theorem spawnAll_runs {h : HandleId} (hh : h = x.handle) (cs : List ChildSpec) :
    Runs (Firing.spawnAll h cs) (.taken x) fun s _ =>
      ∃ b, s = .taken { x with settled := b } := by
  induction cs generalizing x with
  | nil => exact ⟨x.settled, rfl⟩
  | cons c cs ih =>
      refine Follows.ask fun id _ => ⟨_, .spawn hh, ?_⟩
      exact ih (x := { x with settled := false }) hh

theorem guarded_runs {h : HandleId} (hh : h = x.handle) (oid : TaskOid) (work : HandlerWork) :
    Runs (Handling.guarded h oid work) (.taken x) fun s _ =>
      ∃ b, s = .taken { x with settled := b } := by
  induction work generalizing x with
  | done r => exact ⟨x.settled, rfl⟩
  | ask r next ih =>
      unfold Handling.guarded
      refine fun answer _ => ⟨_, .handler hh, ?_⟩
      cases answer with
      | some a => exact ih a (x := { x with settled := false }) hh
      | none => exact ⟨false, rfl⟩

theorem runHandler_runs {handler : Handler} (hg : g.handle = x.handle) :
    Runs (Firing.runHandler handler g) (.taken x) fun s _ =>
      ∃ b, s = .taken { x with settled := b } := by
  unfold Firing.runHandler
  refine Follows.ask fun _ _ => ⟨_, .quiet trivial, ?_⟩
  refine Follows.ask fun _ _ => ⟨_, .quiet trivial, ?_⟩
  refine Follows.bind (Q := fun s _ => ∃ b, s = .taken { x with settled := b }) ?_ ?_
  · refine Follows.ask fun interrupted _ => ⟨_, .quiet trivial, ?_⟩
    cases interrupted with
    | true => exact ⟨x.settled, rfl⟩
    | false => exact guarded_runs hg _ _
  · rintro _ ended ⟨b, rfl⟩
    refine Follows.ask fun _ _ => ⟨_, .quiet trivial, ?_⟩
    exact Follows.ask fun _ _ => ⟨_, .quiet trivial, b, rfl⟩

/-- What was told of children by a wait is in the result. -/
theorem collectChildren_runs (hg : g.handle = x.handle) (hp : g.result.subresults = x.paid)
    (hb : x.batch = []) :
    Runs (Firing.collectChildren g) (.taken x) fun s r =>
      r.1.task = g.task ∧ r.1.handle = g.handle ∧ (r.2 = 0 → r.1.result.subresults = x.paid) ∧
        s = .taken { x with paid := r.1.result.subresults, batch := [], settled := true } := by
  unfold Firing.collectChildren
  refine Follows.ask fun answer fair => ?_
  obtain ⟨rs, hrs, hn⟩ := fair
  refine ⟨_, .collect hg hp hb.symm, rfl, rfl, fun hz => ?_, rfl⟩
  obtain rfl : rs = [] := by
    refine List.length_eq_zero_iff.mp ?_
    have hz : answer.2 = 0 := hz
    omega
  rw [← hp, hrs, List.append_nil]

theorem runTaken_runs {handler : Handler} (hg : g.handle = x.handle)
    (hp : g.result.subresults = x.paid) (hb : x.batch = []) :
    Runs (Firing.runTaken node handler g) (.taken x) fun s r =>
      r.1.task = g.task ∧ r.1.handle = g.handle ∧
        s = .taken { x with paid := r.1.result.subresults, batch := [], settled := true } := by
  unfold Firing.runTaken
  refine Follows.ask fun _ _ => ⟨_, .quiet trivial, ?_⟩
  refine Follows.ask fun _ _ => ⟨_, .quiet trivial, ?_⟩
  refine (spawnAll_runs hg _).bind ?_
  rintro _ ⟨⟩ ⟨b, rfl⟩
  refine (runHandler_runs (x := { x with settled := b }) hg).bind ?_
  rintro _ ended ⟨b, rfl⟩
  refine (collectChildren_runs (x := { x with settled := b }) hg hp hb).bind ?_
  rintro _ ⟨g', closed⟩ ⟨ht, hh, -, rfl⟩
  exact ⟨ht, hh, rfl⟩

/-- The result is recorded, or there is nothing more to be said. -/
theorem recordResult_runs {oid : TaskOid} {result : OperationResult} (ho : oid = x.oid)
    (hp : result.subresults = x.paid) :
    Runs (Administration.recordResult oid result).run (.taken x) fun s _ =>
      s = .failed ∨ s = .taken { x with recorded := some x.paid } := by
  subst ho
  intro answer _
  cases answer with
  | ok t => exact ⟨_, .record hp, .inr rfl⟩
  | error e => exact ⟨_, .notRecorded, .inl rfl⟩

/-- Once a record has failed, or there is nothing to add to it. -/
abbrev Over (x : Account) (s : Tally) : Prop := s = .failed ∨ s = .taken x

theorem runs_of_over (hs : Over x s) (hp : p.Only Call.IsQuiet) (ha : p.Only Call.AssignsNone) :
    Runs p s fun s _ => Over x s := by
  rcases hs with rfl | rfl
  · exact (runs_of_assignsNone ha).mono fun _ _ => .inl
  · exact (runs_of_quiet hp).mono fun _ _ => .inr

theorem bestEffort_runs {β : Type} {y : Attempt β} {Q : Tally → Prop}
    (hy : Runs y.run s fun s _ => Q s) :
    Runs (Administration.bestEffort y) s fun s _ => Q s :=
  hy.bind fun _ _ hs => hs

theorem bestEffort_over {β : Type} {y : Attempt β} (hs : Over x s) (hq : y.run.Only Call.IsQuiet)
    (ha : y.run.Only Call.StartsNone) :
    Runs (Administration.bestEffort y) s fun s _ => Over x s :=
  bestEffort_runs (runs_of_over hs hq (assignsNone ha))

/-- However the handler has ended, what children have told by then is recorded. -/
theorem applyOutcome_runs {t : Task} {ended : HandlerEnd} {result : OperationResult}
    (ho : t.oid = x.oid) (hp : result.subresults = x.paid) :
    Runs (Handling.applyOutcome t ended result) (.taken x) fun s r =>
      Over { x with recorded := some x.paid } s ∧ r.subresults = x.paid := by
  cases ended with
  | error e =>
      refine Follows.bind (bestEffort_runs (recordResult_runs ho (by exact hp))) ?_
      exact fun s _ hs => ⟨hs, hp⟩
  | ok outcome =>
      refine Follows.bind (recordResult_runs ho hp) ?_
      intro s answer hs
      cases answer with
      | error e => exact ⟨hs, hp⟩
      | ok current =>
          dsimp only
          split
          · split
            · refine (bestEffort_over hs (close_quiet _) (close_startsNone _)).bind ?_
              exact fun s _ hs => ⟨hs, hp⟩
            · refine (bestEffort_over hs (suspend_quiet _) (suspend_startsNone _)).bind ?_
              exact fun s _ hs => ⟨hs, hp⟩
            · exact ⟨hs, hp⟩
          · exact ⟨hs, hp⟩

theorem conclude_runs {ended : HandlerEnd} (ho : g.task.oid = x.oid)
    (hp : g.result.subresults = x.paid) :
    Runs (Firing.conclude g ended) (.taken x) fun s r =>
      Over { x with recorded := some x.paid } s ∧ r.1.task = g.task ∧ r.1.handle = g.handle ∧
        r.1.result.subresults = x.paid := by
  refine (applyOutcome_runs ho hp).bind ?_
  rintro s result ⟨hs, hp⟩
  cases ended <;> exact ⟨hs, rfl, rfl, hp⟩

/-- The account of a firing that has recorded its result. -/
def recordedAccount (g : Firing) : Account where
  oid := g.task.oid
  handle := g.handle
  paid := g.result.subresults
  recorded := some g.result.subresults

theorem runStarted_runs (hp : g.result.subresults = []) :
    Runs (Firing.runStarted node g) (.taken { oid := g.task.oid, handle := g.handle })
      fun s r => Over (recordedAccount r.1) s := by
  cases hh : node.handlers.resolve g.task.handlerRef with
  | none =>
      unfold Firing.runStarted
      simp only [Handling.resolve, hh, bind_assoc, pure_bind]
      refine Follows.bind (bestEffort_runs (recordResult_runs rfl (by exact hp))) ?_
      intro s _ hs
      refine (bestEffort_over hs (close_quiet _) (close_startsNone _)).bind ?_
      intro s _ hs
      rw [← hp] at hs
      exact hs
  | some handler =>
      unfold Firing.runStarted
      rw [Handling.resolve_of_some hh]
      change Runs (Firing.runTaken node handler g >>= fun e => Firing.conclude e.1 e.2) _ _
      refine (runTaken_runs rfl hp rfl).bind ?_
      rintro _ ⟨g', ended⟩ ⟨ht, hg, rfl⟩
      refine (conclude_runs (by rw [ht]) rfl).mono ?_
      rintro s r ⟨hs, ht', hg', hp'⟩
      rw [recordedAccount, ht', ht, hg', hg, hp']
      exact hs

/-- Children may be spawned when the task is let go of. -/
theorem release_runs (hs : Over x s) (hg : g.handle = x.handle) :
    Runs (Firing.release node g) s fun s _ => ∃ b, Over { x with settled := b } s := by
  rcases hs with rfl | rfl
  · refine (runs_of_assignsNone (assignsNone (release_startsNone node g))).mono ?_
    exact fun _ _ hs => ⟨true, .inl hs⟩
  unfold Firing.release
  split
  · refine Follows.ask fun _ _ => ⟨_, .quiet trivial, ?_⟩
    refine (spawnAll_runs hg _).bind ?_
    rintro _ ⟨⟩ ⟨b, rfl⟩
    have settle : (Possession.settle g.task.oid).Only Call.StartsNone :=
      settleWithin_only trivial (settlingDelta_startsNone _) 1
    refine (runs_of_quiet (quiet_of_errand (Custody.settle_errand _) settle)).mono ?_
    exact fun _ _ hs => ⟨b, .inr hs⟩
  · exact ⟨x.settled, .inr rfl⟩

theorem obeyStop_runs (hs : Over x s) : Runs (Firing.obeyStop g) s fun s _ => Over x s := by
  refine runs_of_over hs ?_ (assignsNone (obeyStop_startsNone g))
  refine Only.bind ⟨trivial, fun _ => trivial⟩ fun canRun => ?_
  cases canRun with
  | true => trivial
  | false =>
      exact quiet_of_errand (Custody.applyStopAction_errand _) (applyStopAction_startsNone _)

/-- Late children are added to what is recorded. -/
theorem collectLate_runs (hs : Over x s) (ho : g.task.oid = x.oid) (hg : g.handle = x.handle)
    (hp : g.result.subresults = x.paid) (hr : x.recorded = some x.paid) (hb : x.batch = []) :
    Runs (Firing.collectLate g) s fun s _ => s.Square := by
  rcases hs with rfl | rfl
  · refine (runs_of_assignsNone (assignsNone (collectLate_startsNone g))).mono ?_
    rintro _ _ rfl
    trivial
  unfold Firing.collectLate
  refine (collectChildren_runs hg hp hb).bind ?_
  rintro _ ⟨g', closed⟩ ⟨ht, -, hnone, rfl⟩
  dsimp only
  split
  · next hz => exact ⟨by rw [hnone hz]; exact hr, rfl, rfl⟩
  · refine Follows.bind (bestEffort_runs (recordResult_runs (by rw [ht]; exact ho) rfl)) ?_
    rintro s - (rfl | rfl)
    · trivial
    · exact ⟨rfl, rfl, rfl⟩

theorem finish_runs {ending : Firing.Ending} (hs : Over (recordedAccount g) s) :
    Runs (Firing.finish node g ending) s fun s _ => s.Square := by
  refine Follows.bind (Q := fun s _ => s.Square) ?_ ?_
  · refine Follows.ask fun _ _ => ⟨s, .quiet trivial, ?_⟩
    refine (release_runs hs rfl).bind ?_
    rintro s ⟨⟩ ⟨b, hs⟩
    refine (obeyStop_runs hs).bind ?_
    rintro s ⟨⟩ hs
    exact collectLate_runs hs rfl rfl rfl rfl rfl
  · exact fun s g' hs => Follows.ask fun _ _ => ⟨s, .quiet trivial, hs⟩

theorem runRegistered_runs (hp : g.result.subresults = []) :
    Runs (Firing.runRegistered node g) (.handed g.handle) fun s r =>
      Over (recordedAccount r.1) s := by
  unfold Firing.runRegistered
  refine start_runs.bind ?_
  rintro s (stop | t) hs
  · exact .inl hs
  · obtain rfl : s = .taken { oid := t.oid, handle := g.handle } := hs
    exact runStarted_runs (g := { g with task := t, nodeSet := true }) hp

theorem runPrepared_runs (hp : g.result.subresults = []) :
    Runs (Firing.runPrepared node g) (.handed g.handle) fun s _ => s.Square := by
  unfold Firing.runPrepared
  refine (runs_of_quiet (quiet_of_errand (Custody.guard_errand _ _)
    (guard_startsNone _ _))).bind ?_
  rintro _ (stop | ⟨⟩) rfl
  · trivial
  refine Follows.ask fun registered _ => ⟨_, .quiet trivial, ?_⟩
  cases registered with
  | false => trivial
  | true =>
      have run : Runs ((Firing.runRegistered node g).bind fun e => Firing.finish node e.1 e.2)
          (.handed g.handle) fun s _ => s.Square := by
        refine (runRegistered_runs hp).bind ?_
        exact fun _ _ hs => finish_runs hs
      refine Follows.ask fun shutDown _ => ⟨_, .quiet trivial, ?_⟩
      cases shutDown with
      | false => exact run
      | true =>
          refine (runs_of_quiet (interrupt_quiet _ _)).bind ?_
          rintro _ ⟨⟩ rfl
          exact run

/-- In the end nothing is left out of what was recorded. -/
theorem program_runs (f : Occasion) : Runs f.program .unmade fun s _ => s.Square := by
  unfold Occasion.program Node.fire
  refine (prepare_runs _ _ _).bind ?_
  rintro s (stop | g) hs
  · obtain rfl : s = .unmade := hs
    trivial
  · obtain ⟨rfl, hp⟩ := hs
    exact runPrepared_runs hp

end

/-! What the tally says of the children in a world. -/

/-- The books of the firing are as its tally says, about the children with these
identifiers. -/
def Shows (ids : List ChildId) : Tally → World → Prop
  | .unmade, _ => ids = []
  | .handed h, w => ids = [] ∧ w.Books h [] [] []
  | .taken x, w => w.Books x.handle ids x.paid x.batch ∧
      (x.settled → ids.Nodup → ids.length = x.paid.length)
  | .failed, _ => True

/-- The deeds by which a tally changes. -/
inductive Step : Tally → Deed → Tally → Prop
  | answered {s s' : Tally} {r : Call} {a : r.Response} :
      Move s r a s' → Step s (.answered r a) s'
  | gathered {x : Account} {paid : List OperationResult} {batch : List Nat} :
      Step (.taken x) .gathered (.taken { x with paid, batch, settled := false })
  | idle : Step .failed .gathered .failed

section

variable {α : Type} {place : Place} {p p' : Action α} {w w' : World} {d : Deed} {s : Tally}
  {Q : Tally → α → Prop} {ids : List ChildId} {h : HandleId}

theorem shows_of_goes (hs : Shows ids s w) (hw : w.LeavesChildren w') : Shows ids s w' := by
  cases s with
  | unmade => exact hs
  | handed h => exact ⟨hs.1, hs.2.goes hw⟩
  | taken x => exact ⟨hs.1.goes hw, hs.2⟩
  | failed => trivial

/-- Nothing else about the children matters to a firing than its own handle. -/
theorem shows_of_same (hs : Shows ids s w)
    (hw : ∀ h, s.handle? = some h → w'.handle? h = w.handle? h) : Shows ids s w' := by
  cases s with
  | unmade => exact hs
  | handed h => exact ⟨hs.1, hs.2.same (hw h rfl)⟩
  | taken x => exact ⟨hs.1.same (hw x.handle rfl), hs.2⟩
  | failed => trivial

theorem fair_of_answers {r : Call} {a : r.Response} (ha : w.Answers place r a w') : Fair r a := by
  cases r with
  | collect h result closed batch =>
      cases ha with
      | performed hp => cases hp
      | gathered _ => exact ⟨[], (List.append_nil _).symm, rfl⟩
  | _ => exact ha.fair

theorem spawned_of_quiet {r : Call} (hr : r.IsQuiet) (a : r.Response) :
    Deed.spawned (.answered r a) = [] := by
  cases r with
  | spawn | handler => cases hr
  | _ => rfl

theorem leavesChildren_of_quiet {r : Call} {a : r.Response} (ha : w.Answers place r a w')
    (hr : r.IsQuiet) : w.LeavesChildren w' := by
  refine ha.leavesChildren ?_ ?_
  · rintro h spec rfl
    cases hr
  · rintro h oid call rfl
    cases hr

theorem modify_leaves {oid : TaskOid} {δ : TaskDelta} {c : Precondition}
    {a : Except StoreError Task} (ha : w.Answers place (.modify oid δ c) a w') :
    w.LeavesChildren w' :=
  ha.leavesChildren nofun nofun

theorem answered_shows {s' : Tally} {r : Call} {a : r.Response} (hs : Shows ids s w)
    (hm : Move s r a s') (ha : w.Answers place r a w') :
    Shows (ids ++ Deed.spawned (.answered r a)) s' w' := by
  cases hm with
  | make =>
      obtain rfl : ids = [] := hs
      exact ⟨rfl, .newHandle ha⟩
  | take =>
      obtain ⟨rfl, hb⟩ := hs
      exact ⟨hb.goes (modify_leaves ha), fun _ _ => rfl⟩
  | notTaken | notRecorded | idle => trivial
  | @collect x h result closed batch _ hh hp hb =>
      cases ha with
      | performed hw => cases hw
      | gathered hw =>
          obtain ⟨books, -⟩ := hs
          rw [← hh, ← hp, ← hb] at books
          rw [show Deed.spawned _ = [] from rfl, List.append_nil]
          exact ⟨hh ▸ books, fun _ hn => books.settled hw hn⟩
  | record =>
      rw [show Deed.spawned _ = [] from rfl, List.append_nil]
      exact ⟨hs.1.goes (modify_leaves ha), hs.2⟩
  | spawn hh =>
      subst hh
      cases ha with
      | performed hw =>
          cases hw
          exact ⟨hs.1.spawn _, nofun⟩
  | handler hh =>
      subst hh
      exact ⟨hs.1.handler ha, nofun⟩
  | quiet hr =>
      rw [spawned_of_quiet hr, List.append_nil]
      exact shows_of_goes hs (leavesChildren_of_quiet ha hr)

/-- A wait for children goes on. -/
theorem gathered_shows {result result' : OperationResult} {closed closed' : Nat}
    {batch batch' : List Nat} {next : OperationResult × Nat → Action α}
    (hp : Runs (.ask (.collect h result closed batch) next) s Q) (hs : Shows ids s w)
    (hg : w.Gathers h result closed batch result' closed' batch' w') :
    ∃ s', Runs (.ask (.collect h result' closed' batch') next) s' Q ∧ Shows ids s' w' ∧
      Step s .gathered s' := by
  obtain ⟨rs, hrs, hn⟩ : ∃ rs, result'.subresults = result.subresults ++ rs ∧
      closed' = closed + rs.length := by
    cases hg with
    | take _ _ => exact ⟨[], (List.append_nil _).symm, rfl⟩
    | close _ => exact ⟨[_], rfl, rfl⟩
  -- what is still to come is to come after what was given so far
  have fair {a : OperationResult × Nat} (ha : Fair (.collect h result' closed' batch') a) :
      Fair (.collect h result closed batch) a := by
    obtain ⟨rs', hrs', hn'⟩ := ha
    refine ⟨rs ++ rs', by rw [hrs', hrs, List.append_assoc], ?_⟩
    rw [hn', hn, List.length_append, Nat.add_assoc]
  obtain ⟨_, hm, -⟩ := hp (result, closed) ⟨[], (List.append_nil _).symm, rfl⟩
  cases hm with
  | quiet hr => cases hr
  | idle _ =>
      refine ⟨.failed, fun a ha => ?_, trivial, .idle⟩
      obtain ⟨s', hm, hnext⟩ := hp a (fair ha)
      cases hm with
      | quiet hr => cases hr
      | idle hr => exact ⟨_, .idle trivial, hnext⟩
  | @collect x _ _ _ _ _ hh hpaid hb =>
      refine ⟨.taken { x with paid := result'.subresults, batch := batch', settled := false },
        fun a ha => ?_, ⟨?_, nofun⟩, .gathered⟩
      · obtain ⟨s', hm, hnext⟩ := hp a (fair ha)
        cases hm with
        | quiet hr => cases hr
        | collect _ _ _ => exact ⟨_, .collect hh rfl rfl, hnext⟩
      · have books := hs.1
        rw [← hh, ← hpaid, ← hb] at books
        change w'.Books x.handle ids result'.subresults batch'
        rw [← hh]
        cases hg with
        | take ht _ => exact books.take ht
        | close hc => exact books.close hc

theorem turn (hp : Runs p s Q) (hs : Shows ids s w) (ht : p.Turn place w d p' w') :
    ∃ s', Runs p' s' Q ∧ Shows (ids ++ d.spawned) s' w' ∧ Step s d s' := by
  cases ht with
  | answered ha =>
      obtain ⟨s', hm, hn⟩ := hp _ (fair_of_answers ha)
      exact ⟨s', hn, answered_shows hs hm ha, .answered hm⟩
  | gathered hg =>
      rw [show Deed.spawned .gathered = [] from rfl, List.append_nil]
      exact gathered_shows hp hs hg

end

/-! Among other firings. -/

/-- The children that are spawned on a way. -/
def spawnedBy (ds : List Deed) : List ChildId := ds.flatMap Deed.spawned

section

variable {ι : Type} [DecidableEq ι] {crew : ι → Occasion} {outside : World → World → Prop}
  {c c' : Scene ι} {w : World} {es : List (Event ι)} {e : Event ι} {i j : ι} {s s' : Tally}

/-- The firing is as its tally says. -/
structure Inv (i : ι) (c : Scene ι) (es : List (Event ι)) (s : Tally) : Prop where
  custody : Custody.Inv c es
  course : Runs (c.program i) s fun s _ => s.Square
  shows : Shows (spawnedBy (deedsOf i es)) s c.world
  handle : ∀ h, s.handle? = some h → Custody.handleOf (deedsOf i es) = some h

theorem inv_begin (w : World) (i : ι) : Inv i (Scene.begin crew w) [] .unmade :=
  ⟨Custody.inv_begin w, program_runs (crew i), rfl, nofun⟩

/-- A tally has the handle that was made for the firing. -/
theorem Step.handle {d : Deed} {h : HandleId} (hs : Step s d s') (hh : s'.handle? = some h) :
    s.handle? = some h ∨ s.handle? = none ∧ Custody.made? d = some h := by
  cases hs with
  | gathered => exact .inl hh
  | idle => cases hh
  | answered hm =>
      cases hm with
      | make => exact .inr ⟨rfl, hh⟩
      | notTaken | notRecorded | idle => cases hh
      | take | collect | record | spawn | handler | quiet => exact .inl hh

theorem Inv.step (hi : Inv i c es s)
    (ho : ∀ w w', outside w w' → w.LeavesChildren w') (he : c.Step crew outside e c') :
    ∃ s', Inv i c' (es ++ [e]) s' ∧
      (s' = s ∧ (∀ d, e ≠ .deed i d) ∨ ∃ d, e = .deed i d ∧ Step s d s') := by
  have custody := hi.custody.step (fun _ _ hw => (ho _ _ hw).length) he
  cases he with
  | outside hw =>
      refine ⟨s, ⟨custody, hi.course, ?_, ?_⟩, .inl ⟨rfl, fun _ h => nomatch h⟩⟩
      · simpa using shows_of_goes hi.shows (ho _ _ hw)
      · simpa using hi.handle
  | @deed j d p w ht =>
      by_cases hj : j = i
      · subst hj
        obtain ⟨s', hp, hs, hstep⟩ := turn hi.course hi.shows ht
        refine ⟨s', ⟨custody, by simpa using hp, ?_, fun h hh => ?_⟩, .inr ⟨d, rfl, hstep⟩⟩
        · simpa [spawnedBy] using hs
        · rw [Custody.handleOf_own]
          rcases hstep.handle hh with hh | ⟨-, hmade⟩
          · rw [hi.handle h hh]
            rfl
          · obtain ⟨-, -, fresh⟩ := Custody.turn (hi.custody.course j) ht
            rw [(fresh h hmade).1, hmade]
            rfl
      · refine ⟨s, ⟨custody, ?_, ?_, ?_⟩, .inl ⟨rfl, fun d' h => hj (Event.deed.inj h).1⟩⟩
        · simpa [Ne.symm hj] using hi.course
        · have same := shows_of_same hi.shows fun h hh =>
            hi.custody.leavesHandle ht hj (hi.handle h hh)
          simpa [hj] using same
        · rw [Custody.handleOf_other hj]
          exact hi.handle

theorem inv_of_run (hr : Run (Scene.Step crew outside) (.begin crew w) es c)
    (ho : ∀ w w', outside w w' → w.LeavesChildren w') (i : ι) : ∃ s, Inv i c es s := by
  induction hr with
  | nil => exact ⟨_, inv_begin w i⟩
  | snoc _ he ih =>
      obtain ⟨s, hi⟩ := ih
      obtain ⟨s', hi', -⟩ := hi.step ho he
      exact ⟨s', hi'⟩

/-- The task is taken, and what was recorded of its children is stored. -/
def Stored (oid : TaskOid) (w : World) (s : Tally) : Prop :=
  ∃ x : Account, s = .taken x ∧ x.oid = oid ∧ w.store.available ∧
    ∃ t, w.store.find? oid = some t ∧
      ∀ rs, x.recorded = some rs → ∃ result, t.result = some result ∧ result.subresults = rs

theorem stored_leaves {oid : TaskOid} {w w' : World} (hs : Stored oid w s)
    (hw : w.LeavesResult oid w') : Stored oid w' s := by
  obtain ⟨x, rfl, rfl, ha, t, ht, hr⟩ := hs
  obtain ⟨t', ht', hsame⟩ := hw.result t ht
  exact ⟨x, rfl, rfl, hw.available ha, t', ht', by rw [hsame]; exact hr⟩

/-- A firing that has taken its task records the results of children, or goes on with those
that it has recorded. -/
theorem Step.recorded {x : Account} {d : Deed} (hs : Step (.taken x) d s') :
    (∃ (result : OperationResult) (a : Except StoreError Task),
      d = .answered (.modify x.oid { result := some result } .always) a ∧
        ∀ t, a = .ok t → ∃ x', s' = .taken x' ∧ x'.oid = x.oid ∧
          x'.recorded = some result.subresults) ∨
    (∀ (oid : TaskOid) (result : OperationResult) (c : Precondition) (a : Except StoreError Task),
      d ≠ .answered (.modify oid { result := some result } c) a) ∧
        ∃ x', s' = .taken x' ∧ x'.oid = x.oid ∧ x'.recorded = x.recorded := by
  cases hs with
  | gathered => exact .inr ⟨fun _ _ _ _ h => (nomatch h), _, rfl, rfl, rfl⟩
  | answered hm =>
      cases hm with
      | collect | spawn | handler => exact .inr ⟨fun _ _ _ _ h => (nomatch h), _, rfl, rfl, rfl⟩
      | record hp => exact .inl ⟨_, _, rfl, fun _ _ => ⟨_, rfl, rfl, by rw [hp]⟩⟩
      | notRecorded => exact .inl ⟨_, _, rfl, fun _ h => nomatch h⟩
      | quiet hr =>
          refine .inr ⟨fun _ _ _ _ h => ?_, _, rfl, rfl, rfl⟩
          cases h
          exact nomatch hr.1

/-- A firing that takes its task has a handle and begins its account. -/
theorem Step.takes {f : Occasion} {v : UInt64} {t : Task}
    (hs : Step s (Milestones.taking f v t) s') :
    ∃ h, s' = .taken { oid := f.oid, handle := h } := by
  cases hs with
  | answered hm =>
      generalize hdelta : Possession.runningDelta f.nodeId = delta at hm
      generalize hcond : Precondition.version v = cond at hm
      generalize f.oid = oid at hm ⊢
      cases hm with
      | take => exact ⟨_, rfl⟩
      | record => cases hcond
      | quiet hr =>
          subst hdelta
          exact absurd rfl (hr.2 f.nodeId)
      | idle hr =>
          subst hdelta
          exact absurd rfl (hr f.nodeId)

/-- Where nobody else records a result of the task, what is stored is what the firing has
recorded last. -/
theorem stored_step {oid : TaskOid} {q q' : Stage ι}
    (hq : q.Step crew (HandlerCall.LeavesResult oid) (World.LeavesResult oid) e q')
    (hs : Stored oid q.world s) (ho : (crew i).oid = oid)
    (hn : ∀ j result, j ≠ i → (crew j).oid = oid → ¬ e.Records (crew j) j result)
    (hstep : s' = s ∧ (∀ d, e ≠ .deed i d) ∨ ∃ d, e = .deed i d ∧ Step s d s') :
    Stored oid q'.world s' := by
  have stored := hs
  obtain ⟨x, rfl, hx, ha, t, ht, -⟩ := hs
  by_cases hrec : ∃ result, e.Records (crew i) i result
  · obtain ⟨result, hrec⟩ := hrec
    obtain ⟨hav, t', ht', hresult⟩ := Succession.result_of_records hq hrec
    obtain ⟨u, rfl⟩ := hrec
    rcases hstep with ⟨-, hno⟩ | ⟨d, hd, hstep⟩
    · exact absurd rfl (hno _)
    · obtain ⟨-, rfl⟩ := Event.deed.inj hd
      rcases hstep.recorded with ⟨result', a, hd, hx'⟩ | ⟨hno, -⟩
      · rw [ho, hx] at hd
        cases hd
        obtain ⟨x', rfl, hx', hr'⟩ := hx' u rfl
        refine ⟨x', rfl, hx'.trans hx, hav ▸ ha, t', ho ▸ ht', fun rs hrs => ?_⟩
        exact ⟨result, hresult, Option.some.inj (hr'.symm.trans hrs)⟩
      · exact absurd rfl (hno _ _ _ _)
  · have leaves : q.world.LeavesResult oid q'.world := by
      refine Succession.leavesResult_of_step hq fun j result hj hrecords => ?_
      by_cases hji : j = i
      · subst hji
        exact hrec ⟨result, hrecords⟩
      · exact hn j result hji hj hrecords
    rcases hstep with ⟨rfl, -⟩ | ⟨d, rfl, hstep⟩
    · exact stored_leaves stored leaves
    rcases hstep.recorded with ⟨result, a, rfl, -⟩ | ⟨-, x', rfl, hx', hr'⟩
    · -- the record is there, so it was written
      refine absurd ⟨result, ?_⟩ hrec
      cases hq with
      | answered hanswer _ =>
          have written := Store.modify_always ha ht { result := some result }
          rw [← hx, hanswer.modify.2] at written
          refine ⟨Store.written t { result := some result }, ?_⟩
          rw [show a = _ from written, hx, ho]
    · obtain ⟨y, hy, hyo, hya, u, hu, hr⟩ := stored_leaves stored leaves
      cases hy
      exact ⟨x', rfl, hx'.trans hyo, hya, u, hu, by rw [hr']; exact hr⟩

theorem stored_run {oid : TaskOid} {es' : List (Event ι)} {q : Stage ι}
    (hr : Run (Scene.Step crew (World.Lets oid)) c es' c') (hi : Inv i c es s)
    (hs : Stored oid c.world s) (ho : (crew i).oid = oid)
    (hq : c.ShownBy crew (HandlerCall.LeavesResult oid) q)
    (hn : ∀ e ∈ es', ∀ j result, j ≠ i → (crew j).oid = oid → ¬ e.Records (crew j) j result) :
    ∃ s', Inv i c' (es ++ es') s' ∧ Stored oid c'.world s' ∧
      ∃ q', c'.ShownBy crew (HandlerCall.LeavesResult oid) q' := by
  induction hr with
  | nil => exact ⟨s, by simpa using hi, hs, q, hq⟩
  | @snoc c₁ c₂ es' e _ he ih =>
      obtain ⟨s₁, hi₁, hs₁, q₁, hq₁⟩ := ih fun e he => hn e (List.mem_append_left _ he)
      obtain ⟨s₂, hi₂, hstep⟩ := hi₁.step (fun _ _ h => h.children) he
      obtain ⟨q₂, hstage, hq₂⟩ := Scene.step_shown hq₁ (he.mono fun _ _ h => h.result)
      rw [← hq₁.world] at hs₁
      have hs₂ := stored_step hstage hs₁ ho (hn e (by simp)) hstep
      rw [hq₂.world] at hs₂
      exact ⟨s₂, by rwa [← List.append_assoc], hs₂, q₂, hq₂⟩

end

end Accounts

/-- When a firing returns that has taken its task, all its children are closed, and the stored
result tells of each of them once, in the order in which they were spawned. -/
theorem children_accounted {ι : Type} [DecidableEq ι] {crew : ι → Occasion} {w : World}
    {c : Scene ι} {before after : List (Event ι)} {e : Event ι} {i : ι} {report : FiringOutcome}
    (hk : ∀ j, (crew j).node.KeepsTo (HandlerCall.LeavesResult (crew i).oid))
    (hr : Run (Scene.Step crew (World.Lets (crew i).oid)) (.begin crew w)
      (before ++ e :: after) c)
    (he : e.Takes (crew i) i)
    (hn : ∀ e' ∈ after, ∀ j result, j ≠ i → (crew j).oid = (crew i).oid →
      ¬ e'.Records (crew j) j result)
    (hd : (Accounts.spawnedBy (deedsOf i (before ++ e :: after))).Nodup)
    (hdone : c.program i = .done report) :
    ∃ h handle t result,
      Custody.handleOf (deedsOf i (before ++ e :: after)) = some h ∧
      c.world.handle? h = some handle ∧
      handle.children.map Child.id = Accounts.spawnedBy (deedsOf i (before ++ e :: after)) ∧
      c.world.store.find? (crew i).oid = some t ∧ t.result = some result ∧
      List.Forall₂ Child.Settled handle.children result.subresults := by
  have children (w w' : World) (h : w.Lets (crew i).oid w') : w.LeavesChildren w' := h.children
  obtain ⟨c₁, c₂, h₁, hstep, h₂⟩ := hr.around
  obtain ⟨v, t, rfl⟩ := he
  -- up to the taking of the task, and the taking itself
  obtain ⟨s₁, hi₁⟩ := Accounts.inv_of_run h₁ children i
  obtain ⟨s₂, hi₂, hs₂⟩ := hi₁.step children hstep
  have ⟨h, hs₂⟩ : ∃ h, s₂ = .taken { oid := (crew i).oid, handle := h } := by
    rcases hs₂ with ⟨-, hno⟩ | ⟨d, hd, hs₂⟩
    · exact absurd rfl (hno _)
    · obtain ⟨-, rfl⟩ := Event.deed.inj hd
      exact hs₂.takes
  subst hs₂
  have stored : Accounts.Stored (crew i).oid c₂.world
      (.taken { oid := (crew i).oid, handle := h }) := by
    cases hstep with
    | deed ht =>
        generalize c₁.program i = p at ht
        cases ht with
        | answered ha =>
            obtain ⟨hav, -, -, -, -, hf⟩ := Store.modify_ok ha.modify.2
            have hav := hav ▸ Store.available_of_modify ha.modify.2
            exact ⟨_, rfl, rfl, hav, t, by simpa using hf (crew i).oid, fun _ h => nomatch h⟩
  obtain ⟨q, -, hq⟩ := Scene.run_shown (Scene.begin_shown hk w)
    ((h₁.snoc hstep).restrict (P := fun _ => True) (fun _ _ => trivial)
      fun _ _ _ _ he => he.mono fun _ _ h => h.result)
  -- from there to the end
  obtain ⟨s, hi, ⟨x, rfl, -, -, t', ht', recorded⟩, -⟩ :=
    Accounts.stored_run h₂ hi₂ stored rfl hq hn
  rw [List.append_assoc, List.singleton_append] at hi
  have square : (Tally.taken x).Square := by
    have course := hi.course
    rw [hdone] at course
    exact course
  obtain ⟨hrec, hbatch, hsettled⟩ := square
  obtain ⟨⟨handle, hh, hids, ledger⟩, paid⟩ := hi.shows
  obtain ⟨result, hresult, hsub⟩ := recorded _ hrec
  refine ⟨x.handle, handle, t', result, hi.handle _ rfl, hh, hids, ht', hresult, ?_⟩
  rw [hsub]
  refine (ledger hd).settled ?_
  rw [← paid hsettled hd, ← hids, List.length_map]

namespace Accounts

/-- A node with a handler that spawns a child that panics and one that waits; it has children
of its own when the task is started and when it is finished. -/
def crew (_ : Bool) : Occasion :=
  let f := Rehearsal.occasion "a"
    (.ask (.spawn ⟨"second", fun _ => .done (.error ⟨none⟩)⟩) fun _ =>
      .ask (.spawn ⟨"third", fun _ => .ask (.wait ⟨"gate", true⟩) fun _ =>
        .done (.ok (.new "third"))⟩) fun _ => .done (.ok ⟨.finished, none⟩))
  { f with node := { f.node with
      onStart := fun _ => [⟨"first", fun _ => .done (.ok (.new "first"))⟩]
      onFinish := fun _ => [⟨"late", fun _ => .done (.ok (.new "late"))⟩] } }

/-- What comes next by a cue; a firing that waits for children goes on with that. -/
def next? (c : Scene Bool) : Cue Bool → Option (Event Bool × Scene Bool)
  | .go i =>
      ((Succession.gather? c i).map fun c => (.deed i .gathered, c)).or (c.cue? crew (.go i))
  | .change f => c.cue? crew (.change f)

theorem next?_step {outside : World → World → Prop} {c c' : Scene Bool} {q : Cue Bool}
    {e : Event Bool} (ho : ∀ f, q = .change f → ∀ w, outside w (f w))
    (h : next? c q = some (e, c')) : c.Step crew outside e c' := by
  cases q with
  | change f => exact Scene.cue?_step ho h
  | go i =>
      rcases Option.or_eq_some_iff.mp h with h | ⟨-, h⟩
      · obtain ⟨c', hg, h⟩ := Option.map_eq_some_iff.mp h
        cases h
        exact Succession.gather?_step hg
      · exact Scene.cue?_step ho h

/-- A child goes on, if it can. -/
def childGoes (k : Nat) (w : World) : World := (w.stepChild? ⟨0⟩ k).getD w

def childrenCancelled (w : World) : World := w.onHandle ⟨0⟩ (Handle.cancelChildren false)

/-- While the firing waits for its children, one returns, one panics and the last one is
cancelled; then it goes on until it waits for the late one, and that returns. -/
abbrev cues : List (Cue Bool) :=
  List.replicate 30 (.go true) ++ [.change (childGoes 0), .change (childGoes 1)] ++
    List.replicate 2 (.go true) ++ [.change childrenCancelled] ++
    List.replicate 30 (.go true) ++ [.change (childGoes 3)] ++ List.replicate 5 (.go true)

abbrev played : List (Event Bool) × Scene Bool :=
  rehearse next? cues (.begin crew Rehearsal.world)

theorem childGoes_lets (k : Nat) (oid : TaskOid) (w : World) : w.Lets oid (childGoes k w) := by
  unfold childGoes
  cases h : w.stepChild? ⟨0⟩ k with
  | none =>
      exact ⟨World.leavesResult_of_store rfl, World.leavesChildren_of_handles rfl⟩
  | some w' =>
      exact ⟨World.leavesResult_of_store (World.stepChild?_store h),
        World.stepChild?_leavesChildren h⟩

theorem childrenCancelled_lets (oid : TaskOid) (w : World) :
    w.Lets oid (childrenCancelled w) :=
  ⟨World.leavesResult_of_store rfl, World.leavesChildren_of_modify rfl fun handle _ =>
    World.forall₂_cancelChildren false handle⟩

theorem played_run :
    Run (Scene.Step crew (World.Lets Rehearsal.task.oid)) (.begin crew Rehearsal.world)
      played.1 played.2 := by
  refine run_rehearse _ _ fun q hq _ _ _ => next?_step fun f hf w => ?_
  subst hf
  simp only [List.mem_append, List.mem_replicate, List.mem_cons, Cue.change.injEq, reduceCtorEq,
    and_false, false_or, or_false, List.not_mem_nil] at hq
  rcases hq with ((rfl | rfl) | rfl) | rfl
  · exact childGoes_lets 0 _ w
  · exact childGoes_lets 1 _ w
  · exact childrenCancelled_lets _ w
  · exact childGoes_lets 3 _ w

theorem crew_keepsTo (i : Bool) :
    (crew i).node.KeepsTo (HandlerCall.LeavesResult Rehearsal.task.oid) :=
  @Rehearsal.occasion_keepsTo "a" _ _ ⟨trivial, fun _ => ⟨trivial, fun _ => trivial⟩⟩

end Accounts

/-- Of four children one returns, one panics, one is cancelled and one comes late. -/
theorem children_accounted_played : ∃ h handle t result,
    Custody.handleOf (deedsOf true Accounts.played.1) = some h ∧
      Accounts.played.2.world.handle? h = some handle ∧
      handle.children.map Child.id = Accounts.spawnedBy (deedsOf true Accounts.played.1) ∧
      (Accounts.spawnedBy (deedsOf true Accounts.played.1)).length = 4 ∧
      Accounts.played.2.world.store.find? Rehearsal.task.oid = some t ∧
      t.result = some result ∧
      List.Forall₂ Child.Settled handle.children result.subresults := by
  obtain ⟨e, split, taken⟩ := Succession.split_at
    (by decide +kernel : Accounts.played.1[7]?.any (Succession.takes (Accounts.crew true) true))
  have hr := Accounts.played_run
  have distinct : (Accounts.spawnedBy (deedsOf true Accounts.played.1)).Nodup := by
    decide +kernel
  have alone : Accounts.played.1.all
      (Succession.recorded? (Accounts.crew false) false · = none) := by
    decide +kernel
  obtain ⟨report, done⟩ : ∃ report, Accounts.played.2.program true = .done report :=
    Scene.done_of_hasEnded (by decide +kernel)
  rw [split] at hr distinct
  have others : ∀ e' ∈ Accounts.played.1.drop (7 + 1), ∀ j result, j ≠ true →
      (Accounts.crew j).oid = (Accounts.crew true).oid →
        ¬ e'.Records (Accounts.crew j) j result := by
    intro e' he' j result hj _ hrec
    have := List.all_eq_true.mp alone e' (List.mem_of_mem_drop he')
    cases j with
    | true => exact hj rfl
    | false => simp [Succession.recorded?_iff.mpr hrec] at this
  obtain ⟨h, handle, t, result, hh, hhandle, hids, ht, hresult, hall⟩ :=
    children_accounted (i := true) Accounts.crew_keepsTo hr (Succession.takes_iff.mp taken) others
      distinct done
  rw [← split] at hh hids
  exact ⟨h, handle, t, result, hh, hhandle, hids, by decide +kernel, ht, hresult, hall⟩

end TaskFiring
