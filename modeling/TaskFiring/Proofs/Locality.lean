import TaskFiring.Proofs.Custody
import TaskFiring.Proofs.Loading
import TaskFiring.Proofs.Pairing

/-!
A firing goes by what is its own. It is paired with itself: in two of its runs it has another
handle, finds other tasks in other states and is told other identifiers; but all that it goes
by is its own record, its own handle and where the other tasks are in the hierarchy. There is
one statement for each part of a firing.
-/

namespace TaskFiring

namespace Call

variable {s : Store} {oid : TaskOid} {r : Call}

theorem IsErrand.own (h : r.IsErrand oid) : r.IsOwn s oid := by
  cases r with
  | modify => exact h.1
  | get | unschedule | deleteJob | rescheduleLater | scheduleNow | nextFireTime | now
  | schedulerRunning => exact h
  | _ => cases h

end Call

/-- A firing in another run, under another handle. -/
def Firing.Twin (oid : TaskOid) (g g' : Firing) : Prop :=
  g.task.oid = oid ∧ ∃ h, g' = { g with handle := h }

namespace Locality

open Program (Only Paired)

/-- The parts go together as calls of that task, and what they give compares. -/
abbrev Pairs {α β : Type} (s : Store) (oid : TaskOid) (p : Action α) (p' : Action β)
    (R : α → β → Prop) : Prop :=
  p.Paired (Call.Kin s oid) p' R

section

variable {s : Store} {oid : TaskOid} {α ε σ : Type}

/-! Parts that mind their task only. -/

theorem own_of_errand {p : Action α} (hp : p.Only (Call.IsErrand oid)) :
    p.Only (Call.IsOwn s oid) :=
  hp.mono fun _ => Call.IsErrand.own

theorem pairs_of_runs {p : Action α} (hp : p.Only (Call.IsOwn s oid)) {M : Protocol Calls σ}
    {x : σ} {Q : σ → α → Prop} (hq : p.Follows Call.Fair M x Q) :
    Pairs s oid p p fun a b => a = b ∧ ∃ x, Q x a :=
  hp.paired (fun _ => .own) hq

theorem pairs_of_own {p : Action α} (hp : p.Only (Call.IsOwn s oid)) :
    Pairs s oid p p fun a b => a = b :=
  (pairs_of_runs (M := fun _ _ _ _ => True) (x := ()) hp
    (hp.follows fun _ _ _ => trivial)).mono fun _ _ h => h.1

theorem attempt_of_own {x : ExceptT ε (Program Calls) α} (hx : x.run.Only (Call.IsOwn s oid)) :
    Pairs s oid x.run x.run (Matched fun a b => a = b) :=
  (pairs_of_own hx).mono fun _ _ h => Program.matched_of_eq h fun _ _ => rfl

theorem recordResult_own (result : OperationResult) :
    (Administration.recordResult oid result).run.Only (Call.IsOwn s oid) :=
  ⟨rfl, fun _ => trivial⟩

theorem resolve_own {t : Task} (ho : t.oid = oid) (handlers : Handlers)
    (result : OperationResult) :
    (Handling.resolve handlers t result).Only (Call.IsOwn s oid) := by
  subst ho
  cases hh : handlers.resolve t.handlerRef with
  | some handler =>
      rw [Handling.resolve_of_some hh]
      trivial
  | none =>
      simp only [Handling.resolve, hh]
      refine Only.bind (Custody.bestEffort_only (recordResult_own _)) fun _ => ?_
      exact Only.bind (Custody.bestEffort_only (own_of_errand (Custody.close_errand _)))
        fun _ => trivial

theorem applyOutcome_own {t : Task} (ho : t.oid = oid) (ended : HandlerEnd)
    (result : OperationResult) :
    (Handling.applyOutcome t ended result).Only (Call.IsOwn s oid) := by
  subst ho
  cases ended with
  | error e => exact Only.bind (Custody.bestEffort_only (recordResult_own _)) fun _ => trivial
  | ok outcome =>
      refine Only.bind (recordResult_own _) fun answer => ?_
      cases answer with
      | error e => trivial
      | ok current =>
          dsimp only
          split
          · split
            · exact Only.bind (Custody.bestEffort_only (own_of_errand (Custody.close_errand _)))
                fun _ => trivial
            · exact Only.bind (Custody.bestEffort_only (own_of_errand (Custody.suspend_errand _)))
                fun _ => trivial
            · trivial
          · trivial

/-! Loading. -/

/-- The way up leads to where it leads in that store. -/
theorem ancestor_pairs {t u : Task} (task : TaskOid) (room : Nat) (visited : List TaskOid)
    {top top' : Option Task} (h : (top.getD t).position = u.position)
    (h' : (top'.getD t).position = u.position) :
    Pairs s oid (Preparation.ancestor task room visited top (top.getD t).parent).run
      (Preparation.ancestor task room visited top' (top'.getD t).parent).run
      (Matched fun root root' => (root.getD t).position = (s.topmost room visited u).position ∧
        (root'.getD t).position = (s.topmost room visited u).position) := by
  have parent {v : Task} (hv : v.position = u.position) : v.parent = u.parent :=
    (Prod.mk.inj (Prod.mk.inj hv).2).1
  induction room generalizing visited top top' u with
  | zero => exact .ok ⟨h, h'⟩
  | succ room ih =>
      unfold Store.topmost
      rw [parent h, parent h']
      cases u.parent with
      | none => exact .ok ⟨h, h'⟩
      | some up =>
          by_cases hv : up ∈ visited
          · rw [Course.ancestor_visited hv, Course.ancestor_visited hv]
            simp only [hv, if_true]
            exact .ok ⟨h, h'⟩
          · rw [Course.ancestor_unvisited hv, Course.ancestor_unvisited hv]
            simp only [hv, if_false]
            refine Paired.query (.get up) ?_
            rintro a b ⟨ha, hb, -⟩
            cases hg : s.get up with
            | ok v =>
                rw [Store.get_ok hg]
                rw [hg] at ha hb
                cases a with
                | error e => cases ha
                | ok p =>
                    cases b with
                    | error e => cases hb
                    | ok p' =>
                        have next : ((some p).getD t).position = v.position := Except.ok.inj ha
                        have next' : ((some p').getD t).position = v.position := Except.ok.inj hb
                        exact ih (up :: visited) next next'
                          fun hv => (Prod.mk.inj (Prod.mk.inj hv).2).1
            | error e =>
                rw [hg] at ha hb
                cases a with
                | ok p => cases ha
                | error e₁ =>
                    cases b with
                    | ok p' => cases hb
                    | error e₂ =>
                        obtain rfl := Except.error.inj ha
                        obtain rfl := Except.error.inj hb
                        cases e₂ with
                        | notFound oid' =>
                            rw [Store.find?_of_notFound hg]
                            exact .ok ⟨h, h'⟩
                        | conflict _ _ _ | preconditionFailed _ _ | backend _ => exact .error _

/-- Both runs load the same record and the same constraints, which are those of that store. -/
theorem load_pairs (oid : TaskOid) :
    Pairs s oid (Preparation.load oid).run (Preparation.load oid).run
      (Matched fun x y => x.task = y.task ∧ x.constraints = y.constraints ∧ x.task.oid = oid ∧
        ∀ c, x.constraints = some c → ∀ g, c.containsGroup g → s.InGroup oid g) := by
  unfold Preparation.load
  refine Paired.query (.get oid) ?_
  rintro a b ⟨ha, -, hab⟩
  obtain rfl := hab rfl
  cases a with
  | error e =>
      cases e with
      | notFound oid' =>
          exact Paired.query (.own rfl) fun _ _ _ => .error _
      | conflict _ _ _ | preconditionFailed _ _ | backend _ => exact .error _
  | ok t =>
      obtain ⟨u, hu, hpos⟩ : ∃ u, s.get oid = .ok u ∧ u.position = t.position := by
        cases hg : s.get oid with
        | error e =>
            rw [hg] at ha
            cases ha
        | ok u =>
            rw [hg] at ha
            exact ⟨u, rfl, (Except.ok.inj ha).symm⟩
      have found := Store.get_ok hu
      obtain ⟨ho, htail⟩ := Prod.mk.inj hpos
      have hc : u.constraints = t.constraints := (Prod.mk.inj htail).2
      have htu : t.oid = oid := ho.symm.trans (Store.oid_of_find? found)
      have start : ((none : Option Task).getD t).position = u.position := hpos.symm
      refine Paired.attempt
        (ancestor_pairs oid (maxHierarchyDepth - 1) [t.oid] start start) ?_
      rintro root root' ⟨hroot, hroot'⟩
      have effective {r : Option Task} (hr : (r.getD t).position
          = (s.topmost (maxHierarchyDepth - 1) [t.oid] u).position) :
          t.constraints.or (r.bind Task.constraints) = s.effectiveConstraints u := by
        have hr : (r.getD t).constraints = _ := (Prod.mk.inj (Prod.mk.inj hr).2).2
        rw [Store.effectiveConstraints_eq_or, hc, ho, ← hr]
        cases r with
        | some p => rfl
        | none => exact Option.or_none.trans Option.or_self.symm
      refine .ok ⟨rfl, (effective hroot).trans (effective hroot').symm, htu, ?_⟩
      intro c hcon g hg
      refine ⟨u, found, ?_⟩
      rw [← effective hroot, show t.constraints.or (root.bind Task.constraints) = some c from hcon]
      exact hg

/-! Up to admission. -/

theorem repair_pairs {t : Task} (ho : t.oid = oid) (here : NodeId) (recovering : Bool) :
    Pairs s oid (Preparation.repair here t recovering).run
      (Preparation.repair here t recovering).run
      (Matched fun a b => a = b ∧ a.oid = oid) := by
  subst ho
  unfold Preparation.repair
  refine Paired.query .registered fun found found' h => ?_
  rw [h]
  split
  · exact .ok ⟨rfl, rfl⟩
  · refine Paired.query (.own rfl) ?_
    rintro answer _ ⟨rfl, fair⟩
    cases answer with
    | ok t' => exact .ok ⟨rfl, fair⟩
    | error e => cases e <;> exact .error _

theorem saturated_own {config : Config} {gs : List GroupConstraint}
    (hg : ∀ g ∈ gs, s.InGroup oid g.group) :
    (Admission.saturated config oid gs).run.Only (Call.IsOwn s oid) := by
  induction gs with
  | nil => trivial
  | cons g gs ih =>
      obtain ⟨hhere, hrest⟩ := List.forall_mem_cons.mp hg
      unfold Admission.saturated
      split
      · exact ih hrest
      · refine Only.attempt ⟨⟨rfl, hhere⟩, fun _ => trivial⟩ fun running => ?_
        refine Only.attempt (ih hrest) fun rest => ?_
        split <;> trivial

theorem naturalRefire?_own (config : Config) {t : Task} (ho : t.oid = oid) (latest : Instant) :
    (Admission.naturalRefire? config t latest).Only (Call.IsOwn s oid) := by
  unfold Admission.naturalRefire?
  split
  · trivial
  · refine Only.bind ⟨ho, fun _ => trivial⟩ fun answer => ?_
    split <;> trivial

theorem enforce_own (config : Config) {t : Task} (ho : t.oid = oid)
    {constraints : Option Constraints}
    (hg : ∀ c, constraints = some c → ∀ g, c.containsGroup g → s.InGroup oid g) :
    (Admission.enforce config t constraints).run.Only (Call.IsOwn s oid) := by
  have check : (Admission.check config t constraints).run.Only (Call.IsOwn s oid) := by
    unfold Admission.check
    split
    · trivial
    · next c =>
      rw [ho]
      refine Only.attempt (saturated_own fun g hmem => hg c rfl _ ?_) fun full => ?_
      · exact List.any_eq_true.mpr ⟨g, hmem, decide_eq_true rfl⟩
      · split
        · trivial
        · refine Only.lift ⟨trivial, fun _ => trivial⟩ fun now => ?_
          refine Only.lift (naturalRefire?_own _ ho _) fun next => ?_
          split <;> trivial
  unfold Admission.enforce
  refine Only.attempt check fun decision => ?_
  split
  · trivial
  · split
    · exact Only.attempt ⟨ho, fun _ => trivial⟩ fun _ => trivial
    · trivial

theorem prepare_pairs (node : Node) (oid : TaskOid) (recovering : Bool) :
    Pairs s oid (Firing.prepare node oid recovering).run
      (Firing.prepare node oid recovering).run (Matched (Firing.Twin oid)) := by
  unfold Firing.prepare
  refine Paired.attempt (load_pairs oid) ?_
  rintro ⟨t, root, constraints⟩ ⟨_, root', _⟩ ⟨rfl, rfl, ho, hg⟩
  have errand {x : Step Unit} (hx : x.run.Only (Call.IsErrand t.oid)) :
      Pairs s oid x.run x.run (Matched fun a b => a = b) :=
    attempt_of_own (own_of_errand (ho ▸ hx))
  refine Paired.attempt (errand (Custody.ensureReady_errand t)) fun _ _ _ => ?_
  refine Paired.attempt (repair_pairs ho _ _) ?_
  rintro t' _ ⟨rfl, ho'⟩
  have errand {x : Step Unit} (hx : x.run.Only (Call.IsErrand t'.oid)) :
      Pairs s oid x.run x.run (Matched fun a b => a = b) :=
    attempt_of_own (own_of_errand (ho' ▸ hx))
  refine Paired.attempt (errand (Custody.ensureSchedulerRunning_errand t')) fun _ _ _ => ?_
  refine Paired.attempt (errand (Custody.applyRecoveryPolicy_errand t' recovering))
    fun _ _ _ => ?_
  refine Paired.attempt (attempt_of_own (enforce_own _ ho' hg)) fun _ _ _ => ?_
  exact Paired.query .newHandle fun h h' _ => .ok ⟨ho', h', rfl⟩

/-! The handler and the children. -/

theorem spawnAll_pairs (h h' : HandleId) {cs : List ChildSpec} (hc : ∀ c ∈ cs, c.Alike c) :
    Pairs s oid (Firing.spawnAll h cs) (Firing.spawnAll h' cs) fun _ _ => True := by
  induction cs with
  | nil => trivial
  | cons c cs ih =>
      obtain ⟨hhere, hrest⟩ := List.forall_mem_cons.mp hc
      exact Paired.ask (.spawn hhere) fun _ _ _ => ih hrest

theorem guarded_pairs (h h' : HandleId) {work work' : HandlerWork}
    (hw : work.Paired (HandlerCall.Kin oid) work' fun a b => a = b) :
    Pairs s oid (Handling.guarded h oid work) (Handling.guarded h' oid work')
      fun a b => a = b := by
  induction work generalizing work' with
  | done a =>
      cases work' with
      | done a' => exact hw
      | ask r' next' => exact hw.elim
  | ask r next ih =>
      cases work' with
      | done a' => exact hw.elim
      | ask r' next' =>
          obtain ⟨like, hr, hnext⟩ := hw
          unfold Handling.guarded
          refine ⟨_, .handler hr, ?_⟩
          rintro _ _ ⟨x, y, rfl, rfl, hxy⟩
          exact ih x (hnext x y hxy)

theorem run_pairs {handler : Handler} (hw : handler.MindsItself) (h h' : HandleId)
    {context : RunContext} (ho : context.task.oid = oid) :
    Pairs s oid (Handling.run handler h context) (Handling.run handler h' context)
      fun a b => a = b := by
  subst ho
  refine Paired.ask .isInterrupted ?_
  rintro _ _ ⟨rfl, rfl⟩
  exact guarded_pairs h h' (hw context)

variable {node : Node} {g g' : Firing}

theorem runHandler_pairs {handler : Handler} (hw : handler.MindsItself)
    (hg : g.Twin oid g') :
    Pairs s oid (Firing.runHandler handler g) (Firing.runHandler handler g')
      fun a b => a = b := by
  obtain ⟨ho, h, rfl⟩ := hg
  refine Paired.ask (.own trivial) fun _ _ _ => ?_
  refine Paired.ask .setExecuting fun _ _ _ => ?_
  refine (run_pairs hw _ _ ho).bind ?_
  rintro ended _ rfl
  refine Paired.ask .setExecuting fun _ _ _ => ?_
  exact Paired.ask (.own trivial) fun _ _ _ => rfl

theorem collectChildren_pairs (hg : g.Twin oid g') :
    Pairs s oid (Firing.collectChildren g) (Firing.collectChildren g')
      fun x y => x.1.Twin oid y.1 ∧ x.2 = y.2 := by
  obtain ⟨ho, h, rfl⟩ := hg
  refine Paired.ask .collect ?_
  rintro ⟨result, closed⟩ _ rfl
  exact ⟨⟨ho, h, rfl⟩, rfl⟩

theorem runTaken_pairs (hn : node.MindsItself oid) {handler : Handler}
    (hw : handler.MindsItself) (hg : g.Twin oid g') :
    Pairs s oid (Firing.runTaken node handler g) (Firing.runTaken node handler g')
      fun x y => x.1.Twin oid y.1 ∧ x.2 = y.2 := by
  have twin := hg
  obtain ⟨ho, h, rfl⟩ := hg
  refine Paired.ask .setSafe fun _ _ _ => ?_
  refine Paired.ask (.own ho) fun _ _ _ => ?_
  refine (spawnAll_pairs g.handle h (ho ▸ hn.onStart)).bind fun _ _ _ => ?_
  refine (runHandler_pairs hw twin).bind ?_
  rintro ended _ rfl
  refine (collectChildren_pairs twin).bind ?_
  rintro ⟨g₁, n⟩ ⟨g₂, _⟩ ⟨hg', -⟩
  exact ⟨hg', rfl⟩

theorem conclude_pairs (hg : g.Twin oid g') (ended : HandlerEnd) :
    Pairs s oid (Firing.conclude g ended) (Firing.conclude g' ended)
      fun x y => x.1.Twin oid y.1 ∧ x.2 = y.2 := by
  obtain ⟨ho, h, rfl⟩ := hg
  refine (pairs_of_own (applyOutcome_own ho ended g.result)).bind ?_
  rintro result _ rfl
  cases ended <;> exact ⟨⟨ho, h, rfl⟩, rfl⟩

/-- The handler that runs is one of the node. -/
theorem runStarted_pairs {f : Occasion} (hn : f.node.MindsItself f.oid) (hg : g.Twin f.oid g') :
    Pairs s f.oid (Firing.runStarted f.node g) (Firing.runStarted f.node g')
      fun x y => x.1.Twin f.oid y.1 ∧ x.2 = y.2 := by
  obtain ⟨ho, h, rfl⟩ := hg
  have resolved := @Course.resolve_runs f (fun _ => True) h _ ho g.result
  refine (pairs_of_runs (resolve_own ho f.node.handlers g.result) resolved).bind ?_
  rintro ⟨found, result⟩ _ ⟨rfl, _, -, hfound⟩
  cases found with
  | error stop => exact ⟨⟨ho, h, rfl⟩, rfl⟩
  | ok handler =>
      have hw := hn.handlers _ handler (hfound handler rfl)
      have twin : Firing.Twin f.oid { g with result } { g with result, handle := h } :=
        ⟨ho, h, rfl⟩
      refine (runTaken_pairs hn hw twin).bind ?_
      rintro ⟨g₁, ended⟩ ⟨g₂, _⟩ ⟨hg, rfl⟩
      exact conclude_pairs hg ended

theorem runRegistered_pairs {f : Occasion} (hn : f.node.MindsItself f.oid)
    (hg : g.Twin f.oid g') :
    Pairs s f.oid (Firing.runRegistered f.node g) (Firing.runRegistered f.node g')
      fun x y => x.1.Twin f.oid y.1 ∧ x.2 = y.2 := by
  obtain ⟨ho, h, rfl⟩ := hg
  have start := @Course.start_runs f (fun _ => True) _ h ho
  have own := own_of_errand (s := s) (ho ▸ Custody.start_errand g.task f.nodeId)
  refine (pairs_of_runs own start).bind ?_
  rintro started _ ⟨rfl, _, hstart, -⟩
  cases started with
  | error stop => exact ⟨⟨ho, h, rfl⟩, rfl⟩
  | ok t => exact runStarted_pairs hn ⟨(hstart t rfl).1, h, rfl⟩

/-! To the end. -/

theorem release_pairs (hn : node.MindsItself oid) (hg : g.Twin oid g') :
    Pairs s oid (Firing.release node g) (Firing.release node g') fun _ _ => True := by
  obtain ⟨ho, h, rfl⟩ := hg
  unfold Firing.release
  split
  · refine Paired.ask (.own ho) fun _ _ _ => ?_
    refine (spawnAll_pairs g.handle h (ho ▸ hn.onFinish)).bind fun _ _ _ => ?_
    exact (pairs_of_own (own_of_errand (ho ▸ Custody.settle_errand _))).mono fun _ _ _ => trivial
  · trivial

theorem obeyStop_pairs (hg : g.Twin oid g') :
    Pairs s oid (Firing.obeyStop g) (Firing.obeyStop g') fun _ _ => True := by
  obtain ⟨ho, h, rfl⟩ := hg
  refine Paired.ask .canRun ?_
  rintro _ _ ⟨rfl, rfl⟩
  trivial

theorem collectLate_pairs (hg : g.Twin oid g') :
    Pairs s oid (Firing.collectLate g) (Firing.collectLate g') (Firing.Twin oid) := by
  refine (collectChildren_pairs hg).bind ?_
  rintro ⟨g₁, closed⟩ ⟨_, _⟩ ⟨⟨ho, h, rfl⟩, rfl⟩
  dsimp only
  split
  · exact ⟨ho, h, rfl⟩
  · refine (pairs_of_own (Custody.bestEffort_only (ho ▸ recordResult_own _))).bind ?_
    exact fun _ _ _ => ⟨ho, h, rfl⟩

theorem finish_pairs (hn : node.MindsItself oid) (hg : g.Twin oid g')
    (ending : Firing.Ending) :
    Pairs s oid (Firing.finish node g ending) (Firing.finish node g' ending)
      fun a b => a = b := by
  have twin := hg
  obtain ⟨ho, h, rfl⟩ := hg
  have clean : Pairs s oid (Firing.cleanUp node g) (Firing.cleanUp node { g with handle := h })
      (Firing.Twin oid) := by
    refine Paired.ask .setExecuting fun _ _ _ => ?_
    refine (release_pairs hn twin).bind fun _ _ _ => ?_
    exact (obeyStop_pairs twin).bind fun _ _ _ => collectLate_pairs twin
  refine clean.bind ?_
  rintro g₁ _ ⟨ho, h', rfl⟩
  refine Paired.ask .deregister fun _ _ _ => ?_
  cases ending <;> exact rfl

theorem runPrepared_pairs {f : Occasion} (hn : f.node.MindsItself f.oid)
    (hg : g.Twin f.oid g') :
    Pairs s f.oid (Firing.runPrepared f.node g) (Firing.runPrepared f.node g')
      fun a b => a = b := by
  have twin := hg
  obtain ⟨ho, h, rfl⟩ := hg
  unfold Firing.runPrepared
  have own := own_of_errand (s := s)
    (ho ▸ Custody.guard_errand f.node.config.checkConcurrent g.task)
  refine (pairs_of_own own).bind ?_
  rintro guarded _ rfl
  cases guarded with
  | error stop => exact rfl
  | ok u =>
      refine Paired.ask .register ?_
      rintro registered _ rfl
      cases registered with
      | false => exact rfl
      | true =>
          refine Paired.ask .isShutDown ?_
          rintro _ _ ⟨rfl, rfl⟩
          refine (runRegistered_pairs hn twin).bind ?_
          rintro ⟨g₁, ending⟩ ⟨g₂, _⟩ ⟨hg, rfl⟩
          exact finish_pairs hn hg ending

end

end Locality

/-- Two runs of a firing make the same calls as far as its task is concerned, and give the same
report. -/
theorem Occasion.program_pairs {f : Occasion} (hn : f.node.MindsItself f.oid) (s : Store) :
    f.program.Paired (Call.Kin s f.oid) f.program fun a b => a = b := by
  unfold Occasion.program Node.fire
  refine (Locality.prepare_pairs f.node f.oid f.recovering).bind ?_
  rintro _ _ (hg | stop)
  · exact Locality.runPrepared_pairs hn hg
  · exact rfl

end TaskFiring
