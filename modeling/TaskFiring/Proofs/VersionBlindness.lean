import TaskFiring.Proofs.Versions

/-!
A firing paired with one that knows another version of its task and is told differently whether
it recovers a dead run. From the look at the scheduler on, it goes by neither: it announces the
one, asks for the other, and passes both on to its handler. There is one statement for each part
of a firing.
-/

namespace TaskFiring

/-- The handler goes on alike whatever version it is told, of those that compare, and whether
it is told this or that of a recovery. -/
def Handler.Overlooks (handler : Handler) (ρ : UInt64 → UInt64 → Prop) (b b' : Bool) : Prop :=
  ∀ t u, t.Alike ρ u →
    (handler.work ⟨t, b⟩).Paired (HandlerCall.Shifts ρ) (handler.work ⟨u, b'⟩)
      fun x y => x = y

/-- So do all handlers of the node. -/
def Node.Overlooks (node : Node) (ρ : UInt64 → UInt64 → Prop) (b b' : Bool) : Prop :=
  ∀ name handler, node.handlers.resolve name = some handler → handler.Overlooks ρ b b'

/-- No handler of the node goes by whether it recovers a run. -/
def Node.IgnoresRecovery (node : Node) : Prop :=
  ∀ name handler, node.handlers.resolve name = some handler →
    ∀ t, handler.work ⟨t, true⟩ = handler.work ⟨t, false⟩

/-- Then they go on alike, whatever they make of the version, where it is the same. -/
theorem Node.IgnoresRecovery.overlooks {node : Node} (h : node.IgnoresRecovery) :
    node.Overlooks Eq true false := by
  have same (work : HandlerWork) :
      work.Paired (HandlerCall.Shifts Eq) work fun x y => x = y := by
    induction work with
    | done a => exact rfl
    | ask c next ih =>
        by_cases hc : c = .switchToWaiting
        · subst hc
          refine ⟨_, .switchToWaiting, ?_⟩
          rintro _ _ (⟨v, rfl, rfl⟩ | e)
          · exact ih _
          · exact ih _
        · refine ⟨_, .same hc, ?_⟩
          rintro a _ rfl
          exact ih a
  rintro name handler hh t _ ⟨v, rfl, rfl⟩
  rw [h name handler hh t]
  exact same _

namespace VersionBlindness

open Program (Only Paired)

/-- The parts go together as calls of that task, and what they give compares. -/
abbrev Pairs {α β : Type} (ρ : UInt64 → UInt64 → Prop) (oid : TaskOid) (p : Action α)
    (p' : Action β) (R : α → β → Prop) : Prop :=
  p.Paired (Call.Shifts ρ oid) p' R

/-- The same firing but for the version of the task and what it was told. -/
def Twin (ρ : UInt64 → UInt64 → Prop) (oid : TaskOid) (b b' : Bool) (g g' : Firing) : Prop :=
  g.task.oid = oid ∧ g.recovering = b ∧
    ∃ u, g.task.Alike ρ u ∧ g' = { g with task := u, recovering := b' }

section

variable {ρ : UInt64 → UInt64 → Prop} {oid : TaskOid} {b b' : Bool} {t u : Task} {α β : Type}

/-- A part that is blind to the record does the same in both. -/
theorem blind_pairs {p : Action α} (hp : p.Only (Call.IsBlind oid)) :
    Pairs ρ oid p p fun x y => x = y := by
  induction p with
  | done a => exact rfl
  | ask r next ih =>
      refine ⟨_, .blind hp.1, ?_⟩
      rintro a _ rfl
      exact ih a (hp.2 a)

theorem blind_attempt {ε : Type} {x : ExceptT ε (Program Calls) α}
    (hx : x.run.Only (Call.IsBlind oid)) :
    Pairs ρ oid x.run x.run (Matched fun a b => a = b) :=
  (blind_pairs hx).mono fun _ _ h => Program.matched_of_eq h fun _ _ => rfl

/-! What a firing does by way of administration. -/

theorem bestEffort_pairs {x : Attempt α} {x' : Attempt β}
    {R : Except Cause α → Except Cause β → Prop} (hx : Pairs ρ oid x.run x'.run R) :
    Pairs ρ oid (Administration.bestEffort x) (Administration.bestEffort x')
      fun _ _ => True :=
  hx.bind fun _ _ _ => trivial

theorem recordResult_pairs (oid : TaskOid) (result : OperationResult) :
    Pairs ρ oid (Administration.recordResult oid result).run
      (Administration.recordResult oid result).run (Matched (Task.Alike ρ)) := by
  refine ⟨_, .modify .always, ?_⟩
  rintro _ _ (h | e)
  · exact .ok h
  · exact .error _

/-- Reads the record, and goes on by what it is but for the version. -/
theorem read_pairs {f f' : Task → Attempt α}
    (hf : ∀ t u, t.Alike ρ u → Pairs ρ oid (f t).run (f' u).run fun _ _ => True) :
    Pairs ρ oid (orFail (call (.get oid)) Cause.store >>= f).run
      (orFail (call (.get oid)) Cause.store >>= f').run fun _ _ => True := by
  refine ⟨_, .get, ?_⟩
  rintro _ _ (h | e)
  · exact hf _ _ h
  · trivial

/-- Writes the record, and goes on. -/
theorem write_pairs {d : TaskDelta} {f f' : Task → Attempt α}
    (hf : ∀ t u, Pairs ρ oid (f t).run (f' u).run fun _ _ => True) :
    Pairs ρ oid (orFail (call (.modify oid d .always)) Cause.store >>= f).run
      (orFail (call (.modify oid d .always)) Cause.store >>= f').run fun _ _ => True := by
  refine ⟨_, .modify .always, ?_⟩
  rintro _ _ (h | e)
  · exact hf _ _
  · trivial

theorem close_pairs (oid : TaskOid) :
    Pairs ρ oid (Administration.close oid).run (Administration.close oid).run
      fun _ _ => True := by
  refine read_pairs ?_
  rintro t _ ⟨v, -, rfl⟩
  refine ⟨_, .blind trivial, ?_⟩
  rintro now _ rfl
  refine write_pairs fun t u => ⟨_, .blind trivial, ?_⟩
  rintro answer _ rfl
  cases answer <;> trivial

theorem suspend_pairs (oid : TaskOid) :
    Pairs ρ oid (Administration.suspend oid).run (Administration.suspend oid).run
      fun _ _ => True := by
  refine read_pairs ?_
  rintro t _ ⟨v, -, rfl⟩
  refine write_pairs fun t u => ⟨_, .blind trivial, ?_⟩
  rintro answer _ rfl
  cases answer <;> trivial

theorem scheduleNow_pairs (oid : TaskOid) :
    Pairs ρ oid (Administration.scheduleNow oid).run (Administration.scheduleNow oid).run
      fun _ _ => True := by
  refine write_pairs fun t u => ⟨_, .blind trivial, ?_⟩
  rintro answer _ rfl
  cases answer <;> trivial

theorem applyStopAction_pairs (oid : TaskOid) :
    Pairs ρ oid (Administration.applyStopAction oid) (Administration.applyStopAction oid)
      fun _ _ => True := by
  refine Paired.ask .get fun answer answer' h => ?_
  cases h with
  | error e => trivial
  | @ok t _ h =>
      obtain ⟨v, -, rfl⟩ := h
      dsimp only
      rw [show Task.isReady { t with version := v } = t.isReady from rfl]
      split
      · trivial
      · split
        · trivial
        · exact bestEffort_pairs (close_pairs oid)
        · exact bestEffort_pairs (suspend_pairs oid)
        · exact bestEffort_pairs (scheduleNow_pairs oid)
        · exact bestEffort_pairs (scheduleNow_pairs oid)
        · trivial

theorem ensureSchedulerRunning_pairs (ho : t.oid = oid) (h : t.Alike ρ u) :
    Pairs ρ oid (Preparation.ensureSchedulerRunning t).run
      (Preparation.ensureSchedulerRunning u).run (Matched fun _ _ => True) := by
  subst ho
  obtain ⟨v, -, rfl⟩ := h
  refine ⟨_, .blind trivial, ?_⟩
  rintro working _ rfl
  cases working with
  | true => exact .ok trivial
  | false =>
      refine Paired.attempt (R := fun _ _ => True) ?_ fun _ _ _ => .error _
      exact (applyStopAction_pairs t.oid).bind fun _ _ _ => .ok trivial

/-! Admission, and the look for other runs. -/

theorem saturated_blind (config : Config) (oid : TaskOid) (gs : List GroupConstraint) :
    (Admission.saturated config oid gs).run.Only (Call.IsBlind oid) := by
  induction gs with
  | nil => trivial
  | cons g gs ih =>
      unfold Admission.saturated
      split
      · exact ih
      · refine Only.attempt ⟨rfl, fun _ => trivial⟩ fun running => ?_
        refine Only.attempt ih fun rest => ?_
        split <;> trivial

theorem enforce_blind (config : Config) (ho : t.oid = oid) (constraints : Option Constraints) :
    (Admission.enforce config t constraints).run.Only (Call.IsBlind oid) := by
  subst ho
  have refire (latest : Instant) :
      (Admission.naturalRefire? config t latest).Only (Call.IsBlind t.oid) := by
    unfold Admission.naturalRefire?
    split
    · trivial
    · refine Only.bind ⟨trivial, fun _ => trivial⟩ fun answer => ?_
      split <;> trivial
  have check : (Admission.check config t constraints).run.Only (Call.IsBlind t.oid) := by
    unfold Admission.check
    split
    · trivial
    · refine Only.attempt (saturated_blind _ _ _) fun full => ?_
      · split
        · trivial
        · refine Only.lift ⟨trivial, fun _ => trivial⟩ fun now => ?_
          refine Only.lift (refire _) fun next => ?_
          split <;> trivial
  unfold Admission.enforce
  refine Only.attempt check fun decision => ?_
  split
  · trivial
  · split
    · exact Only.attempt ⟨trivial, fun _ => trivial⟩ fun _ => trivial
    · trivial

theorem naturalRefire?_alike (config : Config) (h : t.Alike ρ u) (latest : Instant) :
    Admission.naturalRefire? config u latest = Admission.naturalRefire? config t latest := by
  obtain ⟨v, -, rfl⟩ := h
  unfold Admission.naturalRefire?
  rw [show Task.isLooselyRecurring { t with version := v } = t.isLooselyRecurring from rfl]
  split
  · rfl
  · refine congrArg (Program.ask (I := Calls) (.nextFireTime t.oid)) (funext fun answer => ?_)
    rcases answer with e | _ | next <;> rfl

/-- What is reported of a task, and when it is tried again, says nothing of the version. -/
theorem enforce_alike (config : Config) (h : t.Alike ρ u) (constraints : Option Constraints) :
    Admission.enforce config u constraints = Admission.enforce config t constraints := by
  have check : Admission.check config u constraints = Admission.check config t constraints := by
    unfold Admission.check
    simp only [naturalRefire?_alike config h]
    obtain ⟨v, -, rfl⟩ := h
    rfl
  unfold Admission.enforce
  rw [check]
  obtain ⟨v, -, rfl⟩ := h
  rfl

theorem enforce_pairs (config : Config) (ho : t.oid = oid) (h : t.Alike ρ u)
    (constraints : Option Constraints) :
    Pairs ρ oid (Admission.enforce config t constraints).run
      (Admission.enforce config u constraints).run (Matched fun _ _ => True) := by
  rw [enforce_alike config h]
  refine (blind_attempt (enforce_blind config ho constraints)).mono fun x y h => ?_
  rcases h with _ | e
  · exact .ok trivial
  · exact .error e

theorem guard_pairs (enabled : Bool) (ho : t.oid = oid) (h : t.Alike ρ u) :
    Pairs ρ oid (Possession.guard enabled t).run (Possession.guard enabled u).run
      (Matched fun _ _ => True) := by
  subst ho
  obtain ⟨v, -, rfl⟩ := h
  unfold Possession.guard
  cases enabled with
  | false => exact .ok trivial
  | true =>
      refine Paired.query .get fun answer answer' h => ?_
      cases h with
      | error e => cases e <;> exact .error _
      | @ok r _ h =>
          obtain ⟨v', -, rfl⟩ := h
          dsimp only
          rw [show Task.runningOn? { r with version := v' } = r.runningOn? from rfl]
          split
          · exact .error _
          · exact .ok trivial

theorem start_pairs (node : NodeId) (ho : t.oid = oid) (h : t.Alike ρ u) :
    Pairs ρ oid (Possession.start t node).run (Possession.start u node).run
      fun x y => ∃ r r', x = .ok r ∧ y = .ok r' ∧ r.oid = oid ∧ r.Alike ρ r' := by
  subst ho
  obtain ⟨v, -, rfl⟩ := h
  refine ⟨_, .start, ?_⟩
  rintro _ _ ⟨r, r', rfl, rfl, ho, hr⟩
  exact ⟨r, r', rfl, rfl, ho, hr⟩

/-! The handler and the children. -/

theorem resolve_pairs (handlers : Handlers) (ho : t.oid = oid) (h : t.Alike ρ u)
    (result : OperationResult) :
    Pairs ρ oid (Handling.resolve handlers t result) (Handling.resolve handlers u result)
      fun x y => x = y ∧ ∀ handler, x.1 = .ok handler →
        handlers.resolve t.handlerRef = some handler := by
  subst ho
  obtain ⟨v, -, rfl⟩ := h
  unfold Handling.resolve
  dsimp only
  cases hh : handlers.resolve t.handlerRef with
  | some handler =>
      refine ⟨rfl, fun _ h => ?_⟩
      cases h
      rfl
  | none =>
      refine (bestEffort_pairs (recordResult_pairs t.oid _)).bind fun _ _ _ => ?_
      refine (bestEffort_pairs (close_pairs t.oid)).bind fun _ _ _ => ?_
      exact ⟨rfl, fun _ h => nomatch h⟩

theorem applyOutcome_pairs (ho : t.oid = oid) (h : t.Alike ρ u) (ended : HandlerEnd)
    (result : OperationResult) :
    Pairs ρ oid (Handling.applyOutcome t ended result) (Handling.applyOutcome u ended result)
      fun x y => x = y := by
  subst ho
  obtain ⟨v, -, rfl⟩ := h
  cases ended with
  | error e =>
      exact (bestEffort_pairs (recordResult_pairs t.oid _)).bind fun _ _ _ => rfl
  | ok outcome =>
      refine (recordResult_pairs t.oid _).bind fun answer answer' h => ?_
      cases h with
      | error e => exact rfl
      | @ok r _ h =>
          obtain ⟨v', -, rfl⟩ := h
          dsimp only
          rw [show Task.isReady { r with version := v' } = r.isReady from rfl]
          split
          · split
            · exact (bestEffort_pairs (close_pairs t.oid)).bind fun _ _ _ => rfl
            · exact (bestEffort_pairs (suspend_pairs t.oid)).bind fun _ _ _ => rfl
            · exact rfl
          · exact rfl

theorem guarded_pairs (h : HandleId) {work work' : HandlerWork}
    (hw : work.Paired (HandlerCall.Shifts ρ) work' fun x y => x = y) :
    Pairs ρ oid (Handling.guarded h oid work) (Handling.guarded h oid work')
      fun x y => x = y := by
  induction work generalizing work' with
  | done a =>
      cases work' with
      | done a' => exact hw
      | ask r' next' => exact hw.elim
  | ask r next ih =>
      cases work' with
      | done a' => exact hw.elim
      | ask r' next' =>
          obtain ⟨like, hr, hnext⟩ := hw
          unfold Handling.guarded
          refine ⟨_, .handler hr, ?_⟩
          rintro _ _ (⟨rfl, rfl⟩ | ⟨x, y, rfl, rfl, hxy⟩)
          · exact rfl
          · exact ih x (hnext x y hxy)

variable {g g' : Firing} {node : Node} {handler : Handler}

theorem runHandler_pairs (hh : handler.Overlooks ρ b b') (hg : Twin ρ oid b b' g g') :
    Pairs ρ oid (Firing.runHandler handler g) (Firing.runHandler handler g')
      fun x y => x = y := by
  obtain ⟨ho, rfl, u, hu, rfl⟩ := hg
  have work := hh g.task u hu
  obtain ⟨v, -, rfl⟩ := hu
  subst ho
  refine Paired.ask (.blind trivial) fun _ _ _ => ?_
  refine Paired.ask (.blind trivial) fun _ _ _ => ?_
  have run : Pairs ρ g.task.oid
      (Handling.run handler g.handle { task := g.task, recovering := g.recovering })
      (Handling.run handler g.handle
        { task := { g.task with version := v }, recovering := b' }) fun x y => x = y := by
    refine Paired.ask (.blind trivial) ?_
    rintro interrupted _ rfl
    cases interrupted with
    | true => exact rfl
    | false => exact guarded_pairs g.handle work
  refine run.bind ?_
  rintro ended _ rfl
  refine Paired.ask (.blind trivial) fun _ _ _ => ?_
  exact Paired.ask (.blind trivial) fun _ _ _ => rfl

theorem collectChildren_pairs (hg : Twin ρ oid b b' g g') :
    Pairs ρ oid (Firing.collectChildren g) (Firing.collectChildren g')
      fun x y => Twin ρ oid b b' x.1 y.1 ∧ x.2 = y.2 := by
  obtain ⟨ho, hb, u, hu, rfl⟩ := hg
  refine Paired.ask (.blind trivial) ?_
  rintro ⟨result, closed⟩ _ rfl
  exact ⟨⟨ho, hb, u, hu, rfl⟩, rfl⟩

theorem spawnAll_blind (h : HandleId) (cs : List ChildSpec) :
    (Firing.spawnAll h cs).Only (Call.IsBlind oid) :=
  Course.spawnAll_only (fun _ => trivial) cs

theorem runTaken_pairs (hh : handler.Overlooks ρ b b') (hg : Twin ρ oid b b' g g') :
    Pairs ρ oid (Firing.runTaken node handler g) (Firing.runTaken node handler g')
      fun x y => Twin ρ oid b b' x.1 y.1 ∧ x.2 = y.2 := by
  have twin := hg
  obtain ⟨ho, hb, u, ⟨v, hv, rfl⟩, rfl⟩ := hg
  subst ho
  refine Paired.ask (.blind trivial) fun _ _ _ => ?_
  refine Paired.ask .notifyStarted fun _ _ _ => ?_
  refine (blind_pairs (spawnAll_blind g.handle _)).bind fun _ _ _ => ?_
  refine (runHandler_pairs hh twin).bind ?_
  rintro ended _ rfl
  refine (collectChildren_pairs twin).bind ?_
  rintro ⟨g₁, n⟩ ⟨g₂, _⟩ ⟨hg, -⟩
  exact ⟨hg, rfl⟩

theorem conclude_pairs (hg : Twin ρ oid b b' g g') (ended : HandlerEnd) :
    Pairs ρ oid (Firing.conclude g ended) (Firing.conclude g' ended)
      fun x y => Twin ρ oid b b' x.1 y.1 ∧ x.2 = y.2 := by
  obtain ⟨ho, hb, u, hu, rfl⟩ := hg
  refine (applyOutcome_pairs ho hu ended g.result).bind ?_
  rintro result _ rfl
  cases ended <;> exact ⟨⟨ho, hb, u, hu, rfl⟩, rfl⟩

theorem runStarted_pairs (hn : node.Overlooks ρ b b') (hg : Twin ρ oid b b' g g') :
    Pairs ρ oid (Firing.runStarted node g) (Firing.runStarted node g')
      fun x y => Twin ρ oid b b' x.1 y.1 ∧ x.2 = y.2 := by
  obtain ⟨ho, hb, u, hu, rfl⟩ := hg
  refine (resolve_pairs node.handlers ho hu g.result).bind ?_
  rintro ⟨found, result⟩ _ ⟨rfl, hfound⟩
  cases found with
  | error stop => exact ⟨⟨ho, hb, u, hu, rfl⟩, rfl⟩
  | ok handler =>
      have twin : Twin ρ oid b b' { g with result }
          { g with result, task := u, recovering := b' } := ⟨ho, hb, u, hu, rfl⟩
      refine (runTaken_pairs (hn _ handler (hfound handler rfl)) twin).bind ?_
      rintro ⟨g₁, ended⟩ ⟨g₂, _⟩ ⟨hg, rfl⟩
      exact conclude_pairs hg ended

theorem runRegistered_pairs (hn : node.Overlooks ρ b b') (hg : Twin ρ oid b b' g g') :
    Pairs ρ oid (Firing.runRegistered node g) (Firing.runRegistered node g')
      fun x y => Twin ρ oid b b' x.1 y.1 ∧ x.2 = y.2 := by
  obtain ⟨ho, hb, u, hu, rfl⟩ := hg
  refine (start_pairs node.config.nodeId ho hu).bind ?_
  rintro _ _ ⟨r, r', rfl, rfl, ho', hr⟩
  exact runStarted_pairs hn ⟨ho', hb, r', hr, rfl⟩

/-! To the end. -/

theorem settleAnyhow_pairs (h : t.Alike ρ u) :
    Pairs ρ oid (Possession.settleAnyhow oid t) (Possession.settleAnyhow oid u)
      fun _ _ => True := by
  have write {t u : Task} (h : t.Alike ρ u) : Pairs ρ oid
      (call (.modify oid (Possession.settlingDelta t) .always) >>= fun _ => pure ())
      (call (.modify oid (Possession.settlingDelta u) .always) >>= fun _ => pure ())
      fun _ _ => True := by
    obtain ⟨v, -, rfl⟩ := h
    exact Paired.ask (.modify .always) fun _ _ _ => trivial
  refine Paired.ask .get ?_
  rintro _ _ (hr | e)
  · exact write hr
  · exact write h

theorem settleWithin_pairs (retries : Nat) (oid : TaskOid) :
    Pairs ρ oid (Possession.settleWithin retries oid) (Possession.settleWithin retries oid)
      fun _ _ => True := by
  induction retries using Nat.strongRecOn with
  | ind retries ih =>
      unfold Possession.settleWithin
      refine Paired.ask .get fun answer answer' h => ?_
      cases h with
      | error e => trivial
      | @ok t u h =>
          have again : Pairs ρ oid (Possession.settleAnyhow oid t)
              (Possession.settleAnyhow oid u) fun _ _ => True := settleAnyhow_pairs h
          obtain ⟨v, -, rfl⟩ := h
          refine Paired.ask (.modify (.scheduling _)) ?_
          rintro _ _ (_ | e)
          · trivial
          · cases e with
            | preconditionFailed o reason =>
                cases retries with
                | zero => exact again
                | succ retries => exact ih retries (by omega)
            | _ => cases retries <;> exact again

theorem release_pairs (hg : Twin ρ oid b b' g g') :
    Pairs ρ oid (Firing.release node g) (Firing.release node g') fun _ _ => True := by
  obtain ⟨ho, hb, u, ⟨v, hv, rfl⟩, rfl⟩ := hg
  subst ho
  unfold Firing.release
  dsimp only
  split
  · refine Paired.ask (.blind trivial) fun _ _ _ => ?_
    refine (blind_pairs (spawnAll_blind g.handle _)).bind fun _ _ _ => ?_
    exact settleWithin_pairs 1 g.task.oid
  · trivial

theorem obeyStop_pairs (hg : Twin ρ oid b b' g g') :
    Pairs ρ oid (Firing.obeyStop g) (Firing.obeyStop g') fun _ _ => True := by
  obtain ⟨ho, hb, u, ⟨v, hv, rfl⟩, rfl⟩ := hg
  subst ho
  refine Paired.ask (.blind trivial) ?_
  rintro goes _ rfl
  cases goes with
  | true => trivial
  | false => exact applyStopAction_pairs g.task.oid

theorem collectLate_pairs (hg : Twin ρ oid b b' g g') :
    Pairs ρ oid (Firing.collectLate g) (Firing.collectLate g') (Twin ρ oid b b') := by
  refine (collectChildren_pairs hg).bind ?_
  rintro ⟨g₁, closed⟩ ⟨_, _⟩ ⟨⟨ho, hb, u, ⟨v, hv, rfl⟩, rfl⟩, rfl⟩
  dsimp only
  split
  · exact ⟨ho, hb, _, ⟨v, hv, rfl⟩, rfl⟩
  · subst ho
    refine (bestEffort_pairs (recordResult_pairs g₁.task.oid _)).bind fun _ _ _ => ?_
    exact ⟨rfl, hb, _, ⟨v, hv, rfl⟩, rfl⟩

theorem finish_pairs (hg : Twin ρ oid b b' g g') (ending : Firing.Ending) :
    Pairs ρ oid (Firing.finish node g ending) (Firing.finish node g' ending)
      fun x y => x = y := by
  have clean : Pairs ρ oid (Firing.cleanUp node g) (Firing.cleanUp node g')
      (Twin ρ oid b b') := by
    have twin := hg
    obtain ⟨ho, hb, u, hu, rfl⟩ := hg
    refine Paired.ask (.blind trivial) fun _ _ _ => ?_
    refine (release_pairs twin).bind fun _ _ _ => ?_
    exact (obeyStop_pairs twin).bind fun _ _ _ => collectLate_pairs twin
  refine clean.bind ?_
  rintro g₁ _ ⟨ho, hb, u, ⟨v, hv, rfl⟩, rfl⟩
  refine Paired.ask (.blind trivial) fun _ _ _ => ?_
  cases ending <;> exact rfl

theorem interrupt_blind (policy : InterruptPolicy) (h : HandleId) :
    (Interruption.interrupt policy h).Only (Call.IsBlind oid) :=
  Course.interrupt_only trivial (fun _ => trivial) trivial trivial policy

theorem runPrepared_pairs (hn : node.Overlooks ρ b b') (hg : Twin ρ oid b b' g g') :
    Pairs ρ oid (Firing.runPrepared node g) (Firing.runPrepared node g')
      fun x y => x = y := by
  have twin := hg
  obtain ⟨ho, hb, u, hu, rfl⟩ := hg
  refine (guard_pairs node.config.checkConcurrent ho hu).bind ?_
  rintro _ _ (_ | stop)
  · refine Paired.ask (.blind trivial) ?_
    rintro registered _ rfl
    cases registered with
    | false =>
        obtain ⟨v, -, rfl⟩ := hu
        exact rfl
    | true =>
        refine Paired.ask (.blind trivial) ?_
        rintro shutDown _ rfl
        have last (x y : Firing × Firing.Ending) (h : Twin ρ oid b b' x.1 y.1 ∧ x.2 = y.2) :
            Pairs ρ oid (Firing.finish node x.1 x.2) (Firing.finish node y.1 y.2)
              fun x y => x = y := by
          rw [← h.2]
          exact finish_pairs h.1 x.2
        have onward := (runRegistered_pairs hn twin).bind last
        cases shutDown with
        | false => exact onward
        | true =>
            refine (blind_pairs (interrupt_blind _ g.handle)).bind fun _ _ _ => ?_
            exact onward
  · exact rfl

end

end VersionBlindness
end TaskFiring
