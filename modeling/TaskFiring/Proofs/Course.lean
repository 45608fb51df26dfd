import TaskFiring.Proofs.Phase

/-!
Every firing runs its course: each call of `Node.fire` is a move of its phase. There is
one statement for each part of a firing, which says from which phase it starts and in
which one it ends; `program_follows` puts them together.
-/

namespace TaskFiring

/-- Every call of the handler is allowed. -/
def Handler.KeepsTo (allowed : HandlerCall → Prop) (handler : Handler) : Prop :=
  ∀ context, (handler.work context).Only allowed

/-- Every handler of the node keeps to the calls allowed. -/
def Node.KeepsTo (allowed : HandlerCall → Prop) (node : Node) : Prop :=
  ∀ name handler, node.handlers.resolve name = some handler → handler.KeepsTo allowed

/-- Any call may be allowed. -/
theorem Node.keepsTo_true (node : Node) : node.KeepsTo fun _ => True :=
  fun _ _ _ _ => Program.only_true _

namespace Course

open Phase (Move)

variable {f : Occasion} {allowed : HandlerCall → Prop} {α : Type}

/-- A part of a firing runs from a phase to an end. -/
abbrev Runs (f : Occasion) (allowed : HandlerCall → Prop) (p : Action α) (s : Phase)
    (Q : Phase → α → Prop) : Prop :=
  p.Follows Call.Fair (Move f allowed) s Q

theorem runs_of_aside {p : Action α} {s : Phase} (hp : p.Only Call.IsAside) :
    Runs f allowed p s fun s' _ => s' = s :=
  hp.follows fun _ _ hr => .aside hr

/-! Loading and what comes before admission. -/

theorem ancestor_visited {oid parent : TaskOid} {visited : List TaskOid}
    (hv : parent ∈ visited) (room : Nat) (top : Option Task) :
    Preparation.ancestor oid (room + 1) visited top (some parent) = pure top :=
  if_pos hv

theorem ancestor_unvisited {oid parent : TaskOid} {visited : List TaskOid}
    (hv : parent ∉ visited) (room : Nat) (top : Option Task) :
    Preparation.ancestor oid (room + 1) visited top (some parent) = (do
      match ← call (.get parent) with
      | .ok p => Preparation.ancestor oid room (parent :: visited) (some p) p.parent
      | .error (.notFound _) => pure top
      | .error e =>
          throw (.unexpected s!"couldn't resolve root of task {oid.display}" (.store e))) :=
  if_neg hv

/-- The walk up the hierarchy reads records, and does nothing else. -/
theorem ancestor_only {kind : Call → Prop} (hk : ∀ oid, kind (.get oid)) (oid : TaskOid)
    (room : Nat) (visited : List TaskOid) (top : Option Task) (next : Option TaskOid) :
    (Preparation.ancestor oid room visited top next).run.Only kind := by
  induction room generalizing visited top next with
  | zero => trivial
  | succ room ih =>
      cases next with
      | none => trivial
      | some parent =>
          by_cases hv : parent ∈ visited
          · rw [ancestor_visited hv]
            trivial
          · rw [ancestor_unvisited hv]
            refine Program.Only.lift ⟨hk parent, fun _ => trivial⟩ fun answer => ?_
            split
            · exact ih _ _ _
            · trivial
            · trivial

theorem ancestor_inquires (oid : TaskOid) (room : Nat) (visited : List TaskOid)
    (top : Option Task) (next : Option TaskOid) :
    (Preparation.ancestor oid room visited top next).run.Only Call.IsInquiry :=
  ancestor_only (fun _ => trivial) oid room visited top next

theorem ancestor_aside (oid : TaskOid) (room : Nat) (visited : List TaskOid)
    (top : Option Task) (next : Option TaskOid) :
    (Preparation.ancestor oid room visited top next).run.Only Call.IsAside :=
  (ancestor_inquires oid room visited top next).mono fun _ => Call.IsInquiry.aside

theorem load_runs : Runs f allowed (Preparation.load f.oid).run .outset fun s r =>
    ∀ snapshot, r = .ok snapshot → snapshot.task.oid = f.oid ∧ s = .loaded snapshot.task := by
  unfold Preparation.load
  refine Program.Follows.lift (Q := fun s r => ∀ t, r = .ok t → t.oid = f.oid ∧ s = .loaded t)
    ?_ ?_
  · intro answer fair
    cases answer with
    | ok t => exact ⟨_, .load, fun _ ht => by cases ht; exact ⟨fair, rfl⟩⟩
    | error e => exact ⟨.outset, .aside trivial, fun _ ht => nomatch ht⟩
  · intro s answer h
    split
    · refine Program.Follows.lift (runs_of_aside ⟨trivial, fun _ => trivial⟩) fun _ _ _ => ?_
      exact fun _ hr => nomatch hr
    · exact fun _ hr => nomatch hr
    · next task =>
      obtain ⟨ho, rfl⟩ := h task rfl
      refine Program.Follows.attempt (runs_of_aside (ancestor_aside _ _ _ _ _)) ?_ ?_
      · rintro s root rfl
        intro snapshot hs
        cases hs
        exact ⟨ho, rfl⟩
      · intro s e _ _ hr
        cases hr

theorem ensureReady_runs {t : Task} {s : Phase} :
    Runs f allowed (Preparation.ensureReady t).run s fun s' r =>
      s' = s ∧ ∀ u, r = .ok u → t.isReady := by
  unfold Preparation.ensureReady
  split
  · next h => exact ⟨rfl, fun _ _ => h⟩
  · exact fun answer _ => ⟨s, .aside trivial, by
      cases answer <;> exact ⟨rfl, fun _ hr => nomatch hr⟩⟩

theorem repair_runs {t : Task} (ho : t.oid = f.oid) (hr : t.isReady) :
    Runs f allowed (Preparation.repair f.nodeId t f.recovering).run (.loaded t) fun s r =>
      ∀ t', r = .ok t' → t'.oid = f.oid ∧ s = .prepared t' := by
  unfold Preparation.repair
  rw [ho]
  refine Program.Follows.query fun found _ => ?_
  by_cases h : Preparation.isLive t f.nodeId found.isSome f.recovering
      || Preparation.isClean t
  · refine ⟨.prepared t, .spare hr (by simpa using h), ?_⟩
    rw [if_pos h]
    exact fun _ hr => by cases hr; exact ⟨ho, rfl⟩
  · refine ⟨.repairing t, .doubt hr (by simp_all), ?_⟩
    rw [if_neg h]
    refine Program.Follows.query fun answer fair => ?_
    cases answer with
    | ok t' => exact ⟨_, .repair, fun _ hr => by cases hr; exact ⟨fair, rfl⟩⟩
    | error e =>
        refine ⟨_, .notRepaired, ?_⟩
        cases e <;> exact fun _ hr => nomatch hr

/-! Administration, from a phase in which it may read the record. -/

/-- A firing that holds its task may close or suspend it as its handler says. -/
theorem reads_held {d : StopDirective} (h : HandleId) : Phase.Reads d (.held h) .none :=
  trivial

/-- Where the record cannot be read, an errand is over. -/
theorem unread {d : StopDirective} {w : Tenure} {e : Errand} (he : Phase.Reads d w e)
    (err : StoreError) :
    Move f allowed (.busy w e) (.get f.oid) (.error err) (.busy w .none) := by
  cases e with
  | bound d' => exact .forget
  | none => exact .aside trivial
  | closing _ | suspending _ | settling _ => cases w <;> cases he

/-- Reads the record for an errand, from a phase in which that may be done. -/
theorem read_runs {s s' : Phase} {next : Task → Phase}
    (hread : ∀ t, Move f allowed s (.get f.oid) (.ok t) (next t))
    (hfail : ∀ err, Move f allowed s (.get f.oid) (.error err) s') :
    Runs f allowed (orFail (call (.get f.oid)) Cause.store).run s fun p r =>
      (∀ t, r = .ok t → p = next t) ∧ ∀ c, r = .error c → p = s' := by
  intro answer _
  cases answer with
  | ok t => exact ⟨_, hread t, fun _ hr => by cases hr; rfl, fun _ hr => nomatch hr⟩
  | error err => exact ⟨_, hfail err, (fun _ hr => nomatch hr), fun _ _ => rfl⟩

/-- Writes the record in the course of an errand and then makes a trigger call. -/
theorem write_runs {s : Phase} {w : Tenure} {d : TaskDelta} {rest : Task → Attempt α}
    (hw : ∀ a, Move f allowed s (.modify f.oid d .always) a (.busy w .none))
    (hr : ∀ t, (rest t).run.Only Call.IsAside) :
    Runs f allowed (orFail (call (.modify f.oid d .always)) Cause.store >>= rest).run s
      fun p _ => p = .busy w .none := by
  refine Program.Follows.attempt (Q := fun p _ => p = .busy w .none) ?_ ?_ ?_
  · exact fun a _ => ⟨_, hw a, rfl⟩
  · rintro p t rfl
    exact runs_of_aside (hr t)
  · rintro p c rfl
    rfl

theorem close_runs {s : Phase} {w : Tenure}
    (hread : ∀ t, Move f allowed s (.get f.oid) (.ok t) (.busy w (.closing t))) {s' : Phase}
    (hfail : ∀ err, Move f allowed s (.get f.oid) (.error err) s') :
    Runs f allowed (Administration.close f.oid).run s fun p _ =>
      p = .busy w .none ∨ p = s' := by
  unfold Administration.close
  refine Program.Follows.attempt (read_runs hread hfail) (fun p t hp => ?_) fun p c hp =>
    .inr (hp.2 c rfl)
  refine Program.Follows.query fun now _ => ⟨p, .aside trivial, ?_⟩
  rw [hp.1 t rfl]
  refine (write_runs (fun _ => .close) fun t => ?_).mono fun _ _ => .inl
  exact Program.Only.attempt ⟨trivial, fun _ => trivial⟩ fun _ => trivial

theorem suspend_runs {s : Phase} {w : Tenure}
    (hread : ∀ t, Move f allowed s (.get f.oid) (.ok t) (.busy w (.suspending t)))
    {s' : Phase} (hfail : ∀ err, Move f allowed s (.get f.oid) (.error err) s') :
    Runs f allowed (Administration.suspend f.oid).run s fun p _ =>
      p = .busy w .none ∨ p = s' := by
  unfold Administration.suspend
  refine Program.Follows.attempt (read_runs hread hfail) (fun p t hp => ?_) fun p c hp =>
    .inr (hp.2 c rfl)
  rw [hp.1 t rfl]
  refine (write_runs (fun _ => .suspend) fun t => ?_).mono fun _ _ => .inl
  exact Program.Only.attempt ⟨trivial, fun _ => trivial⟩ fun _ => trivial

theorem bestEffort_runs {x : Attempt α} {s : Phase} {Q : Phase → Prop}
    (hx : Runs f allowed x.run s fun p _ => Q p) :
    Runs f allowed (Administration.bestEffort x) s fun p _ => Q p :=
  hx.bind fun _ _ hp => hp

theorem bestEffort_close {w : Tenure} {e : Errand} (he : Phase.Reads .close w e) :
    Runs f allowed (Administration.bestEffort (Administration.close f.oid)) (.busy w e)
      fun p _ => p = .busy w .none :=
  (bestEffort_runs (close_runs (fun _ => .readToClose he) (unread he))).mono
    fun _ _ hp => hp.elim id id

theorem bestEffort_suspend {w : Tenure} {e : Errand} (he : Phase.Reads .suspend w e) :
    Runs f allowed (Administration.bestEffort (Administration.suspend f.oid)) (.busy w e)
      fun p _ => p = .busy w .none :=
  (bestEffort_runs (suspend_runs (fun _ => .readToSuspend he) (unread he))).mono
    fun _ _ hp => hp.elim id id

theorem scheduleNow_runs {w : Tenure} {d : StopDirective}
    (hd : d = .rescheduleNow ∨ d = .resume) :
    Runs f allowed (Administration.scheduleNow f.oid).run (.busy w (.bound d)) fun p _ =>
      p = .busy w .none := by
  unfold Administration.scheduleNow
  refine write_runs (fun _ => .wake hd) ?_
  exact fun _ => ⟨trivial, fun _ => trivial⟩

theorem recordResult_runs {w : Tenure} {result : OperationResult} :
    Runs f allowed (Administration.recordResult f.oid result).run (.busy w .none)
      fun p _ => p = .busy w .none :=
  fun _ _ => ⟨_, .record, rfl⟩

/-- Needs a task that is not held, as the stop action of a held one is not applied. -/
theorem applyStopAction_runs {w : Tenure} (hw : ∀ h, w ≠ .held h) :
    Runs f allowed (Administration.applyStopAction f.oid) (.busy w .none) fun s _ =>
      s = .busy w .none := by
  unfold Administration.applyStopAction
  refine Program.Follows.ask fun answer _ => ?_
  cases answer with
  | error e => exact ⟨_, .aside trivial, rfl⟩
  | ok t =>
      by_cases hr : t.isReady
      · have bound {d : StopDirective} (hd : t.halting = .ok d) :
            Move f allowed (.busy w .none) (.get f.oid) (.ok t) (.busy w (.bound d)) :=
          .decide hw hr hd
        simp only [hr, Bool.not_true, Bool.false_eq_true, if_false]
        split
        · exact ⟨_, .aside trivial, rfl⟩
        · next hd => exact ⟨_, bound hd, bestEffort_close rfl⟩
        · next hd => exact ⟨_, bound hd, bestEffort_suspend rfl⟩
        · next hd => exact ⟨_, bound hd, bestEffort_runs (scheduleNow_runs (.inl rfl))⟩
        · next hd => exact ⟨_, bound hd, bestEffort_runs (scheduleNow_runs (.inr rfl))⟩
        · exact ⟨_, .aside trivial, rfl⟩
      · simp only [hr, Bool.not_false, if_true]
        exact ⟨_, .aside trivial, rfl⟩

/-! From preparation to the look for other runs. -/

theorem ensureSchedulerRunning_runs {t : Task} (ho : t.oid = f.oid) :
    Runs f allowed (Preparation.ensureSchedulerRunning t).run (.prepared t) fun s r =>
      ∀ u, r = .ok u → s = .prepared t := by
  unfold Preparation.ensureSchedulerRunning
  refine Program.Follows.query fun running _ => ?_
  cases running with
  | true => exact ⟨_, .aside trivial, fun _ _ => rfl⟩
  | false =>
      refine ⟨_, .halt, ?_⟩
      rw [ho]
      refine Program.Follows.lift (applyStopAction_runs (fun h => nofun)) fun s _ _ => ?_
      exact fun _ hr => nomatch hr

theorem applyRecoveryPolicy_runs {t : Task} (ho : t.oid = f.oid) :
    Runs f allowed (Preparation.applyRecoveryPolicy t f.recovering).run (.prepared t)
      fun s r => ∀ u, r = .ok u → s = .prepared t := by
  unfold Preparation.applyRecoveryPolicy
  rw [ho]
  by_cases hr : f.recovering
  · simp only [hr, Bool.not_true, Bool.false_eq_true, if_false]
    split
    · exact fun _ hr => nomatch hr
    · next hd =>
      refine Program.Follows.lift (bestEffort_runs (close_runs
        (fun _ => .recoverClosing hr hd) fun _ => .aside trivial)) fun _ _ _ => ?_
      exact fun _ hr => nomatch hr
    · next hd =>
      refine Program.Follows.lift (bestEffort_runs (suspend_runs
        (fun _ => .recoverSuspending hr hd) fun _ => .aside trivial)) fun _ _ _ => ?_
      exact fun _ hr => nomatch hr
    · exact fun _ hr => nomatch hr
    · exact fun _ _ => rfl
    · exact fun _ _ => rfl
  · simp only [hr, Bool.not_false, if_true]
    exact fun _ _ => rfl

/-! Admission looks at other records only. -/

theorem saturated_inquires (config : Config) (oid : TaskOid) (gs : List GroupConstraint) :
    (Admission.saturated config oid gs).run.Only Call.IsInquiry := by
  induction gs with
  | nil => trivial
  | cons g gs ih =>
      unfold Admission.saturated
      split
      · exact ih
      · refine Program.Only.attempt ⟨trivial, fun _ => trivial⟩ fun running => ?_
        refine Program.Only.attempt ih fun rest => ?_
        split <;> trivial

theorem naturalRefire?_inquires (config : Config) (t : Task) (latest : Instant) :
    (Admission.naturalRefire? config t latest).Only Call.IsInquiry := by
  unfold Admission.naturalRefire?
  split
  · trivial
  · refine Program.Only.bind ⟨trivial, fun _ => trivial⟩ fun answer => ?_
    split <;> trivial

theorem check_inquires (config : Config) (t : Task) (constraints : Option Constraints) :
    (Admission.check config t constraints).run.Only Call.IsInquiry := by
  unfold Admission.check
  split
  · trivial
  · refine Program.Only.attempt (saturated_inquires _ _ _) fun full => ?_
    split
    · trivial
    · refine Program.Only.lift ⟨trivial, fun _ => trivial⟩ fun now => ?_
      refine Program.Only.lift (naturalRefire?_inquires _ _ _) fun next => ?_
      split <;> trivial

theorem enforce_inquires (config : Config) (t : Task) (constraints : Option Constraints) :
    (Admission.enforce config t constraints).run.Only Call.IsInquiry := by
  unfold Admission.enforce
  refine Program.Only.attempt (check_inquires _ _ _) fun decision => ?_
  split
  · trivial
  · split
    · exact Program.Only.attempt ⟨trivial, fun _ => trivial⟩ fun _ => trivial
    · trivial

theorem enforce_aside (config : Config) (t : Task) (constraints : Option Constraints) :
    (Admission.enforce config t constraints).run.Only Call.IsAside :=
  (enforce_inquires config t constraints).mono fun _ => Call.IsInquiry.aside

/-- The phase of a firing past admission. -/
def past (f : Occasion) (g : Firing) : Phase :=
  if f.node.config.checkConcurrent then .admitted g.task g.handle
  else .guarded g.task g.handle

theorem prepare_runs : Runs f allowed (Firing.prepare f.node f.oid f.recovering).run .outset
    fun s r => ∀ g, r = .ok g →
      g.task.oid = f.oid ∧ g.nodeSet = false ∧ g.recovering = f.recovering ∧ s = past f g := by
  unfold Firing.prepare
  refine Program.Follows.attempt load_runs ?_ fun _ _ _ _ hr => nomatch hr
  intro s snapshot hs
  obtain ⟨ho, rfl⟩ := hs snapshot rfl
  refine Program.Follows.attempt ensureReady_runs ?_ fun _ _ _ _ hr => nomatch hr
  rintro s ⟨⟩ ⟨rfl, hr⟩
  refine Program.Follows.attempt (repair_runs ho (hr _ rfl)) ?_ fun _ _ _ _ hr => nomatch hr
  intro s t hs
  obtain ⟨ho, rfl⟩ := hs t rfl
  refine Program.Follows.attempt (ensureSchedulerRunning_runs ho) ?_
    fun _ _ _ _ hr => nomatch hr
  intro s u hs
  obtain rfl := hs u rfl
  refine Program.Follows.attempt (applyRecoveryPolicy_runs ho) ?_
    fun _ _ _ _ hr => nomatch hr
  intro s u hs
  obtain rfl := hs u rfl
  refine Program.Follows.attempt (runs_of_aside (enforce_aside _ _ _)) ?_
    fun _ _ _ _ hr => nomatch hr
  rintro s ⟨⟩ rfl
  refine Program.Follows.query fun h _ => ⟨_, .enter, ?_⟩
  intro g hg
  cases hg
  exact ⟨ho, rfl, rfl, rfl⟩

theorem guard_runs {g : Firing} (ho : g.task.oid = f.oid) :
    Runs f allowed (Possession.guard f.node.config.checkConcurrent g.task).run (past f g)
      fun s r => ∀ u, r = .ok u → s = .guarded g.task g.handle := by
  unfold Possession.guard past
  cases f.node.config.checkConcurrent with
  | false => exact fun _ _ => rfl
  | true =>
      rw [ho]
      refine Program.Follows.query fun answer _ => ?_
      cases answer with
      | error e =>
          refine ⟨_, .aside trivial, ?_⟩
          cases e <;> exact fun _ hr => nomatch hr
      | ok fresh =>
          cases hf : fresh.runningOn? with
          | some node =>
              refine ⟨_, .aside trivial, ?_⟩
              simp only [hf]
              exact fun _ hr => nomatch hr
          | none =>
              refine ⟨_, .look hf, ?_⟩
              simp only [hf]
              exact fun _ _ => rfl

/-! Holding the task. -/

theorem lostRace_aside (t : Task) (e : StoreError) :
    (Possession.lostRace t e).Only Call.IsAside := by
  refine Program.Only.bind ⟨trivial, fun _ => trivial⟩ fun answer => ?_
  split
  · split <;> trivial
  · trivial

theorem start_runs {t : Task} {h : HandleId} (ho : t.oid = f.oid) :
    Runs f allowed (Possession.start t f.nodeId).run (.registered t h) fun s r =>
      (∀ t', r = .ok t' → t'.oid = f.oid ∧ s = .busy (.held h) .none) ∧
        ∀ e, r = .error e → s = .busy (.ended h) .none := by
  unfold Possession.start
  rw [ho]
  refine Program.Follows.query fun answer fair => ?_
  cases answer with
  | ok t' =>
      exact ⟨_, .start, (fun _ hr => by cases hr; exact ⟨fair, rfl⟩), fun _ hr => nomatch hr⟩
  | error e =>
      refine ⟨_, .notStarted, ?_⟩
      cases e with
      | conflict oid expected actual =>
          refine Program.Follows.lift (runs_of_aside (lostRace_aside _ _)) ?_
          rintro s stop rfl
          exact ⟨(fun _ hr => nomatch hr), fun _ _ => rfl⟩
      | notFound _ | preconditionFailed _ _ | backend _ =>
          exact ⟨(fun _ hr => nomatch hr), fun _ _ => rfl⟩

theorem resolve_runs {h : HandleId} {t : Task} (ho : t.oid = f.oid)
    (result : OperationResult) :
    Runs f allowed (Handling.resolve f.node.handlers t result) (.busy (.held h) .none)
      fun s r => s = .busy (.held h) .none ∧
        ∀ handler, r.1 = .ok handler → f.node.handlers.resolve t.handlerRef = some handler := by
  unfold Handling.resolve
  split
  · next handler hh =>
    exact ⟨rfl, fun _ hr => by cases hr; exact hh⟩
  · rw [ho]
    refine (bestEffort_runs recordResult_runs).bind ?_
    rintro s ⟨⟩ rfl
    refine (bestEffort_close (reads_held h)).bind ?_
    rintro s ⟨⟩ rfl
    exact ⟨rfl, fun _ hr => nomatch hr⟩

theorem guarded_runs {h : HandleId} {work : HandlerWork} (hw : work.Only allowed) :
    Runs f allowed (Handling.guarded h f.oid work) (.busy (.held h) .none) fun s _ =>
      s = .busy (.held h) .none := by
  induction work with
  | done result => exact rfl
  | ask r next ih =>
      rw [Handling.guarded]
      intro answer _
      refine ⟨_, .handler hw.1, ?_⟩
      cases answer with
      | none => exact rfl
      | some answer => exact ih answer (hw.2 answer)

theorem run_runs {handler : Handler} {h : HandleId} {t : Task} (ho : t.oid = f.oid)
    (hk : handler.KeepsTo allowed) :
    Runs f allowed (Handling.run handler h { task := t, recovering := f.recovering })
      (.busy (.held h) .none) fun s _ => s = .busy (.held h) .none := by
  unfold Handling.run
  refine Program.Follows.ask fun interrupted _ => ⟨_, .invoke, ?_⟩
  cases interrupted with
  | true => exact rfl
  | false =>
      rw [ho]
      exact guarded_runs (hk _)

theorem applyOutcome_runs {h : HandleId} {t : Task} (ho : t.oid = f.oid) (ended : HandlerEnd)
    (result : OperationResult) :
    Runs f allowed (Handling.applyOutcome t ended result) (.busy (.held h) .none)
      fun s _ => s = .busy (.held h) .none := by
  unfold Handling.applyOutcome
  rw [ho]
  cases ended with
  | error e =>
      refine (bestEffort_runs recordResult_runs).bind ?_
      rintro s _ rfl
      exact rfl
  | ok outcome =>
      refine Program.Follows.bind recordResult_runs ?_
      rintro s answer rfl
      cases answer with
      | error e => exact rfl
      | ok current =>
          dsimp only
          split
          · cases Handling.consequence outcome.status t.recurring with
            | close => exact (bestEffort_close (reads_held h)).bind fun _ _ hs => hs
            | suspend => exact (bestEffort_suspend (reads_held h)).bind fun _ _ hs => hs
            | keep => exact rfl
          · exact rfl

/-! Letting go of the task. -/

theorem forcedWrite_runs {h : HandleId} {t : Task} {rest : Except StoreError Task → Action Unit}
    (hr : ∀ a, rest a = .done ()) :
    Runs f allowed (call (.modify f.oid (Possession.settlingDelta t) .always) >>= rest)
      (.busy (.held h) (.settling t)) fun s _ => s = .busy (.ended h) .none := by
  refine Program.Follows.ask fun answer _ => ?_
  rw [hr]
  cases answer with
  | ok t' => exact ⟨_, .settle (.inr rfl), rfl⟩
  | error e => exact ⟨_, .neverSettled, rfl⟩

theorem settleAnyhow_runs {h : HandleId} {lastRead : Task} :
    Runs f allowed (Possession.settleAnyhow f.oid lastRead)
      (.busy (.held h) (.settling lastRead)) fun s _ => s = .busy (.ended h) .none := by
  unfold Possession.settleAnyhow
  refine Program.Follows.ask fun answer _ => ?_
  cases answer with
  | ok t => exact ⟨_, .readToSettle, forcedWrite_runs fun _ => rfl⟩
  | error e => exact ⟨_, .aside trivial, forcedWrite_runs fun _ => rfl⟩

/-- What a first write comes to that the scheduling state may turn away. -/
theorem firstWrite_runs {h : HandleId} {t : Task} {again : Action Unit}
    (ha : Runs f allowed again (.busy (.held h) (.settling t)) fun s _ =>
      s = .busy (.ended h) .none)
    {rest : Except StoreError Task → Action Unit} (hok : ∀ t', rest (.ok t') = .done ())
    (herror : ∀ e, rest (.error e) = again
      ∨ rest (.error e) = Possession.settleAnyhow f.oid t) :
    Runs f allowed
      (call (.modify f.oid (Possession.settlingDelta t) (.scheduling t.scheduling)) >>= rest)
      (.busy (.held h) (.settling t)) fun s _ => s = .busy (.ended h) .none := by
  refine Program.Follows.ask fun answer _ => ?_
  cases answer with
  | ok t' =>
      rw [hok]
      exact ⟨_, .settle (.inl rfl), rfl⟩
  | error e =>
      refine ⟨_, .notSettled, ?_⟩
      rcases herror e with he | he
      · rw [he]
        exact ha
      · rw [he]
        exact settleAnyhow_runs

theorem settleWithin_runs {h : HandleId} (retries : Nat) (e : Errand) :
    Runs f allowed (Possession.settleWithin retries f.oid) (.busy (.held h) e) fun s _ =>
      s = .busy (.ended h) .none := by
  induction retries generalizing e with
  | zero =>
      unfold Possession.settleWithin
      refine Program.Follows.ask fun answer _ => ?_
      cases answer with
      | error err => exact ⟨_, .giveUp, rfl⟩
      | ok t =>
          refine ⟨_, .readToSettle, firstWrite_runs settleAnyhow_runs (fun _ => rfl) ?_⟩
          intro err
          cases err <;> exact .inr rfl
  | succ retries ih =>
      unfold Possession.settleWithin
      refine Program.Follows.ask fun answer _ => ?_
      cases answer with
      | error err => exact ⟨_, .giveUp, rfl⟩
      | ok t =>
          refine ⟨_, .readToSettle, firstWrite_runs (ih _) (fun _ => rfl) ?_⟩
          intro err
          cases err with
          | preconditionFailed oid reason => exact .inl rfl
          | notFound _ | conflict _ _ _ | backend _ => exact .inr rfl

theorem settle_runs {h : HandleId} :
    Runs f allowed (Possession.settle f.oid) (.busy (.held h) .none) fun s _ =>
      s = .busy (.ended h) .none :=
  settleWithin_runs 1 .none

/-! The whole. -/

theorem spawnAll_only {kind : Call → Prop} {h : HandleId} (hk : ∀ c, kind (.spawn h c))
    (cs : List ChildSpec) : (Firing.spawnAll h cs).Only kind := by
  induction cs with
  | nil => trivial
  | cons c cs ih => exact ⟨hk c, fun _ => ih⟩

theorem spawnAll_aside (h : HandleId) (cs : List ChildSpec) :
    (Firing.spawnAll h cs).Only Call.IsAside :=
  spawnAll_only (fun _ => trivial) cs

theorem interrupt_only {kind : Call → Prop} {h : HandleId} (hclear : kind (.clearCanRun h))
    (hcancel : ∀ abort, kind (.cancelChildren h abort)) (hsafe : kind (.isSafe h))
    (hreach : kind (.interruptHandler h)) (policy : InterruptPolicy) :
    (Interruption.interrupt policy h).Only kind := by
  unfold Interruption.interrupt
  refine Program.Only.bind ⟨hclear, fun _ => trivial⟩ fun _ => ?_
  refine Program.Only.bind ⟨hcancel _, fun _ => trivial⟩ fun _ => ?_
  refine Program.Only.bind ?_ fun reached => ?_
  · cases policy with
    | always | never => trivial
    | maybe => exact ⟨hsafe, fun _ => trivial⟩
  · cases reached with
    | true => exact ⟨hreach, fun _ => trivial⟩
    | false => trivial

theorem interrupt_aside (policy : InterruptPolicy) (h : HandleId) :
    (Interruption.interrupt policy h).Only Call.IsAside :=
  interrupt_only trivial (fun _ => trivial) trivial trivial policy

theorem collectChildren_runs (g : Firing) (s : Phase) :
    Runs f allowed (Firing.collectChildren g) s fun s' r =>
      s' = s ∧ r.1.task = g.task ∧ r.1.handle = g.handle ∧ r.1.nodeSet = g.nodeSet :=
  fun _ _ => ⟨s, .aside trivial, rfl, rfl, rfl, rfl⟩

theorem runHandler_runs {handler : Handler} {g : Firing} (ho : g.task.oid = f.oid)
    (hr : g.recovering = f.recovering) (hk : handler.KeepsTo allowed) :
    Runs f allowed (Firing.runHandler handler g) (.busy (.held g.handle) .none)
      fun s _ => s = .busy (.held g.handle) .none := by
  unfold Firing.runHandler
  refine Program.Follows.ask fun _ _ => ⟨_, .aside trivial, ?_⟩
  refine Program.Follows.ask fun _ _ => ⟨_, .aside trivial, ?_⟩
  rw [hr]
  refine (run_runs ho hk).bind ?_
  rintro s ended rfl
  refine Program.Follows.ask fun _ _ => ⟨_, .aside trivial, ?_⟩
  exact Program.Follows.ask fun _ _ => ⟨_, .aside trivial, rfl⟩

theorem runTaken_runs {handler : Handler} {g : Firing} (ho : g.task.oid = f.oid)
    (hr : g.recovering = f.recovering) (hk : handler.KeepsTo allowed) :
    Runs f allowed (Firing.runTaken f.node handler g) (.busy (.held g.handle) .none) fun s r =>
      s = .busy (.held g.handle) .none ∧ r.1.task = g.task ∧ r.1.handle = g.handle ∧
        r.1.nodeSet = g.nodeSet := by
  unfold Firing.handle
  refine Program.Follows.ask fun _ _ => ⟨_, .aside trivial, ?_⟩
  refine Program.Follows.ask fun _ _ => ⟨_, .aside trivial, ?_⟩
  refine (runs_of_aside (spawnAll_aside _ _)).bind ?_
  rintro s ⟨⟩ rfl
  refine (runHandler_runs ho hr hk).bind ?_
  rintro s ended rfl
  refine (collectChildren_runs _ _).bind ?_
  rintro s ⟨g', closed⟩ h
  exact h

theorem conclude_runs {g : Firing} (ho : g.task.oid = f.oid) (ended : HandlerEnd)
    {h : HandleId} :
    Runs f allowed (Firing.conclude g ended) (.busy (.held h) .none) fun s r =>
      s = .busy (.held h) .none ∧ r.1.task = g.task ∧ r.1.handle = g.handle ∧
        r.1.nodeSet = g.nodeSet := by
  unfold Firing.conclude
  refine (applyOutcome_runs ho ended _).bind ?_
  rintro s result rfl
  cases ended with
  | ok outcome => exact ⟨rfl, rfl, rfl, rfl⟩
  | error e => exact ⟨rfl, rfl, rfl, rfl⟩

/-- The phase in which the registered part of a firing ends. -/
def registeredEnd (g : Firing) : Phase :=
  .busy (if g.nodeSet then .held g.handle else .ended g.handle) .none

theorem runStarted_runs {g : Firing} (ho : g.task.oid = f.oid) (hn : g.nodeSet = true)
    (hr : g.recovering = f.recovering) (hk : f.node.KeepsTo allowed) :
    Runs f allowed (Firing.runStarted f.node g) (.busy (.held g.handle) .none) fun s r =>
      r.1.task.oid = f.oid ∧ s = registeredEnd r.1 := by
  unfold Firing.runStarted
  refine (resolve_runs ho _).bind ?_
  rintro s ⟨resolved, result⟩ ⟨rfl, hresolved⟩
  cases resolved with
  | error stop =>
      refine ⟨ho, ?_⟩
      rw [registeredEnd, hn]
      rfl
  | ok handler =>
      refine Program.Follows.bind (runTaken_runs ?_ ?_ (hk _ _ (hresolved handler rfl))) ?_
      · exact ho
      · exact hr
      rintro s ⟨g', ended⟩ ⟨rfl, ht, hh, hn'⟩
      have ho' : g'.task.oid = f.oid := by rw [ht]; exact ho
      refine (conclude_runs ho' ended).mono ?_
      rintro s ⟨g'', ending⟩ ⟨rfl, ht', hh', hn''⟩
      refine ⟨by rw [ht', ho'], ?_⟩
      rw [registeredEnd, hn'', hn', hh', hh, if_pos hn]

theorem runRegistered_runs {g : Firing} (ho : g.task.oid = f.oid) (hs : g.nodeSet = false)
    (hr : g.recovering = f.recovering) (hk : f.node.KeepsTo allowed) :
    Runs f allowed (Firing.runRegistered f.node g) (.registered g.task g.handle) fun s r =>
      r.1.task.oid = f.oid ∧ s = registeredEnd r.1 := by
  unfold Firing.runRegistered
  refine (start_runs ho).bind ?_
  intro s started hstart
  cases started with
  | error stop =>
      refine ⟨ho, ?_⟩
      rw [hstart.2 stop rfl, registeredEnd, hs]
      rfl
  | ok task =>
      obtain ⟨ho, rfl⟩ := hstart.1 task rfl
      exact runStarted_runs ho rfl hr hk

theorem release_runs {g : Firing} (ho : g.task.oid = f.oid) :
    Runs f allowed (Firing.release f.node g) (registeredEnd g) fun s _ =>
      s = .busy (.ended g.handle) .none := by
  unfold Firing.release registeredEnd
  cases g.nodeSet with
  | false => exact rfl
  | true =>
      refine Program.Follows.ask fun _ _ => ⟨_, .aside trivial, ?_⟩
      refine (runs_of_aside (spawnAll_aside _ _)).bind ?_
      rintro s ⟨⟩ rfl
      rw [ho]
      exact settle_runs

theorem obeyStop_runs {g : Firing} (ho : g.task.oid = f.oid) :
    Runs f allowed (Firing.obeyStop g) (.busy (.ended g.handle) .none) fun s _ =>
      s = .busy (.ended g.handle) .none := by
  unfold Firing.obeyStop
  refine Program.Follows.ask fun canRun _ => ⟨_, .aside trivial, ?_⟩
  cases canRun with
  | true => exact rfl
  | false =>
      rw [ho]
      exact applyStopAction_runs nofun

theorem collectLate_runs {g : Firing} (ho : g.task.oid = f.oid) {w : Tenure} :
    Runs f allowed (Firing.collectLate g) (.busy w .none) fun s r =>
      s = .busy w .none ∧ r.handle = g.handle := by
  unfold Firing.collectLate
  refine (collectChildren_runs _ _).bind ?_
  rintro s ⟨g', closed⟩ ⟨rfl, ht, hh, -⟩
  rw [← ht] at ho
  dsimp only
  split
  · exact ⟨rfl, hh⟩
  · rw [ho]
    refine (bestEffort_runs recordResult_runs).bind ?_
    rintro s ⟨⟩ rfl
    exact ⟨rfl, hh⟩

theorem cleanUp_runs {g : Firing} (ho : g.task.oid = f.oid) :
    Runs f allowed (Firing.cleanUp f.node g) (registeredEnd g) fun s r =>
      s = .busy (.ended g.handle) .none ∧ r.handle = g.handle := by
  unfold Firing.cleanUp
  refine Program.Follows.ask fun _ _ => ⟨_, .aside trivial, ?_⟩
  refine (release_runs ho).bind ?_
  rintro s ⟨⟩ rfl
  refine (obeyStop_runs ho).bind ?_
  rintro s ⟨⟩ rfl
  exact collectLate_runs ho

theorem finish_runs {g : Firing} (ho : g.task.oid = f.oid) (ending : Firing.Ending) :
    Runs f allowed (Firing.finish f.node g ending) (registeredEnd g) fun _ _ => True := by
  unfold Firing.finish
  refine (cleanUp_runs ho).bind ?_
  rintro s g' ⟨rfl, hh⟩
  rw [hh]
  exact Program.Follows.ask fun _ _ => ⟨_, .deregister, trivial⟩

theorem runPrepared_runs {g : Firing} (ho : g.task.oid = f.oid) (hs : g.nodeSet = false)
    (hr : g.recovering = f.recovering) (hk : f.node.KeepsTo allowed) :
    Runs f allowed (Firing.runPrepared f.node g) (past f g) fun _ _ => True := by
  unfold Firing.runPrepared
  refine (guard_runs ho).bind ?_
  intro s guarded hguard
  cases guarded with
  | error stop => trivial
  | ok u =>
      obtain rfl := hguard u rfl
      refine Program.Follows.ask fun registered _ => ?_
      cases registered with
      | false => exact ⟨_, .notRegistered, trivial⟩
      | true =>
          refine ⟨_, .register, ?_⟩
          refine Program.Follows.ask fun shutDown _ => ⟨_, .aside trivial, ?_⟩
          have rest : Runs f allowed
              ((Firing.runRegistered f.node g).bind fun e => Firing.finish f.node e.1 e.2)
              (.registered g.task g.handle) fun _ _ => True := by
            refine (runRegistered_runs ho hs hr hk).bind ?_
            rintro s e ⟨ho', rfl⟩
            exact finish_runs ho' e.2
          cases shutDown with
          | false => exact rest
          | true =>
              refine (runs_of_aside (interrupt_aside _ _)).bind ?_
              rintro s ⟨⟩ rfl
              exact rest

end Course

/-- A firing runs its course, from the outset to its report. -/
theorem Occasion.program_follows {f : Occasion} {allowed : HandlerCall → Prop}
    (hk : f.node.KeepsTo allowed) :
    f.program.Follows Call.Fair (Phase.Move f allowed) .outset fun _ _ => True := by
  unfold Occasion.program Node.fire
  refine Course.prepare_runs.bind ?_
  intro s prepared hp
  cases prepared with
  | error stop => trivial
  | ok g =>
      obtain ⟨ho, hs, hr, rfl⟩ := hp g rfl
      exact Course.runPrepared_runs ho hs hr hk

end TaskFiring
