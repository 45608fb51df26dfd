import TaskFiring.Proofs.Interleaving

/-!
Firings that run alone. Parts of a program are followed from one point to the next and
put together; a firing of a ready task that no node runs gets to its handler.
-/

namespace TaskFiring

namespace Program

variable {α β : Type} {place : Place} {w w' w'' : World}

/-- A turn of a program that runs alone. -/
def Alone (place : Place) (s : Action α × World) (d : Deed) (s' : Action α × World) : Prop :=
  s.1.Turn place s.2 d s'.1 s'.2

/-- Running alone, a program gets to a point and leaves such a world. -/
def Reaches (place : Place) (p : Action α) (w : World) (p' : Action α) (w' : World) : Prop :=
  ∃ ds, Run (Alone place) (p, w) ds (p', w')

theorem Reaches.refl (p : Action α) (w : World) : p.Reaches place w p w := ⟨[], .nil⟩

theorem Reaches.trans {p p' p'' : Action α} (h : p.Reaches place w p' w')
    (h' : p'.Reaches place w' p'' w'') : p.Reaches place w p'' w'' := by
  obtain ⟨ds, h⟩ := h
  obtain ⟨ds', h'⟩ := h'
  exact ⟨ds ++ ds', h.append h'⟩

theorem Reaches.ask {r : Call} {a : r.Response} {next : r.Response → Action α}
    {q : Action α} (ha : w.Answers place r a w') (h : (next a).Reaches place w' q w'') :
    (Program.ask r next : Action α).Reaches place w q w'' :=
  Reaches.trans ⟨[.answered r a], .snoc .nil (.answered ha)⟩ h

theorem Turn.bind {p p' : Action α} {f : α → Action β} {d : Deed}
    (h : p.Turn place w d p' w') : (p.bind f).Turn place w d (p'.bind f) w' := by
  cases h with
  | answered ha => exact .answered ha
  | gathered hg => exact .gathered hg

/-- The first of two parts goes on as it does by itself. -/
theorem Reaches.first {p p' : Action α} {f : α → Action β} (h : p.Reaches place w p' w') :
    (p.bind f).Reaches place w (p'.bind f) w' := by
  obtain ⟨ds, h⟩ := h
  refine ⟨ds, ?_⟩
  generalize hs : (p', w') = s at h
  induction h generalizing p' w' with
  | nil =>
      cases hs
      exact .nil
  | @snoc s _ _ _ _ ht ih =>
      cases hs
      exact .snoc (ih rfl) (Turn.bind ht)

/-- The second of two parts goes on where the first has ended. -/
theorem Reaches.bind {p : Action α} {f : α → Action β} {a : α} {q : Action β}
    (h : p.Reaches place w (.done a) w') (hf : (f a).Reaches place w' q w'') :
    (p.bind f).Reaches place w q w'' :=
  h.first.trans hf

theorem Reaches.attempt {ε : Type} {x : ExceptT ε (Program Calls) α}
    {f : α → ExceptT ε (Program Calls) β} {a : α} {q : Action (Except ε β)}
    (h : x.run.Reaches place w (.done (.ok a)) w')
    (hf : (f a).run.Reaches place w' q w'') : (x >>= f).run.Reaches place w q w'' :=
  Reaches.bind (f := ExceptT.bindCont f) h hf

/-- A call that is answered at once, in a part that may fail. -/
theorem Reaches.query {ε : Type} {r : Call} {a : r.Response}
    {f : r.Response → ExceptT ε (Program Calls) β} {q : Action (Except ε β)}
    (ha : w.Answers place r a w') (hf : (f a).run.Reaches place w' q w'') :
    ((liftM (call r) : ExceptT ε (Program Calls) _) >>= f).run.Reaches place w q w'' :=
  Reaches.ask ha hf

end Program

namespace Solo

open Program (Reaches)

variable {f : Occasion} {w : World} {t : Task}

/-- A world in which a firing of a task finds nothing in its way: its record is ready and
not running, it belongs to no hierarchy or group, and its node is at work and does not
run it. -/
structure Open (f : Occasion) (w : World) (t : Task) : Prop where
  available : w.store.available
  record : w.store.find? f.oid = some t
  ready : t.isReady
  idle : t.execution ≠ .running
  parent : t.parent = none
  constraints : t.constraints = none
  handler : ∃ handler, f.node.handlers.resolve t.handlerRef = some handler
  scheduler : w.trigger.running
  vacant : w.registered f.place f.oid = none
  awake : (w.site f.place).shutDown = false

theorem answers_get (ha : w.store.available) (hr : w.store.find? f.oid = some t) :
    w.Answers f.place (.get f.oid) (.ok t) w :=
  .performed (by rw [World.perform, Store.get_of_find? ha hr])

theorem load_reaches (h : Open f w t) :
    (Preparation.load f.oid).run.Reaches f.place w
      (.done (.ok { task := t, rootOid := t.oid, constraints := none })) w := by
  unfold Preparation.load
  refine Reaches.query (answers_get h.available h.record) ?_
  simp only [h.parent, h.constraints]
  exact .refl _ _

/-- The world after a write of the record of a task. -/
def wrote (w : World) (t : Task) (d : TaskDelta) : World :=
  { w with store := { w.store with tasks := w.store.tasks.put (Store.written t d) } }

theorem answers_modify {d : TaskDelta} {c : Precondition} (ha : w.store.available)
    (hr : w.store.find? f.oid = some t) (hc : Store.violation? t c = none) :
    w.Answers f.place (.modify f.oid d c) (.ok (Store.written t d)) (wrote w t d) := by
  refine .performed ?_
  rw [World.perform, Store.modify, if_pos ha]
  simp only [hr, hc]
  rfl

theorem find?_wrote {d : TaskDelta} (hr : w.store.find? f.oid = some t) :
    (wrote w t d).store.find? f.oid = some (Store.written t d) := by
  refine (Table.find?_put _ _ _).trans (if_pos ?_)
  exact (Store.oid_of_find? hr : t.oid = f.oid)

theorem violation?_version (t : Task) : Store.violation? t (.version t.version) = none := by
  simp [Store.violation?]

/-- What a dead run may have left is cleared. -/
theorem repair_reaches (h : Open f w t) :
    ∃ t' w', (Preparation.repair f.nodeId t false).run.Reaches f.place w (.done (.ok t')) w' ∧
      Open f w' t' := by
  have ho := Store.oid_of_find? h.record
  have hlive : ¬ Preparation.isLive t f.nodeId false false := by
    simp [Preparation.isLive, Task.runningOn?, h.idle]
  have hregistered : w.Answers f.place (.registered f.oid) none w :=
    .performed (by rw [World.perform, h.vacant])
  by_cases hc : Preparation.isClean t
  · refine ⟨t, w, ?_, h⟩
    unfold Preparation.repair
    rw [ho]
    refine Reaches.query hregistered ?_
    simp only [hc, Bool.or_true, if_true]
    exact .refl _ _
  · refine ⟨Store.written t Preparation.repairDelta, wrote w t Preparation.repairDelta, ?_, ?_⟩
    · unfold Preparation.repair
      rw [ho]
      refine Reaches.query hregistered ?_
      rw [if_neg (by simpa [hc] using hlive)]
      refine Reaches.query (answers_modify h.available h.record (violation?_version t)) ?_
      exact .refl _ _
    · exact { h with
        record := find?_wrote h.record
        idle := fun hrunning => by cases hrunning }

theorem prepare_reaches (h : Open f w t) :
    ∃ g w', (Firing.prepare f.node f.oid false).run.Reaches f.place w (.done (.ok g)) w' ∧
      Open f w' g.task ∧ w'.owner? g.handle = some f.oid ∧
      w'.isInterrupted g.handle = false := by
  obtain ⟨t', w₁, hrepair, h₁⟩ := repair_reaches h
  let w₂ : World := { w₁ with handles := w₁.handles ++ [{ oid := f.oid }] }
  let g : Firing :=
    { task := t', recovering := false, handle := ⟨w₁.handles.length⟩,
      result := .new Firing.operation }
  refine ⟨g, w₂, ?_, ?_, World.owner?_newHandle w₁ f.oid, ?_⟩
  · unfold Firing.prepare
    refine Reaches.attempt (load_reaches h) ?_
    have hready : (Preparation.ensureReady t).run.Reaches f.place w (.done (.ok ())) w := by
      unfold Preparation.ensureReady
      rw [if_pos h.ready]
      exact .refl _ _
    refine Reaches.attempt hready ?_
    refine Reaches.attempt hrepair ?_
    have hrunning : (Preparation.ensureSchedulerRunning t').run.Reaches f.place w₁
        (.done (.ok ())) w₁ := by
      unfold Preparation.ensureSchedulerRunning
      refine Reaches.query (a := true) (.performed (by rw [World.perform, h₁.scheduler])) ?_
      exact .refl _ _
    refine Reaches.attempt hrunning ?_
    have hpolicy : (Preparation.applyRecoveryPolicy t' false).run.Reaches f.place w₁
        (.done (.ok ())) w₁ := .refl _ _
    refine Reaches.attempt hpolicy ?_
    have hadmitted : (Admission.enforce f.node.config t' none).run.Reaches f.place w₁
        (.done (.ok ())) w₁ := .refl _ _
    refine Reaches.attempt hadmitted ?_
    have hhandle : w₁.Answers f.place (.newHandle f.oid) ⟨w₁.handles.length⟩ w₂ := .performed rfl
    exact Reaches.query hhandle (.refl _ _)
  · exact { h₁ with }
  · simp [World.isInterrupted, World.handle?, w₂, g]

theorem guard_reaches (h : Open f w t) (enabled : Bool) :
    (Possession.guard enabled t).run.Reaches f.place w (.done (.ok ())) w := by
  unfold Possession.guard
  cases enabled with
  | false => exact .refl _ _
  | true =>
      rw [Store.oid_of_find? h.record]
      refine Reaches.query (answers_get h.available h.record) ?_
      simp only [Task.runningOn?, h.idle, if_false]
      exact .refl _ _

/-- Running alone, the program gets to ask whether its handler may begin, and may. -/
def Invokes {α : Type} (place : Place) (p : Action α) (w : World) : Prop :=
  ∃ h next w', p.Reaches place w (.ask (.isInterrupted h) next) w' ∧
    w'.isInterrupted h = false

section

variable {α β : Type} {place : Place} {w' : World}

theorem Invokes.after {p p' : Action α} (h : p.Reaches place w p' w')
    (h' : Invokes place p' w') : Invokes place p w := by
  obtain ⟨k, next, w'', hr, hi⟩ := h'
  exact ⟨k, next, w'', h.trans hr, hi⟩

theorem Invokes.call {r : Call} {a : r.Response} {next : r.Response → Action α}
    (ha : w.Answers place r a w') (h : Invokes place (next a) w') :
    Invokes place (call r >>= next) w :=
  h.after (Reaches.ask ha (.refl _ _))

theorem Invokes.first {p : Action α} {f : α → Action β} (h : Invokes place p w) :
    Invokes place (p.bind f) w := by
  obtain ⟨k, next, w', hr, hi⟩ := h
  exact ⟨k, fun b => (next b).bind f, w', hr.first, hi⟩

theorem Invokes.bind {p : Action α} {f : α → Action β} {a : α}
    (h : p.Reaches place w (.done a) w') (hf : Invokes place (f a) w') :
    Invokes place (p.bind f) w :=
  hf.after h.first

end

theorem isInterrupted_onHandle {h h' : HandleId} {g : Handle → Handle}
    (hg : ∀ x, (g x).interrupted = x.interrupted) :
    (w.onHandle h' g).isInterrupted h = w.isInterrupted h := by
  simp only [World.isInterrupted, World.handle?, World.onHandle, List.getElem?_modify]
  cases w.handles[h.index]? with
  | none => rfl
  | some x =>
      simp only [Option.map_eq_map, Option.map_some, Option.any_some]
      split
      · exact hg x
      · rfl

theorem spawnAll_reaches (h : HandleId) (cs : List ChildSpec) (place : Place) (w : World) :
    ∃ w', (Firing.spawnAll h cs).Reaches place w (.done ()) w' ∧
      ∀ k, w'.isInterrupted k = w.isInterrupted k := by
  induction cs generalizing w with
  | nil => exact ⟨w, .refl _ _, fun _ => rfl⟩
  | cons c cs ih =>
      obtain ⟨w', hr, hi⟩ := ih (w.spawn h c).2
      refine ⟨w', Reaches.ask (.performed rfl) hr, fun k => (hi k).trans ?_⟩
      exact isInterrupted_onHandle (w := { w with nextChild := w.nextChild + 1 }) fun _ => rfl

theorem runHandler_invokes {handler : Handler} {g : Firing}
    (hi : w.isInterrupted g.handle = false) (place : Place) :
    Invokes place (Firing.runHandler handler g) w := by
  unfold Firing.runHandler
  refine Invokes.call (.performed rfl) ?_
  refine Invokes.call (.performed rfl) ?_
  refine ⟨g.handle, _, _, .refl _ _, ?_⟩
  exact (isInterrupted_onHandle (g := fun s => { s with executing := true })
    fun _ => rfl).trans hi

theorem runStarted_invokes {g : Firing} {handler : Handler}
    (hh : f.node.handlers.resolve g.task.handlerRef = some handler)
    (hi : w.isInterrupted g.handle = false) :
    Invokes f.place (Firing.runStarted f.node g) w := by
  unfold Firing.runStarted
  rw [Handling.resolve_of_some hh]
  refine Invokes.bind (a := (.ok handler, g.result)) (.refl _ _) (Invokes.first ?_)
  unfold Firing.runTaken
  refine Invokes.call (.performed rfl) ?_
  refine Invokes.call (.performed rfl) ?_
  obtain ⟨w', hspawn, hi'⟩ := spawnAll_reaches g.handle (f.node.onStart g.task.oid) f.place _
  refine Invokes.bind hspawn (Invokes.first (runHandler_invokes ?_ f.place))
  refine (hi' _).trans ?_
  exact (isInterrupted_onHandle (g := fun s => { s with safe := handler.safe })
    fun _ => rfl).trans hi

theorem runRegistered_invokes {g : Firing} (ha : w.store.available)
    (hr : w.store.find? f.oid = some g.task)
    (hh : ∃ handler, f.node.handlers.resolve g.task.handlerRef = some handler)
    (hi : w.isInterrupted g.handle = false) :
    Invokes f.place (Firing.runRegistered f.node g) w := by
  obtain ⟨handler, hh⟩ := hh
  have hstart : (Possession.start g.task f.nodeId).run.Reaches f.place w
      (.done (.ok (Store.written g.task (Possession.runningDelta f.nodeId))))
      (wrote w g.task (Possession.runningDelta f.nodeId)) := by
    unfold Possession.start
    rw [Store.oid_of_find? hr]
    exact Reaches.query (answers_modify ha hr (violation?_version _)) (.refl _ _)
  unfold Firing.runRegistered
  exact Invokes.bind hstart (runStarted_invokes hh hi)

/-- The world after a task was registered. -/
def entered (w : World) (place : Place) (oid : TaskOid) (h : HandleId) : World :=
  w.onSite place fun s => { s with running := s.running.put (oid, h) }

theorem register_vacant {place : Place} {oid : TaskOid} {h : HandleId}
    (ho : w.owner? h = some oid) (hv : w.registered place oid = none) :
    w.register place h = (true, entered w place oid h) := by
  obtain ⟨handle, hh, rfl⟩ : ∃ handle, w.handle? h = some handle ∧ handle.oid = oid := by
    simpa [World.owner?] using ho
  have hc : ¬ (w.site place).running.contains handle.oid := by
    simpa [World.registered, Table.contains] using hv
  simp only [World.register, hh, hc]
  rfl

/-- A firing of a task that is ready and not running, on a node that does not run it, gets
to its handler. -/
theorem fire_invokes (h : Open f w t) (hf : f.recovering = false) :
    Invokes f.place f.program w := by
  obtain ⟨g, w₁, hprepare, h₁, howner, hi⟩ := prepare_reaches h
  unfold Occasion.program Node.fire
  rw [hf]
  refine Invokes.bind hprepare ?_
  unfold Firing.runPrepared
  refine Invokes.bind (guard_reaches h₁ _) ?_
  have hregister : w₁.Answers f.place (.register g.handle) true
      (entered w₁ f.place f.oid g.handle) :=
    .performed (by rw [World.perform, register_vacant howner h₁.vacant])
  have hawake : (entered w₁ f.place f.oid g.handle).Answers f.place .isShutDown false
      (entered w₁ f.place f.oid g.handle) := by
    refine .performed ?_
    rw [World.perform, entered, World.site_onSite, if_pos rfl, h₁.awake]
  refine Invokes.call hregister ?_
  refine Invokes.call hawake ?_
  exact Invokes.first (runRegistered_invokes h₁.available h₁.record h₁.handler hi)

/-- What a program does that runs alone, its firing does while all others wait. -/
theorem run_of_alone {ι : Type} [DecidableEq ι] {crew : ι → Occasion}
    {outside : World → World → Prop} {i : ι} {c : Scene ι}
    {p : Action FiringOutcome} {ds : List Deed}
    (hr : Run (Program.Alone (crew i).place) (c.program i, c.world) ds (p, w)) :
    Run (Scene.Step crew outside) c (ds.map (.deed i)) ⟨w, Function.update c.program i p⟩ := by
  generalize hs : (p, w) = q at hr
  induction hr generalizing p w with
  | nil =>
      cases hs
      rw [Function.update_eq_self]
      exact .nil
  | @snoc q₁ _ ds d _ ht ih =>
      subst hs
      have hd : Scene.Step crew outside ⟨q₁.2, Function.update c.program i q₁.1⟩ (.deed i d)
          ⟨w, Function.update (Function.update c.program i q₁.1) i p⟩ := by
        refine .deed ?_
        simp only [Function.update_self]
        exact ht
      rw [Function.update_idem] at hd
      rw [List.map_append]
      exact .snoc (ih rfl) hd

end Solo
end TaskFiring
