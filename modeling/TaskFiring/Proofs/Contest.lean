import TaskFiring.Proofs.Hierarchy
import TaskFiring.Proofs.Loading
import TaskFiring.Proofs.Starting

/-!
A contest for a task, as one of the firings sees it. Nothing stands in the way of the firings
but each other: the task is ready, recurs and belongs to no group with a limit, the store and
the scheduler are at work, and nobody stops a firing. `Move` lists what a firing may do and
learn until it is over. It gets to its handler, or it is beaten, and then it says so.
-/

namespace TaskFiring

/-- The one is the other, but for what running the task may change. -/
structure Task.Resembles (t t' : Task) : Prop where
  oid : t'.oid = t.oid
  scheduling : t'.scheduling = t.scheduling
  recurring : t'.recurring = t.recurring
  handlerRef : t'.handlerRef = t.handlerRef
  parent : t'.parent = t.parent
  constraints : t'.constraints = t.constraints

theorem Task.Resembles.refl (t : Task) : t.Resembles t := ⟨rfl, rfl, rfl, rfl, rfl, rfl⟩

theorem Task.Resembles.ready {t t' : Task} (h : t.Resembles t') : t'.isReady = t.isReady := by
  rw [Task.isReady, h.scheduling, Task.isReady]

theorem Task.Resembles.written {t t' : Task} {d : TaskDelta} (h : t.Resembles t')
    (hd : d.scheduling = none) : t.Resembles (Store.written t' d) where
  oid := h.oid
  scheduling := by simp [Store.written, TaskDelta.apply, hd, h.scheduling]
  recurring := h.recurring
  handlerRef := h.handlerRef
  parent := h.parent
  constraints := h.constraints

/-- A call of a handler that leaves its task as it is, and every task where it is. -/
def HandlerCall.Behaves (oid : TaskOid) (call : HandlerCall) : Prop :=
  call.Spares oid ∧ ∀ oid', call ≠ .disturb (.remove oid')

/-- Whatever it is answered, the handler ends by reporting that it has finished. -/
def Handler.Finishes (handler : Handler) : Prop :=
  ∀ context, (handler.work context).Meets Demand.free () fun _ ended =>
    ∃ message, ended = .ok ⟨.finished, message⟩

/-- The task may be run again and again, whatever else runs. -/
structure Task.Unlimited (t : Task) (s : Store) : Prop where
  ready : t.isReady
  recurring : t.recurring
  groups : ∀ c, s.effectiveConstraints t = some c → c.groups = []

/-- A firing of the task, which does not recover it and has a handler that lets it recur. -/
structure Occasion.Contends (f : Occasion) (t : Task) : Prop where
  task : f.oid = t.oid
  fresh : f.recovering = false
  handler : ∃ handler, f.node.handlers.resolve t.handlerRef = some handler ∧
    handler.KeepsTo (HandlerCall.Behaves t.oid) ∧ handler.Finishes

/-- A firing stopped since another one runs the task, or has written it since. -/
inductive Beaten (oid : TaskOid) : FiringOutcome → Prop
  | running {reason : String} {node : NodeId} :
      Beaten oid (.error (.stopped .error reason (.concurrentExecution oid node)))
  | changed {reason : String} {expected actual : UInt64} :
      Beaten oid (.error (.stopped .error reason (.store (.conflict oid expected actual))))

/-- The surroundings that a firing of the task needs, in the hierarchy of the store. -/
structure World.Hosts (w : World) (f : Occasion) (t : Task) (s : Store) : Prop where
  available : w.store.available
  record : ∃ r, w.store.find? f.oid = some r ∧ t.Resembles r
  forest : s.SameForest w.store
  scheduler : w.trigger.running
  awake : (w.site f.place).shutDown = false

namespace Call

/-- Calls that neither write a task nor touch a registry, and stop nothing. -/
def IsHarmless : Call → Prop
  | .modify _ _ _ | .register _ | .deregister _ | .shutDown | .isInterrupted _
  | .handler _ _ _ | .clearCanRun _ | .interruptHandler _ => False
  | _ => True

/-- Besides, writes of a task that leave its scheduling state alone. -/
def IsLight (oid : TaskOid) : Call → Prop
  | .modify oid' d _ => oid' = oid ∧ d.scheduling = none
  | r => r.IsHarmless

/-- The answer says that the firing of the handle was stopped. -/
def Halts (h : HandleId) : (r : Call) → r.Response → Prop
  | .canRun h', false | .isInterrupted h', true => h' = h
  | .handler h' _ _, none => h' = h
  | _, _ => False

end Call

/-- Where a firing is in a contest. -/
inductive Footing
  | outset
  | loaded (t : Task)
  /-- The record was left by a dead run. -/
  | repairing (t : Task)
  | prepared (t : Task)
  | admitted (t : Task) (h : HandleId)
  | registered (t : Task) (h : HandleId)
  | taken (h : HandleId)
  /-- It has gone on to its handler. -/
  | invoked (h : HandleId)
  /-- The task was not to be taken any more. -/
  | outrun (h : HandleId)
  | left
  | lost
  /-- It was stopped, and may do anything. -/
  | astray

namespace Footing

def handle? : Footing → Option HandleId
  | .admitted _ h | .registered _ h | .taken h | .invoked h | .outrun h => some h
  | _ => none

/-- How a firing is over that has gone on to its handler, or was outrun. -/
def ending : Footing → Footing
  | .invoked _ => .left
  | _ => .lost

/-- The firing has taken the task, or was too late, and is still registered. -/
def Lingers (h : HandleId) (s : Footing) : Prop := s = .invoked h ∨ s = .outrun h

theorem Lingers.handle? {h : HandleId} {s : Footing} (hs : s.Lingers h) :
    s.handle? = some h := by
  rcases hs with rfl | rfl <;> rfl

/-- What a firing reports when it is over. -/
def Reports (oid : TaskOid) : Footing → FiringOutcome → Prop
  | .left, _ | .astray, _ => True
  | .lost, report => Beaten oid report
  | _, _ => False

end Footing

namespace Contest

open Program (Follows Only)

section

variable (f : Occasion)

inductive Move : Protocol Calls Footing
  | aside {s : Footing} {r : Call} {a : r.Response} : r.IsHarmless → Move s r a s
  | load {t : Task} : Move .outset (.get f.oid) (.ok t) (.loaded t)
  | spare {t : Task} {found : Option HandleId} :
      Preparation.isLive t f.nodeId found.isSome f.recovering ∨ Preparation.isClean t →
      Move (.loaded t) (.registered f.oid) found (.prepared t)
  | doubt {t : Task} {found : Option HandleId} : ¬ Preparation.isClean t →
      Move (.loaded t) (.registered f.oid) found (.repairing t)
  | repair {t t' : Task} :
      Move (.repairing t) (.modify f.oid Preparation.repairDelta (.version t.version))
        (.ok t') (.prepared t')
  | notRepaired {t : Task} {e : StoreError} :
      Move (.repairing t) (.modify f.oid Preparation.repairDelta (.version t.version))
        (.error e) .lost
  | enter {t : Task} {h : HandleId} :
      Move (.prepared t) (.newHandle f.oid) h (.admitted t h)
  | seen {t fresh : Task} {h : HandleId} {node : NodeId} : fresh.runningOn? = some node →
      Move (.admitted t h) (.get f.oid) (.ok fresh) .lost
  | register {t : Task} {h : HandleId} :
      Move (.admitted t h) (.register h) true (.registered t h)
  | notRegistered {t : Task} {h : HandleId} : Move (.admitted t h) (.register h) false .lost
  | start {t t' : Task} {h : HandleId} :
      Move (.registered t h)
        (.modify f.oid (Possession.runningDelta f.nodeId) (.version t.version)) (.ok t')
        (.taken h)
  | notStarted {t : Task} {h : HandleId} {e : StoreError} :
      Move (.registered t h)
        (.modify f.oid (Possession.runningDelta f.nodeId) (.version t.version)) (.error e)
        (.outrun h)
  | invoke {h : HandleId} : Move (.taken h) (.isInterrupted h) false (.invoked h)
  | handler {h : HandleId} {call : HandlerCall} {a : call.Response} : call.Behaves f.oid →
      Move (.invoked h) (.handler h f.oid call) (some a) (.invoked h)
  | linger {s : Footing} {h : HandleId} {r : Call} {a : r.Response} : s.Lingers h →
      r.IsLight f.oid → Move s r a s
  | deregister {s : Footing} {h : HandleId} {a : Bool} : s.Lingers h →
      Move s (.deregister h) a s.ending
  | stray {s : Footing} {h : HandleId} {r : Call} {a : r.Response} : s.handle? = some h →
      r.Halts h a → Move s r a .astray
  | wander {r : Call} {a : r.Response} : Move .astray r a .astray

variable (t : Task) (s : Store)

/-- The answers that a firing may get where it has what it needs, and any to a wait for
children. -/
def Fair (r : Call) (a : r.Response) : Prop :=
  ¬ r.IsCollect → ∃ w w' : World, w.Hosts f t s ∧ w.Answers f.place r a w'

/-- A part of a firing in a contest runs from a footing to an end. -/
abbrev Runs {α : Type} (p : Action α) (st : Footing) (Q : Footing → α → Prop) : Prop :=
  p.Follows (Fair f t s) (Move f) st Q

end

section

variable {f : Occasion} {t u : Task} {s : Store} {oid : TaskOid}

/-! What the answers say. -/

theorem Fair.get {a : Except StoreError Task} (hf : Fair f t s (.get f.oid) a) :
    ∃ r, a = .ok r ∧ t.Resembles r := by
  obtain ⟨w, w', hosts, ha⟩ := hf id
  obtain ⟨r, hr, same⟩ := hosts.record
  exact ⟨r, ha.get.2.trans (Store.get_of_find? hosts.available hr), same⟩

/-- What is read of any task shows where it is in the hierarchy. -/
theorem Fair.placed {p : Task} (hf : Fair f t s (.get oid) (.ok p)) :
    ∃ q, s.find? oid = some q ∧ p.parent = q.parent ∧ p.constraints = q.constraints := by
  obtain ⟨w, w', hosts, ha⟩ := hf id
  exact hosts.forest.find? (Store.get_ok ha.get.2.symm)

theorem Fair.missing {e : StoreError} (hf : Fair f t s (.get oid) (.error e)) :
    e = .notFound oid ∧ s.find? oid = none := by
  obtain ⟨w, w', hosts, ha⟩ := hf id
  have hg := ha.get.2.symm
  obtain rfl := Store.get_error hosts.available hg
  exact ⟨rfl, hosts.forest.find?_eq_none (Store.find?_of_notFound hg)⟩

/-- Only another write since stands in the way of a conditional one. -/
theorem Fair.modify {d : TaskDelta} {v : UInt64} {a : Except StoreError Task}
    (hd : d.scheduling = none) (hf : Fair f t s (.modify f.oid d (.version v)) a) :
    (∃ r, a = .ok r ∧ t.Resembles r) ∨ ∃ actual, a = .error (.conflict f.oid v actual) := by
  obtain ⟨w, w', hosts, ha⟩ := hf id
  obtain ⟨r, hr, same⟩ := hosts.record
  have hm := ha.modify.2.symm
  rcases Store.modify_version hosts.available hr d v with ⟨-, s', hs, -⟩ | ⟨-, hs⟩
  · exact .inl ⟨_, congrArg Prod.fst (hm.trans hs), same.written hd⟩
  · exact .inr ⟨_, congrArg Prod.fst (hm.trans hs)⟩

theorem Fair.schedulerRunning {b : Bool} (hf : Fair f t s .schedulerRunning b) : b = true := by
  obtain ⟨w, w', hosts, ha⟩ := hf id
  cases ha with
  | performed hp =>
      cases hp
      exact hosts.scheduler

theorem Fair.isShutDown {b : Bool} (hf : Fair f t s .isShutDown b) : b = false := by
  obtain ⟨w, w', hosts, ha⟩ := hf id
  cases ha with
  | performed hp =>
      cases hp
      exact hosts.awake

/-! The parts of a firing. -/

section

variable {α : Type} {p : Action α} {st : Footing} {h : HandleId} {g : Firing}

theorem runs_of_harmless (hp : p.Only Call.IsHarmless) : Runs f t s p st fun st' _ => st' = st :=
  hp.follows fun _ _ hr => .aside hr

theorem runs_of_light (hs : st.Lingers h) (hp : p.Only (Call.IsLight f.oid)) :
    Runs f t s p st fun st' _ => st' = st :=
  hp.follows fun _ _ hr => .linger hs hr

theorem runs_astray (p : Action α) : Runs f t s p .astray fun st _ => st = .astray :=
  (Program.only_true p).follows fun _ _ _ => .wander

/-- The walk of a firing up the hierarchy leads where that of the store leads. -/
theorem ancestor_runs (task : TaskOid) (room : Nat) (visited : List TaskOid) (top : Option Task)
    {t₁ t₂ : Task} (hp : (top.getD t₁).parent = t₂.parent)
    (hc : (top.getD t₁).constraints = t₂.constraints) :
    Runs f t s (Preparation.ancestor task room visited top (top.getD t₁).parent).run st
      fun st' r => st' = st ∧ ∃ root, r = .ok root ∧
        (root.getD t₁).constraints = (s.topmost room visited t₂).constraints := by
  induction room generalizing visited top t₂ with
  | zero => exact ⟨rfl, top, rfl, hc⟩
  | succ room ih =>
      unfold Store.topmost
      rw [hp]
      cases t₂.parent with
      | none => exact ⟨rfl, top, rfl, hc⟩
      | some parent =>
          by_cases hv : parent ∈ visited
          · rw [Course.ancestor_visited hv]
            simp only [hv, if_true]
            exact ⟨rfl, top, rfl, hc⟩
          · rw [Course.ancestor_unvisited hv]
            simp only [hv, if_false]
            refine Follows.query fun answer fair => ⟨st, .aside trivial, ?_⟩
            cases answer with
            | ok p =>
                obtain ⟨q, found, hp', hc'⟩ := fair.placed
                rw [found]
                exact ih (parent :: visited) (some p) hp' hc'
            | error e =>
                obtain ⟨rfl, missing⟩ := fair.missing
                rw [missing]
                exact ⟨rfl, top, rfl, hc⟩

theorem load_runs : Runs f t s (Preparation.load f.oid).run .outset fun st r =>
    ∃ snapshot, r = .ok snapshot ∧ t.Resembles snapshot.task ∧
      snapshot.constraints = s.effectiveConstraints t ∧ st = .loaded snapshot.task := by
  unfold Preparation.load
  refine Follows.query fun answer fair => ?_
  obtain ⟨u, rfl, same⟩ := fair.get
  refine ⟨.loaded u, .load, ?_⟩
  have parent : (none.getD u).parent = t.parent := same.parent
  refine Follows.attempt
    (ancestor_runs f.oid (maxHierarchyDepth - 1) [u.oid] none parent same.constraints) ?_ ?_
  · rintro st root ⟨rfl, _, ⟨⟩, hroot⟩
    refine ⟨_, rfl, same, ?_, rfl⟩
    rw [Store.effectiveConstraints_eq_or, ← same.oid, ← hroot, ← same.constraints]
    cases root with
    | some p => rfl
    | none => exact Option.or_none.trans Option.or_self.symm
  · rintro st e ⟨rfl, _, h, -⟩
    cases h

/-- A part goes on as it is said, or the firing was beaten and stops. -/
def Goes (f : Occasion) (beaten : Footing) (P : α → Footing → Prop) (st : Footing) :
    Except Stop α → Prop
  | .ok a => P a st
  | .error stop => st = beaten ∧ Beaten f.oid stop.outcome

theorem repair_runs (same : t.Resembles u) (ho : u.oid = f.oid) :
    Runs f t s (Preparation.repair f.nodeId u f.recovering).run (.loaded u)
      (Goes f .lost fun v st => t.Resembles v ∧ st = .prepared v) := by
  unfold Preparation.repair
  rw [ho]
  refine Follows.query fun found _ => ?_
  by_cases h : Preparation.isLive u f.nodeId found.isSome f.recovering || Preparation.isClean u
  · refine ⟨.prepared u, .spare (by simpa using h), ?_⟩
    rw [if_pos h]
    exact ⟨same, rfl⟩
  · refine ⟨.repairing u, .doubt (by simp_all), ?_⟩
    rw [if_neg h]
    refine Follows.query fun answer fair => ?_
    rcases fair.modify rfl with ⟨v, rfl, same'⟩ | ⟨actual, rfl⟩
    · exact ⟨.prepared v, .repair, same', rfl⟩
    · exact ⟨.lost, .notRepaired, rfl, .changed⟩

theorem ensureReady_of_ready (h : u.isReady) : Preparation.ensureReady u = pure () :=
  if_pos h

theorem ensureSchedulerRunning_runs :
    Runs f t s (Preparation.ensureSchedulerRunning u).run st fun st' r =>
      st' = st ∧ r = .ok () := by
  unfold Preparation.ensureSchedulerRunning
  refine Follows.query fun answer fair => ⟨st, .aside trivial, ?_⟩
  obtain rfl := fair.schedulerRunning
  exact ⟨rfl, rfl⟩

theorem applyRecoveryPolicy_of_fresh (u : Task) :
    Preparation.applyRecoveryPolicy u false = pure () :=
  rfl

theorem enforce_of_no_groups (config : Config) (u : Task) {constraints : Option Constraints}
    (h : ∀ c, constraints = some c → c.groups = []) :
    Admission.enforce config u constraints = pure () := by
  cases constraints with
  | none => rfl
  | some c =>
      unfold Admission.enforce Admission.check
      simp only [h c rfl]
      rfl

variable (ht : t.Unlimited s) (hf : f.Contends t)

include ht hf in
theorem prepare_runs :
    Runs f t s (Firing.prepare f.node f.oid f.recovering).run .outset
      (Goes f .lost fun g st =>
        t.Resembles g.task ∧ st = .admitted g.task g.handle) := by
  unfold Firing.prepare
  refine Follows.attempt load_runs ?_ fun _ _ ⟨_, h, _⟩ => nomatch h
  rintro _ snapshot ⟨_, ⟨⟩, same, constraints, rfl⟩
  rw [ensureReady_of_ready (same.ready.trans ht.ready), pure_bind]
  refine Follows.attempt (repair_runs same (same.oid.trans hf.task.symm)) ?_ fun _ _ h => h
  rintro _ u ⟨same, rfl⟩
  refine Follows.attempt ensureSchedulerRunning_runs ?_ fun _ _ ⟨_, h⟩ => nomatch h
  rintro _ _ ⟨rfl, -⟩
  rw [hf.fresh, applyRecoveryPolicy_of_fresh, pure_bind,
    enforce_of_no_groups _ _ (constraints ▸ ht.groups), pure_bind]
  exact Follows.query fun h _ => ⟨_, .enter, same, rfl⟩

theorem guard_runs {enabled : Bool} (ho : u.oid = f.oid) :
    Runs f t s (Possession.guard enabled u).run (.admitted u h)
      (Goes f .lost fun _ st => st = .admitted u h) := by
  unfold Possession.guard
  cases enabled with
  | false => exact rfl
  | true =>
      rw [ho]
      refine Follows.query fun answer fair => ?_
      obtain ⟨fresh, rfl, -⟩ := fair.get
      cases hn : fresh.runningOn? with
      | some node =>
          refine ⟨.lost, .seen hn, ?_⟩
          simp only [hn]
          exact ⟨rfl, ho ▸ .running⟩
      | none =>
          refine ⟨_, .aside trivial, ?_⟩
          simp only [hn]
          exact rfl

theorem lostRace_runs {expected actual : UInt64} (ho : u.oid = f.oid) :
    Runs f t s (Possession.lostRace u (.conflict f.oid expected actual)) st fun st' stop =>
      st' = st ∧ Beaten f.oid stop.outcome := by
  unfold Possession.lostRace
  rw [ho]
  refine Follows.ask fun answer fair => ⟨st, .aside trivial, ?_⟩
  obtain ⟨fresh, rfl, -⟩ := fair.get
  cases hn : fresh.runningOn? with
  | some node =>
      simp only [hn]
      exact ⟨rfl, ho ▸ .running⟩
  | none =>
      simp only [hn]
      exact ⟨rfl, .changed⟩

theorem start_runs (ho : u.oid = f.oid) :
    Runs f t s (Possession.start u f.nodeId).run (.registered u h)
      (Goes f (.outrun h) fun v st => t.Resembles v ∧ st = .taken h) := by
  unfold Possession.start
  rw [ho]
  refine Follows.query fun answer fair => ?_
  rcases fair.modify rfl with ⟨v, rfl, same⟩ | ⟨actual, rfl⟩
  · exact ⟨_, .start, same, rfl⟩
  · refine ⟨_, .notStarted, ?_⟩
    refine Follows.lift (lostRace_runs ho) ?_
    rintro _ stop ⟨rfl, beaten⟩
    exact ⟨rfl, beaten⟩

/-! Running the handler. -/

theorem guarded_runs {work : HandlerWork} (hk : work.Only (HandlerCall.Behaves f.oid))
    (hw : work.Meets Demand.free () fun _ ended =>
      ∃ message, ended = .ok ⟨.finished, message⟩) :
    Runs f t s (Handling.guarded h f.oid work) (.invoked h) fun st r =>
      st = .astray ∨ st = .invoked h ∧ ∃ message, r = .ok ⟨.finished, message⟩ := by
  induction work with
  | done ended => exact .inr ⟨rfl, hw⟩
  | ask r next ih =>
      unfold Handling.guarded
      intro answer _
      cases answer with
      | none => exact ⟨.astray, .stray rfl rfl, .inl rfl⟩
      | some a => exact ⟨_, .handler hk.1, ih a (hk.2 a) (hw a)⟩

theorem run_runs {handler : Handler} {u : Task} (ho : u.oid = f.oid)
    (hk : handler.KeepsTo (HandlerCall.Behaves f.oid)) (hw : handler.Finishes) :
    Runs f t s (Handling.run handler h { task := u, recovering := g.recovering }) (.taken h)
      fun st r => st = .astray ∨ st = .invoked h ∧ ∃ message, r = .ok ⟨.finished, message⟩ := by
  unfold Handling.run
  refine Follows.ask fun interrupted _ => ?_
  cases interrupted with
  | true => exact ⟨.astray, .stray rfl rfl, .inl rfl⟩
  | false =>
      refine ⟨.invoked h, .invoke, ?_⟩
      rw [ho]
      exact guarded_runs (hk _) (hw _)

/-- A firing that goes astray stays so. -/
theorem runs_bind {β : Type} {k : α → Action β} {Q : Footing → α → Prop}
    {R : Footing → β → Prop} (hp : Runs f t s p st fun st' a => st' = .astray ∨ Q st' a)
    (hk : ∀ st' a, Q st' a → Runs f t s (k a) st' fun st'' b => st'' = .astray ∨ R st'' b) :
    Runs f t s (p.bind k) st fun st' b => st' = .astray ∨ R st' b := by
  refine hp.bind ?_
  rintro st' a (rfl | ha)
  · exact (runs_astray _).mono fun _ _ => .inl
  · exact hk st' a ha

theorem runTaken_runs {handler : Handler} (ho : g.task.oid = f.oid)
    (hk : handler.KeepsTo (HandlerCall.Behaves f.oid)) (hw : handler.Finishes) :
    Runs f t s (Firing.runTaken f.node handler g) (.taken g.handle) fun st r =>
      st = .astray ∨ st = .invoked g.handle ∧ r.1.task = g.task ∧ r.1.handle = g.handle ∧
        ∃ message, r.2 = .ok ⟨.finished, message⟩ := by
  unfold Firing.runTaken
  refine Follows.ask fun _ _ => ⟨_, .aside trivial, ?_⟩
  refine Follows.ask fun _ _ => ⟨_, .aside trivial, ?_⟩
  refine (runs_of_harmless (Course.spawnAll_only (fun _ => trivial) _)).bind ?_
  rintro _ _ rfl
  have handled : Runs f t s (Firing.runHandler handler g) (.taken g.handle) fun st r =>
      st = .astray ∨ st = .invoked g.handle ∧ ∃ message, r = .ok ⟨.finished, message⟩ := by
    unfold Firing.runHandler
    refine Follows.ask fun _ _ => ⟨_, .aside trivial, ?_⟩
    refine Follows.ask fun _ _ => ⟨_, .aside trivial, ?_⟩
    refine runs_bind (run_runs ho hk hw) ?_
    rintro _ ended ⟨rfl, finished⟩
    refine Follows.ask fun _ _ => ⟨_, .aside trivial, ?_⟩
    exact Follows.ask fun _ _ => ⟨_, .aside trivial, .inr ⟨rfl, finished⟩⟩
  refine runs_bind handled ?_
  rintro _ ended ⟨rfl, finished⟩
  exact Follows.ask fun _ _ => ⟨_, .aside trivial, .inr ⟨rfl, rfl, rfl, finished⟩⟩

/-- After a good end of its handler, a task that recurs is left as it is. -/
theorem applyOutcome_light (ho : u.oid = oid) (hr : u.recurring) (message : Option String)
    (result : OperationResult) :
    (Handling.applyOutcome u (.ok ⟨.finished, message⟩) result).Only (Call.IsLight oid) := by
  unfold Handling.applyOutcome
  rw [ho, hr]
  refine Only.bind ⟨⟨rfl, rfl⟩, fun _ => trivial⟩ fun answer => ?_
  cases answer with
  | error e => trivial
  | ok current =>
      dsimp only [Handling.consequence]
      split <;> trivial

theorem runStarted_runs (ht : t.Unlimited s) (hf : f.Contends t) (same : t.Resembles g.task) :
    Runs f t s (Firing.runStarted f.node g) (.taken g.handle) fun st r =>
      st = .astray ∨ st = .invoked g.handle ∧ r.1.task = g.task ∧ r.1.handle = g.handle := by
  obtain ⟨handler, hh, hk, hw⟩ := hf.handler
  have ho : g.task.oid = f.oid := same.oid.trans hf.task.symm
  rw [← hf.task] at hk
  unfold Firing.runStarted
  rw [Handling.resolve_of_some (same.handlerRef ▸ hh)]
  change Runs f t s (Firing.runTaken f.node handler g >>= fun e => Firing.conclude e.1 e.2) _ _
  refine runs_bind (runTaken_runs ho hk hw) ?_
  rintro _ ⟨g', _⟩ ⟨rfl, htask, hhandle, message, rfl⟩
  have light := applyOutcome_light (u := g'.task) (by rw [htask, ho])
    (by rw [htask, same.recurring, ht.recurring]) message g'.result
  refine (runs_of_light (.inl rfl) light).bind ?_
  rintro _ result rfl
  exact .inr ⟨rfl, htask, hhandle⟩

/-- The part of a firing that is registered comes to an end that it can report. -/
theorem runRegistered_runs (ht : t.Unlimited s) (hf : f.Contends t)
    (same : t.Resembles g.task) :
    Runs f t s (Firing.runRegistered f.node g) (.registered g.task g.handle) fun st r =>
      st = .astray ∨ st.Lingers r.1.handle ∧ r.1.task.oid = f.oid ∧
        ∀ g', st.ending.Reports f.oid (Firing.report g' r.2) := by
  unfold Firing.runRegistered
  refine (start_runs (same.oid.trans hf.task.symm)).bind ?_
  rintro st (stop | v) hs
  · obtain ⟨rfl, beaten⟩ := hs
    exact .inr ⟨.inr rfl, same.oid.trans hf.task.symm, fun _ => beaten⟩
  · obtain ⟨same, rfl⟩ := hs
    refine (runStarted_runs (g := { g with task := v, nodeSet := true }) ht hf same).mono ?_
    rintro _ r (rfl | ⟨rfl, htask, hhandle⟩)
    · exact .inl rfl
    · refine .inr ⟨.inl (by rw [hhandle]), ?_, fun _ => trivial⟩
      rw [htask]
      exact same.oid.trans hf.task.symm

/-! Letting go of the task. -/

theorem release_light (node : Node) (ho : g.task.oid = oid) :
    (Firing.release node g).Only (Call.IsLight oid) := by
  unfold Firing.release
  rw [ho]
  split
  · refine Only.bind ⟨trivial, fun _ => trivial⟩ fun _ => ?_
    refine Only.bind (Course.spawnAll_only (fun _ => trivial) _) fun _ => ?_
    exact Starting.settleWithin_only trivial (fun _ _ => ⟨rfl, rfl⟩) 1
  · trivial

theorem cleanUp_runs (hs : st.Lingers g.handle) (ho : g.task.oid = f.oid) :
    Runs f t s (Firing.cleanUp f.node g) st fun st' r =>
      st' = .astray ∨ st' = st ∧ r.handle = g.handle := by
  unfold Firing.cleanUp
  refine Follows.ask fun _ _ => ⟨st, .aside trivial, ?_⟩
  refine (runs_of_light hs (release_light f.node ho)).bind ?_
  rintro st _ rfl
  have obeyed : Runs f t s (Firing.obeyStop g) st fun st' _ => st' = .astray ∨ st' = st := by
    unfold Firing.obeyStop
    refine Follows.ask fun canRun _ => ?_
    cases canRun with
    | true => exact ⟨st, .aside trivial, .inr rfl⟩
    | false => exact ⟨.astray, .stray hs.handle? rfl, (runs_astray _).mono fun _ _ => .inl⟩
  refine runs_bind obeyed ?_
  rintro st _ rfl
  unfold Firing.collectLate
  refine Follows.ask fun collected _ => ⟨st, .aside trivial, ?_⟩
  dsimp only
  split
  · exact .inr ⟨rfl, rfl⟩
  · have light : (Administration.bestEffort
        (Administration.recordResult g.task.oid collected.1)).Only (Call.IsLight f.oid) :=
      ⟨⟨ho, rfl⟩, fun _ => trivial⟩
    refine (runs_of_light hs light).bind ?_
    rintro _ _ rfl
    exact .inr ⟨rfl, rfl⟩

theorem finish_runs {ending : Firing.Ending} (hs : st.Lingers g.handle) (ho : g.task.oid = f.oid)
    (hr : ∀ g', st.ending.Reports f.oid (Firing.report g' ending)) :
    Runs f t s (Firing.finish f.node g ending) st fun st r => st.Reports f.oid r := by
  unfold Firing.finish
  refine (cleanUp_runs hs ho).bind ?_
  rintro _ g' (rfl | ⟨rfl, hh⟩)
  · refine (runs_astray _).mono ?_
    rintro _ r rfl
    trivial
  · rw [hh]
    exact Follows.ask fun _ _ => ⟨_, .deregister hs, hr g'⟩

theorem runPrepared_runs (ht : t.Unlimited s) (hf : f.Contends t) (same : t.Resembles g.task) :
    Runs f t s (Firing.runPrepared f.node g) (.admitted g.task g.handle) fun st r =>
      st.Reports f.oid r := by
  have ho : g.task.oid = f.oid := same.oid.trans hf.task.symm
  unfold Firing.runPrepared
  refine (guard_runs ho).bind ?_
  rintro st (stop | _) hs
  · obtain ⟨rfl, beaten⟩ := hs
    exact beaten
  obtain rfl : st = .admitted g.task g.handle := hs
  refine Follows.ask fun registered _ => ?_
  cases registered with
  | false => exact ⟨.lost, .notRegistered, ho ▸ .running⟩
  | true =>
      refine ⟨_, .register, ?_⟩
      refine Follows.ask fun shutDown fair => ⟨_, .aside trivial, ?_⟩
      obtain rfl := fair.isShutDown
      change Runs f t s
        (Firing.runRegistered f.node g >>= fun e => Firing.finish f.node e.1 e.2) _ _
      refine (runRegistered_runs ht hf same).bind ?_
      rintro st e (rfl | ⟨hs, ho, hr⟩)
      · refine (runs_astray _).mono ?_
        rintro _ r rfl
        trivial
      · exact finish_runs hs ho hr

/-- A firing in a contest gets to its handler or says that it was beaten, unless it is
stopped. -/
theorem program_runs (ht : t.Unlimited s) (hf : f.Contends t) :
    Runs f t s f.program .outset fun st r => st.Reports f.oid r := by
  unfold Occasion.program Node.fire
  refine (prepare_runs ht hf).bind ?_
  rintro st (stop | g) hs
  · obtain ⟨rfl, beaten⟩ := hs
    exact beaten
  · obtain ⟨same, rfl⟩ := hs
    exact runPrepared_runs ht hf same

end

end

end Contest
end TaskFiring
