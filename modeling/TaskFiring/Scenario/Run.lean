import TaskFiring.Scenario.Op

/-!
Running a scenario. Each operation is carried out, then all who wait for a gate look
again, then the queue is run dry. A step tells the reply and what has changed since
the step before.
-/

namespace TaskFiring.Scenario

structure NodeSpec where
  config : Config
  handlers : List (String × HandlerScript) := []
  onStart : List ChildScript := []
  onFinish : List ChildScript := []

def handlersOf (scripts : List (String × HandlerScript)) : Handlers :=
  Table.ofList (scripts.map fun (name, s) => (name, s.handler))

def NodeSpec.node (n : NodeSpec) : Node :=
  { config := n.config
    handlers := handlersOf n.handlers
    onStart := fun oid => n.onStart.map (ChildScript.spec oid)
    onFinish := fun oid => n.onFinish.map (ChildScript.spec oid) }

/-- The most children that a firing on the node spawns. -/
def NodeSpec.spawns (n : NodeSpec) : Nat :=
  n.onStart.length + n.onFinish.length
    + (n.handlers.map fun (_, s) => s.spawns).foldl Nat.max 0

abbrev Nodes := Table (Prod.fst : String × NodeSpec → String)

def nodeOf (nodes : Nodes) (name : String) : NodeSpec :=
  ((nodes.find? name).map Prod.snd).getD { config := { nodeId := ⟨name⟩ } }

/-- A bench and the names that a scenario has given to things. -/
structure Stage where
  bench : Bench
  nodes : Nodes
  saved : Table (Prod.fst : String × Task → String) := Table.empty
  handles : Table (Prod.fst : String × HandleId → String) := Table.empty
  /-- The policies whose stop signal over the registry aside is set. -/
  stopped : List InterruptPolicy := []
  /-- A bound on the children that one thread can spawn. -/
  spawns : Nat

namespace Stage

def onBench (s : Stage) (f : Bench → Bench) : Stage := { s with bench := f s.bench }

def onWorld (s : Stage) (f : World → World) : Stage :=
  s.onBench fun b => { b with world := f b.world }

def task? (s : Stage) : TaskRef → Option Task
  | .saved name => (s.saved.find? name).map Prod.snd
  | .stored oid => s.bench.world.store.find? oid

def handleId? (s : Stage) (name : String) : Option HandleId :=
  (s.handles.find? name).map Prod.snd

def policyOf (s : Stage) (node : String) : InterruptPolicy :=
  (nodeOf s.nodes node).config.interruptPolicy

/-- Runs a program of a place at once and replies by its result. -/
def nowAt {α : Type} (s : Stage) (place : Place) (program : Action α)
    (reply : α → Reply) : Reply × Stage :=
  match s.bench.runNow place program with
  | (some a, bench) => (reply a, { s with bench })
  | (none, bench) => (.nothing, { s with bench })

def now {α : Type} (s : Stage) (program : Action α) (reply : α → Reply) :
    Reply × Stage :=
  s.nowAt .aside program reply

/-- Runs a step of a firing at once. -/
def step {α : Type} (s : Stage) (program : Step α) (reply : α → Reply) : Reply × Stage :=
  s.now program.run fun
    | .ok a => reply a
    | .error stop => .stopped stop

def attempt {α : Type} (s : Stage) (program : Attempt α) (reply : α → Reply) :
    Reply × Stage :=
  s.now program.run fun
    | .ok a => reply a
    | .error cause => .failed cause

def onStore {α : Type} (s : Stage) (r : Action (Except StoreError α))
    (reply : α → Reply) : Reply × Stage :=
  s.now r fun
    | .ok a => reply a
    | .error e => .storeError e

def onTrigger {α : Type} (s : Stage) (r : Action (Except TriggerError α))
    (reply : α → Reply) : Reply × Stage :=
  s.now r fun
    | .ok a => reply a
    | .error e => .triggerError e

def withTask (s : Stage) (t : TaskRef) (f : Task → Reply × Stage) : Reply × Stage :=
  match s.task? t with
  | some t => f t
  | none => (.nothing, s)

def withHandle (s : Stage) (name : String) (f : HandleId → Reply × Stage) :
    Reply × Stage :=
  match s.handleId? name with
  | some h => f h
  | none => (.nothing, s)

def showHandle (s : Stage) (h : HandleId) : Reply :=
  match s.bench.world.handle? h with
  | some handle => .handle handle
  | none => .nothing

/-- Runs a program at once and replies by the handle as it is then. -/
def showing {α : Type} (s : Stage) (h : HandleId) (program : Action α) : Reply × Stage :=
  let (_, s) := s.now program fun _ => .ok
  (s.showHandle h, s)

def begin (s : Stage) (label : String) (place : Place) (program : Action Answer) :
    Reply × Stage :=
  (.ok, s.onBench fun b => b.begin label place program)

def registryView (w : World) (oid : TaskOid) : RegistryView :=
  let h := w.registered .aside oid
  { oids := Id.sorted (w.site .aside).running.keys
    contains := h.isSome
    canRun := h.map w.canRun }

/-- Carries out an operation; what it sets off is left in the queue. -/
def apply (s : Stage) : Op → Reply × Stage
  | .insert t =>
      match s.bench.world.store.insert t with
      | (.ok (), store) => (.ok, s.onWorld fun w => { w with store })
      | (.error e, _) => (.storeError e, s)
  | .get oid => s.onStore (call (.get oid)) .task
  | .modify oid d p => s.onStore (call (.modify oid d p)) fun t => .version t.version
  | .count group exclude => s.onStore (call (.countRunning group exclude)) .number
  | .remove oid =>
      (.removed ((s.bench.world.store.find? oid).map Task.version),
        s.onWorld fun w => w.disturb (.remove oid))
  | .storeAvailable value => (.ok, s.onWorld fun w => w.disturb (.storeAvailable value))
  | .addFault f => (.ok, s.onBench fun b => { b with faults := b.faults ++ [f] })
  | .clearFaults =>
      (.number s.bench.faults.length, s.onBench fun b => { b with faults := [] })
  | .unschedule oid => s.onTrigger (call (.unschedule oid)) fun _ => .ok
  | .deleteJob oid => s.onTrigger (call (.deleteJob oid)) fun _ => .ok
  | .rescheduleLater oid time =>
      s.onTrigger (call (.rescheduleLater oid time)) fun _ => .ok
  | .triggerNow oid => s.onTrigger (call (.scheduleNow oid)) fun _ => .ok
  | .nextFireTime oid => s.onTrigger (call (.nextFireTime oid)) .fireTime
  | .setFireTime oid time =>
      (.ok, s.onWorld fun w => { w with trigger := w.trigger.setFireTime oid time })
  | .fireTimesUnknown value =>
      (.ok,
        s.onWorld fun w => { w with trigger := { w.trigger with timesUnknown := value } })
  | .schedulerRunning value =>
      (.flag value,
        s.onWorld fun w => { w with trigger := { w.trigger with running := value } })
  | .triggerFailing value => (.ok, s.onWorld fun w => w.disturb (.triggerFailing value))
  | .eventsFor oid => (.events (s.bench.world.trigger.eventsFor oid), s)
  | .advance nanos =>
      let now := (s.bench.world.now.shift? nanos).getD s.bench.world.now
      (.time now, s.onWorld fun w => { w with now })
  | .openGate gate => (.ok, s.onWorld fun w => { w with gates := w.gates ++ [gate] })
  | .fire node oid recovering label =>
      s.begin label (.node node)
        (.fired <$> (nodeOf s.nodes node).node.fire oid recovering)
  | .interrupt node oid =>
      s.nowAt (.node node) (Interruption.interruptTask (s.policyOf node) oid) .flag
  | .deactivate node =>
      s.nowAt (.node node) (Interruption.deactivate (s.policyOf node)) .number
  | .isDeactivated node => s.nowAt (.node node) (call .isShutDown) .flag
  | .runningTasks node =>
      (.oids (Id.sorted (s.bench.world.site (.node node)).running.keys), s)
  | .runningHandle node oid =>
      match s.bench.world.registered (.node node) oid with
      | some h => (s.showHandle h, s)
      | none => (.nothing, s)
  | .spawnChild node oid child =>
      match s.bench.world.registered (.node node) oid with
      | some h => s.now (call (.spawn h (child.spec oid))) .child
      | none => (.nothing, s)
  | .save name t =>
      s.withTask t fun t =>
        (.version t.version, { s with saved := s.saved.put (name, t) })
  | .load oid => s.step (Preparation.load oid) .snapshot
  | .ensureReady t =>
      s.withTask t fun t => s.step (Preparation.ensureReady t) fun _ => .ok
  | .repair here t recovering =>
      s.withTask t fun t => s.step (Preparation.repair here t recovering) .task
  | .recoveryPolicy t recovering =>
      s.withTask t fun t =>
        s.step (Preparation.applyRecoveryPolicy t recovering) fun _ => .ok
  | .checkAdmission config t constraints =>
      s.withTask t fun t =>
        s.step (Admission.check config t constraints) fun
          | .allowed => .allowed
          | .refused saturated retryAt regular => .refused saturated retryAt regular
  | .enforceAdmission config t constraints =>
      s.withTask t fun t =>
        s.step (Admission.enforce config t constraints) fun _ => .ok
  | .guard enabled t =>
      s.withTask t fun t => s.step (Possession.guard enabled t) fun _ => .ok
  | .start here t => s.withTask t fun t => s.step (Possession.start t here) .started
  | .settle oid => s.now (Possession.settle oid) fun _ => .ok
  | .applyStopAction oid => s.now (Administration.applyStopAction oid) fun _ => .ok
  | .close oid => s.attempt (Administration.close oid) fun t => .version t.version
  | .suspend oid => s.attempt (Administration.suspend oid) fun t => .version t.version
  | .scheduleNow oid => s.attempt (Administration.scheduleNow oid) fun _ => .ok
  | .recordResult oid result =>
      s.attempt (Administration.recordResult oid result) fun t => .version t.version
  | .applyOutcome t ended result =>
      s.withTask t fun t => s.now (Handling.applyOutcome t ended result) .result
  | .resolveHandler handlers t result =>
      s.withTask t fun t =>
        s.now (Handling.resolve (handlersOf handlers) t result) fun (handler, result) =>
          .resolved (handler.map Handler.safe) result
  | .newHandle name oid =>
      let h : HandleId := ⟨s.bench.world.handles.length⟩
      let s := { s with handles := s.handles.put (name, h) }
      s.showing h (call (.newHandle oid))
  | .showHandle name => s.withHandle name fun h => (s.showHandle h, s)
  | .spawnOn name child =>
      s.withHandle name fun h =>
        match s.bench.world.handle? h with
        | some handle => s.now (call (.spawn h (child.spec handle.oid))) .child
        | none => (.nothing, s)
  | .cancelChildren name abort =>
      s.withHandle name fun h => s.now (call (.cancelChildren h abort)) .number
  | .clearCanRun name =>
      s.withHandle name fun h => s.now (call (.clearCanRun h)) fun _ => .ok
  | .interruptHandler name =>
      s.withHandle name fun h => s.now (call (.interruptHandler h)) fun _ => .ok
  | .setFlags name safe executing =>
      s.withHandle name fun h =>
        s.showing h do
          call (.setSafe h safe)
          call (.setExecuting h executing)
  | .interruptHandle name policy =>
      s.withHandle name fun h => s.showing h (Interruption.interrupt policy h)
  | .collect name result label =>
      s.withHandle name fun h =>
        s.begin label .aside do
          let (result, closed) ← call (.collect h result 0 [])
          return .collected result closed
  | .runHandler name handler t recovering label =>
      s.withHandle name fun h =>
        s.withTask t fun task =>
          s.begin label .aside
            (.ran <$> Handling.run handler.handler h { task, recovering })
  | .register name =>
      s.withHandle name fun h =>
        match s.bench.world.handle? h with
        | some handle =>
            s.now (call (.register h)) fun done =>
              if done then .registered handle.oid else .nothing
        | none => (.nothing, s)
  | .deregister name => s.withHandle name fun h => s.now (call (.deregister h)) .flag
  | .showRegistry oid => (.registry (registryView s.bench.world oid), s)
  | .shutDown policy =>
      let before := decide (policy ∈ s.stopped)
      { s with stopped := policy :: s.stopped }.now (Interruption.deactivate policy)
        fun n => .shutDown before n true

/-- Enough pieces for the queue to run dry: each piece starts or wakes someone, and
only so many can be spawned. -/
def fuel (s : Stage) : Nat :=
  let children := s.bench.world.handles.foldl (fun n h => n + h.children.length) 0
  s.bench.queue.length + children + 2 * (s.bench.threads.length + 1) * (s.spawns + 1)

/-- Lets all that can go on do so. -/
def settleDown (s : Stage) : Stage :=
  let s := s.onBench Bench.look
  s.onBench (Bench.drain s.fuel)

end Stage

/-- What has changed in a step. -/
structure StepReport where
  reply : Reply
  tasks : List (TaskOid × Option Task)
  events : List TriggerEvent
  listener : List ListenerEvent
  identities : List String
  journal : List JournalEntry
  finished : List (String × Answer)

/-- The tasks that are new, changed or gone. -/
def changedTasks (before after : Store) : List (TaskOid × Option Task) :=
  (after.tasks.rows.filterMap fun t =>
      if before.find? t.oid = some t then none else some (t.oid, some t))
    ++ before.tasks.rows.filterMap fun t =>
      if (after.find? t.oid).isSome then none else some (t.oid, none)

/-- Sorted by a key of which the text order counts; equal keys stay in order. -/
def sortedOn {α : Type} (key : α → List String) (as : List α) : List α :=
  as.mergeSort fun a b => (compare (key a) (key b)).isLE

def stepReport (before after : Stage) (reply : Reply) : StepReport :=
  let w := before.bench.world
  let w' := after.bench.world
  { reply
    tasks := changedTasks w.store w'.store
    events := sortedOn (fun e => [e.oid.digits])
      (w'.trigger.events.drop w.trigger.events.length)
    listener := sortedOn (fun e => [e.oid.digits]) (w'.listener.drop w.listener.length)
    identities :=
      sortedOn (fun i => [i]) (w'.security.history.drop w.security.history.length)
    journal := sortedOn (fun e => [e.oid.digits, e.child])
      (w'.journal.drop w.journal.length)
    finished := after.bench.finished }

def runOp (s : Stage) (op : Op) : StepReport × Stage :=
  let (reply, s') := s.apply op
  let s' := s'.settleDown
  (stepReport s s' reply, s'.onBench fun b => { b with finished := [] })

def runOps (s : Stage) : List Op → List StepReport × Stage
  | [] => ([], s)
  | op :: ops =>
      let (report, s) := runOp s op
      let (reports, s) := runOps s ops
      (report :: reports, s)

/-- The children that a handler given in an operation spawns. -/
def Op.spawns : Op → Nat
  | .runHandler _ handler _ _ _ => handler.spawns
  | _ => 0

end TaskFiring.Scenario

namespace TaskFiring

/-- Nodes by name, and the operations on them from a first time on. -/
structure Scenario where
  now : Instant
  nodes : Scenario.Nodes
  ops : List Scenario.Op

/-- The report of each step, and the labels of what never came to an end. -/
def Scenario.run (sc : Scenario) : List StepReport × List String :=
  let spawns := ((sc.nodes.rows.map fun (n : String × NodeSpec) => n.2.spawns)
    ++ sc.ops.map Op.spawns).foldl Nat.max 0
  let stage : Stage :=
    { bench := { world := { now := sc.now } }, nodes := sc.nodes, spawns := spawns }
  let (reports, s) := runOps stage sc.ops
  (reports, s.bench.unfinished)

end TaskFiring
