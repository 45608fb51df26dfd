import TaskFiring.Firing.Admission
import TaskFiring.Firing.Handling
import TaskFiring.Firing.Possession
import TaskFiring.Firing.Preparation
import TaskFiring.Interruption

/-!
One firing of a task on a node, from the call of the trigger engine to its report.
It prepares and asks for admission, sees that nobody runs the task, registers, takes
the task, runs the handler, waits for the children and acts on the outcome. However
a registered firing ends, it lets go of the task, applies the stop action if it was
told to stop, waits for late children and deregisters last.
-/

namespace TaskFiring

/-- A node: its settings, its handlers, and the children that its listeners spawn on
the firing of a task when it starts and when it finishes. -/
structure Node where
  config : Config := {}
  handlers : Handlers := Table.empty
  onStart : TaskOid → List ChildSpec := fun _ => []
  onFinish : TaskOid → List ChildSpec := fun _ => []

/-- A firing past admission. -/
structure Firing where
  /-- The last known copy of the task. -/
  task : Task
  recovering : Bool
  handle : HandleId
  result : OperationResult
  /-- This firing has written its node into the task. -/
  nodeSet : Bool := false

namespace Firing

def operation : String := "shuttle.firing"

/-- How the part of a firing that is registered ended. -/
inductive Ending
  | ran
  | failed (e : HandlerError)
  | stopped (stop : Stop)

def spawnAll (h : HandleId) : List ChildSpec → Action Unit
  | [] => return ()
  | c :: cs => do
      let _ ← call (.spawn h c)
      spawnAll h cs

/-- Waits for all children of a firing. Gives their number. -/
def collectChildren (f : Firing) : Action (Firing × Nat) := do
  let (result, closed) ← call (.collect f.handle f.result 0 [])
  return ({ f with result }, closed)

/-- Everything before the task is looked at for other runs; nothing here sets the
node. -/
def prepare (node : Node) (oid : TaskOid) (recovering : Bool) : Step Firing := do
  let snapshot ← Preparation.load oid
  Preparation.ensureReady snapshot.task
  let task ← Preparation.repair node.config.nodeId snapshot.task recovering
  Preparation.ensureSchedulerRunning task
  Preparation.applyRecoveryPolicy task recovering
  Admission.enforce node.config task snapshot.constraints
  let handle ← call (.newHandle oid)
  return { task, recovering, handle, result := .new operation }

/-- Runs the handler as the owner of the task. -/
def runHandler (handler : Handler) (f : Firing) : Action HandlerEnd := do
  call (.establish f.task.owner)
  call (.setExecuting f.handle true)
  let ended ← Handling.run handler f.handle { task := f.task, recovering := f.recovering }
  call (.setExecuting f.handle false)
  call .clearIdentity
  return ended

/-- Runs the handler of a task that was taken, from its announcement to the end of the
children that it has by then. -/
def runTaken (node : Node) (handler : Handler) (f : Firing) :
    Action (Firing × HandlerEnd) := do
  call (.setSafe f.handle handler.safe)
  call (.notifyStarted f.task.oid f.recovering)
  spawnAll f.handle (node.onStart f.task.oid)
  let ended ← runHandler handler f
  let (f, _) ← collectChildren f
  return (f, ended)

/-- Acts on how the handler has ended. -/
def conclude (f : Firing) (ended : HandlerEnd) : Action (Firing × Ending) := do
  let result ← Handling.applyOutcome f.task ended f.result
  let f := { f with result }
  match ended with
  | .ok _ => return (f, .ran)
  | .error e => return (f, .failed e)

/-- From having taken the task to acting on the outcome. -/
def runStarted (node : Node) (f : Firing) : Action (Firing × Ending) := do
  match ← Handling.resolve node.handlers f.task f.result with
  | (.error stop, result) => return ({ f with result }, .stopped stop)
  | (.ok handler, result) =>
      let (f, ended) ← runTaken node handler { f with result }
      conclude f ended

/-- From taking the task to acting on the outcome. -/
def runRegistered (node : Node) (f : Firing) : Action (Firing × Ending) := do
  match ← (Possession.start f.task node.config.nodeId).run with
  | .error stop => return (f, .stopped stop)
  | .ok task => runStarted node { f with task, nodeSet := true }

/-- Tells that the task is no longer run and lets go of it, if it was taken. -/
def release (node : Node) (f : Firing) : Action Unit :=
  if f.nodeSet then do
    call (.notifyFinished f.task.oid f.result.status)
    spawnAll f.handle (node.onFinish f.task.oid)
    Possession.settle f.task.oid
  else return ()

/-- Applies the stop action if the leave to run is gone. -/
def obeyStop (f : Firing) : Action Unit := do
  if ← call (.canRun f.handle) then return ()
  else Administration.applyStopAction f.task.oid

/-- Waits for the children that came late and records what became of them. -/
def collectLate (f : Firing) : Action Firing := do
  let (f, closed) ← collectChildren f
  if closed = 0 then return f
  else
    Administration.bestEffort (Administration.recordResult f.task.oid f.result)
    return f

/-- What a registered firing does last, however it ended. -/
def cleanUp (node : Node) (f : Firing) : Action Firing := do
  call (.setExecuting f.handle false)
  release node f
  obeyStop f
  collectLate f

def report (f : Firing) : Ending → FiringOutcome
  | .ran => .ok (.completed f.task.oid f.result.status)
  | .failed e => .error (.handler f.task.oid e)
  | .stopped stop => stop.outcome

/-- Cleans up, leaves the registry and reports. -/
def finish (node : Node) (f : Firing) (ending : Ending) : Action FiringOutcome := do
  let f ← cleanUp node f
  let _ ← call (.deregister f.handle)
  return f.report ending

/-- From the look for other runs to the report. -/
def runPrepared (node : Node) (f : Firing) : Action FiringOutcome := do
  match ← (Possession.guard node.config.checkConcurrent f.task).run with
  | .error stop => return stop.outcome
  | .ok () =>
      if ← call (.register f.handle) then
        if ← call .isShutDown then
          Interruption.interrupt node.config.interruptPolicy f.handle
        let (f, ending) ← runRegistered node f
        finish node f ending
      else return (Possession.alreadyRunning f.task node.config.nodeId).outcome

end Firing

/-- Carries out one firing of a task on a node. `recovering` tells that the node of
the previous run has died. -/
def Node.fire (node : Node) (oid : TaskOid) (recovering : Bool) :
    Action FiringOutcome := do
  match ← (Firing.prepare node oid recovering).run with
  | .error stop => return stop.outcome
  | .ok f => f.runPrepared node

end TaskFiring
