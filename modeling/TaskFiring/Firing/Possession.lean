import TaskFiring.Call

/-!
Holding a task as running. A firing looks first whether some node holds the task,
then takes it by a write that only the version it loaded lets through, and lets go
of it on every way out: the node is cleared and the execution state is set to what
the scheduling state asks for.
-/

namespace TaskFiring
namespace Possession

/-- The stop reported when another run holds the task. -/
def alreadyRunning (t : Task) (node : NodeId) : Stop :=
  .error
    s!"task {t.display} is already running on node {node.name}; not starting it again"
    (.concurrentExecution t.oid node)

def vanished (oid : TaskOid) : Stop :=
  .warning s!"task {oid.display} vanished before it could start"

/-- Reads the task again and stops if some node runs it. -/
def guard (enabled : Bool) (t : Task) : Step Unit := do
  if !enabled then return ()
  match ← call (.get t.oid) with
  | .error (.notFound oid) => throw (vanished oid)
  | .error e =>
      throw (.unexpected
        s!"couldn't re-read task {t.display} for the concurrent execution check"
        (.store e))
  | .ok fresh =>
      match fresh.runningOn? with
      | some node => throw (alreadyRunning t node)
      | none => return ()

def runningDelta (node : NodeId) : TaskDelta :=
  { execution := some .running, node := some (some node) }

/-- What to report when the version has moved on: that another run won, if a fresh
copy shows one. -/
def lostRace (t : Task) (conflict : StoreError) : Action Stop := do
  let changed : Stop :=
    .error s!"task {t.display} was modified concurrently; not starting it"
      (.store conflict)
  match ← call (.get t.oid) with
  | .ok fresh =>
      match fresh.runningOn? with
      | some node => return alreadyRunning t node
      | none => return changed
  | .error _ => return changed

/-- Takes the task for a node, if its record is still the one that was loaded. -/
def start (t : Task) (node : NodeId) : Step Task := do
  match ← call (.modify t.oid (runningDelta node) (.version t.version)) with
  | .ok updated => return updated
  | .error e@(.conflict ..) => throw (← lostRace t e)
  | .error (.notFound oid) => throw (vanished oid)
  | .error e =>
      throw (.unexpected s!"couldn't mark task {t.display} as running" (.store e))

/-- The update that lets go of a task as it was read. An execution state that is
right already is not written. -/
def settlingDelta (t : Task) : TaskDelta :=
  { node := some none
    execution :=
      (ExecutionState.afterRun t.scheduling t.execution).filter (· ≠ t.execution) }

/-- Lets go of the task whatever its record says now, or said when last read. -/
def settleAnyhow (oid : TaskOid) (lastRead : Task) : Action Unit := do
  let latest := match ← call (.get oid) with
    | .ok t => t
    | .error _ => lastRead
  let _ ← call (.modify oid (settlingDelta latest) .always)

/-- Lets go of the task. Where its scheduling state changes between reading and
writing, this is tried that many times more and then forced. -/
def settleWithin (retries : Nat) (oid : TaskOid) : Action Unit := do
  match ← call (.get oid) with
  | .error _ => return ()
  | .ok current =>
      let unchanged := .scheduling current.scheduling
      match ← call (.modify oid (settlingDelta current) unchanged) with
      | .ok _ => return ()
      | .error (.preconditionFailed ..) =>
          match retries with
          | retries + 1 => settleWithin retries oid
          | 0 => settleAnyhow oid current
      | .error _ => settleAnyhow oid current

def settle (oid : TaskOid) : Action Unit := settleWithin 1 oid

end Possession
end TaskFiring
