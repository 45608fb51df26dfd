import TaskFiring.Call
import TaskFiring.StopPolicy

/-!
What a firing changes about its task by way of administration: closing, suspending,
scheduling and recording a result. Closing and suspending leave the execution state
of a task that they read as running to whoever runs it. A firing that was stopped
from outside ends by applying the stop action of its task.
-/

namespace TaskFiring
namespace Administration

/-- The update that closes a task as it was read. -/
def closingDelta (t : Task) (now : Instant) : TaskDelta :=
  { scheduling := some .closed
    execution := if t.execution = .running then none else some .closed
    completedAt := some (some now) }

/-- The update that suspends a task as it was read. -/
def suspendingDelta (t : Task) : TaskDelta :=
  { scheduling := some .suspended
    execution := if t.execution = .running then none else some .suspended }

/-- Closes the task and drops its job. -/
def close (oid : TaskOid) : Attempt Task := do
  let current ← orFail (call (.get oid)) .store
  let now ← call .now
  let closed ← orFail (call (.modify oid (closingDelta current now) .always)) .store
  orFail (call (.deleteJob oid)) .trigger
  return closed

/-- Suspends the task without waiting for the thread that runs it. -/
def suspend (oid : TaskOid) : Attempt Task := do
  let current ← orFail (call (.get oid)) .store
  let suspended ← orFail (call (.modify oid (suspendingDelta current) .always)) .store
  orFail (call (.unschedule oid)) .trigger
  return suspended

/-- Makes the task ready and has it fired at once. -/
def scheduleNow (oid : TaskOid) : Attempt Unit := do
  let _ ← orFail (call (.modify oid { scheduling := some .ready } .always)) .store
  orFail (call (.scheduleNow oid)) .trigger

def recordResult (oid : TaskOid) (result : OperationResult) : Attempt Task :=
  orFail (call (.modify oid { result := some result } .always)) .store

/-- Does what can be done; a failure changes nothing about what follows. -/
def bestEffort {α : Type} (attempt : Attempt α) : Action Unit := do
  let _ ← attempt.run

/-- Applies the stop action of a task whose thread was stopped from outside. A task
that is not ready any more was suspended or closed on purpose and is left alone. -/
def applyStopAction (oid : TaskOid) : Action Unit := do
  match ← call (.get oid) with
  | .error _ => return ()
  | .ok t =>
      if !t.isReady then return ()
      match StopDirective.resolve t.stopAction .halting t.recurring t.binding with
      | .error _ => return ()
      | .ok .close => bestEffort (close oid)
      | .ok .suspend => bestEffort (suspend oid)
      | .ok .rescheduleNow | .ok .resume => bestEffort (scheduleNow oid)
      | .ok .awaitNaturalRefire => return ()

end Administration
end TaskFiring
