import TaskFiring.Firing.Administration

/-!
The steps of a firing before it asks for admission: loading the task with the root
of its hierarchy, turning away a task that is not ready, repairing what a dead run
left in the record, minding a stopped scheduler, and deciding how a recovering
firing goes on.
-/

namespace TaskFiring
namespace Preparation

structure Snapshot where
  task : Task
  rootOid : TaskOid
  /-- The own constraints of the task, or those of its root. -/
  constraints : Option Constraints

/-- Follows the parent links up from a task and gives the last ancestor found. The
way ends at a missing parent, at a task already visited and when there is no room
left for another visit. -/
def ancestor (oid : TaskOid) :
    Nat → List TaskOid → Option Task → Option TaskOid → Step (Option Task)
  | 0, _, top, _ => pure top
  | _ + 1, _, top, none => pure top
  | room + 1, visited, top, some parent =>
      if parent ∈ visited then pure top
      else do
        match ← call (.get parent) with
        | .ok p => ancestor oid room (parent :: visited) (some p) p.parent
        | .error (.notFound _) => pure top
        | .error e =>
            throw (.unexpected s!"couldn't resolve root of task {oid.display}" (.store e))

/-- Loads the task. One that is gone has its job deleted; where the store fails, the
trigger is kept, so that the next firing can try again. -/
def load (oid : TaskOid) : Step Snapshot := do
  match ← call (.get oid) with
  | .error (.notFound _) =>
      let _ ← call (.deleteJob oid)
      throw (.warning s!"task {oid.display} does not exist; its job was deleted")
  | .error e => throw (.unexpected s!"couldn't fetch task {oid.display}" (.store e))
  | .ok task =>
      let root ← ancestor oid (maxHierarchyDepth - 1) [task.oid] none task.parent
      return {
        task
        rootOid := (root.map Task.oid).getD task.oid
        constraints := task.constraints.or (root.bind Task.constraints) }

/-- Stops for a task that is not ready, and removes its trigger. -/
def ensureReady (t : Task) : Step Unit := do
  if t.isReady then return ()
  orStop (call (.unschedule t.oid)) fun e =>
    .unexpected s!"couldn't unschedule task {t.display} that is not ready" (.trigger e)
  throw (.warning
    (s!"task {t.display} is not ready (scheduling state {t.scheduling.word}); "
      ++ "its trigger was removed"))

/-- Whether a running record still belongs to a live run: one here that is registered,
or one on another node that is not known to have died. -/
def isLive (t : Task) (here : NodeId) (registered recovering : Bool) : Bool :=
  match t.runningOn? with
  | none => false
  | some node => if node = here then registered else !recovering

/-- A record that no dead run has left anything in. -/
def isClean (t : Task) : Bool := t.node.isNone && t.execution = .runnable

def repairDelta : TaskDelta := { node := some none, execution := some .runnable }

/-- Clears what a dead run left in the record. A live run is left alone. -/
def repair (here : NodeId) (t : Task) (recovering : Bool) : Step Task := do
  let registered ← call (.registered t.oid)
  if isLive t here registered.isSome recovering || isClean t then return t
  match ← call (.modify t.oid repairDelta (.version t.version)) with
  | .ok repaired => return repaired
  | .error e@(.conflict ..) =>
      throw (.error
        s!"task {t.display} was modified concurrently while repairing its execution state"
        (.store e))
  | .error (.notFound oid) =>
      throw (.warning s!"task {oid.display} vanished while repairing its execution state")
  | .error e =>
      throw (.unexpected
        s!"couldn't repair execution state of task {t.display}" (.store e))

/-- Stops where the local scheduler does not run, after applying the stop action. -/
def ensureSchedulerRunning (t : Task) : Step Unit := do
  if ← call .schedulerRunning then return ()
  Administration.applyStopAction t.oid
  throw (.warning s!"local scheduler is not running, task {t.display} not started")

/-- Applies the stop action to a firing that recovers a dead run; goes on where the
handler is to run now. -/
def applyRecoveryPolicy (t : Task) (recovering : Bool) : Step Unit := do
  if !recovering then return ()
  match StopDirective.resolve t.stopAction .recovering t.recurring t.binding with
  | .error e =>
      throw (.unexpected
        s!"can't apply thread stop action of recovering task {t.display}" (.policy e))
  | .ok .close =>
      Administration.bestEffort (Administration.close t.oid)
      throw (.info s!"closed recovered task {t.display} (thread stop action CLOSE)")
  | .ok .suspend =>
      Administration.bestEffort (Administration.suspend t.oid)
      throw (.info s!"suspended recovered task {t.display} (thread stop action SUSPEND)")
  | .ok .awaitNaturalRefire =>
      throw (.info
        (s!"recovered task {t.display} will be re-fired by its trigger "
          ++ "(thread stop action RESCHEDULE)"))
  | .ok .resume | .ok .rescheduleNow => return ()

end Preparation
end TaskFiring
