import TaskFiring.Error
import TaskFiring.Table
import TaskFiring.Time.Instant

/-!
The trigger engine as seen from a node. It fires nothing by itself here: it keeps
the calls made on it, in order, and the fire times it was given.
-/

namespace TaskFiring

inductive TriggerEvent
  | unscheduled (oid : TaskOid)
  | jobDeleted (oid : TaskOid)
  | rescheduledLater (oid : TaskOid) (time : Instant)
  | scheduledNow (oid : TaskOid)
  deriving DecidableEq

def TriggerEvent.oid : TriggerEvent → TaskOid
  | .unscheduled oid | .jobDeleted oid | .scheduledNow oid => oid
  | .rescheduledLater oid _ => oid

structure Trigger where
  events : List TriggerEvent := []
  fireTimes : Table (Prod.fst : TaskOid × Instant → TaskOid) := Table.empty
  /-- The local scheduler runs. -/
  running : Bool := true
  /-- Calls that change a schedule fail. -/
  failing : Bool := false
  /-- Fire times cannot be told. -/
  timesUnknown : Bool := false

namespace Trigger

def record (g : Trigger) (e : TriggerEvent) : Except TriggerError Unit × Trigger :=
  if g.failing then (.error .unavailable, g)
  else (.ok (), { g with events := g.events ++ [e] })

/-- An event changes the events only. -/
theorem record_rest (g : Trigger) (e : TriggerEvent) :
    (g.record e).2.fireTimes = g.fireTimes ∧ (g.record e).2.failing = g.failing ∧
      (g.record e).2.running = g.running ∧ (g.record e).2.timesUnknown = g.timesUnknown := by
  unfold record
  split <;> exact ⟨rfl, rfl, rfl, rfl⟩

/-- No fire time is left for the task. -/
def forget (g : Trigger) (oid : TaskOid) : Trigger :=
  { g with fireTimes := g.fireTimes.erase oid }

/-- The fire time goes even where the deletion of the job fails. -/
def deleteJob (g : Trigger) (oid : TaskOid) : Except TriggerError Unit × Trigger :=
  (g.forget oid).record (.jobDeleted oid)

def nextFireTime (g : Trigger) (oid : TaskOid) : Except TriggerError (Option Instant) :=
  if g.timesUnknown then .error .fireTimeUnknown
  else .ok ((g.fireTimes.find? oid).map Prod.snd)

def setFireTime (g : Trigger) (oid : TaskOid) (time : Instant) : Trigger :=
  { g with fireTimes := g.fireTimes.put (oid, time) }

def eventsFor (g : Trigger) (oid : TaskOid) : List TriggerEvent :=
  g.events.filter fun e => e.oid = oid

end Trigger
end TaskFiring
