import TaskFiring.Id
import TaskFiring.OperationResult
import TaskFiring.State
import TaskFiring.Time.Stamp

/-!
The stored record of a task and partial updates to it. The version belongs to the
store, which raises it at every write.
-/

namespace TaskFiring

/-- Membership in a named group; without a limit it is a grouping only, unless the
configuration gives one. -/
structure GroupConstraint where
  group : String
  limit : Option UInt32
  deriving DecidableEq

structure Constraints where
  groups : List GroupConstraint
  /-- Seconds to wait before a refused task is tried again. -/
  retryAfter : Option UInt64
  deriving DecidableEq

def Constraints.containsGroup (c : Constraints) (group : String) : Bool :=
  c.groups.any fun g => g.group = group

structure Task where
  oid : TaskOid
  name : String
  version : UInt64 := 0
  parent : Option TaskOid := none
  /-- The identity that the handler runs as. -/
  owner : Option String := none
  handlerRef : String
  scheduling : SchedulingState := .ready
  execution : ExecutionState := .runnable
  node : Option NodeId := none
  stopAction : Option StopAction := none
  recurring : Bool := false
  binding : Binding := .loose
  constraints : Option Constraints := none
  result : Option OperationResult := none
  completedAt : Option Instant := none
  deriving DecidableEq

namespace Task

def display (t : Task) : String := s!"{t.name} ({t.oid.display})"

def isReady (t : Task) : Bool := t.scheduling = .ready

/-- The trigger engine fires such a task again by itself. -/
def isLooselyRecurring (t : Task) : Bool := t.recurring && t.binding = .loose

/-- A node holds the task as running. -/
def runningOn? (t : Task) : Option NodeId :=
  if t.execution = .running then t.node else none

end Task

/-- A partial update. Absent fields are left alone; `some none` clears a value. -/
structure TaskDelta where
  scheduling : Option SchedulingState := none
  execution : Option ExecutionState := none
  node : Option (Option NodeId) := none
  result : Option OperationResult := none
  completedAt : Option (Option Instant) := none
  deriving DecidableEq

namespace TaskDelta

def isEmpty (d : TaskDelta) : Bool :=
  d.scheduling.isNone && d.execution.isNone && d.node.isNone && d.result.isNone
    && d.completedAt.isNone

def apply (d : TaskDelta) (t : Task) : Task :=
  { t with
    scheduling := d.scheduling.getD t.scheduling
    execution := d.execution.getD t.execution
    node := d.node.getD t.node
    result := d.result.or t.result
    completedAt := d.completedAt.getD t.completedAt }

theorem apply_oid (d : TaskDelta) (t : Task) : (d.apply t).oid = t.oid := rfl

theorem apply_of_isEmpty {d : TaskDelta} (h : d.isEmpty) (t : Task) : d.apply t = t := by
  obtain ⟨s, e, n, r, c⟩ := d
  simp only [isEmpty, Bool.and_eq_true, Option.isNone_iff_eq_none] at h
  obtain ⟨⟨⟨⟨rfl, rfl⟩, rfl⟩, rfl⟩, rfl⟩ := h
  rfl

end TaskDelta
end TaskFiring
