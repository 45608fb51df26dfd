import TaskFiring.Json.Record

/-!
The states and policies of a task. The scheduling state says whether the task may
be fired, the execution state whether a firing of it is live. What to do with a
task whose thread was stopped is kept as a word; a word that means nothing is kept
as it came.
-/

namespace TaskFiring

inductive SchedulingState
  | ready
  | waiting
  | suspended
  | closed
  deriving DecidableEq, Repr

namespace SchedulingState

def all : List SchedulingState := [.ready, .waiting, .suspended, .closed]

def name : SchedulingState → String
  | .ready => "READY"
  | .waiting => "WAITING"
  | .suspended => "SUSPENDED"
  | .closed => "CLOSED"

/-- The word for messages. -/
def word : SchedulingState → String
  | .ready => "Ready"
  | .waiting => "Waiting"
  | .suspended => "Suspended"
  | .closed => "Closed"

end SchedulingState

inductive ExecutionState
  | runnable
  | running
  | waiting
  | suspended
  | closed
  deriving DecidableEq, Repr

namespace ExecutionState

def all : List ExecutionState := [.runnable, .running, .waiting, .suspended, .closed]

def name : ExecutionState → String
  | .runnable => "RUNNABLE"
  | .running => "RUNNING"
  | .waiting => "WAITING"
  | .suspended => "SUSPENDED"
  | .closed => "CLOSED"

/-- The execution state that fits a scheduling state once a run is over, or none if
the current one may stay. A task that waits keeps its state unless it still counts
as running. -/
def afterRun (scheduling : SchedulingState) (current : ExecutionState) :
    Option ExecutionState :=
  match scheduling with
  | .suspended => some .suspended
  | .closed => some .closed
  | .waiting => if current = .running then some .waiting else none
  | .ready => some .runnable

end ExecutionState

/-- Whether the next run of a recurring task is scheduled only after the current one
(tight) or independently of it (loose). -/
inductive Binding
  | tight
  | loose
  deriving DecidableEq, Repr

namespace Binding

def all : List Binding := [.tight, .loose]

def name : Binding → String
  | .tight => "TIGHT"
  | .loose => "LOOSE"

end Binding

inductive StopAction
  | close
  | suspend
  | restart
  | reschedule
  | unrecognized (raw : String)
  deriving DecidableEq, Repr

namespace StopAction

def text : StopAction → String
  | .close => "CLOSE"
  | .suspend => "SUSPEND"
  | .restart => "RESTART"
  | .reschedule => "RESCHEDULE"
  | .unrecognized raw => raw

/-- Letters of ASCII count in either case; any other text is kept verbatim. -/
def ofText (raw : String) : StopAction :=
  let upper := raw.map Char.toUpper
  if upper = "CLOSE" then .close
  else if upper = "SUSPEND" then .suspend
  else if upper = "RESTART" then .restart
  else if upper = "RESCHEDULE" then .reschedule
  else .unrecognized raw

end StopAction
end TaskFiring
