import TaskFiring.Error
import TaskFiring.OperationResult
import TaskFiring.Program
import TaskFiring.Task

/-!
The work of a task: its handler and the lightweight children that run beside it.
Both are programs. A child may look at its leave to run and wait for a gate; a
handler may besides spawn children, put its task into waiting, wait to be
interrupted and disturb the surroundings behind everyone's back.
-/

namespace TaskFiring

/-- A wait for a gate to be opened from outside. A patient one waits for nothing
else, the other kind also ends once the leave to run is gone. -/
structure Wait where
  gate : String
  patient : Bool
  deriving DecidableEq

/-- What work tells of itself. -/
inductive Note
  | run (canRun recovering : Bool) (identity : Option String) (version : UInt64)
      (node : Option NodeId) (execution : ExecutionState)
  | spawned (id : ChildId)
  | child (id : ChildId) (name : String) (canRun : Bool)

/-- A note of the handler of a task, or of a child by name. -/
structure JournalEntry where
  oid : TaskOid
  child : String
  note : Note

inductive ChildCall
  | canRun
  | wait (w : Wait)
  | write (entry : JournalEntry)

@[reducible] def ChildCall.Response : ChildCall → Type
  | .canRun => Bool
  | .wait _ | .write _ => Unit

/-- A panic, with its message if it had one that is text. -/
structure Panic where
  message : Option String

/-- How a child ends when it is left to. -/
abbrev ChildEnd := Except Panic OperationResult

abbrev ChildWork := Program ⟨ChildCall, ChildCall.Response⟩ ChildEnd

/-- A child to be spawned; its work begins once it has an identifier. -/
structure ChildSpec where
  name : String
  work : ChildId → ChildWork

/-- A change made behind the back of all who use the store and the trigger engine. -/
inductive Disturbance
  | write (oid : TaskOid) (d : TaskDelta)
  | remove (oid : TaskOid)
  | storeAvailable (value : Bool)
  | triggerFailing (value : Bool)
  | advance (seconds : Int)

inductive HandlerCall
  | canRun
  | identity
  | spawn (child : ChildSpec)
  | switchToWaiting
  | wait (w : Wait)
  | awaitInterrupt
  | write (entry : JournalEntry)
  | disturb (d : Disturbance)

@[reducible] def HandlerCall.Response : HandlerCall → Type
  | .canRun => Bool
  | .identity => Option String
  | .spawn _ => ChildId
  | .switchToWaiting => Except StoreError Task
  | .wait _ | .awaitInterrupt | .write _ | .disturb _ => Unit

/-- How a handler ends when it is left to; a panic is an error. -/
abbrev HandlerEnd := Except HandlerError HandlerOutcome

abbrev HandlerWork := Program ⟨HandlerCall, HandlerCall.Response⟩ HandlerEnd

/-- What a handler is told about its run. -/
structure RunContext where
  task : Task
  recovering : Bool

structure Handler where
  /-- The handler stops by itself soon enough when its leave to run is gone. -/
  safe : Bool
  work : RunContext → HandlerWork

end TaskFiring
