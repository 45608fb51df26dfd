import TaskFiring.Error

/-!
The decision table for tasks whose thread was stopped. The same table serves a firing
that recovers a dead run and a firing that is halted from outside; they differ only
in what it means to run again.
-/

namespace TaskFiring

inductive StopContext
  | recovering
  | halting
  deriving DecidableEq, Repr

inductive StopDirective
  | close
  | suspend
  /-- Carry on and run the handler now. -/
  | resume
  /-- Have the trigger engine fire the task at once. -/
  | rescheduleNow
  /-- Leave the task to its next natural firing. -/
  | awaitNaturalRefire
  deriving DecidableEq, Repr

namespace StopDirective

def name : StopDirective → String
  | .close => "Close"
  | .suspend => "Suspend"
  | .resume => "Resume"
  | .rescheduleNow => "RescheduleNow"
  | .awaitNaturalRefire => "AwaitNaturalRefire"

def runAgain : StopContext → StopDirective
  | .recovering => .resume
  | .halting => .rescheduleNow

/-- A tight task has no fire time of its own to wait for, so it runs again. -/
def resolve (action : Option StopAction) (context : StopContext) (recurring : Bool)
    (binding : Binding) : Except UnknownStopAction StopDirective :=
  match action with
  | some .close => .ok .close
  | some .suspend => .ok .suspend
  | none | some .restart => .ok (runAgain context)
  | some .reschedule =>
      if recurring && binding = .loose then .ok .awaitNaturalRefire
      else .ok (runAgain context)
  | some (.unrecognized raw) => .error ⟨raw⟩

end StopDirective
end TaskFiring
