import TaskFiring.Firing.Administration

/-!
Running the handler of a task. The handler runs until it ends or is interrupted, in
which case it goes no further and counts as interrupted. What it reports is recorded
and decides whether the task is closed or suspended, unless something has moved the
task out of ready meanwhile.
-/

namespace TaskFiring

/-- Handlers by name. -/
abbrev Handlers := Table (Prod.fst : String × Handler → String)

namespace Handlers

def resolve (hs : Handlers) (name : String) : Option Handler :=
  (hs.find? name).map Prod.snd

/-- A name can be taken once. -/
def register (hs : Handlers) (name : String) (handler : Handler) :
    Except DuplicateHandler Handlers :=
  if hs.contains name then .error ⟨name⟩ else .ok (hs.put (name, handler))

end Handlers

namespace Handling

/-- Looks the handler up. Without one the task is flawed: that is recorded in its
result, and the task is closed. -/
def resolve (handlers : Handlers) (t : Task) (result : OperationResult) :
    Action (Except Stop Handler × OperationResult) := do
  match handlers.resolve t.handlerRef with
  | some handler => return (.ok handler, result)
  | none =>
      let reason := s!"no handler registered for {t.handlerRef}, closing task {t.display}"
      let result := result.recordFatal reason
      Administration.bestEffort (Administration.recordResult t.oid result)
      Administration.bestEffort (Administration.close t.oid)
      return (.error (.unexpected reason (.handlerNotFound t.handlerRef)), result)

theorem resolve_of_some {handlers : Handlers} {t : Task} {handler : Handler}
    (h : handlers.resolve t.handlerRef = some handler) (result : OperationResult) :
    resolve handlers t result = .done (.ok handler, result) := by
  unfold resolve
  rw [h]
  rfl

/-- The calls of a handler as calls of its firing. A call that gets no answer ends
the run as interrupted. -/
def guarded (h : HandleId) (oid : TaskOid) : HandlerWork → Action HandlerEnd
  | .done result => .done result
  | .ask r next =>
      .ask (.handler h oid r) fun
        | some answer => guarded h oid (next answer)
        | none => .done (.ok .interrupted)

/-- Runs the handler; one that was interrupted beforehand does not begin. -/
def run (handler : Handler) (h : HandleId) (context : RunContext) :
    Action HandlerEnd := do
  if ← call (.isInterrupted h) then return .ok .interrupted
  guarded h context.task.oid (handler.work context)

/-- What becomes of a ready task after its handler has run. -/
inductive Consequence
  | close
  | suspend
  | keep
  deriving DecidableEq

/-- A task that recurs goes on after success and after an error that may pass. -/
def consequence (status : RunStatus) (recurring : Bool) : Consequence :=
  match status with
  | .finished | .temporaryError => if recurring then .keep else .close
  | .permanentError => .suspend
  | .interrupted => .keep

/-- Records the run into the result and acts on it. Failures are passed over. -/
def applyOutcome (t : Task) (ended : HandlerEnd) (result : OperationResult) :
    Action OperationResult := do
  match ended with
  | .error e =>
      let result := result.recordFatal e.message
      Administration.bestEffort (Administration.recordResult t.oid result)
      return result
  | .ok outcome =>
      let result := result.record outcome.status.resultStatus outcome.message
      match ← (Administration.recordResult t.oid result).run with
      | .error _ => return result
      | .ok current =>
          if current.isReady then
            match consequence outcome.status t.recurring with
            | .close => Administration.bestEffort (Administration.close t.oid)
            | .suspend => Administration.bestEffort (Administration.suspend t.oid)
            | .keep => pure ()
          return result

end Handling
end TaskFiring
