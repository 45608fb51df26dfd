import TaskFiring.Work

/-!
Scripts for handlers and children: lists of plain steps, each made into the calls
that carry it out. A handler that comes to the end of its script has finished; a
child returns the result that it has built up.
-/

namespace TaskFiring.Scenario

/-- The payload of a panic, which is text in two of three cases. -/
structure PanicSpec where
  message : String
  isText : Bool

inductive ChildStep
  | observe
  | wait (w : Wait)
  | returnIfStopped
  | success
  | record (status : ResultStatus) (message : Option String)
  | addSubresult (result : OperationResult)
  | compute
  | panic (p : PanicSpec)

structure ChildScript where
  name : String
  steps : List ChildStep

inductive HandlerStep
  | observe
  | wait (w : Wait)
  | awaitInterrupt
  | returnIfStopped
  | spawn (child : ChildScript)
  | switchToWaiting
  | modify (d : TaskDelta)
  | remove
  | storeAvailable (value : Bool)
  | triggerFailing (value : Bool)
  | advance (seconds : Int)
  | finish (outcome : HandlerOutcome)
  | fail (message : String)
  | panic (p : PanicSpec)

structure HandlerScript where
  safe : Bool
  steps : List HandlerStep

def childCall (r : ChildCall) : Program ⟨ChildCall, ChildCall.Response⟩ r.Response :=
  .ask r .done

def handlerCall (r : HandlerCall) :
    Program ⟨HandlerCall, HandlerCall.Response⟩ r.Response :=
  .ask r .done

/-- The work of a child from a step on, with its result so far. -/
def childWork (oid : TaskOid) (name : String) (id : ChildId) :
    List ChildStep → OperationResult → ChildWork
  | [], result => .done (.ok result)
  | .observe :: rest, result => do
      let canRun ← childCall .canRun
      childCall (.write ⟨oid, name, .child id name canRun⟩)
      childWork oid name id rest result
  | .wait w :: rest, result => do
      childCall (.wait w)
      childWork oid name id rest result
  | .returnIfStopped :: rest, result => do
      if ← childCall .canRun then childWork oid name id rest result
      else return .ok (result.record .interrupted none)
  | .success :: rest, result => childWork oid name id rest result.recordSuccess
  | .record status message :: rest, result =>
      childWork oid name id rest (result.record status message)
  | .addSubresult sub :: rest, result =>
      childWork oid name id rest (result.addSubresult sub)
  | .compute :: rest, result => childWork oid name id rest result.computeStatus
  | .panic p :: _, _ => .done (.error ⟨if p.isText then some p.message else none⟩)

/-- A scripted child of a firing of that task. -/
def ChildScript.spec (oid : TaskOid) (c : ChildScript) : ChildSpec :=
  { name := c.name
    work := fun id => childWork oid c.name id c.steps (.new c.name) }

/-- The work of a handler from a step on. -/
def handlerWork (context : RunContext) : List HandlerStep → HandlerWork
  | [] => .done (.ok .finished)
  | .observe :: rest => do
      let t := context.task
      let canRun ← handlerCall .canRun
      let identity ← handlerCall .identity
      handlerCall (.write ⟨t.oid, "",
        .run canRun context.recovering identity t.version t.node t.execution⟩)
      handlerWork context rest
  | .wait w :: rest => do
      handlerCall (.wait w)
      handlerWork context rest
  | .awaitInterrupt :: rest => do
      handlerCall .awaitInterrupt
      handlerWork context rest
  | .returnIfStopped :: rest => do
      if ← handlerCall .canRun then handlerWork context rest
      else return .ok .interrupted
  | .spawn child :: rest => do
      let id ← handlerCall (.spawn (child.spec context.task.oid))
      handlerCall (.write ⟨context.task.oid, "", .spawned id⟩)
      handlerWork context rest
  | .switchToWaiting :: rest => do
      match ← handlerCall .switchToWaiting with
      | .ok _ => handlerWork context rest
      | .error e => return .error (.failed e.message)
  | .modify d :: rest => do
      handlerCall (.disturb (.write context.task.oid d))
      handlerWork context rest
  | .remove :: rest => do
      handlerCall (.disturb (.remove context.task.oid))
      handlerWork context rest
  | .storeAvailable value :: rest => do
      handlerCall (.disturb (.storeAvailable value))
      handlerWork context rest
  | .triggerFailing value :: rest => do
      handlerCall (.disturb (.triggerFailing value))
      handlerWork context rest
  | .advance seconds :: rest => do
      handlerCall (.disturb (.advance seconds))
      handlerWork context rest
  | .finish outcome :: _ => .done (.ok outcome)
  | .fail message :: _ => .done (.error (.failed message))
  | .panic p :: _ =>
      .done (.error (.panicked (if p.isText then p.message else "unknown panic")))

def HandlerScript.handler (s : HandlerScript) : Handler :=
  { safe := s.safe, work := fun context => handlerWork context s.steps }

/-- How many children the script spawns. -/
def HandlerScript.spawns (s : HandlerScript) : Nat :=
  s.steps.countP fun
    | .spawn _ => true
    | _ => false

end TaskFiring.Scenario
