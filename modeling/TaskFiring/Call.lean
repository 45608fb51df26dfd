import TaskFiring.Handle
import TaskFiring.Stop
import TaskFiring.Store
import TaskFiring.Trigger

/-!
The calls that a firing makes on its surroundings, each carried out in one piece:
on the task store, the trigger engine, the clock, its handle, the registry and the
stop signal of its node, the listeners and the identity. What another firing does
may come between any two of them.
-/

namespace TaskFiring

inductive Call
  | get (oid : TaskOid)
  | modify (oid : TaskOid) (d : TaskDelta) (p : Precondition)
  | countRunning (group : String) (exclude : TaskOid)
  | unschedule (oid : TaskOid)
  | deleteJob (oid : TaskOid)
  | rescheduleLater (oid : TaskOid) (time : Instant)
  | scheduleNow (oid : TaskOid)
  | nextFireTime (oid : TaskOid)
  | schedulerRunning
  | now
  | newHandle (oid : TaskOid)
  | canRun (h : HandleId)
  | clearCanRun (h : HandleId)
  | cancelChildren (h : HandleId) (abort : Bool)
  | isSafe (h : HandleId)
  | setSafe (h : HandleId) (value : Bool)
  | setExecuting (h : HandleId) (value : Bool)
  | interruptHandler (h : HandleId)
  | isInterrupted (h : HandleId)
  | spawn (h : HandleId) (child : ChildSpec)
  /-- Wait for the children of a handle, one after the other, and close them. The
  call carries the result so far, the count and the children taken but not closed. -/
  | collect (h : HandleId) (result : OperationResult) (closed : Nat) (batch : List Nat)
  | register (h : HandleId)
  | deregister (h : HandleId)
  | registered (oid : TaskOid)
  | registeredHandles
  | shutDown
  | isShutDown
  | notifyStarted (oid : TaskOid) (recovering : Bool)
  | notifyFinished (oid : TaskOid) (status : ResultStatus)
  | establish (owner : Option String)
  | clearIdentity
  /-- A call made by the handler of a task; no answer means that the handler was
  interrupted and goes no further. -/
  | handler (h : HandleId) (oid : TaskOid) (call : HandlerCall)

@[reducible] def Call.Response : Call → Type
  | .get _ | .modify _ _ _ => Except StoreError Task
  | .countRunning _ _ => Except StoreError Nat
  | .unschedule _ | .deleteJob _ | .rescheduleLater _ _ | .scheduleNow _ =>
      Except TriggerError Unit
  | .nextFireTime _ => Except TriggerError (Option Instant)
  | .now => Instant
  | .newHandle _ => HandleId
  | .schedulerRunning | .canRun _ | .isSafe _ | .isInterrupted _ | .isShutDown
  | .register _ | .deregister _ => Bool
  | .cancelChildren _ _ => Nat
  | .spawn _ _ => ChildId
  | .collect _ _ _ _ => OperationResult × Nat
  | .registered _ => Option HandleId
  | .registeredHandles => List HandleId
  | .clearCanRun _ | .setSafe _ _ | .setExecuting _ _ | .interruptHandler _ | .shutDown
  | .notifyStarted _ _ | .notifyFinished _ _ | .establish _ | .clearIdentity => Unit
  | .handler _ _ call => Option call.Response

@[reducible] def Calls : Interface := ⟨Call, Call.Response⟩

/-- A piece of a firing. -/
abbrev Action (α : Type) := Program Calls α

/-- A piece of a firing that may stop it. -/
abbrev Step (α : Type) := ExceptT Stop (Program Calls) α

def call (r : Call) : Action r.Response := Program.ask r .done

/-- A piece of a firing that may fail, for others to deal with. -/
abbrev Attempt (α : Type) := ExceptT Cause (Program Calls) α

/-- Goes on with the answer, or stops as its error says. -/
def orStop {ε α : Type} (answer : Action (Except ε α)) (stop : ε → Stop) : Step α :=
  ExceptT.mk (Except.mapError stop <$> answer)

/-- Goes on with the answer, or fails by its error. -/
def orFail {ε α : Type} (answer : Action (Except ε α)) (cause : ε → Cause) : Attempt α :=
  ExceptT.mk (Except.mapError cause <$> answer)

end TaskFiring
