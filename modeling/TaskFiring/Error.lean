import TaskFiring.Id
import TaskFiring.State

/-!
What can go wrong around a firing: in the task store, in the trigger engine, in the
stop policy, in a handler. Each fault names its cause; `message` is its wording. A
`Cause` is any of them attached to a firing that stopped.
-/

namespace TaskFiring

inductive StoreError
  | notFound (oid : TaskOid)
  | preconditionFailed (oid : TaskOid) (reason : String)
  | conflict (oid : TaskOid) (expected actual : UInt64)
  | backend (text : String)
  deriving DecidableEq

namespace StoreError

def message : StoreError → String
  | .notFound oid => s!"task {oid.display} not found"
  | .preconditionFailed oid reason => s!"precondition failed for {oid.display}: {reason}"
  | .conflict oid expected actual =>
      s!"version conflict for {oid.display}: expected {expected}, actual {actual}"
  | .backend text => s!"task store backend error: {text}"

def unavailable : StoreError := .backend "store unavailable"

def alreadyExists (oid : TaskOid) : StoreError :=
  .preconditionFailed oid "task already exists"

def unexpectedState (oid : TaskOid) (actual expected : SchedulingState) : StoreError :=
  .preconditionFailed oid
    s!"scheduling state is {actual.word}, expected {expected.word}"

end StoreError

/-- A call that the trigger engine could not carry out. -/
structure TriggerError where
  text : String
  deriving DecidableEq

namespace TriggerError

def message (e : TriggerError) : String := s!"trigger engine error: {e.text}"

def unavailable : TriggerError := ⟨"trigger engine unavailable"⟩

def fireTimeUnknown : TriggerError := ⟨"next fire time unknown"⟩

end TriggerError

/-- A stop action that no policy knows. -/
structure UnknownStopAction where
  raw : String
  deriving DecidableEq

def UnknownStopAction.message (e : UnknownStopAction) : String :=
  s!"unknown thread stop action: {e.raw}"

inductive HandlerError
  | failed (text : String)
  | panicked (text : String)
  deriving DecidableEq

def HandlerError.message : HandlerError → String
  | .failed text => s!"handler failed: {text}"
  | .panicked text => s!"handler panicked: {text}"

/-- A second handler under a name that is taken. -/
structure DuplicateHandler where
  name : String
  deriving DecidableEq

def DuplicateHandler.message (e : DuplicateHandler) : String :=
  s!"duplicate handler for handler_ref={e.name}"

inductive Cause
  | store (e : StoreError)
  | trigger (e : TriggerError)
  | policy (e : UnknownStopAction)
  | handlerNotFound (name : String)
  | concurrentExecution (oid : TaskOid) (node : NodeId)
  deriving DecidableEq

def Cause.message : Cause → String
  | .store e => e.message
  | .trigger e => e.message
  | .policy e => e.message
  | .handlerNotFound name => s!"no handler registered for handler_ref={name}"
  | .concurrentExecution oid node =>
      s!"task {oid.display} is already running on node {node.name}"

/-- Reads a stop action that must be a known one. -/
def StopAction.ofKnownText (raw : String) : Except UnknownStopAction StopAction :=
  match StopAction.ofText raw with
  | .unrecognized raw => .error ⟨raw⟩
  | known => .ok known

end TaskFiring
