import TaskFiring.Scenario.Bench
import TaskFiring.Scenario.Script

/-!
What a scenario can ask for, one operation at a time, and the shapes of the replies.
-/

namespace TaskFiring.Scenario

/-- A task by a copy saved earlier, or as the store has it. -/
inductive TaskRef
  | saved (name : String)
  | stored (oid : TaskOid)

inductive Op
  -- the store
  | insert (t : Task)
  | get (oid : TaskOid)
  | modify (oid : TaskOid) (d : TaskDelta) (p : Precondition)
  | count (group : String) (exclude : TaskOid)
  | remove (oid : TaskOid)
  | storeAvailable (value : Bool)
  | addFault (f : Fault)
  | clearFaults
  -- the trigger engine, the clock and the gates
  | unschedule (oid : TaskOid)
  | deleteJob (oid : TaskOid)
  | rescheduleLater (oid : TaskOid) (time : Instant)
  | triggerNow (oid : TaskOid)
  | nextFireTime (oid : TaskOid)
  | setFireTime (oid : TaskOid) (time : Instant)
  | fireTimesUnknown (value : Bool)
  | schedulerRunning (value : Bool)
  | triggerFailing (value : Bool)
  | eventsFor (oid : TaskOid)
  | advance (nanos : Int)
  | openGate (gate : String)
  -- a node
  | fire (node : String) (oid : TaskOid) (recovering : Bool) (label : String)
  | interrupt (node : String) (oid : TaskOid)
  | deactivate (node : String)
  | isDeactivated (node : String)
  | runningTasks (node : String)
  | runningHandle (node : String) (oid : TaskOid)
  | spawnChild (node : String) (oid : TaskOid) (child : ChildScript)
  -- single steps of a firing
  | save (name : String) (t : TaskRef)
  | load (oid : TaskOid)
  | ensureReady (t : TaskRef)
  | repair (here : NodeId) (t : TaskRef) (recovering : Bool)
  | recoveryPolicy (t : TaskRef) (recovering : Bool)
  | checkAdmission (config : Config) (t : TaskRef) (constraints : Option Constraints)
  | enforceAdmission (config : Config) (t : TaskRef) (constraints : Option Constraints)
  | guard (enabled : Bool) (t : TaskRef)
  | start (here : NodeId) (t : TaskRef)
  | settle (oid : TaskOid)
  | applyStopAction (oid : TaskOid)
  | close (oid : TaskOid)
  | suspend (oid : TaskOid)
  | scheduleNow (oid : TaskOid)
  | recordResult (oid : TaskOid) (result : OperationResult)
  | applyOutcome (t : TaskRef) (ended : HandlerEnd) (result : OperationResult)
  | resolveHandler (handlers : List (String × HandlerScript)) (t : TaskRef)
      (result : OperationResult)
  -- handles, and a registry aside of all nodes
  | newHandle (name : String) (oid : TaskOid)
  | showHandle (name : String)
  | spawnOn (name : String) (child : ChildScript)
  | cancelChildren (name : String) (abort : Bool)
  | clearCanRun (name : String)
  | interruptHandler (name : String)
  | setFlags (name : String) (safe executing : Bool)
  | interruptHandle (name : String) (policy : InterruptPolicy)
  | collect (name : String) (result : OperationResult) (label : String)
  | runHandler (name : String) (handler : HandlerScript) (t : TaskRef) (recovering : Bool)
      (label : String)
  | register (name : String)
  | deregister (name : String)
  | showRegistry (oid : TaskOid)
  | shutDown (policy : InterruptPolicy)

structure RegistryView where
  oids : List TaskOid
  contains : Bool
  canRun : Option Bool

inductive Reply
  | ok
  | nothing
  | flag (value : Bool)
  | number (n : Nat)
  | time (t : Instant)
  | task (t : Task)
  | version (v : UInt64)
  | removed (v : Option UInt64)
  | storeError (e : StoreError)
  | triggerError (e : TriggerError)
  | failed (c : Cause)
  | stopped (s : Stop)
  | fireTime (t : Option Instant)
  | events (es : List TriggerEvent)
  | oids (oids : List TaskOid)
  | handle (h : Handle)
  | child (id : ChildId)
  | snapshot (s : Preparation.Snapshot)
  | allowed
  | refused (saturated : List Admission.Saturation) (retryAt : Instant) (regular : Bool)
  | started (t : Task)
  | result (r : OperationResult)
  | resolved (handler : Except Stop Bool) (result : OperationResult)
  | registered (oid : TaskOid)
  | registry (view : RegistryView)
  | shutDown (before : Bool) (interrupted : Nat) (after : Bool)

end TaskFiring.Scenario
