import TaskFiring.World

/-!
Faults put in front of the store. A call on the store takes the first fault that fits
it; a fault with skips left lets the call through. A fault that acts may hold the call
until a gate opens, change or remove the task of the call, and make the call fail.
-/

namespace TaskFiring.Scenario

inductive CallKind
  | get
  | modify
  | count
  deriving DecidableEq

inductive PreconditionKind
  | always
  | version
  | scheduling
  deriving DecidableEq

def PreconditionKind.of : Precondition → PreconditionKind
  | .always => .always
  | .version _ => .version
  | .scheduling _ => .scheduling

/-- What a fault sees of a call on the store. -/
structure StoreCall where
  kind : CallKind
  oid : TaskOid
  precondition : Option PreconditionKind

/-- The store's part in a call, if it has one. -/
def storeCall? : Call → Option StoreCall
  | .get oid => some ⟨.get, oid, none⟩
  | .modify oid _ p => some ⟨.modify, oid, some (.of p)⟩
  | .countRunning _ exclude => some ⟨.count, exclude, none⟩
  | .handler _ oid .switchToWaiting => some ⟨.modify, oid, some .always⟩
  | _ => none

/-- The answer of a call on the store that fails. -/
def failed? : (r : Call) → StoreError → Option r.Response
  | .get _, e | .modify _ _ _, e => some (.error e)
  | .countRunning _ _, e => some (.error e)
  | .handler _ _ .switchToWaiting, e => some (some (.error e))
  | _, _ => none

/-- A failure, told of the task of the call. -/
inductive Failure
  | notFound
  | conflict (expected actual : UInt64)
  | precondition (text : String)
  | backend (text : String)

def Failure.error (oid : TaskOid) : Failure → StoreError
  | .notFound => .notFound oid
  | .conflict expected actual => .conflict oid expected actual
  | .precondition text => .preconditionFailed oid text
  | .backend text => .backend text

structure FaultAct where
  hold : Option String := none
  change : Option TaskDelta := none
  remove : Bool := false
  failure : Option Failure := none

structure Fault where
  kind : CallKind
  oid : Option TaskOid := none
  precondition : Option PreconditionKind := none
  skip : Nat := 0
  times : Nat := 1
  act : FaultAct

def Fault.fits (f : Fault) (c : StoreCall) : Bool :=
  f.kind = c.kind && f.oid.all (· = c.oid)
    && f.precondition.all fun p => c.precondition = some p

/-- The act that a call meets, and the faults left afterwards. -/
def takeFault (c : StoreCall) : List Fault → Option FaultAct × List Fault
  | [] => (none, [])
  | f :: fs =>
      if f.fits c then
        if 0 < f.skip then (none, { f with skip := f.skip - 1 } :: fs)
        else if f.times ≤ 1 then (some f.act, fs)
        else (some f.act, { f with times := f.times - 1 } :: fs)
      else
        let (act, rest) := takeFault c fs
        (act, f :: rest)

/-- Whether an act holds its call back. -/
def FaultAct.holds (act : FaultAct) (w : World) : Bool :=
  act.hold.any fun gate => !w.gates.contains gate

/-- What an act does to the store. -/
def FaultAct.disturb (act : FaultAct) (oid : TaskOid) (w : World) : World :=
  let w := act.change.elim w fun d => World.disturb w (.write oid d)
  if act.remove then w.disturb (.remove oid) else w

end TaskFiring.Scenario
