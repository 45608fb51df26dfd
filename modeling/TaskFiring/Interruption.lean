import TaskFiring.Call
import TaskFiring.Config

/-!
Stopping what runs. To interrupt a firing takes away its leave to run, cancels its
children and, as the policy says, interrupts the handler itself. To deactivate a node
is to set its stop signal first and then to interrupt every firing registered there;
a firing that registers later sees the signal.
-/

namespace TaskFiring
namespace Interruption

/-- Whether the policy lets the handler itself be interrupted. -/
def reachesHandler (h : HandleId) : InterruptPolicy → Action Bool
  | .always => return true
  | .maybe => return !(← call (.isSafe h))
  | .never => return false

def interrupt (policy : InterruptPolicy) (h : HandleId) : Action Unit := do
  call (.clearCanRun h)
  let _ ← call (.cancelChildren h (policy != .never))
  if ← reachesHandler h policy then call (.interruptHandler h)

def interruptAll (policy : InterruptPolicy) : List HandleId → Action Unit
  | [] => return ()
  | h :: hs => do
      interrupt policy h
      interruptAll policy hs

/-- Gives the number of firings interrupted. -/
def deactivate (policy : InterruptPolicy) : Action Nat := do
  call .shutDown
  let handles ← call .registeredHandles
  interruptAll policy handles
  return handles.length

/-- Interrupts the firing of a task on this node, if there is one. -/
def interruptTask (policy : InterruptPolicy) (oid : TaskOid) : Action Bool := do
  match ← call (.registered oid) with
  | some h =>
      interrupt policy h
      return true
  | none => return false

end Interruption
end TaskFiring
