import TaskFiring.Text.Quoted
import TaskFiring.Work

/-!
The handle of a firing: the flags through which it is stopped from outside, and its
children in the order they were spawned. A child goes from running to cancelled to
closed, or straight to closed. It is cancelled at most once, and closed by the one
who waits for it, who takes each child once.
-/

namespace TaskFiring

inductive ChildState
  | running
  | cancelled
  | closed
  deriving DecidableEq, Repr

def ChildState.name : ChildState → String
  | .running => "running"
  | .cancelled => "cancelled"
  | .closed => "closed"

structure Child where
  id : ChildId
  name : String
  /-- The work that is left. -/
  work : ChildWork
  canRun : Bool
  state : ChildState := .running
  /-- The waiter need not wait for the end any more. -/
  cancelled : Bool := false
  /-- The work goes no further. -/
  aborted : Bool := false
  /-- Someone waits or has waited for this child. -/
  taken : Bool := false
  ended : Option ChildEnd := none

namespace Panic

def text (p : Panic) : String :=
  match p.message with
  | some m =>
      let shown := Text.quoted m
      s!"task N panicked with message {shown}"
  | none => "task N panicked"

end Panic

namespace Child

def cancelledResult (name : String) : OperationResult :=
  (OperationResult.new name).record .interrupted (some "lightweight child was cancelled")

def panickedResult (name : String) (p : Panic) : OperationResult :=
  (OperationResult.new name).recordFatal s!"lightweight child panicked: {p.text}"

/-- What the waiter makes of a child, once there is something. An end that was
reached counts even if the child was cancelled. -/
def result? (c : Child) : Option OperationResult :=
  match c.ended with
  | some (.ok r) => some r
  | some (.error p) => some (panickedResult c.name p)
  | none => if c.cancelled then some (cancelledResult c.name) else none

def cancel (abort : Bool) (c : Child) : Child :=
  if c.state = .running then
    { c with
      canRun := false
      state := .cancelled
      cancelled := true
      aborted := c.aborted || abort }
  else c

end Child

structure Handle where
  oid : TaskOid
  canRun : Bool := true
  /-- The handler itself was interrupted. -/
  interrupted : Bool := false
  safe : Bool := false
  executing : Bool := false
  children : List Child := []

/-- Which handle, in the order in which they were made. -/
structure HandleId where
  index : Nat
  deriving DecidableEq

namespace Handle

/-- A new child has the leave to run that its parent has. -/
def spawn (h : Handle) (id : ChildId) (spec : ChildSpec) : Handle :=
  let child : Child :=
    { id, name := spec.name, work := spec.work id, canRun := h.canRun }
  { h with children := h.children ++ [child] }

def runningChildren (h : Handle) : Nat :=
  h.children.countP fun c => c.state = .running

/-- Cancels every running child. -/
def cancelChildren (abort : Bool) (h : Handle) : Handle :=
  { h with children := h.children.map (Child.cancel abort) }

/-- The positions of the children that nobody waits for yet. -/
def pending (h : Handle) : List Nat :=
  (List.range h.children.length).filter fun i => h.children[i]?.any fun c => !c.taken

def takePending (h : Handle) : Handle :=
  { h with children := h.children.map fun c => { c with taken := true } }

/-- Closes the first child of that identifier. -/
def closeChild (id : ChildId) (h : Handle) : Handle :=
  { h with
    children := h.children.modify (h.children.findIdx fun c => c.id = id)
      fun c => { c with state := .closed } }

def childStates (h : Handle) : List (ChildId × ChildState) :=
  h.children.map fun c => (c.id, c.state)

end Handle
end TaskFiring
