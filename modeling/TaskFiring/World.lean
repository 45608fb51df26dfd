import TaskFiring.Call
import TaskFiring.Security

/-!
The surroundings of all firings: one store, trigger engine, clock, identity and
listener shared by all nodes, and for each node the registry of what runs there and
its stop signal. `perform` answers a single call, or leaves it unanswered while it
has to wait. `Program.step?` runs a program by one such answer, and
`Program.interrupted?` leaves the call of an interrupted handler without one.
-/

namespace TaskFiring

inductive ListenerEvent
  | started (oid : TaskOid) (recovering : Bool)
  | finished (oid : TaskOid) (status : ResultStatus)
  deriving DecidableEq

def ListenerEvent.oid : ListenerEvent → TaskOid
  | .started oid _ | .finished oid _ => oid

abbrev Running := Table (Prod.fst : TaskOid × HandleId → TaskOid)

/-- Where a program runs: on the node of that name, or aside of all nodes. -/
inductive Place
  | node (name : String)
  | aside
  deriving DecidableEq

/-- What a place keeps for itself. -/
structure Site where
  running : Running := Table.empty
  shutDown : Bool := false

structure World where
  store : Store := {}
  trigger : Trigger := {}
  now : Instant
  security : Security := {}
  listener : List ListenerEvent := []
  journal : List JournalEntry := []
  handles : List Handle := []
  sites : Table (Prod.fst : Place × Site → Place) := Table.empty
  gates : List String := []
  /-- The number of the next child. -/
  nextChild : Nat := 1

namespace World

def site (w : World) (place : Place) : Site :=
  ((w.sites.find? place).map Prod.snd).getD {}

def onSite (w : World) (place : Place) (f : Site → Site) : World :=
  { w with sites := w.sites.put (place, f (w.site place)) }

def handle? (w : World) (h : HandleId) : Option Handle := w.handles[h.index]?

def onHandle (w : World) (h : HandleId) (f : Handle → Handle) : World :=
  { w with handles := w.handles.modify h.index f }

def child? (w : World) (h : HandleId) (i : Nat) : Option Child :=
  (w.handle? h).bind fun handle => handle.children[i]?

def onChild (w : World) (h : HandleId) (i : Nat) (f : Child → Child) : World :=
  w.onHandle h fun handle => { handle with children := handle.children.modify i f }

def canRun (w : World) (h : HandleId) : Bool := (w.handle? h).any (·.canRun)

def isInterrupted (w : World) (h : HandleId) : Bool := (w.handle? h).any (·.interrupted)

def write (w : World) (entry : JournalEntry) : World :=
  { w with journal := w.journal ++ [entry] }

def spawn (w : World) (h : HandleId) (spec : ChildSpec) : ChildId × World :=
  let id : ChildId := ⟨BitVec.ofNat 128 w.nextChild⟩
  let w := { w with nextChild := w.nextChild + 1 }
  (id, w.onHandle h fun handle => handle.spawn id spec)

def waitIsOver (w : World) (canRun : Bool) (wait : Wait) : Bool :=
  w.gates.contains wait.gate || (!wait.patient && !canRun)

def disturb (w : World) : Disturbance → World
  | .write oid d => { w with store := (w.store.modify oid d .always).2 }
  | .remove oid => { w with store := w.store.remove oid }
  | .storeAvailable value => { w with store := { w.store with available := value } }
  | .triggerFailing value => { w with trigger := { w.trigger with failing := value } }
  | .advance seconds =>
      { w with now := (w.now.shift? (seconds * Instant.nanosPerSecond)).getD w.now }

/-- A trigger call and its answer. -/
def onTrigger {α : Type} (w : World) (answer : α × Trigger) : α × World :=
  (answer.1, { w with trigger := answer.2 })

def onStore {α : Type} (w : World) (answer : α × Store) : α × World :=
  (answer.1, { w with store := answer.2 })

def register (w : World) (place : Place) (h : HandleId) : Bool × World :=
  match w.handle? h with
  | none => (false, w)
  | some handle =>
      if (w.site place).running.contains handle.oid then (false, w)
      else
        (true,
          w.onSite place fun s => { s with running := s.running.put (handle.oid, h) })

/-- Removes the entry of that very handle, and no other one for the same task. -/
def deregister (w : World) (place : Place) (h : HandleId) : Bool × World :=
  match w.handle? h with
  | none => (false, w)
  | some handle =>
      if (w.site place).running.find? handle.oid = some (handle.oid, h) then
        (true, w.onSite place fun s => { s with running := s.running.erase handle.oid })
      else (false, w)

def registered (w : World) (place : Place) (oid : TaskOid) : Option HandleId :=
  ((w.site place).running.find? oid).map Prod.snd

/-- The update by which a handler puts its task into waiting. -/
def waitingDelta : TaskDelta :=
  { scheduling := some .waiting, execution := some .waiting }

def performHandler (w : World) (h : HandleId) (oid : TaskOid) :
    (call : HandlerCall) → Option (call.Response × World)
  | .canRun => some (w.canRun h, w)
  | .identity => some (w.security.current, w)
  | .spawn child => some (w.spawn h child)
  | .switchToWaiting => some (w.onStore (w.store.modify oid waitingDelta .always))
  | .wait wait => if w.waitIsOver (w.canRun h) wait then some ((), w) else none
  | .awaitInterrupt => if w.isInterrupted h then some ((), w) else none
  | .write entry => some ((), w.write entry)
  | .disturb d => some ((), w.disturb d)

def performChild (w : World) (canRun : Bool) :
    (call : ChildCall) → Option (call.Response × World)
  | .canRun => some (canRun, w)
  | .wait wait => if w.waitIsOver canRun wait then some ((), w) else none
  | .write entry => some ((), w.write entry)

/-- Answers a call made from a place, or nothing while it has to wait.
Collecting children takes several steps and is answered elsewhere. -/
def perform (w : World) (place : Place) : (r : Call) → Option (r.Response × World)
  | .get oid => some (w.store.get oid, w)
  | .modify oid d p => some (w.onStore (w.store.modify oid d p))
  | .countRunning group exclude => some (w.store.countRunning group exclude, w)
  | .unschedule oid => some (w.onTrigger (w.trigger.record (.unscheduled oid)))
  | .deleteJob oid => some (w.onTrigger (w.trigger.deleteJob oid))
  | .rescheduleLater oid time =>
      some (w.onTrigger (w.trigger.record (.rescheduledLater oid time)))
  | .scheduleNow oid => some (w.onTrigger (w.trigger.record (.scheduledNow oid)))
  | .nextFireTime oid => some (w.trigger.nextFireTime oid, w)
  | .schedulerRunning => some (w.trigger.running, w)
  | .now => some (w.now, w)
  | .newHandle oid =>
      some (⟨w.handles.length⟩, { w with handles := w.handles ++ [{ oid := oid }] })
  | .canRun h => some (w.canRun h, w)
  | .clearCanRun h => some ((), w.onHandle h fun s => { s with canRun := false })
  | .cancelChildren h abort =>
      some (((w.handle? h).map Handle.runningChildren).getD 0,
        w.onHandle h (Handle.cancelChildren abort))
  | .isSafe h => some ((w.handle? h).any (·.safe), w)
  | .setSafe h value => some ((), w.onHandle h fun s => { s with safe := value })
  | .setExecuting h value =>
      some ((), w.onHandle h fun s => { s with executing := value })
  | .interruptHandler h => some ((), w.onHandle h fun s => { s with interrupted := true })
  | .isInterrupted h => some (w.isInterrupted h, w)
  | .spawn h child => some (w.spawn h child)
  | .collect _ _ _ _ => none
  | .register h => some (w.register place h)
  | .deregister h => some (w.deregister place h)
  | .registered oid => some (w.registered place oid, w)
  | .registeredHandles => some ((w.site place).running.rows.map Prod.snd, w)
  | .shutDown => some ((), w.onSite place fun s => { s with shutDown := true })
  | .isShutDown => some ((w.site place).shutDown, w)
  | .notifyStarted oid recovering =>
      some ((), { w with listener := w.listener ++ [.started oid recovering] })
  | .notifyFinished oid status =>
      some ((), { w with listener := w.listener ++ [.finished oid status] })
  | .establish owner => some ((), { w with security := w.security.establish owner })
  | .clearIdentity => some ((), { w with security := w.security.clear })
  | .handler h oid r =>
      (w.performHandler h oid r).map fun (answer, w) => (some answer, w)

/-- Takes the children that nobody waits for yet. -/
def takePending (w : World) (h : HandleId) : List Nat × World :=
  (((w.handle? h).map Handle.pending).getD [], w.onHandle h Handle.takePending)

/-- Closes a taken child and gives its result, once there is one. -/
def closeTaken? (w : World) (h : HandleId) (i : Nat) :
    Option (OperationResult × World) := do
  let c ← w.child? h i
  let r ← c.result?
  some (r, w.onHandle h (Handle.closeChild c.id))

/-- Runs the work of a child by one answer, or to its end. -/
def stepChild? (w : World) (h : HandleId) (i : Nat) : Option World := do
  let c ← w.child? h i
  if c.aborted || c.ended.isSome then none
  else
    match c.work with
    | .done result => some (w.onChild h i fun c => { c with ended := some result })
    | .ask r next => do
        let (answer, w) ← w.performChild c.canRun r
        some (w.onChild h i fun c => { c with work := next answer })

end World

/-- Runs a program at a place by one call. Of a wait for children, one
step takes the children there are, or closes the next one taken. -/
def Program.step? {α : Type} (place : Place) :
    Program Calls α → World → Option (Program Calls α × World)
  | .done _, _ => none
  | .ask (.collect h result closed []) next, w =>
      match w.takePending h with
      | ([], _) => some (next (result, closed), w)
      | (batch, w) => some (.ask (.collect h result closed batch) next, w)
  | .ask (.collect h result closed (i :: batch)) next, w => do
      let (r, w) ← w.closeTaken? h i
      some (.ask (.collect h (result.addSubresult r) (closed + 1) batch) next, w)
  | .ask r next, w => do
      let (answer, w) ← w.perform place r
      some (next answer, w)

/-- A program of which the handler was interrupted while its call was pending. -/
def Program.interrupted? {α : Type} (w : World) :
    Program Calls α → Option (Program Calls α)
  | .ask (.handler h _ _) next => if w.isInterrupted h then some (next none) else none
  | _ => none

end TaskFiring
