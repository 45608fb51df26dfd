import TaskFiring.Firing
import TaskFiring.Scenario.Fault

/-!
A bench for firings: one world, faults in front of its store, and a queue of work
that is run one piece at a time. A piece runs until it is over or has to wait; work
that waits comes back at the end of the queue when what it waits for has come about.
-/

namespace TaskFiring.Scenario

/-- What a piece of work comes to. -/
inductive Answer
  | fired (outcome : FiringOutcome)
  | collected (result : OperationResult) (closed : Nat)
  | ran (ended : HandlerEnd)

/-- A program under way, with the act that holds back its pending call, if any. -/
structure Thread where
  label : String
  place : Place
  program : Action Answer
  held : Option FaultAct := none

/-- Who can be in the queue: a thread, or a child of a handle by its position. -/
inductive Actor
  | thread (index : Nat)
  | child (h : HandleId) (position : Nat)
  deriving DecidableEq

structure Bench where
  world : World
  faults : List Fault := []
  threads : List Thread := []
  queue : List Actor := []
  /-- Those that wait for a gate, in the order in which they began to. -/
  waiting : List Actor := []
  /-- Threads over since the last step, with their answers. -/
  finished : List (String × Answer) := []

namespace Bench

def enqueue (b : Bench) (a : Actor) : Bench :=
  if a ∈ b.queue then b else { b with queue := b.queue ++ [a] }

/-- Queues the threads whose pending call fits. -/
def wake (b : Bench) (fits : Call → Bool) : Bench :=
  (List.range b.threads.length).foldl (fun b i =>
    match (b.threads[i]?).map Thread.program with
    | some (.ask r _) => if fits r then b.enqueue (.thread i) else b
    | _ => b) b

/-- The call waits for that child of that handle. -/
def awaitsChild (h : HandleId) (i : Nat) : Call → Bool
  | .collect h' _ _ (i' :: _) => h = h' && i = i'
  | _ => false

/-- The call is one that an interrupt of that handle ends. -/
def endsOnInterrupt (h : HandleId) : Call → Bool
  | .handler h' _ _ => h = h'
  | _ => false

/-- The positions of the children that cancelling would reach. -/
def cancellable (w : World) (h : HandleId) : List Nat :=
  let children := ((w.handle? h).map Handle.children).getD []
  (List.range children.length).filter fun i => children[i]?.any (·.state = .running)

/-- Queues what a call that was just answered has brought about. -/
def rouse (before : World) (b : Bench) : Call → Bench
  | .spawn h _ | .handler h _ (.spawn _) =>
      b.enqueue (.child h (((before.handle? h).map Handle.children).getD []).length)
  | .cancelChildren h _ =>
      (cancellable before h).foldl (fun b i => b.wake (awaitsChild h i)) b
  | .interruptHandler h => b.wake (endsOnInterrupt h)
  | _ => b

/-- Answers a call behind the faults, which have had their turn. -/
def perform (b : Bench) (place : Place) (r : Call) : Option r.Response × Bench :=
  match b.world.perform place r with
  | some (answer, w) => (some answer, rouse b.world { b with world := w } r)
  | none => (none, b)

/-- Lets an act take its course on a call. -/
def act (b : Bench) (place : Place) (r : Call) (oid : TaskOid) (act : FaultAct) :
    Option r.Response × Bench :=
  let b := { b with world := act.disturb oid b.world }
  match act.failure.bind fun f => failed? r (f.error oid) with
  | some answer => (some answer, b)
  | none => b.perform place r

/-- Answers a call, or gives the act that holds it back. -/
def answer (b : Bench) (place : Place) (r : Call) (held : Option FaultAct) :
    Option r.Response × Option FaultAct × Bench :=
  match storeCall? r with
  | none =>
      let (answer, b) := b.perform place r
      (answer, none, b)
  | some c =>
      let (met, b) := match held with
        | some act => (some act, b)
        | none =>
            let (met, faults) := takeFault c b.faults
            (met, { b with faults })
      match met with
      | none =>
          let (answer, b) := b.perform place r
          (answer, none, b)
      | some act =>
          if act.holds b.world then (none, some act, b)
          else
            let (answer, b) := b.act place r c.oid act
            (answer, none, b)

/-- Closes taken children in order, as far as they are through. -/
def closeTaken (h : HandleId) :
    List Nat → OperationResult → Nat → World → List Nat × OperationResult × Nat × World
  | [], result, closed, w => ([], result, closed, w)
  | i :: batch, result, closed, w =>
      match w.closeTaken? h i with
      | some (r, w) => closeTaken h batch (result.addSubresult r) (closed + 1) w
      | none => (i :: batch, result, closed, w)

/-- Closes taken children and then those spawned meanwhile. Closing spawns nobody, so
one more look is enough. -/
def closeAll (h : HandleId) (batch : List Nat) (result : OperationResult) (closed : Nat)
    (w : World) : List Nat × OperationResult × Nat × World :=
  match closeTaken h batch result closed w with
  | ([], result, closed, w) =>
      let (batch, w) := w.takePending h
      closeTaken h batch result closed w
  | rest => rest

/-- Runs a program from a place until it is over or has to wait. -/
def slice {α : Type} (place : Place) :
    Action α → Option FaultAct → Bench → Action α × Option FaultAct × Bench
  | .done a, _, b => (.done a, none, b)
  | .ask (.collect h result closed batch) next, _, b =>
      match closeAll h batch result closed b.world with
      | ([], result, closed, w) =>
          slice place (next (result, closed)) none { b with world := w }
      | (batch, result, closed, w) =>
          (.ask (.collect h result closed batch) next, none, { b with world := w })
  | .ask r next, held, b =>
      match b.answer place r held with
      | (some answer, _, b) => slice place (next answer) none b
      | (none, held, b) => (.ask r next, held, b)

/-- Runs a program at once. There is no result if it has to wait. -/
def runNow {α : Type} (b : Bench) (place : Place) (program : Action α) :
    Option α × Bench :=
  match slice place program none b with
  | (.done a, _, b) => (some a, b)
  | (_, _, b) => (none, b)

/-- Runs the work of a child until it is over or has to wait. -/
def sliceChild (canRun : Bool) : ChildWork → World → ChildWork × World
  | .done result, w => (.done result, w)
  | .ask r next, w =>
      match w.performChild canRun r with
      | some (answer, w) => sliceChild canRun (next answer) w
      | none => (.ask r next, w)

/-- Whether a pending call waits for a gate, and for which. -/
def gateOf : Call → Option (HandleId × Wait)
  | .handler h _ (.wait w) => some (h, w)
  | _ => none

def pendingWait : Action Answer → Option (HandleId × Wait)
  | .ask r _ => gateOf r
  | .done _ => none

def runThread (b : Bench) (i : Nat) : Bench :=
  match b.threads[i]? with
  | none => b
  | some t =>
      let (program, held) := match t.program.interrupted? b.world with
        | some program => (program, none)
        | none => (t.program, t.held)
      let (program, held, b) := slice t.place program held b
      let b := { b with threads := b.threads.set i { t with program, held } }
      match program with
      | .done answer => { b with finished := b.finished ++ [(t.label, answer)] }
      | .ask _ _ =>
          if held.isSome || (pendingWait program).isSome then
            { b with waiting := b.waiting ++ [.thread i] }
          else b

def runChild (b : Bench) (h : HandleId) (i : Nat) : Bench :=
  match b.world.child? h i with
  | none => b
  | some c =>
      if c.aborted || c.ended.isSome then b
      else
        let (work, w) := sliceChild c.canRun c.work b.world
        match work with
        | .done result =>
            let w := w.onChild h i fun c => { c with work, ended := some result }
            { b with world := w }.wake (awaitsChild h i)
        | .ask _ _ =>
            { b with
              world := w.onChild h i fun c => { c with work }
              waiting := b.waiting ++ [.child h i] }

def runActor (b : Bench) (a : Actor) : Bench :=
  let b := { b with waiting := b.waiting.filter (· ≠ a) }
  match a with
  | .thread i => b.runThread i
  | .child h i => b.runChild h i

/-- Runs the queue until nothing can go on, for at most that many pieces. -/
def drain : Nat → Bench → Bench
  | 0, b => b
  | fuel + 1, b =>
      match b.queue with
      | [] => b
      | a :: queue => drain fuel ({ b with queue }.runActor a)

/-- Whether the gate that an actor waits for lets it pass now. -/
def mayPass (b : Bench) : Actor → Bool
  | .thread i =>
      (b.threads[i]?).any fun t =>
        match t.held, pendingWait t.program with
        | some act, _ => !act.holds b.world
        | none, some (h, wait) => b.world.waitIsOver (b.world.canRun h) wait
        | none, none => false
  | .child h i =>
      (b.world.child? h i).any fun c =>
        match c.work with
        | .ask (.wait wait) _ => b.world.waitIsOver c.canRun wait
        | _ => false

/-- Queues all who wait for a gate and may pass now, in the order of waiting. -/
def look (b : Bench) : Bench :=
  (b.waiting.filter b.mayPass).foldl enqueue
    { b with waiting := b.waiting.filter fun a => !b.mayPass a }

/-- Starts a program; it runs when its turn comes. -/
def begin (b : Bench) (label : String) (place : Place) (program : Action Answer) :
    Bench :=
  let thread : Thread := { label, place, program }
  { b with threads := b.threads ++ [thread] }.enqueue (.thread b.threads.length)

/-- The labels of threads that are not over, in order. -/
def unfinished (b : Bench) : List String :=
  (b.threads.filterMap fun t =>
    match t.program with
    | .done _ => none
    | .ask _ _ => some t.label).mergeSort

end Bench
end TaskFiring.Scenario
