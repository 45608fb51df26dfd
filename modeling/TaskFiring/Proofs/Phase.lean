import TaskFiring.Firing
import TaskFiring.Proofs.Conduct
import TaskFiring.World

/-!
The course of a firing as the task store and the registry of its node see it. A firing
is in one of a few phases, and `Phase.Move` lists every call by which it may write its
task, take or leave its place in the registry, or learn what such a call depends on.
All other calls keep aside of both.
-/

namespace TaskFiring

/-- An occasion on which a task is fired. -/
structure Occasion where
  node : Node
  place : Place
  oid : TaskOid
  recovering : Bool

def Occasion.program (f : Occasion) : Action FiringOutcome :=
  f.node.fire f.oid f.recovering

abbrev Occasion.nodeId (f : Occasion) : NodeId := f.node.config.nodeId

/-- What a firing is about to write into its task by way of administration or in letting
go of it, with the copy of the record that it goes by. -/
inductive Errand
  | none
  /-- The stop action of the task asks for this. -/
  | bound (d : StopDirective)
  | closing (read : Task)
  | suspending (read : Task)
  | settling (read : Task)

/-- Whether a firing was turned away before it took its task, holds it, or is done with it
under the handle by which it is registered. -/
inductive Tenure
  | refused
  | held (h : HandleId)
  | ended (h : HandleId)

inductive Phase
  | outset
  | loaded (t : Task)
  /-- The record was left by a dead run. -/
  | repairing (t : Task)
  | prepared (t : Task)
  | admitted (t : Task) (h : HandleId)
  /-- No node was seen to run the task, or nobody was to look. -/
  | guarded (t : Task) (h : HandleId)
  | registered (t : Task) (h : HandleId)
  | busy (w : Tenure) (e : Errand)
  | gone

namespace Call

/-- Calls that neither write a task nor touch the registry, and are not the handler's. -/
def IsAside : Call → Prop
  | .modify _ _ _ | .register _ | .deregister _ | .shutDown | .isInterrupted _
  | .handler _ _ _ => False
  | _ => True

/-- Calls by which a firing looks around before it takes its task, or puts it off. -/
def IsInquiry : Call → Prop
  | .get _ | .countRunning _ _ | .nextFireTime _ | .now | .rescheduleLater _ _ => True
  | _ => False

theorem IsInquiry.aside {r : Call} (h : r.IsInquiry) : r.IsAside := by
  cases r with
  | get | countRunning | nextFireTime | now | rescheduleLater => trivial
  | _ => cases h

/-- Calls that may change the store. -/
def MayWrite : Call → Prop
  | .modify _ _ _ | .handler _ _ _ => True
  | _ => False

/-- A store gives the record that was asked for. -/
def Fair : (r : Call) → r.Response → Prop
  | .get oid, .ok t | .modify oid _ _, .ok t => t.oid = oid
  | _, _ => True

end Call

namespace Task

/-- What the stop action asks of a firing that was halted. -/
def halting (t : Task) : Except UnknownStopAction StopDirective :=
  StopDirective.resolve t.stopAction .halting t.recurring t.binding

/-- What the stop action asks of a firing that recovers a dead run. -/
def recovery (t : Task) : Except UnknownStopAction StopDirective :=
  StopDirective.resolve t.stopAction .recovering t.recurring t.binding

end Task

namespace Phase

/-- A firing reads the record in order to close or suspend the task when the stop action
says so. While it holds the task, its handler may have said so as well. -/
def Reads (d : StopDirective) : Tenure → Errand → Prop
  | _, .bound d' => d' = d
  | .held _, .none => True
  | _, _ => False

section

variable (f : Occasion) (allowed : HandlerCall → Prop)

/-- The moves of a firing whose handlers keep to the calls allowed. -/
inductive Move : Protocol Calls Phase
  | aside {s : Phase} {r : Call} {a : r.Response} : r.IsAside → Move s r a s
  | load {t : Task} : Move .outset (.get f.oid) (.ok t) (.loaded t)
  | spare {t : Task} {found : Option HandleId} : t.isReady →
      Preparation.isLive t f.nodeId found.isSome f.recovering ∨ Preparation.isClean t →
      Move (.loaded t) (.registered f.oid) found (.prepared t)
  | doubt {t : Task} {found : Option HandleId} : t.isReady →
      ¬ Preparation.isLive t f.nodeId found.isSome f.recovering →
      Move (.loaded t) (.registered f.oid) found (.repairing t)
  | repair {t t' : Task} :
      Move (.repairing t) (.modify f.oid Preparation.repairDelta (.version t.version))
        (.ok t') (.prepared t')
  | notRepaired {t : Task} {e : StoreError} :
      Move (.repairing t) (.modify f.oid Preparation.repairDelta (.version t.version))
        (.error e) .gone
  | halt {t : Task} : Move (.prepared t) .schedulerRunning false (.busy .refused .none)
  | recoverClosing {t read : Task} : f.recovering → t.recovery = .ok .close →
      Move (.prepared t) (.get f.oid) (.ok read) (.busy .refused (.closing read))
  | recoverSuspending {t read : Task} : f.recovering → t.recovery = .ok .suspend →
      Move (.prepared t) (.get f.oid) (.ok read) (.busy .refused (.suspending read))
  | enter {t : Task} {h : HandleId} :
      Move (.prepared t) (.newHandle f.oid) h
        (if f.node.config.checkConcurrent then .admitted t h else .guarded t h)
  | look {t fresh : Task} {h : HandleId} : fresh.runningOn? = none →
      Move (.admitted t h) (.get f.oid) (.ok fresh) (.guarded t h)
  | register {t : Task} {h : HandleId} :
      Move (.guarded t h) (.register h) true (.registered t h)
  | notRegistered {t : Task} {h : HandleId} :
      Move (.guarded t h) (.register h) false .gone
  | start {t t' : Task} {h : HandleId} :
      Move (.registered t h)
        (.modify f.oid (Possession.runningDelta f.nodeId) (.version t.version)) (.ok t')
        (.busy (.held h) .none)
  | notStarted {t : Task} {h : HandleId} {e : StoreError} :
      Move (.registered t h)
        (.modify f.oid (Possession.runningDelta f.nodeId) (.version t.version)) (.error e)
        (.busy (.ended h) .none)
  | invoke {h : HandleId} {a : Bool} :
      Move (.busy (.held h) .none) (.isInterrupted h) a (.busy (.held h) .none)
  | handler {h : HandleId} {call : HandlerCall} {a : Option call.Response} :
      allowed call →
      Move (.busy (.held h) .none) (.handler h f.oid call) a (.busy (.held h) .none)
  | decide {w : Tenure} {t : Task} {d : StopDirective} : (∀ h, w ≠ .held h) →
      t.isReady → t.halting = .ok d →
      Move (.busy w .none) (.get f.oid) (.ok t) (.busy w (.bound d))
  | readToClose {w : Tenure} {e : Errand} {t : Task} : Reads .close w e →
      Move (.busy w e) (.get f.oid) (.ok t) (.busy w (.closing t))
  | readToSuspend {w : Tenure} {e : Errand} {t : Task} : Reads .suspend w e →
      Move (.busy w e) (.get f.oid) (.ok t) (.busy w (.suspending t))
  | forget {w : Tenure} {d : StopDirective} {err : StoreError} :
      Move (.busy w (.bound d)) (.get f.oid) (.error err) (.busy w .none)
  | close {w : Tenure} {t : Task} {now : Instant} {a : Except StoreError Task} :
      Move (.busy w (.closing t))
        (.modify f.oid (Administration.closingDelta t now) .always) a (.busy w .none)
  | suspend {w : Tenure} {t : Task} {a : Except StoreError Task} :
      Move (.busy w (.suspending t))
        (.modify f.oid (Administration.suspendingDelta t) .always) a (.busy w .none)
  | wake {w : Tenure} {d : StopDirective} {a : Except StoreError Task} :
      d = .rescheduleNow ∨ d = .resume →
      Move (.busy w (.bound d)) (.modify f.oid { scheduling := some .ready } .always) a
        (.busy w .none)
  | record {w : Tenure} {result : OperationResult} {a : Except StoreError Task} :
      Move (.busy w .none) (.modify f.oid { result := some result } .always) a
        (.busy w .none)
  | readToSettle {h : HandleId} {e : Errand} {t : Task} :
      Move (.busy (.held h) e) (.get f.oid) (.ok t) (.busy (.held h) (.settling t))
  | giveUp {h : HandleId} {e : Errand} {err : StoreError} :
      Move (.busy (.held h) e) (.get f.oid) (.error err) (.busy (.ended h) .none)
  | settle {h : HandleId} {t t' : Task} {p : Precondition} :
      p = .scheduling t.scheduling ∨ p = .always →
      Move (.busy (.held h) (.settling t)) (.modify f.oid (Possession.settlingDelta t) p)
        (.ok t') (.busy (.ended h) .none)
  | notSettled {h : HandleId} {t : Task} {e : StoreError} :
      Move (.busy (.held h) (.settling t))
        (.modify f.oid (Possession.settlingDelta t) (.scheduling t.scheduling)) (.error e)
        (.busy (.held h) (.settling t))
  | neverSettled {h : HandleId} {t : Task} {e : StoreError} :
      Move (.busy (.held h) (.settling t))
        (.modify f.oid (Possession.settlingDelta t) .always) (.error e)
        (.busy (.ended h) .none)
  | deregister {h : HandleId} {a : Bool} :
      Move (.busy (.ended h) .none) (.deregister h) a .gone

end

end Phase
end TaskFiring
