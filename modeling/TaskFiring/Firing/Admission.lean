import TaskFiring.Call
import TaskFiring.Config

/-!
Admission by group limits. A task whose groups have no room left does not run: it
waits for its trigger's next natural firing where that comes soon enough, and is
rescheduled otherwise. Neither touches the record.
-/

namespace TaskFiring
namespace Admission

/-- A group that is at its limit or over it. -/
structure Saturation where
  group : String
  running : Nat
  limit : UInt32
  deriving DecidableEq

inductive Decision
  | allowed
  /-- Refused until a time, which is the trigger's own next one if `regular`. -/
  | refused (saturated : List Saturation) (retryAt : Instant) (regular : Bool)

/-- The limit of the configuration wins over the one of the task. -/
def limitFor (config : Config) (g : GroupConstraint) : Option UInt32 :=
  (config.limit? g.group).or g.limit

/-- The groups without room, in order. Those without a limit are not counted. -/
def saturated (config : Config) (oid : TaskOid) :
    List GroupConstraint → Step (List Saturation)
  | [] => pure []
  | g :: gs => do
      match limitFor config g with
      | none => saturated config oid gs
      | some limit =>
          let running ← orStop (call (.countRunning g.group oid)) fun e =>
            .unexpected s!"couldn't count running tasks in group {g.group}" (.store e)
          let rest ← saturated config oid gs
          if limit.toNat ≤ running then return ⟨g.group, running, limit⟩ :: rest
          else return rest

/-- The longest delay, in seconds, that the calendar adds at all. -/
def longestDelay : Nat := Int64.maxValue.toNatClampNeg / 1000

/-- The time that many seconds from now, or the last one there is. -/
def retryTime (now : Instant) (seconds : UInt64) : Instant :=
  if seconds.toNat ≤ longestDelay then (now.later? seconds.toNat).getD .max else .max

/-- The delay of the constraints, or else of the configuration. -/
def delayFor (config : Config) (constraints : Constraints) : UInt64 :=
  constraints.retryAfter.getD config.groupRetryAfter

/-- The next natural firing, if it may be relied upon and comes by then. -/
def naturalRefire? (config : Config) (t : Task) (latest : Instant) :
    Action (Option Instant) := do
  if !config.regularBackoff || !t.isLooselyRecurring then return none
  match ← call (.nextFireTime t.oid) with
  | .ok (some next) => return if next.le latest then some next else none
  | _ => return none

def check (config : Config) (t : Task) (constraints : Option Constraints) :
    Step Decision := do
  match constraints with
  | none => return .allowed
  | some constraints =>
      match ← saturated config t.oid constraints.groups with
      | [] => return .allowed
      | full =>
          let retryAt := retryTime (← call .now) (delayFor config constraints)
          match ← naturalRefire? config t retryAt with
          | some next => return .refused full next true
          | none => return .refused full retryAt false

def Saturation.text (s : Saturation) : String := s!"{s.group} ({s.running}/{s.limit})"

/-- What a refused firing reports. -/
def refusal (t : Task) (full : List Saturation) (retryAt : Instant) : Stop :=
  let groups := ", ".intercalate (full.map Saturation.text)
  .info
    (s!"task {t.display} not started, group limit reached: {groups}; "
      ++ s!"next attempt at {retryAt.display}")

/-- Goes on if the task is admitted. Otherwise stops, after rescheduling the task
unless its trigger is relied upon. -/
def enforce (config : Config) (t : Task) (constraints : Option Constraints) :
    Step Unit := do
  match ← check config t constraints with
  | .allowed => return ()
  | .refused full retryAt regular =>
      if !regular then
        orStop (call (.rescheduleLater t.oid retryAt)) fun e =>
          .unexpected
            (s!"couldn't reschedule task {t.display} "
              ++ "(rescheduled because of execution constraints)")
            (.trigger e)
      throw (refusal t full retryAt)

end Admission
end TaskFiring
