import TaskFiring.Json.Reader
import TaskFiring.Task

/-!
The JSON form of a task record. All fields are written, absent ones as null. Only
the identifier, the name, the handler and the two states must be there to be read.
-/

namespace TaskFiring

namespace GroupConstraint

def toJson (g : GroupConstraint) : Json :=
  .record [("group", .str g.group), ("limit", .option (fun n => .nat n.toNat) g.limit)]

def ofJson? (j : Json) : Option GroupConstraint := do
  match ← j.fields? ["group", "limit"] with
  | [group, limit] =>
      some ⟨← Json.required Json.text? group, ← Json.optional Json.half? limit⟩
  | _ => none

end GroupConstraint

namespace Constraints

def toJson (c : Constraints) : Json :=
  .record [
    ("groups", .list GroupConstraint.toJson c.groups),
    ("retry_after_secs", .option (fun n => .nat n.toNat) c.retryAfter)]

def ofJson? (j : Json) : Option Constraints := do
  match ← j.fields? ["groups", "retry_after_secs"] with
  | [groups, retryAfter] =>
      some ⟨← Json.required (Json.list? GroupConstraint.ofJson?) groups,
        ← Json.optional Json.word? retryAfter⟩
  | _ => none

end Constraints

namespace Task

def toJson (t : Task) : Json :=
  .record [
    ("oid", t.oid.toJson),
    ("name", .str t.name),
    ("version", .nat t.version.toNat),
    ("parent", .option Id.toJson t.parent),
    ("owner", .option .str t.owner),
    ("handler_ref", .str t.handlerRef),
    ("scheduling_state", .str t.scheduling.name),
    ("execution_state", .str t.execution.name),
    ("node", .option (fun n => .str n.name) t.node),
    ("thread_stop_action", .option (fun a => .str a.text) t.stopAction),
    ("recurring", .bool t.recurring),
    ("binding", .str t.binding.name),
    ("execution_constraints", .option Constraints.toJson t.constraints),
    ("result", .option OperationResult.toJson t.result),
    ("completed_at", .option (fun time => .str time.stamp) t.completedAt)]

def fieldNames : List String :=
  ["oid", "name", "version", "parent", "owner", "handler_ref", "scheduling_state",
    "execution_state", "node", "thread_stop_action", "recurring", "binding",
    "execution_constraints", "result", "completed_at"]

def ofJson? (j : Json) : Option Task := do
  match ← j.fields? fieldNames with
  | [oid, name, version, parent, owner, handlerRef, scheduling, execution, node,
      stopAction, recurring, binding, constraints, result, completedAt] =>
      some {
        oid := ← Json.required Id.ofJson? oid
        name := ← Json.required Json.text? name
        version := ← Json.withDefault 0 Json.word? version
        parent := ← Json.optional Id.ofJson? parent
        owner := ← Json.optional Json.text? owner
        handlerRef := ← Json.required Json.text? handlerRef
        scheduling :=
          ← Json.required (Json.case? SchedulingState.all SchedulingState.name) scheduling
        execution :=
          ← Json.required (Json.case? ExecutionState.all ExecutionState.name) execution
        node := ← Json.optional (fun j => j.text?.map NodeId.mk) node
        stopAction := ← Json.optional (fun j => j.text?.map StopAction.ofText) stopAction
        recurring := ← Json.withDefault false Json.bool? recurring
        binding := ← Json.withDefault .loose (Json.case? Binding.all Binding.name) binding
        constraints := ← Json.optional Constraints.ofJson? constraints
        result :=
          ← Json.optional (OperationResult.ofJson? (Json.maxNesting - 1)) result
        completedAt := ←
          Json.optional (fun j => j.text?.bind Instant.ofStamp?) completedAt }
  | _ => none

/-- Reads the text of one record. -/
def ofText? (s : String) : Option Task := (Json.parse s).bind ofJson?

end Task

/-- Reads the text of one result tree. -/
def OperationResult.ofText? (s : String) : Option OperationResult :=
  (Json.parse s).bind (OperationResult.ofJson? Json.maxNesting)

end TaskFiring
