import TaskFiring.Id
import TaskFiring.Json.Reader
import TaskFiring.Table
import TaskFiring.Text.Blank
import TaskFiring.Text.Natural
import TaskFiring.Text.Quoted

/-!
The settings of a node. They are read from JSON, where a missing key takes its
default, or from named variables, where the first faulty variable in a fixed order
is the one reported.
-/

namespace TaskFiring

/-- When to interrupt the handler itself besides clearing its leave to run. -/
inductive InterruptPolicy
  | always
  /-- Unless the handler is safe without. -/
  | maybe
  | never
  deriving DecidableEq, Repr

namespace InterruptPolicy

def all : List InterruptPolicy := [.always, .maybe, .never]

def name : InterruptPolicy → String
  | .always => "always"
  | .maybe => "maybe"
  | .never => "never"

private def folded (s : String) : String := (Text.trim s).map Char.toLower

def ofText? (s : String) : Option InterruptPolicy := all.find? (name · = folded s)

/-- What is said of a text that names no policy. -/
def unknownMessage (s : String) : String :=
  let word := folded s
  s!"unknown interrupt policy: {word}"

end InterruptPolicy

abbrev GroupLimits := Table (Prod.fst : String × UInt32 → String)

structure Config where
  nodeId : NodeId := ⟨"node-1"⟩
  /-- Read the task again before it starts and refuse if a node runs it. -/
  checkConcurrent : Bool := true
  interruptPolicy : InterruptPolicy := .never
  /-- Limits by group; they win over those of a task. -/
  groupLimits : GroupLimits := Table.empty
  /-- Seconds before a refused task is tried again, unless its constraints say. -/
  groupRetryAfter : UInt64 := 60
  /-- Rely on the next natural firing of a loose recurring task where it comes soon
  enough. -/
  regularBackoff : Bool := true

inductive ConfigError
  | invalidValue (key value reason : String)
  deriving DecidableEq

def ConfigError.message : ConfigError → String
  | .invalidValue key value reason =>
      let shown := Text.quoted value
      s!"invalid value {shown} for {key}: {reason}"

namespace Config

def withGroupLimit (c : Config) (group : String) (limit : UInt32) : Config :=
  { c with groupLimits := c.groupLimits.put (group, limit) }

def limit? (c : Config) (group : String) : Option UInt32 :=
  (c.groupLimits.find? group).map Prod.snd

def toJson (c : Config) : Json :=
  .record [
    ("node_id", .str c.nodeId.name),
    ("check_concurrent_execution", .bool c.checkConcurrent),
    ("interrupt_policy", .str c.interruptPolicy.name),
    ("group_limits", .record (c.groupLimits.rows.map fun (g, n) => (g, .nat n.toNat))),
    ("group_retry_after", .nat c.groupRetryAfter.toNat),
    ("regular_backoff", .bool c.regularBackoff)]

def limitOf? (member : Option String × Json) : Option (String × UInt32) := do
  some (← member.1, ← member.2.half?)

/-- Of a repeated group the last limit counts. -/
def limits? : Json → Option GroupLimits
  | .object members => (members.mapM limitOf?).map Table.ofList
  | _ => none

def fieldNames : List String :=
  ["node_id", "check_concurrent_execution", "interrupt_policy", "group_limits",
    "group_retry_after", "regular_backoff"]

def ofJson? (j : Json) : Option Config := do
  let c : Config := {}
  match ← j.fields? fieldNames with
  | [nodeId, checkConcurrent, policy, limits, retryAfter, backoff] =>
      some {
        nodeId := ← Json.withDefault c.nodeId (fun j => j.text?.map NodeId.mk) nodeId
        checkConcurrent := ← Json.withDefault c.checkConcurrent Json.bool? checkConcurrent
        interruptPolicy := ← Json.withDefault c.interruptPolicy
          (Json.case? InterruptPolicy.all InterruptPolicy.name) policy
        groupLimits := ← Json.withDefault c.groupLimits limits? limits
        groupRetryAfter := ← Json.withDefault c.groupRetryAfter Json.word? retryAfter
        regularBackoff := ← Json.withDefault c.regularBackoff Json.bool? backoff }
  | _ => none

def ofText? (s : String) : Option Config := (Json.parse s).bind ofJson?

def flag (key raw : String) : Except ConfigError Bool :=
  let word := (Text.trim raw).map Char.toLower
  if word ∈ ["1", "true", "yes", "on"] then .ok true
  else if word ∈ ["0", "false", "no", "off"] then .ok false
  else .error (.invalidValue key raw "expected a boolean")

def nodeIdOf (key raw : String) : Except ConfigError NodeId :=
  let name := Text.trim raw
  if name.isEmpty then .error (.invalidValue key raw "must not be empty")
  else .ok ⟨name⟩

def policyOf (key raw : String) : Except ConfigError InterruptPolicy :=
  match InterruptPolicy.ofText? raw with
  | some policy => .ok policy
  | none => .error (.invalidValue key raw "expected always, maybe or never")

def secondsOf (key raw : String) : Except ConfigError UInt64 :=
  match Text.natural UInt64.size (Text.trim raw) with
  | .ok n => .ok (UInt64.ofNat n)
  | .error fault => .error (.invalidValue key raw fault.message)

/-- The value of a variable, or the default where it is unset. -/
def setting {α : Type} (lookup : String → Option String) (default : α) (key : String)
    (read : String → String → Except ConfigError α) : Except ConfigError α :=
  match lookup key with
  | some raw => read key raw
  | none => .ok default

/-- Reads the variables in a fixed order. There is none for group limits. -/
def ofVariables (lookup : String → Option String) : Except ConfigError Config := do
  let c : Config := {}
  let nodeId ← setting lookup c.nodeId "SHUTTLE_NODE_ID" nodeIdOf
  let checkConcurrent ←
    setting lookup c.checkConcurrent "SHUTTLE_CHECK_CONCURRENT_EXECUTION" flag
  let interruptPolicy ←
    setting lookup c.interruptPolicy "SHUTTLE_INTERRUPT_POLICY" policyOf
  let groupRetryAfter ←
    setting lookup c.groupRetryAfter "SHUTTLE_GROUP_RETRY_AFTER_SECS" secondsOf
  let regularBackoff ← setting lookup c.regularBackoff "SHUTTLE_REGULAR_BACKOFF" flag
  .ok { c with nodeId, checkConcurrent, interruptPolicy, groupRetryAfter, regularBackoff }

end Config
end TaskFiring
