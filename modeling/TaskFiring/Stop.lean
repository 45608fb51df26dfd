import TaskFiring.Error
import TaskFiring.OperationResult

/-!
Stopping a firing early. Every early exit is a `Stop`, with the severity at which it
is reported. What the caller of a firing gets is a report, or an error if the stop
has a cause and is at least an error, or if the handler failed.
-/

namespace TaskFiring

inductive Severity
  | info
  | warning
  | error
  | unexpectedError
  deriving DecidableEq, Repr

namespace Severity

def all : List Severity := [.info, .warning, .error, .unexpectedError]

def name : Severity → String
  | .info => "INFO"
  | .warning => "WARNING"
  | .error => "ERROR"
  | .unexpectedError => "UNEXPECTED_ERROR"

def display : Severity → String
  | .info => "info"
  | .warning => "warning"
  | .error => "error"
  | .unexpectedError => "unexpected error"

def rank : Severity → Nat
  | .info => 0
  | .warning => 1
  | .error => 2
  | .unexpectedError => 3

def le (a b : Severity) : Bool := a.rank ≤ b.rank

def sorted (ss : List Severity) : List Severity := ss.mergeSort le

end Severity

structure Stop where
  severity : Severity
  reason : String
  cause : Option Cause := none
  deriving DecidableEq

/-- The benign ends of a firing. -/
inductive FiringReport
  | completed (oid : TaskOid) (status : ResultStatus)
  | halted (severity : Severity) (reason : String)
  deriving DecidableEq

inductive FiringError
  | stopped (severity : Severity) (reason : String) (cause : Cause)
  | handler (oid : TaskOid) (source : HandlerError)
  deriving DecidableEq

abbrev FiringOutcome := Except FiringError FiringReport

def FiringReport.isCompleted : FiringReport → Bool
  | .completed _ _ => true
  | .halted _ _ => false

def FiringError.message : FiringError → String
  | .stopped severity reason _ => s!"firing stopped ({severity.display}): {reason}"
  | .handler oid _ => s!"handler of task {oid.display} failed"

/-- The level of a line in the log. -/
inductive LogLevel
  | info
  | warn
  | error
  deriving DecidableEq

def LogLevel.name : LogLevel → String
  | .info => "INFO"
  | .warn => "WARN"
  | .error => "ERROR"

structure LogLine where
  level : LogLevel
  fields : List (String × String)

namespace Stop

def info (reason : String) : Stop := ⟨.info, reason, none⟩

def warning (reason : String) : Stop := ⟨.warning, reason, none⟩

def error (reason : String) (cause : Cause) : Stop := ⟨.error, reason, some cause⟩

def unexpected (reason : String) (cause : Cause) : Stop :=
  ⟨.unexpectedError, reason, some cause⟩

def display (s : Stop) : String := s!"{s.severity.display}: {s.reason}"

/-- The line that a stop leaves in the log. Severity and cause are told from errors
upwards only. -/
def logLine (s : Stop) : LogLine :=
  let basic := [("message", "firing stopped"), ("reason", s.reason)]
  let detail := [("severity", s.severity.display)]
    ++ (s.cause.map fun c => ("error", c.message)).toList
  match s.severity with
  | .info => ⟨.info, basic⟩
  | .warning => ⟨.warn, basic⟩
  | .error | .unexpectedError => ⟨.error, basic ++ detail⟩

def outcome (s : Stop) : FiringOutcome :=
  match s.cause with
  | some cause =>
      if Severity.error.le s.severity then .error (.stopped s.severity s.reason cause)
      else .ok (.halted s.severity s.reason)
  | none => .ok (.halted s.severity s.reason)

end Stop
end TaskFiring
