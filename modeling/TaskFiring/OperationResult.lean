import TaskFiring.Json.Record

/-!
The outcome of an operation, as a tree: a status, a message and the outcomes of the
parts. Also how the run of a handler ends, which decides the status recorded for it.
-/

namespace TaskFiring

inductive ResultStatus
  | inProgress
  | success
  | partialError
  | fatalError
  | interrupted
  deriving DecidableEq, Repr

namespace ResultStatus

def all : List ResultStatus :=
  [.inProgress, .success, .partialError, .fatalError, .interrupted]

def name : ResultStatus → String
  | .inProgress => "IN_PROGRESS"
  | .success => "SUCCESS"
  | .partialError => "PARTIAL_ERROR"
  | .fatalError => "FATAL_ERROR"
  | .interrupted => "INTERRUPTED"

def isFailure : ResultStatus → Bool
  | .fatalError | .partialError => true
  | _ => false

end ResultStatus

inductive OperationResult
  | node (operation : String) (status : ResultStatus) (message : Option String)
      (subresults : List OperationResult)

namespace OperationResult

def operation : OperationResult → String
  | .node operation _ _ _ => operation

def status : OperationResult → ResultStatus
  | .node _ status _ _ => status

def message : OperationResult → Option String
  | .node _ _ message _ => message

def subresults : OperationResult → List OperationResult
  | .node _ _ _ subresults => subresults

def new (operation : String) : OperationResult := .node operation .inProgress none []

def record (r : OperationResult) (status : ResultStatus) (message : Option String) :
    OperationResult :=
  .node r.operation status message r.subresults

/-- Sets the status and leaves the message. -/
def recordSuccess (r : OperationResult) : OperationResult :=
  .node r.operation .success r.message r.subresults

def recordFatal (r : OperationResult) (message : String) : OperationResult :=
  r.record .fatalError (some message)

def addSubresult (r sub : OperationResult) : OperationResult :=
  .node r.operation r.status r.message (r.subresults ++ [sub])

/-- Settles a result that is still open by those of its parts. -/
def computeStatus (r : OperationResult) : OperationResult :=
  if r.status = .inProgress then
    let failed := r.subresults.any fun s => s.status.isFailure
    .node r.operation (if failed then .partialError else .success) r.message r.subresults
  else r

/-- Settles the part at an index. -/
def computeSubresult (r : OperationResult) (index : Nat) : OperationResult :=
  .node r.operation r.status r.message (r.subresults.modify index computeStatus)

def isFatal (r : OperationResult) : Bool := r.status = .fatalError

mutual

def beq : OperationResult → OperationResult → Bool
  | .node o s m rs, .node o' s' m' rs' => o = o' && s = s' && m = m' && beqList rs rs'

def beqList : List OperationResult → List OperationResult → Bool
  | [], [] => true
  | r :: rs, r' :: rs' => beq r r' && beqList rs rs'
  | _, _ => false

end

mutual

theorem eq_of_beq : ∀ {r r' : OperationResult}, beq r r' = true → r = r'
  | .node o s m rs, .node o' s' m' rs', h => by
      simp only [beq, Bool.and_eq_true, decide_eq_true_eq] at h
      obtain ⟨⟨⟨rfl, rfl⟩, rfl⟩, h⟩ := h
      rw [eq_of_beqList h]

theorem eq_of_beqList :
    ∀ {rs rs' : List OperationResult}, beqList rs rs' = true → rs = rs'
  | [], [], _ => rfl
  | [], _ :: _, h => by simp [beqList] at h
  | _ :: _, [], h => by simp [beqList] at h
  | r :: rs, r' :: rs', h => by
      simp only [beqList, Bool.and_eq_true] at h
      rw [eq_of_beq h.1, eq_of_beqList h.2]

end

mutual

theorem beq_refl : ∀ r : OperationResult, beq r r = true
  | .node o s m rs => by simp [beq, beqList_refl rs]

theorem beqList_refl : ∀ rs : List OperationResult, beqList rs rs = true
  | [] => rfl
  | r :: rs => by simp [beqList, beq_refl r, beqList_refl rs]

end

instance : DecidableEq OperationResult := fun r r' =>
  if h : beq r r' = true then isTrue (eq_of_beq h)
  else isFalse fun e => h (e ▸ beq_refl r)

mutual

def toJson : OperationResult → Json
  | .node operation status message subresults =>
      .record ([("operation", .str operation), ("status", .str status.name)]
        ++ (message.map fun m => ("message", .str m)).toList
        ++ (if subresults.isEmpty then []
            else [("subresults", .array (toJsonList subresults))]))

def toJsonList : List OperationResult → List Json
  | [] => []
  | r :: rs => toJson r :: toJsonList rs

end

def fieldNames : List String := ["operation", "status", "message", "subresults"]

/-- A status may come in a container of its own where there is room for one. -/
def statusOfJson? (room : Nat) (j : Json) : Option ResultStatus :=
  match room, j with
  | 0, .object _ => none
  | _, j => j.case? ResultStatus.all ResultStatus.name

mutual

/-- Reads a tree that may nest `room` containers, itself included. -/
def ofJson? : Nat → Json → Option OperationResult
  | 0, _ => none
  | room + 1, j => do
      match ← j.fields? fieldNames with
      | [operation, status, message, subresults] =>
          some (.node
            (← Json.required Json.text? operation)
            (← Json.required (statusOfJson? room) status)
            (← Json.optional Json.text? message)
            (← Json.withDefault [] (listOfJson? room) subresults))
      | _ => none

def listOfJson? : Nat → Json → Option (List OperationResult)
  | 0, _ => none
  | room + 1, j => j.list? (ofJson? room)

end

end OperationResult

/-- How the run of a handler ended. -/
inductive RunStatus
  | finished
  | temporaryError
  | permanentError
  | interrupted
  deriving DecidableEq, Repr

namespace RunStatus

def all : List RunStatus := [.finished, .temporaryError, .permanentError, .interrupted]

def name : RunStatus → String
  | .finished => "FINISHED"
  | .temporaryError => "TEMPORARY_ERROR"
  | .permanentError => "PERMANENT_ERROR"
  | .interrupted => "INTERRUPTED"

def resultStatus : RunStatus → ResultStatus
  | .finished => .success
  | .temporaryError => .partialError
  | .permanentError => .fatalError
  | .interrupted => .interrupted

end RunStatus

structure HandlerOutcome where
  status : RunStatus
  message : Option String
  deriving DecidableEq

def HandlerOutcome.finished : HandlerOutcome := ⟨.finished, none⟩

def HandlerOutcome.interrupted : HandlerOutcome := ⟨.interrupted, none⟩

end TaskFiring
