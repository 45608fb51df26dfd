import TaskFiring.Firing

/-!
What a node is put together from. Four collaborators must be given; the first one
missing, in a fixed order, is the one that is reported. The others have defaults.
-/

namespace TaskFiring

inductive Collaborator
  | store
  | trigger
  | handlers
  | security
  | listener
  | clock
  | ids
  deriving DecidableEq, Repr

namespace Collaborator

def all : List Collaborator :=
  [.store, .trigger, .handlers, .security, .listener, .clock, .ids]

def name : Collaborator → String
  | .store => "store"
  | .trigger => "trigger"
  | .handlers => "handlers"
  | .security => "security"
  | .listener => "listener"
  | .clock => "clock"
  | .ids => "ids"

def required : List Collaborator := [.store, .trigger, .handlers, .security]

def missing? (given : List Collaborator) : Option Collaborator :=
  required.find? (· ∉ given)

/-- What is reported of one that is missing. -/
def missingMessage (c : Collaborator) : String :=
  s!"missing collaborator: {c.name}. It must be set before build()."

end Collaborator

/-- A node with the settings, unless a collaborator is missing. -/
def Node.assemble (given : List Collaborator) (config : Config) :
    Except Collaborator Node :=
  match Collaborator.missing? given with
  | some c => .error c
  | none => .ok { config }

end TaskFiring
