/-!
The identity that work runs as. One context is shared by all firings of a process:
entering a scope sets the identity, leaving one clears it, whoever set it.
-/

namespace TaskFiring

def systemIdentity : String := "system"

structure Security where
  current : Option String := none
  /-- Every identity established so far. -/
  history : List String := []

namespace Security

def identityOf (owner : Option String) : String := owner.getD systemIdentity

def establish (s : Security) (owner : Option String) : Security :=
  { current := some (identityOf owner), history := s.history ++ [identityOf owner] }

def clear (s : Security) : Security := { s with current := none }

/-- Enters scopes one inside the other and leaves them all again. Gives the identity
seen inside each. -/
def nested (s : Security) : List (Option String) → List (Option String) × Security
  | [] => ([], s)
  | owner :: owners =>
      let inside := s.establish owner
      let (seen, after) := inside.nested owners
      (inside.current :: seen, after.clear)

end Security
end TaskFiring
