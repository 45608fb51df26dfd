import TaskFiring.Error
import TaskFiring.Table
import TaskFiring.Task

/-!
The task store. Every write raises the version of the record by one and may be
conditional on the version or on the scheduling state; a call that fails leaves the
store as it was. A task belongs to the groups of its own constraints or, without
any, to those of the root of its hierarchy.
-/

namespace TaskFiring

inductive Precondition
  | always
  | version (expected : UInt64)
  | scheduling (expected : SchedulingState)
  deriving DecidableEq

/-- The bound on a set of visited tasks past which a hierarchy is not followed. -/
def maxHierarchyDepth : Nat := 64

structure Store where
  tasks : Table Task.oid := Table.empty
  available : Bool := true

namespace Store

def find? (s : Store) (oid : TaskOid) : Option Task := s.tasks.find? oid

def get (s : Store) (oid : TaskOid) : Except StoreError Task :=
  if s.available then
    match s.find? oid with
    | some t => .ok t
    | none => .error (.notFound oid)
  else .error .unavailable

/-- Why a record does not meet a precondition. -/
def violation? (t : Task) : Precondition → Option StoreError
  | .always => none
  | .version expected =>
      if t.version = expected then none
      else some (.conflict t.oid expected t.version)
  | .scheduling expected =>
      if t.scheduling = expected then none
      else some (.unexpectedState t.oid t.scheduling expected)

/-- The record after a write. -/
def written (t : Task) (d : TaskDelta) : Task :=
  { d.apply t with version := t.version + 1 }

def modify (s : Store) (oid : TaskOid) (d : TaskDelta) (p : Precondition) :
    Except StoreError Task × Store :=
  if s.available then
    match s.find? oid with
    | none => (.error (.notFound oid), s)
    | some t =>
        match violation? t p with
        | some e => (.error e, s)
        | none => (.ok (written t d), { s with tasks := s.tasks.put (written t d) })
  else (.error .unavailable, s)

def insert (s : Store) (t : Task) : Except StoreError Unit × Store :=
  if s.available then
    if s.tasks.contains t.oid then (.error (.alreadyExists t.oid), s)
    else (.ok (), { s with tasks := s.tasks.put t })
  else (.error .unavailable, s)

/-- Takes a task away, as an administrator would; this never fails. -/
def remove (s : Store) (oid : TaskOid) : Store := { s with tasks := s.tasks.erase oid }

/-- The last ancestor on the way up. The way ends at a missing parent, at a task
already visited and when there is no room left for another visit. -/
def topmost (s : Store) : Nat → List TaskOid → Task → Task
  | 0, _, t => t
  | room + 1, visited, t =>
      match t.parent with
      | none => t
      | some parent =>
          if parent ∈ visited then t
          else
            match s.find? parent with
            | some p => s.topmost room (parent :: visited) p
            | none => t

/-- Own constraints, or those of the root. -/
def effectiveConstraints (s : Store) (t : Task) : Option Constraints :=
  match t.constraints with
  | some c => some c
  | none => (s.topmost (maxHierarchyDepth - 1) [t.oid] t).constraints

def runsInGroup (s : Store) (group : String) (t : Task) : Bool :=
  t.execution = .running && (s.effectiveConstraints t).any (·.containsGroup group)

def countRunning (s : Store) (group : String) (exclude : TaskOid) :
    Except StoreError Nat :=
  if s.available then
    .ok (s.tasks.rows.countP fun t => t.oid ≠ exclude && s.runsInGroup group t)
  else .error .unavailable

theorem get_of_modify {s s' : Store} {oid : TaskOid} {d : TaskDelta} {p : Precondition}
    {t : Task} (h : s.modify oid d p = (.ok t, s')) : s'.get oid = .ok t := by
  unfold modify at h
  split at h
  · next ha =>
    split at h
    · simp at h
    · next old hold =>
      split at h
      · simp at h
      · simp only [Prod.mk.injEq, Except.ok.injEq] at h
        obtain ⟨rfl, rfl⟩ := h
        have ho : old.oid = oid := Table.key_of_find? hold
        have hw : (written old d).oid = oid := ho
        simp [get, find?, ha, Table.find?_put, hw]
  · simp at h

theorem eq_of_modify_error {s s' : Store} {oid : TaskOid} {d : TaskDelta}
    {p : Precondition} {e : StoreError} (h : s.modify oid d p = (.error e, s')) :
    s' = s := by
  unfold modify at h
  split at h
  · split at h
    · simp_all
    · split at h <;> simp_all
  · simp_all

end Store
end TaskFiring
