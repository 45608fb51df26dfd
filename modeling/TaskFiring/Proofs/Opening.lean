import TaskFiring.Proofs.Leftover
import TaskFiring.Proofs.Stirring

/-!
The opening of a firing: it loads its task, sees that it is ready and clears what a dead run
has left in the record. All that it does then is to read and write records, so it comes to the
same whatever goes on beside it that nobody writes. It gives the task without remains of a
run, be it that it has just cleared them or that there were none.
-/

namespace TaskFiring
namespace Recovery

open Program (Only Yields)
open Leftover (Abandoned)

/-! The parts of a firing. -/

/-- Loads the task and clears what a dead run has left. -/
def opening (node : Node) (oid : TaskOid) (recovering : Bool) :
    Step (Task × Option Constraints) := do
  let snapshot ← Preparation.load oid
  Preparation.ensureReady snapshot.task
  let task ← Preparation.repair node.config.nodeId snapshot.task recovering
  return (task, snapshot.constraints)

/-- From the look at the scheduler to the handle. -/
def admission (node : Node) (oid : TaskOid) (recovering : Bool)
    (x : Task × Option Constraints) : Step Firing := do
  Preparation.ensureSchedulerRunning x.1
  Preparation.applyRecoveryPolicy x.1 recovering
  Admission.enforce node.config x.1 x.2
  let handle ← call (.newHandle oid)
  return { task := x.1, recovering, handle, result := .new Firing.operation }

/-- What follows the opening. -/
def onward (f : Occasion) : Except Stop (Task × Option Constraints) → Action FiringOutcome
  | .error stop => return stop.outcome
  | .ok x => do
      match ← (admission f.node f.oid f.recovering x).run with
      | .error stop => return stop.outcome
      | .ok g => g.runPrepared f.node

theorem program_eq (f : Occasion) :
    f.program = (opening f.node f.oid f.recovering).run.bind (onward f) := by
  have prepare : Firing.prepare f.node f.oid f.recovering =
      opening f.node f.oid f.recovering >>= admission f.node f.oid f.recovering := by
    simp [Firing.prepare, opening, admission]
  unfold Occasion.program Node.fire
  rw [prepare]
  refine (Program.bind_assoc _ _ _).trans (congrArg _ (funext fun x => ?_))
  cases x <;> rfl

theorem opening_still (node : Node) (oid : TaskOid) (recovering : Bool) :
    (opening node oid recovering).run.Only Call.IsStill := by
  have load : (Preparation.load oid).run.Only Call.IsStill := by
    refine Only.lift ⟨trivial, fun _ => trivial⟩ fun answer => ?_
    split
    · exact Only.lift ⟨trivial, fun _ => trivial⟩ fun _ => trivial
    · trivial
    · exact Only.attempt (Course.ancestor_only (fun _ => trivial) _ _ _ _ _) fun _ => trivial
  refine Only.attempt load fun snapshot => ?_
  refine Only.attempt ?_ fun _ => Only.attempt ?_ fun _ => trivial
  · unfold Preparation.ensureReady
    split
    · trivial
    · exact Only.attempt ⟨trivial, fun _ => trivial⟩ fun _ => trivial
  · unfold Preparation.repair
    refine Only.lift ⟨trivial, fun _ => trivial⟩ fun registered => ?_
    split
    · trivial
    · refine Only.lift ⟨trivial, fun _ => trivial⟩ fun answer => ?_
      split <;> trivial

/-! The opening of a firing. -/

/-- The task once nothing of a dead run is left in its record. -/
def mended (t : Task) : Task :=
  if Preparation.isClean t then t else Store.written t Preparation.repairDelta

/-- The store with that record. -/
def mendedStore (s : Store) (t : Task) : Store :=
  if Preparation.isClean t then s
  else { s with tasks := s.tasks.put (Store.written t Preparation.repairDelta) }

/-- A task that is ready, whose run the node does not know of, where the store and the trigger
engine work and the scheduler runs. -/
structure Setting (f : Occasion) (w : World) (t : Task) : Prop
    extends Abandoned w f.place f.oid t where
  ready : t.isReady
  working : w.trigger.failing = false
  scheduler : w.trigger.running

/-- In that world, and in any that it is intact in, the opening of the firing gives that and
leaves that store. -/
def Enters (f : Occasion) (w : World) (x : Task × Option Constraints) (s : Store) : Prop :=
  ∀ v, w.Intact v →
    Yields f.place (opening f.node f.oid f.recovering).run v (.ok x) { v with store := s }

section

variable {f : Occasion} {w v : World} {t : Task}

theorem Setting.intact (h : Setting f w t) (hv : w.Intact v) : Setting f v t where
  available := hv.store ▸ h.available
  record := hv.store ▸ h.record
  vacant := (hv.registered _ _).trans h.vacant
  ready := h.ready
  working := hv.trigger ▸ h.working
  scheduler := hv.trigger ▸ h.scheduler

theorem mended_of_isClean (hc : Preparation.isClean t) : mended t = t := if_pos hc

theorem mended_idle (t : Task) :
    (mended t).node = none ∧ (mended t).execution = .runnable := by
  unfold mended
  split
  · next hc => simpa [Preparation.isClean] using hc
  · exact ⟨rfl, rfl⟩

theorem mended_ready (h : t.isReady) : (mended t).isReady := by
  unfold mended
  split
  · exact h
  · exact h

theorem mendedStore_find? {s : Store} {oid : TaskOid} (h : s.find? oid = some t) (o : TaskOid) :
    (mendedStore s t).find? o = if oid = o then some (mended t) else s.find? o := by
  have ho : t.oid = oid := Store.oid_of_find? h
  unfold mendedStore mended
  split
  · split
    · next hoid => rw [← hoid, h]
    · rfl
  · subst ho
    exact Table.find?_put _ _ _

theorem mendedStore_available (s : Store) (t : Task) :
    (mendedStore s t).available = s.available := by
  unfold mendedStore
  split <;> rfl

theorem repair_yields (h : Setting f w t) (hf : f.recovering ∨ Preparation.isClean t) :
    Yields f.place (Preparation.repair f.nodeId t f.recovering).run w (.ok (mended t))
      { w with store := mendedStore w.store t } := by
  have ho : t.oid = f.oid := Store.oid_of_find? h.record
  unfold Preparation.repair
  rw [ho]
  refine Yields.query rfl trivial ?_
  rw [h.vacant]
  unfold mended mendedStore
  by_cases hc : Preparation.isClean t
  · simp only [hc, Bool.or_true, if_true]
    exact Program.yields_done _
  · have recovering := hf.resolve_right hc
    have dead := Leftover.not_isLive t f.nodeId
    rw [if_neg (by simpa [recovering, hc] using dead), if_neg hc, if_neg hc]
    have written : w.perform f.place (.modify f.oid Preparation.repairDelta (.version t.version))
        = some (.ok (Store.written t Preparation.repairDelta),
          Solo.wrote w t Preparation.repairDelta) :=
      (Solo.answers_modify h.available h.record (Solo.violation?_version t)).performed_of_still
        trivial
    exact Yields.query written trivial (Program.yields_done _)

/-- The opening repairs the record, if there is something to be repaired. -/
theorem enters (h : Setting f w t) (hf : f.recovering ∨ Preparation.isClean t) :
    Enters f w (mended t, w.store.effectiveConstraints t) (mendedStore w.store t) := by
  intro v hv
  rw [← hv.store]
  replace h := h.intact hv
  have ho : t.oid = f.oid := Store.oid_of_find? h.record
  have load := Membership.load_yields f.place h.available (t := t) (by rw [ho]; exact h.record)
  rw [ho] at load
  have ready : Yields f.place (Preparation.ensureReady t).run v (.ok ()) v := by
    unfold Preparation.ensureReady
    rw [if_pos h.ready]
    exact Program.yields_done _
  exact load.attempt (ready.attempt ((repair_yields h hf).attempt (Program.yields_done _)))

end

end Recovery
end TaskFiring
