import TaskFiring.Proofs.Membership

/-!
What admission decides, and what a refusal does. A task is let in if every listed group with a
limit has fewer other running tasks than that. A refused one is told all groups without room,
and is either rescheduled or left to the next fire time that its trigger tells; of that, only
how late it may be is looked at, so it can lie in the past.
-/

namespace TaskFiring
namespace Refusal

open Program (Yields Reaches)
open Admission (Saturation Decision limitFor)

variable {place : Place} {w w' : World} {config : Config} {t : Task}
  {constraints : Constraints} {cs : Option Constraints} {latest next retryAt : Instant}
  {full : List Saturation} {regular : Bool}

/-- The groups that constraints list. -/
def listed (cs : Option Constraints) : List GroupConstraint :=
  (cs.map Constraints.groups).getD []

/-- The other tasks that run and have the group among their effective constraints. -/
def company (s : Store) (g : String) (oid : TaskOid) : Set TaskOid :=
  {o | o ≠ oid ∧ ∃ u, s.find? o = some u ∧ u.execution = .running ∧
    ∃ cs, s.effectiveConstraints u = some cs ∧ ∃ c ∈ cs.groups, c.group = g}

/-- What is told of a listed group, if it has a limit and no room. -/
noncomputable def saturation? (config : Config) (s : Store) (oid : TaskOid)
    (c : GroupConstraint) : Option Saturation :=
  (limitFor config c).bind fun limit =>
    if limit.toNat ≤ (company s c.group oid).ncard then
      some ⟨c.group, (company s c.group oid).ncard, limit⟩
    else none

theorem countRunning_eq_ncard (available : w.store.available) (g : String) (oid : TaskOid) :
    w.store.countRunning g oid = .ok (company w.store g oid).ncard := by
  rw [Membership.countRunning_of_available available,
    Membership.others_eq_ncard available .aside]
  congr 2
  ext o
  refine and_congr_right fun _ => exists_congr fun u => and_congr_right fun hu => ?_
  refine and_congr_right fun _ => ?_
  cases Store.oid_of_find? hu
  rw [Membership.goesThrough_iff available hu]
  simp [Option.any_eq_true, Constraints.containsGroup]

/-- Whatever the counts come to, nothing is done to the world. -/
theorem saturated_yields (place : Place) (w : World) (config : Config) (oid : TaskOid)
    (gs : List GroupConstraint) :
    ∃ r, Yields place (Admission.saturated config oid gs).run w r w ∧
      (w.store.available → r = .ok (gs.filterMap (saturation? config w.store oid))) := by
  induction gs with
  | nil => exact ⟨.ok [], Program.yields_done _, fun _ => rfl⟩
  | cons c gs ih =>
      obtain ⟨rest, hy, hr⟩ := ih
      unfold Admission.saturated
      cases hl : limitFor config c with
      | none => exact ⟨rest, hy, fun ha => by simp [hr ha, saturation?, hl]⟩
      | some limit =>
          cases hc : w.store.countRunning c.group oid with
          | error e =>
              refine ⟨.error _, .ask rfl trivial (by rw [hc]; exact Program.yields_done _), ?_⟩
              exact fun ha => by cases (countRunning_eq_ncard ha c.group oid).symm.trans hc
          | ok n =>
              cases rest with
              | error e =>
                  refine ⟨.error e, .ask rfl trivial ?_, fun ha => by cases hr ha⟩
                  rw [hc]
                  exact hy.bind (Program.yields_done _)
              | ok full =>
                  refine ⟨.ok (if limit.toNat ≤ n then ⟨c.group, n, limit⟩ :: full else full),
                    .ask rfl trivial ?_, fun ha => ?_⟩
                  · rw [hc]
                    refine Yields.attempt hy ?_
                    split <;> exact Program.yields_done _
                  · cases (countRunning_eq_ncard ha c.group oid).symm.trans hc
                    cases hr ha
                    simp only [List.filterMap_cons, saturation?, hl, Option.bind_some]
                    split <;> rfl

/-- The trigger's own time, where it is relied upon. -/
def relied? (config : Config) (w : World) (t : Task) (latest : Instant) : Option Instant :=
  if config.regularBackoff && t.isLooselyRecurring then
    match w.trigger.nextFireTime t.oid with
    | .ok (some next) => if next.le latest then some next else none
    | _ => none
  else none

theorem relied?_eq_some : relied? config w t latest = some next ↔
    config.regularBackoff ∧ t.isLooselyRecurring ∧
      w.trigger.nextFireTime t.oid = .ok (some next) ∧ next.le latest := by
  unfold relied?
  split
  · next h =>
    simp only [Bool.and_eq_true] at h
    simp only [h.1, h.2, true_and]
    cases w.trigger.nextFireTime t.oid with
    | error e => simp
    | ok found =>
        cases found with
        | none => simp
        | some time =>
            simp only [Option.ite_none_right_eq_some, Option.some.injEq, Except.ok.injEq]
            exact ⟨fun ⟨hle, h⟩ => ⟨h, h ▸ hle⟩, fun ⟨h, hle⟩ => ⟨h ▸ hle, h⟩⟩
  · next h =>
    simp only [Bool.and_eq_true] at h
    simp only [reduceCtorEq, false_iff]
    exact fun h' => h ⟨h'.1, h'.2.1⟩

theorem naturalRefire?_yields (place : Place) (w : World) (config : Config) (t : Task)
    (latest : Instant) :
    Yields place (Admission.naturalRefire? config t latest) w (relied? config w t latest) w := by
  unfold Admission.naturalRefire? relied?
  by_cases h : config.regularBackoff && t.isLooselyRecurring
  · have hn : (!config.regularBackoff || !t.isLooselyRecurring) = false := by
      rw [← Bool.not_and, h]
      rfl
    rw [if_pos h, hn]
    refine .ask rfl trivial ?_
    cases w.trigger.nextFireTime t.oid with
    | error e => exact Program.yields_done _
    | ok found => cases found <;> exact Program.yields_done _
  · have hn : (!config.regularBackoff || !t.isLooselyRecurring) = true := by
      rw [← Bool.not_and, Bool.eq_false_iff.mpr h]
      rfl
    rw [if_neg h, hn]
    exact Program.yields_done _

/-- The time at which a refused task is tried again at the latest. -/
def deadline (config : Config) (now : Instant) (cs : Option Constraints) : Instant :=
  Admission.retryTime now ((cs.bind Constraints.retryAfter).getD config.groupRetryAfter)

/-- The decision on a task, by the groups without room. -/
def decision (config : Config) (w : World) (t : Task) (cs : Option Constraints) :
    List Saturation → Decision
  | [] => .allowed
  | full =>
      match relied? config w t (deadline config w.now cs) with
      | some next => .refused full next true
      | none => .refused full (deadline config w.now cs) false

/-- What is found out about the listed groups decides. -/
theorem check_yields (place : Place) (w : World) (config : Config) (t : Task)
    (cs : Option Constraints) :
    ∃ found : Except Stop (List Saturation),
      Yields place (Admission.check config t cs).run w (found.map (decision config w t cs)) w ∧
      (w.store.available →
        found = .ok ((listed cs).filterMap (saturation? config w.store t.oid))) := by
  cases cs with
  | none => exact ⟨.ok [], Program.yields_done _, fun _ => rfl⟩
  | some constraints =>
      obtain ⟨found, hy, hf⟩ := saturated_yields place w config t.oid constraints.groups
      refine ⟨found, ?_, hf⟩
      unfold Admission.check
      cases found with
      | error e => exact hy.bind (Program.yields_done _)
      | ok full =>
          refine Yields.attempt hy ?_
          cases full with
          | nil => exact Program.yields_done _
          | cons s full =>
              refine Yields.query rfl trivial ?_
              refine Yields.lift (naturalRefire?_yields place w config t _) ?_
              simp only [Except.map, decision, deadline, Option.bind_some, Admission.delayFor]
              cases relied? config w t _ <;> exact Program.yields_done _

/-- The trigger will fire the task again by itself, and soon enough. -/
structure Reliable (config : Config) (w : World) (t : Task) (latest next : Instant) : Prop where
  enabled : config.regularBackoff
  recurring : t.recurring
  loose : t.binding = .loose
  told : w.trigger.nextFireTime t.oid = .ok (some next)
  soon : next.le latest

theorem Reliable.relied? (h : Reliable config w t latest next) :
    relied? config w t latest = some next := by
  refine relied?_eq_some.mpr ⟨h.enabled, ?_, h.told, h.soon⟩
  simp [Task.isLooselyRecurring, h.recurring, h.loose]

/-- The world after the task was rescheduled. -/
def rescheduled (w : World) (oid : TaskOid) (time : Instant) : World :=
  { w with trigger :=
      { w.trigger with events := w.trigger.events ++ [.rescheduledLater oid time] } }

/-- A task that is to wait for room in its group. -/
def waiting : Task :=
  { oid := ⟨1⟩, name := "t", handlerRef := "h", recurring := true
    constraints := some { groups := [⟨"g", some 1⟩], retryAfter := none } }

/-- Another task runs in its group. -/
def crowded : World where
  now := default
  store :=
    { tasks := Table.ofList
        [waiting,
          { oid := ⟨2⟩, name := "u", handlerRef := "h", execution := .running
            node := some ⟨"a"⟩, constraints := waiting.constraints }] }

theorem le_of_not_le {s t : Instant} (h : ¬ s.le t) : t.le s := by
  simp only [Instant.le, Bool.or_eq_true, Bool.and_eq_true, decide_eq_true_eq, beq_iff_eq] at *
  omega

theorem le_trans {s t u : Instant} (h : s.le t) (h' : t.le u) : s.le u := by
  simp only [Instant.le, Bool.or_eq_true, Bool.and_eq_true, decide_eq_true_eq, beq_iff_eq] at *
  omega

theorem le_later? {s t : Instant} {seconds : Nat} (h : s.later? seconds = some t) : s.le t := by
  simp only [Instant.later?, Option.ite_none_right_eq_some, Option.some.injEq] at h
  obtain ⟨-, rfl⟩ := h
  simp only [Instant.le, Bool.or_eq_true, Bool.and_eq_true, decide_eq_true_eq, beq_iff_eq]
  split <;> omega

/-- A computed time does not lie in the past. -/
theorem le_retryTime {now : Instant} (told : now.le .max) (seconds : UInt64) :
    now.le (Admission.retryTime now seconds) := by
  unfold Admission.retryTime
  split
  · cases h : now.later? seconds.toNat with
    | none => exact told
    | some time => exact le_later? h
  · exact told

/-- What is known of a refusal: it is by the time of the trigger where that is relied upon, and
by the computed one otherwise. -/
theorem refused_cases
    (refused : (Admission.check config t cs).run.Reaches place w
      (.done (.ok (.refused full retryAt regular))) w') :
    relied? config w t (deadline config w.now cs) = some retryAt ∧ regular = true ∨
      relied? config w t (deadline config w.now cs) = none ∧
        retryAt = deadline config w.now cs ∧ regular = false := by
  obtain ⟨found, checks, -⟩ := check_yields place w config t cs
  obtain ⟨hr, -⟩ := (checks _ _).mp refused
  cases found with
  | error e => cases hr
  | ok found =>
      have hr : Decision.refused full retryAt regular = decision config w t cs found :=
        Except.ok.inj hr
      cases found with
      | nil => cases hr
      | cons s found =>
          unfold decision at hr
          split at hr
          · next heq => cases heq
          · split at hr
            · next h =>
              cases hr
              exact .inl ⟨h, rfl⟩
            · next h =>
              cases hr
              exact .inr ⟨h, rfl, rfl⟩

/-- A refused task is left to a moment already past exactly if its trigger is relied upon at all
and tells such a time. A computed time is never past. -/
theorem refused_to_past_iff (told : w.now.le .max)
    (refused : (Admission.check config t cs).run.Reaches place w
      (.done (.ok (.refused full retryAt regular))) w') :
    (¬ w.now.le retryAt ↔ config.regularBackoff ∧ t.isLooselyRecurring ∧
      ∃ next, w.trigger.nextFireTime t.oid = .ok (some next) ∧ ¬ w.now.le next) ∧
    (regular = false → w.now.le retryAt) := by
  have ahead : w.now.le (deadline config w.now cs) := le_retryTime told _
  obtain ⟨relied, rfl⟩ | ⟨computed, rfl, rfl⟩ := refused_cases refused
  · obtain ⟨enabled, loosely, time, -⟩ := relied?_eq_some.mp relied
    refine ⟨⟨fun past => ⟨enabled, loosely, retryAt, time, past⟩, ?_⟩, nofun⟩
    rintro ⟨-, -, next, hn, past⟩
    cases time.symm.trans hn
    exact past
  · refine ⟨⟨fun past => absurd ahead past, ?_⟩, fun _ => ahead⟩
    rintro ⟨enabled, loosely, next, hn, past⟩
    -- a time that is past already is no later than the deadline
    have soon := le_trans (le_of_not_le past) ahead
    cases computed.symm.trans (relied?_eq_some.mpr ⟨enabled, loosely, hn, soon⟩)

/-- The trigger still tells a time that has passed a second ago. -/
def overdue : World :=
  { crowded with trigger :=
      { fireTimes := Table.empty.put (waiting.oid, Instant.ofMillis (-1000)) } }

theorem overdue_refused :
    (Admission.check {} waiting waiting.constraints).run.Reaches .aside overdue
      (.done (.ok (.refused [⟨"g", 1, 1⟩] (Instant.ofMillis (-1000)) true))) overdue := by
  have counts : overdue.perform .aside (.countRunning "g" waiting.oid)
      = some (.ok 1, overdue) := by
    have counted : overdue.store.countRunning "g" waiting.oid = .ok 1 := by decide +kernel
    rw [World.perform, counted]
  have finds : (Admission.naturalRefire? {} waiting
      (Admission.retryTime overdue.now 60)).Reaches .aside overdue
        (.done (some (Instant.ofMillis (-1000)))) overdue := by
    refine (naturalRefire?_yields .aside overdue {} waiting _ _ _).mpr ⟨?_, rfl⟩
    decide +kernel
  unfold Admission.check
  refine Reaches.attempt (a := [⟨"g", 1, 1⟩]) (.ask (.performed counts) (.refl _ _)) ?_
  refine Reaches.query (.performed rfl) ?_
  exact Reaches.attempt (Reaches.bind finds (.refl _ _)) (.refl _ _)

/-- The refusal relies on the time that has passed. -/
theorem refused_to_past_iff_overdue :
    ∃ full retryAt regular, overdue.now.le .max ∧
      (Admission.check {} waiting waiting.constraints).run.Reaches .aside overdue
        (.done (.ok (.refused full retryAt regular))) overdue ∧
      ¬ overdue.now.le retryAt := by
  have told : overdue.now.le .max := by decide +kernel
  refine ⟨_, _, _, told, overdue_refused, ?_⟩
  refine (refused_to_past_iff told overdue_refused).1.mpr ?_
  exact ⟨rfl, rfl, Instant.ofMillis (-1000), rfl, by decide⟩

/-- So a refusal may name a time in the past, and nothing fires the task then. -/
theorem not_always_ahead :
    ¬ ∀ (place : Place) (w w' : World) (config : Config) (t : Task) (cs : Option Constraints)
      (full : List Saturation) (retryAt : Instant) (regular : Bool), w.now.le .max →
      (Admission.check config t cs).run.Reaches place w
        (.done (.ok (.refused full retryAt regular))) w' → w.now.le retryAt := by
  intro always
  have ahead := always _ _ _ _ _ _ _ _ _ (by decide +kernel) overdue_refused
  exact absurd ahead (by decide)

end Refusal
end TaskFiring
