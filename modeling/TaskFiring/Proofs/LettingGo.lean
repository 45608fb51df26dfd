import TaskFiring.Proofs.Interference

/-!
Letting go of a task among others. A firing reads the record, and writes the execution state
that fits the scheduling state it has read on condition that this has not changed; if it has,
the firing starts over, and in the end it writes without a condition. So however its calls fail
and whatever scheduling states others set meanwhile, what it writes never says that the task
runs. It also fits the scheduling state that the task is left in, unless that changes more
often than the firing starts over.
-/

namespace TaskFiring

/-- How often the scheduling state has become another one. -/
def changesIn (xs : List (Happening (SchedulingState × SchedulingState))) : Nat :=
  (xs.filterMap Happening.other?).countP fun change => change.1 ≠ change.2

/-- The execution state in which a task is left by a run. -/
def ExecutionState.leftBy (scheduling : SchedulingState) (current : ExecutionState) :
    ExecutionState :=
  (afterRun scheduling current).getD current

theorem ExecutionState.leftBy_ne_running (scheduling : SchedulingState)
    (current : ExecutionState) : leftBy scheduling current ≠ .running := by
  cases scheduling <;> cases current <;> decide

namespace LettingGo

open Program (Follows)
open Possession

/-- Where a firing is that lets go of its task. -/
inductive Stance
  /-- It may start over so many times yet. -/
  | outset (retries : Nat)
  | trying (retries : Nat) (read : Task)
  /-- It will not start over again. -/
  | cornered (read : Task)
  | forcing (read : Task)
  | finished

/-- Where a firing is after a write on condition has failed. -/
def Stance.afterFailure : Nat → Task → StoreError → Stance
  | retries + 1, _, .preconditionFailed _ _ => .outset retries
  | _, read, _ => .cornered read

/-- The calls by which a firing lets go of its task. -/
inductive Move (oid : TaskOid) : Protocol Calls Stance
  | miss {n : Nat} {e : StoreError} : Move oid (.outset n) (.get oid) (.error e) .finished
  | read {n : Nat} {t : Task} : Move oid (.outset n) (.get oid) (.ok t) (.trying n t)
  | write {n : Nat} {t t' : Task} :
      Move oid (.trying n t) (.modify oid (settlingDelta t) (.scheduling t.scheduling)) (.ok t')
        .finished
  | fail {n : Nat} {t : Task} {e : StoreError} :
      Move oid (.trying n t) (.modify oid (settlingDelta t) (.scheduling t.scheduling))
        (.error e) (.afterFailure n t e)
  | reread {t t' : Task} : Move oid (.cornered t) (.get oid) (.ok t') (.forcing t')
  | remember {t : Task} {e : StoreError} :
      Move oid (.cornered t) (.get oid) (.error e) (.forcing t)
  | force {t : Task} {a : Except StoreError Task} :
      Move oid (.forcing t) (.modify oid (settlingDelta t) .always) a .finished

/-- A part of a firing lets go of its task from one stance to another. -/
abbrev Runs {α : Type} (oid : TaskOid) (p : Action α) (s : Stance) (Q : Stance → α → Prop) :
    Prop :=
  p.Follows Call.Anyhow (Move oid) s Q

section

variable {oid : TaskOid}

theorem settleAnyhow_runs (t : Task) :
    Runs oid (settleAnyhow oid t) (.cornered t) fun s _ => s = .finished := by
  unfold settleAnyhow
  apply Follows.ask
  intro answer _
  cases answer with
  | ok t' => exact ⟨_, .reread, fun _ _ => ⟨_, .force, rfl⟩⟩
  | error e => exact ⟨_, .remember, fun _ _ => ⟨_, .force, rfl⟩⟩

theorem settleWithin_runs (retries : Nat) :
    Runs oid (settleWithin retries oid) (.outset retries) fun s _ => s = .finished := by
  induction retries using Nat.strongRecOn with
  | ind retries ih =>
      unfold settleWithin
      apply Follows.ask
      intro answer _
      cases answer with
      | error e => exact ⟨_, .miss, rfl⟩
      | ok t =>
          refine ⟨_, .read, Follows.ask ?_⟩
          intro answer _
          cases answer with
          | ok t' => exact ⟨_, .write, rfl⟩
          | error e =>
              refine ⟨_, .fail, ?_⟩
              cases e with
              | preconditionFailed o reason =>
                  cases retries with
                  | zero => exact settleAnyhow_runs t
                  | succ retries => exact ih retries (by omega)
              | _ => cases retries <;> exact settleAnyhow_runs t

end

/-- What a firing has done so far. -/
abbrev History := List (Happening (SchedulingState × SchedulingState))

/-- Nothing was written, as a read has failed or no write has succeeded. -/
def Abstains (oid : TaskOid) (xs : History) : Prop :=
  (∀ x ∈ xs, x.written? = none) ∧
    ((∃ x ∈ xs, ∃ e, x.deed? = some (.answered (.get oid) (.error e))) ∨
      ∃ x ∈ xs, ∃ d p e, x.deed? = some (.answered (.modify oid d p) (.error e)))

def Writes (xs : History) : Prop := ∃ x ∈ xs, x.written?.isSome

/-- The task is let go of. -/
def Free (t : Task) : Prop := t.node = none ∧ t.execution ≠ .running

/-- The copy that the firing goes by. -/
def Stance.read? : Stance → Option Task
  | .trying _ t | .cornered t | .forcing t => some t
  | .outset _ | .finished => none

/-- What is so of the record at a stance, if the task had that execution state. -/
def Stance.Keeps (oid : TaskOid) (had : ExecutionState) (xs : History) (r : Task) :
    Stance → Prop
  | .finished => Abstains oid xs ∨ Free r
  | _ => (∀ x ∈ xs, x.written? = none) ∧ r.execution = had

/-- What is so besides where no call has failed: each time the firing starts over, the
scheduling state has changed, and once more if it is not the one that was read. -/
def Stance.Counts (had : ExecutionState) (bound : Nat) (xs : History) (r : Task) : Stance → Prop
  | .outset n => bound ≤ n + changesIn xs
  | .trying n t => bound ≤ n + changesIn xs ∧
      (r.scheduling ≠ t.scheduling → bound < n + changesIn xs)
  | .cornered _ => bound < changesIn xs
  | .forcing t => bound < changesIn xs ∧
      (r.scheduling ≠ t.scheduling → bound + 1 < changesIn xs)
  | .finished => Writes xs ∧ (changesIn xs ≤ bound + 1 → r.execution = .leftBy r.scheduling had)

structure Inv (oid : TaskOid) (there : Bool) (had : ExecutionState) (bound : Nat)
    (xs : History) (s : Stance) (w : World) (r : Task) : Prop where
  available : w.store.available = there
  record : w.store.find? oid = some r
  read : ∀ t, s.read? = some t → t.execution = had
  writes : ∀ x ∈ xs, ∀ t, x.written? = some t → Free t
  keeps : s.Keeps oid had xs r
  counts : there → (∀ x ∈ xs, ¬ x.IsFailure) → s.Counts had bound xs r

section

variable {oid : TaskOid} {there : Bool} {had : ExecutionState} {bound : Nat} {xs : History}
  {x : Happening (SchedulingState × SchedulingState)} {s s' : Stance} {w w' : World} {r t : Task}
  {place : Place}

@[simp] theorem changesIn_snoc_served (d : Deed) (xs : History) :
    changesIn (xs ++ [.served d]) = changesIn xs := by
  simp [changesIn, Happening.other?]

theorem changesIn_snoc_other (change : SchedulingState × SchedulingState) (xs : History) :
    changesIn (xs ++ [.other change])
      = changesIn xs + if change.1 ≠ change.2 then 1 else 0 := by
  simp [changesIn, Happening.other?, List.countP_append, List.countP_cons]

/-- A copy with the execution state of the record is as good as the record. -/
theorem execution_settled (h : r.execution = t.execution) :
    (Store.written r (settlingDelta t)).execution = .leftBy t.scheduling t.execution := by
  show ((ExecutionState.afterRun t.scheduling t.execution).filter
    (· ≠ t.execution)).getD r.execution = _
  rw [h, ExecutionState.leftBy]
  cases ha : ExecutionState.afterRun t.scheduling t.execution with
  | none => rfl
  | some e =>
      by_cases he : e = t.execution
      · simp [Option.filter, he]
      · simp [Option.filter, he]

theorem free_settled (h : r.execution = t.execution) :
    Free (Store.written r (settlingDelta t)) := by
  refine ⟨rfl, ?_⟩
  rw [execution_settled h]
  exact ExecutionState.leftBy_ne_running _ _

/-- Before the end nothing is written. -/
theorem Inv.unwritten (hi : Inv oid there had bound xs s w r) (hs : s ≠ .finished) :
    (∀ x ∈ xs, x.written? = none) ∧ r.execution = had := by
  have hkeeps := hi.keeps
  cases s with
  | finished => exact absurd rfl hs
  | _ => exact hkeeps

theorem keeps_of_unwritten (hs : s ≠ .finished)
    (h : (∀ x ∈ xs, x.written? = none) ∧ r.execution = had) : s.Keeps oid had xs r := by
  cases s with
  | finished => exact absurd rfl hs
  | _ => exact h

/-- A call that writes nothing and after which there is more to do. -/
theorem Inv.onward (hi : Inv oid there had bound xs s w r) (hs : s ≠ .finished)
    (hs' : s' ≠ .finished) (hx : x.written? = none) (hw : w'.store = w.store)
    (hread : ∀ t, s'.read? = some t → t.execution = had)
    (hc : w.store.available → ¬ x.IsFailure → s.Counts had bound xs r →
      s'.Counts had bound (xs ++ [x]) r) :
    Inv oid there had bound (xs ++ [x]) s' w' r where
  available := by rw [hw]; exact hi.available
  record := by rw [hw]; exact hi.record
  read := hread
  writes := forall_mem_snoc.mpr ⟨hi.writes, by simp [hx]⟩
  keeps := by
    obtain ⟨hxs, hr⟩ := hi.unwritten hs
    exact keeps_of_unwritten hs'
      ⟨forall_mem_snoc.mpr ⟨hxs, hx⟩, hr⟩
  counts := by
    intro ha hall
    obtain ⟨hxs, hlast⟩ := forall_mem_snoc.mp hall
    exact hc (hi.available.trans ha) hlast (hi.counts ha hxs)

/-- The last call fails, or the first one does. -/
theorem Inv.abstain (hi : Inv oid there had bound xs s w r) (hs : s ≠ .finished)
    (hx : x.written? = none) (hw : w'.store = w.store)
    (hfail : (∃ e, x.deed? = some (.answered (.get oid) (.error e))) ∨
      ∃ d p e, x.deed? = some (.answered (.modify oid d p) (.error e)))
    (hc : w.store.available → x.IsFailure) :
    Inv oid there had bound (xs ++ [x]) .finished w' r where
  available := by rw [hw]; exact hi.available
  record := by rw [hw]; exact hi.record
  read _ ht := nomatch ht
  writes := forall_mem_snoc.mpr ⟨hi.writes, by simp [hx]⟩
  keeps := by
    refine .inl ⟨forall_mem_snoc.mpr ⟨(hi.unwritten hs).1, hx⟩, ?_⟩
    have hmem : x ∈ xs ++ [x] := List.mem_append_right _ List.mem_cons_self
    exact hfail.imp (fun h => ⟨x, hmem, h⟩) fun h => ⟨x, hmem, h⟩
  counts := by
    intro ha hall
    exact absurd (hc (hi.available.trans ha)) (hall x (List.mem_append_right _ List.mem_cons_self))

/-- A write that succeeds, whatever its condition, lets go of the task. -/
theorem Inv.settle {p : Precondition} {t' : Task} (hi : Inv oid there had bound xs s w r)
    (hs : s ≠ .finished) (hread : s.read? = some t)
    (ha : w.Answers place (.modify oid (settlingDelta t) p) (.ok t') w')
    (hc : s.Counts had bound xs r → Store.violation? r p = none →
      changesIn xs ≤ bound + 1 → r.scheduling = t.scheduling) :
    Inv oid there had bound
      (xs ++ [.served (.answered (.modify oid (settlingDelta t) p) (.ok t'))]) .finished w' t' := by
  obtain ⟨havailable, r₀, hr₀, hv, rfl, hfind⟩ := Store.modify_ok ha.modify.2
  obtain rfl : r₀ = r := Option.some.inj (hr₀.symm.trans hi.record)
  have hhad := hi.read t hread
  have hexecution : r₀.execution = t.execution := (hi.unwritten hs).2.trans hhad.symm
  have hfree := free_settled hexecution
  refine ⟨havailable.trans hi.available, by simp [hfind], by simp [Stance.read?], ?_, .inr hfree,
    ?_⟩
  · refine forall_mem_snoc.mpr ⟨hi.writes, ?_⟩
    intro t'' ht
    cases ht
    exact hfree
  · intro hthere hall
    have hcounts := hi.counts hthere (forall_mem_snoc.mp hall).1
    refine ⟨⟨_, List.mem_append_right _ List.mem_cons_self, rfl⟩, ?_⟩
    intro hle
    rw [changesIn_snoc_served] at hle
    rw [execution_settled hexecution, ← hc hcounts hv hle, hhad]
    rfl

/-- A write on condition fails only as the scheduling state is another one by now. -/
theorem modify_error {e : StoreError} (ha : w.store.available)
    (hr : w.store.find? oid = some r)
    (h : w.Answers place (.modify oid (settlingDelta t) (.scheduling t.scheduling)) (.error e) w') :
    r.scheduling ≠ t.scheduling ∧ ∃ reason, e = .preconditionFailed r.oid reason := by
  have hm := congrArg Prod.fst h.modify.2
  by_cases hscheduling : r.scheduling = t.scheduling
  · simp [Store.modify, ha, hr, Store.violation?, hscheduling] at hm
  · refine ⟨hscheduling, ?_⟩
    simp only [Store.modify, ha, hr, Store.violation?, hscheduling, if_true, if_false] at hm
    cases hm
    exact ⟨_, rfl⟩

theorem afterFailure_ne_finished (n : Nat) (t : Task) (e : StoreError) :
    Stance.afterFailure n t e ≠ .finished := by
  cases n <;> cases e <;> simp [Stance.afterFailure]

theorem read?_afterFailure {n : Nat} {t t' : Task} {e : StoreError}
    (h : (Stance.afterFailure n t e).read? = some t') : t' = t := by
  cases n <;> cases e <;> simp_all [Stance.afterFailure, Stance.read?]

theorem Inv.served {c : Call} {a : c.Response} (hi : Inv oid there had bound xs s w r)
    (hm : Move oid s c a s') (ha : w.Answers place c a w') :
    ∃ r', Inv oid there had bound (xs ++ [.served (.answered c a)]) s' w' r' := by
  cases hm with
  | @miss n e =>
      obtain ⟨rfl, he⟩ := ha.get
      refine ⟨r, hi.abstain (by simp) rfl rfl (.inl ⟨e, rfl⟩) ?_⟩
      intro hthere
      cases he.trans (Store.get_of_find? hthere hi.record)
  | @read n t =>
      obtain ⟨rfl, ht⟩ := ha.get
      obtain rfl : t = r := Option.some.inj ((Store.get_ok ht.symm).symm.trans hi.record)
      refine ⟨t, hi.onward (by simp) (by simp) rfl rfl ?_ ?_⟩
      · intro t' ht'
        cases ht'
        exact (hi.unwritten (by simp)).2
      · intro _ _ hcounts
        simpa [Stance.Counts] using hcounts
  | @write n t t' =>
      refine ⟨t', hi.settle (by simp) rfl ha ?_⟩
      intro _ hv _
      simpa [Store.violation?] using hv
  | @fail n t e =>
      have hstore := Store.eq_of_modify_error ha.modify.2
      refine ⟨r, hi.onward (by simp) (afterFailure_ne_finished n t e) rfl hstore ?_ ?_⟩
      · intro t' ht'
        rw [read?_afterFailure ht']
        exact hi.read t rfl
      · intro hthere _ hcounts
        obtain ⟨hne, reason, rfl⟩ := modify_error hthere hi.record ha
        have hlt := hcounts.2 hne
        cases n with
        | zero => simpa [Stance.afterFailure, Stance.Counts] using hlt
        | succ n =>
            simp only [Stance.afterFailure, Stance.Counts, changesIn_snoc_served]
            omega
  | @reread t t' =>
      obtain ⟨rfl, ht⟩ := ha.get
      obtain rfl : t' = r := Option.some.inj ((Store.get_ok ht.symm).symm.trans hi.record)
      refine ⟨t', hi.onward (by simp) (by simp) rfl rfl ?_ ?_⟩
      · intro t'' ht''
        cases ht''
        exact (hi.unwritten (by simp)).2
      · intro _ _ hcounts
        simpa [Stance.Counts] using hcounts
  | @remember t e =>
      obtain ⟨rfl, he⟩ := ha.get
      refine ⟨r, hi.onward (by simp) (by simp) rfl rfl (fun t' ht' => hi.read t' ht') ?_⟩
      intro hthere
      cases he.trans (Store.get_of_find? hthere hi.record)
  | @force t a =>
      cases a with
      | error e =>
          have hstore := Store.eq_of_modify_error ha.modify.2
          refine ⟨r, hi.abstain (by simp) rfl hstore (.inr ⟨_, _, e, rfl⟩) ?_⟩
          intro hthere
          have hok := Store.modify_always hthere hi.record (settlingDelta t)
          cases hok.symm.trans (congrArg Prod.fst ha.modify.2)
      | ok t' =>
          refine ⟨t', hi.settle (by simp) rfl ha ?_⟩
          intro hcounts _ hle
          by_contra hne
          have hlt := hcounts.2 hne
          omega

theorem Inv.failed {c : Call} {a : c.Response} (hi : Inv oid there had bound xs s w r)
    (hm : Move oid s c a s') (hf : c.Fails a) :
    Inv oid there had bound (xs ++ [.failed (.answered c a)]) s' w r := by
  have hfailed : ¬ ¬ (Happening.failed (ω := SchedulingState × SchedulingState)
      (.answered c a)).IsFailure := not_not_intro trivial
  cases hm with
  | @miss n e => exact hi.abstain nofun rfl rfl (.inl ⟨e, rfl⟩) fun _ => trivial
  | @fail n t e =>
      refine hi.onward nofun (afterFailure_ne_finished n t e) rfl rfl ?_ fun _ h => absurd h hfailed
      intro t' ht'
      rw [read?_afterFailure ht']
      exact hi.read t rfl
  | remember =>
      exact hi.onward nofun nofun rfl rfl (fun t' ht' => hi.read t' ht') fun _ h =>
        absurd h hfailed
  | @force t a =>
      cases a with
      | error e => exact hi.abstain nofun rfl rfl (.inr ⟨_, _, e, rfl⟩) fun _ => trivial
      | ok t' => exact hf.elim
  | read | write | reread => exact hf.elim

/-- A change counts, and after it the scheduling state may be another one than was read. -/
theorem Inv.rescheduled {change : SchedulingState × SchedulingState}
    (hi : Inv oid there had bound xs s w r) (hs : s ≠ .finished)
    (ho : w.OnlyReschedules oid change w') :
    ∃ r', Inv oid there had bound (xs ++ [.other change]) s w' r' := by
  obtain ⟨⟨havailable, r₀, r', hr₀, hold, hr', hnew⟩, hrest⟩ := ho
  obtain rfl : r₀ = r := Option.some.inj (hr₀.symm.trans hi.record)
  obtain ⟨hxs, hhad⟩ := hi.unwritten hs
  have hexecution : r'.execution = r₀.execution := by rw [hrest r₀ r' hr₀ hr']
  refine ⟨r', havailable.trans hi.available, hr', hi.read, ?_, ?_, ?_⟩
  · exact forall_mem_snoc.mpr ⟨hi.writes, fun _ ht => nomatch ht⟩
  · exact keeps_of_unwritten hs ⟨forall_mem_snoc.mpr ⟨hxs, rfl⟩, hexecution.trans hhad⟩
  · intro hthere hall
    have hcounts := hi.counts hthere (forall_mem_snoc.mp hall).1
    have hsame : ¬ change.1 ≠ change.2 → r'.scheduling = r₀.scheduling := by
      intro h
      rw [hnew, ← not_not.mp h, hold]
    cases s with
    | finished => exact absurd rfl hs
    | outset n | cornered t =>
        simp only [Stance.Counts, changesIn_snoc_other] at hcounts ⊢
        omega
    | trying n t | forcing t =>
        simp only [Stance.Counts, changesIn_snoc_other] at hcounts ⊢
        have hle := hcounts.1
        refine ⟨by omega, ?_⟩
        intro hne
        split
        · omega
        · next h =>
          have hlt := hcounts.2 (hsame h ▸ hne)
          omega

theorem Inv.step (hi : Inv oid there had bound xs s w r)
    (hx : (Move oid).Amid place (World.OnlyReschedules oid) (s, w) x (s', w')) :
    ∃ r', Inv oid there had bound (xs ++ [x]) s' w' r' := by
  cases hx with
  | served ha hm => exact hi.served hm ha
  | failed hf hm => exact ⟨r, hi.failed hm hf⟩
  | other hm ho =>
      refine hi.rescheduled ?_ ho
      obtain ⟨c, a, s'', hm⟩ := hm
      cases hm <;> nofun

theorem Inv.run (hi : Inv oid there had bound [] s w r)
    (hr : Run ((Move oid).Amid place (World.OnlyReschedules oid)) (s, w) xs (s', w')) :
    ∃ r', Inv oid there had bound xs s' w' r' := by
  refine hr.invariant (P := fun xs m => ∃ r', Inv oid there had bound xs m.1 m.2 r') ⟨r, hi⟩ ?_
  intro xs x m m' h hx
  obtain ⟨r₁, hi₁⟩ := h
  exact hi₁.step hx

/-- What is so before the first call. -/
theorem Inv.start (hr : w.store.find? oid = some r) :
    Inv oid w.store.available r.execution bound [] (.outset bound) w r where
  available := rfl
  record := hr
  read _ ht := nomatch ht
  writes := by simp
  keeps := ⟨by simp, rfl⟩
  counts := by
    intro _ _
    show bound ≤ bound + 0
    omega

/-- Letting go, however calls fail and whatever others do to the scheduling state meanwhile:
nothing that is written says that the task runs; in the end it is let go of, unless nothing
could be written; and where no call fails, something is written, and the task is left as its
scheduling state asks for unless that has changed too often. -/
theorem settles_against_interference (place : Place) (oid : TaskOid) {w w' : World} {r : Task}
    {xs : History} (hr : w.store.find? oid = some r)
    (run : Run (Program.Amid place (World.OnlyReschedules oid)) (Possession.settle oid, w) xs
      (.done (), w')) :
    (∀ x ∈ xs, ∀ t, x.written? = some t → Free t) ∧
      ∃ r', w'.store.find? oid = some r' ∧ (Abstains oid xs ∨ Free r') ∧
        (w.store.available → (∀ x ∈ xs, ¬ x.IsFailure) →
          Writes xs ∧
            (changesIn xs ≤ 2 → r'.execution = .leftBy r'.scheduling r.execution)) := by
  obtain ⟨s, hrun, hs⟩ := (settleWithin_runs 1).amid run
  obtain rfl : s = .finished := hs
  obtain ⟨r', hi⟩ := (Inv.start hr).run hrun
  refine ⟨hi.writes, r', hi.record, hi.keeps, ?_⟩
  intro ha hall
  exact hi.counts ha hall

/-- A task that runs on a node. -/
def heldTask : Task := { Rehearsal.task with execution := .running, node := some ⟨"a"⟩ }

def heldWorld : World := { Rehearsal.world with store := { tasks := Table.empty.put heldTask } }

/-- An administrator suspends the task between the first reading and the first write. -/
def suspension : History × Action Unit × World :=
  Program.playAmid (.node "a")
    [.serve, .change (World.reschedule? heldTask.oid .suspended), .serve, .serve, .serve]
    (Possession.settle heldTask.oid, heldWorld)

/-- The firing reads the task again, and leaves it suspended. -/
theorem settles_against_interference_suspended :
    heldWorld.store.find? heldTask.oid = some heldTask ∧
      Run (Program.Amid (.node "a") (World.OnlyReschedules heldTask.oid))
        (Possession.settle heldTask.oid, heldWorld) suspension.1 (.done (), suspension.2.2) ∧
      changesIn suspension.1 = 1 ∧ Writes suspension.1 ∧
      ∃ r', suspension.2.2.store.find? heldTask.oid = some r' ∧ r'.scheduling = .suspended ∧
        r'.execution = .suspended := by
  have record : heldWorld.store.find? heldTask.oid = some heldTask := rfl
  have run : Run (Program.Amid (.node "a") (World.OnlyReschedules heldTask.oid))
      (Possession.settle heldTask.oid, heldWorld) suspension.1 suspension.2 := by
    apply Program.playAmid_run
    intro f hf w change w' hw
    obtain rfl : f = World.reschedule? heldTask.oid .suspended := by simpa using hf
    exact World.onlyReschedules_of_reschedule? hw
  obtain ⟨_, hdone⟩ := Program.done_of_isOver (by decide +kernel : suspension.2.1.isOver)
  have ended : suspension.2 = (.done (), suspension.2.2) := Prod.ext hdone rfl
  rw [ended] at run
  have serene : ∀ x ∈ suspension.1, ¬ x.IsFailure := by decide +kernel
  have once : changesIn suspension.1 = 1 := by decide +kernel
  have suspended : (suspension.2.2.store.find? heldTask.oid).any (·.scheduling = .suspended) := by
    decide +kernel
  obtain ⟨-, r', hr', -, h⟩ := settles_against_interference (.node "a") heldTask.oid record run
  obtain ⟨hwrites, hexecution⟩ := h rfl serene
  have hscheduling : r'.scheduling = .suspended := by simpa [hr'] using suspended
  have fits := hexecution (by omega)
  rw [hscheduling] at fits
  exact ⟨record, run, once, hwrites, r', hr', hscheduling, fits⟩

end

end LettingGo
end TaskFiring
