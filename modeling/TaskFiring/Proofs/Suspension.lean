import TaskFiring.Proofs.Interference

/-!
Suspensions that come in between. A firing that records its outcome, or applies the stop action
of its task, looks once whether the task is ready and then sets its scheduling state without
looking again. So where an administrator suspends the task meanwhile, the suspension is lost
exactly if the firing had looked before and had yet to write something else.
-/

namespace TaskFiring

/-- The record that a read or a write has shown. -/
def Deed.shown? : Deed → Option Task
  | .answered (.get _) (.ok t) | .answered (.modify _ _ _) (.ok t) => some t
  | _ => none

/-- The scheduling state that a deed has set. -/
def Deed.sets? : Deed → Option SchedulingState
  | .answered (.modify _ d _) (.ok _) => d.scheduling
  | _ => none

def Happening.sets? {ω : Type} (x : Happening ω) : Option SchedulingState :=
  x.deed?.bind Deed.sets?

namespace Suspension

open Administration
open Handling (Consequence consequence)
open Program (Follows)

/-- The parts of a firing that set the scheduling state of a ready task. -/
inductive Part
  | outcome (t : Task) (ended : HandlerEnd) (result : OperationResult)
  | stop (oid : TaskOid)

namespace Part

def oid : Part → TaskOid
  | .outcome t _ _ => t.oid
  | .stop oid => oid

def program : Part → Action Unit
  | .outcome t ended result => do
      let _ ← Handling.applyOutcome t ended result
  | .stop oid => applyStopAction oid

/-- What is to be set for a ready task that was found so. -/
def verdict (t : Task) : Part → Option SchedulingState
  | .outcome _ (.error _) _ => none
  | .outcome task (.ok ran) _ =>
      match consequence ran.status task.recurring with
      | .close => some .closed
      | .suspend => some .suspended
      | .keep => none
  | .stop _ =>
      match t.halting with
      | .ok .close => some .closed
      | .ok .suspend => some .suspended
      | .ok .rescheduleNow | .ok .resume => some .ready
      | .ok .awaitNaturalRefire | .error _ => none

/-- What is to be set, as the first call has shown. -/
def resolution (part : Part) (ds : List Deed) : Option SchedulingState :=
  match ds.head?.bind Deed.shown? with
  | some t => if t.isReady then part.verdict t else none
  | none => none

end Part

inductive Stance
  | outset
  /-- This is to be set. -/
  | bound (c : SchedulingState)
  /-- It has been set, and the trigger engine is to be told. -/
  | carried
  | finished

/-- Where a part is after its first call. -/
def Stance.resolved : Option SchedulingState → Stance
  | some c => .bound c
  | none => .finished

/-- The calls of a part. -/
inductive Move (part : Part) : Protocol Calls Stance
  | note {d : TaskDelta} {a : Except StoreError Task} : d.scheduling = none →
      Move part .outset (.modify part.oid d .always) a
        (.resolved (part.resolution [.answered (.modify part.oid d .always) a]))
  | look {a : Except StoreError Task} :
      Move part .outset (.get part.oid) a
        (.resolved (part.resolution [.answered (.get part.oid) a]))
  | aside {c : SchedulingState} {r : Call} {a : r.Response} : ¬ r.MayWrite →
      Move part (.bound c) r a (.bound c)
  | miss {c : SchedulingState} {e : StoreError} :
      Move part (.bound c) (.get part.oid) (.error e) .finished
  | fail {c : SchedulingState} {d : TaskDelta} {e : StoreError} :
      Move part (.bound c) (.modify part.oid d .always) (.error e) .finished
  | carry {c : SchedulingState} {d : TaskDelta} {t : Task} : d.scheduling = some c →
      Move part (.bound c) (.modify part.oid d .always) (.ok t) .carried
  | tell {r : Call} {a : r.Response} : ¬ r.MayWrite → Move part .carried r a .finished

/-- A part makes its calls from one stance to another. -/
abbrev Runs {α : Type} (part : Part) (p : Action α) (s : Stance) (Q : Stance → Prop) : Prop :=
  p.Follows Call.Anyhow (Move part) s fun s' _ => Q s'

section

variable {part : Part} {c : SchedulingState} {α : Type}

theorem bestEffort_runs {x : Attempt α} {s : Stance} {Q : Stance → Prop}
    (hx : Runs part x.run s Q) : Runs part (bestEffort x) s Q :=
  hx.bind fun _ _ hs => hs

/-- The write, and the call to the trigger engine after it. -/
theorem carry_runs {d : TaskDelta} {rest : Task → Attempt α} (hd : d.scheduling = some c)
    (hrest : ∀ t, Runs part (rest t).run .carried (· = .finished)) :
    Runs part (orFail (call (.modify part.oid d .always)) Cause.store >>= rest).run (.bound c)
      (· = .finished) := by
  intro answer _
  cases answer with
  | error e => exact ⟨_, .fail, rfl⟩
  | ok t => exact ⟨_, .carry hd, hrest t⟩

theorem close_runs : Runs part (close part.oid).run (.bound .closed) (· = .finished) := by
  unfold close
  intro answer _
  cases answer with
  | error e => exact ⟨_, .miss, rfl⟩
  | ok t =>
      refine ⟨_, .aside nofun, ?_⟩
      intro now _
      refine ⟨_, .aside nofun, carry_runs rfl ?_⟩
      intro t' answer _
      refine ⟨_, .tell nofun, ?_⟩
      cases answer <;> rfl

theorem suspend_runs : Runs part (suspend part.oid).run (.bound .suspended) (· = .finished) := by
  unfold suspend
  intro answer _
  cases answer with
  | error e => exact ⟨_, .miss, rfl⟩
  | ok t =>
      refine ⟨_, .aside nofun, carry_runs rfl ?_⟩
      intro t' answer _
      refine ⟨_, .tell nofun, ?_⟩
      cases answer <;> rfl

theorem scheduleNow_runs :
    Runs part (scheduleNow part.oid).run (.bound .ready) (· = .finished) := by
  unfold scheduleNow
  apply carry_runs rfl
  intro t answer _
  exact ⟨_, .tell nofun, rfl⟩

end

theorem applyStopAction_runs (oid : TaskOid) :
    Runs (.stop oid) (applyStopAction oid) .outset (· = .finished) := by
  unfold applyStopAction
  apply Follows.ask
  intro answer _
  refine ⟨_, .look, ?_⟩
  cases answer with
  | error e => exact rfl
  | ok t =>
      by_cases hr : t.isReady
      · simp only [Part.resolution, List.head?_cons, Option.bind_some, Deed.shown?, Part.verdict,
          hr, Bool.not_true, Bool.false_eq_true, if_false, if_true]
        cases hd : t.halting with
        | error e =>
            rw [show StopDirective.resolve t.stopAction .halting t.recurring t.binding = _ from hd]
            exact rfl
        | ok d =>
            rw [show StopDirective.resolve t.stopAction .halting t.recurring t.binding = _ from hd]
            cases d with
            | close => exact bestEffort_runs close_runs
            | suspend => exact bestEffort_runs suspend_runs
            | rescheduleNow | resume => exact bestEffort_runs scheduleNow_runs
            | awaitNaturalRefire => exact rfl
      · simp only [Part.resolution, List.head?_cons, Option.bind_some, Deed.shown?, hr,
          Bool.not_false, if_true]
        exact rfl

/-- Recording the result shows the record. -/
theorem recordResult_runs {part : Part} (result : OperationResult) :
    (recordResult part.oid result).run.Follows Call.Anyhow (Move part) .outset fun s r =>
      match r with
      | .ok t => s = .resolved (if t.isReady then part.verdict t else none)
      | .error _ => s = .finished := by
  intro answer _
  refine ⟨_, .note rfl, ?_⟩
  cases answer with
  | ok t => rfl
  | error e => rfl

theorem applyOutcome_runs (t : Task) (ended : HandlerEnd) (result : OperationResult) :
    Runs (.outcome t ended result) (Handling.applyOutcome t ended result) .outset
      (· = .finished) := by
  unfold Handling.applyOutcome
  cases ended with
  | error e =>
      have hrecord : Runs (.outcome t (.error e) result)
          (recordResult t.oid (result.recordFatal e.message)).run .outset (· = .finished) := by
        refine (recordResult_runs _).mono ?_
        intro s r hs
        cases r with
        | error _ => exact hs
        | ok current => simpa [Part.verdict, Stance.resolved] using hs
      exact (bestEffort_runs hrecord).bind fun _ _ hs => hs
  | ok ran =>
      refine Follows.bind (recordResult_runs _) ?_
      intro s r hs
      cases r with
      | error e => exact hs
      | ok current =>
          obtain rfl := hs
          dsimp only
          split
          · next hr =>
            simp only [Part.verdict]
            cases consequence ran.status t.recurring with
            | close => exact (bestEffort_runs close_runs).bind fun _ _ hs => hs
            | suspend => exact (bestEffort_runs suspend_runs).bind fun _ _ hs => hs
            | keep => exact rfl
          · exact rfl

theorem Part.program_runs (part : Part) : Runs part part.program .outset (· = .finished) := by
  cases part with
  | outcome t ended result => exact (applyOutcome_runs t ended result).bind fun _ _ hs => hs
  | stop oid => exact applyStopAction_runs oid

abbrev History := List (Happening (SchedulingState × SchedulingState))

def deeds (xs : History) : List Deed := xs.filterMap Happening.deed?

/-- What a stance says of the past. -/
def Stance.Shown (part : Part) (xs : History) : Stance → Prop
  | .outset => deeds xs = []
  | .bound c => part.resolution (deeds xs) = some c ∧ ∀ x ∈ xs, x.sets? = none
  | .carried => ∃ x ∈ xs, x.sets?.isSome
  | .finished => True

/-- What is so from a suspension on, after which nobody else comes in. -/
structure Since (part : Part) (there : Bool) (start : Stance) (ys : History) (s : Stance)
    (w : World) (r : Task) : Prop where
  available : w.store.available = there
  record : w.store.find? part.oid = some r
  /-- What has been set is what was to be set, and it is so still. -/
  sets : ∀ y ∈ ys, ∀ c, y.sets? = some c → start = .bound c ∧ r.scheduling = c
  unset : (∀ y ∈ ys, y.sets? = none) → r.scheduling = .suspended
  early : s = .outset ∨ (∃ c, s = .bound c) → s = start ∧ ∀ y ∈ ys, y.sets? = none
  due : there → (∀ y ∈ ys, ¬ y.IsFailure) → ∀ c, start = .bound c →
    s = start ∨ ∃ y ∈ ys, y.sets? = some c

section

variable {part : Part} {there : Bool} {start s s' : Stance} {xs ys : History}
  {x : Happening (SchedulingState × SchedulingState)} {w w' : World} {r r' t : Task}
  {c : SchedulingState} {place : Place}
  {others : World → SchedulingState × SchedulingState → World → Prop}

theorem sets?_of_deed {k : Call} {a : k.Response} (hx : x.deed? = some (.answered k a))
    (hk : ¬ k.MayWrite) : x.sets? = none := by
  cases k with
  | modify => exact absurd trivial hk
  | _ => simp [Happening.sets?, hx, Deed.sets?]

theorem sets?_of_deeds (h : deeds xs = []) : ∀ x ∈ xs, x.sets? = none := by
  intro x hx
  simp [Happening.sets?, List.filterMap_eq_nil_iff.mp h x hx]

/-- What the first call has shown does not change. -/
theorem resolution_append {ds ds' : List Deed} (h : part.resolution ds = some c) :
    part.resolution (ds ++ ds') = some c := by
  cases ds with
  | nil => cases h
  | cons d ds => exact h

theorem shown_resolved {d : Deed} (hs : deeds xs = []) (hx : x.deed? = some d)
    (hsets : x.sets? = none) :
    (Stance.resolved (part.resolution [d])).Shown part (xs ++ [x]) := by
  have hdeeds : deeds (xs ++ [x]) = [d] := by
    rw [deeds, List.filterMap_append, ← deeds, hs]
    simp [hx]
  cases hr : part.resolution [d] with
  | none => trivial
  | some c =>
      refine ⟨hdeeds ▸ hr, ?_⟩
      exact forall_mem_snoc.mpr ⟨sets?_of_deeds hs, hsets⟩

theorem shown_move {k : Call} {a : k.Response} (hs : s.Shown part xs)
    (hx : x.deed? = some (.answered k a)) (hm : Move part s k a s') :
    s'.Shown part (xs ++ [x]) := by
  cases hm with
  | @note d a hd =>
      refine shown_resolved hs hx ?_
      cases a with
      | ok t => simpa [Happening.sets?, hx, Deed.sets?] using hd
      | error e => simp [Happening.sets?, hx, Deed.sets?]
  | look => exact shown_resolved hs hx (sets?_of_deed hx nofun)
  | aside hk =>
      obtain ⟨hresolution, hnone⟩ := hs
      refine ⟨?_, forall_mem_snoc.mpr ⟨hnone, sets?_of_deed hx hk⟩⟩
      rw [deeds, List.filterMap_append]
      exact resolution_append hresolution
  | carry hd =>
      refine ⟨x, List.mem_append_right _ List.mem_cons_self, ?_⟩
      simp [Happening.sets?, hx, Deed.sets?, hd]
  | miss | fail | tell _ => trivial

theorem shown_step (hs : s.Shown part xs)
    (hx : (Move part).Amid place others (s, w) x (s', w')) : s'.Shown part (xs ++ [x]) := by
  cases hx with
  | served ha hm => exact shown_move hs rfl hm
  | failed hf hm => exact shown_move hs rfl hm
  | @other o =>
      have hsame : deeds (xs ++ [.other o]) = deeds xs := by
        simp [deeds, Happening.deed?]
      cases s with
      | outset => exact hsame.trans hs
      | bound c => exact ⟨hsame ▸ hs.1, forall_mem_snoc.mpr ⟨hs.2, rfl⟩⟩
      | carried =>
          obtain ⟨x, hx, hsets⟩ := hs
          exact ⟨x, List.mem_append_left _ hx, hsets⟩
      | finished => trivial

theorem shown_run (hr : Run ((Move part).Amid place others) (.outset, w) xs (s, w')) :
    s.Shown part xs :=
  hr.invariant (P := fun xs m => m.1.Shown part xs) rfl shown_step

theorem Since.idle (hi : Since part there start ys s w r) (hx : x.sets? = none)
    (ha : w'.store.available = w.store.available) (hr : w'.store.find? part.oid = some r')
    (hsame : r'.scheduling = r.scheduling)
    (hearly : s' = .outset ∨ (∃ c, s' = .bound c) → s' = s)
    (hdue : there → ¬ x.IsFailure → ∀ c, s = .bound c → s' = s) :
    Since part there start (ys ++ [x]) s' w' r' where
  available := ha.trans hi.available
  record := hr
  sets := by
    refine forall_mem_snoc.mpr ⟨?_, by simp [hx]⟩
    intro y hy c hc
    rw [hsame]
    exact hi.sets y hy c hc
  unset := by
    intro hall
    rw [hsame]
    exact hi.unset (forall_mem_snoc.mp hall).1
  early := by
    intro h
    have hs := hearly h
    rw [hs] at h ⊢
    obtain ⟨hstart, hnone⟩ := hi.early h
    exact ⟨hstart, forall_mem_snoc.mpr ⟨hnone, hx⟩⟩
  due := by
    intro hthere hall c hc
    obtain ⟨hys, hlast⟩ := forall_mem_snoc.mp hall
    cases hi.due hthere hys c hc with
    | inl hs => exact .inl ((hdue hthere hlast c (hs.trans hc)).trans hs)
    | inr h =>
        obtain ⟨y, hy, hsets⟩ := h
        exact .inr ⟨y, List.mem_append_left _ hy, hsets⟩

theorem Since.carry {d : TaskDelta} (hi : Since part there start ys (.bound c) w r)
    (hd : d.scheduling = some c)
    (ha : w.Answers place (.modify part.oid d .always) (.ok t) w') :
    Since part there start (ys ++ [.served (.answered (.modify part.oid d .always) (.ok t))])
      .carried w' t := by
  obtain ⟨havailable, r₀, hr₀, -, rfl, hfind⟩ := Store.modify_ok ha.modify.2
  obtain ⟨hstart, hnone⟩ := hi.early (.inr ⟨c, rfl⟩)
  have hscheduling : (Store.written r₀ d).scheduling = c := by
    simp [Store.written, TaskDelta.apply, hd]
  refine ⟨havailable.trans hi.available, by simp [hfind], ?_, ?_, by simp, ?_⟩
  · refine forall_mem_snoc.mpr ⟨?_, ?_⟩
    · intro y hy c' hc'
      cases (hnone y hy).symm.trans hc'
    · intro c' hc'
      obtain rfl : c = c' := Option.some.inj (hd.symm.trans hc')
      exact ⟨hstart.symm, hscheduling⟩
  · intro hall
    cases hd.symm.trans (forall_mem_snoc.mp hall).2
  · intro _ _ c' hc'
    cases hstart.trans hc'
    exact .inr ⟨_, List.mem_append_right _ List.mem_cons_self, hd⟩

/-- A task that is found suspended is left alone. -/
theorem resolution_suspended {d : Deed}
    (h : ∀ t, d.shown? = some t → t.scheduling = .suspended) : part.resolution [d] = none := by
  unfold Part.resolution
  cases hd : d.shown? with
  | none => simp [hd]
  | some t => simp [hd, Task.isReady, h t hd]

/-- The first call, if it comes after the suspension. -/
theorem Since.first {k : Call} {a : k.Response} (hi : Since part there start ys .outset w r)
    (hsets : x.sets? = none) (ha : w'.store.available = w.store.available)
    (hr : w'.store.find? part.oid = some r') (hsame : r'.scheduling = r.scheduling)
    (hshown : ∀ t, Deed.shown? (.answered k a) = some t → t = r') :
    Since part there start (ys ++ [x]) (.resolved (part.resolution [.answered k a])) w' r' := by
  have hsuspended : r.scheduling = .suspended := hi.unset (hi.early (.inl rfl)).2
  rw [resolution_suspended]
  · exact hi.idle hsets ha hr hsame nofun nofun
  · intro t ht
    rw [hshown t ht, hsame, hsuspended]

theorem Since.served {k : Call} {a : k.Response} (hi : Since part there start ys s w r)
    (hm : Move part s k a s') (ha : w.Answers place k a w') :
    ∃ r', Since part there start (ys ++ [.served (.answered k a)]) s' w' r' := by
  cases hm with
  | @note d a hd =>
      cases a with
      | ok t =>
          obtain ⟨havailable, r₀, hr₀, -, rfl, hfind⟩ := Store.modify_ok ha.modify.2
          obtain rfl : r₀ = r := Option.some.inj (hr₀.symm.trans hi.record)
          refine ⟨Store.written r₀ d, hi.first hd havailable (by simp [hfind]) ?_ ?_⟩
          · simp [Store.written, TaskDelta.apply, hd]
          · intro t ht
            exact (Option.some.inj ht).symm
      | error e =>
          have hstore := Store.eq_of_modify_error ha.modify.2
          refine ⟨r, hi.first rfl (by rw [hstore]) (by rw [hstore]; exact hi.record) rfl ?_⟩
          intro t ht
          cases ht
  | @look a =>
      obtain ⟨rfl, hget⟩ := ha.get
      refine ⟨r, hi.first rfl rfl hi.record rfl ?_⟩
      intro t ht
      cases a with
      | ok t' =>
          cases ht
          exact Option.some.inj ((Store.get_ok hget.symm).symm.trans hi.record)
      | error e => cases ht
  | aside hk =>
      have hstore := ha.store hk
      exact ⟨r, hi.idle (sets?_of_deed rfl hk) (by rw [hstore]) (by rw [hstore]; exact hi.record)
        rfl (fun _ => rfl) fun _ _ _ _ => rfl⟩
  | @miss c e =>
      obtain ⟨rfl, hget⟩ := ha.get
      refine ⟨r, hi.idle rfl rfl hi.record rfl nofun ?_⟩
      intro hthere
      cases hget.trans (Store.get_of_find? (hi.available.trans hthere) hi.record)
  | @fail c d e =>
      have hstore := Store.eq_of_modify_error ha.modify.2
      refine ⟨r, hi.idle rfl (by rw [hstore]) (by rw [hstore]; exact hi.record) rfl nofun ?_⟩
      intro hthere
      have hok := Store.modify_always (hi.available.trans hthere) hi.record d
      cases hok.symm.trans (congrArg Prod.fst ha.modify.2)
  | carry hd => exact ⟨_, hi.carry hd ha⟩
  | tell hk =>
      have hstore := ha.store hk
      exact ⟨r, hi.idle (sets?_of_deed rfl hk) (by rw [hstore]) (by rw [hstore]; exact hi.record)
        rfl nofun nofun⟩

theorem Since.failed {k : Call} {a : k.Response} (hi : Since part there start ys s w r)
    (hm : Move part s k a s') (hf : k.Fails a) :
    Since part there start (ys ++ [.failed (.answered k a)]) s' w r := by
  cases hm with
  | @note d a hd =>
      cases a with
      | ok t => exact hf.elim
      | error e => exact hi.first rfl rfl hi.record rfl fun t ht => nomatch ht
  | @look a =>
      cases a with
      | ok t => exact hf.elim
      | error e => exact hi.first rfl rfl hi.record rfl fun t ht => nomatch ht
  | aside hk =>
      exact hi.idle (sets?_of_deed rfl hk) rfl hi.record rfl (fun _ => rfl) fun _ _ _ _ => rfl
  | miss | fail => exact hi.idle rfl rfl hi.record rfl nofun fun _ h => absurd trivial h
  | carry hd => exact hf.elim
  | tell hk => exact hi.idle (sets?_of_deed rfl hk) rfl hi.record rfl nofun nofun

theorem Since.run (hi : Since part there s [] s w r)
    (hr : Run ((Move part).Amid place others) (s, w) ys (s', w'))
    (alone : ∀ y ∈ ys, y.other? = none) : ∃ r', Since part there s ys s' w' r' := by
  revert alone
  refine hr.invariant (P := fun ys m => (∀ y ∈ ys, y.other? = none) →
    ∃ r', Since part there s ys m.1 m.2 r') (fun _ => ⟨r, hi⟩) ?_
  intro ys y m m' ih hy alone
  obtain ⟨hys, hlast⟩ := forall_mem_snoc.mp alone
  obtain ⟨r₁, hi₁⟩ := ih hys
  cases hy with
  | served ha hm => exact hi₁.served hm ha
  | failed hf hm => exact ⟨r₁, hi₁.failed hm hf⟩
  | other => cases hlast

theorem available_of_modify {d : TaskDelta} {p : Precondition} {a : Except StoreError Task}
    (ha : w.Answers place (.modify part.oid d p) a w') :
    w'.store.available = w.store.available := by
  cases a with
  | ok t => exact (Store.modify_ok ha.modify.2).1
  | error e => rw [Store.eq_of_modify_error ha.modify.2]

theorem available_step
    (hx : (Move part).Amid place (World.Reschedules part.oid) (s, w) x (s', w')) :
    w'.store.available = w.store.available := by
  cases hx with
  | served ha hm =>
      cases hm with
      | note | carry | fail => exact available_of_modify ha
      | look | miss => rw [ha.get.1]
      | aside hk | tell hk => rw [ha.store hk]
  | failed => rfl
  | other _ ho => exact ho.1

theorem available_run
    (hr : Run ((Move part).Amid place (World.Reschedules part.oid)) (s, w) xs (s', w')) :
    w'.store.available = w.store.available :=
  hr.invariant (P := fun _ m => m.2.store.available = w.store.available) rfl fun h hx =>
    (available_step hx).trans h

/-- At the suspension. -/
theorem Since.begin (hr : w.store.find? part.oid = some r) (hs : r.scheduling = .suspended) :
    Since part w.store.available s [] s w r :=
  ⟨rfl, hr, by simp, fun _ => hs, fun _ => ⟨rfl, by simp⟩, fun _ _ _ _ => .inl rfl⟩

/-- The suspension is lost exactly if something else was to be set, and has been. -/
theorem Since.lost_iff (hi : Since part there start ys s w r) :
    r.scheduling ≠ .suspended ↔
      ∃ c, start = .bound c ∧ c ≠ .suspended ∧ ∃ y ∈ ys, y.sets? = some c := by
  constructor
  · intro hne
    have hset : ¬ ∀ y ∈ ys, y.sets? = none := fun h => hne (hi.unset h)
    push Not at hset
    obtain ⟨y, hy, hsets⟩ := hset
    obtain ⟨c, hc⟩ := Option.ne_none_iff_exists'.mp hsets
    obtain ⟨hstart, hscheduling⟩ := hi.sets y hy c hc
    exact ⟨c, hstart, hscheduling ▸ hne, y, hy, hc⟩
  · intro h
    obtain ⟨c, -, hne, y, hy, hc⟩ := h
    rw [(hi.sets y hy c hc).2]
    exact hne

/-- Where no call fails, what was to be set has been once the part is finished. -/
theorem Since.lost_iff_of_serene (hi : Since part there start ys .finished w r) (hthere : there)
    (serene : ∀ y ∈ ys, ¬ y.IsFailure) :
    r.scheduling ≠ .suspended ↔ ∃ c, start = .bound c ∧ c ≠ .suspended := by
  rw [hi.lost_iff]
  constructor
  · intro h
    obtain ⟨c, hstart, hne, -⟩ := h
    exact ⟨c, hstart, hne⟩
  · intro h
    obtain ⟨c, hstart, hne⟩ := h
    refine ⟨c, hstart, hne, ?_⟩
    cases hi.due hthere serene c hstart with
    | inl hfinished => cases hfinished.trans hstart
    | inr hset => exact hset

/-- A part is bound to set something exactly if its first call has shown so, and it has not set
it yet. -/
theorem bound_iff (hs : s.Shown part xs) (hgoes : ∃ k a s', Move part s k a s') :
    s = .bound c ↔ part.resolution (deeds xs) = some c ∧ ∀ x ∈ xs, x.sets? = none := by
  obtain ⟨k, a, s', hm⟩ := hgoes
  cases s with
  | finished => cases hm
  | outset =>
      have hdeeds : deeds xs = [] := hs
      simp [hdeeds, Part.resolution]
  | bound c' =>
      obtain ⟨hresolution, hnone⟩ := hs
      constructor
      · intro h
        cases h
        exact ⟨hresolution, hnone⟩
      · intro h
        rw [Option.some.inj (hresolution.symm.trans h.1)]
  | carried =>
      obtain ⟨x, hx, hsets⟩ := hs
      constructor
      · intro h
        cases h
      · intro h
        simp [h.2 x hx] at hsets

/-- A suspension is lost exactly if the part had found the task ready before, was to set another
scheduling state, and sets it afterwards. Where no call fails, this is so exactly if it was to
set it and had not done so before the suspension. -/
theorem suspension_lost_iff (part : Part) (place : Place) {w w' : World} {before after : History}
    (run : Run (Program.Amid place (World.Reschedules part.oid)) (part.program, w)
      (before ++ .other (.ready, .suspended) :: after) (.done (), w'))
    (alone : ∀ x ∈ after, x.other? = none) :
    ∃ r, w'.store.find? part.oid = some r ∧
      (r.scheduling ≠ .suspended ↔ ∃ c, part.resolution (deeds before) = some c ∧
        c ≠ .suspended ∧ ∃ x ∈ after, x.sets? = some c) ∧
      (w.store.available → (∀ x ∈ after, ¬ x.IsFailure) →
        (r.scheduling ≠ .suspended ↔ ∃ c, part.resolution (deeds before) = some c ∧
          c ≠ .suspended ∧ ∀ x ∈ before, x.sets? = none)) := by
  obtain ⟨s', hrun, hs⟩ := part.program_runs.amid run
  obtain rfl : s' = .finished := hs
  obtain ⟨⟨s, w₁⟩, ⟨s₂, w₂⟩, hbefore, hother, hafter⟩ := hrun.around
  cases hother with
  | other hgoes ho =>
      have bound := fun c => bound_iff (c := c) (shown_run hbefore) hgoes
      have havailable := ho.1.trans (available_run hbefore)
      obtain ⟨-, r₁, r₂, hr₁, -, hr₂, hsuspended⟩ := ho
      obtain ⟨r, hi⟩ := (Since.begin hr₂ hsuspended).run hafter alone
      refine ⟨r, hi.record, ?_, ?_⟩
      · rw [hi.lost_iff]
        constructor
        · intro h
          obtain ⟨c, hs, h⟩ := h
          exact ⟨c, ((bound c).mp hs).1, h⟩
        · intro h
          obtain ⟨c, -, hne, x, hx, hc⟩ := h
          exact ⟨c, (hi.sets x hx c hc).1, hne, x, hx, hc⟩
      · intro hthere serene
        rw [hi.lost_iff_of_serene (havailable ▸ hthere) serene]
        constructor
        · intro h
          obtain ⟨c, hs, hne⟩ := h
          obtain ⟨hresolution, hnone⟩ := (bound c).mp hs
          exact ⟨c, hresolution, hne, hnone⟩
        · intro h
          obtain ⟨c, hresolution, hne, hnone⟩ := h
          exact ⟨c, (bound c).mpr ⟨hresolution, hnone⟩, hne⟩

end

/-! Runs in which the task is ready, and is suspended after so many calls of a part. -/

/-- The part up to the suspension. -/
def earlier (part : Part) (calls : Nat) : History × Action Unit × World :=
  Program.playAmid .aside (List.replicate calls .serve) (part.program, Rehearsal.world)

/-- The part after the suspension. -/
def later (part : Part) (calls : Nat) : History × Action Unit × World :=
  Program.playAmid .aside (List.replicate 3 .serve)
    (Program.playAmid .aside [.change (World.reschedule? part.oid .suspended)]
      (earlier part calls).2).2

theorem played_run (part : Part) (calls : Nat)
    (hgoes : (earlier part calls).2.1.isOver = false)
    (hready : ((earlier part calls).2.2.reschedule? part.oid .suspended).map Prod.fst
      = some (.ready, .suspended))
    (hover : (later part calls).2.1.isOver) :
    Run (Program.Amid .aside (World.Reschedules part.oid)) (part.program, Rehearsal.world)
      ((earlier part calls).1 ++ .other (.ready, .suspended) :: (later part calls).1)
      (.done (), (later part calls).2.2) := by
  obtain ⟨_, hdone⟩ := Program.done_of_isOver hover
  rw [← hdone]
  refine Program.playAmid_around (List.replicate calls .serve) (List.replicate 3 .serve) _ ?_ ?_
    hgoes hready
  · intro f hf
    simp at hf
  · intro w change w' h
    exact (World.onlyReschedules_of_reschedule? h).1

/-- The outcome asks for a suspension itself. -/
def failing : Part :=
  .outcome Rehearsal.task (.ok ⟨.permanentError, some "disk full"⟩) (.new "shuttle.firing")

/-- The task is suspended when the part has read it twice, and once more by the part. -/
theorem suspension_lost_iff_kept :
    Run (Program.Amid .aside (World.Reschedules failing.oid)) (failing.program, Rehearsal.world)
        ((earlier failing 2).1 ++ .other (.ready, .suspended) :: (later failing 2).1)
        (.done (), (later failing 2).2.2) ∧
      (∀ x ∈ (later failing 2).1, x.other? = none) ∧
      failing.resolution (deeds (earlier failing 2).1) = some .suspended ∧
      ∃ r, (later failing 2).2.2.store.find? failing.oid = some r ∧ r.scheduling = .suspended := by
  have run := played_run failing 2 (by decide +kernel) (by decide +kernel) (by decide +kernel)
  have alone : ∀ x ∈ (later failing 2).1, x.other? = none := by decide +kernel
  have resolution : failing.resolution (deeds (earlier failing 2).1) = some .suspended := by
    decide +kernel
  obtain ⟨r, hr, hlost, -⟩ := suspension_lost_iff failing .aside run alone
  refine ⟨run, alone, resolution, r, hr, ?_⟩
  by_contra hne
  obtain ⟨c, hc, hother, -⟩ := hlost.mp hne
  exact hother (Option.some.inj (hc.symm.trans resolution))

/-- The stop action of this part has the task run again. -/
def restarting : Part := .stop Rehearsal.task.oid

/-- A task that was suspended after the part has read it is made ready again. -/
theorem suspension_undone :
    ∃ (part : Part) (w w' : World) (before after : History),
      Run (Program.Amid .aside (World.Reschedules part.oid)) (part.program, w)
        (before ++ .other (.ready, .suspended) :: after) (.done (), w') ∧
      (∀ x ∈ after, x.other? = none) ∧ (∀ x ∈ before, x.sets? = none) ∧
      (w'.store.find? part.oid).map Task.scheduling = some .ready :=
  ⟨restarting, _, _, _, _,
    played_run restarting 1 (by decide +kernel) (by decide +kernel) (by decide +kernel),
    by decide +kernel, by decide +kernel, by decide +kernel⟩

end Suspension
end TaskFiring
