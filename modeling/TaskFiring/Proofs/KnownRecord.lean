import TaskFiring.Proofs.Chronicle
import TaskFiring.Proofs.Holding
import TaskFiring.Proofs.Milestones
import TaskFiring.Proofs.Rehearsal

/-!
What a firing knows of its task when it takes it. It goes by the copy that it loaded first,
or by what it has written itself in repairing that; nothing in between makes it forget the
version. So if versions rise and a record that is gone does not come back, the record that
is replaced by the write that takes the task is what the firing knew, and has been all the
time, and the task was ready as long.
-/

namespace TaskFiring

/-- How far a firing knows the record of its task. -/
inductive Grasp
  | outset
  | refused
  | loaded (t : Task)
  /-- It has written a record in place of the one it had loaded. -/
  | repaired (t u : Task)

namespace Grasp

open Program (Follows Only)
open Starting

/-- The copy that the firing goes by. -/
def copy? : Grasp → Option Task
  | .loaded t | .repaired _ t => some t
  | _ => none

/-- What was loaded was ready. -/
def Checked : Grasp → Prop
  | .loaded t | .repaired t _ => t.isReady
  | _ => False

theorem ne_outset {s : Grasp} {t : Task} (h : s.copy? = some t) : s ≠ .outset := by
  rintro rfl
  cases h

/-- The calls of a firing, as to what it knows. -/
inductive Move (f : Occasion) : Protocol Calls Grasp
  | load {t : Task} : Move f .outset (.get f.oid) (.ok t) (.loaded t)
  | refuse {e : StoreError} : Move f .outset (.get f.oid) (.error e) .refused
  | repair {t u : Task} : t.isReady →
      Move f (.loaded t) (.modify t.oid Preparation.repairDelta (.version t.version)) (.ok u)
        (.repaired t u)
  | take {s : Grasp} {t : Task} {a : Except StoreError Task} : s.copy? = some t → s.Checked →
      Move f s (.modify t.oid (Possession.runningDelta f.nodeId) (.version t.version)) a s
  | rest {s : Grasp} {r : Call} {a : r.Response} : s ≠ .outset → r.AssignsNone → Move f s r a s

/-- A part of a firing, whatever it is answered. -/
abbrev Runs {α : Type} (f : Occasion) (p : Action α) (s : Grasp) (Q : Grasp → α → Prop) : Prop :=
  p.Follows (fun _ _ => True) (Move f) s Q

section

variable {α : Type} {f : Occasion} {p : Action α} {s : Grasp} {t : Task}

theorem runs_of_assignsNone (hs : s ≠ .outset) (hp : p.Only Call.AssignsNone) :
    Runs f p s fun s' _ => s' = s :=
  hp.follows fun _ _ hr => .rest hs hr

theorem runs_of_startsNone (hs : s ≠ .outset) (hp : p.Only Call.StartsNone) :
    Runs f p s fun s' _ => s' = s :=
  runs_of_assignsNone hs (assignsNone hp)

theorem load_runs : Runs f (Preparation.load f.oid).run .outset fun s r =>
    ∀ snapshot, r = .ok snapshot → s = .loaded snapshot.task := by
  unfold Preparation.load
  refine Follows.query fun answer _ => ?_
  cases answer with
  | error e =>
      refine ⟨.refused, .refuse, ?_⟩
      cases e with
      | notFound oid =>
          refine Follows.query fun _ _ => ⟨.refused, .rest nofun trivial, ?_⟩
          exact fun _ h => nomatch h
      | conflict _ _ _ | preconditionFailed _ _ | backend _ => exact fun _ h => nomatch h
  | ok t =>
      refine ⟨.loaded t, .load, ?_⟩
      refine Follows.attempt (runs_of_startsNone nofun
        (startsNone_of_aside (Course.ancestor_aside _ _ _ _ _))) ?_ fun _ _ _ _ h => nomatch h
      rintro _ root rfl snapshot ⟨⟩
      rfl

theorem ensureReady_runs (hs : s ≠ .outset) :
    Runs f (Preparation.ensureReady t).run s fun s' r =>
      s' = s ∧ ∀ u, r = .ok u → t.isReady := by
  unfold Preparation.ensureReady
  by_cases ready : t.isReady
  · rw [if_pos ready]
    exact ⟨rfl, fun _ _ => ready⟩
  · rw [if_neg ready]
    intro answer _
    refine ⟨s, .rest hs trivial, ?_⟩
    cases answer <;> exact ⟨rfl, fun _ h => nomatch h⟩

theorem repair_runs {here : NodeId} {recovering : Bool} (ready : t.isReady) :
    Runs f (Preparation.repair here t recovering).run (.loaded t) fun s r =>
      ∀ u, r = .ok u → s.copy? = some u ∧ s.Checked := by
  unfold Preparation.repair
  refine Follows.query fun found _ => ⟨.loaded t, .rest nofun trivial, ?_⟩
  by_cases live : Preparation.isLive t here found.isSome recovering || Preparation.isClean t
  · rw [if_pos live]
    rintro u ⟨⟩
    exact ⟨rfl, ready⟩
  · rw [if_neg live]
    refine Follows.query fun answer _ => ?_
    cases answer with
    | ok u =>
        refine ⟨.repaired t u, .repair ready, ?_⟩
        rintro _ ⟨⟩
        exact ⟨rfl, ready⟩
    | error e =>
        have kept : Call.AssignsNone
            (.modify t.oid Preparation.repairDelta (.version t.version)) :=
          fun _ h => nomatch h
        refine ⟨.loaded t, .rest nofun kept, ?_⟩
        cases e <;> exact fun _ h => nomatch h

theorem prepare_runs : Runs f (Firing.prepare f.node f.oid f.recovering).run .outset fun s r =>
    ∀ g, r = .ok g → s.copy? = some g.task ∧ s.Checked := by
  unfold Firing.prepare
  refine Follows.attempt load_runs ?_ fun _ _ _ _ h => nomatch h
  intro s snapshot hs
  obtain rfl := hs snapshot rfl
  refine Follows.attempt (ensureReady_runs nofun) ?_ fun _ _ _ _ h => nomatch h
  rintro _ ⟨⟩ ⟨rfl, ready⟩
  refine Follows.attempt (repair_runs (ready () rfl)) ?_ fun _ _ _ _ h => nomatch h
  intro s t hs
  obtain ⟨hcopy, checked⟩ := hs t rfl
  have known := ne_outset hcopy
  refine Follows.attempt (runs_of_startsNone known (ensureSchedulerRunning_startsNone _)) ?_
    fun _ _ _ _ h => nomatch h
  rintro _ ⟨⟩ rfl
  refine Follows.attempt (runs_of_startsNone known (applyRecoveryPolicy_startsNone _ _)) ?_
    fun _ _ _ _ h => nomatch h
  rintro _ ⟨⟩ rfl
  refine Follows.attempt (runs_of_startsNone known
    (startsNone_of_aside (Course.enforce_aside _ _ _))) ?_ fun _ _ _ _ h => nomatch h
  rintro s ⟨⟩ rfl
  refine Follows.query fun h _ => ⟨s, .rest known trivial, ?_⟩
  rintro g ⟨⟩
  exact ⟨hcopy, checked⟩

theorem start_runs (hcopy : s.copy? = some t) (checked : s.Checked) :
    Runs f (Possession.start t f.nodeId).run s fun s' _ => s' = s := by
  unfold Possession.start
  refine Follows.query fun answer _ => ⟨s, .take hcopy checked, ?_⟩
  cases answer with
  | ok u => exact rfl
  | error e =>
      cases e with
      | conflict o expected actual =>
          refine Follows.lift (runs_of_startsNone (ne_outset hcopy)
            (startsNone_of_aside (Course.lostRace_aside _ _))) ?_
          rintro _ stop rfl
          exact rfl
      | notFound _ | preconditionFailed _ _ | backend _ => exact rfl

theorem runRegistered_runs {g : Firing} (hcopy : s.copy? = some g.task) (checked : s.Checked) :
    Runs f (Firing.runRegistered f.node g) s fun s' _ => s' = s := by
  unfold Firing.runRegistered
  refine (start_runs hcopy checked).bind ?_
  rintro _ started rfl
  cases started with
  | error stop => exact rfl
  | ok t => exact runs_of_assignsNone (ne_outset hcopy) (runStarted_assignsNone _ _)

theorem runPrepared_runs {g : Firing} (hcopy : s.copy? = some g.task) (checked : s.Checked) :
    Runs f (Firing.runPrepared f.node g) s fun _ _ => True := by
  have known := ne_outset hcopy
  unfold Firing.runPrepared
  refine (runs_of_startsNone known (guard_startsNone _ _)).bind ?_
  rintro s guarded rfl
  cases guarded with
  | error stop => trivial
  | ok u =>
      refine Follows.ask fun registered _ => ⟨s, .rest known trivial, ?_⟩
      cases registered with
      | false => trivial
      | true =>
          refine Follows.ask fun shutDown _ => ⟨s, .rest known trivial, ?_⟩
          have rest : Runs f
              ((Firing.runRegistered f.node g).bind fun e => Firing.finish f.node e.1 e.2) s
              fun _ _ => True := by
            refine (runRegistered_runs hcopy checked).bind ?_
            rintro _ e rfl
            exact (runs_of_startsNone known (finish_startsNone _ _ _)).mono fun _ _ _ => trivial
          cases shutDown with
          | false => exact rest
          | true =>
              refine (runs_of_startsNone known
                (startsNone_of_aside (Course.interrupt_aside _ _))).bind ?_
              rintro _ ⟨⟩ rfl
              exact rest

/-- A firing knows what it takes. -/
theorem program_runs (f : Occasion) : Runs f f.program .outset fun _ _ => True := by
  unfold Occasion.program Node.fire
  refine prepare_runs.bind ?_
  intro s prepared hs
  cases prepared with
  | error stop => trivial
  | ok g =>
      obtain ⟨hcopy, checked⟩ := hs g rfl
      exact runPrepared_runs hcopy checked

end

/-! What a firing knows, by its deeds. -/

section

variable {f : Occasion} {s s' : Grasp} {ds : List Deed} {q : Action FiringOutcome}

/-- The deed by which the firing has loaded its task. -/
abbrev loading (f : Occasion) (t : Task) : Deed := .answered (.get f.oid) (.ok t)

/-- The deed by which it has repaired what it had loaded. -/
abbrev repairing (t u : Task) : Deed :=
  .answered (.modify t.oid Preparation.repairDelta (.version t.version)) (.ok u)

/-- What the firing has done to know the record so far. -/
def Told (f : Occasion) (ds : List Deed) : Grasp → Prop
  | .outset => ds = []
  | .refused => True
  | .loaded t => ∃ later, ds = loading f t :: later
  | .repaired t u => ∃ between later, ds = loading f t :: between ++ repairing t u :: later

/-- First of all it has loaded its task. -/
theorem Told.loads {u : Task} (h : Told f ds s) (hcopy : s.copy? = some u) :
    ∃ t later, ds = loading f t :: later := by
  cases s with
  | outset | refused => cases hcopy
  | loaded t =>
      obtain ⟨later, rfl⟩ := h
      exact ⟨t, later, rfl⟩
  | repaired t u =>
      obtain ⟨between, later, rfl⟩ := h
      exact ⟨t, _, rfl⟩

/-- Nothing that it does makes it forget. -/
theorem Told.append (h : Told f ds s) (hs : s ≠ .outset) (ds' : List Deed) :
    Told f (ds ++ ds') s := by
  cases s with
  | outset => exact absurd rfl hs
  | refused => trivial
  | loaded t =>
      obtain ⟨later, rfl⟩ := h
      exact ⟨later ++ ds', rfl⟩
  | repaired t u =>
      obtain ⟨between, later, rfl⟩ := h
      exact ⟨between, later ++ ds', by simp⟩

theorem Told.move {r : Call} {a : r.Response} (h : Told f ds s) (hm : Move f s r a s') :
    Told f (ds ++ [.answered r a]) s' := by
  cases hm with
  | load =>
      obtain rfl : ds = [] := h
      exact ⟨[], rfl⟩
  | refuse => trivial
  | repair =>
      obtain ⟨later, rfl⟩ := h
      exact ⟨later, [], rfl⟩
  | take hcopy _ => exact h.append (ne_outset hcopy) _
  | rest hs _ => exact h.append hs _

/-- Along its way a firing knows what its deeds have told it. -/
theorem told_along (hw : f.program.Way ds q) :
    ∃ s, Told f ds s ∧ Runs f q s fun _ _ => True := by
  induction hw with
  | nil => exact ⟨.outset, rfl, program_runs f⟩
  | snoc _ hd ih =>
      obtain ⟨s, told, runs⟩ := ih
      cases hd with
      | @answered r next a =>
          obtain ⟨s', hm, hnext⟩ := runs a trivial
          exact ⟨s', told.move hm, hnext⟩
      | @gathered h result _ closed _ batch _ next =>
          -- a wait for children tells it nothing, wherever it stands
          have kept (a : OperationResult × Nat) :
              s ≠ .outset ∧ Runs f (next a) s fun _ _ => True := by
            obtain ⟨s', hm, hnext⟩ := runs a trivial
            cases hm with
            | rest hs _ => exact ⟨hs, hnext⟩
          have known := (kept (result, closed)).1
          exact ⟨s, told.append known _, fun a _ => ⟨s, .rest known trivial, (kept a).2⟩⟩

/-- A firing that takes its task goes by a copy that it knows, and that was ready. -/
theorem told_of_taking {v : UInt64} {t : Task}
    (hw : f.program.Way (ds ++ [Milestones.taking f v t]) q) :
    ∃ s u, Told f ds s ∧ s.copy? = some u ∧ s.Checked ∧ v = u.version := by
  obtain ⟨q', hway, hlast⟩ := hw.last
  obtain ⟨s, told, runs⟩ := told_along hway
  generalize hd : Milestones.taking f v t = d at hlast
  cases hlast with
  | gathered => cases hd
  | answered =>
      cases hd
      obtain ⟨s', hm, -⟩ := runs (.ok t) trivial
      generalize hdelta : Possession.runningDelta f.nodeId = d at hm
      generalize hv : Precondition.version v = c at hm
      generalize f.oid = oid at hm
      cases hm with
      | repair => cases congrArg TaskDelta.node hdelta
      | take hcopy checked =>
          cases hv
          exact ⟨s, _, told, hcopy, checked, rfl⟩
      | rest _ hr =>
          subst hdelta
          exact absurd rfl (hr f.nodeId)

end

/-! What it knows is so. -/

section

variable {ι : Type} [DecidableEq ι] {crew : ι → Occasion} {c c' : Scene ι}
  {before : List (Change ι)} {i : ι} {t u r : Task}

/-- The firing knew the record. Since it had loaded a copy, the first thing it did, the
record has been that copy or what the firing has written in repairing it, and ready. -/
def Foreseen (crew : ι → Occasion) (i : ι) (before : List (Change ι)) (r : Task) : Prop :=
  ∃ earlier load between t, before = earlier ++ load :: between ∧
    deedsOf i (earlier.map Change.event) = [] ∧
    load.event = .deed i (loading (crew i) t) ∧
    (r = t ∨ ∃ y ∈ between, y.event = .deed i (repairing t r)) ∧ r.isReady ∧
    ∀ y ∈ load :: between, ∃ r', y.after.store.find? (crew i).oid = some r' ∧
      (r' = t ∨ r' = r) ∧ r'.isReady

variable (hr : Run (Scene.Changes crew (World.Amends (crew i).oid)) c before c')
  (hv : ∀ x ∈ before, x.NoWrap (crew i).oid)
  (h : c'.world.store.find? (crew i).oid = some r)

include hr hv h

theorem foreseen_of_loaded (told : Told (crew i) (deedsOf i (before.map Change.event)) (.loaded t))
    (ready : t.isReady) (hs : Store.violation? r (.version t.version) = none) :
    Foreseen crew i before r := by
  obtain ⟨later, hds⟩ := told
  obtain ⟨earlier, load, between, rfl, hearlier, hload, -⟩ :=
    exists_first_change_of_deedsOf hds
  obtain ⟨c₁, c₂, -, hstep, hbetween⟩ := hr.around
  have hv' : ∀ x ∈ between, x.NoWrap (crew i).oid := fun x hx => hv x (by simp [hx])
  obtain ⟨he, -, hafter⟩ := hstep
  rw [hload] at he
  obtain ⟨hw, hg⟩ := he.answers.get
  have hread : c₂.world.store.find? (crew i).oid = some t := by
    rw [hw]
    exact Store.get_ok hg.symm
  obtain ⟨rfl, steady⟩ := Change.unmoved hbetween (fun _ _ h => h) hv' hread h hs
  refine ⟨earlier, load, between, r, rfl, hearlier, hload, .inl rfl, ready, fun y hy => ?_⟩
  refine ⟨r, ?_, .inl rfl, ready⟩
  rcases List.mem_cons.mp hy with rfl | hy
  · rw [hafter]
    exact hread
  · exact steady y hy

theorem foreseen_of_repaired
    (told : Told (crew i) (deedsOf i (before.map Change.event)) (.repaired t u))
    (ready : t.isReady) (hs : Store.violation? r (.version u.version) = none) :
    Foreseen crew i before r := by
  obtain ⟨later₁, later₂, hds⟩ := told
  obtain ⟨earlier, load, between, rfl, hearlier, hload, hlater⟩ :=
    exists_first_change_of_deedsOf hds
  obtain ⟨between₁, repair, between₂, rfl, -, hrepair, -⟩ := exists_change_of_deedsOf hlater
  obtain ⟨c₁, c₂, -, ⟨hload', -, hafter⟩, hrest⟩ := hr.around
  obtain ⟨c₃, c₄, h₁, ⟨hrepair', -, hafter'⟩, h₂⟩ := hrest.around
  have hv₁ : ∀ x ∈ between₁, x.NoWrap (crew i).oid := fun x hx => hv x (by simp [hx])
  have hv₂ : ∀ x ∈ between₂, x.NoWrap (crew i).oid := fun x hx => hv x (by simp [hx])
  rw [hload] at hload'
  obtain ⟨hw, hg⟩ := hload'.answers.get
  have hread : c₂.world.store.find? (crew i).oid = some t := by
    rw [hw]
    exact Store.get_ok hg.symm
  rw [hrepair] at hrepair'
  have ha := hrepair'.answers
  rw [Store.oid_of_find? hread] at ha
  obtain ⟨r₁, hr₁, hs₁, hu, hwritten⟩ := ha.replaced
  obtain ⟨rfl, steady₁⟩ := Change.unmoved h₁ (fun _ _ h => h) hv₁ hread hr₁ hs₁
  obtain ⟨rfl, steady₂⟩ := Change.unmoved h₂ (fun _ _ h => h) hv₂ hwritten h hs
  have ready' : r.isReady := by
    rw [hu]
    exact ready
  refine ⟨earlier, load, _, r₁, rfl, hearlier, hload, .inr ⟨repair, by simp, hrepair⟩, ready',
    fun y hy => ?_⟩
  rcases List.mem_cons.mp hy with rfl | hy
  · exact ⟨r₁, by rw [hafter]; exact hread, .inl rfl, ready⟩
  rcases List.mem_append.mp hy with hy | hy
  · exact ⟨r₁, steady₁ y hy, .inl rfl, ready⟩
  rcases List.mem_cons.mp hy with rfl | hy
  · exact ⟨r, by rw [hafter']; exact hwritten, .inr rfl, ready'⟩
  · exact ⟨r, steady₂ y hy, .inr rfl, ready'⟩

theorem foreseen {s : Grasp} (told : Told (crew i) (deedsOf i (before.map Change.event)) s)
    (hcopy : s.copy? = some u) (checked : s.Checked)
    (hs : Store.violation? r (.version u.version) = none) : Foreseen crew i before r := by
  cases s with
  | outset | refused => cases hcopy
  | loaded t =>
      cases hcopy
      exact foreseen_of_loaded hr hv h told checked hs
  | repaired t u' =>
      cases hcopy
      exact foreseen_of_repaired hr hv h told checked hs

end

/-- A handler runs while its firing holds the task. -/
theorem holds_of_isHandlers {f : Occasion} {allowed : HandlerCall → Prop} {p p' : Phase}
    {q : Call} {a : q.Response} (hm : Phase.Move f allowed p q a p') (hq : q.isHandlers) :
    p.Holds := by
  cases hm with
  | aside h =>
      cases q with
      | isInterrupted | handler => cases h
      | _ => cases hq
  | invoke | handler _ => trivial
  | _ => cases hq

section

variable {ι : Type} [DecidableEq ι] {crew : ι → Occasion} {outside : World → World → Prop}
  {w : World} {c c' : Scene ι} {xs : List (Change ι)} {i : ι}

/-- What a firing has done before it takes its task. -/
theorem told_of_takes {v : UInt64} {t : Task}
    (hr : Run (Scene.Changes crew outside) (.begin crew w) xs c)
    (he : c.Step crew outside (.deed i (Milestones.taking (crew i) v t)) c') :
    ∃ s u, Told (crew i) (deedsOf i (xs.map Change.event)) s ∧ s.copy? = some u ∧ s.Checked ∧
      v = u.version := by
  have way := Scene.way_of_run ((Scene.events_of_changes hr).snoc he) i
  rw [deedsOf_append, deedsOf_own, deedsOf_nil] at way
  exact told_of_taking way

/-- Before its handler runs a firing has taken its task. -/
theorem takes_of_handlers {q : Call} {a : q.Response}
    (hr : Run (Scene.Changes crew outside) (.begin crew w) xs c)
    (he : c.Step crew outside (.deed i (.answered q a)) c') (hq : q.isHandlers) :
    ∃ x ∈ xs, x.event.Takes (crew i) i := by
  have keeps := fun i => (crew i).node.keepsTo_true
  obtain ⟨s, hstage, hshown⟩ :=
    Scene.run_shown (Scene.begin_shown keeps w) (Scene.events_of_changes hr)
  obtain ⟨s', hstep, -⟩ := Scene.step_shown hshown he
  have holds : (s.phase i).Holds := by
    cases hstep with
    | answered _ hm => exact holds_of_isHandlers hm hq
  obtain ⟨e, hmem, htakes⟩ := Stage.takes_of_holds hstage holds
  obtain ⟨x, hx, rfl⟩ := List.mem_map.mp hmem
  exact ⟨x, hx, htakes⟩

end

end Grasp

/-- The write by which a firing takes its task replaces what the firing knew, whatever else
was written meanwhile; the task is ready then, and has been since the firing had loaded it.
Without that write no handler runs. -/
theorem takes_what_it_knows {ι : Type} [DecidableEq ι] {crew : ι → Occasion} {w : World}
    {c : Scene ι} {xs before after : List (Change ι)} {x : Change ι} {i : ι}
    (hr : Run (Scene.Changes crew (World.Amends (crew i).oid)) (.begin crew w) xs c)
    (hv : ∀ x ∈ xs, x.NoWrap (crew i).oid) (hx : xs = before ++ x :: after) :
    (x.event.Takes (crew i) i → ∃ r, x.before.store.find? (crew i).oid = some r ∧
      x.after.store.find? (crew i).oid
        = some (Store.written r (Possession.runningDelta (crew i).nodeId)) ∧
      Grasp.Foreseen crew i before r) ∧
    ∀ (q : Call) (a : q.Response), x.event = .deed i (.answered q a) → q.isHandlers →
      ∃ y ∈ before, y.event.Takes (crew i) i := by
  subst hx
  obtain ⟨c₁, c₂, hbefore, ⟨he, hb, ha⟩, -⟩ := hr.around
  have hv' : ∀ x ∈ before, x.NoWrap (crew i).oid := fun x hx => hv x (by simp [hx])
  constructor
  · rintro ⟨v, t', htakes⟩
    rw [htakes] at he
    obtain ⟨s, u, told, hcopy, checked, rfl⟩ := Grasp.told_of_takes hbefore he
    obtain ⟨r, hrecord, hs, hwritten, hafter⟩ := he.answers.replaced
    refine ⟨r, by rw [hb]; exact hrecord, by rw [ha, ← hwritten]; exact hafter, ?_⟩
    exact Grasp.foreseen hbefore hv' hrecord told hcopy checked hs
  · intro q a hq handlers
    rw [hq] at he
    exact Grasp.takes_of_handlers hbefore he handlers

namespace Grasp

/-- The task as a dead run on the same node may have left it. -/
def world : World where
  now := default
  store :=
    { tasks := Table.empty.put
        { Rehearsal.task with execution := .running, node := some ⟨"a"⟩ } }

abbrev crew (_ : Unit) : Occasion := Rehearsal.occasion "a" (.done (.ok .finished))

/-- The task is suspended and made ready again, and then taken. -/
abbrev played : List (Event Unit) × Scene Unit :=
  Scene.play crew
    (.change (Rehearsal.reschedule .suspended) :: .change (Rehearsal.reschedule .ready) ::
      List.replicate 9 (.go ()))
    (.begin crew world)

theorem played_run :
    Run (Scene.Step crew (World.Amends Rehearsal.task.oid)) (.begin crew world) played.1
      played.2 := by
  refine Scene.play_run _ _ fun f hf w => ?_
  obtain rfl | rfl : f = Rehearsal.reschedule .suspended ∨ f = Rehearsal.reschedule .ready := by
    simpa using hf
  · exact World.disturb_amends _
  · exact World.disturb_amends _

theorem played_takes :
    ∃ before e, played.1 = before ++ [e] ∧ e.Takes (crew ()) () :=
  ⟨played.1.take 10, _, rfl, ⟨3, _, rfl⟩⟩

end Grasp

/-- So it is where the record has been repaired before. -/
theorem takes_what_it_knows_of_played :
    ∃ (before : List (Change Unit)) (x : Change Unit) (c : Scene Unit) (r : Task),
      Run (Scene.Changes Grasp.crew (World.Amends Rehearsal.task.oid))
        (.begin Grasp.crew Grasp.world) (before ++ [x]) c ∧
      x.event.Takes (Grasp.crew ()) () ∧
      x.before.store.find? Rehearsal.task.oid = some r ∧
      Grasp.Foreseen Grasp.crew () before r := by
  obtain ⟨xs, hevents, hr⟩ := Scene.changes_of_events Grasp.played_run
  obtain ⟨es, e, hplayed, htakes⟩ := Grasp.played_takes
  have short : xs.length = 11 := by
    rw [← List.length_map (f := Change.event), hevents]
    rfl
  have fresh : ∀ r, Grasp.world.store.find? Rehearsal.task.oid = some r →
      r.version.toNat ≤ 0 := by
    rintro r ⟨⟩
    exact Nat.le_refl _
  have fits : 0 + xs.length < UInt64.size := by
    rw [short]
    decide
  have hv := (Change.noWrap_of_short hr (fun _ _ h => h) fits fresh).1
  rw [hplayed] at hevents
  obtain ⟨before, last, rfl, -, hlast⟩ := List.map_eq_append_iff.mp hevents
  obtain ⟨x, rfl, rfl⟩ := List.map_eq_singleton_iff.mp hlast
  obtain ⟨r, hrecord, -, foreseen⟩ := (takes_what_it_knows (i := ()) hr hv rfl).1 htakes
  exact ⟨before, x, _, r, hr, htakes, hrecord, foreseen⟩

end TaskFiring
