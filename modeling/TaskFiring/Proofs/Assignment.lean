import TaskFiring.Proofs.Holding
import TaskFiring.Proofs.Rehearsal

/-!
Running tasks and their nodes. A task that is stored as running names its node, as long
as no firing lets go of it by a write that leaves the execution state out although
another firing has started the task since the copy was read. The runs that keep every
running task assigned are exactly those without such a write.
-/

namespace TaskFiring

/-- A task that runs has a node. -/
def Task.Assigned (t : Task) : Prop := t.execution = .running → t.node ≠ none

def Store.Assigned (s : Store) : Prop := ∀ oid t, s.find? oid = some t → t.Assigned

/-- A call by which a handler neither gives up the node of a task nor says that the task
runs. It may put its own task into waiting. -/
def HandlerCall.KeepsNodes : HandlerCall → Prop
  | .disturb (.write _ d) => d.execution ≠ some .running ∧ d.node = none
  | _ => True

namespace World

/-- No task is made running and no running task gets another node. -/
def Calms (w w' : World) : Prop :=
  ∀ oid t', w'.store.find? oid = some t' → ∃ t, w.store.find? oid = some t ∧
    (t'.execution = .running → t.execution = .running ∧ t'.node = t.node)

/-- An administrator has changed scheduling states, and besides anything but records. -/
def Administers (w w' : World) : Prop :=
  ∀ oid, w'.store.find? oid = w.store.find? oid ∨
    ∃ t s, w.store.find? oid = some t ∧
      w'.store.find? oid = some (Store.written t { scheduling := some s })

section

variable {w w' : World} {place : Place} {oid : TaskOid} {d : TaskDelta}

theorem calms_of_find? (h : ∀ oid, w'.store.find? oid = w.store.find? oid) :
    w.Calms w' := by
  intro oid t ht
  rw [h] at ht
  exact ⟨t, ht, fun hr => ⟨hr, rfl⟩⟩

theorem Administers.calms (h : w.Administers w') : w.Calms w' := by
  intro oid t' ht
  rcases h oid with hs | ⟨t, s, hf, hs⟩
  · exact ⟨t', by rw [← hs, ht], fun hr => ⟨hr, rfl⟩⟩
  · obtain rfl : _ = t' := Option.some.inj (hs.symm.trans ht)
    exact ⟨t, hf, fun hr => ⟨hr, rfl⟩⟩

theorem administers_reschedule (w : World) (s : SchedulingState) :
    w.Administers (Rehearsal.reschedule s w) := by
  intro oid
  have hs : (Rehearsal.reschedule s w).store
      = (w.store.modify Rehearsal.task.oid { scheduling := some s } .always).2 := rfl
  rw [hs]
  rcases w.store.modify_cases Rehearsal.task.oid { scheduling := some s } .always with
    ⟨e, hm⟩ | ⟨r, s', hm, hr, -, -, hf⟩
  · exact .inl (by rw [hm])
  · rw [hm]
    simp only [hf]
    split
    · next ho =>
      subst ho
      exact .inr ⟨r, s, hr, rfl⟩
    · exact .inl rfl

theorem Calms.assigned (h : w.Calms w') (hw : w.store.Assigned) : w'.store.Assigned := by
  intro oid t' ht hr
  obtain ⟨t, hf, hk⟩ := h oid t' ht
  rw [(hk hr).2]
  exact hw oid t hf (hk hr).1

/-- A write that says nothing of the node, or that says of the execution state that the
task does not run. -/
theorem calms_of_modify {c : Precondition} (h : w'.store = (w.store.modify oid d c).2)
    (he : d.execution ≠ some .running) (hd : d.execution = none → d.node = none) :
    w.Calms w' := by
  rcases w.store.modify_cases oid d c with ⟨e, hm⟩ | ⟨r, s', hm, hr, -, -, hf⟩
  · exact calms_of_find? fun oid => by rw [h, hm]
  · intro oid' t' ht
    rw [h, hm] at ht
    simp only [hf] at ht
    split at ht
    · next ho =>
      subst ho
      cases ht
      refine ⟨r, hr, fun hrun => ?_⟩
      obtain ⟨hx, hrun⟩ := Store.running_of_written he hrun
      exact ⟨hrun, by simp [Store.written, TaskDelta.apply, hd hx]⟩
    · exact ⟨t', ht, fun hr => ⟨hr, rfl⟩⟩

theorem Answers.calms {c : Precondition} {a : Except StoreError Task}
    (ha : w.Answers place (.modify oid d c) a w') (he : d.execution ≠ some .running)
    (hd : d.execution = none → d.node = none) : w.Calms w' :=
  calms_of_modify (by rw [ha.modify.2]) he hd

theorem Answers.calms_of_error {c : Precondition} {e : StoreError}
    (ha : w.Answers place (.modify oid d c) (.error e) w') : w.Calms w' :=
  calms_of_find? fun _ => by rw [Store.eq_of_modify_error ha.modify.2]

theorem Answers.handler_calms {h : HandleId} {call : HandlerCall}
    {a : Option call.Response} (ha : w.Answers place (.handler h oid call) a w')
    (hc : call.KeepsNodes) : w.Calms w' := by
  rcases ha.handler_cases with hw | ⟨b, -, -, hm⟩ | ⟨d, rfl, rfl⟩
  · exact calms_of_find? fun _ => by rw [hw.store]
  · exact calms_of_modify (d := waitingDelta) (by rw [hm]) nofun nofun
  · cases d with
    | write oid d => exact calms_of_modify (d := d) rfl hc.1 fun _ => hc.2
    | remove oid =>
        intro oid' t ht
        have hf := (Table.find?_erase w.store.tasks oid oid').symm.trans ht
        split at hf
        · cases hf
        · exact ⟨t, hf, fun hr => ⟨hr, rfl⟩⟩
    | storeAvailable _ | triggerFailing _ | advance _ => exact calms_of_find? fun _ => rfl

end

end World

namespace Possession

/-- Letting go never says that the task runs, and says nothing only of one that does not. -/
theorem settlingDelta_execution (t : Task) :
    (settlingDelta t).execution ≠ some .running ∧
      ((settlingDelta t).execution = none → t.execution ≠ .running) := by
  unfold settlingDelta
  cases t.scheduling <;> cases t.execution <;> decide

end Possession

section

variable {ι : Type} (crew : ι → Occasion)

/-- The firing reads its task. -/
def Event.reads (f : Occasion) (i : ι) (t : Task) : Event ι :=
  .deed i (.answered (.get f.oid) (.ok t))

/-- The firing lets go of its task as it was read, which leaves this record. -/
def Event.settles (f : Occasion) (i : ι) (read : Task) (p : Precondition) (t : Task) :
    Event ι :=
  .deed i (.answered (.modify f.oid (Possession.settlingDelta read) p) (.ok t))

/-- Another firing of the same task has started it. -/
def StartedByOther (i : ι) (es : List (Event ι)) : Prop :=
  ∃ j, j ≠ i ∧ (crew j).oid = (crew i).oid ∧ ∃ e ∈ es, e.Takes (crew j) j

/-- A firing has read its task and let go of it as it was read, without a word on the
execution state, when another firing had started the task in between and it was running
still. -/
def Overtaken (es : List (Event ι)) : Prop :=
  ∃ i read p t before between after,
    es = before ++ Event.reads (crew i) i read ::
      (between ++ Event.settles (crew i) i read p t :: after) ∧
    StartedByOther crew i between ∧ (Possession.settlingDelta read).execution = none ∧
    t.execution = .running

theorem StartedByOther.append {crew : ι → Occasion} {i : ι} {es : List (Event ι)}
    (h : StartedByOther crew i es) (es' : List (Event ι)) :
    StartedByOther crew i (es ++ es') := by
  obtain ⟨j, hj, ho, e, he, ht⟩ := h
  exact ⟨j, hj, ho, e, List.mem_append_left _ he, ht⟩

theorem Overtaken.append {crew : ι → Occasion} {es : List (Event ι)} (h : Overtaken crew es)
    (es' : List (Event ι)) : Overtaken crew (es ++ es') := by
  obtain ⟨i, read, p, t, before, between, after, rfl, h⟩ := h
  exact ⟨i, read, p, t, before, between, after ++ es', by simp, h⟩

end

namespace Assignment

section

variable {ι : Type} [DecidableEq ι] {crew : ι → Occasion} {s s' : Stage ι} {es : List (Event ι)}
  {e : Event ι}

/-- What a stage shows of the events up to it: of a firing that lets go of its task, when
it read the copy it goes by, and that the task has not been started since unless another
firing did. -/
structure Inv (crew : ι → Occasion) (es : List (Event ι)) (s : Stage ι) : Prop where
  assigned : s.world.store.Assigned
  settling : ∀ i h read, s.phase i = .busy (.held h) (.settling read) →
    ∃ before between, es = before ++ Event.reads (crew i) i read :: between ∧
      ∀ t, s.world.store.find? (crew i).oid = some t → t.execution = .running →
        read.execution = .running ∨ StartedByOther crew i between

/-- What a step may do to the records: nothing that matters, or start a task, or write
only the node of one. -/
inductive Effect (crew : ι → Occasion) (s : Stage ι) (w : World) : Event ι → Prop
  | calm {e : Event ι} : s.world.Calms w → Effect crew s w e
  | started {e : Event ι} {i : ι} {t : Task} {h : HandleId} :
      e.Takes (crew i) i → s.phase i = .registered t h →
      (∀ oid t, w.store.find? oid = some t → (oid = (crew i).oid ∧ t.node ≠ none) ∨
        s.world.store.find? oid = some t) → Effect crew s w e
  | settled {i : ι} {h : HandleId} {read t t' : Task} {p : Precondition} :
      s.phase i = .busy (.held h) (.settling read) →
      (Possession.settlingDelta read).execution = none →
      s.world.store.find? (crew i).oid = some t → t'.execution = t.execution →
      (∀ oid r, w.store.find? oid = some r → oid = (crew i).oid ∧ r = t' ∨
        s.world.store.find? oid = some r) →
      Effect crew s w (Event.settles (crew i) i read p t')

theorem effect_of_step {outside : World → World → Prop}
    (ho : ∀ w w', outside w w' → w.Calms w')
    (he : s.Step crew HandlerCall.KeepsNodes outside e s') : Effect crew s s'.world e := by
  cases he with
  | gathered hw =>
      exact .calm (World.calms_of_find? fun _ => by rw [hw.store])
  | outside hw => exact .calm (ho _ _ hw)
  | @answered i r a p w ha hm =>
      generalize hq : s.phase i = q at hm
      have quiet (hr : ¬ r.MayWrite) : Effect crew s w (.deed i (.answered r a)) :=
        .calm (World.calms_of_find? fun _ => by rw [ha.store hr])
      cases hm with
      | aside hr => exact .calm (World.calms_of_find? fun _ => by rw [(ha.agrees hr).store])
      | load | spare | doubt | halt | recoverClosing | recoverSuspending | enter | look
      | register | notRegistered | invoke | decide | readToClose | readToSuspend | forget
      | readToSettle | giveUp | deregister => exact quiet id
      | handler hcall => exact .calm (ha.handler_calms hcall)
      | repair | notRepaired => exact .calm (ha.calms nofun nofun)
      | wake | record => exact .calm (ha.calms nofun fun _ => rfl)
      | notStarted | notSettled | neverSettled => exact .calm ha.calms_of_error
      | close =>
          refine .calm (ha.calms ?_ fun _ => rfl)
          simp only [Administration.closingDelta]
          split <;> nofun
      | suspend =>
          refine .calm (ha.calms ?_ fun _ => rfl)
          simp only [Administration.suspendingDelta]
          split <;> nofun
      | start =>
          obtain ⟨-, r, hr, -, rfl, hf⟩ := Store.modify_ok ha.modify.2
          refine .started ⟨_, _, rfl⟩ hq fun oid t ht => ?_
          rw [hf] at ht
          split at ht
          · next ho =>
            cases ht
            exact .inl ⟨ho.symm, nofun⟩
          · exact .inr ht
      | @settle h read t' p hp =>
          by_cases hx : (Possession.settlingDelta read).execution = none
          · obtain ⟨-, r, hr, -, rfl, hf⟩ := Store.modify_ok ha.modify.2
            have same : (Store.written r (Possession.settlingDelta read)).execution
                = r.execution := by
              simp [Store.written, TaskDelta.apply, hx]
            refine .settled hq hx hr same fun oid t ht => ?_
            rw [hf] at ht
            split at ht
            · next ho =>
              cases ht
              exact .inl ⟨ho.symm, rfl⟩
            · exact .inr ht
          · exact .calm (ha.calms (Possession.settlingDelta_execution read).1 fun h =>
              absurd h hx)

omit [DecidableEq ι] in
/-- How a firing comes to let go of its task by a copy: it did already, or has just read
the copy. -/
theorem settling_origin {f : Occasion} {allowed : HandlerCall → Prop} {q : Phase} {r : Call}
    {a : r.Response} {h : HandleId} {read : Task} {i : ι}
    (hm : Phase.Move f allowed q r a (.busy (.held h) (.settling read))) :
    q = .busy (.held h) (.settling read) ∨
      (.deed i (.answered r a) : Event ι) = Event.reads f i read := by
  generalize hp : Phase.busy (.held h) (.settling read) = p at hm
  cases hm with
  | aside _ => exact .inl rfl
  | readToSettle =>
      cases hp
      exact .inr rfl
  | notSettled => exact .inl rfl
  | enter => split at hp <;> cases hp
  | _ => cases hp

omit [DecidableEq ι] in
theorem inv_begin {w : World} (hw : w.store.Assigned) : Inv crew [] (Stage.begin w) :=
  ⟨hw, fun _ _ _ hq => by cases hq⟩

omit [DecidableEq ι] in
/-- A write that leaves the execution state out and meets a running task was overtaken. -/
theorem Inv.overtaken {i : ι} {h : HandleId} {read t r : Task} {p : Precondition}
    (hi : Inv crew es s) (hq : s.phase i = .busy (.held h) (.settling read))
    (hx : (Possession.settlingDelta read).execution = none)
    (hr : s.world.store.find? (crew i).oid = some r) (hrun : r.execution = .running)
    (ht : t.execution = .running) :
    Overtaken crew (es ++ [Event.settles (crew i) i read p t]) := by
  obtain ⟨before, between, rfl, hs⟩ := hi.settling i h read hq
  have started := (hs r hr hrun).resolve_left
    ((Possession.settlingDelta_execution read).2 hx)
  exact ⟨i, read, p, t, before, between, [], by simp, started, hx, ht⟩

/-- A firing that lets go by a copy did so before the step, or the step reads the copy. -/
theorem settling_of_step {allowed : HandlerCall → Prop} {outside : World → World → Prop}
    {i : ι} {h : HandleId} {read : Task} (he : s.Step crew allowed outside e s')
    (hq : s'.phase i = .busy (.held h) (.settling read)) :
    s.phase i = .busy (.held h) (.settling read) ∨
      e = Event.reads (crew i) i read ∧ s'.world.store.find? (crew i).oid = some read := by
  cases he with
  | gathered _ | outside _ => exact .inl hq
  | @answered j r a p w ha hm =>
      by_cases hj : i = j
      · subst hj
        obtain rfl : p = _ := by simpa using hq
        refine (settling_origin (i := i) hm).imp id fun he => ⟨he, ?_⟩
        cases he
        obtain ⟨rfl, hg⟩ := ha.get
        exact Store.get_ok hg.symm
      · exact .inl (by simpa [hj] using hq)

theorem Inv.step {outside : World → World → Prop} (ho : ∀ w w', outside w w' → w.Calms w')
    (hi : Inv crew es s) (he : s.Step crew HandlerCall.KeepsNodes outside e s')
    (hn : ¬ Overtaken crew (es ++ [e])) : Inv crew (es ++ [e]) s' := by
  have effect := effect_of_step ho he
  refine ⟨?_, fun i h read hq => ?_⟩
  · cases effect with
    | calm hc => exact hc.assigned hi.assigned
    | started _ _ hf =>
        intro oid t hfind hr
        rcases hf oid t hfind with ⟨-, hnode⟩ | hfind
        · exact hnode
        · exact hi.assigned oid t hfind hr
    | settled hq hx hr same hf =>
        intro oid t hfind hrun
        rcases hf oid t hfind with ⟨-, rfl⟩ | hfind
        · exact absurd (hi.overtaken hq hx hr (same ▸ hrun) hrun) hn
        · exact hi.assigned oid t hfind hrun
  · rcases settling_of_step he hq with hq | ⟨rfl, hread⟩
    · obtain ⟨before, between, rfl, hs⟩ := hi.settling i h read hq
      refine ⟨before, between ++ [e], by simp, fun t hfind hrun => ?_⟩
      have old {t : Task} (hfind : s.world.store.find? (crew i).oid = some t)
          (hrun : t.execution = .running) :
          read.execution = .running ∨ StartedByOther crew i (between ++ [e]) :=
        (hs t hfind hrun).imp id fun h => h.append [e]
      cases effect with
      | calm hc =>
          obtain ⟨t₀, hfind₀, hk⟩ := hc _ t hfind
          exact old hfind₀ (hk hrun).1
      | @started _ j _ _ ht hj hf =>
          rcases hf _ t hfind with ⟨ho, -⟩ | hfind
          · refine .inr ⟨j, ?_, ho.symm, e, by simp, ht⟩
            rintro rfl
            rw [hq] at hj
            cases hj
          · exact old hfind hrun
      | settled _ _ hr same hf =>
          rcases hf _ t hfind with ⟨ho, rfl⟩ | hfind
          · rw [← ho] at hr
            exact old hr (same ▸ hrun)
          · exact old hfind hrun
    · refine ⟨es, [], rfl, fun t hfind hrun => .inl ?_⟩
      obtain rfl : read = t := Option.some.inj (hread.symm.trans hfind)
      exact hrun

theorem run_inv {outside : World → World → Prop} (ho : ∀ w w', outside w w' → w.Calms w')
    {w : World} (hw : w.store.Assigned)
    (hr : Run (Stage.Step crew HandlerCall.KeepsNodes outside) (Stage.begin w) es s)
    (hn : ¬ Overtaken crew es) : Inv crew es s := by
  induction hr with
  | nil => exact inv_begin hw
  | snoc _ he ih => exact (ih fun h => hn (h.append _)).step ho he hn

/-- The record that is written by letting go of a task. -/
theorem settled_of_step {outside : World → World → Prop} {c c' : Scene ι} {i : ι}
    {read t : Task} {p : Precondition}
    (he : c.Step crew outside (Event.settles (crew i) i read p t) c') :
    c'.world.store.find? (crew i).oid = some t ∧ t.node = none := by
  cases he with
  | deed ht =>
      generalize c.program i = q at ht
      cases ht with
      | answered ha =>
          obtain ⟨-, r, -, -, rfl, hf⟩ := Store.modify_ok ha.modify.2
          exact ⟨by simpa using hf (crew i).oid, rfl⟩

end

end Assignment

/-- A run in which administrators change scheduling states keeps every running task
assigned to a node, all the way, exactly if no firing is overtaken in letting go of its
task. -/
theorem assigned_iff_not_overtaken {ι : Type} [DecidableEq ι] {crew : ι → Occasion}
    {w : World} {c : Scene ι} {es : List (Event ι)}
    (hk : ∀ i, (crew i).node.KeepsTo HandlerCall.KeepsNodes) (hw : w.store.Assigned)
    (hr : Run (Scene.Step crew World.Administers) (Scene.begin crew w) es c) :
    (∀ es₁ es₂ c₁, es = es₁ ++ es₂ →
      Run (Scene.Step crew World.Administers) (Scene.begin crew w) es₁ c₁ →
      Run (Scene.Step crew World.Administers) c₁ es₂ c → c₁.world.store.Assigned) ↔
      ¬ Overtaken crew es := by
  constructor
  · rintro hall ⟨i, read, p, t, before, between, after, rfl, -, -, hrun⟩
    let settled := Event.settles (crew i) i read p t
    have hes : before ++ Event.reads (crew i) i read :: (between ++ settled :: after)
        = (before ++ Event.reads (crew i) i read :: between ++ [settled]) ++ after := by
      simp [settled]
    rw [hes] at hr
    obtain ⟨c₁, h₁, h₂⟩ := hr.split
    obtain ⟨hfind, hnode⟩ : c₁.world.store.find? (crew i).oid = some t ∧ t.node = none := by
      obtain ⟨c₀, -, he⟩ := h₁.last
      exact Assignment.settled_of_step he
    exact hall _ after c₁ hes h₁ h₂ _ t hfind hrun hnode
  · intro hn es₁ es₂ c₁ hes h₁ _
    obtain ⟨s, hs, hc⟩ := Scene.run_shown (Scene.begin_shown hk w) h₁
    rw [← hc.world]
    refine (Assignment.run_inv (fun _ _ => World.Administers.calms) hw hs ?_).assigned
    rw [hes] at hn
    exact fun h => hn (h.append es₂)

namespace Assignment

/-- Two firings, of which the first puts its task into waiting. -/
abbrev crew : Bool → Occasion :=
  Rehearsal.pair (.ask .switchToWaiting fun _ => .done (.ok .interrupted))
    (.done (.ok .interrupted))

/-- The first firing is about to let go of its task when the task is made ready. The
second one clears what the first has left, the first reads, the second starts, and the
first writes. -/
abbrev played : List (Event Bool) × Scene Bool :=
  Scene.play crew
    (List.replicate 20 (.go true) ++ [.change (Rehearsal.reschedule .ready)]
      ++ List.replicate 3 (.go false) ++ [.go true] ++ List.replicate 6 (.go false)
      ++ [.go true])
    (.begin crew Rehearsal.world)

theorem crew_keepsTo (i : Bool) : (crew i).node.KeepsTo HandlerCall.KeepsNodes := by
  apply Rehearsal.pair_keepsTo
  · exact ⟨trivial, fun _ => trivial⟩
  · trivial

theorem world_assigned : Rehearsal.world.store.Assigned := by
  intro oid t hf hr
  have := (Table.find?_put Table.empty Rehearsal.task oid).symm.trans hf
  split at this
  · cases this
    cases hr
  · cases this

theorem played_run :
    Run (Scene.Step crew World.Administers) (.begin crew Rehearsal.world) played.1 played.2 := by
  refine Scene.play_run _ _ fun f hf w => ?_
  obtain rfl : f = Rehearsal.reschedule .ready := by simpa using hf
  exact World.administers_reschedule w .ready

theorem played_unassigned : ¬ played.2.world.store.Assigned := by
  intro h
  have hrun : (played.2.world.store.find? Rehearsal.task.oid).any fun t =>
      t.execution = .running ∧ t.node = none := by decide +kernel
  obtain ⟨t, ht, hx⟩ := (Option.any_eq_true _ _).mp hrun
  obtain ⟨hrun, hnode⟩ := of_decide_eq_true hx
  exact h _ t ht hrun hnode

end Assignment

/-- Two firings that keep to all rules leave a task running without a node. -/
theorem not_always_assigned :
    ∃ (crew : Bool → Occasion) (c : Scene Bool) (es : List (Event Bool)),
      (∀ i, (crew i).recovering = false ∧ (crew i).node.config.checkConcurrent) ∧
      (∀ i, (crew i).node.KeepsTo HandlerCall.KeepsNodes) ∧
      Rehearsal.world.store.Assigned ∧
      Run (Scene.Step crew World.Administers) (.begin crew Rehearsal.world) es c ∧
      ¬ c.world.store.Assigned :=
  ⟨Assignment.crew, _, _, by decide, Assignment.crew_keepsTo, Assignment.world_assigned,
    Assignment.played_run, Assignment.played_unassigned⟩

/-- There the first firing was overtaken. -/
theorem overtaken_of_played : Overtaken Assignment.crew Assignment.played.1 := by
  by_contra hn
  exact Assignment.played_unassigned
    ((assigned_iff_not_overtaken Assignment.crew_keepsTo Assignment.world_assigned
      Assignment.played_run).mpr hn _ [] _ (by simp) Assignment.played_run .nil)

end TaskFiring
