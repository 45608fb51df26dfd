import TaskFiring.Proofs.Assignment
import TaskFiring.Proofs.Chronicle
import TaskFiring.Proofs.Waiting

/-!
Closed tasks. Most writes of a firing leave the scheduling state of its task alone or close
it. Three do not: suspending the task, making it ready again, and putting it into waiting.
None of these depends on what the record says by then, so a firing that has seen its task
ready may open it again after it was closed. Nobody else does.
-/

namespace TaskFiring

/-- The task is closed, if it is there. -/
def Store.Closed (s : Store) (oid : TaskOid) : Prop :=
  ∀ t, s.find? oid = some t → t.scheduling = .closed

/-- From outside no closed task is opened again, and versions rise. -/
structure World.KeepsClosed (w w' : World) : Prop where
  advances : ∀ oid, w.Advances oid w'
  closed : ∀ oid, w.store.Closed oid → w'.store.Closed oid

/-- The firing writes a scheduling state other than closed into the task. -/
inductive Event.Overrides {ι : Type} (oid : TaskOid) (i : ι) : Event ι → Prop
  | waiting {h : HandleId} {t : Task} :
      Overrides oid i (.deed i (.answered (.handler h oid .switchToWaiting) (some (.ok t))))
  | suspending {read t : Task} :
      Overrides oid i (.deed i (.answered
        (.modify oid (Administration.suspendingDelta read) .always) (.ok t)))
  | waking {t : Task} :
      Overrides oid i (.deed i (.answered
        (.modify oid { scheduling := some .ready } .always) (.ok t)))

namespace Phase

/-- The firing goes by what it saw when its task was ready. -/
def Informed : Phase → Prop
  | .outset | .gone => False
  | .loaded t => t.isReady
  | .busy (.held _) _ => True
  | .busy _ e => e ≠ .none
  | _ => True

theorem Holds.informed {p : Phase} (h : p.Holds) : p.Informed := by
  cases p with
  | busy tenure e =>
      cases tenure with
      | held _ => trivial
      | refused | ended _ => cases h
  | _ => cases h

theorem informed_busy {tenure : Tenure} {e : Errand} (he : e ≠ .none) :
    (Phase.busy tenure e).Informed := by
  cases tenure with
  | held _ => trivial
  | refused | ended _ => exact he

theorem informed_of_reads {d : StopDirective} {tenure : Tenure} {e : Errand}
    (h : Reads d tenure e) : (Phase.busy tenure e).Informed := by
  cases tenure with
  | held _ => trivial
  | refused | ended _ =>
      rintro rfl
      cases h

section

variable {f : Occasion} {allowed : HandlerCall → Prop} {q p : Phase} {r : Call} {a : r.Response}

/-- A firing sees that its task is ready by reading it. -/
theorem informed_of_move (hm : Move f allowed q r a p) (hp : p.Informed) :
    q.Informed ∨
      ∃ t, Deed.answered r a = .answered (.get f.oid) (.ok t) ∧ t.isReady := by
  cases hm with
  | aside _ | record => exact .inl hp
  | load => exact .inr ⟨_, rfl, hp⟩
  | decide _ hr => exact .inr ⟨_, rfl, hr⟩
  | spare hr | doubt hr => exact .inl hr
  | readToClose hr | readToSuspend hr => exact .inl (informed_of_reads hr)
  | close | suspend | wake | forget => exact .inl (informed_busy nofun)
  | repair | recoverClosing | recoverSuspending | halt | enter | look | register | start
  | notStarted | invoke | handler | readToSettle | giveUp | settle | notSettled
  | neverSettled => exact .inl trivial
  | _ => cases hp

end

end Phase

namespace World

section

variable {w w' : World} {place : Place} {oid oid' : TaskOid} {d : TaskDelta}

theorem closed_of_find? (h : w'.store.find? oid = w.store.find? oid)
    (hc : w.store.Closed oid) : w'.store.Closed oid := by
  intro t ht
  exact hc t (h.symm.trans ht)

/-- A write that leaves the scheduling state of the task alone, or closes it. -/
theorem closed_of_modify {c : Precondition} (h : w'.store = (w.store.modify oid' d c).2)
    (hd : oid' = oid → ∀ s, d.scheduling = some s → s = .closed)
    (hc : w.store.Closed oid) : w'.store.Closed oid := by
  rcases w.store.modify_cases oid' d c with ⟨e, hm⟩ | ⟨r, s, hm, hr, -, -, hf⟩
  · exact closed_of_find? (by rw [h, hm]) hc
  intro t ht
  rw [h, hm] at ht
  simp only [hf] at ht
  split at ht
  · next ho =>
    subst ho
    cases ht
    have closed := hc r hr
    show d.scheduling.getD r.scheduling = .closed
    cases hs : d.scheduling with
    | none => exact closed
    | some s => exact hd rfl s hs
  · exact hc t ht

theorem Answers.closed {c : Precondition} {a : Except StoreError Task}
    (ha : w.Answers place (.modify oid' d c) a w')
    (hd : oid' = oid → ∀ s, d.scheduling = some s → s = .closed)
    (hc : w.store.Closed oid) : w'.store.Closed oid :=
  closed_of_modify (by rw [ha.modify.2]) hd hc

theorem Answers.closed_of_error {c : Precondition} {e : StoreError}
    (ha : w.Answers place (.modify oid' d c) (.error e) w') (hc : w.store.Closed oid) :
    w'.store.Closed oid :=
  closed_of_find? (by rw [Store.eq_of_modify_error ha.modify.2]) hc

/-- A write that succeeds leaves the task in the scheduling state that it names. -/
theorem not_closed_of_modify {c : Precondition} {s : SchedulingState} {t : Task}
    (h : w.store.modify oid d c = (.ok t, w'.store)) (hd : d.scheduling = some s)
    (hs : s ≠ .closed) : ¬ w'.store.Closed oid := by
  obtain ⟨-, r, -, -, rfl, hf⟩ := Store.modify_ok h
  intro hc
  have closed : d.scheduling.getD r.scheduling = .closed := hc _ (by simpa using hf oid)
  rw [hd] at closed
  exact hs closed

theorem Answers.closed_of_handler {h : HandleId} {call : HandlerCall}
    {a : Option call.Response} (ha : w.Answers place (.handler h oid' call) a w')
    (hcall : call.LeavesRecords)
    (hn : ∀ t, Deed.answered (.handler h oid' call) a
      ≠ .answered (.handler h oid .switchToWaiting) (some (.ok t)))
    (hc : w.store.Closed oid) : w'.store.Closed oid := by
  rcases ha.handler_cases with hw | ⟨b, hb, -, hm⟩ | ⟨d, rfl, rfl⟩
  · exact closed_of_find? (by rw [hw.store]) hc
  · cases b with
    | error e => exact closed_of_find? (by rw [Store.eq_of_modify_error hm]) hc
    | ok t =>
        refine closed_of_modify (d := waitingDelta) (by rw [hm]) ?_ hc
        rintro rfl
        exact absurd hb (hn t)
  · cases d with
    | write _ _ | remove _ => cases hcall
    | _ => exact closed_of_find? rfl hc

theorem Answers.switchToWaiting {h : HandleId} {b : Except StoreError Task}
    (ha : w.Answers place (.handler h oid .switchToWaiting) (some b) w') :
    w.store.modify oid waitingDelta .always = (b, w'.store) := by
  cases ha with
  | performed hp =>
      cases hp
      rfl

end

end World

namespace Finality

section

variable {ι : Type} [DecidableEq ι] {crew : ι → Occasion} {oid : TaskOid} {s s' : Stage ι}
  {e : Event ι} {es : List (Event ι)} {i : ι}

/-- A closed task stays closed at every step that does not override it. -/
theorem closed_of_step
    (he : s.Step crew HandlerCall.LeavesRecords World.KeepsClosed e s')
    (hn : ∀ i, ¬ e.Overrides oid i) (hc : s.world.store.Closed oid) :
    s'.world.store.Closed oid := by
  cases he with
  | gathered hw => exact World.closed_of_find? (by rw [hw.store]) hc
  | outside hw => exact hw.closed oid hc
  | @answered i r a p w ha hm =>
      have hn := hn i
      generalize s.phase i = q at hm
      cases hm with
      | aside hr => exact World.closed_of_find? (by rw [(ha.agrees hr).store]) hc
      | repair | notRepaired | start | notStarted | record | settle | notSettled
      | neverSettled => exact ha.closed (fun _ _ => nofun) hc
      | close => exact ha.closed (fun _ _ hs => (Option.some.inj hs).symm) hc
      | @suspend _ _ a =>
          cases a with
          | error e => exact ha.closed_of_error hc
          | ok t =>
              refine ha.closed (fun ho => ?_) hc
              subst ho
              exact absurd .suspending hn
      | @wake _ _ a =>
          cases a with
          | error e => exact ha.closed_of_error hc
          | ok t =>
              refine ha.closed (fun ho => ?_) hc
              subst ho
              exact absurd .waking hn
      | handler hcall =>
          refine ha.closed_of_handler hcall (fun t hd => ?_) hc
          rw [hd] at hn
          exact hn .waiting
      | _ => exact World.closed_of_find? (by rw [ha.store id]) hc

/-- After a write that overrides it a task is not closed. -/
theorem not_closed_of_overrides {outside : World → World → Prop} {c c' : Scene ι}
    (he : c.Step crew outside e c') (ho : e.Overrides oid i) : ¬ c'.world.store.Closed oid := by
  cases ho with
  | waiting => exact World.not_closed_of_modify he.answers.switchToWaiting rfl nofun
  | suspending => exact World.not_closed_of_modify he.answers.modify.2 rfl nofun
  | waking => exact World.not_closed_of_modify he.answers.modify.2 rfl nofun

theorem closed_of_run {c c' : Scene ι} {outside : World → World → Prop} {xs : List (Change ι)}
    (hr : Run (Scene.Changes crew outside) c xs c') (hc : c.world.store.Closed oid)
    (hs : ∀ x ∈ xs, x.after.store.Closed oid) : c'.world.store.Closed oid := by
  cases hr with
  | nil => exact hc
  | snoc _ hx =>
      rw [← hx.2.2]
      exact hs _ (by simp)

/-- Only what was ready is known to be ready: a firing that goes by a task it saw ready has
read it before it was closed. -/
theorem reads_of_informed {allowed : HandlerCall → Prop} {outside : World → World → Prop}
    {w : World} {c₁ c₂ : Scene ι} {xs : List (Change ι)}
    (hs : Run (Stage.Step crew allowed outside) (Stage.begin w) (es ++ xs.map Change.event) s)
    (h₂ : Run (Scene.Changes crew outside) c₁ xs c₂)
    (hc : ∀ x ∈ xs, x.after.store.Closed (crew i).oid) (hi : (s.phase i).Informed) :
    ∃ t, Event.reads (crew i) i t ∈ es ∧ t.isReady := by
  obtain ⟨e, he, t, rfl, hready⟩ := (Stage.phase_or_of_run (P := Phase.Informed)
    (Q := fun e => ∃ t, e = Event.reads (crew i) i t ∧ t.isReady) (fun q r a p hm hp => by
      refine (Phase.informed_of_move hm hp).imp id ?_
      rintro ⟨t, hd, hready⟩
      exact ⟨t, by rw [hd]; rfl, hready⟩) hs hi).resolve_left id
  rcases List.mem_append.mp he with he | he
  · exact ⟨t, he, hready⟩
  obtain ⟨x, hx, hxe⟩ := List.mem_map.mp he
  obtain ⟨before, after, rfl⟩ := List.append_of_mem hx
  obtain ⟨c, c', -, ⟨hstep, -, hafter⟩, -⟩ := h₂.around
  rw [hxe] at hstep
  obtain ⟨hw, hg⟩ := hstep.answers.get
  have closed := hc x hx t (by rw [hafter, hw]; exact Store.get_ok hg.symm)
  simp [Task.isReady, closed] at hready

theorem copies_of_run {w : World}
    (hr : Run (Stage.Step crew HandlerCall.LeavesRecords World.KeepsClosed) (Stage.begin w) es s)
    (hv : NoWrap es) : Copies.Inv crew s := by
  induction hr with
  | nil => exact Copies.inv_begin w
  | snoc _ he ih =>
      have hi := ih fun e he => hv e (List.mem_append_left _ he)
      refine hi.step (fun i => ?_) he
      exact Copies.advances_of_step (fun _ _ hw => hw.advances _)
        (fun _ _ _ _ _ ha hcall hv => Waiting.advances_of_handler ha hcall hv _) he
        (hv _ (by simp))

/-- Nobody takes a closed task. -/
theorem not_takes_of_closed (hi : Copies.Inv crew s) {allowed : HandlerCall → Prop}
    {outside : World → World → Prop} (he : s.Step crew allowed outside e s')
    (hc : s.world.store.Closed (crew i).oid) : ¬ e.Takes (crew i) i := by
  intro ht
  obtain ⟨t, hf, hready⟩ := Waiting.ready_of_takes hi he ht
  simp [Task.isReady, hc t hf] at hready

/-- A firing that forces a scheduling state on a task does so to its own, and unless it
closes the task it goes by a copy that it saw ready. -/
theorem informed_of_forced {f : Occasion} {allowed : HandlerCall → Prop} {q q' : Phase}
    {d : TaskDelta} {a : Except StoreError Task} {st : SchedulingState}
    (hm : Phase.Move f allowed q (.modify oid d .always) a q')
    (hd : d.scheduling = some st) (hc : st ≠ .closed) : f.oid = oid ∧ q.Informed := by
  generalize hp : Precondition.always = c at hm
  cases hm with
  | aside hr => cases hr
  | suspend | wake => exact ⟨rfl, Phase.informed_busy nofun⟩
  | repair | notRepaired | start | notStarted | notSettled => cases hp
  | close => exact absurd (Option.some.inj hd).symm hc
  | record | settle | neverSettled => cases hd

/-- A firing that overrides the state of a task does so to its own, which it saw ready. -/
theorem informed_of_overrides {allowed : HandlerCall → Prop} {outside : World → World → Prop}
    (he : s.Step crew allowed outside e s') (ho : e.Overrides oid i) :
    (crew i).oid = oid ∧ (s.phase i).Informed := by
  cases ho with
  | waiting =>
      cases he with
      | answered _ hm =>
          refine ⟨?_, (Phase.holds_of_handler hm).1.informed⟩
          generalize s.phase i = q at hm
          cases hm with
          | aside hr => cases hr
          | handler _ => rfl
  | suspending =>
      cases he with
      | answered _ hm => exact informed_of_forced hm rfl nofun
  | waking =>
      cases he with
      | answered _ hm => exact informed_of_forced hm rfl nofun

section

variable {w : World} {c₁ c₂ : Scene ι} {xs : List (Change ι)}
  (hs : Run (Stage.Step crew HandlerCall.LeavesRecords World.KeepsClosed) (Stage.begin w) es s)
  (hshown : c₁.ShownBy crew HandlerCall.LeavesRecords s)
  (h₂ : Run (Scene.Changes crew World.KeepsClosed) c₁ xs c₂)
  (hc : c₁.world.store.Closed oid)

include hshown h₂ hc

/-- As long as nothing overrides it, a closed task is closed. -/
theorem closed_of_not_overridden (hn : ∀ x ∈ xs, ∀ i, ¬ x.event.Overrides oid i) :
    ∀ x ∈ xs, x.after.store.Closed oid := by
  induction h₂ with
  | nil => simp
  | @snoc c c' xs x hr hx ih =>
      have closed := ih fun x hx => hn x (List.mem_append_left _ hx)
      refine List.forall_mem_append.mpr ⟨closed, List.forall_mem_singleton.mpr ?_⟩
      obtain ⟨s₁, -, hshown₁⟩ := Scene.run_shown hshown (Scene.events_of_changes hr)
      obtain ⟨s₂, hstep, hshown₂⟩ := Scene.step_shown hshown₁ hx.1
      have before : s₁.world.store.Closed oid := by
        rw [hshown₁.world]
        exact closed_of_run hr hc closed
      rw [hx.2.2, ← hshown₂.world]
      exact closed_of_step hstep (hn x (by simp)) before

include hs

/-- While a task is closed nobody takes it. -/
theorem not_takes_while_closed (hv : NoWrap (es ++ xs.map Change.event))
    (hx : ∀ x ∈ xs, x.after.store.Closed oid) (ho : (crew i).oid = oid) :
    ∀ x ∈ xs, ¬ x.event.Takes (crew i) i := by
  intro x hmem
  obtain ⟨before, after, rfl⟩ := List.append_of_mem hmem
  obtain ⟨c, c', hbefore, hstep, -⟩ := h₂.around
  obtain ⟨s₁, hs₁, hshown₁⟩ := Scene.run_shown hshown (Scene.events_of_changes hbefore)
  obtain ⟨s₂, hstep, -⟩ := Scene.step_shown hshown₁ hstep.1
  have copies := copies_of_run (hs.append hs₁) fun e he => hv e (by
    rcases List.mem_append.mp he with he | he
    · exact List.mem_append_left _ he
    · exact List.mem_append_right _ (by simp [he]))
  refine not_takes_of_closed copies hstep ?_
  rw [hshown₁.world, ho]
  exact closed_of_run hbefore hc fun y hy => hx y (by simp [hy])

end

end

end Finality

/-- A task that is closed stays closed exactly as long as no firing overrides that. Whoever
does so first has seen the task ready before it was closed; and if it is the handler that
puts the task into waiting, its firing had taken the task by then. -/
theorem closed_iff_not_overridden {ι : Type} [DecidableEq ι] {crew : ι → Occasion}
    {oid : TaskOid} {w : World} {c₁ c₂ : Scene ι} {es : List (Event ι)} {xs : List (Change ι)}
    (hk : ∀ i, (crew i).node.KeepsTo HandlerCall.LeavesRecords)
    (h₁ : Run (Scene.Step crew World.KeepsClosed) (.begin crew w) es c₁)
    (h₂ : Run (Scene.Changes crew World.KeepsClosed) c₁ xs c₂)
    (hv : NoWrap (es ++ xs.map Change.event)) (hc : c₁.world.store.Closed oid) :
    ((∀ x ∈ xs, x.after.store.Closed oid) ↔ ∀ x ∈ xs, ∀ i, ¬ x.event.Overrides oid i) ∧
    ∀ before x after i, xs = before ++ x :: after →
      (∀ y ∈ before, y.after.store.Closed oid) → x.event.Overrides oid i →
      (∃ t, .reads (crew i) i t ∈ es ∧ t.isReady) ∧
        (x.event.Waits i → ∃ e ∈ es, e.Takes (crew i) i) := by
  obtain ⟨s₁, hs₁, hshown⟩ := Scene.run_shown (Scene.begin_shown hk w) h₁
  refine ⟨⟨fun closed x hx i ho => ?_, Finality.closed_of_not_overridden hshown h₂ hc⟩, ?_⟩
  · obtain ⟨before, after, rfl⟩ := List.append_of_mem hx
    obtain ⟨c, c', -, ⟨hstep, -, hafter⟩, -⟩ := h₂.around
    refine Finality.not_closed_of_overrides hstep ho ?_
    rw [← hafter]
    exact closed x hx
  · rintro before x after i rfl closed ho
    obtain ⟨c, c', hbefore, ⟨hstep, -, -⟩, -⟩ := h₂.around
    obtain ⟨s₂, hs₂, hshown₂⟩ := Scene.run_shown hshown (Scene.events_of_changes hbefore)
    obtain ⟨s₃, hstep, -⟩ := Scene.step_shown hshown₂ hstep
    obtain ⟨rfl, informed⟩ := Finality.informed_of_overrides hstep ho
    have hs := hs₁.append hs₂
    refine ⟨Finality.reads_of_informed hs hbefore closed informed, fun hw => ?_⟩
    obtain ⟨e, he, ht⟩ := Stage.takes_of_holds hs (Waiting.holds_of_waits hstep hw).1
    rcases List.mem_append.mp he with he | he
    · exact ⟨e, he, ht⟩
    · obtain ⟨y, hy, rfl⟩ := List.mem_map.mp he
      have hv' : NoWrap (es ++ before.map Change.event) := fun e he => hv e (by
        rcases List.mem_append.mp he with he | he
        · exact List.mem_append_left _ he
        · exact List.mem_append_right _ (by simp [List.mem_map.mp he]))
      exact absurd ht
        (Finality.not_takes_while_closed hs₁ hshown hbefore hc hv' closed rfl y hy)

namespace Finality

/-- One firing of the task, with this handler. -/
abbrev crew (work : HandlerWork) (_ : Unit) : Occasion := Rehearsal.occasion "a" work

/-- It has taken its task. -/
abbrev taken (work : HandlerWork) : List (Event Unit) × Scene Unit :=
  Scene.play (crew work) (List.replicate 8 (.go ())) (.begin (crew work) Rehearsal.world)

/-- Then the task is closed. -/
abbrev closed (work : HandlerWork) : Scene Unit :=
  ⟨Rehearsal.reschedule .closed (taken work).2.world, (taken work).2.program⟩

/-- Then the firing goes on. -/
abbrev played (work : HandlerWork) : List (Event Unit) × Scene Unit :=
  Scene.play (crew work) (List.replicate 24 (.go ())) (closed work)

abbrev ending : HandlerWork := .done (.ok .finished)

abbrev switching : HandlerWork := .ask .switchToWaiting fun _ => ending

/-- Whether an event may override the state of a task. -/
def overrides : Event Unit → Bool
  | .deed _ (.answered (.handler _ _ .switchToWaiting) _) => true
  | .deed _ (.answered (.modify _ d _) _) => d.scheduling.any (· ≠ .closed)
  | _ => false

theorem overrides_of {oid : TaskOid} {i : Unit} {e : Event Unit} (h : e.Overrides oid i) :
    overrides e := by
  cases h <;> rfl

theorem keepsClosed_closing {w : World}
    (hv : (w.store.modify Rehearsal.task.oid { scheduling := some .closed }
      .always).1.toOption.all (·.version ≠ 0)) :
    w.KeepsClosed (Rehearsal.reschedule .closed w) where
  advances := World.advances_of_modify (d := { scheduling := some .closed }) rfl fun t ht => by
    simpa [ht, Except.toOption] using hv
  closed _ hc := World.closed_of_modify (d := { scheduling := some .closed }) rfl
    (fun _ _ hs => (Option.some.inj hs).symm) hc

theorem closed_run {work : HandlerWork}
    (hv : ((taken work).2.world.store.modify Rehearsal.task.oid
      { scheduling := some .closed } .always).1.toOption.all (·.version ≠ 0)) :
    Run (Scene.Step (crew work) World.KeepsClosed) (.begin (crew work) Rehearsal.world)
      ((taken work).1 ++ [.outside]) (closed work) :=
  .snoc (Scene.play_run _ _ fun f hf => by simp at hf) (.outside (keepsClosed_closing hv))

theorem played_run (work : HandlerWork) :
    Run (Scene.Step (crew work) World.KeepsClosed) (closed work) (played work).1
      (played work).2 :=
  Scene.play_run _ _ fun f hf => by simp at hf

theorem closed_of_find?_all {s : Store} {oid : TaskOid}
    (h : (s.find? oid).all (·.scheduling = .closed)) : s.Closed oid := by
  intro t ht
  simpa [ht] using h

end Finality

/-- A handler opens a task that was closed while it ran. -/
theorem not_closed_for_good :
    ∃ (crew : Unit → Occasion) (c₁ c₂ : Scene Unit) (es₁ es₂ : List (Event Unit)),
      (crew ()).recovering = false ∧ (crew ()).oid = Rehearsal.task.oid ∧
      (∀ i, (crew i).node.KeepsTo HandlerCall.LeavesRecords) ∧
      Run (Scene.Step crew World.KeepsClosed) (.begin crew Rehearsal.world) es₁ c₁ ∧
      Run (Scene.Step crew World.KeepsClosed) c₁ es₂ c₂ ∧ NoWrap (es₁ ++ es₂) ∧
      (c₁.world.store.find? Rehearsal.task.oid).map Task.scheduling = some .closed ∧
      (c₂.world.store.find? Rehearsal.task.oid).map Task.scheduling = some .waiting :=
  ⟨Finality.crew Finality.switching, _, _, _, _, rfl, rfl,
    fun _ => Rehearsal.occasion_keepsTo ⟨trivial, fun _ => trivial⟩,
    Finality.closed_run (by decide +kernel), Finality.played_run _,
    noWrap_of_all (by decide +kernel), by decide +kernel, by decide +kernel⟩

/-- A firing that was about to run its handler when the task was closed leaves it closed. -/
theorem closed_until_overridden :
    ∃ (c : Scene Unit) (es : List (Event Unit)) (xs : List (Change Unit)),
      Run (Scene.Step (Finality.crew Finality.ending) World.KeepsClosed)
        (.begin (Finality.crew Finality.ending) Rehearsal.world) es
        (Finality.closed Finality.ending) ∧
      Run (Scene.Changes (Finality.crew Finality.ending) World.KeepsClosed)
        (Finality.closed Finality.ending) xs c ∧ c.hasEnded () ∧
      ∀ x ∈ xs, x.after.store.Closed Rehearsal.task.oid := by
  have h₁ : Run _ _ _ (Finality.closed Finality.ending) :=
    Finality.closed_run (by decide +kernel)
  obtain ⟨xs, hevents, h₂⟩ := Scene.changes_of_events (Finality.played_run Finality.ending)
  refine ⟨_, _, xs, h₁, h₂, by decide +kernel, ?_⟩
  have hv : NoWrap ((Finality.taken Finality.ending).1 ++ [.outside] ++ xs.map Change.event) := by
    rw [hevents]
    exact noWrap_of_all (by decide +kernel)
  have keeps : ∀ i, (Finality.crew Finality.ending i).node.KeepsTo
      HandlerCall.LeavesRecords := fun _ =>
    Rehearsal.occasion_keepsTo (trivial : Finality.ending.Only _)
  refine (closed_iff_not_overridden keeps h₁ h₂ hv
    (Finality.closed_of_find?_all (by decide +kernel))).1.mpr fun x hx i ho => ?_
  have calm : (Finality.played Finality.ending).1.all (!Finality.overrides ·) := by
    decide +kernel
  rw [← hevents] at calm
  have := List.all_eq_true.mp calm _ (List.mem_map_of_mem hx)
  simp [Finality.overrides_of ho] at this

end TaskFiring
