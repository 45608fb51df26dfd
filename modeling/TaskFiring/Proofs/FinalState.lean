import TaskFiring.Proofs.Rehearsal
import TaskFiring.Proofs.Settlement
import TaskFiring.Proofs.Solo

/-!
The final state of a run. A firing that has run its handler brings its task to the fate
that the record, the end of the handler and the leave to run ask for, whatever others do
meanwhile, as long as they leave the record alone.
-/

namespace TaskFiring

/-- The store is available and has such a record, and the trigger engine does not fail. -/
structure World.Holds (w : World) (oid : TaskOid) (t : Task) : Prop where
  available : w.store.available
  record : w.store.find? oid = some t
  working : w.trigger.failing = false

/-- What a deed tells the trigger engine, and the answer. -/
def Deed.told? : Deed → Option (TriggerEvent × Except TriggerError Unit)
  | .answered (.unschedule oid) a => some (.unscheduled oid, a)
  | .answered (.deleteJob oid) a => some (.jobDeleted oid, a)
  | .answered (.rescheduleLater oid time) a => some (.rescheduledLater oid time, a)
  | .answered (.scheduleNow oid) a => some (.scheduledNow oid, a)
  | _ => none

/-- The leave to run, as a deed finds it. -/
def Deed.leave? : Deed → Option Bool
  | .answered (.canRun _) leave => some leave
  | _ => none

/-- What a firing tells the trigger engine, and how it is answered. -/
def told (ds : List Deed) : List (TriggerEvent × Except TriggerError Unit) :=
  ds.filterMap Deed.told?

/-- The leave to run, each time that a firing looks. -/
def leaves (ds : List Deed) : List Bool := ds.filterMap Deed.leave?

/-- The firing waits for its children, or is about to. -/
def Scene.Collects {ι : Type} (c : Scene ι) (i : ι) : Prop :=
  ∃ h result closed batch next, c.program i = .ask (.collect h result closed batch) next

/-- A step in which nobody but the firing touches its task, nor the means to write it. -/
def Scene.StepFor {ι : Type} [DecidableEq ι] (crew : ι → Occasion)
    (outside : World → World → Prop) (i : ι) (c : Scene ι) (e : Event ι) (c' : Scene ι) :
    Prop :=
  c.Step crew outside e c' ∧
    (e.deed? i = none → ∀ t, c.world.Holds (crew i).oid t → c'.world.Holds (crew i).oid t)

namespace Settlement

section

variable {oid : TaskOid} {fate : Bool → Fate} {t : Task} {events : List TriggerEvent}
  {looks : List Bool} {place : Place} {w w' : World}

theorem holds_of_modify {d : TaskDelta} {c : Precondition} {a : Except StoreError Task}
    (hw : w.Holds oid t) (hv : Store.violation? t c = none)
    (ha : w.Answers place (.modify oid d c) a w') :
    a = .ok (Store.written t d) ∧ w'.Holds oid (Store.written t d) := by
  cases ha with
  | performed hp =>
      obtain ⟨available, record, working⟩ := hw
      have ho : t.oid = oid := Store.oid_of_find? record
      simp only [World.perform, World.onStore, Store.modify, available, record, hv, if_true,
        Option.some.injEq, Prod.mk.injEq] at hp
      obtain ⟨rfl, rfl⟩ := hp
      refine ⟨rfl, rfl, ?_, working⟩
      exact (Table.find?_put _ _ _).trans (if_pos ho)

theorem holds_of_told {e : TriggerEvent} {g : Trigger} (hw : w.Holds oid t)
    (hg : g.failing = w.trigger.failing) :
    (g.record e).1 = .ok () ∧ ({ w with trigger := (g.record e).2 } : World).Holds oid t := by
  have hn : g.failing = false := hg.trans hw.working
  simp only [Trigger.record, hn, Bool.false_eq_true, if_false]
  exact ⟨trivial, hw.available, hw.record, rfl⟩

/-- After these deeds, the world and the standing of the firing are such. -/
def Stands (oid : TaskOid) (ds : List Deed) (w : World) (P : Standing → Prop) : Prop :=
  ∃ t events looks, w.Holds oid t ∧ P (.alone t events looks) ∧
    told ds = events.map (·, .ok ()) ∧ leaves ds = looks

/-- A call that meets the demand is answered as demanded. -/
theorem Stands.answered {ds : List Deed} {r : Call} {a : r.Response}
    {k : r.Response → Standing → Prop}
    (hs : Stands oid ds w fun s => demand oid fate s r k) (hr : ¬ r.IsCollect)
    (ha : w.Answers place r a w') : Stands oid (ds ++ [.answered r a]) w' (k a) := by
  obtain ⟨t, events, looks, hw, hd, ht, hl⟩ := hs
  have htold : told (ds ++ [.answered r a]) = events.map (·, .ok ()) ++ told [.answered r a] := by
    rw [told, List.filterMap_append, ← ht]
    rfl
  have hleaves : leaves (ds ++ [.answered r a]) = looks ++ leaves [.answered r a] := by
    rw [leaves, List.filterMap_append, ← hl]
    rfl
  cases r with
  | get oid' =>
      obtain ⟨rfl, hk⟩ := hd
      obtain ⟨rfl, rfl⟩ := ha.get
      refine ⟨t, events, looks, hw, ?_, htold.trans (List.append_nil _),
        hleaves.trans (List.append_nil _)⟩
      rw [Store.get_of_find? hw.available hw.record]
      exact hk
  | modify oid' d c =>
      obtain ⟨rfl, hv, hk⟩ := hd
      obtain ⟨rfl, hw'⟩ := holds_of_modify hw hv ha
      exact ⟨_, events, looks, hw', hk, htold.trans (List.append_nil _),
        hleaves.trans (List.append_nil _)⟩
  | deleteJob oid' | unschedule oid' | scheduleNow oid' =>
      have ha : a = .ok () ∧ w'.Holds oid t := by
        cases ha with
        | performed hp =>
            cases hp
            exact holds_of_told hw rfl
      obtain ⟨rfl, hw'⟩ := ha
      refine ⟨t, _, looks, hw', hd, ?_, hleaves.trans (List.append_nil _)⟩
      rw [htold, List.map_append]
      rfl
  | canRun h =>
      cases ha with
      | performed hp =>
          cases hp
          exact ⟨t, events, _, hw, hd (w.canRun h), htold.trans (List.append_nil _), hleaves⟩
  | now | setExecuting | notifyFinished | spawn =>
      refine ⟨t, events, looks, ?_, hd a, htold.trans (List.append_nil _),
        hleaves.trans (List.append_nil _)⟩
      cases ha with
      | performed hp =>
          cases hp
          exact ⟨hw.available, hw.record, hw.working⟩
  | collect => exact absurd trivial hr
  | _ => exact hd.elim

/-- A wait for children that goes on changes nothing that matters. -/
theorem Stands.gathered {α : Type} {Q : Standing → α → Prop} {ds : List Deed} {h : HandleId}
    {result result' : OperationResult} {closed closed' : Nat} {batch batch' : List Nat}
    {next : OperationResult × Nat → Action α}
    (hs : Stands oid ds w fun s => Runs oid fate (.ask (.collect h result closed batch) next) s Q)
    (hg : w.Gathers h result closed batch result' closed' batch' w') :
    Stands oid (ds ++ [.gathered]) w' fun s =>
      Runs oid fate (.ask (.collect h result' closed' batch') next) s Q := by
  obtain ⟨t, events, looks, hw, hd, ht, hl⟩ := hs
  refine ⟨t, events, looks, ?_, hd, ?_, ?_⟩
  · obtain ⟨f, -, rfl⟩ := hg.onHandle
    exact ⟨hw.available, hw.record, hw.working⟩
  · rw [told, List.filterMap_append, ← ht]
    exact List.append_nil _
  · rw [leaves, List.filterMap_append, ← hl]
    exact List.append_nil _

theorem not_isCollect_of_none {ds : List Deed} {r : Call} {a : r.Response}
    (hn : NoneCollected (ds ++ [.answered r a])) : ¬ r.IsCollect :=
  hn r a (by simp)

section

variable {ι : Type} [DecidableEq ι] {crew : ι → Occasion} {outside : World → World → Prop}
  {i : ι} {c c' : Scene ι} {es : List (Event ι)} {e : Event ι}
  {Q : Standing → FiringOutcome → Prop}

/-- The firing goes on to meet the demand, whoever makes the next step. -/
theorem Stands.step {ds : List Deed} (he : Scene.StepFor crew outside i c e c')
    (hs : Stands (crew i).oid ds c.world fun s => Runs (crew i).oid fate (c.program i) s Q)
    (hn : NoneCollected (ds ++ deedsOf i [e])) :
    Stands (crew i).oid (ds ++ deedsOf i [e]) c'.world fun s =>
      Runs (crew i).oid fate (c'.program i) s Q := by
  obtain ⟨he, hothers⟩ := he
  have others (hd : e.deed? i = none) (hp : c'.program i = c.program i) :
      Stands (crew i).oid (ds ++ deedsOf i [e]) c'.world fun s =>
        Runs (crew i).oid fate (c'.program i) s Q := by
    obtain ⟨t, events, looks, hw, hr, hb⟩ := hs
    rw [deedsOf, List.filterMap_cons_none hd, List.filterMap_nil, List.append_nil, hp]
    exact ⟨t, events, looks, hothers hd t hw, hr, hb⟩
  cases he with
  | outside _ => exact others rfl rfl
  | @deed j d p w ht =>
      by_cases hj : j = i
      · subst hj
        simp only [deedsOf_own, deedsOf_nil, Function.update_self] at hn ⊢
        generalize c.program j = q at ht hs
        cases ht with
        | answered ha => exact hs.answered (not_isCollect_of_none hn) ha
        | gathered hg => exact hs.gathered hg
      · exact others (if_neg hj) (by simp [Ne.symm hj])

theorem Stands.run {ds : List Deed} (hr : Run (Scene.StepFor crew outside i) c es c')
    (hs : Stands (crew i).oid ds c.world fun s => Runs (crew i).oid fate (c.program i) s Q)
    (hn : NoneCollected (ds ++ deedsOf i es)) :
    Stands (crew i).oid (ds ++ deedsOf i es) c'.world fun s =>
      Runs (crew i).oid fate (c'.program i) s Q := by
  induction hr with
  | nil => simpa using hs
  | snoc _ he ih =>
      rw [deedsOf_append, ← List.append_assoc] at hn ⊢
      exact (ih fun r a h => hn r a (List.mem_append_left _ h)).step he hn

end

/-- A firing that meets the demand gets to its late children, whatever it is told. -/
theorem Stands.collects (place : Place) {p : Action FiringOutcome} {ds : List Deed}
    (hs : Stands oid ds w fun s => Runs oid fate p s fun s _ => s = .late) :
    ∃ ds' h result closed batch next w', NoneCollected ds' ∧
      Run (Program.Alone place) (p, w) ds'
        (.ask (.collect h result closed batch) next, w') := by
  induction p generalizing w ds with
  | done r =>
      obtain ⟨_, _, _, -, h, -⟩ := hs
      cases h
  | ask r next ih =>
      by_cases hr : r.IsCollect
      · cases r with
        | collect h result closed batch =>
            exact ⟨[], h, result, closed, batch, next, w,
              fun _ _ h => absurd h List.not_mem_nil, .nil⟩
        | _ => cases hr
      · have hanswer : ∃ a w', w.perform place r = some (a, w') := by
          obtain ⟨t, events, looks, -, hd, -⟩ := hs
          cases r with
          | collect => exact absurd trivial hr
          | handler => exact hd.elim
          | _ => exact ⟨_, _, rfl⟩
        obtain ⟨a, w', ha⟩ := hanswer
        obtain ⟨ds', h, result, closed, batch, next', w'', hn, hrun⟩ :=
          ih a (hs.answered hr (.performed ha))
        refine ⟨.answered r a :: ds', h, result, closed, batch, next', w'', ?_, ?_⟩
        · intro r' a' h'
          rcases List.mem_cons.mp h' with h' | h'
          · cases h'
            exact hr
          · exact hn r' a' h'
        · have first : Run (Program.Alone place) (.ask r next, w) [.answered r a] (next a, w') :=
            .snoc .nil (Program.Turn.answered (.performed ha))
          exact first.append hrun

end

theorem told_eq_nil {ds : List Deed}
    (h : ∀ d ∈ ds, d.Serves fun r => r.trigger? = none) : told ds = [] := by
  refine List.filterMap_eq_nil_iff.mpr fun d hd => ?_
  have hd := h d hd
  unfold Deed.told?
  split <;> first | rfl | cases hd

theorem deedsOf_map {ι : Type} [DecidableEq ι] (i : ι) (ds : List Deed) :
    deedsOf i (ds.map (.deed i)) = ds := by
  induction ds with
  | nil => rfl
  | cons d ds ih => rw [List.map_cons, deedsOf_own, ih]

end Settlement

/-- The final state of a run. From when the children are awaited of a firing that has taken
its task and run its handler, and as long as nobody else touches the task, the firing gets
to its late children; and when it does, it has looked for its leave to run once, has brought
the task to its fate and told the trigger engine so. It tells the trigger engine nothing
after that. -/
theorem fate_met {ι : Type} [DecidableEq ι] {crew : ι → Occasion}
    {outside : World → World → Prop} {w : World} {i : ι} {before between : List (Event ι)}
    {v : UInt64} {taken t : Task} {handler : Handler} {r : Call} {a : r.Response} {c : Scene ι}
    (hr : Run (Scene.Step crew outside) (.begin crew w)
      (before ++ .deed i (Milestones.taking (crew i) v taken) ::
        (between ++ [.deed i (.answered r a)])) c)
    (hh : (crew i).node.handlers.resolve taken.handlerRef = some handler)
    (hn : NoneCollected (deedsOf i between)) (hc : r.IsCollect)
    (hw : c.world.Holds (crew i).oid t) :
    ∃ h ended, (Handling.run handler h { task := taken, recovering := (crew i).recovering }).Way
        ((deedsOf i between).filter Deed.isHandlers) (.done ended) ∧
      (∃ es c', Run (Scene.StepFor crew outside i) c es c' ∧ NoneCollected (deedsOf i es) ∧
        c'.Collects i) ∧
      ∀ es c', Run (Scene.StepFor crew outside i) c es c' → NoneCollected (deedsOf i es) →
        c'.Collects i → ∃ leave t', leaves (deedsOf i es) = [leave] ∧
          c'.world.store.find? (crew i).oid = some t' ∧
          t'.scheduling = (t.fate taken.recurring ended leave).1 ∧
          told (deedsOf i es) = (t.fate taken.recurring ended leave).2.map (·, .ok ()) ∧
          ∀ es' c'', Run (Scene.Step crew outside) c' es' c'' → told (deedsOf i es') = [] := by
  have ho : taken.oid = (crew i).oid := by
    obtain ⟨c₁, -, hrest⟩ := hr.split
    obtain ⟨c₂, he, -⟩ := hrest.first
    cases he with
    | deed ht =>
        generalize c₁.program i = q at ht
        cases ht with
        | answered ha => exact ha.fair
  have hway := Scene.way_of_run hr i
  rw [deedsOf_append, deedsOf_own, deedsOf_append, deedsOf_own, deedsOf_nil,
    List.append_cons] at hway
  obtain ⟨q, hway, hrest⟩ := hway.split
  obtain ⟨g, htask, hrec, hset, rfl⟩ := Milestones.program_taken hh hway
  obtain ⟨ended, g', hended, hq, htask', hset'⟩ := Milestones.handled hc hn hrest
  subst htask
  have runs := Settlement.rest_runs (crew i).node (g := g') (by rw [htask', ho])
    (hset'.trans hset) (Store.oid_of_find? hw.record) ended
  rw [← hq, htask'] at runs
  have stands : Settlement.Stands (crew i).oid [] c.world fun s =>
      Settlement.Runs (crew i).oid (t.fate g.task.recurring ended) (c.program i) s
        fun s _ => s = .late :=
    ⟨t, [], [], hw, runs, rfl, rfl⟩
  refine ⟨g.handle, ended, hrec ▸ hended, ?_, ?_⟩
  · obtain ⟨ds, h, result, closed, batch, next, w', hn', halone⟩ :=
      stands.collects (crew i).place
    have hown : Run (Scene.Step crew outside) c (ds.map (.deed i)) _ := Solo.run_of_alone halone
    refine ⟨ds.map (.deed i), _, hown.restrict (P := fun e => e.deed? i ≠ none) ?_ ?_, ?_,
      h, result, closed, batch, next, ?_⟩
    · intro e he
      obtain ⟨d, -, rfl⟩ := List.mem_map.mp he
      simp [Event.deed?]
    · exact fun _ _ _ he hstep => ⟨hstep, fun h => absurd h he⟩
    · rw [Settlement.deedsOf_map]
      exact hn'
    · exact Function.update_self _ _ _
  · rintro es c' hrun hn' ⟨h, result, closed, batch, next, hp⟩
    obtain ⟨t', events, looks, hw', hruns, htold, hleaves⟩ := stands.run hrun hn'
    rw [hp] at hruns
    obtain ⟨⟨leave, hlooks, hfate⟩, hlate⟩ := hruns
    have hevents : events = (t.fate g.task.recurring ended leave).2 := congrArg Prod.snd hfate
    refine ⟨leave, t', hleaves.trans hlooks, hw'.record, congrArg Prod.fst hfate, ?_,
      fun es' c'' hrun' => ?_⟩
    · rw [← hevents]
      exact htold
    have silent : (c'.program i).Only fun r : Call => r.trigger? = none := by
      rw [hp]
      exact ⟨rfl, fun answer => Settlement.silent_of_late (hlate answer)⟩
    refine Settlement.told_eq_nil (silent.along ?_ (Scene.way_of_run hrun' i)).1
    exact fun _ _ _ _ _ _ _ h => h

namespace Settlement

/-- A firing whose handler finishes at once. -/
abbrev crew (_ : Unit) : Occasion := Rehearsal.occasion "a" (.done (.ok .finished))

/-- The firing gets to the end of its children. -/
abbrev played : List (Event Unit) × Scene Unit :=
  Scene.play crew (List.replicate 16 (.go ())) (.begin crew Rehearsal.world)

abbrev between : List (Event Unit) := (played.1.drop 8).take 7

theorem played_events :
    played.1 = played.1.take 7 ++
      .deed () (Milestones.taking (crew ()) 0
        (Store.written Rehearsal.task (Possession.runningDelta ⟨"a"⟩))) ::
      (between ++ [.deed () (.answered (.collect ⟨0⟩ (.new Firing.operation) 0 [])
        (.new Firing.operation, 0))]) :=
  rfl

theorem played_run :
    Run (Scene.Step crew fun _ _ => False) (.begin crew Rehearsal.world) played.1 played.2 :=
  Scene.play_run _ _ fun f hf => by simp at hf

/-- Whether a deed is to collect the children. -/
def collects : Deed → Bool
  | .answered (.collect _ _ _ _) _ => true
  | _ => false

theorem between_none : NoneCollected (deedsOf () between) := by
  have h : (deedsOf () between).all (!collects ·) := by decide +kernel
  intro r a hd hr
  cases r with
  | collect => cases List.all_eq_true.mp h _ hd
  | _ => cases hr

theorem played_holds : ∃ t, played.2.world.Holds Rehearsal.task.oid t ∧ t.isReady := by
  have h : (played.2.world.store.find? Rehearsal.task.oid).any Task.isReady := by decide +kernel
  obtain ⟨t, record, ready⟩ := (Option.any_eq_true _ _).mp h
  exact ⟨t, ⟨by decide +kernel, record, by decide +kernel⟩, ready⟩

/-- The handler has finished a task that does not recur, so the task is closed. -/
theorem closed_of_played :
    ∃ es c t, Run (Scene.StepFor crew (fun _ _ => False) ()) played.2 es c ∧
      c.world.store.find? Rehearsal.task.oid = some t ∧ t.scheduling = .closed ∧
      told (deedsOf () es) = [(.jobDeleted Rehearsal.task.oid, .ok ())] := by
  obtain ⟨t, hw, ready⟩ := played_holds
  have hr := played_run
  rw [played_events] at hr
  obtain ⟨h, ended, hway, ⟨es, c, hrun, hn, hc⟩, hall⟩ :=
    fate_met (i := ()) hr rfl between_none trivial hw
  have hdeeds : (deedsOf () between).filter Deed.isHandlers
      = [.answered (.isInterrupted ⟨0⟩) false] := rfl
  rw [hdeeds] at hway
  obtain ⟨a, ha, hway⟩ := Program.Way.next id hway
  cases ha
  cases hway.eq_of_nil
  obtain ⟨leave, t', -, hf, hs, ht, -⟩ := hall es c hrun hn hc
  have hfate : t.fate (Store.written Rehearsal.task (Possession.runningDelta ⟨"a"⟩)).recurring
      (.ok .finished) leave = (.closed, [.jobDeleted Rehearsal.task.oid]) := by
    rw [← Store.oid_of_find? hw.record]
    exact if_pos ready
  rw [hfate] at hs ht
  exact ⟨es, c, t', hrun, hf, hs, ht⟩

end Settlement

end TaskFiring
