import TaskFiring.Proofs.Identity
import TaskFiring.Proofs.Succession

/-!
What the listeners, the report and the record tell of a firing. A firing that does not get
the task tells the listeners nothing and does not report that it has run. One that gets it
tells that the handler begins, if it has one, then that the task is no longer run, and with
which status; it records that status and reports no other.
-/

namespace TaskFiring

def Deed.news? : Deed → Option ListenerEvent
  | .answered r _ => r.news?
  | .gathered => none

/-- A deed by which the handler runs or the listeners are told. -/
def Deed.isStory (d : Deed) : Bool := d.isHandlers || d.news?.isSome

/-- The result that a deed is to record. -/
def Deed.recorded? : Deed → Option OperationResult
  | .answered (.modify _ d _) _ => d.result
  | _ => none

/-- What the listeners have heard of a task. -/
def World.heard (w : World) (oid : TaskOid) : List ListenerEvent :=
  w.listener.filter (·.oid = oid)

/-- From outside, nobody records or takes away the result of the task, and the listeners
hear nothing of it. -/
structure World.LeavesStory (oid : TaskOid) (w w' : World) : Prop
    extends w.LeavesResult oid w' where
  heard : w'.heard oid = w.heard oid

theorem Stop.outcome_cases (s : Stop) : s.outcome = .ok (.halted s.severity s.reason) ∨
    ∃ cause, s.outcome = .error (.stopped s.severity s.reason cause) := by
  unfold Stop.outcome
  split
  · next cause _ =>
    split
    · exact .inr ⟨cause, rfl⟩
    · exact .inl rfl
  · exact .inl rfl

theorem Call.IsIncidental.news? {r : Call} (hr : r.IsIncidental) : r.news? = none := by
  cases r with
  | notifyStarted | notifyFinished => cases hr
  | _ => rfl

theorem Call.IsIncidental.not_isStory {r : Call} {a : r.Response} (hr : r.IsIncidental) :
    Deed.isStory (.answered r a) = false := by
  cases r with
  | isInterrupted | handler | notifyStarted | notifyFinished => cases hr
  | _ => rfl

theorem Call.IsIncidental.recorded? {r : Call} {a : r.Response} (hr : r.IsIncidental) :
    Deed.recorded? (.answered r a) = none := by
  cases r with
  | modify => exact hr.1
  | _ => rfl

namespace Leg

/-- The listeners were told that the handler begins. -/
def isAnnounced : Leg → Bool
  | .announced _ _ | .acting _ _ | .acted _ _ => true
  | .concluded _ _ b _ | .told _ _ b _ => b
  | _ => false

/-- The status that the listeners were told. -/
def told? : Leg → Option ResultStatus
  | .told _ _ _ status => some status
  | _ => none

/-- The status with which the outcome was recorded. -/
def status? : Leg → Option ResultStatus
  | .concluded _ _ _ status | .told _ _ _ status => some status
  | _ => none

/-- A handler is announced if there is one. -/
def Resolves (f : Occasion) : Leg → Prop
  | .marked _ t | .announced _ t | .acting _ t | .acted _ t =>
      (f.node.handlers.resolve t.handlerRef).isSome = true
  | .concluded _ t b _ | .told _ t b _ => (f.node.handlers.resolve t.handlerRef).isSome = b
  | _ => True

end Leg

namespace Telling

/-- The firing tells the listeners that the handler begins. -/
abbrev started (f : Occasion) : Deed := .answered (.notifyStarted f.oid f.recovering) ()

/-- The firing tells them that it is over. -/
abbrev finished (f : Occasion) (status : ResultStatus) : Deed :=
  .answered (.notifyFinished f.oid status) ()

/-- The story that the deeds make: the handler is announced or not, it does its part, and the
end is told or not. -/
structure Story (f : Occasion) (announced : Bool) (told : Option ResultStatus)
    (running ds : List Deed) : Prop where
  handlers : ∀ d ∈ running, d.isHandlers
  unheard : announced = false → running = []
  story : ds.filter Deed.isStory
    = (if announced then [started f] else []) ++ running ++ (told.map (finished f)).toList

section

variable {f : Occasion} {ds running : List Deed} {d : Deed} {s s' : Leg} {b : Bool}
  {told : Option ResultStatus}

theorem Story.quiet (h : Story f b told running ds) (hd : d.isStory = false) :
    Story f b told running (ds ++ [d]) :=
  ⟨h.handlers, h.unheard, by simp [h.story, hd]⟩

theorem Story.runs (h : Story f true none running ds) (hd : d.isHandlers) :
    Story f true none (running ++ [d]) (ds ++ [d]) := by
  have hs : d.isStory := by simp [Deed.isStory, hd]
  refine ⟨fun d' hd' => ?_, nofun, by simp [h.story, hs]⟩
  rcases List.mem_append.mp hd' with hd' | hd'
  · exact h.handlers d' hd'
  · rw [List.mem_singleton.mp hd', hd]

theorem story_of_path (hp : Itinerary.Path f ds s) :
    ∃ running, Story f s.isAnnounced s.told? running ds := by
  induction hp with
  | nil => exact ⟨[], List.forall_mem_nil _, fun _ => rfl, rfl⟩
  | snoc _ step ih =>
      obtain ⟨running, story⟩ := ih
      cases step with
      | gathered => exact ⟨running, story.quiet rfl⟩
      | answered hm =>
          cases hm with
          | rest hr => exact ⟨running, story.quiet hr.not_isStory⟩
          | announce =>
              obtain rfl := story.unheard rfl
              exact ⟨[], List.forall_mem_nil _, fun _ => rfl, by simp [story.story]; rfl⟩
          | invoke | handler => exact ⟨_, story.runs rfl⟩
          | tell => exact ⟨running, story.handlers, story.unheard, by simp [story.story]; rfl⟩
          | _ => exact ⟨running, story.quiet rfl⟩

theorem resolves_of_path (hp : Itinerary.Path f ds s) : s.Resolves f := by
  induction hp with
  | nil => trivial
  | snoc _ step ih =>
      cases step with
      | gathered => exact ih
      | answered hm =>
          cases hm with
          | mark hh | dismiss hh => simp [Leg.Resolves, hh]
          | equip | enter | pass | heed | yield | doom | strike | take | notTaken => trivial
          | _ => exact ih

/-- What a firing that has the task records has the status that it tells. -/
theorem recorded_of_path {result : OperationResult} (hp : Itinerary.Path f ds s)
    (hd : d ∈ ds) (hr : d.recorded? = some result) :
    s.status? = some result.status ∨ ∃ h, s = .left h := by
  induction hp with
  | nil => cases hd
  | snoc _ step ih =>
      rcases List.mem_append.mp hd with hd | hd
      · have before := ih hd
        cases step with
        | gathered => exact before
        | answered hm =>
            cases hm with
            | rest | amend | stray => exact before
            | tell => exact .inl (before.resolve_right fun ⟨_, hs⟩ => nomatch hs)
            | _ => rcases before with hs | ⟨h, hs⟩ <;> cases hs
      · obtain rfl := List.mem_singleton.mp hd
        cases step with
        | gathered => cases hr
        | answered hm =>
            cases hm with
            | rest hi => cases hi.recorded?.symm.trans hr
            | stray => exact .inr ⟨_, rfl⟩
            | conclude | dismiss | amend =>
                cases hr
                exact .inl rfl
            | _ => cases hr

/-- What a firing tells is of its own task. -/
theorem oid_of_passes {e : ListenerEvent} (hd : Itinerary.Passes f s d s')
    (he : d.news? = some e) : e.oid = f.oid := by
  cases hd with
  | gathered => cases he
  | answered hm =>
      cases hm with
      | rest hi => cases hi.news?.symm.trans he
      | announce | tell =>
          cases he
          rfl
      | _ => cases he

/-- What the listeners are told is what the story says. -/
theorem Story.news (h : Story f b told running ds) :
    ds.filterMap Deed.news? = (if b then [.started f.oid f.recovering] else []) ++
      (told.map (.finished f.oid)).toList := by
  have silent {ds : List Deed} (hd : ∀ d ∈ ds, d.isHandlers) : ds.filterMap Deed.news? = [] := by
    refine List.filterMap_eq_nil_iff.mpr fun d hm => ?_
    have hd := hd d hm
    cases d with
    | gathered => rfl
    | answered r a =>
        cases r with
        | notifyStarted | notifyFinished => cases hd
        | _ => rfl
  have heard : ds.filterMap Deed.news? = (ds.filter Deed.isStory).filterMap Deed.news? := by
    rw [List.filterMap_filter]
    refine congrArg (List.filterMap · ds) (funext fun d => ?_)
    cases hn : d.news? <;> simp [Deed.isStory, hn]
  rw [heard, h.story, List.filterMap_append, List.filterMap_append, silent h.handlers]
  cases b <;> cases told <;> rfl

/-- A firing that has returned has not had the task and has reported a stop, or it has told
the status that it reports, if it reports one. -/
theorem returned {report : FiringOutcome} (hp : Itinerary.Path f ds s)
    (hr : s.Allows f.oid report) :
    (s.task? = none ∧ s.isAnnounced = false ∧ s.told? = none ∧
        ∃ stop : Stop, report = stop.outcome) ∨
      ∃ h t b status, s = .told h t b status ∧
        ∀ oid status', report = .ok (.completed oid status') → oid = f.oid ∧ status' = status := by
  have stopped (stop : Stop) (oid : TaskOid) (status : ResultStatus) :
      stop.outcome ≠ .ok (.completed oid status) := by
    rcases stop.outcome_cases with h | ⟨cause, h⟩ <;> simp [h]
  cases hr with
  | outset stop | equipped stop | left stop => exact .inl ⟨rfl, rfl, rfl, stop, rfl⟩
  | dismissed stop =>
      exact .inr ⟨_, _, _, _, rfl, fun oid status' h => absurd h (stopped _ _ _)⟩
  | completed =>
      refine .inr ⟨_, _, _, _, rfl, ?_⟩
      rintro oid status' ⟨⟩
      exact ⟨rfl, rfl⟩
  | failed e => exact .inr ⟨_, _, _, _, rfl, fun oid status' h => nomatch h⟩

end

section

variable {ι : Type} [DecidableEq ι] {crew : ι → Occasion} {w w' : World} {c : Scene ι}
  {es : List (Event ι)} {i : ι} {oid : TaskOid}

theorem listener_of_turn {α : Type} {place : Place} {p p' : Action α} {d : Deed}
    (ht : p.Turn place w d p' w') : w'.listener = w.listener ++ d.news?.toList := by
  cases ht with
  | answered ha => exact ha.listener
  | gathered hg =>
      obtain ⟨f, -, rfl⟩ := hg.onHandle
      exact (List.append_nil _).symm

/-- Of a task the listeners hear what its firing tells them, if there is one only. -/
theorem heard_of_run (ho : ∀ j, j ≠ i → (crew j).oid ≠ (crew i).oid)
    (hr : Run (Scene.Step crew (World.LeavesStory (crew i).oid)) (.begin crew w) es c) :
    c.world.heard (crew i).oid
      = w.heard (crew i).oid ++ (deedsOf i es).filterMap Deed.news? := by
  induction hr with
  | nil => simp [Scene.begin]
  | @snoc c₁ c₂ es e hr he ih =>
      have own (j : ι) (d : Deed) (hj : e = .deed j d) :
          ∀ n ∈ d.news?, n.oid = (crew j).oid := by
        subst hj
        obtain ⟨l, path, -⟩ := Itinerary.path_of_run (hr.snoc he) j
        rw [deedsOf_snoc] at path
        obtain ⟨l', -, step⟩ := path.last
        exact fun n hn => oid_of_passes step hn
      cases he with
      | outside hw => rw [hw.heard, ih]; simp
      | @deed j d _ _ ht =>
          have own := own j d rfl
          rw [World.heard, listener_of_turn ht, List.filter_append]
          change c₁.world.heard (crew i).oid ++ _ = _
          rw [ih, List.append_assoc, deedsOf_append, List.filterMap_append]
          by_cases hj : j = i
          · subst hj
            cases hn : d.news? with
            | none => simp [hn]
            | some n => simp [hn, own n hn]
          · cases hn : d.news? with
            | none => simp [hj]
            | some n => simp [hj, own n hn, ho j hj]

/-- What is stored as the result once the firing has returned, it has recorded itself. -/
theorem recorded_of_run {report : FiringOutcome} {v : UInt64} {t : Task}
    (ho : ∀ j, j ≠ i → (crew j).oid ≠ (crew i).oid)
    (hk : ∀ j, (crew j).node.KeepsTo (HandlerCall.LeavesResult (crew i).oid))
    (ha : w.store.available)
    (hr : Run (Scene.Step crew (World.LeavesStory (crew i).oid)) (.begin crew w) es c)
    (ht : Milestones.taking (crew i) v t ∈ deedsOf i es) (hdone : c.program i = .done report) :
    ∃ d ∈ deedsOf i es, ∃ result, d.recorded? = some result ∧
      (c.world.store.find? (crew i).oid).bind Task.result = some result := by
  obtain ⟨before, after, rfl⟩ := List.append_of_mem (mem_deedsOf.mp ht)
  have hr : Run (Scene.Step crew (World.LeavesResult (crew i).oid)) (.begin crew w)
      (before ++ .deed i (Milestones.taking (crew i) v t) :: after) c :=
    hr.restrict (P := fun _ => True) (fun _ _ => trivial)
      fun _ _ _ _ he => he.mono fun _ _ hw => hw.toLeavesResult
  obtain ⟨j, result, ⟨es₁, e, es₂, rfl, hj, hrec, -⟩, stored⟩ :=
    Succession.recordsLast_of_taker hk ha hr rfl ⟨v, t, rfl⟩ hdone
  obtain rfl : j = i := by
    by_contra hne
    exact ho j hne hj
  obtain ⟨t', rfl⟩ := hrec
  refine ⟨.answered (.modify (crew j).oid { result := some result } .always) (.ok t'), ?_,
    result, rfl, stored⟩
  exact mem_deedsOf.mpr (by simp)

end

end Telling

/-- The listeners, the report and the record tell one story of a firing that has returned.
If it has not got the task, the listeners were told nothing, the handler was not invoked,
and the report is neither that it has run nor that it has failed. If it has, the listeners
were told that the handler begins, if there is one, before it does anything, and afterwards,
once, that the firing is over. The status that they were told is stored, and reported if
one is. -/
theorem one_story {ι : Type} [DecidableEq ι] {crew : ι → Occasion} {w : World} {c : Scene ι}
    {es : List (Event ι)} {i : ι} {report : FiringOutcome}
    (ho : ∀ j, j ≠ i → (crew j).oid ≠ (crew i).oid)
    (hk : ∀ j, (crew j).node.KeepsTo (HandlerCall.LeavesResult (crew i).oid))
    (ha : w.store.available)
    (hr : Run (Scene.Step crew (World.LeavesStory (crew i).oid)) (.begin crew w) es c)
    (hdone : c.program i = .done report) :
    ((∀ v t, Milestones.taking (crew i) v t ∉ deedsOf i es) →
      (deedsOf i es).filter Deed.isStory = [] ∧
      c.world.heard (crew i).oid = w.heard (crew i).oid ∧
      (∀ oid status, report ≠ .ok (.completed oid status)) ∧
      ∀ oid e, report ≠ .error (.handler oid e)) ∧
    ∀ v t, Milestones.taking (crew i) v t ∈ deedsOf i es →
      ∃ status announced running, announced = ((crew i).node.handlers.resolve t.handlerRef).isSome ∧
        Telling.Story (crew i) announced (some status) running (deedsOf i es) ∧
        c.world.heard (crew i).oid = w.heard (crew i).oid ++
          (if announced then [.started (crew i).oid (crew i).recovering] else []) ++
          [.finished (crew i).oid status] ∧
        ((c.world.store.find? (crew i).oid).bind Task.result).map OperationResult.status
          = some status ∧
        ∀ oid status', report = .ok (.completed oid status') →
          oid = (crew i).oid ∧ status' = status := by
  obtain ⟨l, path, runs⟩ := Itinerary.path_of_run hr i
  rw [hdone] at runs
  obtain ⟨running, story⟩ := Telling.story_of_path path
  have heard := Telling.heard_of_run ho hr
  rw [story.news] at heard
  rcases Telling.returned path runs with
    ⟨idle, silent, untold, stop, rfl⟩ | ⟨h, t', b, status, rfl, hreport⟩
  · refine ⟨fun _ => ?_, fun v t ht => ?_⟩
    · obtain rfl := story.unheard silent
      refine ⟨by simp [story.story, silent, untold], by simp [heard, silent, untold], ?_, ?_⟩
      all_goals rcases stop.outcome_cases with h | ⟨cause, h⟩ <;> simp [h]
    · cases idle.symm.trans (Itinerary.task?_of_taking path ht)
  · refine ⟨fun hn => ?_, fun v t ht => ?_⟩
    · obtain ⟨v, taken⟩ := Itinerary.taking_of_path path rfl
      exact absurd taken (hn v t')
    · obtain rfl := Option.some.inj (Itinerary.task?_of_taking path ht)
      refine ⟨status, b, running, (Telling.resolves_of_path path).symm, story, ?_, ?_, hreport⟩
      · rw [heard, List.append_assoc]
        rfl
      · obtain ⟨d, hd, result, hrec, stored⟩ := Telling.recorded_of_run ho hk ha hr ht hdone
        rw [stored]
        exact ((Telling.recorded_of_path path hd hrec).resolve_right (by rintro ⟨_, ⟨⟩⟩)).symm

namespace Telling

/-- Firings of two tasks, whose handlers end at once. -/
abbrev crew (i : Bool) : Occasion :=
  let f := Rehearsal.occasion "a" (.done (.ok ⟨.finished, none⟩))
  if i then f else { f with oid := ⟨2⟩ }

/-- They go on in turns until both have returned. -/
abbrev played : List (Event Bool) × Scene Bool :=
  Scene.play crew (List.replicate 40 [.go true, .go false]).flatten (.begin crew Identity.world)

theorem crew_keepsTo (allowed : HandlerCall → Prop) (i : Bool) :
    (crew i).node.KeepsTo allowed := by
  cases i <;> exact Rehearsal.occasion_keepsTo trivial

end Telling

/-- One of them has told the whole story, from the handler that was announced. -/
theorem one_story_played : ∃ status running,
    Telling.Story (Telling.crew true) true (some status) running
      (deedsOf true Telling.played.1) ∧
    Telling.played.2.world.heard ⟨1⟩ = [.started ⟨1⟩ false, .finished ⟨1⟩ status] ∧
    ((Telling.played.2.world.store.find? ⟨1⟩).bind Task.result).map OperationResult.status
      = some status := by
  have run : Run (Scene.Step Telling.crew (World.LeavesStory (Telling.crew true).oid))
      (.begin Telling.crew Identity.world) Telling.played.1 Telling.played.2 :=
    Scene.play_run _ _ fun f hf => by simp at hf
  have cleared : .answered .clearIdentity () ∈ deedsOf true Telling.played.1 :=
    Itinerary.cleared_of_any (by decide +kernel)
  obtain ⟨l, path, -⟩ := Itinerary.path_of_run run true
  obtain ⟨t, ht⟩ := Itinerary.task?_of_cleared path cleared
  obtain ⟨v, taken⟩ := Itinerary.taking_of_path path ht
  obtain ⟨report, hdone⟩ := Scene.done_of_hasEnded
    (by decide +kernel : Telling.played.2.hasEnded true)
  have others : ∀ j, j ≠ true → (Telling.crew j).oid ≠ (Telling.crew true).oid := by decide
  obtain ⟨status, announced, running, -, story, heard, stored, -⟩ :=
    (one_story others (Telling.crew_keepsTo _) (by decide) run hdone).2 v t taken
  have both : (Telling.played.2.world.heard (Telling.crew true).oid).length = 2 := by
    decide +kernel
  cases announced with
  | true => exact ⟨status, running, story, heard, stored⟩
  | false =>
      rw [heard] at both
      cases both

end TaskFiring
