import TaskFiring.Proofs.Pursuit

/-!
Sparing safe handlers. Where the policy is to spare them, a handler is interrupted if and
only if somebody asked its handle whether it is safe before its firing had said so there.
A firing says so late: it is registered by then, it has looked at the stop signal and has
taken the task. Whoever asks in time finds a handler not safe that is.
-/

namespace TaskFiring

/-- Somebody has asked the handle whether the handler is safe before its firing has said. -/
def AskedEarly {ι κ : Type} [DecidableEq ι] [DecidableEq κ] (i : ι) (h : HandleId)
    (es : List (Event (ι ⊕ κ))) : Prop :=
  ∃ es₁ es₂ j safe, es = es₁ ++ .deed j (.answered (.isSafe h) safe) :: es₂ ∧
    ∀ b, .answered (.setSafe h b) () ∉ deedsOf (.inl i) es₁

/-- Whoever may stop the firing is to spare safe handlers. -/
structure Lenient {ι κ : Type} (crew : ι → Occasion) (wardens : κ → Warden) (i : ι) : Prop where
  node : (crew i).node.config.interruptPolicy = .maybe
  wardens : ∀ k, (wardens k).place = (crew i).place → (wardens k).policy = .maybe

/-- The handler with which the firing runs the task, if it comes to that, is safe. -/
def SafelyHandled (f : Occasion) (ds : List Deed) : Prop :=
  ∀ v t handler, Milestones.taking f v t ∈ ds →
    f.node.handlers.resolve t.handlerRef = some handler → handler.safe

/-- Given these answers to all its calls, the handler comes to that end. -/
inductive Performs (h : HandleId) (oid : TaskOid) : HandlerWork → List Deed → HandlerEnd → Prop
  | done {ended : HandlerEnd} : Performs h oid (.done ended) [] ended
  | ask {call : HandlerCall} {next : call.Response → HandlerWork} {a : call.Response}
      {ds : List Deed} {ended : HandlerEnd} : Performs h oid (next a) ds ended →
      Performs h oid (.ask call next) (.answered (.handler h oid call) (some a) :: ds) ended

namespace Milestones

variable {ds : List Deed} {h : HandleId} {oid : TaskOid} {ended : HandlerEnd}

/-- Unless a call of it is cut short, the end of a handler is its own. -/
theorem performs_of_way {work : HandlerWork}
    (hw : (Handling.guarded h oid work).Way ds (.done ended))
    (hc : ∀ call, .answered (.handler h oid call) none ∉ ds) : Performs h oid work ds ended := by
  induction work generalizing ds with
  | done r =>
      cases ds with
      | nil =>
          obtain rfl : ended = r := Program.done.inj hw.eq_of_nil
          exact .done
      | cons d ds =>
          obtain ⟨_, hd, -⟩ := Run.first hw
          change Program.Passes (.done r) d _ at hd
          cases hd
  | ask r next ih =>
      unfold Handling.guarded at hw
      cases ds with
      | nil => cases hw.eq_of_nil
      | cons d ds =>
          obtain ⟨a, rfl, hrest⟩ := Program.Way.next id hw
          cases a with
          | none => exact absurd List.mem_cons_self (hc r)
          | some a => exact .ask (ih a hrest fun call hm => hc call (List.mem_cons_of_mem _ hm))

theorem run_of_way {handler : Handler} {context : RunContext}
    (hw : (Handling.run handler h context).Way ds (.done ended)) :
    ∃ b ds', ds = .answered (.isInterrupted h) b :: ds' ∧
      (b = false → (Handling.guarded h context.task.oid (handler.work context)).Way ds'
        (.done ended)) := by
  cases ds with
  | nil => cases hw.eq_of_nil
  | cons d ds =>
      obtain ⟨b, rfl, hrest⟩ := Program.Way.next id hw
      exact ⟨b, ds, rfl, by rintro rfl; exact hrest⟩

/-- What a firing does with the end of its handler. -/
def afterwards (node : Node) (g : Firing) (ended : HandlerEnd) : Action FiringOutcome := do
  closing g
  let (result, _) ← call (.collect g.handle g.result 0 [])
  rest node ({ g with result }, ended)

variable {node : Node} {handler : Handler} {g : Firing} {q : Action FiringOutcome}

/-- Once the scope of the handler is left, the handler has ended. -/
theorem ended_of_cleared
    (hw : ((Firing.runTaken node handler g).bind (rest node)).Way ds q)
    (hc : .answered .clearIdentity () ∈ ds) :
    ∃ before running after ended, ds = before ++ running ++ after ∧
      (opening node handler g).Way before (.done ()) ∧
      (Handling.run handler g.handle (context g)).Way running (.done ended) ∧
      (afterwards node g ended).Way after q := by
  let kind : Call → Prop := fun r => r ≠ .clearIdentity
  -- neither part before the end of the scope has such a call
  have not_mem {α : Type} {p p' : Action α} {ds : List Deed} (hp : p.Only kind)
      (hw : p.Way ds p') : .answered .clearIdentity () ∉ ds :=
    fun hm => (hp.along (fun _ _ _ _ _ _ _ _ => nofun) hw).1 _ hm rfl
  have opens : (opening node handler g).Only kind := by
    refine Program.Only.bind ⟨nofun, fun _ => trivial⟩ fun _ => ?_
    refine Program.Only.bind ⟨nofun, fun _ => trivial⟩ fun _ => ?_
    refine Program.Only.bind (Course.spawnAll_only (fun _ => nofun) _) fun _ => ?_
    exact Program.Only.bind ⟨nofun, fun _ => trivial⟩ fun _ => ⟨nofun, fun _ => trivial⟩
  have runs : (Handling.run handler g.handle (context g)).Only kind := by
    refine (run_handlers handler g.handle (context g)).mono fun r hr => ?_
    rintro rfl
    cases hr
  change (Firing.runTaken node handler g >>= rest node).Way ds q at hw
  rw [runTaken_eq] at hw
  rcases hw.part with ⟨p, hway, -⟩ | ⟨before, ds, _, rfl, hopen, hw⟩
  · exact absurd hc (not_mem opens hway)
  have hc := (List.mem_append.mp hc).resolve_left (not_mem opens hopen)
  rcases hw.part with ⟨p, hway, -⟩ | ⟨running, after, ended, rfl, hrun, hw⟩
  · exact absurd hc (not_mem runs hway)
  exact ⟨before, running, after, ended, (List.append_assoc _ _ _).symm, hopen, hrun, hw⟩

theorem marks_of_opening (hw : (opening node handler g).Way ds (.done ())) :
    .answered (.setSafe g.handle handler.safe) () ∈ ds := by
  cases ds with
  | nil => cases hw.eq_of_nil
  | cons d ds =>
      obtain ⟨_, rfl, -⟩ := Program.Way.next id hw
      exact List.mem_cons_self

end Milestones

theorem Event.interrupted_of_mark {ι : Type} {h : HandleId} {m : Marks} {e : Event ι}
    (hm : (e.mark h m).interrupted) :
    m.interrupted ∨ ∃ j, e = .deed j (.answered (.interruptHandler h) ()) := by
  cases e with
  | outside => exact .inl hm
  | deed j d =>
      cases d with
      | gathered => exact .inl hm
      | answered r a =>
          cases r with
          | interruptHandler k =>
              by_cases hk : k = h
              · subst hk
                exact .inr ⟨j, rfl⟩
              · simp only [mark, Deed.mark, Call.mark, if_neg hk] at hm
                exact .inl hm
          | clearCanRun | setSafe =>
              simp only [mark, Deed.mark, Call.mark] at hm
              split at hm <;> exact .inl hm
          | _ => exact .inl hm

theorem Event.mark_interrupted {ι : Type} {h : HandleId} {m : Marks} (e : Event ι)
    (hm : m.interrupted) : (e.mark h m).interrupted := by
  cases e with
  | outside => exact hm
  | deed j d =>
      cases d with
      | gathered => exact hm
      | answered r a =>
          cases r with
          | clearCanRun | setSafe | interruptHandler =>
              simp only [mark, Deed.mark, Call.mark]
              split
              · first | rfl | exact hm
              · exact hm
          | _ => exact hm

theorem Event.mark_safe {ι : Type} {h : HandleId} {m : Marks} {e : Event ι}
    (he : ∀ j b, e ≠ .deed j (.answered (.setSafe h b) ())) : (e.mark h m).safe = m.safe := by
  cases e with
  | outside => rfl
  | deed j d =>
      cases d with
      | gathered => rfl
      | answered r a =>
          cases r with
          | setSafe k b =>
              have hk : k ≠ h := by
                rintro rfl
                exact he j b rfl
              simp only [mark, Deed.mark, Call.mark, if_neg hk]
          | clearCanRun | interruptHandler =>
              simp only [mark, Deed.mark, Call.mark]
              split <;> rfl
          | _ => rfl

namespace Leniency

section

variable {ι κ : Type} [DecidableEq ι] [DecidableEq κ] {crew : ι → Occasion}
  {wardens : κ → Warden} {s s' : Watch ι κ} {es es' : List (Event (ι ⊕ κ))}
  {e : Event (ι ⊕ κ)} {w : World} {i j : ι} {k : κ} {h : HandleId} {m : Marks}
  {place : Place} {oid : TaskOid}

theorem found_snoc {ds : List Deed} {d : Deed} (hf : Found h (ds ++ [d])) :
    Found h ds ∨ (∃ hs, d = .answered .registeredHandles hs ∧ h ∈ hs) ∨
      ∃ oid, d = .answered (.registered oid) (some h) := by
  rcases hf with ⟨hs, hd, hh⟩ | ⟨oid, hd⟩
  · refine (List.mem_append.mp hd).imp (fun hd => .inl ⟨hs, hd, hh⟩) fun hd => ?_
    exact .inl ⟨hs, (List.mem_singleton.mp hd).symm, hh⟩
  · refine (List.mem_append.mp hd).imp (fun hd => .inr ⟨oid, hd⟩) fun hd => ?_
    exact .inr ⟨oid, (List.mem_singleton.mp hd).symm⟩

/-- The handle of a firing is registered, and found, at its own place only. -/
structure Home (crew : ι → Occasion) (wardens : κ → Warden) (es : List (Event (ι ⊕ κ)))
    (w : World) : Prop where
  home : ∀ i h place oid, Custody.handleOf (deedsOf (.inl i) es) = some h →
    w.registered place oid = some h → place = (crew i).place
  there : ∀ k h, Found h (deedsOf (.inr k) es) → ∃ m, w.marks? h = some m
  found : ∀ k h i, Found h (deedsOf (.inr k) es) →
    Custody.handleOf (deedsOf (.inl i) es) = some h → (wardens k).place = (crew i).place

/-- What a warden finds is registered at its place. -/
theorem registered_of_finds {d : Deed} (he : s.Step crew wardens (.deed (.inr k) d) s')
    (hd : (∃ hs, d = .answered .registeredHandles hs ∧ h ∈ hs) ∨
      ∃ oid, d = .answered (.registered oid) (some h)) :
    s'.world = s.world ∧ ∃ oid, s.world.registered (wardens k).place oid = some h := by
  cases he with
  | warden ht =>
      generalize s.warden k = p at ht
      rcases hd with ⟨hs, rfl, hh⟩ | ⟨oid, rfl⟩
      · cases ht with
        | answered ha =>
            obtain ⟨hw, found⟩ := ha.registeredHandles
            exact ⟨hw, (found h).mp hh⟩
      · cases ht with
        | answered ha =>
            obtain ⟨hw, found⟩ := ha.registered
            exact ⟨hw, oid, found.symm⟩

theorem found_of_step (he : s.Step crew wardens e s')
    (hf : Found h (deedsOf (.inr k) (es ++ [e]))) :
    Found h (deedsOf (.inr k) es) ∨
      s'.world = s.world ∧ ∃ oid, s.world.registered (wardens k).place oid = some h := by
  by_cases own : ∃ d, e = .deed (.inr k) d
  · obtain ⟨d, rfl⟩ := own
    rw [deedsOf_snoc] at hf
    exact (found_snoc hf).imp_right (registered_of_finds he)
  · rw [deedsOf_snoc_other fun d h => own ⟨d, h⟩] at hf
    exact .inl hf

theorem Home.step (hi : Home crew wardens es s.world) (hw : w.Sound)
    (hr : Run (Watch.Step crew wardens) (.begin crew wardens w) es s)
    (he : s.Step crew wardens e s') : Home crew wardens (es ++ [e]) s'.world := by
  -- a handle that is there belonged to its firing before
  have before {i : ι} {h : HandleId} {m : Marks}
      (hh : Custody.handleOf (deedsOf (.inl i) (es ++ [e])) = some h)
      (hm : s.world.marks? h = some m) : Custody.handleOf (deedsOf (.inl i) es) = some h :=
    (Watch.made_of_step hr he hh).resolve_right fun ⟨hn, _⟩ => by cases hn.symm.trans hm
  have sound := Watch.sound_of_run hr hw
  constructor
  · intro i h place oid hh hreg
    rcases he.registered_cases (Watch.run_scene hr).2 hreg with hreg | ⟨j, rfl, hp, -⟩
    · obtain ⟨m, hm⟩ := sound place oid h hreg
      exact hi.home i h place oid (before hh hm) hreg
    · obtain ⟨l, path, -⟩ := Watch.path_of_run (hr.snoc he) j
      have hj := (Itinerary.handleOf_of_path path).trans
        (Itinerary.handle_of_registers path (h := h) (by simp))
      obtain rfl := Watch.eq_of_handleOf (hr.snoc he) hh hj
      exact hp
  · intro k h hf
    rcases found_of_step he hf with hf | ⟨hw, oid, hreg⟩
    · obtain ⟨m, hm⟩ := hi.there k h hf
      exact ⟨_, he.marks? hm⟩
    · rw [hw]
      exact sound _ oid h hreg
  · intro k h i hf hh
    rcases found_of_step he hf with hf | ⟨-, oid, hreg⟩
    · obtain ⟨m, hm⟩ := hi.there k h hf
      exact hi.found k h i hf (before hh hm)
    · obtain ⟨m, hm⟩ := sound _ oid h hreg
      exact hi.home i h _ oid (before hh hm) hreg

theorem home_of_run (hw : w.Sound)
    (hr : Run (Watch.Step crew wardens) (.begin crew wardens w) es s) :
    Home crew wardens es s.world := by
  induction hr with
  | nil => exact ⟨nofun, fun _ _ hf => by simp [Found] at hf, fun _ _ _ hf => by simp [Found] at hf⟩
  | snoc hr he ih => exact ih.step hw hr he

theorem tells_of_run (hr : Run (Watch.Step crew wardens) (.begin crew wardens w) es s) (k : κ) :
    ∃ p, Pursuit.Tells (wardens k).policy (deedsOf (.inr k) es) p ∧
      Pursuit.Runs (wardens k).policy (s.warden k) p fun p _ => p.doomed = none := by
  obtain ⟨p, path, runs⟩ := Pursuit.path_of_way (Watch.warden_way hr k)
  exact ⟨p, Pursuit.tells_of_path path, runs⟩

/-- Who asks for a mark or interrupts is the firing itself, or a warden who has found it. -/
theorem handleOf_or_found (hr : Run (Watch.Step crew wardens) (.begin crew wardens w) es s)
    {j : ι ⊕ κ} {r : Call} {a : r.Response} (hd : .answered r a ∈ deedsOf j es)
    (ha : r.aim? = some h) :
    (∃ i, j = .inl i ∧ Custody.handleOf (deedsOf (.inl i) es) = some h) ∨
      ∃ k, j = .inr k ∧ Found h (deedsOf (.inr k) es) := by
  cases j with
  | inl i =>
      obtain ⟨l, path, -⟩ := Watch.path_of_run hr i
      exact .inl ⟨i, rfl, (Itinerary.handleOf_of_path path).trans
        (Itinerary.handle?_of_mem path hd ha)⟩
  | inr k =>
      obtain ⟨p, tells, -⟩ := tells_of_run hr k
      exact .inr ⟨k, rfl, tells.reached r a h hd ha⟩

/-- The firing whose handle is marked has marked it. -/
theorem marks_of_run (hr : Run (Watch.Step crew wardens) (.begin crew wardens w) es s)
    {j : ι ⊕ κ} {b : Bool} (hd : .answered (.setSafe h b) () ∈ deedsOf j es) :
    ∃ i, j = .inl i ∧ Custody.handleOf (deedsOf (.inl i) es) = some h := by
  refine (handleOf_or_found hr hd rfl).resolve_right ?_
  rintro ⟨k, rfl, -⟩
  have only := (wardens k).program_intervenes.along Call.intervenes_steady (Watch.warden_way hr k)
  exact only.1 _ hd

theorem eq_of_marks_of_handleOf
    (hr : Run (Watch.Step crew wardens) (.begin crew wardens w) es s)
    (hh : Custody.handleOf (deedsOf (.inl i) es) = some h) {j : ι ⊕ κ} {b : Bool}
    (hd : .answered (.setSafe h b) () ∈ deedsOf j es) : j = .inl i := by
  obtain ⟨i', rfl, hi'⟩ := marks_of_run hr hd
  rw [Watch.eq_of_handleOf hr hh hi']

theorem struck_of_interrupted
    (hr : Run (Watch.Step crew wardens) (.begin crew wardens w) es s) (hn : w.marks? h = none)
    (hm : s.world.marks? h = some m) (hi : m.interrupted) :
    ∃ j, .answered (.interruptHandler h) () ∈ deedsOf j es := by
  induction hr generalizing m with
  | nil => cases hn.symm.trans hm
  | @snoc s₁ s₂ es e _ he ih =>
      have later : (∃ j, .answered (.interruptHandler h) () ∈ deedsOf j es) →
          ∃ j, .answered (.interruptHandler h) () ∈ deedsOf j (es ++ [e]) :=
        fun ⟨j, hj⟩ => ⟨j, mem_deedsOf_snoc.mpr (.inl hj)⟩
      cases hm₁ : s₁.world.marks? h with
      | none => simp [(he.marks?_new hm hm₁).2] at hi
      | some m₁ =>
          obtain rfl := Option.some.inj ((he.marks? hm₁).symm.trans hm)
          rcases Event.interrupted_of_mark hi with hi | ⟨j, rfl⟩
          · exact later (ih hm₁ hi)
          · exact ⟨j, by simp⟩

/-- A handle is there if its marks are asked for or set. -/
theorem there_of_aims (hw : w.Sound)
    (hr : Run (Watch.Step crew wardens) (.begin crew wardens w) es s) {j : ι ⊕ κ} {r : Call}
    {a : r.Response} (he : s.Step crew wardens (.deed j (.answered r a)) s')
    (ha : r.aim? = some h) : ∃ m, s.world.marks? h = some m := by
  cases j with
  | inl i =>
      obtain ⟨l, l', path, step⟩ := Watch.passes_of_step hr he
      refine (Watch.marks_of_handleOf hr (i := i) ?_).2
      exact (Itinerary.handleOf_of_path path).trans (Itinerary.handle?_of_aims step ha)
  | inr k =>
      obtain ⟨p, tells, -⟩ := tells_of_run (hr.snoc he) k
      have hf := tells.reached r a h (mem_deedsOf_snoc.mpr (.inr rfl)) ha
      rw [deedsOf_snoc] at hf
      rcases found_snoc hf with hf | ⟨hs, hd, -⟩ | ⟨oid, hd⟩
      · exact (home_of_run hw hr).there k h hf
      · cases hd
        cases ha
      · cases hd
        cases ha

theorem interrupted_of_struck (hw : w.Sound)
    (hr : Run (Watch.Step crew wardens) (.begin crew wardens w) es s) {j : ι ⊕ κ}
    (hd : .answered (.interruptHandler h) () ∈ deedsOf j es) :
    ∃ m, s.world.marks? h = some m ∧ m.interrupted := by
  induction hr with
  | nil => cases hd
  | snoc hr he ih =>
      rcases mem_deedsOf_snoc.mp hd with hd | rfl
      · obtain ⟨m, hm, hi⟩ := ih hd
        exact ⟨_, he.marks? hm, Event.mark_interrupted _ hi⟩
      · obtain ⟨m, hm⟩ := there_of_aims hw hr he rfl
        exact ⟨_, he.marks? hm, by simp [Event.mark, Deed.mark, Call.mark]⟩

/-- What a firing has said of its handler stays. -/
theorem safe_of_marked (hw : w.Sound)
    (hr : Run (Watch.Step crew wardens) (.begin crew wardens w) es s) {b : Bool}
    (hd : .answered (.setSafe h b) () ∈ deedsOf (.inl i) es) :
    ∃ m, s.world.marks? h = some m ∧ m.safe = b := by
  induction hr with
  | nil => cases hd
  | @snoc s₁ s₂ es e hr he ih =>
      rcases mem_deedsOf_snoc.mp hd with hold | rfl
      · obtain ⟨m, hm, hs⟩ := ih hold
        refine ⟨_, he.marks? hm, (Event.mark_safe fun j b' => ?_).trans hs⟩
        -- it is said once
        rintro rfl
        obtain ⟨i', hi', hh⟩ := marks_of_run (hr.snoc he) hd
        obtain rfl := Sum.inl.inj hi'
        obtain rfl := eq_of_marks_of_handleOf (hr.snoc he) hh (mem_deedsOf_snoc.mpr (.inr rfl))
        obtain ⟨l, l', path, step⟩ := Watch.passes_of_step hr he
        exact Itinerary.not_marks_of_isMarked (Itinerary.marks_of_path path hold).1 step
      · obtain ⟨m, hm⟩ := there_of_aims hw hr he rfl
        exact ⟨_, he.marks? hm, by simp [Event.mark, Deed.mark, Call.mark]⟩

theorem marked_of_safe
    (hr : Run (Watch.Step crew wardens) (.begin crew wardens w) es s) (hn : w.marks? h = none)
    (hm : s.world.marks? h = some m) (hs : m.safe) :
    ∃ j b, .answered (.setSafe h b) () ∈ deedsOf j es := by
  induction hr generalizing m with
  | nil => cases hn.symm.trans hm
  | @snoc s₁ s₂ es e _ he ih =>
      by_cases own : ∃ j b, e = .deed j (.answered (.setSafe h b) ())
      · obtain ⟨j, b, rfl⟩ := own
        exact ⟨j, b, mem_deedsOf_snoc.mpr (.inr rfl)⟩
      · cases hm₁ : s₁.world.marks? h with
        | none => simp [(he.marks?_new hm hm₁).1] at hs
        | some m₁ =>
            obtain rfl := Option.some.inj ((he.marks? hm₁).symm.trans hm)
            rw [Event.mark_safe fun j b he => own ⟨j, b, he⟩] at hs
            obtain ⟨j, b, hd⟩ := ih hm₁ hs
            exact ⟨j, b, mem_deedsOf_snoc.mpr (.inl hd)⟩

/-- Who asks hears the mark that is there. -/
theorem safe_of_asked {j : ι ⊕ κ} {b : Bool}
    (he : s.Step crew wardens (.deed j (.answered (.isSafe h) b)) s')
    (hm : s.world.marks? h = some m) : b = m.safe := by
  have of_answers {place : Place} {w' : World}
      (ha : s.world.Answers place (.isSafe h) b w') : b = m.safe := by
    obtain ⟨x, hx, rfl⟩ := Option.map_eq_some_iff.mp hm
    cases ha with
    | performed hp =>
        cases hp
        simp [hx, Handle.marks]
  cases he with
  | @firing i _ _ _ ht =>
      generalize s.firing i = p at ht
      cases ht with
      | answered ha => exact of_answers ha
  | @warden k _ _ _ ht =>
      generalize s.warden k = p at ht
      cases ht with
      | answered ha => exact of_answers ha

theorem early_append (ha : AskedEarly i h es) : AskedEarly i h (es ++ es') := by
  obtain ⟨es₁, es₂, j, b, rfl, hn⟩ := ha
  exact ⟨es₁, es₂ ++ es', j, b, by simp, hn⟩

/-- Whoever hears that a safe handler is not safe has asked early. -/
theorem early_of_heard (hw : w.Sound)
    (hr : Run (Watch.Step crew wardens) (.begin crew wardens w) es s)
    (hs : SafelyHandled (crew i) (deedsOf (.inl i) es)) {j : ι ⊕ κ}
    (hd : .answered (.isSafe h) false ∈ deedsOf j es) : AskedEarly i h es := by
  obtain ⟨es₁, es₂, rfl⟩ := List.append_of_mem (mem_deedsOf.mp hd)
  refine ⟨es₁, es₂, j, false, rfl, fun b hb => ?_⟩
  obtain ⟨s₁, s₂, hr₁, he, -⟩ := hr.around
  obtain ⟨l, path, -⟩ := Watch.path_of_run hr₁ i
  obtain ⟨-, v, t, handler, taken, hh, rfl⟩ := Itinerary.marks_of_path path hb
  have safe : handler.safe := by
    refine hs v t handler ?_ hh
    rw [deedsOf_append]
    exact List.mem_append_left _ taken
  obtain ⟨m, hm, marked⟩ := safe_of_marked hw hr₁ hb
  have heard := safe_of_asked he hm
  simp [marked, safe] at heard

/-- Where safe handlers are spared, nobody interrupts one without having asked. -/
theorem heard_of_struck (hw : w.Sound)
    (hr : Run (Watch.Step crew wardens) (.begin crew wardens w) es s)
    (hh : Custody.handleOf (deedsOf (.inl i) es) = some h) (hl : Lenient crew wardens i)
    {j : ι ⊕ κ} (hd : .answered (.interruptHandler h) () ∈ deedsOf j es) :
    .answered (.isSafe h) false ∈ deedsOf j es := by
  rcases handleOf_or_found hr hd rfl with ⟨i', rfl, hi'⟩ | ⟨k, rfl, hf⟩
  · obtain rfl := Watch.eq_of_handleOf hr hh hi'
    obtain ⟨l, path, -⟩ := Watch.path_of_run hr i
    exact (Itinerary.heedful_of_path path).struck hl.node h hd
  · obtain ⟨p, tells, -⟩ := tells_of_run hr k
    have place := (home_of_run hw hr).found k h i hf hh
    exact tells.heedful.struck (hl.wardens k place) h hd

theorem early_of_interrupted (hw : w.Sound)
    (hr : Run (Watch.Step crew wardens) (.begin crew wardens w) es s)
    (hh : Custody.handleOf (deedsOf (.inl i) es) = some h) (hl : Lenient crew wardens i)
    (hs : SafelyHandled (crew i) (deedsOf (.inl i) es)) (hi : s.world.isInterrupted h) :
    AskedEarly i h es := by
  obtain ⟨hn, m, hm⟩ := Watch.marks_of_handleOf hr hh
  rw [World.isInterrupted_of_marks? hm] at hi
  obtain ⟨j, hd⟩ := struck_of_interrupted hr hn hm hi
  exact early_of_heard hw hr hs (heard_of_struck hw hr hh hl hd)

/-- Once everybody is done who is to interrupt it, a handler that was found not safe has
been interrupted. -/
theorem struck_of_heard
    (hr : Run (Watch.Step crew wardens) (.begin crew wardens w) es s)
    (hh : Custody.handleOf (deedsOf (.inl i) es) = some h) {report : FiringOutcome}
    (hi : s.firing i = .done report) (hk : ∀ k, s.warden k = .done ()) {j : ι ⊕ κ}
    (hd : .answered (.isSafe h) false ∈ deedsOf j es) :
    .answered (.interruptHandler h) () ∈ deedsOf j es := by
  rcases handleOf_or_found hr hd rfl with ⟨i', rfl, hi'⟩ | ⟨k, rfl, -⟩
  · obtain rfl := Watch.eq_of_handleOf hr hh hi'
    obtain ⟨l, path, runs⟩ := Watch.path_of_run hr i
    rw [hi] at runs
    refine ((Itinerary.heedful_of_path path).strikes h hd).resolve_right fun doomed => ?_
    cases (runs : l.Allows (crew i).oid report) <;> cases doomed
  · obtain ⟨p, tells, runs⟩ := tells_of_run hr k
    rw [hk k] at runs
    refine (tells.heedful.strikes h hd).resolve_right fun doomed => ?_
    cases (show p.doomed = none from runs).symm.trans doomed

/-- Whoever asks early hears that the handler is not safe. -/
theorem heard_of_early (hw : w.Sound)
    (hr : Run (Watch.Step crew wardens) (.begin crew wardens w) es s)
    (hh : Custody.handleOf (deedsOf (.inl i) es) = some h) (ha : AskedEarly i h es) :
    ∃ j, .answered (.isSafe h) false ∈ deedsOf j es := by
  obtain ⟨es₁, es₂, j, b, rfl, hn⟩ := ha
  obtain ⟨s₁, s₂, hr₁, he, -⟩ := hr.around
  obtain ⟨m, hm⟩ := there_of_aims hw hr₁ he rfl
  have heard : b = false := by
    rw [safe_of_asked he hm, ← Bool.not_eq_true]
    intro hs
    obtain ⟨new, -⟩ := Watch.marks_of_handleOf hr hh
    obtain ⟨j', b', hd⟩ := marked_of_safe hr₁ new hm hs
    obtain rfl := eq_of_marks_of_handleOf hr hh (j := j') (b := b') (by
      rw [deedsOf_append]
      exact List.mem_append_left _ hd)
    exact hn b' hd
  subst heard
  exact ⟨j, mem_deedsOf.mpr (by simp)⟩

/-- Then the handler is interrupted. -/
theorem interrupted_of_early (hw : w.Sound)
    (hr : Run (Watch.Step crew wardens) (.begin crew wardens w) es s)
    (hh : Custody.handleOf (deedsOf (.inl i) es) = some h) {report : FiringOutcome}
    (hi : s.firing i = .done report) (hk : ∀ k, s.warden k = .done ())
    (ha : AskedEarly i h es) : s.world.isInterrupted h := by
  obtain ⟨j, asked⟩ := heard_of_early hw hr hh ha
  obtain ⟨m, hm, hs⟩ := interrupted_of_struck hw hr (struck_of_heard hr hh hi hk asked)
  rw [World.isInterrupted_of_marks? hm]
  exact hs

/-- A handler that does not begin, or gets no answer, is interrupted. -/
theorem interrupted_of_halted {d : Deed} (he : s.Step crew wardens (.deed (.inl i) d) s')
    (hd : d = .answered (.isInterrupted h) true ∨
      ∃ oid call, d = .answered (.handler h oid call) none) : s.world.isInterrupted h := by
  cases he with
  | firing ht =>
      generalize s.firing i = p at ht
      rcases hd with rfl | ⟨oid, call, rfl⟩
      · cases ht with
        | answered ha =>
            cases ha with
            | performed hp => exact (Prod.mk.inj (Option.some.inj hp)).1
      · cases ht with
        | answered ha =>
            cases ha with
            | cut hi => exact hi
            | performed hp =>
                obtain ⟨_, -, hp⟩ := Option.map_eq_some_iff.mp hp
                cases hp

theorem early_of_halted (hw : w.Sound)
    (hr : Run (Watch.Step crew wardens) (.begin crew wardens w) es s)
    (hh : Custody.handleOf (deedsOf (.inl i) es) = some h) (hl : Lenient crew wardens i)
    (hs : SafelyHandled (crew i) (deedsOf (.inl i) es)) {d : Deed}
    (hm : d ∈ deedsOf (.inl i) es)
    (hd : d = .answered (.isInterrupted h) true ∨
      ∃ oid call, d = .answered (.handler h oid call) none) : AskedEarly i h es := by
  obtain ⟨es₁, es₂, rfl⟩ := List.append_of_mem (mem_deedsOf.mp hm)
  obtain ⟨s₁, s₂, hr₁, he, -⟩ := hr.around
  have hh₁ : Custody.handleOf (deedsOf (.inl i) es₁) = some h := by
    obtain ⟨l, l', path, step⟩ := Watch.passes_of_step hr₁ he
    rw [Itinerary.handleOf_of_path path]
    rcases hd with rfl | ⟨oid, call, rfl⟩
    all_goals exact Itinerary.handle?_of_aims step rfl
  refine early_append (early_of_interrupted hw hr₁ hh₁ hl (fun v t handler taken => ?_)
    (interrupted_of_halted he hd))
  exact hs v t handler (by rw [deedsOf_append]; exact List.mem_append_left _ taken)

end

end Leniency

/-- Once it has the task, the firing runs the handler to the end to which it comes by itself,
and goes on with that. -/
def TakesItsCourse (f : Occasion) (h : HandleId) (v : UInt64) (t : Task) (handler : Handler)
    (ds : List Deed) (q : Action FiringOutcome) : Prop :=
  ∃ (g : Firing) (first before running after : List Deed) (ended : HandlerEnd),
    ds = first ++ Milestones.taking f v t ::
      (before ++ (.answered (.isInterrupted h) false :: running) ++ after) ∧
    g.task = t ∧ g.handle = h ∧ g.recovering = f.recovering ∧
    Performs h t.oid (handler.work ⟨t, f.recovering⟩) running ended ∧
    (Handling.run handler h ⟨t, f.recovering⟩).Way
      (.answered (.isInterrupted h) false :: running) (.done ended) ∧
    (Milestones.afterwards f.node g ended).Way after q

theorem Milestones.takesItsCourse {f : Occasion} {ds : List Deed} {l : Leg} {h : HandleId}
    {v : UInt64} {t : Task} {handler : Handler} {q : Action FiringOutcome}
    (hw : f.program.Way ds q) (hp : Itinerary.Path f ds l)
    (hh : Custody.handleOf ds = some h) (ht : taking f v t ∈ ds)
    (hr : f.node.handlers.resolve t.handlerRef = some handler)
    (hc : .answered .clearIdentity () ∈ ds) (hb : .answered (.isInterrupted h) true ∉ ds)
    (hn : ∀ oid call, .answered (.handler h oid call) none ∉ ds) :
    TakesItsCourse f h v t handler ds q := by
  obtain ⟨first, ds, rfl⟩ := List.append_of_mem ht
  have marked {b : Bool} {k : HandleId}
      (hm : .answered (.setSafe k b) () ∈ first ++ taking f v t :: ds) : k = h := by
    have hk := (Itinerary.handleOf_of_path hp).trans (Itinerary.handle?_of_mem hp hm rfl)
    exact Option.some.inj (hk.symm.trans hh)
  -- from the write that takes the task, the firing is at its handler
  rw [List.append_cons] at hw hp hc
  obtain ⟨_, path, -⟩ := hp.split
  obtain ⟨_, taken, hw⟩ := hw.split
  obtain ⟨g, rfl, hg, -, rfl⟩ := program_taken hr taken
  have hc : .answered .clearIdentity () ∈ ds := by
    refine (List.mem_append.mp hc).resolve_left fun hc => ?_
    rcases List.mem_append.mp hc with hc | hc
    · exact Itinerary.not_cleared_of_taking path hc
    · cases List.mem_singleton.mp hc
  obtain ⟨before, running, after, ended, rfl, opens, runs, goes⟩ := ended_of_cleared hw hc
  obtain rfl : g.handle = h := marked (b := handler.safe) (by simp [marks_of_opening opens])
  have context : context g = ⟨g.task, f.recovering⟩ := by rw [← hg]; rfl
  rw [context] at runs
  obtain ⟨b, running, rfl, guarded⟩ := run_of_way runs
  cases b with
  | true => exact absurd (by simp) hb
  | false =>
      refine ⟨g, first, before, running, after, ended, rfl, rfl, rfl, hg, ?_, runs, goes⟩
      exact performs_of_way (guarded rfl) fun call hm => hn g.task.oid call (by simp [hm])

/-- Where the policy is to spare safe handlers, a safe one is interrupted if and only if
somebody has asked for it early. If nobody has, the handler comes to its own end. -/
theorem interrupted_iff_asked_early {ι κ : Type} [DecidableEq ι] [DecidableEq κ]
    {crew : ι → Occasion} {wardens : κ → Warden} {w : World} {s : Watch ι κ}
    {es : List (Event (ι ⊕ κ))} {i : ι} {h : HandleId} (hw : w.Sound)
    (hr : Run (Watch.Step crew wardens) (.begin crew wardens w) es s)
    (hh : Custody.handleOf (deedsOf (.inl i) es) = some h) (hl : Lenient crew wardens i)
    (hs : SafelyHandled (crew i) (deedsOf (.inl i) es)) :
    (s.world.isInterrupted h → AskedEarly i h es) ∧
    (∀ report, s.firing i = .done report → (∀ k, s.warden k = .done ()) →
      AskedEarly i h es → s.world.isInterrupted h) ∧
    (¬ AskedEarly i h es → ∀ v t handler,
      Milestones.taking (crew i) v t ∈ deedsOf (.inl i) es →
      (crew i).node.handlers.resolve t.handlerRef = some handler →
      .answered .clearIdentity () ∈ deedsOf (.inl i) es →
      TakesItsCourse (crew i) h v t handler (deedsOf (.inl i) es) (s.firing i)) := by
  refine ⟨Leniency.early_of_interrupted hw hr hh hl hs,
    fun report => Leniency.interrupted_of_early hw hr hh, ?_⟩
  intro hn v t handler taken hhandler cleared
  have halts {d : Deed} (hd : d = .answered (.isInterrupted h) true ∨
      ∃ oid call, d = .answered (.handler h oid call) none) : d ∉ deedsOf (.inl i) es :=
    fun hm => hn (Leniency.early_of_halted hw hr hh hl hs hm hd)
  obtain ⟨l, path, -⟩ := Watch.path_of_run hr i
  have way := Scene.way_of_run (Watch.run_scene hr).1 i
  rw [Watch.deedsOf_firings] at way
  exact Milestones.takesItsCourse way path hh taken hhandler cleared (halts (.inl rfl))
    fun oid call => halts (.inr ⟨oid, call, rfl⟩)

namespace Leniency

/-- One firing of a task with a safe handler, and one deactivation of its node, which is to
spare safe handlers. -/
abbrev crew : Unit → Occasion := fun _ =>
  let f := Rehearsal.occasion "a" (.ask .canRun fun _ => .done (.ok ⟨.finished, none⟩))
  { f with node := { f.node with config := { f.node.config with interruptPolicy := .maybe } } }

abbrev wardens : Unit → Warden := fun _ => ⟨.node "a", .maybe, none⟩

/-- The node is deactivated after that many calls of the firing, which then goes on. -/
abbrev played (n : Nat) : List (Event (Unit ⊕ Unit)) × Watch Unit Unit :=
  Watch.play crew wardens
    (List.replicate n (.inl ()) ++ List.replicate 7 (.inr ()) ++ List.replicate 30 (.inl ()))
    (.begin crew wardens Rehearsal.world)

theorem played_run (n : Nat) :
    Run (Watch.Step crew wardens) (.begin crew wardens Rehearsal.world) (played n).1
      (played n).2 :=
  Watch.play_run _ _

theorem crew_safe {ref : String} {handler : Handler}
    (h : (crew ()).node.handlers.resolve ref = some handler) : handler.safe := by
  simp only [Handlers.resolve, Rehearsal.occasion, Table.find?_put, Table.find?_empty] at h
  split at h
  · cases h
    rfl
  · cases h

theorem lenient (i : Unit) : Lenient crew wardens i := ⟨rfl, fun _ _ => rfl⟩

/-- Whether somebody asks for the handler in an event. -/
def asks : Event (Unit ⊕ Unit) → Bool
  | .deed _ (.answered (.isSafe _) _) => true
  | _ => false

/-- Whether the firing says in an event that its handler is safe. -/
def marks : Event (Unit ⊕ Unit) → Bool
  | .deed (.inl ()) (.answered (.setSafe h true) _) => h = ⟨0⟩
  | _ => false

theorem eq_of_marks {e : Event (Unit ⊕ Unit)} (he : marks e) :
    e = .deed (.inl ()) (.answered (.setSafe ⟨0⟩ true) ()) := by
  unfold marks at he
  split at he
  · rw [of_decide_eq_true he]
  · cases he

/-- The firing finds its handler interrupted. -/
def struck : Deed → Bool
  | .answered (.isInterrupted h) true => h = ⟨0⟩
  | _ => false

theorem eq_of_struck {d : Deed} (h : struck d) : d = .answered (.isInterrupted ⟨0⟩) true := by
  unfold struck at h
  split at h
  · rw [of_decide_eq_true h]
  · cases h

/-- The firing has returned that its task was interrupted. -/
def reports (s : Watch Unit Unit) : Bool :=
  s.firing () matches .done (.ok (.completed _ .interrupted))

theorem interrupted_of_reports {s : Watch Unit Unit} (h : reports s) :
    ∃ oid, s.firing () = .done (.ok (.completed oid .interrupted)) := by
  unfold reports at h
  split at h
  · next hp => exact ⟨_, hp⟩
  · cases h

theorem not_early {es : List (Event (Unit ⊕ Unit))}
    (hm : (es.takeWhile (!asks ·)).any marks) : ¬ AskedEarly () ⟨0⟩ es := by
  rintro ⟨es₁, es₂, j, b, rfl, hn⟩
  obtain ⟨e, he, hmark⟩ := List.any_eq_true.mp hm
  obtain rfl := eq_of_marks hmark
  refine hn true (mem_deedsOf.mpr ?_)
  clear hm hn
  induction es₁ with
  | nil => simp [asks] at he
  | cons e es₁ ih =>
      simp only [List.cons_append, List.takeWhile_cons] at he
      split at he
      · exact List.mem_cons.mpr ((List.mem_cons.mp he).imp_right ih)
      · cases he

end Leniency

/-- If the node is deactivated once the firing has said that its handler is safe, the
handler is spared and comes to its own end. -/
theorem spared_of_played :
    ¬ AskedEarly () ⟨0⟩ (Leniency.played 9).1 ∧
      (Leniency.played 9).2.world.isInterrupted ⟨0⟩ = false ∧
      ∃ v t handler, TakesItsCourse (Leniency.crew ()) ⟨0⟩ v t handler
        (deedsOf (.inl ()) (Leniency.played 9).1) ((Leniency.played 9).2.firing ()) := by
  have run := Leniency.played_run 9
  have handle : Custody.handleOf (deedsOf (.inl ()) (Leniency.played 9).1) = some ⟨0⟩ := by
    decide +kernel
  have asked : ¬ AskedEarly () ⟨0⟩ (Leniency.played 9).1 :=
    Leniency.not_early (by decide +kernel)
  have marked : .answered (.setSafe ⟨0⟩ true) () ∈ deedsOf (.inl ()) (Leniency.played 9).1 := by
    have h : (Leniency.played 9).1.any Leniency.marks := by decide +kernel
    obtain ⟨e, he, hm⟩ := List.any_eq_true.mp h
    rw [Leniency.eq_of_marks hm] at he
    exact mem_deedsOf.mpr he
  have cleared : .answered .clearIdentity () ∈ deedsOf (.inl ()) (Leniency.played 9).1 :=
    Itinerary.cleared_of_any (by decide +kernel)
  obtain ⟨early, -, course⟩ := interrupted_iff_asked_early World.sound_rehearsal run handle
    (Leniency.lenient ()) fun _ _ _ _ => Leniency.crew_safe
  refine ⟨asked, by rw [← Bool.not_eq_true]; exact mt early asked, ?_⟩
  obtain ⟨l, path, -⟩ := Watch.path_of_run run ()
  obtain ⟨-, v, t, handler, taken, hh, -⟩ := Itinerary.marks_of_path path marked
  exact ⟨v, t, handler, course asked v t handler taken hh cleared⟩

/-- If it is deactivated before, a firing that has found the stop signal not set is
interrupted all the same: its safe handler does not begin. -/
theorem not_always_spared :
    ∃ (crew : Unit → Occasion) (wardens : Unit → Warden) (es : List (Event (Unit ⊕ Unit)))
      (s : Watch Unit Unit) (h : HandleId),
      Rehearsal.world.Sound ∧ Lenient crew wardens () ∧
      (∀ ref handler, (crew ()).node.handlers.resolve ref = some handler → handler.safe) ∧
      Run (Watch.Step crew wardens) (.begin crew wardens Rehearsal.world) es s ∧
      Custody.handleOf (deedsOf (.inl ()) es) = some h ∧ s.world.isInterrupted h ∧
      .answered (.isInterrupted h) true ∈ deedsOf (.inl ()) es ∧
      ∃ oid, s.firing () = .done (.ok (.completed oid .interrupted)) := by
  refine ⟨Leniency.crew, Leniency.wardens, (Leniency.played 7).1, (Leniency.played 7).2, ⟨0⟩,
    World.sound_rehearsal, Leniency.lenient (), fun _ _ => Leniency.crew_safe,
    Leniency.played_run 7, by decide +kernel, by decide +kernel, ?_, ?_⟩
  · have h : (deedsOf (.inl ()) (Leniency.played 7).1).any Leniency.struck := by decide +kernel
    obtain ⟨d, hd, struck⟩ := List.any_eq_true.mp h
    rwa [← Leniency.eq_of_struck struck]
  · exact Leniency.interrupted_of_reports (by decide +kernel)

end TaskFiring
