import Mathlib.Data.List.ReduceOption
import TaskFiring.Proofs.Locality
import TaskFiring.Proofs.Lockstep
import TaskFiring.Proofs.Registration
import TaskFiring.Proofs.Succession

/-!
Independent firings. Firings of different tasks that share no group do not meet: as long as
nobody stops them and nothing is disturbed from outside, each comes to the record, the trigger
events and the report that it comes to alone, however they are interleaved.

Of a run one firing has its stance: what is left of its program, the world, and its handle.
Two runs in which a firing has done equally many deeds have led it to kindred stances, and
of two kindred stances one goes on if the other does. Reports are compared, and so are
records and events; handles, identifiers of children and the journal are not.
-/

namespace TaskFiring

/-- The firings are of different tasks, no group is among the effective constraints of two of
these, their handlers mind themselves, and no node is told to shut down. Nothing is asked of
the flags of the store and the trigger engine, which stay what they are. Neither does it matter
as whom a handler runs: there is one identity for all, and a handler that minds itself goes on
alike under any. -/
structure Independent {ι : Type} (crew : ι → Occasion) (w : World) : Prop where
  tasks : ∀ i j, (crew i).oid = (crew j).oid → i = j
  groups : ∀ i j g, w.store.InGroup (crew i).oid g → w.store.InGroup (crew j).oid g → i = j
  handlers : ∀ i, (crew i).node.MindsItself (crew i).oid
  awake : ∀ i, (w.site (crew i).place).shutDown = false

theorem Independent.alone {ι : Type} {crew : ι → Occasion} {w : World}
    (h : Independent crew w) (i : ι) : Independent (fun _ : Unit => crew i) w where
  tasks _ _ _ := rfl
  groups _ _ _ _ _ := rfl
  handlers _ := h.handlers i
  awake _ := h.awake i

/-- What has come of a firing: its report, the record of its task and the trigger events. -/
structure Conclusion where
  report : FiringOutcome
  record : Option Task
  events : List TriggerEvent

/-- The firing is over, and this has come of it. -/
structure Scene.Concludes {ι : Type} (c : Scene ι) (oid : TaskOid) (i : ι) (x : Conclusion) :
    Prop where
  report : c.program i = .done x.report
  record : c.world.store.find? oid = x.record
  events : c.world.trigger.eventsFor oid = x.events

theorem Scene.Concludes.unique {ι : Type} {c : Scene ι} {oid : TaskOid} {i : ι}
    {x y : Conclusion} (hx : c.Concludes oid i x) (hy : c.Concludes oid i y) : x = y := by
  obtain ⟨report, record, events⟩ := x
  obtain ⟨report', record', events'⟩ := y
  obtain ⟨hp, rfl, rfl⟩ := hx
  obtain ⟨hp', rfl, rfl⟩ := hy
  obtain rfl := Program.done.inj (hp.symm.trans hp')
  rfl

/-- The firing may come to this when it is alone in that world. -/
def Occasion.Ends (f : Occasion) (w : World) (x : Conclusion) : Prop :=
  ∃ es c, Run (Scene.Step (fun _ : Unit => f) World.Ticks) (.begin (fun _ => f) w) es c ∧
    c.Concludes f.oid () x

/-- Where a firing stands. -/
structure Stance where
  program : Action FiringOutcome
  world : World
  handle : Option HandleId

namespace Stance

/-- The firing can go on from there as it could in that world. -/
structure Fit (f : Occasion) (w₀ : World) (x : Stance) : Prop where
  suits : x.world.Suits f w₀ x.handle
  behaves : Lockstep.Behaves f x.world x.handle x.program

/-- The firing does a deed of its own, or does not see what happens. -/
inductive Goes (f : Occasion) (w₀ : World) (x : Stance) : Option Deed → Stance → Prop
  | own {d : Deed} {p : Action FiringOutcome} {w : World} : x.Fit f w₀ →
      x.program.Turn f.place x.world d p w →
      Goes f w₀ x (some d) ⟨p, w, x.handle.or (Custody.made? d)⟩
  | unseen {w : World} : x.world.LooksLike f w x.handle x.handle →
      Goes f w₀ x none ⟨x.program, w, x.handle⟩

/-- The firing goes on from both alike. -/
structure Kindred (f : Occasion) (w₀ : World) (x y : Stance) : Prop where
  paired : x.program.Paired (Call.Kin w₀.store f.oid) y.program fun a b => a = b
  looks : x.world.LooksLike f y.world x.handle y.handle

section

variable {f : Occasion} {w₀ : World} {x₀ x x' y y' : Stance} {d d' : Deed}
  {ds ds' : List (Option Deed)}

theorem Kindred.unseen_left (h : Kindred f w₀ x y) (hx : x.Goes f w₀ none x') :
    Kindred f w₀ x' y := by
  cases hx with
  | unseen hl => exact ⟨h.paired, hl.symm.trans h.looks⟩

theorem Kindred.unseen_right (h : Kindred f w₀ x y) (hy : y.Goes f w₀ none y') :
    Kindred f w₀ x y' := by
  cases hy with
  | unseen hl => exact ⟨h.paired, h.looks.trans hl⟩

theorem Kindred.own (h : Kindred f w₀ x y) (hx : x.Goes f w₀ (some d) x')
    (hy : y.Goes f w₀ (some d') y') : Kindred f w₀ x' y' := by
  cases hx with
  | own hfit ht =>
      cases hy with
      | own hfit' ht' =>
          obtain ⟨paired, looks⟩ := Lockstep.turn h.paired hfit.suits hfit'.suits h.looks
            hfit.behaves hfit'.behaves ht ht'
          exact ⟨paired, looks⟩

/-- Equally many deeds lead to kindred stances. -/
theorem kindred_of_runs (hx₀ : Kindred f w₀ x₀ x₀) (hx : Run (Goes f w₀) x₀ ds x)
    (hy : Run (Goes f w₀) x₀ ds' y)
    (hn : ds.reduceOption.length = ds'.reduceOption.length) : Kindred f w₀ x y := by
  -- on both runs: a last event that is not seen falls away, two last deeds go together
  induction hx generalizing ds' y with
  | nil =>
      induction hy with
      | nil => exact hx₀
      | @snoc _ _ _ e _ he ih =>
          cases e with
          | none => exact (ih (by simpa [List.reduceOption_append] using hn)).unseen_right he
          | some d => simp [List.reduceOption_append] at hn
  | @snoc _ _ _ e hx he ih =>
      cases e with
      | none => exact (ih hy (by simpa [List.reduceOption_append] using hn)).unseen_left he
      | some d =>
          induction hy with
          | nil => simp [List.reduceOption_append] at hn
          | @snoc _ _ _ e' hy he' ih' =>
              cases e' with
              | none => exact (ih' (by simpa [List.reduceOption_append] using hn)).unseen_right he'
              | some d' => exact (ih hy (by simpa [List.reduceOption_append] using hn)).own he he'

/-- The stance before one of the deeds. -/
theorem before_deed {n : Nat} (hx : Run (Goes f w₀) x₀ ds x) (hn : n < ds.reduceOption.length) :
    ∃ ds' y d z, Run (Goes f w₀) x₀ ds' y ∧ ds'.reduceOption.length = n ∧
      y.Goes f w₀ (some d) z := by
  induction hx with
  | nil => simp at hn
  | @snoc s s' ds e hx he ih =>
      by_cases hlt : n < ds.reduceOption.length
      · exact ih hlt
      · cases e with
        | none => exact absurd (by simpa [List.reduceOption_append] using hn) hlt
        | some d =>
            have count : ds.reduceOption.length = n := by
              simp [List.reduceOption_append] at hn
              omega
            exact ⟨ds, s, d, s', hx, count, he⟩

/-- A firing that is over has done all its deeds. -/
theorem length_le_of_done (hx₀ : Kindred f w₀ x₀ x₀) (hx : Run (Goes f w₀) x₀ ds x)
    {a : FiringOutcome} (ha : x.program = .done a) (hy : Run (Goes f w₀) x₀ ds' y) :
    ds'.reduceOption.length ≤ ds.reduceOption.length := by
  by_contra hlt
  obtain ⟨ds₁, y₁, d, z, hrun, hcount, hgo⟩ := before_deed hy (Nat.lt_of_not_le hlt)
  have kindred := (kindred_of_runs hx₀ hrun hx hcount).paired
  rw [ha] at kindred
  cases hgo with
  | own _ ht =>
      cases hp : y₁.program with
      | done b =>
          rw [hp] at ht
          cases ht
      | ask r next =>
          rw [hp] at kindred
          exact kindred

/-- A firing comes to its end at one stance only, as far as it can see. -/
theorem kindred_of_done (hx₀ : Kindred f w₀ x₀ x₀) (hx : Run (Goes f w₀) x₀ ds x)
    (hy : Run (Goes f w₀) x₀ ds' y) {a b : FiringOutcome} (ha : x.program = .done a)
    (hb : y.program = .done b) : Kindred f w₀ x y :=
  kindred_of_runs hx₀ hx hy
    (Nat.le_antisymm (length_le_of_done hx₀ hy hb hx) (length_le_of_done hx₀ hx ha hy))

end

end Stance

/-! Every firing of a run has its stance. -/

namespace Custody

/-- The next call of a firing is made on its handle, if on any, and takes no second one. -/
theorem Runs.next {α : Type} {r : Call} {next : r.Response → Action α} {k : Option HandleId}
    {Q : Option HandleId → α → Prop} (h : Runs (.ask r next) k Q) :
    (∀ h, r.handle? = some h → k = some h) ∧ ((∃ o, r = .newHandle o) → k = none) := by
  obtain ⟨a⟩ := r.nonempty_response
  obtain ⟨k', hm, -⟩ := h a trivial
  cases hm with
  | make => exact ⟨nofun, fun _ => rfl⟩
  | bare hr =>
      refine ⟨fun h hh => ?_, ?_⟩
      · cases r <;> simp_all [Call.IsBare, Call.handle?]
      · rintro ⟨o, rfl⟩
        exact hr.elim
  | keep hr =>
      refine ⟨fun h hh => ?_, ?_⟩
      · cases r <;> simp_all [Call.KeepsTo, Call.handle?]
      · rintro ⟨o, rfl⟩
        exact hr.elim

end Custody

section

variable {ι : Type} [DecidableEq ι] {crew : ι → Occasion} {w : World} {c c' : Scene ι}
  {es : List (Event ι)} {e : Event ι} {i : ι}

/-- Where the firing stands after that run. -/
def Scene.stance (c : Scene ι) (es : List (Event ι)) (i : ι) : Stance :=
  ⟨c.program i, c.world, Custody.handleOf (deedsOf i es)⟩

/-- In a run of independent firings, the frame and the records of other tasks stay as they
were, nobody is stopped, and each firing goes on under its own handle and its own entry. -/
structure Undisturbed (crew : ι → Occasion) (w : World) (c : Scene ι) (es : List (Event ι)) :
    Prop where
  frame : w.SameFrame c.world
  others : ∀ o, (∀ i, o ≠ (crew i).oid) → c.world.store.find? o = w.store.find? o
  paired : ∀ i, (c.program i).Paired (Call.Kin w.store (crew i).oid) (c.program i)
    fun a b => a = b
  undeterred : ∀ i, c.world.Undeterred (crew i).oid (Custody.handleOf (deedsOf i es))
  custody : Custody.Inv c es
  entry : ∃ s : Stage ι, c.ShownBy crew (fun _ => True) s ∧ Registration.Inv crew s

namespace Undisturbed

theorem begin (hx : Independent crew w) : Undisturbed crew w (.begin crew w) [] where
  frame := .refl w
  others _ _ := rfl
  paired i := Occasion.program_pairs (hx.handlers i) w.store
  undeterred _ _ h := nomatch h
  custody := Custody.inv_begin w
  entry := ⟨_, Scene.begin_shown (fun i => (crew i).node.keepsTo_true) w,
    Registration.inv_begin w⟩

theorem suits (hx : Independent crew w) (h : Undisturbed crew w c es) (i : ι) :
    c.world.Suits (crew i) w (Custody.handleOf (deedsOf i es)) where
  frame := h.frame
  counts g hg := by
    refine Store.countRunning_congr h.frame.forest h.frame.available fun o ho hog => ?_
    -- a task in the group is none of the others that are fired, so its record has not changed
    by_cases hc : ∃ j, o = (crew j).oid
    · obtain ⟨j, rfl⟩ := hc
      exact absurd (congrArg (fun i => (crew i).oid) (hx.groups j i g hog hg)) ho
    · exact h.others o fun j hj => hc ⟨j, hj⟩
  awake := hx.awake i
  undeterred := h.undeterred i

/-- Who leaves the registry is in it. -/
theorem leaves {k : HandleId} {next : Bool → Action FiringOutcome}
    (h : Undisturbed crew w c es) (hp : c.program i = .ask (.deregister k) next) :
    c.world.registered (crew i).place (crew i).oid = some k := by
  obtain ⟨s, shown, registered⟩ := h.entry
  have course := shown.course i
  rw [hp] at course
  obtain ⟨_, hm, -⟩ := course true trivial
  obtain ⟨hk, hent, -⟩ := Phase.gone_of_deregister hm
  rw [← shown.world]
  exact registered.entry i k hk hent

theorem fit (hx : Independent crew w) (h : Undisturbed crew w c es) (i : ι) :
    (c.stance es i).Fit (crew i) w := by
  refine ⟨h.suits hx i, fun r next hp => ?_⟩
  have course := h.custody.course i
  rw [show c.program i = _ from hp] at course
  refine ⟨course.next.1, course.next.2, ?_⟩
  rintro k rfl
  exact h.leaves hp

theorem custody_step (h : Undisturbed crew w c es) (he : c.Step crew World.Ticks e c') :
    Custody.Inv c' (es ++ [e]) :=
  h.custody.step (fun _ _ ht => Nat.le_of_eq ht.length.symm) he

theorem entry_step (h : Undisturbed crew w c es) (he : c.Step crew World.Ticks e c') :
    ∃ s : Stage ι, c'.ShownBy crew (fun _ => True) s ∧ Registration.Inv crew s := by
  obtain ⟨s, shown, registered⟩ := h.entry
  obtain ⟨s', hs, shown'⟩ := Scene.step_shown shown he
  -- what goes on by itself is no concern of the registries
  refine ⟨s', shown', registered.step (fun v v' ht => ⟨fun i => ?_, fun k o => ht.owner k⟩) hs⟩
  rw [World.registered, World.site, ht.same.2.2.2]
  rfl

theorem step (hx : Independent crew w) (h : Undisturbed crew w c es)
    (he : c.Step crew World.Ticks e c') : Undisturbed crew w c' (es ++ [e]) := by
  have custody := h.custody_step he
  have entry := h.entry_step he
  cases he with
  | outside ht =>
      refine ⟨h.frame.trans ht.sameFrame, fun o ho => ?_, h.paired,
        fun i => ?_, custody, entry⟩
      · rw [ht.same.1]
        exact h.others o ho
      · rw [Custody.handleOf_outside]
        exact ht.undeterred (h.undeterred i)
  | @deed i d p v ht =>
      have fits := h.fit hx i
      obtain ⟨same, own⟩ :=
        Lockstep.turn_sameBut (h.paired i) fits.behaves (h.undeterred i) ht
      -- the turn beside itself: what is left of the program is paired with itself again
      have goes := Lockstep.turn (h.paired i) fits.suits fits.suits (.refl _ _ _) fits.behaves
        fits.behaves ht ht
      refine ⟨h.frame.trans same.toSameFrame, fun o ho => ?_, fun j => ?_, fun j => ?_,
        custody, entry⟩
      · exact (same.record o (ho i)).trans (h.others o ho)
      · by_cases hj : j = i
        · subst hj
          simpa using goes.1
        · simpa [hj] using h.paired j
      · by_cases hj : i = j
        · subst hj
          rw [Custody.handleOf_own]
          exact own
        · rw [Custody.handleOf_other hj]
          exact (h.undeterred j).of_handle? fun k hk => h.custody.leavesHandle ht hj hk

theorem run (hx : Independent crew w)
    (hr : Run (Scene.Step crew World.Ticks) (.begin crew w) es c) : Undisturbed crew w c es := by
  induction hr with
  | nil => exact begin hx
  | snoc _ he ih => exact ih.step hx he

end Undisturbed

/-- In a step of the scene, each firing does its deed or sees nothing. -/
theorem Scene.Step.goes (hx : Independent crew w) (h : Undisturbed crew w c es)
    (he : c.Step crew World.Ticks e c') (i : ι) :
    (c.stance es i).Goes (crew i) w (e.deed? i) (c'.stance (es ++ [e]) i) := by
  unfold Scene.stance
  cases he with
  | outside ht =>
      rw [Custody.handleOf_outside]
      exact .unseen (ht.looksLike (h.undeterred i))
  | @deed j d p v ht =>
      by_cases hj : j = i
      · subst hj
        rw [Custody.handleOf_own]
        simp only [Function.update_self, Event.deed?, if_true]
        exact .own (h.fit hx j) ht
      · have fits := h.fit hx j
        have same := (Lockstep.turn_sameBut (h.paired j) fits.behaves (h.undeterred j) ht).1
        have ho : (crew i).oid ≠ (crew j).oid := fun ho => hj (hx.tasks i j ho).symm
        rw [Custody.handleOf_other hj]
        simp only [Function.update_of_ne (Ne.symm hj), Event.deed?, hj, if_false]
        exact .unseen (same.looksLike ho fun k hk => h.custody.leavesHandle ht hj hk)

/-- The stance of a firing before its first deed. -/
def Occasion.outset (f : Occasion) (w : World) : Stance := ⟨f.program, w, none⟩

omit [DecidableEq ι] in
theorem kindred_outset (hx : Independent crew w) (i : ι) :
    Stance.Kindred (crew i) w ((crew i).outset w) ((crew i).outset w) :=
  ⟨Occasion.program_pairs (hx.handlers i) w.store, .refl _ _ _⟩

theorem goes_of_run (hx : Independent crew w)
    (hr : Run (Scene.Step crew World.Ticks) (.begin crew w) es c) (i : ι) :
    Run (Stance.Goes (crew i) w) ((crew i).outset w) (es.map (Event.deed? i))
      (c.stance es i) := by
  induction hr with
  | nil => exact .nil
  | snoc hr he ih =>
      rw [List.map_append]
      exact .snoc ih (he.goes hx (.run hx hr) i)

theorem reduceOption_deeds (i : ι) (es : List (Event ι)) :
    (es.map (Event.deed? i)).reduceOption = deedsOf i es := by
  simp [List.reduceOption, deedsOf, List.filterMap_map]

variable (crew) in
theorem run_of_passes {v : World} (hp : c.world.Passes v) (i : ι) :
    ∃ es, Run (Scene.Step crew World.Ticks) c es ⟨v, c.program⟩ ∧ deedsOf i es = [] := by
  induction hp with
  | refl => exact ⟨[], .nil, rfl⟩
  | tail _ ht ih =>
      obtain ⟨es, hr, hes⟩ := ih
      exact ⟨es ++ [.outside], hr.snoc (.outside ht), by simp [hes]⟩

/-- The firing can be led on to where it stands in another run of it. -/
theorem catch_up {ds : List (Option Deed)} {x : Stance} {n : Nat} (hx : Independent crew w)
    (hg : Run (Stance.Goes (crew i) w) ((crew i).outset w) ds x)
    (hr : Run (Scene.Step crew World.Ticks) (.begin crew w) es c)
    (hn : (deedsOf i es).length + n = ds.reduceOption.length) :
    ∃ es' c', Run (Scene.Step crew World.Ticks) c es' c' ∧
      Stance.Kindred (crew i) w x (c'.stance (es ++ es') i) := by
  induction n generalizing es c with
  | zero =>
      refine ⟨[], c, .nil, ?_⟩
      rw [List.append_nil]
      refine Stance.kindred_of_runs (kindred_outset hx i) hg (goes_of_run hx hr i) ?_
      rw [reduceOption_deeds]
      exact hn.symm
  | succ n ih =>
      -- where the other run has come as far as this one it does a deed, so this one can too
      obtain ⟨ds₁, y, d, z, hy, hcount, hgo⟩ :=
        Stance.before_deed hg (n := (deedsOf i es).length) (by omega)
      have kindred := Stance.kindred_of_runs (kindred_outset hx i) hy (goes_of_run hx hr i)
        (by rw [hcount, reduceOption_deeds])
      have fits := (Undisturbed.run hx hr).fit hx i
      cases hgo with
      | own hfit ht =>
          obtain ⟨v, d', q, v', hpass, hturn⟩ := Lockstep.ready kindred.paired hfit.suits
            fits.suits kindred.looks hfit.behaves fits.behaves ht
          obtain ⟨es₁, hr₁, hes₁⟩ := run_of_passes crew hpass i
          have step : Scene.Step crew World.Ticks ⟨v, c.program⟩ (.deed i d') _ := .deed hturn
          have led := hr₁.snoc step
          obtain ⟨es', c', hr', hk⟩ := ih (hr.append led) (by simp [hes₁]; omega)
          refine ⟨_, c', led.append hr', ?_⟩
          rw [← List.append_assoc]
          exact hk

/-- What has come of a firing at one stance has come of it at a kindred one. -/
theorem Stance.Kindred.concludes {ι' : Type} [DecidableEq ι'] {es' : List (Event ι')}
    {f : Occasion} {c' : Scene ι'} {i' : ι'} {x : Conclusion}
    (h : Stance.Kindred f w (c.stance es i) (c'.stance es' i'))
    (hc : c.Concludes f.oid i x) : c'.Concludes f.oid i' x := by
  refine ⟨?_, h.looks.record.trans hc.record, h.looks.events.trans hc.events⟩
  have paired : (c.program i).Paired _ (c'.program i') _ := h.paired
  rw [hc.report] at paired
  cases hp : c'.program i' with
  | done b =>
      rw [hp] at paired
      exact congrArg _ paired.symm
  | ask r next =>
      rw [hp] at paired
      exact paired.elim

/-- Independent firings do not disturb each other. Whatever has come of a firing in a run among
the others may come of it alone, and nothing else; and what comes of it alone, it can still
come to in every run among the others. -/
theorem undisturbed_among_others (hx : Independent crew w)
    (hr : Run (Scene.Step crew World.Ticks) (.begin crew w) es c) (i : ι) :
    (∀ x, c.Concludes (crew i).oid i x → ∀ y, (crew i).Ends w y ↔ y = x) ∧
      ∀ x, (crew i).Ends w x → ∃ es' c', Run (Scene.Step crew World.Ticks) c es' c' ∧
        c'.Concludes (crew i).oid i x := by
  have outset := kindred_outset hx i
  have among := goes_of_run hx hr i
  refine ⟨fun x hc y => ⟨?_, ?_⟩, ?_⟩
  · rintro ⟨es', c', hr', hc'⟩
    have alone := goes_of_run (hx.alone i) hr' ()
    have kindred := Stance.kindred_of_done outset among alone hc.report hc'.report
    exact hc'.unique (kindred.concludes hc)
  · rintro rfl
    obtain ⟨es', c', hr', kindred⟩ :=
      catch_up (hx.alone i) (i := ()) among .nil (Nat.zero_add _)
    exact ⟨es', c', hr', kindred.concludes hc⟩
  · rintro x ⟨es', c', hr', hc'⟩
    have alone := goes_of_run (hx.alone i) hr' ()
    have le := Stance.length_le_of_done outset alone hc'.report among
    rw [reduceOption_deeds] at le
    obtain ⟨es'', c'', hr'', kindred⟩ := catch_up hx alone hr (Nat.add_sub_of_le le)
    exact ⟨es'', c'', hr'', kindred.concludes hc'⟩

end

namespace Independence

def grouped (g : String) : Constraints := { groups := [⟨g, none⟩], retryAfter := none }

/-- A task that is in a group by its parent, and one that is in another group, of another
owner. -/
def world : World where
  now := default
  store :=
    { tasks := Table.ofList
        [{ Rehearsal.task with parent := some ⟨3⟩, owner := some "x" },
          { Rehearsal.task with oid := ⟨2⟩, owner := some "y", constraints := some (grouped "h") },
          { Rehearsal.task with oid := ⟨3⟩, constraints := some (grouped "g") }] }

/-- A handler that notes as whom it runs, spawns a child and waits. -/
def noting : HandlerWork :=
  .ask .identity fun who =>
    .ask (.write ⟨Rehearsal.task.oid, "", .run true false who 0 none .running⟩) fun _ =>
      .ask (.spawn ⟨"child", fun _ => .done (.ok (.new "child"))⟩) fun _ =>
        .ask (.wait ⟨"gate", true⟩) fun _ => .done (.ok .finished)

/-- A handler that puts its task into waiting. -/
def resting : HandlerWork :=
  .ask .switchToWaiting fun _ => .ask (.wait ⟨"gate", true⟩) fun _ => .done (.ok .finished)

/-- Two firings on one node. -/
def crew (i : Bool) : Occasion :=
  { Rehearsal.occasion "a" (if i then noting else resting) with oid := if i then ⟨1⟩ else ⟨2⟩ }

def openGate (w : World) : World := { w with gates := w.gates ++ ["gate"] }

/-- The two firings take turns until both wait at the gate, and again once it is open, up to
the end of the second one. The first one then waits for its child. -/
abbrev begun : List (Event Bool) × Scene Bool :=
  Scene.play crew
    (.go true :: .go true :: (List.replicate 20 [.go true, .go false]).flatten ++
      .change openGate :: (List.replicate 20 [.go true, .go false]).flatten) (.begin crew world)

abbrev waiting : Scene Bool := (Succession.gather? begun.2 true).getD begun.2

/-- Then the child ends. -/
abbrev grown : Scene Bool :=
  ⟨(waiting.world.stepChild? ⟨0⟩ 0).getD waiting.world, waiting.program⟩

abbrev gathered : Scene Bool := (Succession.gather? grown true).getD grown

/-- And the first firing goes on to its end. -/
abbrev ended : List (Event Bool) × Scene Bool :=
  Scene.play crew (List.replicate 20 (.go true)) gathered

/-- As whom handlers have noted to run. -/
def identities (w : World) : List (Option String) :=
  w.journal.map fun entry =>
    match entry.note with
    | .run _ _ identity _ _ _ => identity
    | .spawned _ | .child _ _ _ => none

abbrev played : List (Event Bool) :=
  begun.1 ++ [.deed true .gathered, .outside, .deed true .gathered] ++ ended.1

theorem played_run : Run (Scene.Step crew World.Ticks) (.begin crew world) played ended.2 := by
  have begun_run : Run (Scene.Step crew World.Ticks) (.begin crew world) begun.1 begun.2 :=
    Scene.play_run _ _ fun f hf w => by
      obtain rfl : f = openGate := by simpa [List.mem_replicate, List.mem_flatten] using hf
      exact .gate "gate"
  have ended_run : Run (Scene.Step crew World.Ticks) gathered ended.1 ended.2 :=
    Scene.play_run _ _ fun f hf => by simp at hf
  obtain ⟨w, hw⟩ : ∃ w, waiting.world.stepChild? ⟨0⟩ 0 = some w :=
    Option.isSome_iff_exists.mp (by decide +kernel)
  have child : waiting.world.Ticks ((waiting.world.stepChild? ⟨0⟩ 0).getD waiting.world) := by
    rw [hw]
    exact .child hw
  have middle : Run (Scene.Step crew World.Ticks) begun.2
      [.deed true .gathered, .outside, .deed true .gathered] gathered :=
    ((Run.nil.snoc (Succession.gather_step (by decide +kernel))).snoc
      (.outside child)).snoc (Succession.gather_step (by decide +kernel))
  exact (begun_run.append middle).append ended_run

theorem inGroup {i : Bool} {g : String} (h : world.store.InGroup (crew i).oid g) :
    g = if i then "g" else "h" := by
  obtain ⟨t, ht, hg⟩ := h
  have constraints : (world.store.find? (crew i).oid).map world.store.effectiveConstraints
      = some (some (grouped (if i then "g" else "h"))) := by
    cases i <;> decide +kernel
  rw [ht, Option.map_some, Option.some.injEq] at constraints
  rw [constraints] at hg
  simpa [grouped, Constraints.containsGroup, eq_comm] using hg

theorem mindsItself (i : Bool) : (crew i).node.MindsItself (crew i).oid where
  handlers name handler h := by
    intro context
    simp only [Handlers.resolve, crew, Rehearsal.occasion, Table.find?_put,
      Table.find?_empty] at h
    split at h
    · cases h
      cases i with
      | true =>
          refine ⟨_, .identity, fun _ _ _ => ⟨_, .write, fun _ _ _ => ?_⟩⟩
          refine ⟨_, .spawn ⟨rfl, fun _ _ => rfl⟩, fun _ _ _ => ?_⟩
          exact ⟨_, .own trivial, fun _ _ _ => rfl⟩
      | false =>
          exact ⟨_, .own trivial, fun _ _ _ => ⟨_, .own trivial, fun _ _ _ => rfl⟩⟩
    · cases h
  onStart _ h := nomatch h
  onFinish _ h := nomatch h

theorem independent : Independent crew world where
  tasks := by decide +kernel
  groups i j g hi hj := by
    have := (inGroup hi).symm.trans (inGroup hj)
    revert this
    cases i <;> cases j <;> decide
  handlers := mindsItself
  awake _ := rfl

end Independence

/-- The handler of the first firing runs as the owner of the other task; and yet the firing
comes to what it comes to alone. -/
theorem undisturbed_among_others_played :
    Independence.identities Independence.ended.2.world = [some "y"] ∧
      ∃ x, Independence.ended.2.Concludes (Independence.crew true).oid true x ∧
        ∀ y, (Independence.crew true).Ends Independence.world y ↔ y = x := by
  obtain ⟨report, done⟩ : ∃ report, Independence.ended.2.program true = .done report :=
    Scene.done_of_hasEnded (by decide +kernel)
  have concludes : Independence.ended.2.Concludes (Independence.crew true).oid true
      ⟨report, _, _⟩ := ⟨done, rfl, rfl⟩
  refine ⟨by decide +kernel, _, concludes, ?_⟩
  exact (undisturbed_among_others Independence.independent Independence.played_run true).1 _
    concludes

end TaskFiring
