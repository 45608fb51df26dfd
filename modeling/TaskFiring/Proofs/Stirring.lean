import TaskFiring.Proofs.FiringView
import TaskFiring.Proofs.Intervention
import TaskFiring.Proofs.Membership

/-!
What goes on beside a firing while nobody else writes. Children go on, gates are opened, the
clock is set and firings are stopped; none of that touches the store or the trigger engine, or
depends on them. Of whatever is detached in this way the following holds: while a firing only
reads and writes records and makes trigger calls, it is all the same when the rest happens, as
it might as well have happened before.
-/

namespace TaskFiring

namespace World

/-- The world with another store, trigger engine, listener and journal. -/
def recast (w : World) (s : Store) (g : Trigger) (l : List ListenerEvent)
    (j : List JournalEntry) : World :=
  { w with store := s, trigger := g, listener := l, journal := j }

/-- The store, the trigger engine and the entries of the registries are the same. -/
structure Intact (w w' : World) : Prop where
  store : w'.store = w.store
  trigger : w'.trigger = w.trigger
  registered : ∀ place oid, w'.registered place oid = w.registered place oid

section

variable {w w' w'' : World} {place : Place} {r : Call} {a : r.Response}

theorem Intact.refl (w : World) : w.Intact w := ⟨rfl, rfl, fun _ _ => rfl⟩

theorem Intact.trans (h : w.Intact w') (h' : w'.Intact w'') : w.Intact w'' :=
  ⟨h'.store.trans h.store, h'.trigger.trans h.trigger,
    fun place oid => (h'.registered place oid).trans (h.registered place oid)⟩

theorem reliance_intact : Reliance Intact where
  refl := .refl
  trans := .trans
  onHandle _ _ _ _ := ⟨rfl, rfl, fun _ _ => rfl⟩

/-- A change that could be made as well under any other store, trigger engine and listener, and
that leaves nothing of itself there but entries of the journal. -/
def Apart (change : World → World → Prop) (w w' : World) : Prop :=
  ∃ es, w' = w'.recast w.store w.trigger w.listener (w.journal ++ es) ∧
    ∀ s g l j, change (w.recast s g l j) (w'.recast s g l (j ++ es))

theorem Apart.mono {change change' : World → World → Prop} (h : w.Apart change w')
    (hc : ∀ v v', change v v' → change' v v') : w.Apart change' w' := by
  obtain ⟨es, hw, hr⟩ := h
  exact ⟨es, hw, fun s g l j => hc _ _ (hr s g l j)⟩

theorem apart_of_silent {change : World → World → Prop}
    (hw : w' = w'.recast w.store w.trigger w.listener w.journal)
    (hc : ∀ s g l j, change (w.recast s g l j) (w'.recast s g l j)) : w.Apart change w' :=
  ⟨[], by simpa using hw, by simpa using hc⟩

theorem ChildGoes.apart {h : HandleId} {i : Nat} (hg : w.ChildGoes h i w') :
    w.Apart (fun v v' => v.ChildGoes h i v') w' := by
  cases hg with
  | ends hc ha he hwork => exact apart_of_silent rfl fun _ _ _ _ => .ends hc ha he hwork
  | @answered c r next a w₁ hc ha he hwork hp =>
      have goes {v v' : World} (hv : v.child? h i = some c)
          (hp : v.performChild c.canRun r = some (a, v')) :
          v.ChildGoes h i (v'.onChild h i fun c => { c with work := next a }) :=
        .answered hv ha he hwork hp
      cases r with
      | canRun =>
          cases hp
          exact apart_of_silent rfl fun s g l j => goes (v := w.recast s g l j) hc rfl
      | wait wait =>
          obtain ⟨hover, hp⟩ := Option.ite_none_right_eq_some.mp hp
          cases hp
          exact apart_of_silent rfl fun s g l j => goes (v := w.recast s g l j) hc (if_pos hover)
      | write entry =>
          cases hp
          exact ⟨[entry], rfl, fun s g l j => goes (v := w.recast s g l j) hc rfl⟩

/-- What goes on outside leaves the store, the trigger engine and the registries intact, and
would go on as well under others. -/
structure Detached (outside : World → World → Prop) : Prop where
  intact : ∀ {w w'}, outside w w' → w.Intact w'
  apart : ∀ {w w'}, outside w w' → w.Apart outside w'

/-- Something goes on by itself, the clock is set, or somebody looks for firings or stops
them. -/
inductive Stirs (w : World) : World → Prop
  | tick {w' : World} : w.Ticks w' → w.Stirs w'
  | clock (now : Instant) : w.Stirs { w with now := now }
  | intervene {place : Place} {r : Call} {a : r.Response} {w' : World} : r.Intervenes →
      w.Answers place r a w' → w.Stirs w'

theorem detached_stirs : Detached Stirs where
  intact h := by
    cases h with
    | clock now => exact ⟨rfl, rfl, fun _ _ => rfl⟩
    | tick ht =>
        obtain ⟨store, trigger, -, sites⟩ := ht.same
        refine ⟨store, trigger, fun place oid => ?_⟩
        rw [World.registered, site, sites]
        rfl
    | @intervene place r _ _ hr ha =>
        have same := Program.Turn.sameRuns (p := .ask r .done) (.answered ha) hr
        cases ha with
        | gathered _ | cut _ => exact hr.elim
        | performed hp =>
            cases r with
            | shutDown | registeredHandles | registered | clearCanRun | cancelChildren | isSafe
            | interruptHandler =>
                cases hp
                exact ⟨rfl, rfl, same.registered⟩
            | _ => exact hr.elim
  apart h := by
    cases h with
    | clock now => exact apart_of_silent rfl fun _ _ _ _ => .clock now
    | tick ht =>
        cases ht with
        | gate g => exact apart_of_silent rfl fun _ _ _ _ => .tick (.gate g)
        | child hc =>
            exact (stepChild?_eq_some_iff.mp hc).apart.mono fun _ _ hg =>
              .tick (.child (stepChild?_eq_some_iff.mpr hg))
    | @intervene place r _ _ hr ha =>
        cases ha with
        | gathered _ | cut _ => exact hr.elim
        | performed hp =>
            cases r with
            | shutDown | registeredHandles | registered | clearCanRun | cancelChildren | isSafe
            | interruptHandler =>
                cases hp
                exact apart_of_silent rfl fun _ _ _ _ =>
                  @Stirs.intervene _ place _ _ _ hr (.performed rfl)
            | _ => exact hr.elim

end

end World

/-- Calls that read or write a record, make a trigger call or look for an entry. -/
def Call.IsStill : Call → Prop
  | .get _ | .modify _ _ _ | .unschedule _ | .deleteJob _ | .registered _ => True
  | _ => False

theorem Call.IsStill.prompt {r : Call} (h : r.IsStill) : r.IsPrompt := by
  cases r with
  | collect | isInterrupted | handler => cases h
  | _ => trivial

namespace World

section

variable {w w' w'' : World} {place : Place} {r : Call} {a : r.Response}

/-- Such a call is answered by what is intact, and changes no more than that. -/
theorem still_performed (hr : r.IsStill) (w : World) (place : Place) :
    ∃ a s g, ∀ v, w.Intact v →
      v.perform place r = some (a, { v with store := s, trigger := g }) := by
  cases r with
  | get oid =>
      refine ⟨w.store.get oid, w.store, w.trigger, fun v h => ?_⟩
      rw [← h.store, ← h.trigger]
      rfl
  | modify oid d p =>
      refine ⟨(w.store.modify oid d p).1, (w.store.modify oid d p).2, w.trigger, fun v h => ?_⟩
      rw [← h.store, ← h.trigger]
      rfl
  | unschedule oid =>
      refine ⟨(w.trigger.record (.unscheduled oid)).1, w.store,
        (w.trigger.record (.unscheduled oid)).2, fun v h => ?_⟩
      rw [← h.store, ← h.trigger]
      rfl
  | deleteJob oid =>
      refine ⟨(w.trigger.deleteJob oid).1, w.store, (w.trigger.deleteJob oid).2, fun v h => ?_⟩
      rw [← h.store, ← h.trigger]
      rfl
  | registered oid =>
      refine ⟨w.registered place oid, w.store, w.trigger, fun v h => ?_⟩
      rw [← h.store, ← h.trigger, ← h.registered]
      rfl
  | _ => exact hr.elim

theorem Answers.performed_of_still (ha : w.Answers place r a w') (hr : r.IsStill) :
    w.perform place r = some (a, w') := by
  cases ha with
  | performed hp => exact hp
  | gathered _ | cut _ => exact hr.elim

/-- What happens after such a call might have happened before it. -/
theorem Detached.before {outside : World → World → Prop} (ho : Detached outside)
    (hr : r.IsStill) (ha : w.Answers place r a w') (hs : outside w' w'') :
    ∃ v, outside w v ∧ v.Answers place r a w'' := by
  obtain ⟨b, s, g, hp⟩ := still_performed hr w place
  cases (hp w (.refl w)).symm.trans (ha.performed_of_still hr)
  obtain ⟨es, hw, hrecast⟩ := ho.apart hs
  have hv : outside w (w''.recast w.store w.trigger w.listener (w.journal ++ es)) :=
    hrecast w.store w.trigger w.listener w.journal
  refine ⟨_, hv, .performed ?_⟩
  rw [hp _ (ho.intact hv), hw]
  rfl

theorem Detached.allBefore {outside : World → World → Prop} (ho : Detached outside)
    (hr : r.IsStill) (ha : w.Answers place r a w')
    (hs : Relation.ReflTransGen outside w' w'') :
    ∃ v, Relation.ReflTransGen outside w v ∧ v.Answers place r a w'' := by
  induction hs with
  | refl => exact ⟨w, .refl, ha⟩
  | tail _ hs ih =>
      obtain ⟨v, hv, ha⟩ := ih
      obtain ⟨v', hv', ha'⟩ := ho.before hr ha hs
      exact ⟨v', hv.tail hv', ha'⟩

theorem Detached.allIntact {outside : World → World → Prop} (ho : Detached outside)
    (hs : Relation.ReflTransGen outside w w') : w.Intact w' := by
  induction hs with
  | refl => exact .refl w
  | tail _ hs ih => exact ih.trans (ho.intact hs)

/-- What happens one after the other might have happened elsewhere. -/
theorem Detached.elsewhere {outside : World → World → Prop} (ho : Detached outside)
    (hs : Relation.ReflTransGen outside w w') (s : Store) (g : Trigger)
    (l : List ListenerEvent) (j : List JournalEntry) :
    ∃ es, Relation.ReflTransGen outside (w.recast s g l j) (w'.recast s g l (j ++ es)) := by
  induction hs with
  | refl => exact ⟨[], by rw [List.append_nil]⟩
  | tail _ hs ih =>
      obtain ⟨es, hw⟩ := ih
      obtain ⟨es', -, hrecast⟩ := ho.apart hs
      refine ⟨es ++ es', ?_⟩
      rw [← List.append_assoc]
      exact hw.tail (hrecast s g l (j ++ es))

end

end World

namespace Program

/-- A program goes on by one deed, or something happens outside. -/
inductive Goes {α : Type} (place : Place) (outside : World → World → Prop) :
    Action α × World → Option Deed → Action α × World → Prop
  | own {p p' : Action α} {w w' : World} {d : Deed} : p.Turn place w d p' w' →
      Goes place outside (p, w) (some d) (p', w')
  | outside {p : Action α} {w w' : World} : outside w w' →
      Goes place outside (p, w) none (p, w')

section

variable {α β : Type} {place : Place} {outside : World → World → Prop} {w w' : World}
  {p p' : Action α} {f : α → Action β} {es : List (Option Deed)}

theorem goes_of_reaches (outside : World → World → Prop) (h : p.Reaches place w p' w') :
    ∃ es, Run (Goes place outside) (p, w) es (p', w') := by
  obtain ⟨ds, h⟩ := h
  exact ⟨_, h.image (f := some) fun _ _ _ ht => .own ht⟩

theorem goes_of_outside (p : Action α) (place : Place)
    (h : Relation.ReflTransGen outside w w') :
    ∃ es, Run (Goes place outside) (p, w) es (p, w') := by
  induction h with
  | refl => exact ⟨[], .nil⟩
  | tail _ hs ih =>
      obtain ⟨es, hr⟩ := ih
      exact ⟨_, hr.snoc (.outside hs)⟩

/-- A program in two parts is at a call of the first, or has come through its end. -/
theorem goes_part {q : Action β} (h : Run (Goes place outside) (p.bind f, w) es (q, w')) :
    (∃ r next, Run (Goes place outside) (p, w) es (.ask r next, w') ∧
      q = (Program.ask r next).bind f) ∨
    ∃ es₁ es₂ a w₁, Run (Goes place outside) (p, w) es₁ (.done a, w₁) ∧
      Run (Goes place outside) (f a, w₁) es₂ (q, w') := by
  -- along the events: as long as the first part asks, it is the one that goes on
  induction es generalizing p w with
  | nil =>
      cases p with
      | done a => exact .inr ⟨[], [], a, w, .nil, h⟩
      | ask r next =>
          cases h.eq_of_nil
          exact .inl ⟨r, next, .nil, rfl⟩
  | cons e es ih =>
      have after {p₁ : Action α} {w₁ : World} (he : Goes place outside (p, w) e (p₁, w₁))
          (rest : Run (Goes place outside) (p₁.bind f, w₁) es (q, w')) :
          (∃ r next, Run (Goes place outside) (p, w) (e :: es) (.ask r next, w') ∧
            q = (Program.ask r next).bind f) ∨
          ∃ es₁ es₂ a w₁, Run (Goes place outside) (p, w) es₁ (.done a, w₁) ∧
            Run (Goes place outside) (f a, w₁) es₂ (q, w') := by
        rcases ih rest with ⟨r, next, h₁, hq⟩ | ⟨es₁, es₂, a, w₂, h₁, h₂⟩
        · exact .inl ⟨r, next, .cons he h₁, hq⟩
        · exact .inr ⟨e :: es₁, es₂, a, w₂, .cons he h₁, h₂⟩
      cases p with
      | done a => exact .inr ⟨[], e :: es, a, w, .nil, h⟩
      | ask r next =>
          obtain ⟨s, he, rest⟩ := h.first
          generalize hq : (Program.ask r next).bind f = q₁ at he
          cases he with
          | outside ho =>
              subst hq
              exact after (.outside ho) rest
          | own ht =>
              cases ht with
              | answered ha =>
                  cases hq
                  exact after (.own (.answered ha)) rest
              | gathered hg =>
                  cases hq
                  exact after (.own (.gathered hg)) rest

/-- Whatever has happened during a part of that kind might have happened before it. -/
theorem still_goes (hout : World.Detached outside) (hp : p.Only Call.IsStill)
    (h : Run (Goes place outside) (p, w) es (p', w')) :
    p'.Only Call.IsStill ∧
      ∃ v, Relation.ReflTransGen outside w v ∧ p.Reaches place v p' w' := by
  -- from the last event on: a call gives way to all that happens outside after it
  induction es generalizing p w with
  | nil =>
      cases h.eq_of_nil
      exact ⟨hp, _, .refl, .refl _ _⟩
  | cons e es ih =>
      obtain ⟨s, he, rest⟩ := h.first
      cases he with
      | outside ho =>
          obtain ⟨hp', v, hv, hr⟩ := ih hp rest
          exact ⟨hp', v, .head ho hv, hr⟩
      | own ht =>
          cases ht with
          | gathered _ => exact hp.1.elim
          | answered ha =>
              obtain ⟨hp', v₁, hv₁, hr⟩ := ih (hp.2 _) rest
              obtain ⟨v, hv, hb⟩ := hout.allBefore hp.1 ha hv₁
              exact ⟨hp', v, hv, .ask hb hr⟩

/-- Such a part gets to its end. -/
theorem still_ends (hp : p.Only Call.IsStill) (place : Place) (w : World) :
    ∃ a w', p.Reaches place w (.done a) w' := by
  induction p generalizing w with
  | done a => exact ⟨a, w, .refl _ _⟩
  | ask r next ih =>
      obtain ⟨a, s, g, hperform⟩ := World.still_performed hp.1 w place
      obtain ⟨b, w', hr⟩ := ih a (hp.2 a) { w with store := s, trigger := g }
      exact ⟨b, w', .ask (.performed (hperform w (.refl w))) hr⟩

/-- What such a part comes to by itself, it comes to among others that leave it intact. -/
theorem Yields.meets {a : α} {v : World} (hp : p.Only Call.IsStill)
    (hy : Yields place p w a w') (hv : w.Intact v) :
    p.Meets (.amid place World.Intact fun _ r => r.IsPrompt) v fun v' b =>
      b = a ∧ w'.Intact v' := by
  induction p generalizing w v with
  | done b =>
      obtain ⟨rfl, rfl⟩ := (hy b w).mp (.refl _ _)
      exact ⟨rfl, hv⟩
  | ask r next ih =>
      obtain ⟨b, s, g, hperform⟩ := World.still_performed hp.1 w place
      have prompt := hp.1.prompt
      have rest : Yields place (next b) { w with store := s, trigger := g } a w' :=
        fun c u => (reaches_ask_iff (hperform w (.refl w)) prompt).symm.trans (hy c u)
      refine ⟨prompt, fun c v₁ v₂ hr hv₂ => ?_⟩
      have answers := hr.answers fun hc => by
        cases r with
        | collect => exact prompt
        | _ => exact hc
      cases (hperform v hv).symm.trans (answers.performed_of_still hp.1)
      have intact : World.Intact { w with store := s, trigger := g }
          { v with store := s, trigger := g } := ⟨rfl, rfl, hv.registered⟩
      exact ih b (hp.2 b) rest (intact.trans hv₂)

end

end Program

namespace Scene

variable {f : Occasion} {outside : World → World → Prop} {c c' : Scene Unit}
  {es : List (Event Unit)}

/-- The scene of one firing, as that firing goes through it. -/
theorem goes_of_run (hr : Run (Scene.Step (fun _ : Unit => f) outside) c es c') :
    Run (Program.Goes f.place outside) (c.program (), c.world) (es.map (Event.deed? ()))
      (c'.program (), c'.world) := by
  induction hr with
  | nil => exact .nil
  | snoc _ he ih =>
      rw [List.map_append]
      refine .snoc ih ?_
      cases he with
      | outside ho => exact .outside ho
      | deed ht =>
          simp only [Function.update_self]
          exact .own ht

theorem run_of_goes {p p' : Action FiringOutcome} {w w' : World} {ds : List (Option Deed)}
    (hr : Run (Program.Goes f.place outside) (p, w) ds (p', w')) :
    ∃ es, Run (Scene.Step (fun _ : Unit => f) outside) ⟨w, fun _ => p⟩ es ⟨w', fun _ => p'⟩ := by
  generalize hs : (p', w') = s at hr
  induction hr generalizing p' w' with
  | nil =>
      cases hs
      exact ⟨[], .nil⟩
  | snoc _ he ih =>
      cases he with
      | outside ho =>
          cases hs
          obtain ⟨es, hr⟩ := ih rfl
          exact ⟨_, hr.snoc (.outside ho)⟩
      | @own q _ v _ d ht =>
          cases hs
          obtain ⟨es, hr⟩ := ih rfl
          have step : Scene.Step (fun _ : Unit => f) outside ⟨v, fun _ => q⟩ (.deed () d)
              ⟨w', Function.update (fun _ => q) () p'⟩ := .deed ht
          rw [show Function.update (fun _ : Unit => q) () p' = fun _ => p' from
            funext fun _ => Function.update_self ..] at step
          exact ⟨_, hr.snoc step⟩

end Scene
end TaskFiring
