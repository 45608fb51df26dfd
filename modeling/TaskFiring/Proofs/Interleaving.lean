import Mathlib.Data.List.Induction
import Mathlib.Logic.Function.Basic
import TaskFiring.Proofs.Course
import TaskFiring.Proofs.Surroundings

/-!
Firings among each other. A scene is a world with the programs of any number of firings;
it goes on by one answered call of one of them, by one piece of a wait for children, or
by a change from outside. A stage keeps of each firing only its phase. Every run of a
scene is matched by a run of stages with the same events and worlds, so what is shown
of the phases holds of the programs.
-/

namespace TaskFiring

/-- A run, with what happened in it, the latest last. -/
inductive Run {σ ε : Type} (step : σ → ε → σ → Prop) (s : σ) : List ε → σ → Prop
  | nil : Run step s [] s
  | snoc {s' s'' : σ} {es : List ε} {e : ε} :
      Run step s es s' → step s' e s'' → Run step s (es ++ [e]) s''

namespace Run

variable {σ τ ε : Type} {step : σ → ε → σ → Prop} {step' : τ → ε → τ → Prop} {s s' s'' : σ}
  {es es' : List ε}

theorem append (h : Run step s es s') (h' : Run step s' es' s'') :
    Run step s (es ++ es') s'' := by
  induction h' with
  | nil => simpa using h
  | snoc _ he ih =>
      rw [← List.append_assoc]
      exact .snoc ih he

theorem cons {e : ε} (he : step s e s') (h : Run step s' es s'') : Run step s (e :: es) s'' :=
  (snoc nil he).append h

theorem last {e : ε} (h : Run step s (es ++ [e]) s'') :
    ∃ s', Run step s es s' ∧ step s' e s'' := by
  generalize hl : es ++ [e] = l at h
  cases h with
  | nil => simp at hl
  | snoc hr he =>
      obtain ⟨rfl, he'⟩ := List.append_inj' hl rfl
      obtain rfl : e = _ := by simpa using he'
      exact ⟨_, hr, he⟩

theorem split (h : Run step s (es ++ es') s'') :
    ∃ s', Run step s es s' ∧ Run step s' es' s'' := by
  induction es' using List.reverseRecOn generalizing s'' with
  | nil => exact ⟨s'', by simpa using h, .nil⟩
  | append_singleton es' e ih =>
      rw [← List.append_assoc] at h
      obtain ⟨s₀, hr, he⟩ := h.last
      obtain ⟨s', h₁, h₂⟩ := ih hr
      exact ⟨s', h₁, .snoc h₂ he⟩

theorem eq_of_nil (h : Run step s [] s') : s' = s := by
  generalize hl : ([] : List ε) = l at h
  cases h with
  | nil => rfl
  | snoc _ _ => simp at hl

theorem first {e : ε} (h : Run step s (e :: es) s'') :
    ∃ s', step s e s' ∧ Run step s' es s'' := by
  have h : Run step s ([e] ++ es) s'' := h
  obtain ⟨s', h₁, h₂⟩ := h.split
  have h₁ : Run step s ([] ++ [e]) s' := h₁
  obtain ⟨s₀, hnil, he⟩ := h₁.last
  obtain rfl := hnil.eq_of_nil
  exact ⟨s', he, h₂⟩

/-- A run around one of its events. -/
theorem around {e : ε} (h : Run step s (es ++ e :: es') s'') :
    ∃ s₁ s₂, Run step s es s₁ ∧ step s₁ e s₂ ∧ Run step s₂ es' s'' := by
  obtain ⟨s₁, h₁, h₂⟩ := h.split
  obtain ⟨s₂, he, h₃⟩ := h₂.first
  exact ⟨s₁, s₂, h₁, he, h₃⟩

/-- The same run, by other names of its events. -/
theorem image {ε' : Type} {step' : σ → ε' → σ → Prop} {f : ε → ε'}
    (hs : ∀ s e s', step s e s' → step' s (f e) s') (h : Run step s es s') :
    Run step' s (es.map f) s' := by
  induction h with
  | nil => exact .nil
  | snoc _ he ih =>
      rw [List.map_append]
      exact .snoc ih (hs _ _ _ he)

/-- Steps with such events are also steps of the other kind. -/
theorem restrict {step' : σ → ε → σ → Prop} {P : ε → Prop} (h : Run step s es s')
    (hP : ∀ e ∈ es, P e) (hs : ∀ s e s', P e → step s e s' → step' s e s') :
    Run step' s es s' := by
  induction h with
  | nil => exact .nil
  | snoc _ he ih =>
      exact .snoc (ih fun e he => hP e (List.mem_append_left _ he))
        (hs _ _ _ (hP _ (by simp)) he)

/-- What is so at first, and stays so with every step, is so in the end. -/
theorem invariant {P : List ε → σ → Prop} (h : Run step s es s') (begin : P [] s)
    (next : ∀ {es e s₁ s₂}, P es s₁ → step s₁ e s₂ → P (es ++ [e]) s₂) : P es s' := by
  induction h with
  | nil => exact begin
  | snoc _ he ih => exact next ih he

/-- A run is matched step by step. -/
theorem simulate {R : σ → τ → Prop}
    (hs : ∀ s e s' t, R s t → step s e s' → ∃ t', step' t e t' ∧ R s' t')
    (h : Run step s es s') {t : τ} (hr : R s t) : ∃ t', Run step' t es t' ∧ R s' t' := by
  induction h with
  | nil => exact ⟨t, .nil, hr⟩
  | snoc _ he ih =>
      obtain ⟨t', ht, hr'⟩ := ih
      obtain ⟨t'', he', hr''⟩ := hs _ _ _ _ hr' he
      exact ⟨t'', .snoc ht he', hr''⟩

end Run

namespace World

/-- The answers that a call made from a place may get, and the world after it. -/
inductive Answers (place : Place) (w : World) : (r : Call) → r.Response → World → Prop
  | performed {r : Call} {a : r.Response} {w' : World} :
      w.perform place r = some (a, w') → Answers place w r a w'
  /-- There are no more children to wait for. -/
  | gathered {h : HandleId} {result : OperationResult} {closed : Nat} {w' : World} :
      w.takePending h = ([], w') →
      Answers place w (.collect h result closed []) (result, closed) w
  /-- The handler is interrupted. -/
  | cut {h : HandleId} {oid : TaskOid} {call : HandlerCall} :
      w.isInterrupted h → Answers place w (.handler h oid call) none w

/-- One piece of a wait for children. -/
inductive Gathers (w : World) (h : HandleId) :
    OperationResult → Nat → List Nat → OperationResult → Nat → List Nat → World → Prop
  | take {result : OperationResult} {closed : Nat} {batch : List Nat} {w' : World} :
      w.takePending h = (batch, w') → batch ≠ [] →
      Gathers w h result closed [] result closed batch w'
  | close {result r : OperationResult} {closed i : Nat} {batch : List Nat} {w' : World} :
      w.closeTaken? h i = some (r, w') →
      Gathers w h result closed (i :: batch) (result.addSubresult r) (closed + 1) batch w'

end World

/-- What a program does at a time: a call is answered, or its wait for children goes
on. -/
inductive Deed
  | answered (r : Call) (a : r.Response)
  | gathered

/-- The record that a deed has written. -/
def Deed.written? : Deed → Option Task
  | .answered (.modify _ _ _) (.ok t) => some t
  | .answered (.handler _ _ .switchToWaiting) (some (.ok t)) => some t
  | _ => none

/-- A program at a place goes on by one deed. -/
inductive Program.Turn {α : Type} (place : Place) :
    Action α → World → Deed → Action α → World → Prop
  | answered {r : Call} {next : r.Response → Action α} {w w' : World} {a : r.Response} :
      w.Answers place r a w' → Turn place (.ask r next) w (.answered r a) (next a) w'
  | gathered {h : HandleId} {result result' : OperationResult} {closed closed' : Nat}
      {batch batch' : List Nat} {next : OperationResult × Nat → Action α} {w w' : World} :
      w.Gathers h result closed batch result' closed' batch' w' →
      Turn place (.ask (.collect h result closed batch) next) w .gathered
        (.ask (.collect h result' closed' batch') next) w'

section

variable {α : Type} {place : Place} {p p' : Action α} {w w' : World}

theorem Program.step?_ask {r : Call} {next : r.Response → Action α}
    (hr : ∀ h result closed batch, r ≠ .collect h result closed batch) :
    (Program.ask r next : Action α).step? place w
      = (w.perform place r).map fun answer => (next answer.1, answer.2) := by
  cases r with
  | collect h result closed batch => exact absurd rfl (hr h result closed batch)
  | handler h oid call =>
      simp only [step?, World.perform]
      cases w.performHandler h oid call <;> rfl
  | _ => rfl

theorem Program.step?_of_turn {d : Deed} (ht : p.Turn place w d p' w') :
    p.step? place w = some (p', w') ∨ p.interrupted? w = some p' ∧ w' = w := by
  cases ht with
  | @answered r next _ _ _ ha =>
      cases ha with
      | performed hp =>
          left
          rw [step?_ask, hp]
          · rfl
          · rintro h result closed batch rfl
            cases hp
      | gathered hg => simp [step?, hg]
      | cut hi => exact .inr ⟨if_pos hi, rfl⟩
  | @gathered h _ _ _ _ _ batch' _ _ _ hg =>
      left
      cases hg with
      | take hg hb =>
          cases batch' with
          | nil => exact absurd rfl hb
          | cons i batch => simp [step?, hg]
      | close hc => simp [step?, hc]

theorem Program.turn_of_interrupted? (h : p.interrupted? w = some p') :
    ∃ d, p.Turn place w d p' w := by
  unfold interrupted? at h
  split at h
  · split at h
    · next hi =>
      cases h
      exact ⟨_, .answered (.cut hi)⟩
    · cases h
  · cases h

theorem Program.turn_of_step? (h : p.step? place w = some (p', w')) :
    ∃ d, p.Turn place w d p' w' := by
  unfold step? at h
  split at h
  · cases h
  · split at h
    · next hg =>
      cases h
      exact ⟨_, .answered (.gathered hg)⟩
    · next hb hg =>
      cases h
      exact ⟨_, .gathered (.take hg hb)⟩
  · simp only [Option.bind_eq_bind, Option.bind_eq_some_iff, Option.some.injEq] at h
    obtain ⟨⟨r, w₁⟩, hc, h⟩ := h
    cases h
    exact ⟨_, .gathered (.close hc)⟩
  · simp only [Option.bind_eq_bind, Option.bind_eq_some_iff, Option.some.injEq] at h
    obtain ⟨⟨a, w₁⟩, hp, h⟩ := h
    cases h
    exact ⟨_, .answered (.performed hp)⟩

/-- The turns of a program are its steps and the cuts of an interrupted handler. -/
theorem Program.turn_iff :
    (∃ d, p.Turn place w d p' w') ↔
      p.step? place w = some (p', w') ∨ p.interrupted? w = some p' ∧ w' = w := by
  constructor
  · rintro ⟨d, ht⟩
    exact step?_of_turn ht
  · rintro (h | ⟨h, rfl⟩)
    · exact turn_of_step? h
    · exact turn_of_interrupted? h

end

namespace World

section

variable {place : Place} {w w' : World} {oid : TaskOid} {h : HandleId}

theorem Answers.fair {r : Call} {a : r.Response} (ha : w.Answers place r a w') :
    r.Fair a := by
  cases ha with
  | gathered _ | cut _ => trivial
  | performed hp =>
      cases r with
      | get oid =>
          cases a with
          | error e => trivial
          | ok t =>
              obtain ⟨hg, -⟩ := Prod.mk.inj (Option.some.inj hp)
              exact Store.oid_of_find? (Store.get_ok hg)
      | modify oid d p =>
          cases a with
          | error e => trivial
          | ok t =>
              obtain ⟨hm, -⟩ := Prod.mk.inj (Option.some.inj hp)
              obtain ⟨-, r, hr, -, rfl, -⟩ := Store.modify_ok (Prod.ext hm rfl)
              exact (Store.oid_of_find? hr : r.oid = oid)
      | _ => trivial

/-- A wait for children that goes on changes its handle only. -/
theorem Gathers.onHandle {result result' : OperationResult} {closed closed' : Nat}
    {batch batch' : List Nat}
    (hg : w.Gathers h result closed batch result' closed' batch' w') :
    ∃ f : Handle → Handle, (∀ handle, (f handle).oid = handle.oid) ∧ w' = w.onHandle h f := by
  cases hg with
  | take hg _ =>
      cases hg
      exact ⟨Handle.takePending, fun _ => rfl, rfl⟩
  | close hc =>
      simp only [closeTaken?, Option.bind_eq_bind, Option.bind_eq_some_iff,
        Option.some.injEq] at hc
      obtain ⟨c, -, r, -, hc⟩ := hc
      cases hc
      exact ⟨Handle.closeChild c.id, fun _ => rfl, rfl⟩

theorem Gathers.agrees {result result' : OperationResult} {closed closed' : Nat}
    {batch batch' : List Nat}
    (hg : w.Gathers h result closed batch result' closed' batch' w') : w.Agrees w' := by
  obtain ⟨f, hf, rfl⟩ := hg.onHandle
  exact agrees_onHandle w h hf

/-- A call that stays aside changes neither the store nor a registry. -/
theorem Answers.agrees {r : Call} {a : r.Response} (ha : w.Answers place r a w')
    (hr : r.IsAside) : w.Agrees w' := by
  cases ha with
  | gathered _ | cut _ => exact .refl w
  | performed hp =>
      cases r with
      | modify | register | deregister | shutDown | isInterrupted | handler => cases hr
      | collect => cases hp
      | newHandle oid =>
          cases hp
          exact agrees_newHandle w oid
      | clearCanRun h | setSafe h | setExecuting h | interruptHandler h
      | cancelChildren h abort =>
          cases hp
          exact agrees_onHandle w h fun _ => rfl
      | spawn h spec =>
          cases hp
          exact agrees_spawn w h spec
      | _ =>
          cases hp
          exact ⟨⟨fun _ _ => rfl, fun _ _ => id⟩, rfl⟩

theorem Answers.store {r : Call} {a : r.Response} (ha : w.Answers place r a w')
    (hr : ¬ r.MayWrite) : w'.store = w.store := by
  cases ha with
  | gathered _ | cut _ => rfl
  | performed hp =>
      cases r with
      | modify | handler => exact absurd trivial hr
      | collect => cases hp
      | register h => exact (register_same (Option.some.inj hp)).1
      | deregister h => exact (deregister_spec (Option.some.inj hp)).1
      | _ =>
          cases hp
          rfl

theorem Answers.get {a : Except StoreError Task} (ha : w.Answers place (.get oid) a w') :
    w' = w ∧ a = w.store.get oid := by
  cases ha with
  | performed hp =>
      cases hp
      exact ⟨rfl, rfl⟩

theorem Answers.modify {d : TaskDelta} {p : Precondition} {a : Except StoreError Task}
    (ha : w.Answers place (.modify oid d p) a w') :
    w.SameRuns w' ∧ w.store.modify oid d p = (a, w'.store) := by
  cases ha with
  | performed hp =>
      cases hp
      exact ⟨⟨fun _ _ => rfl, fun _ _ => id⟩, rfl⟩

/-- A call of a handler touches neither a record nor a registry, unless it puts the task
into waiting or disturbs the world. -/
theorem Answers.handler_cases {call : HandlerCall} {a : Option call.Response}
    (ha : w.Answers place (.handler h oid call) a w') :
    w.Agrees w' ∨
      (∃ b, Deed.answered (.handler h oid call) a
          = .answered (.handler h oid .switchToWaiting) (some b) ∧
        w.SameRuns w' ∧ w.store.modify oid waitingDelta .always = (b, w'.store)) ∨
      ∃ d, call = .disturb d ∧ w' = w.disturb d := by
  cases ha with
  | cut _ => exact .inl (.refl w)
  | performed hp =>
      obtain ⟨⟨b, w₁⟩, hb, hp⟩ := Option.map_eq_some_iff.mp hp
      obtain ⟨rfl, rfl⟩ := Prod.mk.inj hp
      cases call with
      | canRun | identity =>
          cases hb
          exact .inl (.refl w)
      | write entry =>
          cases hb
          exact .inl ⟨⟨fun _ _ => rfl, fun _ _ => id⟩, rfl⟩
      | spawn spec =>
          cases hb
          exact .inl (agrees_spawn w h spec)
      | wait _ | awaitInterrupt =>
          simp only [performHandler, Option.ite_none_right_eq_some, Option.some.injEq,
            Prod.mk.injEq] at hb
          obtain ⟨-, -, rfl⟩ := hb
          exact .inl (.refl w)
      | switchToWaiting =>
          cases hb
          exact .inr (.inl ⟨_, rfl, ⟨fun _ _ => rfl, fun _ _ => id⟩, rfl⟩)
      | disturb d =>
          cases hb
          exact .inr (.inr ⟨d, rfl, rfl⟩)

theorem Answers.countRunning {group : String} {a : Except StoreError Nat}
    (ha : w.Answers place (.countRunning group oid) a w') :
    w' = w ∧ a = w.store.countRunning group oid := by
  cases ha with
  | performed hp =>
      cases hp
      exact ⟨rfl, rfl⟩

theorem Answers.newHandle (ha : w.Answers place (.newHandle oid) h w') :
    w.Agrees w' ∧ w'.owner? h = some oid := by
  cases ha with
  | performed hp =>
      cases hp
      exact ⟨agrees_newHandle w oid, owner?_newHandle w oid⟩

theorem Answers.registered {found : Option HandleId}
    (ha : w.Answers place (.registered oid) found w') :
    w' = w ∧ found = w.registered place oid := by
  cases ha with
  | performed hp =>
      cases hp
      exact ⟨rfl, rfl⟩

theorem Answers.isInterrupted {b : Bool} (ha : w.Answers place (.isInterrupted h) b w') :
    w' = w := by
  cases ha with
  | performed hp =>
      cases hp
      rfl

theorem Answers.register {b : Bool} (ha : w.Answers place (.register h) b w') :
    w.register place h = (b, w') := by
  cases ha with
  | performed hp => exact Option.some.inj hp

theorem Answers.deregister {b : Bool} (ha : w.Answers place (.deregister h) b w') :
    w.deregister place h = (b, w') := by
  cases ha with
  | performed hp => exact Option.some.inj hp

end

end World

inductive Event (ι : Type)
  | deed (i : ι) (d : Deed)
  | outside

/-- The record that a firing has written. -/
def Event.written? {ι : Type} : Event ι → Option Task
  | .deed _ d => d.written?
  | .outside => none

/-- The world and what is left of the program of each firing. -/
structure Scene (ι : Type) where
  world : World
  program : ι → Action FiringOutcome

/-- The world and the phase of each firing. -/
structure Stage (ι : Type) where
  world : World
  phase : ι → Phase

section

variable {ι : Type} [DecidableEq ι] (crew : ι → Occasion) (allowed : HandlerCall → Prop)
  (outside : World → World → Prop)

inductive Scene.Step : Scene ι → Event ι → Scene ι → Prop
  | deed {s : Scene ι} {i : ι} {d : Deed} {p : Action FiringOutcome} {w : World} :
      (s.program i).Turn (crew i).place s.world d p w →
      Step s (.deed i d) ⟨w, Function.update s.program i p⟩
  | outside {s : Scene ι} {w : World} : outside s.world w → Step s .outside ⟨w, s.program⟩

theorem Scene.Step.mono {crew : ι → Occasion} {outside outside' : World → World → Prop}
    {c c' : Scene ι} {e : Event ι} (he : c.Step crew outside e c')
    (h : ∀ w w', outside w w' → outside' w w') : c.Step crew outside' e c' := by
  cases he with
  | deed ht => exact .deed ht
  | outside ho => exact .outside (h _ _ ho)

/-- Every firing is about to begin. -/
def Scene.begin (w : World) : Scene ι := ⟨w, fun i => (crew i).program⟩

inductive Stage.Step : Stage ι → Event ι → Stage ι → Prop
  | answered {s : Stage ι} {i : ι} {r : Call} {a : r.Response} {p : Phase} {w : World} :
      s.world.Answers (crew i).place r a w → Phase.Move (crew i) allowed (s.phase i) r a p →
      Step s (.deed i (.answered r a)) ⟨w, Function.update s.phase i p⟩
  | gathered {s : Stage ι} {i : ι} {w : World} : s.world.Agrees w →
      Step s (.deed i .gathered) ⟨w, s.phase⟩
  | outside {s : Stage ι} {w : World} : outside s.world w → Step s .outside ⟨w, s.phase⟩

def Stage.begin (w : World) : Stage ι := ⟨w, fun _ => .outset⟩

/-- What holds of all firings after one of them has changed its phase. -/
theorem Stage.forall_update {s : Stage ι} {i : ι} {p : Phase} {P : ι → Phase → Prop}
    (hi : P i p) (hj : ∀ j, j ≠ i → P j (s.phase j)) :
    ∀ j, P j (Function.update s.phase i p j) := by
  intro j
  by_cases hji : j = i
  · subst hji
    simpa using hi
  · simpa [hji] using hj j hji

/-- The stage shows the scene: the programs do what their phases say. -/
structure Scene.ShownBy (c : Scene ι) (s : Stage ι) : Prop where
  world : s.world = c.world
  course : ∀ i, (c.program i).Follows Call.Fair (Phase.Move (crew i) allowed) (s.phase i)
    fun _ _ => True

variable {crew allowed outside}

omit [DecidableEq ι] in
theorem Scene.begin_shown (hk : ∀ i, (crew i).node.KeepsTo allowed) (w : World) :
    (Scene.begin crew w).ShownBy crew allowed (Stage.begin w) :=
  ⟨rfl, fun i => Occasion.program_follows (hk i)⟩

/-- A wait for children that goes on is still the same call to its firing. -/
theorem follows_collect {f : Occasion} {s : Phase} {h : HandleId}
    {result result' : OperationResult} {closed closed' : Nat} {batch batch' : List Nat}
    {α : Type} {next : OperationResult × Nat → Action α} {Q : Phase → α → Prop}
    (hf : (Program.ask (.collect h result closed batch) next : Action α).Follows Call.Fair
      (Phase.Move f allowed) s Q) :
    (Program.ask (.collect h result' closed' batch') next : Action α).Follows Call.Fair
      (Phase.Move f allowed) s Q := by
  intro answer _
  obtain ⟨s', hm, hn⟩ := hf answer trivial
  cases hm with
  | aside hr => exact ⟨_, .aside trivial, hn⟩

theorem Scene.step_shown {c c' : Scene ι} {e : Event ι} {s : Stage ι}
    (hs : c.ShownBy crew allowed s) (he : c.Step crew outside e c') :
    ∃ s', s.Step crew allowed outside e s' ∧ c'.ShownBy crew allowed s' := by
  obtain ⟨w, phase⟩ := s
  obtain ⟨rfl, hc⟩ := hs
  cases he with
  | outside ho => exact ⟨_, .outside ho, rfl, hc⟩
  | @deed i _ p w ht =>
      have hi := hc i
      generalize hp : c.program i = q at ht hi
      cases ht with
      | answered ha =>
          obtain ⟨s', hm, hn⟩ := hi _ ha.fair
          refine ⟨_, .answered ha hm, rfl, fun j => ?_⟩
          by_cases hj : j = i
          · subst hj
            simpa using hn
          · simpa [hj] using hc j
      | gathered hg =>
          refine ⟨_, .gathered hg.agrees, rfl, fun j => ?_⟩
          by_cases hj : j = i
          · subst hj
            simpa using follows_collect hi
          · simpa [hj] using hc j

/-- Every run of a scene is matched by a run of stages with the same events and worlds. -/
theorem Scene.run_shown {c c' : Scene ι} {es : List (Event ι)} {s : Stage ι}
    (hs : c.ShownBy crew allowed s) (hr : Run (Scene.Step crew outside) c es c') :
    ∃ s', Run (Stage.Step crew allowed outside) s es s' ∧ c'.ShownBy crew allowed s' := by
  have step (c : Scene ι) (e : Event ι) (c' : Scene ι) (s : Stage ι)
      (h : c.ShownBy crew allowed s) (he : c.Step crew outside e c') :
      ∃ s', s.Step crew allowed outside e s' ∧ c'.ShownBy crew allowed s' :=
    Scene.step_shown h he
  exact hr.simulate step hs

end

end TaskFiring
