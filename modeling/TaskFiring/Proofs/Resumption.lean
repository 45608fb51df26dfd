import TaskFiring.Proofs.Independence
import TaskFiring.Proofs.Opening
import TaskFiring.Proofs.VersionBlindness

/-!
Firings that go on alike from the end of their openings. What goes on outside may as well
happen before a firing opens, and as well elsewhere. So from two worlds that differ in the
record of the task only, two firings get to the ends of their openings side by side, and from
there, as their records differ in the version at most, what the one comes to the other can
come to.
-/

namespace TaskFiring

/-- The same but for the version of the record. -/
structure Conclusion.Alike (ρ : UInt64 → UInt64 → Prop) (x y : Conclusion) : Prop where
  report : y.report = x.report
  record : Option.Rel (Task.Alike ρ) x.record y.record
  events : y.events = x.events

theorem Conclusion.Alike.flip {ρ : UInt64 → UInt64 → Prop} {x y : Conclusion}
    (h : x.Alike ρ y) : y.Alike (flip ρ) x where
  report := h.report.symm
  record := by
    obtain ⟨report, record, events⟩ := x
    obtain ⟨report', record', events'⟩ := y
    cases h.record with
    | some ht => exact .some ht.flip
    | none => exact .none
  events := h.events.symm

namespace Occasion

/-- The firing may come to this end, whatever goes on outside. -/
def MayCome (f : Occasion) (outside : World → World → Prop) (w : World) (x : Conclusion) :
    Prop :=
  ∃ es c, Run (Scene.Step (fun _ : Unit => f) outside) (.begin (fun _ => f) w) es c ∧
    c.program () = .done x.report ∧ c.world.store.find? f.oid = x.record ∧
    c.world.trigger.events = x.events

/-- From wherever the firing gets to, it can go on to an end. -/
def CanEnd (f : Occasion) (outside : World → World → Prop) (w : World) : Prop :=
  ∀ es c, Run (Scene.Step (fun _ : Unit => f) outside) (.begin (fun _ => f) w) es c →
    ∃ es' c' report, Run (Scene.Step (fun _ : Unit => f) outside) c es' c' ∧
      c'.program () = .done report

/-- Two firings, each in its world, may come to the same ends but for the version of the
record; and if the one can always go on to an end, so can the other. -/
structure ComesAlike (ρ : UInt64 → UInt64 → Prop) (outside : World → World → Prop)
    (f : Occasion) (w : World) (g : Occasion) (v : World) : Prop where
  forth : ∀ x, f.MayCome outside w x → ∃ y, g.MayCome outside v y ∧ x.Alike ρ y
  back : ∀ y, g.MayCome outside v y → ∃ x, f.MayCome outside w x ∧ x.Alike ρ y
  ends : f.CanEnd outside w ↔ g.CanEnd outside v

section

variable {f : Occasion} {outside : World → World → Prop} {w : World} {x : Conclusion}

theorem mayCome_of_run {c : Scene Unit} {es : List (Event Unit)} {report : FiringOutcome}
    (hr : Run (Scene.Step (fun _ : Unit => f) outside) (.begin (fun _ => f) w) es c)
    (hd : c.program () = .done report) :
    f.MayCome outside w ⟨report, c.world.store.find? f.oid, c.world.trigger.events⟩ :=
  ⟨es, c, hr, hd, rfl, rfl⟩

theorem mayCome_iff : f.MayCome outside w x ↔ ∃ es u,
    Run (Program.Goes f.place outside) (f.program, w) es (.done x.report, u) ∧
      u.store.find? f.oid = x.record ∧ u.trigger.events = x.events := by
  constructor
  · rintro ⟨es, c, hr, hp, hrecord⟩
    have hr := Scene.goes_of_run hr
    rw [hp] at hr
    exact ⟨_, c.world, hr, hrecord⟩
  · rintro ⟨es, u, hr, hrecord⟩
    obtain ⟨es', hr⟩ := Scene.run_of_goes hr
    exact ⟨es', _, hr, rfl, hrecord⟩

theorem canEnd_iff : f.CanEnd outside w ↔ ∀ es p u,
    Run (Program.Goes f.place outside) (f.program, w) es (p, u) →
      ∃ es' report u', Run (Program.Goes f.place outside) (p, u) es' (.done report, u') := by
  constructor
  · intro h es p u hr
    obtain ⟨es', hr⟩ := Scene.run_of_goes hr
    obtain ⟨es'', c, report, hr', hp⟩ := h es' _ hr
    have hr' := Scene.goes_of_run hr'
    rw [hp] at hr'
    exact ⟨_, report, c.world, hr'⟩
  · intro h es c hr
    obtain ⟨es', report, u, hr'⟩ := h _ _ _ (Scene.goes_of_run hr)
    obtain ⟨es'', hr'⟩ := Scene.run_of_goes hr'
    exact ⟨es'', _, report, hr', rfl⟩

end

end Occasion

namespace Recovery

open VersionBlindness (Pairs Twin)
open Program (Goes Paired)
open Relation (ReflTransGen)

section

variable {f : Occasion} {outside : World → World → Prop} {w v : World}
  {x : Task × Option Constraints} {s : Store} {p : Action FiringOutcome} {u : World}
  {es : List (Option Deed)}

/-- The end of the opening, from a world that others have led to. -/
theorem Enters.goes (hout : World.Detached outside) (h : Enters f w x s)
    (hv : ReflTransGen outside w v) :
    ∃ es, Run (Goes f.place outside) (f.program, w) es
      (onward f (.ok x), { v with store := s }) := by
  have opened : (opening f.node f.oid f.recovering).run.Reaches f.place v (.done (.ok x))
      { v with store := s } := (h v (hout.allIntact hv) _ _).mpr ⟨rfl, rfl⟩
  obtain ⟨es, before⟩ := Program.goes_of_outside f.program f.place hv
  obtain ⟨es', after⟩ := Program.goes_of_reaches outside (opened.first (f := onward f))
  rw [← program_eq] at after
  exact ⟨_, before.append after⟩

/-- Wherever the firing has got to, it has come through its opening or can do so, and
whatever has happened outside meanwhile might have happened before. -/
theorem Enters.through (hout : World.Detached outside) (h : Enters f w x s)
    (hr : Run (Goes f.place outside) (f.program, w) es (p, u)) :
    ∃ v q u' es₁ es₂, ReflTransGen outside w v ∧
      Run (Goes f.place outside) (p, u) es₁ (q, u') ∧
      Run (Goes f.place outside) (onward f (.ok x), { v with store := s }) es₂ (q, u') ∧
      ∀ report, p = .done report → q = p ∧ u' = u := by
  have still := opening_still f.node f.oid f.recovering
  rw [program_eq] at hr
  rcases Program.goes_part hr with ⟨r, next, h₁, rfl⟩ | ⟨es₁, es₂, a, w₁, h₁, h₂⟩
  · obtain ⟨hnext, v, hv, hreach⟩ := Program.still_goes hout still h₁
    obtain ⟨a, w₁, hend⟩ := Program.still_ends hnext f.place u
    obtain ⟨rfl, rfl⟩ := (h v (hout.allIntact hv) a w₁).mp (hreach.trans hend)
    obtain ⟨es₁, hgo⟩ := Program.goes_of_reaches outside (hend.first (f := onward f))
    exact ⟨v, _, _, es₁, [], hv, hgo, .nil, fun _ hd => nomatch hd⟩
  · obtain ⟨-, v, hv, hreach⟩ := Program.still_goes hout still h₁
    obtain ⟨rfl, rfl⟩ := (h v (hout.allIntact hv) a w₁).mp hreach
    exact ⟨v, p, u, [], es₂, hv, .nil, h₂, fun _ _ => ⟨rfl, rfl⟩⟩

end

section

variable {ρ : UInt64 → UInt64 → Prop} {node : Node} {oid : TaskOid} {b b' : Bool} {t u : Task}

/-- Past the opening, where the stop action asks for nothing, a firing goes by neither the
version nor what it was told of a dead run. -/
theorem admission_pairs (constraints : Option Constraints) (ho : t.oid = oid)
    (h : t.Alike ρ u) (ht : Preparation.applyRecoveryPolicy t b = pure ())
    (hu : Preparation.applyRecoveryPolicy u b' = pure ()) :
    Pairs ρ oid (admission node oid b (t, constraints)).run
      (admission node oid b' (u, constraints)).run (Matched (Twin ρ oid b b')) := by
  unfold admission
  refine Paired.attempt (VersionBlindness.ensureSchedulerRunning_pairs ho h) fun _ _ _ => ?_
  rw [ht, hu, pure_bind, pure_bind]
  refine Paired.attempt
    (VersionBlindness.enforce_pairs node.config ho h constraints) fun _ _ _ => ?_
  refine Paired.query (.blind trivial) ?_
  rintro handle _ rfl
  exact .ok ⟨ho, rfl, u, h, rfl⟩

theorem onward_pairs {f g : Occasion} (hnode : g.node = f.node) (hoid : g.oid = f.oid)
    (hn : f.node.Overlooks ρ f.recovering g.recovering) (constraints : Option Constraints)
    (ho : t.oid = f.oid) (h : t.Alike ρ u)
    (ht : Preparation.applyRecoveryPolicy t f.recovering = pure ())
    (hu : Preparation.applyRecoveryPolicy u g.recovering = pure ()) :
    Pairs ρ f.oid (onward f (.ok (t, constraints))) (onward g (.ok (u, constraints)))
      fun a b => a = b := by
  unfold onward
  rw [hnode, hoid]
  refine (admission_pairs constraints ho h ht hu).bind ?_
  rintro _ _ (hg | stop)
  · exact VersionBlindness.runPrepared_pairs hn hg
  · exact rfl

end

/-- Two firings whose openings end at parts that go together, in worlds that differ in the
record of the task only. -/
structure Meeting (ρ : UInt64 → UInt64 → Prop) (f : Occasion) (w : World)
    (x : Task × Option Constraints) (s : Store) (g : Occasion) (v : World)
    (y : Task × Option Constraints) (s' : Store) : Prop where
  place : g.place = f.place
  oid : g.oid = f.oid
  worlds : ∃ s l j, v = w.recast s w.trigger l j
  left : Enters f w x s
  right : Enters g v y s'
  stores : s.Alike ρ f.oid s'
  paired : Pairs ρ f.oid (onward f (.ok x)) (onward g (.ok y)) fun a b => a = b

namespace Meeting

variable {ρ : UInt64 → UInt64 → Prop} {f g : Occasion} {outside : World → World → Prop}
  {w v : World} {x y : Task × Option Constraints} {s s' : Store}

theorem flip (h : Meeting ρ f w x s g v y s') : Meeting (flip ρ) g v y s' f w x s where
  place := h.place.symm
  oid := h.oid.symm
  worlds := by
    obtain ⟨s, l, j, rfl⟩ := h.worlds
    exact ⟨w.store, w.listener, w.journal, rfl⟩
  left := h.right
  right := h.left
  stores := h.oid ▸ h.stores.flip
  paired := h.oid ▸ h.paired.flip (fun _ _ _ => Call.Shifts.flip) fun _ _ => Eq.symm

/-- What the one does past its opening, the other can do past its own. -/
theorem beside (hρ : Abreast ρ) (hout : World.Detached outside)
    (h : Meeting ρ f w x s g v y s') {w₁ : World} (hw : ReflTransGen outside w w₁)
    {es : List (Option Deed)} {c : Action FiringOutcome × World}
    (hr : Run (Goes f.place outside) (onward f (.ok x), { w₁ with store := s }) es c) :
    ∃ es' d, Run (Goes g.place outside) (g.program, v) es' d ∧
      Astride ρ f g (fun a b => a = b) c d := by
  -- what goes on outside comes first, in both worlds alike; then both firings open
  obtain ⟨s₁, l, j, rfl⟩ := h.worlds
  obtain ⟨es₁, hv⟩ := hout.elsewhere hw s₁ w.trigger l j
  obtain ⟨esf, leftRun⟩ := h.left.goes hout hw
  obtain ⟨esg, rightRun⟩ := h.right.goes hout hv
  have intact := hout.allIntact hw
  have astride : Astride ρ f g (fun a b => a = b) (onward f (.ok x), { w₁ with store := s })
      (onward g (.ok y), { w₁.recast s₁ w.trigger l (j ++ es₁) with store := s' }) :=
    { paired := h.paired
      worlds := ⟨s', l, j ++ es₁, by rw [intact.trigger]; rfl, h.stores⟩
      left := (Occasion.UpToDate.outset f w).run hout leftRun
      right := (Occasion.UpToDate.outset g _).run hout rightRun }
  obtain ⟨es', d, hd, hastride⟩ := astride.run hρ hout h.place hr
  exact ⟨_, d, rightRun.append hd, hastride⟩

/-- What the one may come to, the other may. -/
theorem forth (hρ : Abreast ρ) (hout : World.Detached outside)
    (h : Meeting ρ f w x s g v y s') {a : Conclusion} (ha : f.MayCome outside w a) :
    ∃ b, g.MayCome outside v b ∧ a.Alike ρ b := by
  obtain ⟨es, u, hr, hrecord, hevents⟩ := Occasion.mayCome_iff.mp ha
  obtain ⟨w₁, q, u', -, es₂, hw, -, h₂, hdone⟩ := h.left.through hout hr
  obtain ⟨rfl, rfl⟩ := hdone _ rfl
  obtain ⟨es', ⟨p, u₂⟩, hd, hastride⟩ := h.beside hρ hout hw h₂
  have paired := hastride.paired
  obtain ⟨s₂, l, j, hworld, stores⟩ := hastride.worlds
  replace hworld : u₂ = u'.recast s₂ u'.trigger l j := hworld
  cases p with
  | ask r next => exact paired.elim
  | done b =>
      have same : a.report = b := paired
      refine ⟨⟨b, u₂.store.find? g.oid, u₂.trigger.events⟩,
        Occasion.mayCome_iff.mpr ⟨es', u₂, hd, rfl, rfl⟩, same.symm, ?_, ?_⟩
      · rw [← hrecord, h.oid, hworld]
        rcases stores.own with ⟨hn, hn'⟩ | ⟨t, t', ht, ht', halike⟩
        · rw [hn, show (u'.recast s₂ u'.trigger l j).store.find? f.oid = none from hn']
          exact .none
        · rw [ht, show (u'.recast s₂ u'.trigger l j).store.find? f.oid = some t' from ht']
          exact .some halike
      · rw [← hevents, hworld]
        rfl

/-- If the other can always go on to its end, so can the one. -/
theorem ends (hρ : Abreast ρ) (hout : World.Detached outside)
    (h : Meeting ρ f w x s g v y s') (hg : g.CanEnd outside v) : f.CanEnd outside w := by
  refine Occasion.canEnd_iff.mpr fun es p u hr => ?_
  obtain ⟨w₁, q, u', es₁, es₂, hw, h₁, h₂, -⟩ := h.left.through hout hr
  -- from where the other firing then stands it gets to its end, and that run is carried back
  obtain ⟨es', ⟨p₂, u₂⟩, hd, hastride⟩ := h.beside hρ hout hw h₂
  obtain ⟨es₃, report, u₃, h₃⟩ := Occasion.canEnd_iff.mp hg _ _ _ hd
  obtain ⟨es₄, ⟨p₄, u₄⟩, h₄, hback⟩ := (hastride.flip h.oid).run hρ.flip hout h.place.symm h₃
  have paired := hback.paired
  cases p₄ with
  | ask r next => exact paired.elim
  | done b => exact ⟨_, b, u₄, h₁.append h₄⟩

theorem comesAlike (hρ : Abreast ρ) (hout : World.Detached outside)
    (h : Meeting ρ f w x s g v y s') : f.ComesAlike ρ outside w g v where
  forth _ ha := h.forth hρ hout ha
  back b hb := by
    obtain ⟨a, ha, halike⟩ := h.flip.forth hρ.flip hout hb
    exact ⟨a, ha, halike.flip⟩
  ends := ⟨h.flip.ends hρ.flip hout, h.ends hρ hout⟩

end Meeting

end Recovery
end TaskFiring
