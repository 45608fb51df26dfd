import TaskFiring.Proofs.Passage
import TaskFiring.Proofs.Solo

/-!
A firing among others, by what it relies on. A demand amid others says what must hold when
a call is made, and lets the others do after it whatever the firing puts up with. A firing
that meets such a demand goes on to meet it along every run in which the others keep to
that; and if it makes no call that may have to wait, it gets to its end.
-/

namespace TaskFiring

/-- A call that is answered at once, and not one by which a handler runs. -/
def Call.IsPrompt : Call → Prop
  | .collect _ _ _ _ | .isInterrupted _ | .handler _ _ _ => False
  | _ => True

theorem Call.IsInquiry.prompt {r : Call} (h : r.IsInquiry) : r.IsPrompt := by
  cases r with
  | collect | isInterrupted | handler => cases h
  | _ => trivial

namespace World

/-- The answers that a call may get as far as its firing can tell: a wait for children may
come to any end. -/
inductive Replies (place : Place) (w : World) : (r : Call) → r.Response → World → Prop
  | answered {r : Call} {a : r.Response} {w' : World} :
      w.Answers place r a w' → Replies place w r a w'
  | collected {h : HandleId} {result : OperationResult} {closed : Nat} {batch : List Nat}
      {a : OperationResult × Nat} : Replies place w (.collect h result closed batch) a w

section

variable {place : Place} {w w' : World} {r : Call} {a : r.Response}

theorem Replies.answers (h : w.Replies place r a w') (hr : ¬ r.IsCollect) :
    w.Answers place r a w' := by
  cases h with
  | answered ha => exact ha
  | collected => exact absurd trivial hr

theorem Replies.collect {h : HandleId} {result : OperationResult} {closed : Nat}
    {batch : List Nat} {a : OperationResult × Nat}
    (hr : w.Replies place (.collect h result closed batch) a w') : w' = w := by
  cases hr with
  | collected => rfl
  | answered ha =>
      cases ha with
      | performed hp => cases hp
      | gathered _ => rfl

theorem Replies.agrees (h : w.Replies place r a w') (hr : r.IsAside) : w.Agrees w' := by
  cases h with
  | answered ha => exact ha.agrees hr
  | collected => exact .refl w

theorem Replies.store (h : w.Replies place r a w') (hr : ¬ r.MayWrite) :
    w'.store = w.store := by
  cases h with
  | answered ha => exact ha.store hr
  | collected => rfl

end

/-- What a firing puts up with may be nothing, or one thing after the other, or what a wait
for children does to a handle. -/
structure Reliance (rely : World → World → Prop) : Prop where
  refl : ∀ w, rely w w
  trans : ∀ {w w' w''}, rely w w' → rely w' w'' → rely w w''
  onHandle : ∀ w h {f : Handle → Handle}, (∀ handle, (f handle).oid = handle.oid) →
    rely w (w.onHandle h f)

/-- What leaves the store alone is put up with by whoever minds the store only. -/
theorem Reliance.of_store {rely : Store → Store → Prop} (hrefl : ∀ s, rely s s)
    (htrans : ∀ {s s' s''}, rely s s' → rely s' s'' → rely s s'') :
    Reliance fun w w' => rely w.store w'.store :=
  ⟨fun _ => hrefl _, htrans, fun _ _ _ _ => hrefl _⟩

end World

/-- Among others: a call must be made when it may be, and whatever it is answered and
whatever the others do then, what follows must be right. -/
def Demand.amid (place : Place) (rely : World → World → Prop) (pre : World → Call → Prop) :
    Demand Calls World :=
  fun w r k => pre w r ∧ ∀ a w₁ w₂, w.Replies place r a w₁ → rely w₁ w₂ → k a w₂

section

variable {α : Type} {place : Place} {rely : World → World → Prop} {pre : World → Call → Prop}

theorem Demand.amid_monotone : (Demand.amid place rely pre).Monotone :=
  fun _ _ _ _ h hk => ⟨hk.1, fun a w₁ w₂ hr hw => h _ _ (hk.2 a w₁ w₂ hr hw)⟩

theorem Program.Meets.and {p : Action α} {w : World} {Q Q' : World → α → Prop}
    (h : p.Meets (.amid place rely pre) w Q) (h' : p.Meets (.amid place rely pre) w Q') :
    p.Meets (.amid place rely pre) w fun w' a => Q w' a ∧ Q' w' a := by
  induction p generalizing w with
  | done a => exact ⟨h, h'⟩
  | ask r next ih =>
      exact ⟨h.1, fun a w₁ w₂ hr hw => ih a (h.2 a w₁ w₂ hr hw) (h'.2 a w₁ w₂ hr hw)⟩

/-- What a program gives whatever it is answered, it gives among others. -/
theorem Program.Meets.given {p : Action α} {w : World} {Q : Unit → α → Prop}
    (hpre : ∀ w r, pre w r) (h : p.Meets Demand.free () Q) :
    p.Meets (.amid place rely pre) w fun _ a => Q () a := by
  induction p generalizing w with
  | done a => exact h
  | ask r next ih => exact ⟨hpre w r, fun a _ _ _ _ => ih a (h a)⟩

/-- What no call of that kind undoes, nor the others, holds at the end. -/
theorem Program.Only.meets {P : World → Prop} {kind : Call → Prop} {p : Action α} {w : World}
    (hp : p.Only kind) (hpre : ∀ w r, P w → kind r → pre w r)
    (hkeep : ∀ {w r a w'}, P w → kind r → w.Replies place r a w' → P w')
    (hrely : ∀ {w w'}, P w → rely w w' → P w') (hw : P w) :
    p.Meets (.amid place rely pre) w fun w' _ => P w' := by
  induction p generalizing w with
  | done a => exact hw
  | ask r next ih =>
      refine ⟨hpre w r hw hp.1, fun a w₁ w₂ hr hw₂ => ?_⟩
      exact ih a (hp.2 a) (hrely (hkeep hw hp.1 hr) hw₂)

/-- In such a state of affairs a firing may look around as it likes, and neither that nor
what the others do changes it. -/
structure World.Calm (place : Place) (rely : World → World → Prop) (pre : World → Call → Prop)
    (P : World → Prop) : Prop where
  made : ∀ {w r}, P w → r.IsAside → r.IsPrompt → pre w r
  aside : ∀ {w r a w'}, P w → r.IsAside → w.Replies place r a w' → P w'
  beside : ∀ {w w'}, P w → rely w w' → P w'

theorem World.Calm.meets {P : World → Prop} (hP : World.Calm place rely pre P) {p : Action α}
    (hp : p.Only fun r : Call => r.IsAside ∧ r.IsPrompt) {w : World} (hw : P w) :
    p.Meets (.amid place rely pre) w fun w' _ => P w' :=
  hp.meets (fun _ _ hw hr => hP.made hw hr.1 hr.2) (fun hw hr => hP.aside hw hr.1) hP.beside hw

theorem World.Calm.inquire {P : World → Prop} (hP : World.Calm place rely pre P)
    {p : Action α} (hp : p.Only Call.IsInquiry) {w : World} (hw : P w) :
    p.Meets (.amid place rely pre) w fun w' _ => P w' :=
  hP.meets (hp.mono fun _ h => ⟨h.aside, h.prompt⟩) hw

/-- A program that only makes prompt calls, running alone, gets to its end. -/
theorem Program.Meets.ends (hrefl : ∀ w, rely w w) (hpre : ∀ w r, pre w r → r.IsPrompt)
    {p : Action α} {w : World} {Q : World → α → Prop}
    (hp : p.Meets (.amid place rely pre) w Q) :
    ∃ ds a w', Run (Program.Alone place) (p, w) ds (.done a, w') ∧ Q w' a := by
  induction p generalizing w with
  | done a => exact ⟨[], a, w, .nil, hp⟩
  | ask r next ih =>
      have prompt := hpre w r hp.1
      obtain ⟨a, w₁, ha⟩ : ∃ a w', w.perform place r = some (a, w') := by
        cases r with
        | collect | handler => exact prompt.elim
        | _ => exact ⟨_, _, rfl⟩
      obtain ⟨ds, b, w', hrun, hq⟩ := ih a (hp.2 a w₁ w₁ (.answered (.performed ha)) (hrefl _))
      have first : Run (Program.Alone place) (.ask r next, w) [.answered r a] (next a, w₁) :=
        .snoc .nil (Program.Turn.answered (.performed ha))
      exact ⟨.answered r a :: ds, b, w', first.append hrun, hq⟩

end

section

variable {ι : Type} [DecidableEq ι] (crew : ι → Occasion) (outside : World → World → Prop)
  (rely : World → World → Prop) (pre : World → Call → Prop) (i : ι)

/-- A step in which the others do only what the firing puts up with. -/
def Scene.StepBeside (c : Scene ι) (e : Event ι) (c' : Scene ι) : Prop :=
  c.Step crew outside e c' ∧ (e.deed? i = none → rely c.world c'.world)

/-- What is left of the firing meets the demand, whatever the others do meanwhile. -/
def Scene.Secure (Q : World → FiringOutcome → Prop) (c : Scene ι) : Prop :=
  ∀ w, rely c.world w → (c.program i).Meets (.amid (crew i).place rely pre) w Q

end

/-- Nobody is beside a firing that is the only one. -/
theorem Scene.run_beside {crew : Unit → Occasion} {c c' : Scene Unit}
    {es : List (Event Unit)} (rely : World → World → Prop)
    (hr : Run (Scene.Step crew fun _ _ => False) c es c') :
    Run (Scene.StepBeside crew (fun _ _ => False) rely ()) c es c' := by
  refine hr.restrict (P := fun _ => True) (fun _ _ => trivial) fun c e c' _ he => ⟨he, ?_⟩
  cases he with
  | outside h => exact h.elim
  | deed _ => exact fun h => by cases h

namespace Scene.Secure

variable {ι : Type} [DecidableEq ι] {crew : ι → Occasion} {outside : World → World → Prop}
  {rely : World → World → Prop} {pre : World → Call → Prop} {i : ι}
  {Q : World → FiringOutcome → Prop} {c c' : Scene ι} {e : Event ι} {es : List (Event ι)}

theorem step (hrely : World.Reliance rely) (hpre : ∀ w, Call.Steady (pre w))
    (hc : c.Secure crew rely pre i Q) (he : c.StepBeside crew outside rely i e c') :
    c'.Secure crew rely pre i Q := by
  obtain ⟨he, hothers⟩ := he
  cases he with
  | outside _ => exact fun w hw => hc w (hrely.trans (hothers rfl) hw)
  | @deed j d p w₁ ht =>
      by_cases hj : j = i
      · subst hj
        intro w hw
        simp only [Function.update_self]
        unfold Secure at hc
        generalize c.program j = q at ht hc
        cases ht with
        | answered ha => exact (hc c.world (hrely.refl _)).2 _ _ _ (.answered ha) hw
        | gathered hg =>
            obtain ⟨f, hf, rfl⟩ := hg.onHandle
            obtain ⟨hp, hk⟩ := hc w (hrely.trans (hrely.onHandle _ _ hf) hw)
            refine ⟨hpre _ _ _ _ _ _ _ _ hp, fun a w₁ w₂ hr hw₂ => ?_⟩
            obtain rfl := hr.collect
            exact hk a w₁ w₂ .collected hw₂
      · intro w hw
        simp only [Function.update_of_ne (Ne.symm hj)]
        exact hc w (hrely.trans (hothers (if_neg hj)) hw)

/-- A firing that meets its demand goes on to meet it. -/
theorem run (hrely : World.Reliance rely) (hpre : ∀ w, Call.Steady (pre w))
    (hc : c.Secure crew rely pre i Q) (hr : Run (Scene.StepBeside crew outside rely i) c es c') :
    c'.Secure crew rely pre i Q := by
  induction hr with
  | nil => exact hc
  | snoc _ he ih => exact ih.step hrely hpre he

/-- A call of the firing is made when it may be. -/
theorem called (hrefl : ∀ w, rely w w) (hc : c.Secure crew rely pre i Q) {r : Call}
    {a : r.Response} (he : c.Step crew outside (.deed i (.answered r a)) c') :
    pre c.world r := by
  cases he with
  | deed ht =>
      unfold Secure at hc
      generalize c.program i = q at ht hc
      cases ht with
      | answered _ => exact (hc c.world (hrefl _)).1

omit [DecidableEq ι] in
theorem done (hrefl : ∀ w, rely w w) (hc : c.Secure crew rely pre i Q) {a : FiringOutcome}
    (hp : c.program i = .done a) : Q c.world a := by
  have h := hc c.world (hrefl _)
  rw [hp] at h
  exact h

/-- If it only makes prompt calls, it can go on to its end. -/
theorem ends (hrefl : ∀ w, rely w w) (hpre : ∀ w r, pre w r → r.IsPrompt)
    (hc : c.Secure crew rely pre i Q) :
    ∃ es c' a, Run (Scene.StepBeside crew outside rely i) c es c' ∧
      c'.program i = .done a := by
  obtain ⟨ds, a, w', hrun, -⟩ := (hc c.world (hrefl _)).ends hrefl hpre
  have own : Run (Scene.Step crew outside) c (ds.map (.deed i)) _ := Solo.run_of_alone hrun
  refine ⟨_, _, a, own.restrict (P := fun e => e.deed? i ≠ none) ?_ ?_, Function.update_self ..⟩
  · intro e he
    obtain ⟨d, -, rfl⟩ := List.mem_map.mp he
    simp [Event.deed?]
  · exact fun _ _ _ he hstep => ⟨hstep, fun h => absurd h he⟩

end Scene.Secure

end TaskFiring
