import TaskFiring.Proofs.Intervention

/-!
Deactivating a node. A firing registers and then looks at the stop signal; whoever
deactivates the node sets the signal and then looks into the registry. Whatever comes in
between, one of the two sees the other. So once a deactivation has returned, what is
registered has lost its leave to run, or its firing has yet to do its check; and
no handler begins any more with that leave.
-/

namespace TaskFiring

/-- By its deeds the firing of that handle is done with its check: it has found the stop
signal not set, or it has given up its leave to run. -/
def Checked (h : HandleId) (ds : List Deed) : Prop :=
  .answered .isShutDown false ∈ ds ∨ .answered (.clearCanRun h) () ∈ ds

namespace Checked

variable {h : HandleId} {ds : List Deed} {d : Deed} {f : Occasion} {s s' : Leg}

theorem snoc_iff : Checked h (ds ++ [d]) ↔
    Checked h ds ∨ d = .answered .isShutDown false ∨ d = .answered (.clearCanRun h) () := by
  simp only [Checked, List.mem_append, List.mem_singleton, eq_comm (b := d)]
  grind

theorem append {ds' : List Deed} (hc : Checked h ds) : Checked h (ds ++ ds') :=
  hc.imp (List.mem_append_left _) (List.mem_append_left _)

/-- The check comes after the entry in the registry, and before all that follows. -/
def Due (ds : List Deed) : Leg → Prop
  | .outset | .equipped _ | .entered _ | .warned _ => ∀ h, ¬ Checked h ds
  | s => ∀ h, s.handle? = some h → Checked h ds

theorem Due.quiet (hs : Due ds s) (hp : d ≠ .answered .isShutDown false)
    (hc : ∀ h, d ≠ .answered (.clearCanRun h) ()) : Due (ds ++ [d]) s := by
  have same (h : HandleId) : Checked h (ds ++ [d]) ↔ Checked h ds := by
    simp [snoc_iff, hp, hc h]
  cases s with
  | outset | equipped | entered | warned => exact fun h => mt (same h).mp (hs h)
  | _ => exact fun h hh => (same h).mpr (hs h hh)

theorem due_of_passes (hs : Due ds s) (hd : Itinerary.Passes f s d s') :
    Due (ds ++ [d]) s' := by
  cases hd with
  | gathered => exact hs.quiet nofun fun _ => nofun
  | answered hm =>
      cases hm with
      | rest hr =>
          refine hs.quiet (fun e => ?_) fun h e => ?_
          all_goals
            cases e
            cases hr
      | equip | enter | refused | heed => exact hs.quiet nofun fun _ => nofun
      | pass => exact fun h _ => snoc_iff.mpr (.inr (.inl rfl))
      | yield =>
          rintro h ⟨⟩
          exact snoc_iff.mpr (.inr (.inr rfl))
      | _ => exact fun h hh => (hs h hh).append

theorem due_of_path (hp : Itinerary.Path f ds s) : Due ds s := by
  induction hp with
  | nil => exact fun h hc => hc.elim nofun nofun
  | snoc _ hd ih => exact due_of_passes ih hd

end Checked

/-! What a deactivation does. -/

section

open Interruption

variable {k : Warden} {ds : List Deed} {hs : List HandleId}

theorem Warden.deactivation (hk : k.target = none) :
    k.program = .ask .shutDown fun _ => .ask .registeredHandles fun hs =>
      (interruptAll k.policy hs).bind fun _ => .done () := by
  have same (hs : List HandleId) :
      ((interruptAll k.policy hs).bind fun _ => .done hs.length).bind (fun _ => .done ())
        = (interruptAll k.policy hs).bind fun _ => (.done () : Action Unit) :=
    Program.bind_assoc _ _ _
  unfold Warden.program
  rw [hk]
  exact congrArg
    (fun next => (Program.ask .shutDown fun _ => .ask .registeredHandles next : Action Unit))
    (funext same)

/-- It sets the stop signal before it looks into the registry. -/
theorem Warden.signals_first {q : Action Unit} (hk : k.target = none)
    (hw : k.program.Way (ds ++ [.answered .registeredHandles hs]) q) :
    ds = [.answered .shutDown ()] := by
  rw [Warden.deactivation hk] at hw
  cases ds with
  | nil =>
      obtain ⟨_, hd, -⟩ := Program.Way.next id hw
      cases hd
  | cons d ds =>
      obtain ⟨_, rfl, hnext⟩ := Program.Way.next id hw
      cases ds with
      | nil => rfl
      | cons d' ds =>
          obtain ⟨found, -, hrest⟩ := Program.Way.next id hnext
          -- it does not look a second time
          have only : ((interruptAll k.policy found).bind fun _ => (.done () : Action Unit)).Only
              Call.Pursues :=
            Program.Only.bind (interruptAll_pursues k.policy found) fun _ => trivial
          exact ((only.along (fun _ _ _ _ _ _ _ h => h.elim) hrest).1
            (.answered .registeredHandles hs) (by simp)).elim

theorem Warden.signals {q : Action Unit} (hk : k.target = none) (hw : k.program.Way ds q)
    (hf : .answered .registeredHandles hs ∈ ds) : .answered .shutDown () ∈ ds := by
  obtain ⟨ds₁, ds₂, rfl⟩ := List.append_of_mem hf
  rw [List.append_cons] at hw
  obtain ⟨_, hw, -⟩ := hw.split
  rw [Warden.signals_first hk hw]
  simp

theorem interruptAll_clears {policy : InterruptPolicy} {a : Unit}
    (hw : (interruptAll policy hs).Way ds (.done a)) :
    ∀ h ∈ hs, .answered (.clearCanRun h) () ∈ ds := by
  induction hs generalizing ds with
  | nil => exact nofun
  | cons h hs ih =>
      obtain ⟨ds₁, ds₂, _, rfl, first, rest⟩ := Program.Way.through hw
      refine List.forall_mem_cons.mpr ⟨List.mem_append_left _ ?_, fun h hh => ?_⟩
      · -- the leave to run is what an interruption takes away first
        cases ds₁ with
        | nil => cases first.eq_of_nil
        | cons d ds₁ =>
            obtain ⟨_, rfl, -⟩ := Program.Way.next id first
            exact List.mem_cons_self
      · exact List.mem_append_right _ (ih rest h hh)

/-- When it has returned, whatever it has found in the registry has lost its leave to run. -/
theorem Warden.clears (hk : k.target = none) (hw : k.program.Way ds (.done ())) :
    ∃ hs, .answered .registeredHandles hs ∈ ds ∧
      ∀ h ∈ hs, .answered (.clearCanRun h) () ∈ ds := by
  rw [Warden.deactivation hk] at hw
  cases ds with
  | nil => cases hw.eq_of_nil
  | cons d ds =>
      obtain ⟨_, rfl, hnext⟩ := Program.Way.next id hw
      cases ds with
      | nil => cases hnext.eq_of_nil
      | cons d ds =>
          obtain ⟨hs, rfl, hrest⟩ := Program.Way.next id hnext
          obtain ⟨ds₁, ds₂, _, rfl, sweep, -⟩ := Program.Way.through hrest
          refine ⟨hs, by simp, fun h hh => ?_⟩
          simp [interruptAll_clears sweep h hh]

end

section

variable {ι κ : Type} [DecidableEq ι] [DecidableEq κ] (crew : ι → Occasion)

/-- A firing at that place has registered under the handle and is not done with its check. -/
def Unchecked (place : Place) (es : List (Event (ι ⊕ κ))) (h : HandleId) : Prop :=
  ∃ i, (crew i).place = place ∧ .answered (.register h) true ∈ deedsOf (.inl i) es ∧
    ¬ Checked h (deedsOf (.inl i) es)

/-- What a deactivation has achieved, as far as it has come. -/
structure Deactivation (k : κ) (place : Place) (es : List (Event (ι ⊕ κ))) (w : World) :
    Prop where
  signal : .answered .shutDown () ∈ deedsOf (.inr k) es → (w.site place).shutDown
  /-- Of all that is registered once the handles are taken, nothing is overlooked. -/
  sweep : ∀ hs, .answered .registeredHandles hs ∈ deedsOf (.inr k) es →
    ∀ oid h, w.registered place oid = some h →
      w.canRun h = false ∨ h ∈ hs ∧ .answered (.clearCanRun h) () ∉ deedsOf (.inr k) es ∨
        Unchecked crew place es h

end

namespace Deactivation

section

variable {ι κ : Type} [DecidableEq ι] [DecidableEq κ] {crew : ι → Occasion}
  {wardens : κ → Warden} {s s' : Watch ι κ} {es : List (Event (ι ⊕ κ))} {e : Event (ι ⊕ κ)}
  {w : World} {i : ι} {k : κ} {h : HandleId} {m : Marks} {place : Place} {oid : TaskOid}

/-- The leave to run is not given back. -/
theorem canRun_of_step (he : s.Step crew wardens e s') (hm : s.world.marks? h = some m)
    (hc : s.world.canRun h = false) : s'.world.canRun h = false := by
  rw [World.canRun_of_marks? hm] at hc
  rw [World.canRun_of_marks? (he.marks? hm)]
  cases e with
  | outside => exact hc
  | deed j d =>
      cases d with
      | gathered => exact hc
      | answered r a =>
          cases r with
          | clearCanRun | setSafe | interruptHandler =>
              simp only [Event.mark, Deed.mark, Call.mark]
              split
              · first | rfl | exact hc
              · exact hc
          | _ => exact hc

theorem canRun_of_clear {j : ι ⊕ κ}
    (he : s.Step crew wardens (.deed j (.answered (.clearCanRun h) ())) s')
    (hm : s.world.marks? h = some m) : s'.world.canRun h = false := by
  rw [World.canRun_of_marks? (he.marks? hm)]
  simp [Event.mark, Deed.mark, Call.mark]

/-- A firing that has to do its check yet goes on to have it before it, or it gives up its
leave to run; the stop signal is set. -/
theorem unchecked_of_step (he : s.Step crew wardens e s') (hm : s.world.marks? h = some m)
    (hs : (s.world.site place).shutDown) (hu : Unchecked crew place es h) :
    Unchecked crew place (es ++ [e]) h ∨ s'.world.canRun h = false := by
  obtain ⟨i, hp, hr, hn⟩ := hu
  by_cases hd : ∃ d, e = .deed (.inl i) d
  · obtain ⟨d, rfl⟩ := hd
    by_cases hc : d = .answered (.clearCanRun h) ()
    · subst hc
      exact .inr (canRun_of_clear he hm)
    · have hsd : d ≠ .answered .isShutDown false := by
        rintro rfl
        cases he with
        | firing ht =>
            generalize s.firing i = p at ht
            cases ht with
            | answered ha =>
                have := ha.isShutDown
                rw [hp, hs] at this
                cases this
      refine .inl ⟨i, hp, by simp [hr], ?_⟩
      simpa [Checked.snoc_iff, hsd, hc] using hn
  · have same : deedsOf (.inl i) (es ++ [e]) = deedsOf (.inl i) es :=
      deedsOf_snoc_other fun d h => hd ⟨d, h⟩
    exact .inl ⟨i, hp, by rwa [same], by rwa [same]⟩

/-- A firing that registers has its check before it. -/
theorem unchecked_of_registers (hr : Run (Watch.Step crew wardens) (.begin crew wardens w) es s)
    (he : s.Step crew wardens (.deed (.inl i) (.answered (.register h) true)) s') :
    Unchecked crew (crew i).place (es ++ [.deed (.inl i) (.answered (.register h) true)]) h := by
  obtain ⟨l, l', before, hd⟩ := Watch.passes_of_step hr he
  refine ⟨i, rfl, by simp, ?_⟩
  rw [deedsOf_snoc, Checked.snoc_iff]
  cases hd with
  | answered hm =>
      cases hm with
      | rest hr => cases hr
      | enter =>
          have due : ∀ h, ¬ Checked h _ := Checked.due_of_path before
          rintro (hc | hc | hc)
          · exact due h hc
          · cases hc
          · cases hc

/-- The handles are taken from the registry as it is, and none of them is cleared yet. -/
theorem sweep_of_seize (hk : (wardens k).target = none)
    (hr : Run (Watch.Step crew wardens) (.begin crew wardens w) es s) {hs : List HandleId}
    (he : s.Step crew wardens (.deed (.inr k) (.answered .registeredHandles hs)) s')
    (hreg : s'.world.registered (wardens k).place oid = some h) :
    h ∈ hs ∧ .answered (.clearCanRun h) () ∉
      deedsOf (.inr k) (es ++ [.deed (.inr k) (.answered .registeredHandles hs)]) := by
  have way := Watch.warden_way (hr.snoc he) k
  rw [deedsOf_snoc] at way
  refine ⟨?_, fun hc => ?_⟩
  · cases he with
    | warden ht =>
        generalize s.warden k = p at ht
        cases ht with
        | answered ha =>
            obtain ⟨rfl, found⟩ := ha.registeredHandles
            exact (found h).mpr ⟨oid, hreg⟩
  · rw [deedsOf_snoc, Warden.signals_first hk way] at hc
    simp at hc

/-- What is registered afterwards is overlooked neither if it was there nor if it is new. -/
theorem sweep_of_step (hd : Deactivation crew k (wardens k).place es s.world)
    (hk : (wardens k).target = none) (hw : w.Sound)
    (hr : Run (Watch.Step crew wardens) (.begin crew wardens w) es s)
    (he : s.Step crew wardens e s') {hs : List HandleId}
    (hf : .answered .registeredHandles hs ∈ deedsOf (.inr k) es)
    (hreg : s'.world.registered (wardens k).place oid = some h) :
    s'.world.canRun h = false ∨
      h ∈ hs ∧ .answered (.clearCanRun h) () ∉ deedsOf (.inr k) (es ++ [e]) ∨
        Unchecked crew (wardens k).place (es ++ [e]) h := by
  have signal := hd.signal (Warden.signals hk (Watch.warden_way hr k) hf)
  rcases he.registered_cases (Watch.run_scene hr).2 hreg with hreg | ⟨i, rfl, hp, -⟩
  · obtain ⟨m, hm⟩ := Watch.sound_of_run hr hw _ _ _ hreg
    rcases hd.sweep hs hf oid h hreg with hc | ⟨hh, hc⟩ | hu
    · exact .inl (canRun_of_step he hm hc)
    · by_cases clear : e = .deed (.inr k) (.answered (.clearCanRun h) ())
      · subst clear
        exact .inl (canRun_of_clear he hm)
      · exact .inr (.inl ⟨hh, fun hc' => (mem_deedsOf_snoc.mp hc').elim hc clear⟩)
    · rcases unchecked_of_step he hm signal hu with hu | hc
      · exact .inr (.inr hu)
      · exact .inl hc
  · rw [hp]
    exact .inr (.inr (unchecked_of_registers hr he))

/-- What a deactivation has achieved, it keeps and adds to. -/
theorem step (hd : Deactivation crew k (wardens k).place es s.world)
    (hk : (wardens k).target = none) (hw : w.Sound)
    (hr : Run (Watch.Step crew wardens) (.begin crew wardens w) es s)
    (he : s.Step crew wardens e s') :
    Deactivation crew k (wardens k).place (es ++ [e]) s'.world := by
  constructor
  · intro hs
    rcases mem_deedsOf_snoc.mp hs with hs | rfl
    · exact he.shutDown (hd.signal hs)
    · cases he with
      | warden ht =>
          generalize s.warden k = p at ht
          cases ht with
          | answered ha => exact ha.shutDown_set
  · intro hs hf oid h hreg
    rcases mem_deedsOf_snoc.mp hf with hf | rfl
    · exact sweep_of_step hd hk hw hr he hf hreg
    · exact .inr (.inl (sweep_of_seize hk hr he hreg))

theorem of_run (hk : (wardens k).target = none) (hw : w.Sound)
    (hr : Run (Watch.Step crew wardens) (.begin crew wardens w) es s) :
    Deactivation crew k (wardens k).place es s.world := by
  induction hr with
  | nil => exact ⟨nofun, nofun⟩
  | snoc hr he ih => exact ih.step hk hw hr he

/-- A firing that goes on to its handler is done with its check. -/
theorem checked_of_invoking {next : Bool → Action FiringOutcome}
    (hr : Run (Watch.Step crew wardens) (.begin crew wardens w) es s)
    (hi : s.firing i = .ask (.isInterrupted h) next) {j : ι}
    (hj : .answered (.register h) true ∈ deedsOf (.inl j) es) :
    Checked h (deedsOf (.inl j) es) := by
  obtain ⟨l, path, goes⟩ := Watch.path_of_run hr i
  rw [hi] at goes
  obtain ⟨_, hm, -⟩ := goes true trivial
  obtain ⟨l', path', -⟩ := Watch.path_of_run hr j
  have hj := (Itinerary.handleOf_of_path path').trans (Itinerary.handle_of_registers path' hj)
  have hi := Itinerary.handleOf_of_path path
  cases hm with
  | rest hr => cases hr
  | invoke =>
      obtain rfl := Watch.eq_of_handleOf hr hi hj
      exact Checked.due_of_path path h rfl

end

end Deactivation

/-- Once a deactivation has returned, whatever is registered at its place has no leave to
run, unless its firing has yet to do its check; and no handler begins there any more that
has it. -/
theorem canRun_of_deactivated {ι κ : Type} [DecidableEq ι] [DecidableEq κ]
    {crew : ι → Occasion} {wardens : κ → Warden} {w : World} {s s' : Watch ι κ}
    {es es' : List (Event (ι ⊕ κ))} {k : κ} (hw : w.Sound) (hk : (wardens k).target = none)
    (hr : Run (Watch.Step crew wardens) (.begin crew wardens w) es s)
    (hdone : s.warden k = .done ()) (hr' : Run (Watch.Step crew wardens) s es' s') :
    (∀ oid h, s'.world.registered (wardens k).place oid = some h →
      (∀ i, .answered (.register h) true ∈ deedsOf (.inl i) (es ++ es') →
        Checked h (deedsOf (.inl i) (es ++ es'))) →
      s'.world.canRun h = false) ∧
    ∀ i h next, (crew i).place = (wardens k).place →
      s'.firing i = .ask (.isInterrupted h) next → s'.world.canRun h = false := by
  have run := hr.append hr'
  have registered (oid : TaskOid) (h : HandleId)
      (hreg : s'.world.registered (wardens k).place oid = some h)
      (hc : ∀ i, .answered (.register h) true ∈ deedsOf (.inl i) (es ++ es') →
        Checked h (deedsOf (.inl i) (es ++ es'))) : s'.world.canRun h = false := by
    have way := Watch.warden_way hr k
    rw [hdone] at way
    obtain ⟨hs, found, cleared⟩ := Warden.clears hk way
    have later {d : Deed} (hd : d ∈ deedsOf (.inr k) es) : d ∈ deedsOf (.inr k) (es ++ es') := by
      rw [deedsOf_append]
      exact List.mem_append_left _ hd
    rcases (Deactivation.of_run hk hw run).sweep hs (later found) oid h hreg with h | ⟨hh, hn⟩ | hu
    · exact h
    · exact absurd (later (cleared h hh)) hn
    · obtain ⟨i, -, hi, hn⟩ := hu
      exact absurd (hc i hi) hn
  refine ⟨registered, fun i h next hp hi => registered (crew i).oid h ?_ fun j hj => ?_⟩
  · rw [← hp]
    exact Watch.registered_of_invoking run hi
  · exact Deactivation.checked_of_invoking run hi hj

namespace Deactivation

/-- One firing, and one deactivation of its node that spares the handler. -/
abbrev crew : Unit → Occasion :=
  fun _ => Rehearsal.occasion "a" (.done (.ok ⟨.finished, none⟩))

abbrev wardens : Unit → Warden := fun _ => ⟨.node "a", .never, none⟩

/-- The firing finds the stop signal not set, and then the node is deactivated. -/
abbrev returned : List (Event (Unit ⊕ Unit)) × Watch Unit Unit :=
  Watch.play crew wardens (List.replicate 7 (.inl ()) ++ List.replicate 4 (.inr ()))
    (.begin crew wardens Rehearsal.world)

/-- The firing goes on up to its handler. -/
abbrev later : List (Event (Unit ⊕ Unit)) × Watch Unit Unit :=
  Watch.play crew wardens (List.replicate 5 (.inl ())) returned.2

/-- The deed finds the stop signal not set. -/
def passes : Deed → Bool
  | .answered .isShutDown false => true
  | _ => false

theorem checked_of_played (i : Unit) : Checked ⟨0⟩ (deedsOf (.inl i) (returned.1 ++ later.1)) := by
  have h : (deedsOf (.inl i) (returned.1 ++ later.1)).any passes := by
    cases i
    decide +kernel
  obtain ⟨d, hd, hp⟩ := List.any_eq_true.mp h
  unfold passes at hp
  split at hp
  · exact .inl hd
  · cases hp

/-- The firing is about to run its handler. -/
def invokes (s : Watch Unit Unit) : Bool := s.firing () matches .ask (.isInterrupted _) _

theorem invoking_of_invokes {s : Watch Unit Unit} (hs : invokes s) :
    ∃ h next, s.firing () = .ask (.isInterrupted h) next := by
  unfold invokes at hs
  split at hs
  · next hp => exact ⟨_, _, hp⟩
  · cases hs

end Deactivation

/-- A deactivation takes the leave to run from a firing that has not seen the stop signal,
and the handler begins without it. -/
theorem canRun_of_deactivated_played :
    Deactivation.later.2.world.registered (.node "a") Rehearsal.task.oid = some ⟨0⟩ ∧
      Deactivation.later.2.world.canRun ⟨0⟩ = false ∧
      ∃ h next, Deactivation.later.2.firing () = .ask (.isInterrupted h) next ∧
        Deactivation.later.2.world.canRun h = false := by
  have entry : Deactivation.later.2.world.registered (.node "a") Rehearsal.task.oid
      = some ⟨0⟩ := by
    decide +kernel
  obtain ⟨h, next, invoking⟩ :=
    Deactivation.invoking_of_invokes (by decide +kernel : Deactivation.invokes Deactivation.later.2)
  have run : Run (Watch.Step Deactivation.crew Deactivation.wardens)
      (.begin Deactivation.crew Deactivation.wardens Rehearsal.world) Deactivation.returned.1
      Deactivation.returned.2 :=
    Watch.play_run _ _
  obtain ⟨_, returned⟩ := Program.done_of_isOver
    (by decide +kernel : (Deactivation.returned.2.warden ()).isOver)
  obtain ⟨registered, begins⟩ := canRun_of_deactivated World.sound_rehearsal rfl run returned
    (Watch.play_run _ _ : Run _ _ Deactivation.later.1 Deactivation.later.2)
  exact ⟨entry, registered _ _ entry fun i _ => Deactivation.checked_of_played i, h, next,
    invoking, begins () h next rfl invoking⟩

end TaskFiring
