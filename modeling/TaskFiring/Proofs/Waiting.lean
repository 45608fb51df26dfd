import TaskFiring.Proofs.Assignment
import TaskFiring.Proofs.Copies
import TaskFiring.Proofs.Holding
import TaskFiring.Proofs.Rehearsal
import TaskFiring.Proofs.Solo

/-!
Handlers that wait. A handler may put its task into waiting and go on. While it does, the
record does not say that the task runs, and what keeps another firing from invoking a
handler as well is the scheduling state alone: it happens on other nodes, and there
exactly once the task has been made ready.
-/

namespace TaskFiring

/-- A call of a handler that writes no record, unless it puts its own task into waiting. -/
def HandlerCall.LeavesRecords : HandlerCall → Prop
  | .disturb (.write _ _) | .disturb (.remove _) => False
  | _ => True

/-- The handler of the firing has put its task into waiting. -/
def Event.Waits {ι : Type} (i : ι) (e : Event ι) : Prop :=
  ∃ h oid t, e = .deed i (.answered (.handler h oid .switchToWaiting) (some (.ok t)))

/-- The firing goes on to its handler. -/
def Event.Invokes {ι : Type} (i : ι) (e : Event ι) : Prop :=
  ∃ h, e = .deed i (.answered (.isInterrupted h) false)

/-- The handler of the firing has not returned: one of its calls is not answered yet. -/
def Scene.InHandler {ι : Type} (c : Scene ι) (i : ι) : Prop :=
  ∃ h oid call next, c.program i = .ask (.handler h oid call) next

theorem Scene.inHandler_of_program {ι : Type} {c : Scene ι} {i : ι}
    (h : (c.program i matches .ask (.handler _ _ _) _)) : c.InHandler i := by
  split at h
  · next hp => exact ⟨_, _, _, _, hp⟩
  · cases h

section

variable {ι : Type} (crew : ι → Occasion)

/-- From outside, scheduling states are changed, with versions that do not wrap, and the
entries and handles of the firings are left alone. -/
structure AdministersFor (w w' : World) : Prop where
  records : w.Administers w'
  advances : ∀ oid, w.Advances oid w'
  runs : Registration.Spared crew w w'

/-- Between two points of a run the task of a firing is ready. -/
def ReadyAmid [DecidableEq ι] (i : ι) (c : Scene ι) (es : List (Event ι)) (c' : Scene ι) :
    Prop :=
  ∃ es₁ es₂ c₁ t, es = es₁ ++ es₂ ∧ Run (Scene.Step crew (AdministersFor crew)) c es₁ c₁ ∧
    Run (Scene.Step crew (AdministersFor crew)) c₁ es₂ c' ∧
    c₁.world.store.find? (crew i).oid = some t ∧ t.isReady

end

namespace Waiting

section

variable {ι : Type} [DecidableEq ι] {crew : ι → Occasion} {s s' : Stage ι} {e : Event ι}
  {es : List (Event ι)} {w w' : World} {i j : ι}

omit [DecidableEq ι] in
theorem advances_of_handler {place : Place} {h : HandleId} {oid : TaskOid}
    {call : HandlerCall} {a : Option call.Response}
    (ha : w.Answers place (.handler h oid call) a w') (hc : call.LeavesRecords)
    (hv : ∀ t, Deed.written? (.answered (.handler h oid call) a) = some t → t.version ≠ 0)
    (oid' : TaskOid) : w.Advances oid' w' := by
  rcases ha.handler_cases with hw | ⟨b, hb, -, hm⟩ | ⟨d, rfl, rfl⟩
  · exact World.advances_of_find? (by rw [hw.store])
  · refine World.advances_of_modify (d := World.waitingDelta) (by rw [hm]) (fun t ht => ?_) oid'
    rw [hm] at ht
    exact hv t (by rw [hb, show b = .ok t from ht]; rfl)
  · cases d with
    | write _ _ | remove _ => cases hc
    | _ => exact World.advances_of_find? rfl

theorem advances_of_step
    (he : s.Step crew HandlerCall.LeavesRecords (AdministersFor crew) e s')
    (hv : ∀ t, e.written? = some t → t.version ≠ 0) (oid : TaskOid) :
    s.world.Advances oid s'.world :=
  Copies.advances_of_step (fun _ _ hw => hw.advances oid)
    (fun _ _ _ _ _ ha hcall hv => advances_of_handler ha hcall hv oid) he hv

/-- What holds in a run of the entries and of the copies of the firings. -/
structure Inv (crew : ι → Occasion) (s : Stage ι) : Prop where
  runs : Registration.Inv crew s
  copies : Copies.Inv crew s

theorem Inv.run (hi : Inv crew s)
    (hr : Run (Stage.Step crew HandlerCall.LeavesRecords (AdministersFor crew)) s es s')
    (hv : NoWrap es) : Inv crew s' := by
  induction hr with
  | nil => exact hi
  | snoc _ he ih =>
      obtain ⟨hruns, hcopies⟩ := ih fun e he => hv e (List.mem_append_left _ he)
      exact ⟨hruns.step (fun _ _ h => h.runs) he,
        hcopies.step (fun i => advances_of_step he (hv _ (by simp)) _) he⟩

omit [DecidableEq ι] in
theorem inv_begin (w : World) : Inv crew (Stage.begin w) :=
  ⟨Registration.inv_begin w, Copies.inv_begin w⟩

/-- A firing takes its task when the record is ready. -/
theorem ready_of_takes {allowed : HandlerCall → Prop} {outside : World → World → Prop}
    (hi : Copies.Inv crew s) (he : s.Step crew allowed outside e s') (ht : e.Takes (crew i) i) :
    ∃ t, s.world.store.find? (crew i).oid = some t ∧ t.isReady := by
  obtain ⟨t, r, h, p, hq, hf, hv, -, -⟩ := Stage.registered_of_takes he ht
  have hcopy : (s.phase i).copy? = some t := by rw [hq]; rfl
  obtain rfl : r = t := Copies.eq_of_violation? (hi.precedes i t r hcopy hf) hv
  exact ⟨r, hf, hi.ready i r hcopy (by rw [hq]; trivial)⟩

/-- If a firing takes the task in a run, the task is ready then. -/
theorem Inv.readyAmid {c c' : Scene ι} {i j : ι} (hi : Inv crew s)
    (hc : c.ShownBy crew HandlerCall.LeavesRecords s)
    (hr : Run (Scene.Step crew (AdministersFor crew)) c es c') (hv : NoWrap es)
    (ho : (crew j).oid = (crew i).oid) (ht : ∃ e ∈ es, e.Takes (crew j) j) :
    ReadyAmid crew i c es c' := by
  obtain ⟨e, he, ht⟩ := ht
  obtain ⟨before, after, rfl⟩ := List.append_of_mem he
  obtain ⟨c₁, h₁, h₂⟩ := hr.split
  obtain ⟨s₁, hs₁, hc₁⟩ := Scene.run_shown hc h₁
  have hi₁ := hi.run hs₁ fun e he => hv e (List.mem_append_left _ he)
  obtain ⟨c₂, hstep, -⟩ := h₂.first
  obtain ⟨s₂, hstep, -⟩ := Scene.step_shown hc₁ hstep
  obtain ⟨t, hf, hready⟩ := ready_of_takes hi₁.copies hstep ht
  exact ⟨before, e :: after, c₁, t, rfl, h₁, h₂, by rw [← hc₁.world, ← ho, hf], hready⟩

section

variable {allowed : HandlerCall → Prop} {outside : World → World → Prop}

omit [DecidableEq ι] in
theorem holds_of_inHandler {c : Scene ι} (hs : c.ShownBy crew allowed s)
    (hc : c.InHandler i) : (s.phase i).Holds := by
  obtain ⟨h, oid, call, next, hp⟩ := hc
  have hf := hs.course i
  rw [hp] at hf
  obtain ⟨p, hm, -⟩ := hf none trivial
  exact (Phase.holds_of_handler hm).1

theorem holds_of_invokes (he : s.Step crew allowed outside e s') (hi : e.Invokes i) :
    (s.phase i).Holds := by
  obtain ⟨h, rfl⟩ := hi
  cases he with
  | answered _ hm => exact (Phase.holds_of_invoke hm).1

theorem holds_of_waits (he : s.Step crew allowed outside e s') (hi : e.Waits i) :
    (s.phase i).Holds ∧ (s'.phase i).Holds := by
  obtain ⟨h, oid, t, rfl⟩ := hi
  cases he with
  | answered _ hm => simpa using Phase.holds_of_handler hm

/-- A firing whose handler has put the task into waiting holds it, or has done so. -/
theorem holds_or_left_of_waits (hr : Run (Stage.Step crew allowed outside) s es s')
    (hw : ∃ e ∈ es, e.Waits i) : (s'.phase i).Holds ∨ (s'.phase i).Left := by
  obtain ⟨e, he, hw⟩ := hw
  obtain ⟨before, after, rfl⟩ := List.append_of_mem he
  rw [List.append_cons] at hr
  obtain ⟨s₁, h₁, h₂⟩ := hr.split
  obtain ⟨_, -, hstep⟩ := h₁.last
  exact Stage.holds_or_left_of_run h₂ (holds_of_waits hstep hw).2

/-- Whoever holds its task in the end and had taken it before has held it all the time. -/
theorem holds_of_run (hr : Run (Stage.Step crew allowed outside) s es s')
    (hq : (s.phase i).Holds ∨ (s.phase i).Left) (hh : (s'.phase i).Holds) :
    (s.phase i).Holds :=
  hq.resolve_right fun hl => (Stage.left_of_run hr hl).not_holds hh

/-- A firing that gets to its handler when it runs alone can do so now. -/
theorem run_invokes {c : Scene ι} (h : Solo.Invokes (crew j).place (c.program j) c.world)
    (hij : i ≠ j) :
    ∃ es c', Run (Scene.Step crew outside) c es c' ∧ (∃ e ∈ es, e.Invokes j) ∧
      c'.program i = c.program i := by
  obtain ⟨k, next, w', ⟨ds, hr⟩, hk⟩ := h
  let e : Event ι := .deed j (.answered (.isInterrupted k) false)
  let c₁ : Scene ι := ⟨w', Function.update c.program j (.ask (.isInterrupted k) next)⟩
  have hstep : c₁.Step crew outside e ⟨w', Function.update c₁.program j (next false)⟩ := by
    refine .deed ?_
    simp only [c₁, Function.update_self]
    exact .answered (.performed (by rw [World.perform, hk]))
  refine ⟨ds.map (.deed j) ++ [e], _, .snoc (Solo.run_of_alone hr) hstep, ⟨e, by simp, k, rfl⟩, ?_⟩
  simp [c₁, hij]

end

end

end Waiting

/-- While a handler goes on that has put its task into waiting, no other handler of the
task begins at its place. One begins elsewhere only if its firing had taken the task
before, or the task was ready meanwhile; and if nothing else is in its way, it does. -/
theorem invokes_while_waiting {ι : Type} [DecidableEq ι] {crew : ι → Occasion} {w : World}
    {c₁ c₂ : Scene ι} {es₁ es₂ : List (Event ι)} {i : ι}
    (hk : ∀ i, (crew i).node.KeepsTo HandlerCall.LeavesRecords)
    (h₁ : Run (Scene.Step crew (AdministersFor crew)) (Scene.begin crew w) es₁ c₁)
    (h₂ : Run (Scene.Step crew (AdministersFor crew)) c₁ es₂ c₂)
    (hv : NoWrap (es₁ ++ es₂)) (hw : ∃ e ∈ es₁, e.Waits i) (hi : c₂.InHandler i) :
    (∀ j e, j ≠ i → (crew j).oid = (crew i).oid → e ∈ es₂ → e.Invokes j →
      (crew j).place ≠ (crew i).place ∧
        ((∃ e ∈ es₁, e.Takes (crew j) j) ∨ ReadyAmid crew i c₁ es₂ c₂)) ∧
    ∀ j t, j ≠ i → (crew j).recovering = false → c₂.program j = (crew j).program →
      Solo.Open (crew j) c₂.world t →
      ∃ es₃ c₃, Run (Scene.Step crew (AdministersFor crew)) c₂ es₃ c₃ ∧
        (∃ e ∈ es₃, e.Invokes j) ∧ c₃.InHandler i := by
  constructor
  · intro j e hji ho he hinv
    obtain ⟨before, after, rfl⟩ := List.append_of_mem he
    obtain ⟨s₁, hs₁, hc₁⟩ := Scene.run_shown (Scene.begin_shown hk w) h₁
    obtain ⟨s₂, hs₂, hc₂⟩ := Scene.run_shown hc₁ h₂
    obtain ⟨s, hbefore, hrest⟩ := hs₂.split
    obtain ⟨_, hstep, -⟩ := hrest.first
    have hv₁ : NoWrap es₁ := fun e he => hv e (List.mem_append_left _ he)
    have hv₂ : NoWrap (before ++ e :: after) := fun e he => hv e (List.mem_append_right _ he)
    have inv₁ := (Waiting.inv_begin w).run hs₁ hv₁
    have inv := inv₁.run hbefore fun e he => hv₂ e (List.mem_append_left _ he)
    -- both firings hold the task when the second one goes on to its handler
    have hj : (s.phase j).Holds := Waiting.holds_of_invokes hstep hinv
    have hi : (s.phase i).Holds := by
      have hi₁ := Waiting.holds_of_run hs₂ (Waiting.holds_or_left_of_waits hs₁ hw)
        (Waiting.holds_of_inHandler hc₂ hi)
      exact Waiting.holds_of_run hrest (Stage.holds_or_left_of_run hbefore hi₁)
        (Waiting.holds_of_inHandler hc₂ hi)
    refine ⟨fun hp => hji (inv.runs.alone j i hj.entered hi.entered hp ho), ?_⟩
    obtain ⟨e', he', ht⟩ := Stage.takes_of_holds (hs₁.append hbefore) hj
    rcases List.mem_append.mp he' with he' | he'
    · exact .inl ⟨e', he', ht⟩
    · exact .inr (inv₁.readyAmid hc₁ h₂ hv₂ ho ⟨e', List.mem_append_left _ he', ht⟩)
  · intro j t hji hrec hp hopen
    have hinv := Solo.fire_invokes hopen hrec
    rw [← hp] at hinv
    obtain ⟨es₃, c₃, hr, hinv, hsame⟩ := Waiting.run_invokes hinv hji.symm
    obtain ⟨h, oid, call, next, hi⟩ := hi
    exact ⟨es₃, c₃, hr, hinv, h, oid, call, next, hsame.trans hi⟩

namespace Waiting

/-- Two firings, of which the first puts its task into waiting and goes on. -/
abbrev crew : Bool → Occasion :=
  Rehearsal.pair
    (.ask .switchToWaiting fun _ => .ask (.wait ⟨"gate", true⟩) fun _ => .done (.ok .interrupted))
    (.done (.ok .interrupted))

/-- The handler of the first firing waits. -/
abbrev waiting : List (Event Bool) × Scene Bool :=
  Scene.play crew (List.replicate 14 (.go true)) (.begin crew Rehearsal.world)

/-- Then the task is made ready. -/
abbrev woken : Scene Bool :=
  ⟨Rehearsal.reschedule .ready waiting.2.world, waiting.2.program⟩

/-- Then the second firing goes on to its handler. -/
abbrev played : List (Event Bool) × Scene Bool :=
  Scene.play crew (List.replicate 14 (.go false)) woken

theorem crew_keepsTo (i : Bool) : (crew i).node.KeepsTo HandlerCall.LeavesRecords := by
  apply Rehearsal.pair_keepsTo
  · exact ⟨trivial, fun _ => ⟨trivial, fun _ => trivial⟩⟩
  · trivial

theorem waiting_run :
    Run (Scene.Step crew (AdministersFor crew)) (.begin crew Rehearsal.world) waiting.1
      waiting.2 :=
  Scene.play_run _ _ fun f hf => by simp at hf

theorem woken_administered : AdministersFor crew waiting.2.world woken.world where
  records := World.administers_reschedule _ _
  advances := by
    have hs : woken.world.store = (waiting.2.world.store.modify Rehearsal.task.oid
        { scheduling := some .ready } .always).2 := rfl
    refine World.advances_of_modify hs fun t ht => ?_
    have h : (waiting.2.world.store.modify Rehearsal.task.oid { scheduling := some .ready }
        .always).1.toOption.all (·.version ≠ 0) := by decide +kernel
    simpa [ht, Except.toOption] using h
  runs := ⟨fun _ => rfl, fun _ _ => id⟩

theorem woken_run :
    Run (Scene.Step crew (AdministersFor crew)) waiting.2 [.outside] woken :=
  .snoc .nil (.outside woken_administered)

theorem played_run :
    Run (Scene.Step crew (AdministersFor crew)) waiting.2 (.outside :: played.1) played.2 :=
  woken_run.append (Scene.play_run _ _ fun f hf => by simp at hf)

/-- Whether the first firing puts its task into waiting in an event. -/
def waits : Event Bool → Bool
  | .deed i (.answered (.handler _ _ .switchToWaiting) (some (.ok _))) => i
  | _ => false

/-- Whether the second firing may go on to its handler in an event. -/
def invokes : Event Bool → Bool
  | .deed i (.answered (.isInterrupted _) b) => !i && !b
  | _ => false

theorem waits_of_waiting : ∃ e ∈ waiting.1, e.Waits true := by
  have h : waiting.1.any waits := by decide +kernel
  obtain ⟨e, he, hw⟩ := List.any_eq_true.mp h
  unfold waits at hw
  split at hw
  · cases hw
    exact ⟨_, he, _, _, _, rfl⟩
  · cases hw

theorem invokes_of_played : ∃ e ∈ .outside :: played.1, e.Invokes false := by
  have h : played.1.any invokes := by decide +kernel
  obtain ⟨e, he, hw⟩ := List.any_eq_true.mp h
  unfold invokes at hw
  split at hw
  · next i _ b =>
    cases i <;> cases b <;> cases hw
    exact ⟨_, List.mem_cons_of_mem _ he, _, rfl⟩
  · cases hw

theorem inHandler_woken : woken.InHandler true :=
  Scene.inHandler_of_program (by decide +kernel)

theorem inHandler_played : played.2.InHandler true :=
  Scene.inHandler_of_program (by decide +kernel)

end Waiting

/-- A handler begins while another one of the task waits, though all keep to the rules. -/
theorem invokes_beside_waiting :
    ∃ (crew : Bool → Occasion) (c₁ c₂ : Scene Bool) (es₁ es₂ : List (Event Bool)),
      (∀ i, (crew i).recovering = false ∧ (crew i).node.config.checkConcurrent) ∧
      (∀ i, (crew i).node.KeepsTo HandlerCall.LeavesRecords) ∧
      (∀ i, (crew i).oid = Rehearsal.task.oid) ∧
      Run (Scene.Step crew (AdministersFor crew)) (.begin crew Rehearsal.world) es₁ c₁ ∧
      Run (Scene.Step crew (AdministersFor crew)) c₁ es₂ c₂ ∧
      (∃ e ∈ es₁, e.Waits true) ∧ c₂.InHandler true ∧ ∃ e ∈ es₂, e.Invokes false :=
  ⟨Waiting.crew, _, _, _, _, by decide, Waiting.crew_keepsTo, by decide, Waiting.waiting_run,
    Waiting.played_run, Waiting.waits_of_waiting, Waiting.inHandler_played,
    Waiting.invokes_of_played⟩

namespace Waiting

theorem open_woken : ∃ t, Solo.Open (crew false) woken.world t := by
  have h : (woken.world.store.find? Rehearsal.task.oid).any fun t =>
      t.isReady ∧ t.execution ≠ .running ∧ t.parent.isNone ∧ t.constraints.isNone ∧
        t.handlerRef = "h" := by decide +kernel
  obtain ⟨t, record, h⟩ := (Option.any_eq_true _ _).mp h
  obtain ⟨ready, idle, parent, constraints, href⟩ := of_decide_eq_true h
  exact ⟨t, {
    available := by decide +kernel
    record
    ready
    idle
    parent := Option.isNone_iff_eq_none.mp parent
    constraints := Option.isNone_iff_eq_none.mp constraints
    handler := by
      rw [href]
      exact ⟨_, rfl⟩
    scheduler := by decide +kernel
    vacant := by decide +kernel
    awake := by decide +kernel }⟩

/-- There the task was ready meanwhile, and from then on nothing is in the way of the
second firing. -/
theorem invokes_after_woken :
    ReadyAmid crew true waiting.2 (.outside :: played.1) played.2 ∧
      ∃ es c, Run (Scene.Step crew (AdministersFor crew)) woken es c ∧
        (∃ e ∈ es, e.Invokes false) ∧ c.InHandler true := by
  have hv : NoWrap (waiting.1 ++ .outside :: played.1) := noWrap_of_all (by decide +kernel)
  constructor
  · obtain ⟨e, he, hinv⟩ := invokes_of_played
    rcases ((invokes_while_waiting crew_keepsTo waiting_run played_run hv waits_of_waiting
      inHandler_played).1 false e (by decide) rfl he hinv).2 with ⟨e, he, v, t, rfl⟩ | h
    · have h : waiting.1.all (fun | .deed i _ => i | .outside => true) := by decide +kernel
      cases List.all_eq_true.mp h _ he
    · exact h
  · have hv : NoWrap (waiting.1 ++ [.outside]) := fun e he =>
      hv e (List.Sublist.subset (by simp) he)
    have hp : woken.program false = (crew false).program :=
      Scene.program_play fun h => by simp at h
    obtain ⟨t, ht⟩ := open_woken
    exact (invokes_while_waiting crew_keepsTo waiting_run woken_run hv waits_of_waiting
      inHandler_woken).2 false t (by decide) rfl hp ht

end Waiting

end TaskFiring
