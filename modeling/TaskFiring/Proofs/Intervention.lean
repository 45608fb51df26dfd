import TaskFiring.Proofs.Hierarchy
import TaskFiring.Proofs.Holding
import TaskFiring.Proofs.Itinerary
import TaskFiring.Proofs.Rehearsal

/-!
Firings among those who stop them. A watch is a world with the programs of any number of
firings and of any number of wardens, each of whom deactivates a place or interrupts the
firing of one task there. To the firings alone a watch is a scene, and what the wardens do
in it comes from outside. Between the two there are the marks on the handles, which
every call leaves as they are or changes in one way, and the registries.
-/

namespace TaskFiring

/-- What a handle tells of its firing, but for the children. -/
structure Marks where
  oid : TaskOid
  canRun : Bool
  interrupted : Bool
  safe : Bool

def Handle.marks (x : Handle) : Marks := ⟨x.oid, x.canRun, x.interrupted, x.safe⟩

/-- What a call makes of the marks of a handle. -/
def Call.mark (h : HandleId) (m : Marks) : Call → Marks
  | .clearCanRun k => if k = h then { m with canRun := false } else m
  | .setSafe k value => if k = h then { m with safe := value } else m
  | .interruptHandler k => if k = h then { m with interrupted := true } else m
  | _ => m

namespace World

def marks? (w : World) (h : HandleId) : Option Marks := (w.handle? h).map Handle.marks

/-- From outside, nobody is registered, no stop signal is set, no handle is made and the
marks stay as they are; children may go on, and tasks may be written. -/
structure LeavesMarks (w w' : World) : Prop where
  sites : w'.sites = w.sites
  marks : ∀ h, w'.marks? h = w.marks? h

section

variable {w w' : World} {place place' : Place} {h k : HandleId} {m : Marks} {oid : TaskOid}

theorem marks?_onHandle {f : Handle → Handle} {g : Marks → Marks}
    (hf : ∀ x, (f x).marks = g x.marks) :
    (w.onHandle k f).marks? h = (w.marks? h).map fun m => if k = h then g m else m := by
  by_cases hk : k = h
  · subst hk
    simp [marks?, handle?, onHandle, Function.comp_def, hf]
  · have hne : k.index ≠ h.index := fun e => hk (congrArg HandleId.mk e)
    simp [marks?, handle?, onHandle, Function.comp_def, hk, hne]

/-- A change of a handle that does not touch its marks. -/
theorem marks?_untouched {f : Handle → Handle} (hf : ∀ x, (f x).marks = x.marks) :
    (w.onHandle k f).marks? h = w.marks? h := by
  rw [marks?_onHandle (g := id) hf]
  simp

theorem marks?_of_handles (hw : w'.handles = w.handles) : w'.marks? h = w.marks? h := by
  simp only [marks?, handle?, hw]

/-- A new handle has its leave to run, and no other mark. -/
theorem marks?_newHandle (w : World) (oid : TaskOid) :
    ({ w with handles := w.handles ++ [{ oid := oid }] } : World).marks? h
      = if h.index = w.handles.length then some ⟨oid, true, false, false⟩ else w.marks? h := by
  simp only [marks?, handle?]
  split
  · next he => simp [he, Handle.marks]
  · next hne =>
    rcases Nat.lt_or_ge h.index w.handles.length with hlt | hge
    · rw [List.getElem?_append_left hlt]
    · rw [List.getElem?_eq_none (by simp; omega), List.getElem?_eq_none hge]

/-- Whatever a handler does leaves all marks. -/
theorem performHandler_marks? {call : HandlerCall} {b : call.Response}
    (hb : w.performHandler k oid call = some (b, w')) : w'.marks? h = w.marks? h := by
  cases call with
  | spawn spec =>
      cases hb
      exact marks?_untouched fun _ => by rfl
  | wait _ | awaitInterrupt =>
      simp only [performHandler, Option.ite_none_right_eq_some, Option.some.injEq,
        Prod.mk.injEq] at hb
      obtain ⟨-, -, rfl⟩ := hb
      rfl
  | disturb d =>
      cases hb
      cases d <;> rfl
  | canRun | identity | write | switchToWaiting =>
      cases hb
      rfl

theorem Answers.marks?_eq {r : Call} {a : r.Response} (ha : w.Answers place r a w')
    (hr : ∀ oid, r ≠ .newHandle oid) : w'.marks? h = (w.marks? h).map fun m => r.mark h m := by
  have same (hw : w'.marks? h = w.marks? h) (hm : ∀ m, r.mark h m = m) :
      w'.marks? h = (w.marks? h).map fun m => r.mark h m := by
    simp [hw, hm]
  cases ha with
  | gathered _ | cut _ => exact same rfl fun _ => rfl
  | performed hp =>
      cases r with
      | collect => cases hp
      | newHandle oid => exact absurd rfl (hr oid)
      | clearCanRun k =>
          cases hp
          exact marks?_onHandle (g := fun m => { m with canRun := false }) fun _ => rfl
      | setSafe k value =>
          cases hp
          exact marks?_onHandle (g := fun m => { m with safe := value }) fun _ => rfl
      | interruptHandler k =>
          cases hp
          exact marks?_onHandle (g := fun m => { m with interrupted := true }) fun _ => rfl
      | cancelChildren k abort | setExecuting k value | spawn k spec =>
          cases hp
          exact same (marks?_untouched fun _ => by rfl) fun _ => rfl
      | register k =>
          exact same (marks?_of_handles (register_handles (Option.some.inj hp))) fun _ => rfl
      | deregister k =>
          exact same (marks?_of_handles (deregister_handles (Option.some.inj hp))) fun _ => rfl
      | handler k oid call =>
          obtain ⟨⟨b, w₁⟩, hb, hp⟩ := Option.map_eq_some_iff.mp hp
          obtain ⟨rfl, rfl⟩ := Prod.mk.inj hp
          exact same (performHandler_marks? hb) fun _ => rfl
      | _ =>
          cases hp
          exact same rfl fun _ => rfl

/-- Marks there are stay, or change as the call has it; new ones are those of a new handle. -/
theorem Answers.marks?_cases {r : Call} {a : r.Response} (ha : w.Answers place r a w') :
    (∀ m, w.marks? h = some m → w'.marks? h = some (r.mark h m)) ∧
      ∀ m', w'.marks? h = some m' → w.marks? h = none →
        m'.safe = false ∧ m'.interrupted = false := by
  by_cases hr : ∀ oid, r ≠ .newHandle oid
  · have eq := ha.marks?_eq (h := h) hr
    refine ⟨fun m hm => by rw [eq, hm]; rfl, fun m' hm' hn => ?_⟩
    rw [eq, hn] at hm'
    cases hm'
  · simp only [not_forall, not_not] at hr
    obtain ⟨oid, rfl⟩ := hr
    cases ha with
    | performed hp =>
        cases hp
        rw [marks?_newHandle]
        constructor
        · intro m hm
          obtain ⟨x, hx, rfl⟩ := Option.map_eq_some_iff.mp hm
          have hlt := (List.getElem?_eq_some_iff.mp hx).1
          rw [if_neg (Nat.ne_of_lt hlt), hm]
          rfl
        · intro m' hm' hn
          split at hm'
          · cases hm'
            exact ⟨rfl, rfl⟩
          · cases hn.symm.trans hm'

theorem Answers.marks? {r : Call} {a : r.Response} (ha : w.Answers place r a w')
    (hm : w.marks? h = some m) : w'.marks? h = some (r.mark h m) :=
  ha.marks?_cases.1 m hm

theorem Gathers.marks? {result result' : OperationResult} {closed closed' : Nat}
    {batch batch' : List Nat}
    (hg : w.Gathers k result closed batch result' closed' batch' w') :
    w'.marks? h = w.marks? h := by
  cases hg with
  | take ht _ =>
      cases ht
      exact marks?_untouched fun _ => by rfl
  | close hc =>
      simp only [closeTaken?, Option.bind_eq_bind, Option.bind_eq_some_iff,
        Option.some.injEq] at hc
      obtain ⟨c, -, r, -, hc⟩ := hc
      cases hc
      exact marks?_untouched fun _ => by rfl

theorem canRun_of_marks? (hm : w.marks? h = some m) : w.canRun h = m.canRun := by
  obtain ⟨x, hx, rfl⟩ := Option.map_eq_some_iff.mp hm
  simp [canRun, hx, Handle.marks]

theorem isInterrupted_of_marks? (hm : w.marks? h = some m) :
    w.isInterrupted h = m.interrupted := by
  obtain ⟨x, hx, rfl⟩ := Option.map_eq_some_iff.mp hm
  simp [isInterrupted, hx, Handle.marks]

theorem owner?_eq (w : World) (h : HandleId) : w.owner? h = (w.marks? h).map Marks.oid := by
  simp only [owner?, marks?, Option.map_map]
  rfl

theorem length_of_marks (hm : ∀ h m, w.marks? h = some m → ∃ m', w'.marks? h = some m') :
    w.handles.length ≤ w'.handles.length := by
  by_contra hlt
  have hlt : w'.handles.length < w.handles.length := by omega
  obtain ⟨m', hm'⟩ := hm ⟨w'.handles.length⟩ (w.handles[w'.handles.length]).marks
    (by simp [marks?, handle?, hlt])
  simp [marks?, handle?] at hm'

/-- An entry is there before, or it is made by that very call. -/
theorem Answers.registered_cases {r : Call} {a : r.Response} (ha : w.Answers place r a w')
    (hr : w'.registered place' oid = some h) :
    w.registered place' oid = some h ∨
      Deed.answered r a = .answered (.register h) true ∧ place' = place ∧
        w.owner? h = some oid := by
  by_cases hd : ∃ k b, Deed.answered r a = .answered (.deregister k) b
  · obtain ⟨k, b, hd⟩ := hd
    cases hd
    left
    cases ho : w.owner? k with
    | none =>
        have hn : w.handle? k = none := by simpa [owner?] using ho
        have hw := ha.deregister
        simp only [World.deregister, hn, Prod.mk.injEq] at hw
        rw [hw.2, hr]
    | some oid => exact (registered_of_deregister ha.deregister ho hr).1
  by_cases hreg : ∃ k, Deed.answered r a = .answered (.register k) true
  · obtain ⟨k, hreg⟩ := hreg
    cases hreg
    obtain ⟨oid', ho⟩ : ∃ oid', w.owner? k = some oid' := by
      have hw := ha.register
      unfold World.register at hw
      split at hw
      · cases hw
      · next x hx => exact ⟨x.oid, by rw [owner?, hx]; rfl⟩
    obtain ⟨-, entry⟩ := register_true ha.register ho
    rw [entry] at hr
    split at hr
    · next hp =>
      obtain ⟨rfl, rfl⟩ := hp
      obtain rfl := Option.some.inj hr
      exact .inr ⟨rfl, rfl, ho⟩
    · exact .inl hr
  · left
    rw [← hr]
    exact ((ha.sameRuns (fun k he => hreg ⟨k, he⟩) fun k b he => hd ⟨k, b, he⟩).registered
      _ _).symm

/-- A stop signal that is set stays set. -/
theorem Answers.shutDown {r : Call} {a : r.Response} (ha : w.Answers place r a w')
    (hs : (w.site place').shutDown) : (w'.site place').shutDown := by
  cases ha with
  | gathered _ | cut _ => exact hs
  | performed hp =>
      cases r with
      | collect => cases hp
      | shutDown =>
          cases hp
          rw [site_onSite]
          split
          · rfl
          · exact hs
      | register k =>
          obtain ⟨_, -, same⟩ := onlyRegisters_register (Option.some.inj hp)
          rwa [same]
      | deregister k =>
          obtain ⟨_, -, same⟩ := onlyRegisters_deregister (Option.some.inj hp)
          rwa [same]
      | handler k oid call =>
          obtain ⟨⟨b, w₁⟩, hb, hp⟩ := Option.map_eq_some_iff.mp hp
          obtain ⟨rfl, rfl⟩ := Prod.mk.inj hp
          simp only [World.site, (performHandler_rest hb).1]
          exact hs
      | _ =>
          cases hp
          exact hs

theorem Answers.shutDown_set {a : Unit} (ha : w.Answers place .shutDown a w') :
    (w'.site place).shutDown := by
  cases ha with
  | performed hp =>
      cases hp
      rw [site_onSite, if_pos rfl]

theorem Answers.isShutDown {b : Bool} (ha : w.Answers place .isShutDown b w') :
    b = (w.site place).shutDown := by
  cases ha with
  | performed hp =>
      cases hp
      rfl

/-- A deactivation finds what is registered. -/
theorem Answers.registeredHandles {hs : List HandleId}
    (ha : w.Answers place .registeredHandles hs w') :
    w' = w ∧ ∀ h, h ∈ hs ↔ ∃ oid, w.registered place oid = some h := by
  cases ha with
  | performed hp =>
      cases hp
      refine ⟨rfl, fun h => ⟨fun hh => ?_, ?_⟩⟩
      · obtain ⟨row, hrow, rfl⟩ := List.mem_map.mp hh
        exact ⟨row.1, Option.map_eq_some_iff.mpr ⟨row, Table.find?_of_mem hrow, rfl⟩⟩
      · rintro ⟨oid, hr⟩
        obtain ⟨row, hrow, rfl⟩ := Option.map_eq_some_iff.mp hr
        exact List.mem_map_of_mem (List.mem_of_find?_eq_some hrow)

end

end World

/-- What a deed makes of the marks of a handle. -/
def Deed.mark (h : HandleId) (m : Marks) : Deed → Marks
  | .answered r _ => r.mark h m
  | .gathered => m

/-- What an event makes of them. -/
def Event.mark {ι : Type} (h : HandleId) (m : Marks) : Event ι → Marks
  | .deed _ d => d.mark h m
  | .outside => m

namespace Program.Turn

variable {α : Type} {place place' : Place} {p p' : Action α} {w w' : World} {d : Deed}
  {h : HandleId} {m : Marks} {oid : TaskOid}

theorem marks? (ht : p.Turn place w d p' w') (hm : w.marks? h = some m) :
    w'.marks? h = some (d.mark h m) := by
  cases ht with
  | answered ha => exact ha.marks? hm
  | gathered hg => exact hg.marks?.trans hm

/-- New marks are those of a new handle. -/
theorem marks?_new (ht : p.Turn place w d p' w') (hm : w'.marks? h = some m)
    (hn : w.marks? h = none) : m.safe = false ∧ m.interrupted = false := by
  cases ht with
  | answered ha => exact ha.marks?_cases.2 m hm hn
  | gathered hg => cases hn.symm.trans (hg.marks?.symm.trans hm)

theorem shutDown (ht : p.Turn place w d p' w') (hs : (w.site place').shutDown) :
    (w'.site place').shutDown := by
  cases ht with
  | answered ha => exact ha.shutDown hs
  | gathered hg =>
      obtain ⟨f, -, rfl⟩ := hg.onHandle
      exact hs

theorem registered_cases (ht : p.Turn place w d p' w')
    (hr : w'.registered place' oid = some h) :
    w.registered place' oid = some h ∨
      d = .answered (.register h) true ∧ place' = place ∧ w.owner? h = some oid := by
  cases ht with
  | answered ha => exact ha.registered_cases hr
  | gathered hg =>
      obtain ⟨f, -, rfl⟩ := hg.onHandle
      exact .inl hr

/-- A program does only what its calls are. -/
theorem only {kind : Call → Prop} (ht : p.Turn place w d p' w') (hk : Call.Steady kind)
    (hp : p.Only kind) : d.Serves kind ∧ p'.Only kind := by
  have way : p.Way ([] ++ [d]) p' := Run.nil.snoc ht.passes
  obtain ⟨serves, only⟩ := hp.along hk way
  exact ⟨serves d (by simp), only⟩

end Program.Turn

/-- Somebody who stops what runs at a place, or the firing of one task there. -/
structure Warden where
  place : Place
  policy : InterruptPolicy
  target : Option TaskOid

def Warden.program (k : Warden) : Action Unit :=
  match k.target with
  | none => (Interruption.deactivate k.policy).bind fun _ => .done ()
  | some oid => (Interruption.interruptTask k.policy oid).bind fun _ => .done ()

/-- A call by which a firing is stopped that was found. -/
def Call.Pursues : Call → Prop
  | .clearCanRun _ | .cancelChildren _ _ | .isSafe _ | .interruptHandler _ => True
  | _ => False

/-- A call by which a warden finds firings or stops them. -/
def Call.Intervenes : Call → Prop
  | .shutDown | .registeredHandles | .registered _ => True
  | r => r.Pursues

theorem Call.intervenes_steady : Call.Steady Call.Intervenes :=
  fun _ _ _ _ _ _ _ h => h.elim

/-- What a warden does changes no entry and no owner. -/
theorem Program.Turn.sameRuns {α : Type} {place : Place} {p p' : Action α} {w w' : World}
    {d : Deed} (ht : p.Turn place w d p' w') (hd : d.Serves Call.Intervenes) :
    w.SameRuns w' := by
  cases ht with
  | gathered _ =>
      obtain ⟨_, _, _, _, h⟩ := hd
      cases h
  | answered ha =>
      refine ha.sameRuns (fun h e => ?_) fun h b e => ?_
      all_goals
        cases e
        cases hd

namespace Interruption

open Program (Only)

theorem interrupt_pursues (policy : InterruptPolicy) (h : HandleId) :
    (interrupt policy h).Only Call.Pursues :=
  Course.interrupt_only trivial (fun _ => trivial) trivial trivial policy

theorem interruptAll_pursues (policy : InterruptPolicy) (hs : List HandleId) :
    (interruptAll policy hs).Only Call.Pursues := by
  induction hs with
  | nil => trivial
  | cons h hs ih => exact Only.bind (interrupt_pursues policy h) fun _ => ih

end Interruption

theorem Call.Pursues.intervenes {r : Call} (h : r.Pursues) : r.Intervenes := by
  cases r with
  | clearCanRun | cancelChildren | isSafe | interruptHandler => trivial
  | _ => cases h

open Program (Only) in
theorem Warden.program_intervenes (k : Warden) : k.program.Only Call.Intervenes := by
  unfold Warden.program
  cases k.target with
  | none =>
      refine Only.bind ?_ fun _ => trivial
      refine Only.bind ⟨trivial, fun _ => trivial⟩ fun _ => ?_
      refine Only.bind ⟨trivial, fun _ => trivial⟩ fun hs => ?_
      refine Only.bind ?_ fun _ => trivial
      exact (Interruption.interruptAll_pursues _ hs).mono fun _ => Call.Pursues.intervenes
  | some oid =>
      refine Only.bind ?_ fun _ => trivial
      refine Only.bind ⟨trivial, fun _ => trivial⟩ fun found => ?_
      cases found with
      | none => trivial
      | some h =>
          refine Only.bind ?_ fun _ => trivial
          exact (Interruption.interrupt_pursues _ h).mono fun _ => Call.Pursues.intervenes

/-- The world, and what is left of the programs of the firings and of the wardens. -/
structure Watch (ι κ : Type) where
  world : World
  firing : ι → Action FiringOutcome
  warden : κ → Action Unit

/-- To the firings what the wardens do comes from outside. -/
def Event.firings {ι κ : Type} : Event (ι ⊕ κ) → Event ι
  | .deed (.inl i) d => .deed i d
  | .deed (.inr _) _ | .outside => .outside

/-- Entries and owners of handles stay, and no handle is taken away. -/
structure World.LeavesRuns (w w' : World) : Prop extends w.SameRuns w' where
  length : w.handles.length ≤ w'.handles.length

/-- Every handle that is registered is there. -/
def World.Sound (w : World) : Prop :=
  ∀ place oid h, w.registered place oid = some h → ∃ m, w.marks? h = some m

namespace Watch

section

variable {ι κ : Type} [DecidableEq ι] [DecidableEq κ] (crew : ι → Occasion)
  (wardens : κ → Warden)

inductive Step : Watch ι κ → Event (ι ⊕ κ) → Watch ι κ → Prop
  | firing {s : Watch ι κ} {i : ι} {d : Deed} {p : Action FiringOutcome} {w : World} :
      (s.firing i).Turn (crew i).place s.world d p w →
      Step s (.deed (.inl i) d) ⟨w, Function.update s.firing i p, s.warden⟩
  | warden {s : Watch ι κ} {k : κ} {d : Deed} {p : Action Unit} {w : World} :
      (s.warden k).Turn (wardens k).place s.world d p w →
      Step s (.deed (.inr k) d) ⟨w, s.firing, Function.update s.warden k p⟩
  | outside {s : Watch ι κ} {w : World} :
      s.world.LeavesMarks w → Step s .outside ⟨w, s.firing, s.warden⟩

/-- Everybody is about to begin. -/
def begin (w : World) : Watch ι κ :=
  ⟨w, fun i => (crew i).program, fun k => (wardens k).program⟩

def scene (s : Watch ι κ) : Scene ι := ⟨s.world, s.firing⟩

variable {crew wardens} {s s' : Watch ι κ} {es : List (Event (ι ⊕ κ))} {e : Event (ι ⊕ κ)}
  {w : World} {i : ι} {k : κ} {h : HandleId} {m : Marks} {place : Place} {oid : TaskOid}

theorem deedsOf_firings (i : ι) (es : List (Event (ι ⊕ κ))) :
    deedsOf i (es.map Event.firings) = deedsOf (.inl i) es := by
  induction es with
  | nil => rfl
  | cons e es ih =>
      cases e with
      | outside => simpa [Event.firings] using ih
      | deed j d =>
          cases j with
          | inr k => simpa [Event.firings] using ih
          | inl j =>
              by_cases hj : j = i
              · subst hj
                simpa [Event.firings] using ih
              · simpa [Event.firings, hj] using ih

theorem Step.marks? (he : s.Step crew wardens e s') (hm : s.world.marks? h = some m) :
    s'.world.marks? h = some (e.mark h m) := by
  cases he with
  | outside hw => exact (hw.marks h).trans hm
  | firing ht | warden ht => exact ht.marks? hm

theorem Step.marks?_new (he : s.Step crew wardens e s') (hm : s'.world.marks? h = some m)
    (hn : s.world.marks? h = none) : m.safe = false ∧ m.interrupted = false := by
  cases he with
  | outside hw => cases hn.symm.trans ((hw.marks h).symm.trans hm)
  | firing ht | warden ht => exact ht.marks?_new hm hn

theorem Step.shutDown (he : s.Step crew wardens e s') (hs : (s.world.site place).shutDown) :
    (s'.world.site place).shutDown := by
  cases he with
  | outside hw =>
      simp only [World.site, hw.sites]
      exact hs
  | firing ht | warden ht => exact ht.shutDown hs

/-- An entry is there before, or it is made by its firing. -/
theorem Step.registered_cases (he : s.Step crew wardens e s')
    (hk : ∀ k, (s.warden k).Only Call.Intervenes)
    (hr : s'.world.registered place oid = some h) :
    s.world.registered place oid = some h ∨
      ∃ i, e = .deed (.inl i) (.answered (.register h) true) ∧ place = (crew i).place ∧
        s.world.owner? h = some oid := by
  cases he with
  | outside hw =>
      simp only [World.registered, World.site, hw.sites] at hr
      exact .inl hr
  | @firing i _ _ _ ht =>
      refine (ht.registered_cases hr).imp_right ?_
      rintro ⟨rfl, hp, ho⟩
      exact ⟨i, rfl, hp, ho⟩
  | @warden k _ _ _ ht =>
      refine .inl ((ht.registered_cases hr).resolve_right ?_)
      rintro ⟨rfl, -, -⟩
      exact (ht.only Call.intervenes_steady (hk k)).1

end

section

variable {ι κ : Type} [DecidableEq ι] [DecidableEq κ] {crew : ι → Occasion}
  {wardens : κ → Warden} {s s' : Watch ι κ} {es es' : List (Event (ι ⊕ κ))}
  {e : Event (ι ⊕ κ)} {w : World} {i j : ι} {k : κ} {h : HandleId}

/-- Of a run the firings see a run of their own. -/
theorem run_scene (hr : Run (Step crew wardens) (begin crew wardens w) es s) :
    Run (Scene.Step crew World.LeavesRuns) (.begin crew w) (es.map Event.firings) s.scene ∧
      ∀ k, (s.warden k).Only Call.Intervenes := by
  induction hr with
  | nil => exact ⟨.nil, fun k => (wardens k).program_intervenes⟩
  | @snoc s₁ s₂ es e _ he ih =>
      obtain ⟨run, only⟩ := ih
      have length : s₁.world.handles.length ≤ s₂.world.handles.length :=
        World.length_of_marks fun h m hm => ⟨_, he.marks? hm⟩
      rw [List.map_append]
      cases he with
      | firing ht => exact ⟨run.snoc (.deed ht), only⟩
      | outside hw =>
          refine ⟨run.snoc (.outside ⟨⟨fun _ _ => ?_, fun h oid ho => ?_⟩, length⟩), only⟩
          · simp only [World.registered, World.site, hw.sites]
            rfl
          · rw [World.owner?_eq] at ho ⊢
            obtain ⟨m, hm, rfl⟩ := Option.map_eq_some_iff.mp ho
            exact Option.map_eq_some_iff.mpr ⟨m, (hw.marks h).trans hm, rfl⟩
      | @warden k d p w' ht =>
          obtain ⟨serves, hp⟩ := ht.only Call.intervenes_steady (only k)
          refine ⟨run.snoc (.outside ⟨ht.sameRuns serves, length⟩), fun k' => ?_⟩
          by_cases hk' : k' = k
          · subst hk'
            simpa using hp
          · simpa [hk'] using only k'

theorem marks_stay {m : Marks} (hr : Run (Step crew wardens) s es s')
    (hm : s.world.marks? h = some m) : ∃ m', s'.world.marks? h = some m' := by
  induction hr with
  | nil => exact ⟨m, hm⟩
  | snoc _ he ih =>
      obtain ⟨m', hm'⟩ := ih
      exact ⟨_, he.marks? hm'⟩

/-- In a run, each warden goes its way. -/
theorem warden_way (hr : Run (Step crew wardens) (begin crew wardens w) es s) (k : κ) :
    (wardens k).program.Way (deedsOf (.inr k) es) (s.warden k) := by
  induction hr with
  | nil => exact .nil
  | snoc _ he ih =>
      rw [deedsOf_append]
      cases he with
      | outside _ | firing _ => simpa using ih
      | @warden j _ _ _ ht =>
          by_cases hj : j = k
          · subst hj
            simpa using ih.snoc ht.passes
          · simpa [hj, Ne.symm hj] using ih

theorem path_of_run (hr : Run (Step crew wardens) (begin crew wardens w) es s) (i : ι) :
    ∃ l, Itinerary.Path (crew i) (deedsOf (.inl i) es) l ∧
      Itinerary.Runs (crew i) (s.firing i) l fun l r => l.Allows (crew i).oid r := by
  rw [← deedsOf_firings]
  exact Itinerary.path_of_run (run_scene hr).1 i

/-- Each deed of a firing leads it on. -/
theorem passes_of_step {d : Deed} (hr : Run (Step crew wardens) (begin crew wardens w) es s)
    (he : s.Step crew wardens (.deed (.inl i) d) s') :
    ∃ l l', Itinerary.Path (crew i) (deedsOf (.inl i) es) l ∧
      Itinerary.Passes (crew i) l d l' := by
  obtain ⟨l', path, -⟩ := path_of_run (hr.snoc he) i
  rw [deedsOf_snoc] at path
  obtain ⟨l, path, step⟩ := path.last
  exact ⟨l, l', path, step⟩

/-- Each firing keeps to its own handle. -/
theorem custody_of_run (hr : Run (Step crew wardens) (begin crew wardens w) es s) :
    Custody.Inv s.scene (es.map Event.firings) :=
  Custody.inv_of_run (fun _ _ hw => hw.length) (run_scene hr).1

theorem eq_of_handleOf (hr : Run (Step crew wardens) (begin crew wardens w) es s)
    (hi : Custody.handleOf (deedsOf (.inl i) es) = some h)
    (hj : Custody.handleOf (deedsOf (.inl j) es) = some h) : i = j := by
  rw [← deedsOf_firings] at hi hj
  exact (custody_of_run hr).apart i j h hi hj

/-- A firing that goes on to its handler is registered. -/
theorem registered_of_invoking {next : Bool → Action FiringOutcome}
    (hr : Run (Step crew wardens) (begin crew wardens w) es s)
    (hi : s.firing i = .ask (.isInterrupted h) next) :
    s.world.registered (crew i).place (crew i).oid = some h := by
  obtain ⟨st, run, shown⟩ := Scene.run_shown
    (Scene.begin_shown (fun i => (crew i).node.keepsTo_true) w) (run_scene hr).1
  have inv : Registration.Inv crew st :=
    (Registration.inv_begin w).run
      (fun _ _ hw => ⟨fun _ => hw.registered _ _, hw.owner⟩) run
  have course := shown.course i
  rw [show s.scene.program i = _ from hi] at course
  obtain ⟨_, hm, -⟩ := course true trivial
  have world : st.world = s.world := shown.world
  generalize hq : st.phase i = q at hm
  cases hm with
  | aside hr => cases hr
  | invoke =>
      rw [← world]
      exact inv.entry i h (by rw [hq]; rfl) (by rw [hq]; trivial)

/-- A handle that a firing has now and had not before is a new one. -/
theorem made_of_step (hr : Run (Step crew wardens) (begin crew wardens w) es s)
    (he : s.Step crew wardens e s')
    (hh : Custody.handleOf (deedsOf (.inl i) (es ++ [e])) = some h) :
    Custody.handleOf (deedsOf (.inl i) es) = some h ∨
      s.world.marks? h = none ∧ (∃ oid, e = .deed (.inl i) (.answered (.newHandle oid) h)) ∧
        ∃ m, s'.world.marks? h = some m := by
  cases he with
  | outside _ | warden _ => exact .inl (by simpa using hh)
  | @firing j d _ w' ht =>
      by_cases hj : j = i
      · subst hj
        rw [deedsOf_snoc, Custody.handleOf_snoc] at hh
        refine (Option.or_eq_some_iff.mp hh).imp_right ?_
        rintro ⟨-, hmade⟩
        have course := (custody_of_run hr).course j
        obtain ⟨-, -, fresh⟩ := Custody.turn course ht
        obtain ⟨-, index, lt⟩ := fresh h hmade
        refine ⟨by simp [World.marks?, World.handle?, index], ?_, ?_⟩
        · unfold Custody.made? at hmade
          split at hmade
          · next oid _ =>
            cases hmade
            exact ⟨oid, rfl⟩
          · cases hmade
        · exact ⟨w'.handles[h.index].marks, by simp [World.marks?, World.handle?, lt]⟩
      · exact .inl (by simpa [hj] using hh)

/-- The handle of a firing is none of those at the beginning, and it is there. -/
theorem marks_of_handleOf (hr : Run (Step crew wardens) (begin crew wardens w) es s)
    (hh : Custody.handleOf (deedsOf (.inl i) es) = some h) :
    w.marks? h = none ∧ ∃ m, s.world.marks? h = some m := by
  induction hr with
  | nil => cases hh
  | @snoc s₁ s₂ es e hr he ih =>
      rcases made_of_step hr he hh with hh | ⟨hn, -, hm⟩
      · obtain ⟨hw, m, hm⟩ := ih hh
        exact ⟨hw, _, he.marks? hm⟩
      · refine ⟨?_, hm⟩
        cases hw : w.marks? h with
        | none => rfl
        | some m =>
            obtain ⟨m', hm'⟩ := marks_stay hr hw
            cases hn.symm.trans hm'

theorem sound_of_run (hr : Run (Step crew wardens) (begin crew wardens w) es s)
    (hw : w.Sound) : s.world.Sound := by
  induction hr with
  | nil => exact hw
  | snoc hr he ih =>
      intro place oid h hreg
      rcases he.registered_cases (run_scene hr).2 hreg with hreg | ⟨-, -, -, ho⟩
      · obtain ⟨m, hm⟩ := ih place oid h hreg
        exact ⟨_, he.marks? hm⟩
      · rw [World.owner?_eq] at ho
        obtain ⟨m, hm, -⟩ := Option.map_eq_some_iff.mp ho
        exact ⟨_, he.marks? hm⟩

end

/-! Runs by cue: the one who is called goes on by one answer, if there is one at once. -/

section

variable {ι κ : Type} [DecidableEq ι] [DecidableEq κ] (crew : ι → Occasion)
  (wardens : κ → Warden)

def cue? (s : Watch ι κ) : ι ⊕ κ → Option (Event (ι ⊕ κ) × Watch ι κ)
  | .inl i => ((s.firing i).go? (crew i).place s.world).map fun (d, p, w) =>
      (.deed (.inl i) d, ⟨w, Function.update s.firing i p, s.warden⟩)
  | .inr k => ((s.warden k).go? (wardens k).place s.world).map fun (d, p, w) =>
      (.deed (.inr k) d, ⟨w, s.firing, Function.update s.warden k p⟩)

abbrev play : List (ι ⊕ κ) → Watch ι κ → List (Event (ι ⊕ κ)) × Watch ι κ :=
  rehearse (cue? crew wardens)

variable {crew wardens}

theorem cue?_step {s s' : Watch ι κ} {q : ι ⊕ κ} {e : Event (ι ⊕ κ)}
    (h : s.cue? crew wardens q = some (e, s')) : s.Step crew wardens e s' := by
  cases q with
  | inl i =>
      obtain ⟨⟨d, p, w⟩, hg, h⟩ := Option.map_eq_some_iff.mp h
      cases h
      exact .firing (Program.turn_of_go? hg)
  | inr k =>
      obtain ⟨⟨d, p, w⟩, hg, h⟩ := Option.map_eq_some_iff.mp h
      cases h
      exact .warden (Program.turn_of_go? hg)

theorem play_run (qs : List (ι ⊕ κ)) (s : Watch ι κ) :
    Run (Step crew wardens) s (play crew wardens qs s).1 (play crew wardens qs s).2 :=
  run_rehearse qs s fun _ _ _ _ _ => cue?_step

end

end Watch

/-- Where nothing is registered, all that is registered is there. -/
theorem World.sound_rehearsal : Rehearsal.world.Sound := by
  intro place oid h hr
  simp [Rehearsal.world, registered, site] at hr

end TaskFiring
