import Mathlib.Logic.Relation
import TaskFiring.Proofs.Ledger
import TaskFiring.Proofs.Pairing

/-!
What a firing sees of the world: its own record, the trigger events and the fire time of its
task, whether the task is registered at its place, and its children with the ends that they
come to. Calls of other firings change none of that, nor do children that go on; and what a
call of the firing is answered, and how it changes what the firing sees, depends on that alone.
-/

namespace TaskFiring

/-! One task in the store. -/

namespace Store

variable {s s' : Store} {oid o : TaskOid} {g : String}

/-- What a write is answered and leaves depends on what there was under its key. -/
theorem modify_congr (ha : s'.available = s.available) (hf : s'.find? oid = s.find? oid)
    (d : TaskDelta) (p : Precondition) :
    (s'.modify oid d p).1 = (s.modify oid d p).1 ∧
      (s'.modify oid d p).2.find? oid = (s.modify oid d p).2.find? oid := by
  unfold modify
  rw [ha, hf]
  split
  · cases hs : s.find? oid with
    | none => exact ⟨rfl, hf⟩
    | some t =>
        dsimp only
        split
        · exact ⟨rfl, hf⟩
        · refine ⟨rfl, ?_⟩
          simp only [find?, Table.find?_put]
          split
          · rfl
          · exact hf
  · exact ⟨rfl, hf⟩

theorem find?_modify_ne (ho : o ≠ oid) (d : TaskDelta) (p : Precondition) :
    (s.modify oid d p).2.find? o = s.find? o := by
  rcases s.modify_cases oid d p with ⟨e, hm⟩ | ⟨t, s₁, hm, -, -, -, hf⟩
  · rw [hm]
  · rw [hm, hf, if_neg (Ne.symm ho)]

theorem available_modify (s : Store) (oid : TaskOid) (d : TaskDelta) (p : Precondition) :
    (s.modify oid d p).2.available = s.available := by
  rcases s.modify_cases oid d p with ⟨e, hm⟩ | ⟨t, s₁, hm, -, -, ha, -⟩
  · rw [hm]
  · rw [hm, ha]

theorem get_congr (ha : s'.available = s.available) (hf : s'.find? oid = s.find? oid) :
    s'.get oid = s.get oid := by
  unfold get
  rw [ha, hf]

theorem SameForest.symm (h : s.SameForest s') : s'.SameForest s := fun oid => (h oid).symm

/-- Where a task is in the hierarchy can be read in both. -/
theorem SameForest.get (h : s.SameForest s') (ha : s'.available = s.available) (o : TaskOid) :
    (s'.get o).map Task.position = (s.get o).map Task.position := by
  unfold Store.get
  rw [ha]
  split
  · cases ht : s'.find? o with
    | none =>
        rw [h.find?_eq_none ht]
    | some t' =>
        obtain ⟨t, ht', hp, hc⟩ := h.find? ht
        rw [ht']
        have ho : t'.oid = t.oid := (oid_of_find? ht).trans (oid_of_find? ht').symm
        simp [Except.map, Task.position, ho, hp, hc]
  · rfl

theorem SameForest.inGroup (h : s.SameForest s') (hg : s'.InGroup o g) : s.InGroup o g := by
  obtain ⟨t', ht', hc⟩ := hg
  obtain ⟨t, ht, he⟩ := h.effectiveConstraints ht'
  exact ⟨t, ht, he ▸ hc⟩

/-- How many tasks run in a group depends on the records of the tasks that belong to it. -/
theorem others_le (h : s.SameForest s')
    (hr : ∀ o, o ≠ oid → s.InGroup o g → s'.find? o = s.find? o) :
    s'.others g oid ≤ s.others g oid := by
  refine Table.countP_le fun o t' ht' hp => ?_
  simp only [Bool.and_eq_true, decide_eq_true_eq, runsInGroup] at hp
  obtain ⟨hne, hrun, hg⟩ := hp
  obtain ⟨t, ht, he⟩ := h.effectiveConstraints ht'
  have ho : t'.oid = o := oid_of_find? ht'
  have same : s'.find? o = s.find? o := hr o (ho ▸ hne) ⟨t, ht, he ▸ hg⟩
  obtain rfl : t = t' := Option.some.inj (ht.symm.trans (same.symm.trans ht'))
  refine ⟨t, ht, ?_⟩
  simp [runsInGroup, hne, hrun, ← he, hg]

theorem countRunning_congr (h : s.SameForest s') (ha : s'.available = s.available)
    (hr : ∀ o, o ≠ oid → s.InGroup o g → s'.find? o = s.find? o) :
    s'.countRunning g oid = s.countRunning g oid := by
  have count : s'.others g oid = s.others g oid :=
    Nat.le_antisymm (others_le h hr)
      (others_le h.symm fun o ho hg => (hr o ho (h.inGroup hg)).symm)
  unfold countRunning
  rw [ha]
  split
  · exact congrArg _ count
  · rfl

end Store

/-! One task at the trigger engine. -/

namespace Trigger

variable {g g' : Trigger} {oid o : TaskOid} {e : TriggerEvent}

theorem record_congr (hf : g'.failing = g.failing) (he : g'.eventsFor oid = g.eventsFor oid)
    (e : TriggerEvent) :
    (g'.record e).1 = (g.record e).1 ∧
      (g'.record e).2.eventsFor oid = (g.record e).2.eventsFor oid := by
  unfold record
  rw [hf]
  split
  · exact ⟨rfl, he⟩
  · unfold eventsFor at he ⊢
    exact ⟨rfl, by rw [List.filter_append, List.filter_append, he]⟩

theorem eventsFor_record_ne (h : e.oid ≠ o) : (g.record e).2.eventsFor o = g.eventsFor o := by
  unfold record eventsFor
  split
  · rfl
  · simp [List.filter_append, h]

end Trigger

/-! The children of a firing. -/

namespace Child

/-- The name of the child, how it has ended or will end, and whether somebody waits for it. -/
def prospect (c : Child) : String × ChildEnd × Bool :=
  (c.name, c.ended.getD (ChildWork.fate c.work), c.taken)

/-- Nobody has stopped the child. -/
structure Undeterred (c : Child) : Prop where
  canRun : c.canRun = true
  cancelled : c.cancelled = false
  aborted : c.aborted = false

/-- The waiter is told of a child that was not stopped how it has ended. -/
theorem Undeterred.result? {c : Child} {r : OperationResult} (h : c.Undeterred)
    (hr : c.result? = some r) : ∃ e, c.ended = some e ∧ r = c.outcome e := by
  rcases accounts_of_result? hr with he | ⟨hc, -⟩
  · exact he
  · exact nomatch hc.symm.trans h.cancelled

end Child

/-- Nobody has stopped the firing of the handle, or one of its children. -/
structure Handle.Undeterred (handle : Handle) : Prop where
  canRun : handle.canRun = true
  interrupted : handle.interrupted = false
  children : ∀ c ∈ handle.children, c.Undeterred

namespace World

/-- What no firing changes: the flags of the store and the trigger engine, the clock, the stop
signals and the hierarchy. -/
structure SameFrame (w w' : World) : Prop where
  available : w'.store.available = w.store.available
  forest : w.store.SameForest w'.store
  failing : w'.trigger.failing = w.trigger.failing
  running : w'.trigger.running = w.trigger.running
  timesUnknown : w'.trigger.timesUnknown = w.trigger.timesUnknown
  now : w'.now = w.now
  shutDown : ∀ place, (w'.site place).shutDown = (w.site place).shutDown

/-- The same but for what concerns that task, and for the handles. -/
structure SameBut (oid : TaskOid) (w w' : World) : Prop extends SameFrame w w' where
  record : ∀ o, o ≠ oid → w'.store.find? o = w.store.find? o
  events : ∀ o, o ≠ oid → w'.trigger.eventsFor o = w.trigger.eventsFor o
  fireTime : ∀ o, o ≠ oid → w'.trigger.fireTimes.find? o = w.trigger.fireTimes.find? o
  registered : ∀ place o, o ≠ oid → w'.registered place o = w.registered place o

/-- The children under a handle, as their firing sees them. -/
def prospects (w : World) (k : Option HandleId) : List (String × ChildEnd × Bool) :=
  (((k.bind w.handle?).map Handle.children).getD []).map Child.prospect

/-- A firing sees the same in both worlds, under this handle and under that. -/
structure LooksLike (f : Occasion) (w w' : World) (k k' : Option HandleId) : Prop where
  record : w'.store.find? f.oid = w.store.find? f.oid
  events : w'.trigger.eventsFor f.oid = w.trigger.eventsFor f.oid
  fireTime : w'.trigger.fireTimes.find? f.oid = w.trigger.fireTimes.find? f.oid
  registered : (w'.registered f.place f.oid).isSome = (w.registered f.place f.oid).isSome
  children : w'.prospects k' = w.prospects k

/-- The handle, if there is one, is for that task, and nobody has stopped its firing. -/
def Undeterred (oid : TaskOid) (w : World) (k : Option HandleId) : Prop :=
  ∀ h, k = some h → ∃ handle, w.handle? h = some handle ∧ handle.oid = oid ∧ handle.Undeterred

section

variable {w w' w'' : World} {f : Occasion} {oid : TaskOid} {k k' k'' : Option HandleId}
  {place : Place} {h : HandleId} {b : Bool}

theorem SameFrame.refl (w : World) : w.SameFrame w :=
  ⟨rfl, .refl _, rfl, rfl, rfl, rfl, fun _ => rfl⟩

theorem SameFrame.trans (h : w.SameFrame w') (h' : w'.SameFrame w'') : w.SameFrame w'' :=
  ⟨h'.available.trans h.available, h.forest.trans h'.forest, h'.failing.trans h.failing,
    h'.running.trans h.running, h'.timesUnknown.trans h.timesUnknown, h'.now.trans h.now,
    fun place => (h'.shutDown place).trans (h.shutDown place)⟩

theorem SameFrame.symm (h : w.SameFrame w') : w'.SameFrame w :=
  ⟨h.available.symm, h.forest.symm, h.failing.symm, h.running.symm, h.timesUnknown.symm,
    h.now.symm, fun place => (h.shutDown place).symm⟩

theorem sameFrame_of_eq (hstore : w'.store = w.store) (htrigger : w'.trigger = w.trigger)
    (hnow : w'.now = w.now) (hsites : w'.sites = w.sites) : w.SameFrame w' where
  available := by rw [hstore]
  forest := hstore ▸ .refl _
  failing := by rw [htrigger]
  running := by rw [htrigger]
  timesUnknown := by rw [htrigger]
  now := hnow
  shutDown _ := by rw [site, hsites]; rfl

theorem sameBut_of_eq (oid : TaskOid) (hstore : w'.store = w.store)
    (htrigger : w'.trigger = w.trigger) (hnow : w'.now = w.now) (hsites : w'.sites = w.sites) :
    w.SameBut oid w' where
  toSameFrame := sameFrame_of_eq hstore htrigger hnow hsites
  record _ _ := by rw [hstore]
  events _ _ := by rw [htrigger]
  fireTime _ _ := by rw [htrigger]
  registered _ _ _ := by rw [World.registered, site, hsites]; rfl

theorem SameBut.refl (oid : TaskOid) (w : World) : w.SameBut oid w :=
  sameBut_of_eq oid rfl rfl rfl rfl

theorem sameBut_modify (w : World) (oid : TaskOid) (d : TaskDelta) (p : Precondition) :
    w.SameBut oid { w with store := (w.store.modify oid d p).2 } :=
  { SameBut.refl oid w with
    available := Store.available_modify _ _ _ _
    forest := Store.sameForest_modify _ _ _ _
    record := fun _ ho => Store.find?_modify_ne ho d p }

theorem sameBut_record (w : World) (e : TriggerEvent) :
    w.SameBut e.oid { w with trigger := (w.trigger.record e).2 } :=
  have ⟨times, failing, running, unknown⟩ := w.trigger.record_rest e
  { SameBut.refl e.oid w with
    failing
    running
    timesUnknown := unknown
    events := fun _ ho => Trigger.eventsFor_record_ne (Ne.symm ho)
    fireTime := fun _ _ => by rw [times] }

theorem sameBut_deleteJob (w : World) (oid : TaskOid) :
    w.SameBut oid { w with trigger := (w.trigger.deleteJob oid).2 } :=
  have sent := sameBut_record { w with trigger := w.trigger.forget oid } (.jobDeleted oid)
  { SameBut.refl oid w with
    failing := sent.failing
    running := sent.running
    timesUnknown := sent.timesUnknown
    events := sent.events
    fireTime := fun o ho => by
      rw [Trigger.deleteJob, (Trigger.record_rest _ _).1]
      exact (Table.find?_erase _ _ _).trans (if_neg (Ne.symm ho)) }

/-- A task can be registered exactly if it is not, and then it is. -/
theorem register_own (ho : w.owner? h = some oid) (hr : w.register place h = (b, w')) :
    b = !(w.registered place oid).isSome ∧ (w'.registered place oid).isSome ∧
      ∀ place' o, o ≠ oid → w'.registered place' o = w.registered place' o := by
  cases b with
  | true =>
      obtain ⟨hn, hreg⟩ := register_true hr ho
      refine ⟨by simp [hn], by simp [hreg], fun place' o hne => ?_⟩
      rw [hreg, if_neg fun h => hne h.2.symm]
  | false =>
      obtain ⟨h', hs⟩ := register_false hr ho
      obtain rfl := (register_same hr).2.2 rfl
      exact ⟨by simp [hs], by simp [hs], fun _ _ _ => rfl⟩

theorem deregister_ne (ho : w.owner? h = some oid) (hr : w.deregister place h = (b, w'))
    {o : TaskOid} (hne : o ≠ oid) (place' : Place) :
    w'.registered place' o = w.registered place' o := by
  obtain ⟨handle, hh, rfl⟩ : ∃ handle, w.handle? h = some handle ∧ handle.oid = oid := by
    simpa [owner?] using ho
  simp only [deregister, hh] at hr
  split at hr <;> cases hr
  · simp only [registered, site_onSite]
    split
    · next hp =>
      subst hp
      simp only [Table.find?_erase, if_neg (Ne.symm hne)]
    · rfl
  · rfl

/-- A firing that is registered can leave. -/
theorem deregister_own (ho : w.owner? h = some oid) (hreg : w.registered place oid = some h)
    (hr : w.deregister place h = (b, w')) : w'.registered place oid = none := by
  obtain ⟨handle, hh, rfl⟩ : ∃ handle, w.handle? h = some handle ∧ handle.oid = oid := by
    simpa [owner?] using ho
  obtain ⟨⟨o, h'⟩, hf, rfl⟩ := Option.map_eq_some_iff.mp hreg
  obtain rfl : o = handle.oid := Table.key_of_find? hf
  simp only [deregister, hh, hf, if_true] at hr
  cases hr
  simp [registered, site_onSite, Table.find?_erase]

theorem sameBut_register (ho : w.owner? h = some oid) (hr : w.register place h = (b, w')) :
    w.SameBut oid w' := by
  obtain ⟨sites, rfl, hs⟩ := onlyRegisters_register hr
  exact { SameBut.refl oid w with
    shutDown := hs
    registered := (register_own ho hr).2.2 }

theorem sameBut_deregister (ho : w.owner? h = some oid)
    (hr : w.deregister place h = (b, w')) : w.SameBut oid w' := by
  obtain ⟨sites, rfl, hs⟩ := onlyRegisters_deregister hr
  exact { SameBut.refl oid w with
    shutDown := hs
    registered := fun place' _ hne => deregister_ne ho hr hne place' }

/-! Handles. -/

theorem handle?_of_modify {handle : Handle} {f : Handle → Handle}
    (hh : w.handle? h = some handle) (hw : w'.handles = w.handles.modify h.index f) :
    w'.handle? h = some (f handle) := by
  rw [handle?, hw, List.getElem?_modify, show w.handles[h.index]? = some handle from hh]
  simp

theorem child?_of_handle? {handle : Handle} {i : Nat} (hh : w.handle? h = some handle) :
    w.child? h i = handle.children[i]? := by
  rw [child?, hh]
  rfl

theorem prospects_some {handle : Handle} (hh : w.handle? h = some handle) :
    w.prospects (some h) = handle.children.map Child.prospect := by
  simp [prospects, hh]

theorem prospects_of_handle? (hw : ∀ h, k = some h → w'.handle? h = w.handle? h) :
    w'.prospects k = w.prospects k := by
  cases k with
  | none => rfl
  | some h => simp [prospects, hw h rfl]

theorem LooksLike.refl (f : Occasion) (w : World) (k : Option HandleId) : w.LooksLike f w k k :=
  ⟨rfl, rfl, rfl, rfl, rfl⟩

theorem LooksLike.trans (h : w.LooksLike f w' k k') (h' : w'.LooksLike f w'' k' k'') :
    w.LooksLike f w'' k k'' :=
  ⟨h'.record.trans h.record, h'.events.trans h.events, h'.fireTime.trans h.fireTime,
    h'.registered.trans h.registered, h'.children.trans h.children⟩

theorem LooksLike.symm (h : w.LooksLike f w' k k') : w'.LooksLike f w k' k :=
  ⟨h.record.symm, h.events.symm, h.fireTime.symm, h.registered.symm, h.children.symm⟩

/-- A change that concerns another task, and another handle, cannot be seen. -/
theorem SameBut.looksLike (hw : w.SameBut oid w') (ho : f.oid ≠ oid)
    (hh : ∀ h, k = some h → w'.handle? h = w.handle? h) : w.LooksLike f w' k k :=
  ⟨hw.record _ ho, hw.events _ ho, hw.fireTime _ ho, by rw [hw.registered _ _ ho],
    prospects_of_handle? hh⟩

theorem looksLike_of_eq (hstore : w'.store = w.store) (htrigger : w'.trigger = w.trigger)
    (hsites : w'.sites = w.sites) (hc : w'.prospects k' = w.prospects k) :
    w.LooksLike f w' k k' where
  record := by rw [hstore]
  events := by rw [htrigger]
  fireTime := by rw [htrigger]
  registered := by rw [registered, site, hsites]; rfl
  children := hc

theorem Undeterred.of_handle? (hw : ∀ h, k = some h → w'.handle? h = w.handle? h)
    (h : w.Undeterred oid k) : w'.Undeterred oid k := by
  intro h' hk
  rw [hw h' hk]
  exact h h' hk

theorem Undeterred.of_handles (hw : w'.handles = w.handles) (h : w.Undeterred oid k) :
    w'.Undeterred oid k :=
  h.of_handle? fun _ _ => by rw [handle?, hw]; rfl

theorem Undeterred.modify {f : Handle → Handle} (hu : w.Undeterred oid k)
    (hw : w'.handles = w.handles.modify h.index f)
    (hf : ∀ handle, w.handle? h = some handle → handle.Undeterred →
      (f handle).oid = handle.oid ∧ (f handle).Undeterred) : w'.Undeterred oid k := by
  intro h' hk
  obtain ⟨handle, hh, ho, hun⟩ := hu h' hk
  by_cases he : h.index = h'.index
  · obtain rfl : h = h' := by
      cases h
      cases h'
      exact congrArg _ he
    obtain ⟨ho', hun'⟩ := hf handle hh hun
    exact ⟨f handle, handle?_of_modify hh hw, ho'.trans ho, hun'⟩
  · refine ⟨handle, ?_, ho, hun⟩
    simpa [handle?, hw, he] using hh

theorem Undeterred.owner (hu : w.Undeterred oid k) (hk : k = some h) :
    w.owner? h = some oid := by
  obtain ⟨handle, hh, ho, -⟩ := hu h hk
  rw [owner?, hh]
  exact congrArg some ho

end

end World

namespace Handle

variable {handle handle' : Handle}

theorem Undeterred.spawn (hu : handle.Undeterred) (id : ChildId) (spec : ChildSpec) :
    (handle.spawn id spec).Undeterred where
  canRun := hu.canRun
  interrupted := hu.interrupted
  children c hc := by
    rcases List.mem_append.mp hc with hc | hc
    · exact hu.children c hc
    · obtain rfl := List.mem_singleton.mp hc
      exact ⟨hu.canRun, rfl, rfl⟩

theorem Undeterred.takePending (hu : handle.Undeterred) : handle.takePending.Undeterred where
  canRun := hu.canRun
  interrupted := hu.interrupted
  children c hc := by
    obtain ⟨c', hc', rfl⟩ := List.mem_map.mp hc
    obtain ⟨hr, hc, ha⟩ := hu.children c' hc'
    exact ⟨hr, hc, ha⟩

theorem Undeterred.modify {i : Nat} {g : Child → Child} (hu : handle.Undeterred)
    (hg : ∀ c, handle.children[i]? = some c → c.Undeterred → (g c).Undeterred) :
    { handle with children := handle.children.modify i g }.Undeterred where
  canRun := hu.canRun
  interrupted := hu.interrupted
  children c hc := by
    obtain ⟨j, hj⟩ := List.mem_iff_getElem?.mp hc
    rw [List.getElem?_modify] at hj
    obtain ⟨c', hc', rfl⟩ := Option.map_eq_some_iff.mp hj
    have hu' := hu.children c' (List.mem_of_getElem? hc')
    split
    · next hij =>
      subst hij
      exact hg c' hc' hu'
    · exact hu'

theorem Undeterred.closeChild (hu : handle.Undeterred) (id : ChildId) :
    (handle.closeChild id).Undeterred :=
  hu.modify fun _ _ h => ⟨h.canRun, h.cancelled, h.aborted⟩

theorem prospect_spawn (id : ChildId) (spec : ChildSpec) :
    (handle.spawn id spec).children.map Child.prospect
      = handle.children.map Child.prospect ++
        [(spec.name, ChildWork.fate (spec.work id), false)] := by
  simp [Handle.spawn, Child.prospect]

theorem prospect_takePending :
    handle.takePending.children.map Child.prospect
      = (handle.children.map Child.prospect).map fun p => (p.1, p.2.1, true) := by
  simp [Handle.takePending, Child.prospect]

theorem prospect_modify {i : Nat} {g : Child → Child}
    (hg : ∀ c, handle.children[i]? = some c → (g c).prospect = c.prospect) :
    (handle.children.modify i g).map Child.prospect = handle.children.map Child.prospect := by
  refine List.ext_getElem? fun j => ?_
  simp only [List.getElem?_map, List.getElem?_modify]
  cases hc : handle.children[j]? with
  | none => rfl
  | some c =>
      simp only [Option.map_some]
      split
      · next hij =>
        subst hij
        exact congrArg some (hg c hc)
      · rfl

theorem prospect_closeChild (id : ChildId) :
    (handle.closeChild id).children.map Child.prospect = handle.children.map Child.prospect :=
  prospect_modify fun _ _ => rfl

theorem prospect_at {i : Nat} {c c' : Child}
    (h : handle'.children.map Child.prospect = handle.children.map Child.prospect)
    (hc : handle.children[i]? = some c) (hc' : handle'.children[i]? = some c') :
    c'.prospect = c.prospect := by
  have := congrArg (·[i]?) h
  simpa [hc, hc'] using this

/-- For whom nobody waits can be told from what the firing sees. -/
theorem pending_congr
    (h : handle'.children.map Child.prospect = handle.children.map Child.prospect) :
    handle'.pending = handle.pending := by
  have taken (x : Handle) (i : Nat) : (x.children[i]?.any fun c => !c.taken)
      = (x.children.map Child.prospect)[i]?.any fun p => !p.2.2 := by
    rw [List.getElem?_map]
    cases x.children[i]? <;> rfl
  have length : handle'.children.length = handle.children.length := by
    simpa using congrArg List.length h
  unfold pending
  simp only [taken, h, length]

end Handle

/-! What goes on by itself. -/

namespace World

/-- A child goes on, or a gate is opened. -/
inductive Ticks (w : World) : World → Prop
  | child {h : HandleId} {i : Nat} {w' : World} : w.stepChild? h i = some w' → w.Ticks w'
  | gate (gate : String) : w.Ticks { w with gates := w.gates ++ [gate] }

section

variable {w w' : World} {f : Occasion} {oid : TaskOid} {k : Option HandleId} {h : HandleId}
  {i : Nat}

theorem handles_onChild {g : Child → Child} (hw : w'.handles = w.handles) :
    (w'.onChild h i g).handles = w.handles.modify h.index fun handle =>
      { handle with children := handle.children.modify i g } := by
  rw [onChild, onHandle, hw]

/-- Each answer that a child gets while it may run is on the way to its fate. -/
theorem fate_of_performChild {r : ChildCall} {next : r.Response → ChildWork} {a : r.Response}
    (hw : w.performChild true r = some (a, w')) :
    ChildWork.fate (.ask r next) = ChildWork.fate (next a) := by
  cases r with
  | canRun =>
      cases hw
      rfl
  | wait | write => rfl

/-- A child that goes on changes itself only, and is not stopped by that; whatever end it was
to come to, it still is. -/
theorem ChildGoes.spec (hg : w.ChildGoes h i w') :
    ∃ (c : Child) (g : Child → Child) (w₁ : World), w.child? h i = some c ∧
      w' = w₁.onChild h i g ∧ w₁.store = w.store ∧ w₁.trigger = w.trigger ∧ w₁.now = w.now ∧
      w₁.sites = w.sites ∧ w₁.handles = w.handles ∧
      (c.Undeterred → (g c).Undeterred ∧ (g c).prospect = c.prospect) := by
  cases hg with
  | @ends c e hc ha he hwork =>
      refine ⟨c, _, w, hc, rfl, rfl, rfl, rfl, rfl, rfl, fun hu => ⟨?_, ?_⟩⟩
      · exact ⟨hu.canRun, hu.cancelled, hu.aborted⟩
      · simp [Child.prospect, he, hwork, ChildWork.fate]
  | @answered c r next a w₁ hc ha he hwork hp =>
      obtain ⟨hstore, htrigger, hnow, hsites, hhandles⟩ := performChild_same hp
      refine ⟨c, _, w₁, hc, rfl, hstore, htrigger, hnow, hsites, hhandles, fun hu => ⟨?_, ?_⟩⟩
      · exact ⟨hu.canRun, hu.cancelled, hu.aborted⟩
      · rw [hu.canRun] at hp
        simp [Child.prospect, he, hwork, fate_of_performChild hp]

theorem Ticks.same (ht : w.Ticks w') :
    w'.store = w.store ∧ w'.trigger = w.trigger ∧ w'.now = w.now ∧ w'.sites = w.sites := by
  cases ht with
  | gate g => exact ⟨rfl, rfl, rfl, rfl⟩
  | child hc =>
      obtain ⟨c, g, w₁, -, rfl, hstore, htrigger, hnow, hsites, -⟩ :=
        (stepChild?_eq_some_iff.mp hc).spec
      exact ⟨hstore, htrigger, hnow, hsites⟩

theorem Ticks.sameFrame (ht : w.Ticks w') : w.SameFrame w' := by
  obtain ⟨hstore, htrigger, hnow, hsites⟩ := ht.same
  exact sameFrame_of_eq hstore htrigger hnow hsites

theorem Ticks.undeterred (ht : w.Ticks w') (hu : w.Undeterred oid k) : w'.Undeterred oid k := by
  cases ht with
  | gate g => exact hu
  | child ht =>
      obtain ⟨c, g, w₁, hc, rfl, -, -, -, -, hhandles, hgo⟩ := (stepChild?_eq_some_iff.mp ht).spec
      refine hu.modify (handles_onChild hhandles) fun handle hh hun => ⟨rfl, hun.modify ?_⟩
      intro c' hc' hu'
      rw [child?_of_handle? hh, hc'] at hc
      cases hc
      exact (hgo hu').1

/-- Children that go on cannot be seen before they are waited for. -/
theorem Ticks.looksLike (ht : w.Ticks w') (hu : w.Undeterred oid k) : w.LooksLike f w' k k := by
  obtain ⟨hstore, htrigger, -, hsites⟩ := ht.same
  refine looksLike_of_eq hstore htrigger hsites ?_
  cases ht with
  | gate g => rfl
  | @child h i _ ht =>
      obtain ⟨c, g, w₁, hc, rfl, -, -, -, -, hhandles, hgo⟩ := (stepChild?_eq_some_iff.mp ht).spec
      cases k with
      | none => rfl
      | some h' =>
          by_cases he : h = h'
          · subst he
            obtain ⟨handle, hh, -, hun⟩ := hu h rfl
            rw [prospects_some hh,
              prospects_some (handle?_of_modify hh (handles_onChild hhandles))]
            refine Handle.prospect_modify fun c' hc' => ?_
            rw [child?_of_handle? hh, hc'] at hc
            obtain rfl : c' = c := Option.some.inj hc
            exact (hgo (hun.children c' (List.mem_of_getElem? hc'))).2
          · refine prospects_of_handle? fun h'' hk => ?_
            cases hk
            have hne : h.index ≠ h'.index := fun e => he (congrArg HandleId.mk e)
            simp [handle?, onChild, onHandle, hhandles, hne]

/-- Nobody's handle is lost. -/
theorem Ticks.owner (ht : w.Ticks w') (h : HandleId) (hw : w.owner? h = some oid) :
    w'.owner? h = some oid := by
  cases ht with
  | gate g => exact hw
  | child hc =>
      obtain ⟨c, g, w₁, -, rfl, -, -, -, -, hhandles, -⟩ := (stepChild?_eq_some_iff.mp hc).spec
      refine (sameRuns_onHandle w₁ _ ?_).owner h oid ?_
      · exact fun _ => rfl
      · rw [owner?, handle?, hhandles]
        exact hw

theorem Ticks.length (ht : w.Ticks w') : w'.handles.length = w.handles.length := by
  cases ht with
  | gate g => rfl
  | child hc =>
      obtain ⟨c, g, w₁, -, rfl, -, -, -, -, hhandles, -⟩ := (stepChild?_eq_some_iff.mp hc).spec
      simp [onChild, onHandle, hhandles]

/-- What goes on by itself, for a while. -/
abbrev Passes (w w' : World) : Prop := Relation.ReflTransGen Ticks w w'

theorem child?_onChild {c : Child} {g : Child → Child} (hc : w.child? h i = some c)
    (hw : w'.handles = w.handles) : (w'.onChild h i g).child? h i = some (g c) := by
  obtain ⟨handle, hh, hc⟩ := Option.bind_eq_some_iff.mp hc
  rw [child?_of_handle? (handle?_of_modify hh (handles_onChild hw)), List.getElem?_modify,
    hc]
  simp

/-- A child that may run gets its answer, once the gate that it may wait for is open. -/
theorem child_answered (w : World) (r : ChildCall) :
    ∃ w' w'' a, w.Passes w' ∧ w'.handles = w.handles ∧
      w'.performChild true r = some (a, w'') := by
  cases r with
  | canRun => exact ⟨w, w, true, .refl, rfl, rfl⟩
  | write entry => exact ⟨w, w.write entry, (), .refl, rfl, rfl⟩
  | wait wait =>
      refine ⟨_, _, (), .single (.gate wait.gate), rfl, if_pos ?_⟩
      simp [waitIsOver]

/-- A child that nobody stops comes to its end. -/
theorem child_ends {c : Child} (hc : w.child? h i = some c) (hu : c.Undeterred) :
    ∃ w' c', w.Passes w' ∧ w'.child? h i = some c' ∧ c'.ended.isSome := by
  obtain ⟨work, hwork⟩ : ∃ work, c.work = work := ⟨_, rfl⟩
  -- on the work that is left; each call in it is answered once its gate is open
  induction work generalizing w c with
  | done e =>
      cases he : c.ended with
      | some e' => exact ⟨w, c, .refl, hc, by rw [he]; rfl⟩
      | none =>
          have goes := ChildGoes.ends hc hu.aborted he hwork
          exact ⟨_, _, .single (.child (stepChild?_eq_some_iff.mpr goes)),
            child?_onChild hc rfl, rfl⟩
  | ask r next ih =>
      cases he : c.ended with
      | some e' => exact ⟨w, c, .refl, hc, by rw [he]; rfl⟩
      | none =>
          obtain ⟨w₁, w₂, a, hpass, hhandles, hp⟩ := w.child_answered r
          have hc₁ : w₁.child? h i = some c := by
            rw [child?, handle?, hhandles]
            exact hc
          have goes := ChildGoes.answered hc₁ hu.aborted he hwork (hu.canRun.symm ▸ hp)
          have hc₂ := child?_onChild (g := fun c => { c with work := next a }) hc₁
            (performChild_same hp).2.2.2.2
          obtain ⟨w₃, c', hpass', hc', hend⟩ :=
            ih a hc₂ ⟨hu.canRun, hu.cancelled, hu.aborted⟩ rfl
          have step : w.Passes _ := hpass.tail (.child (stepChild?_eq_some_iff.mpr goes))
          exact ⟨w₃, c', step.trans hpass', hc', hend⟩

end

end World

end TaskFiring
