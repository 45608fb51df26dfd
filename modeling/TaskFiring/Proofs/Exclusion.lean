import TaskFiring.Proofs.Copies
import TaskFiring.Proofs.Holding
import TaskFiring.Proofs.Rehearsal

/-!
Mutual exclusion. Of the firings of one task that look for other runs, at most one
holds the task at a time. The record of a held task need not say that it runs: a
firing that was turned away may close or suspend it by its stop action. But then the
task is withdrawn, which no stop action takes back, so nobody can take it.
-/

namespace TaskFiring

namespace Task

/-- The record has left ready, and its stop action does not make it ready again. -/
def Withdrawn (t : Task) : Prop :=
  ¬ t.isReady ∧ (t.halting = .ok .close ∨ t.halting = .ok .suspend)

/-- What a node that holds a task finds in its record. -/
def Kept (node : NodeId) (t : Task) : Prop :=
  t.runningOn? = some node ∨ t.Withdrawn

theorem Kept.running_or {node : NodeId} {t : Task} (h : t.Kept node) :
    t.execution = .running ∨ t.Withdrawn := by
  refine h.imp (fun hr => ?_) id
  unfold runningOn? at hr
  split at hr
  · assumption
  · cases hr

/-- No copy of a kept record lets a firing go on: it is not ready, or the node is seen. -/
theorem Kept.runningOn? {node : NodeId} {t : Task} (h : t.Kept node) (hr : t.isReady) :
    t.runningOn? = some node :=
  h.resolve_right fun hw => hw.1 hr

/-- Any write that does not make the task ready leaves it withdrawn. -/
theorem Withdrawn.written {t : Task} {d : TaskDelta} (h : t.Withdrawn)
    (hd : d.scheduling ≠ some .ready) : (Store.written t d).Withdrawn := by
  refine ⟨fun hr => ?_, h.2⟩
  have hs : d.scheduling.getD t.scheduling = .ready := of_decide_eq_true hr
  cases hc : d.scheduling with
  | none => exact h.1 (by simpa [isReady, hc] using hs)
  | some s => exact hd (by rw [hc]; simpa [hc] using hs)

/-- A write that leaves the execution state and the node alone. -/
theorem Kept.written {node : NodeId} {t : Task} {d : TaskDelta} (h : t.Kept node)
    (he : d.execution = none) (hn : d.node = none)
    (hd : t.Withdrawn → d.scheduling ≠ some .ready) : (Store.written t d).Kept node := by
  refine h.imp (fun hr => ?_) fun hw => hw.written (hd hw)
  rw [← hr]
  simp [Task.runningOn?, Store.written, TaskDelta.apply, he, hn]

/-- Closing or suspending a task by its stop action withdraws it. -/
theorem withdrawn_written {t : Task} {d : TaskDelta} {s : SchedulingState}
    (hd : d.scheduling = some s) (hs : s ≠ .ready)
    (ht : t.halting = .ok .close ∨ t.halting = .ok .suspend) :
    (Store.written t d).Withdrawn :=
  ⟨by simp [isReady, Store.written, TaskDelta.apply, hd, hs], ht⟩

end Task

/-- A call of a handler that leaves the record of the task and the store alone. -/
def HandlerCall.Spares (oid : TaskOid) : HandlerCall → Prop
  | .switchToWaiting => False
  | .disturb (.write oid' _) | .disturb (.remove oid') => oid' ≠ oid
  | .disturb (.storeAvailable value) => value
  | _ => True

namespace World

/-- Whatever else happened, it left the record of the task, its entries in the registries
and the owners of the handles alone. -/
structure Spares (oid : TaskOid) (w w' : World) : Prop where
  record : w'.store.find? oid = w.store.find? oid
  available : w.store.available → w'.store.available
  registered : ∀ place, w'.registered place oid = w.registered place oid
  owner : ∀ h oid, w.owner? h = some oid → w'.owner? h = some oid

/-- The record of the task was written once. -/
structure Writes (oid : TaskOid) (r : Task) (d : TaskDelta) (w w' : World) : Prop where
  before : w.store.find? oid = some r
  after : w'.store.find? oid = some (Store.written r d)
  rises : r.version.toNat < (Store.written r d).version.toNat
  available : w.store.available → w'.store.available

section

variable {oid : TaskOid} {w w' : World} {place : Place} {h : HandleId}

theorem Agrees.spares (hw : w.Agrees w') : w.Spares oid w' :=
  ⟨by rw [hw.store], by rw [hw.store]; exact id, fun place => hw.registered place oid, hw.owner⟩

theorem spares_of_store {s : Store} (hf : s.find? oid = w.store.find? oid)
    (ha : w.store.available → s.available) : w.Spares oid { w with store := s } :=
  ⟨hf, ha, fun _ => rfl, fun _ _ => id⟩

theorem disturb_spares {d : Disturbance} (hd : (HandlerCall.disturb d).Spares oid) :
    w.Spares oid (w.disturb d) := by
  cases d with
  | write oid' d =>
      rcases w.store.modify_cases oid' d .always with ⟨e, hm⟩ | ⟨r, s', hm, -, -, ha, hf⟩
      · exact spares_of_store (by rw [hm]) (by rw [hm]; exact id)
      · exact spares_of_store (by rw [hm]; exact (hf oid).trans (if_neg hd))
          (by rw [hm, ha]; exact id)
  | remove oid' =>
      refine spares_of_store ?_ id
      exact (Table.find?_erase _ _ _).trans (if_neg hd)
  | storeAvailable value => exact spares_of_store rfl fun _ => hd
  | triggerFailing value | advance seconds => exact ⟨rfl, id, fun _ => rfl, fun _ _ => id⟩

theorem Answers.handler_spares {oid' : TaskOid} {call : HandlerCall}
    {a : Option call.Response} (ha : w.Answers place (.handler h oid' call) a w')
    (hc : call.Spares oid) : w.Spares oid w' := by
  rcases ha.handler_cases with hw | ⟨b, hb, -⟩ | ⟨d, rfl, rfl⟩
  · exact hw.spares
  · cases hb
    cases hc
  · exact disturb_spares hc

/-- A write that succeeds writes the record that met its condition. -/
theorem Answers.modify_ok {d : TaskDelta} {p : Precondition} {t : Task}
    (ha : w.Answers place (.modify oid d p) (.ok t) w') (hv : t.version ≠ 0) :
    ∃ r, w.Writes oid r d w' ∧ Store.violation? r p = none ∧ t = Store.written r d := by
  obtain ⟨hav, r, hf, hp, rfl, hf'⟩ := Store.modify_ok ha.modify.2
  exact ⟨r, ⟨hf, by simpa using hf' oid, Store.version_lt_written hv, by rw [hav]; exact id⟩,
    hp, rfl⟩

end

end World

/-- What an errand says of the record. Only a firing that holds the task acts on a copy
for a reason other than the stop action, and then the copy shows it running. -/
def Errand.Fits (r : Task) : Tenure → Errand → Prop
  | _, .none | _, .settling _ => True
  | _, .bound d => r.halting = .ok d
  | .held _, .closing t | .held _, .suspending t => t.execution = .running ∨ r.Withdrawn
  | _, .closing _ => r.halting = .ok .close
  | _, .suspending _ => r.halting = .ok .suspend

theorem Errand.fits_none (r : Task) (tenure : Tenure) : Errand.none.Fits r tenure := by
  cases tenure <;> trivial

namespace Exclusion

section

variable (record : Option Task) (taken : Prop)

/-- While the copy is current nobody holds the task. -/
def Free (t : Task) : Prop := record = some t → ¬ taken

def Fitting (tenure : Tenure) (e : Errand) : Prop := ∀ r, record = some r → e.Fits r tenure

/-- While the copy of a firing about to take the task is current, no node runs the task. -/
def Idle : Phase → Prop
  | .guarded t _ | .registered t _ => record = some t → t.runningOn? = none
  | _ => True

/-- What holds of the record in a phase of a firing on a node, where `taken` says that some
firing holds the task. -/
def Sound (node : NodeId) : Phase → Prop
  | .repairing t => Free record taken t
  | .busy (.held h) e => (∃ r, record = some r ∧ r.Kept node) ∧ Fitting record (.held h) e
  | .busy tenure e => Fitting record tenure e
  | _ => True

end

section

variable {record : Option Task} {taken taken' : Prop} {node : NodeId} {p : Phase}
  {t r : Task} {d : TaskDelta}

theorem Sound.fitting {tenure : Tenure} {e : Errand}
    (hs : Sound record taken node (.busy tenure e)) : Fitting record tenure e := by
  cases tenure with
  | held h => exact hs.2
  | refused | ended h => exact hs

theorem Sound.errand {tenure : Tenure} {e e' : Errand}
    (hs : Sound record taken node (.busy tenure e)) (hf : Fitting record tenure e') :
    Sound record taken node (.busy tenure e') := by
  cases tenure with
  | held h => exact ⟨hs.1, hf⟩
  | refused | ended h => exact hf

theorem Sound.kept (hs : Sound record taken node p) (hh : p.Holds) :
    ∃ r, record = some r ∧ r.Kept node := by
  cases p with
  | busy tenure e =>
      cases tenure with
      | held h => exact hs.1
      | refused | ended => cases hh
  | _ => cases hh

theorem fitting_none (record : Option Task) (tenure : Tenure) :
    Fitting record tenure .none :=
  fun r _ => Errand.fits_none r tenure

theorem Fitting.written {tenure : Tenure} {e : Errand} (hf : Fitting (some r) tenure e)
    (hd : r.Withdrawn → (Store.written r d).Withdrawn) :
    Fitting (some (Store.written r d)) tenure e := by
  rintro _ ⟨⟩
  have hr := hf r rfl
  cases e with
  | none | settling _ => cases tenure <;> trivial
  | bound _ => cases tenure <;> exact hr
  | closing _ | suspending _ =>
      cases tenure with
      | held h => exact hr.imp id hd
      | refused | ended h => exact hr

/-- A copy from before a write is not current any more. -/
theorem free_of_written (ht : t.Precedes r)
    (hv : r.version.toNat < (Store.written r d).version.toNat) :
    Free (some (Store.written r d)) taken t := by
  rintro ⟨⟩
  have := ht.1
  omega

/-- A write by another firing. -/
theorem Sound.written (hs : Sound (some r) taken node p)
    (hv : r.version.toNat < (Store.written r d).version.toNat)
    (hcopy : ∀ t, p.copy? = some t → t.Precedes r)
    (hd : r.Withdrawn → (Store.written r d).Withdrawn)
    (hk : p.Holds → r.Kept node → (Store.written r d).Kept node) :
    Sound (some (Store.written r d)) taken' node p := by
  cases p with
  | outset | gone | loaded | prepared | admitted | guarded | registered => trivial
  | repairing t => exact free_of_written (hcopy t rfl) hv
  | busy tenure e =>
      cases tenure with
      | held h =>
          obtain ⟨_, ⟨⟩, hk'⟩ := hs.1
          exact ⟨⟨_, rfl, hk trivial hk'⟩, hs.2.written hd⟩
      | refused | ended h => exact Fitting.written hs hd

/-- A firing reads the record in order to close or suspend the task. -/
theorem fitting_read {tenure : Tenure} {e : Errand} {d : StopDirective}
    {next : Task → Errand} (hn : next = .closing ∧ d = .close ∨
      next = .suspending ∧ d = .suspend)
    (hs : Sound (some t) taken node (.busy tenure e)) (hr : Phase.Reads d tenure e) :
    Fitting (some t) tenure (next t) := by
  rintro _ ⟨⟩
  cases tenure with
  | held h =>
      obtain ⟨_, ⟨⟩, hk⟩ := hs.1
      rcases hn with ⟨rfl, -⟩ | ⟨rfl, -⟩
      · exact hk.running_or
      · exact hk.running_or
  | refused | ended h =>
      cases e with
      | none | closing _ | suspending _ | settling _ => cases hr
      | bound d' =>
          obtain rfl : d' = d := hr
          have hb := hs.fitting t rfl
          rcases hn with ⟨rfl, rfl⟩ | ⟨rfl, rfl⟩
          · exact hb
          · exact hb

/-- Closing keeps the claim of the firing that holds the task, if there is one. -/
theorem kept_closing {tenure : Tenure} {now : Instant}
    (hf : (Errand.closing t).Fits r tenure) (hk : r.Kept node) :
    (Store.written r (Administration.closingDelta t now)).Kept node := by
  cases tenure with
  | held h =>
      rcases hf with ht | hw
      · refine hk.written (by simp [Administration.closingDelta, ht]) rfl fun _ => nofun
      · exact .inr (hw.written nofun)
  | refused | ended h => exact .inr (Task.withdrawn_written rfl nofun (.inl hf))

theorem kept_suspending {tenure : Tenure}
    (hf : (Errand.suspending t).Fits r tenure) (hk : r.Kept node) :
    (Store.written r (Administration.suspendingDelta t)).Kept node := by
  cases tenure with
  | held h =>
      rcases hf with ht | hw
      · refine hk.written (by simp [Administration.suspendingDelta, ht]) rfl fun _ => nofun
      · exact .inr (hw.written nofun)
  | refused | ended h => exact .inr (Task.withdrawn_written rfl nofun (.inr hf))

end

section

variable {ι : Type} (crew : ι → Occasion) (oid : TaskOid)

/-- Firings of one task, none of them recovering. Nodes at different places are told apart
by their identifiers, and no handler writes the task. -/
structure Contenders : Prop where
  task : ∀ i, (crew i).oid = oid
  fresh : ∀ i, (crew i).recovering = false
  place : ∀ i j, (crew i).nodeId = (crew j).nodeId → (crew i).place = (crew j).place
  handlers : ∀ i, (crew i).node.KeepsTo (HandlerCall.Spares oid)

/-- Firings of one task, none of them recovering, that look for other runs. Nodes at
different places are told apart by their identifiers, and no handler writes the task. -/
structure Rivals : Prop where
  task : ∀ i, (crew i).oid = oid
  fresh : ∀ i, (crew i).recovering = false
  guarded : ∀ i, (crew i).node.config.checkConcurrent
  place : ∀ i j, (crew i).nodeId = (crew j).nodeId → (crew i).place = (crew j).place
  handlers : ∀ i, (crew i).node.KeepsTo (HandlerCall.Spares oid)

/-- A firing that looks for other runs and is about to take the task has seen nobody run it,
while its copy is current. -/
def Watched (s : Stage ι) : Prop :=
  ∀ i, (crew i).node.config.checkConcurrent →
    Idle (s.world.store.find? oid) (s.phase i)

/-- A firing is about to take the task only where it looks for other runs, or there is
none. -/
def Vetted (f : Occasion) (record : Option Task) : Prop :=
  f.node.config.checkConcurrent ∨ ∀ r, record = some r → r.runningOn? = none

theorem Rivals.contenders {crew : ι → Occasion} {oid : TaskOid} (h : Rivals crew oid) :
    Contenders crew oid :=
  ⟨h.task, h.fresh, h.place, h.handlers⟩

/-- Some firing holds the task. -/
def Taken (s : Stage ι) : Prop := ∃ i, (s.phase i).Holds

/-- What the record says to those who hold the task or are about to take it. -/
structure Claims (s : Stage ι) : Prop where
  available : s.world.store.available
  sound : ∀ i, Sound (s.world.store.find? oid) (Taken s) (crew i).nodeId (s.phase i)
  exclusive : ∀ i j, (s.phase i).Holds → (s.phase j).Holds → i = j

structure Inv (s : Stage ι) : Prop where
  runs : Registration.Inv crew s
  copies : Copies.Inv crew s
  watched : Watched crew oid s
  claims : Claims crew oid s

/-- A step by which the task is taken only if that is vetted. -/
def VettedStep [DecidableEq ι] (s : Stage ι) (e : Event ι) (s' : Stage ι) : Prop :=
  s.Step crew (HandlerCall.Spares oid) (World.Spares oid) e s' ∧
    ∀ i, e.Takes (crew i) i → Vetted (crew i) (s.world.store.find? oid)

end

section

variable {ι : Type} [DecidableEq ι] {crew : ι → Occasion} {oid : TaskOid} {s s' : Stage ι}
  {w : World} {i : ι} {p : Phase} {r t : Task} {d : TaskDelta} {e : Event ι}

omit [DecidableEq ι] in
theorem Claims.outside (hi : Claims crew oid s) (hw : s.world.Spares oid w) :
    Claims crew oid ⟨w, s.phase⟩ := by
  refine ⟨hw.available hi.available, fun i => ?_, hi.exclusive⟩
  rw [hw.record]
  exact hi.sound i

/-- A firing goes on without a write of the record. -/
theorem Claims.quiet (hi : Claims crew oid s)
    (hr : w.store.find? oid = s.world.store.find? oid)
    (ha : s.world.store.available → w.store.available)
    (hp : Sound (s.world.store.find? oid) (Taken s) (crew i).nodeId p)
    (hh : p.Holds ↔ (s.phase i).Holds) :
    Claims crew oid ⟨w, Function.update s.phase i p⟩ := by
  have holds : ∀ j, (Function.update s.phase i p j).Holds ↔ (s.phase j).Holds :=
    Stage.forall_update (P := fun j q => q.Holds ↔ (s.phase j).Holds) hh fun _ _ => .rfl
  have taken : Taken ⟨w, Function.update s.phase i p⟩ = Taken s :=
    propext (exists_congr holds)
  refine ⟨ha hi.available, ?_, ?_⟩
  · rw [taken, hr]
    exact Stage.forall_update (P := fun j => Sound (s.world.store.find? oid) (Taken s)
      (crew j).nodeId) hp fun j _ => hi.sound j
  · exact fun j k hj hk => hi.exclusive j k ((holds j).mp hj) ((holds k).mp hk)

omit [DecidableEq ι] in
/-- A ready task that somebody holds shows the node on which it is held. -/
theorem Inv.runningOn?_of_taken (hi : Inv crew oid s)
    (ht : s.world.store.find? oid = some t) (hr : t.isReady) (hj : Taken s) :
    ∃ j, (s.phase j).Holds ∧ t.runningOn? = some (crew j).nodeId := by
  obtain ⟨j, hj⟩ := hj
  obtain ⟨r, hr', hk⟩ := (hi.claims.sound j).kept hj
  obtain rfl : t = r := Option.some.inj (ht.symm.trans hr')
  exact ⟨j, hj, hk.runningOn? hr⟩

omit [DecidableEq ι] in
theorem Inv.free_of_idle (hi : Inv crew oid s) (ht : s.world.store.find? oid = some t)
    (hr : t.isReady) (hn : t.runningOn? = none) : ¬ Taken s := by
  intro hj
  obtain ⟨j, -, h⟩ := hi.runningOn?_of_taken ht hr hj
  rw [hn] at h
  cases h

omit [DecidableEq ι] in
/-- A copy that shows the record of a held task belongs to a live run. -/
theorem Inv.isLive (hc : Contenders crew oid) (hi : Inv crew oid s)
    (ht : s.world.store.find? oid = some t) (hj : Taken s) (hr : t.isReady) :
    Preparation.isLive t (crew i).nodeId (s.world.registered (crew i).place oid).isSome
      (crew i).recovering := by
  obtain ⟨j, hj, hn⟩ := hi.runningOn?_of_taken ht hr hj
  simp only [Preparation.isLive, hn, hc.fresh]
  split
  · next hn =>
    have hent := Phase.Holds.entered hj
    obtain ⟨h, hh⟩ := hent.handle
    have he := hi.runs.entry j h hh hent
    rw [hc.task] at he
    rw [← hc.place j i hn, he]
    rfl
  · rfl

/-- A firing writes the record. If it holds the task by that, nobody held it before. -/
theorem Inv.write (hc : Contenders crew oid) (hi : Inv crew oid s)
    (hw : s.world.Writes oid r d w)
    (hd : r.Withdrawn → (Store.written r d).Withdrawn)
    (hk : ∀ j, j ≠ i → (s.phase j).Holds → r.Kept (crew j).nodeId →
      (Store.written r d).Kept (crew j).nodeId)
    (hp : ∀ taken, Sound (some (Store.written r d)) taken (crew i).nodeId p)
    (hh : p.Holds → (s.phase i).Holds ∨ ¬ Taken s) :
    Claims crew oid ⟨w, Function.update s.phase i p⟩ := by
  have holds : ∀ j, (Function.update s.phase i p j).Holds →
      (s.phase j).Holds ∨ j = i ∧ ¬ Taken s :=
    Stage.forall_update (P := fun j q => q.Holds → (s.phase j).Holds ∨ j = i ∧ ¬ Taken s)
      (fun h => (hh h).imp id fun h => ⟨rfl, h⟩) fun _ _ => .inl
  refine ⟨hw.available hi.claims.available, ?_, ?_⟩
  · rw [hw.after]
    refine Stage.forall_update (P := fun j => Sound _ _ (crew j).nodeId) (hp _) fun j hj => ?_
    have hs := hi.claims.sound j
    rw [hw.before] at hs
    refine hs.written hw.rises (fun t ht => ?_) hd (hk j hj)
    exact hi.copies.precedes j t r ht (by rw [hc.task]; exact hw.before)
  · intro j k hj hk
    rcases holds j hj with hj' | ⟨hj', hn⟩
    · rcases holds k hk with hk' | ⟨-, hn⟩
      · exact hi.claims.exclusive j k hj' hk'
      · exact absurd ⟨j, hj'⟩ hn
    · rcases holds k hk with hk' | ⟨hk', -⟩
      · exact absurd ⟨k, hk'⟩ hn
      · rw [hj', hk']

/-- A firing does an errand for the stop action or for its handler. -/
theorem Inv.errand {tenure : Tenure} {e : Errand} (hc : Contenders crew oid)
    (hi : Inv crew oid s) (hq : s.phase i = .busy tenure e)
    (hw : s.world.Writes oid r d w) (hd : r.Withdrawn → (Store.written r d).Withdrawn)
    (hk : ∀ node, r.Kept node → (Store.written r d).Kept node) :
    Claims crew oid ⟨w, Function.update s.phase i (.busy tenure .none)⟩ := by
  have hs := hi.claims.sound i
  rw [hq, hw.before] at hs
  refine hi.write hc hw hd (fun _ _ _ => hk _) (fun taken => ?_) ?_
  · exact (hs.written hw.rises (fun _ h => by cases h) hd fun _ => hk _).errand
      (fitting_none _ tenure)
  · rw [hq]
    exact fun h => .inl h.busy

/-- A firing writes the record. -/
theorem Inv.modify_ok {c : Precondition} {oid' : TaskOid} (hc : Contenders crew oid)
    (hi : Inv crew oid s)
    (ha : s.world.Answers (crew i).place (.modify oid' d c) (.ok t) w)
    (hm : Phase.Move (crew i) (HandlerCall.Spares oid) (s.phase i) (.modify oid' d c) (.ok t) p)
    (hv : t.version ≠ 0)
    (ht : (Event.deed i (.answered (.modify oid' d c) (.ok t))).Takes (crew i) i →
      Vetted (crew i) (s.world.store.find? oid)) :
    Claims crew oid ⟨w, Function.update s.phase i p⟩ := by
  obtain rfl := hc.task i
  have hs := hi.claims.sound i
  have hcopy := fun t r => hi.copies.precedes i t r
  have hready := hi.copies.ready i
  have hidle := hi.watched i
  generalize hq : s.phase i = q at hm hs hcopy hready hidle
  cases hm with
  | aside hr => cases hr
  | @repair t₀ =>
      obtain ⟨r, hw, hp, rfl⟩ := ha.modify_ok hv
      obtain rfl : r = t₀ := Copies.eq_of_violation? (hcopy _ _ rfl hw.before) hp
      have hfree : ¬ Taken s := hs hw.before
      refine hi.write hc hw (fun h => h.written nofun) ?_ (fun _ => trivial) fun h => h.elim
      exact fun j _ hj => absurd ⟨j, hj⟩ hfree
  | @start t₀ _ h =>
      obtain ⟨r, hw, hp, rfl⟩ := ha.modify_ok hv
      obtain rfl : r = t₀ := Copies.eq_of_violation? (hcopy _ _ rfl hw.before) hp
      have idle : r.runningOn? = none :=
        (ht ⟨_, _, rfl⟩).elim (fun looked => hidle looked hw.before) fun hn => hn r hw.before
      have hfree : ¬ Taken s := hi.free_of_idle hw.before (hready r rfl trivial) idle
      refine hi.write hc hw (fun h => h.written nofun) ?_ (fun _ => ?_) fun _ => .inr hfree
      · exact fun j _ hj => absurd ⟨j, hj⟩ hfree
      · exact ⟨⟨_, rfl, .inl rfl⟩, fitting_none _ _⟩
  | close =>
      obtain ⟨r, hw, -, rfl⟩ := ha.modify_ok hv
      exact hi.errand hc hq hw (fun h => h.written nofun) fun _ =>
        kept_closing (hs.fitting r hw.before)
  | suspend =>
      obtain ⟨r, hw, -, rfl⟩ := ha.modify_ok hv
      exact hi.errand hc hq hw (fun h => h.written nofun) fun _ =>
        kept_suspending (hs.fitting r hw.before)
  | @wake tenure d _ hd =>
      obtain ⟨r, hw, -, rfl⟩ := ha.modify_ok hv
      have hb : r.halting = .ok d := by
        have := hs.fitting r hw.before
        cases tenure <;> exact this
      -- The stop action that makes the task ready is not the one of a withdrawn task.
      have hn : ¬ r.Withdrawn := by
        rintro ⟨-, h | h⟩ <;> rw [hb] at h <;> rcases hd with rfl | rfl <;> cases h
      exact hi.errand hc hq hw (fun h => absurd h hn) fun _ hk =>
        hk.written rfl rfl fun h => absurd h hn
  | record =>
      obtain ⟨r, hw, -, rfl⟩ := ha.modify_ok hv
      exact hi.errand hc hq hw (fun h => h.written nofun) fun _ hk =>
        hk.written rfl rfl fun _ => nofun
  | @settle h t₀ _ _ hp =>
      obtain ⟨r, hw, -, rfl⟩ := ha.modify_ok hv
      have hh : (s.phase i).Holds := by
        rw [hq]
        trivial
      refine hi.write hc hw (fun h => h.written nofun) ?_ (fun _ => fitting_none _ _) fun h =>
        h.elim
      exact fun j hj hj' => absurd (hi.claims.exclusive j i hj' hh) hj

/-- A write of the record fails. That cannot be an unconditional one by the firing that
holds the task, as its record is there. -/
theorem Inv.modify_error {c : Precondition} {oid' : TaskOid} {err : StoreError}
    (hc : Contenders crew oid) (hi : Inv crew oid s)
    (ha : s.world.Answers (crew i).place (.modify oid' d c) (.error err) w)
    (hm : Phase.Move (crew i) (HandlerCall.Spares oid) (s.phase i) (.modify oid' d c)
      (.error err) p) : Claims crew oid ⟨w, Function.update s.phase i p⟩ := by
  obtain rfl := hc.task i
  have hs := hi.claims.sound i
  have hav := hi.claims.available
  have hstore : w.store = s.world.store := Store.eq_of_modify_error ha.modify.2
  have quiet := fun p => hi.claims.quiet (i := i) (w := w) (p := p) (by rw [hstore])
    (by rw [hstore]; exact id)
  generalize hq : s.phase i = q at hm hs
  rw [hq] at quiet
  cases hm with
  | aside hr => cases hr
  | notRepaired => exact quiet _ trivial .rfl
  | notStarted => exact quiet _ (fitting_none _ _) .rfl
  | @close tenure | @suspend tenure | @wake tenure | @record tenure =>
      exact quiet _ (hs.errand (fitting_none _ tenure)) ⟨Phase.Holds.busy, Phase.Holds.busy⟩
  | notSettled => exact quiet _ hs .rfl
  | @neverSettled _ t _ =>
      obtain ⟨⟨r, hr, -⟩, -⟩ := hs
      have hw := Store.modify_always hav hr (Possession.settlingDelta t)
      rw [ha.modify.2] at hw
      cases hw

/-- A firing reads its task. -/
theorem Inv.get {oid' : TaskOid} {a : Except StoreError Task} (hc : Contenders crew oid)
    (hi : Inv crew oid s) (ha : s.world.Answers (crew i).place (.get oid') a w)
    (hm : Phase.Move (crew i) (HandlerCall.Spares oid) (s.phase i) (.get oid') a p) :
    Claims crew oid ⟨w, Function.update s.phase i p⟩ := by
  obtain rfl := hc.task i
  obtain ⟨rfl, hg⟩ := ha.get
  have hs := hi.claims.sound i
  have hav := hi.claims.available
  have quiet := fun p => hi.claims.quiet (i := i) (w := s.world) (p := p) rfl id
  generalize hq : s.phase i = q at hm hs
  rw [hq] at quiet
  cases hm with
  | aside hr => exact quiet _ hs .rfl
  | load | look => exact quiet _ trivial .rfl
  | recoverClosing hr | recoverSuspending hr => simp [hc.fresh] at hr
  | @decide tenure t d hw _ hd =>
      refine quiet _ (hs.errand fun r hr => ?_) ⟨Phase.Holds.busy, Phase.Holds.busy⟩
      obtain rfl : t = r := Option.some.inj ((Store.get_ok hg.symm).symm.trans hr)
      cases tenure <;> exact hd
  | @readToClose tenure e t hr =>
      rw [Store.get_ok hg.symm] at hs quiet
      exact quiet _ (hs.errand (fitting_read (.inl ⟨rfl, rfl⟩) hs hr))
        ⟨Phase.Holds.busy, Phase.Holds.busy⟩
  | @readToSuspend tenure e t hr =>
      rw [Store.get_ok hg.symm] at hs quiet
      exact quiet _ (hs.errand (fitting_read (.inr ⟨rfl, rfl⟩) hs hr))
        ⟨Phase.Holds.busy, Phase.Holds.busy⟩
  | @forget tenure d _ =>
      exact quiet _ (hs.errand (fitting_none _ tenure)) ⟨Phase.Holds.busy, Phase.Holds.busy⟩
  | readToSettle => exact quiet _ (hs.errand fun _ _ => trivial) .rfl
  | giveUp =>
      obtain ⟨⟨r, hr, -⟩, -⟩ := hs
      rw [Store.get_of_find? hav hr] at hg
      cases hg

/-- One step of a firing. -/
theorem Inv.answered {c : Call} {a : c.Response} (hc : Contenders crew oid) (hi : Inv crew oid s)
    (ha : s.world.Answers (crew i).place c a w)
    (hm : Phase.Move (crew i) (HandlerCall.Spares oid) (s.phase i) c a p)
    (hv : ∀ t, Deed.written? (.answered c a) = some t → t.version ≠ 0)
    (ht : (Event.deed i (.answered c a)).Takes (crew i) i →
      Vetted (crew i) (s.world.store.find? oid)) :
    Claims crew oid ⟨w, Function.update s.phase i p⟩ := by
  obtain rfl := hc.task i
  have hs := hi.claims.sound i
  have hm' := hm
  have quiet (hr : ¬ c.MayWrite) := fun p => hi.claims.quiet (i := i) (w := w) (p := p)
    (by rw [ha.store hr]) (by rw [ha.store hr]; exact id)
  generalize hq : s.phase i = q at hm hs
  rw [hq] at quiet
  cases hm with
  | aside hr =>
      have hw := ha.agrees hr
      exact hi.claims.quiet (by rw [hw.store]) (by rw [hw.store]; exact id) hs (by rw [hq])
  | load | recoverClosing | recoverSuspending | look | decide | readToClose
  | readToSuspend | forget | readToSettle | giveUp => exact hi.get hc ha hm'
  | repair | start | settle => exact hi.modify_ok hc ha hm' (hv _ rfl) ht
  | notRepaired | notStarted | notSettled | neverSettled =>
      exact hi.modify_error hc ha hm'
  | @close _ _ _ a | @suspend _ _ a | @wake _ _ a | @record _ _ a =>
      cases a with
      | ok t => exact hi.modify_ok hc ha hm' (hv t rfl) ht
      | error e => exact hi.modify_error hc ha hm'
  | spare hr hl => exact quiet id _ trivial .rfl
  | @doubt t found hr hl =>
      obtain ⟨rfl, rfl⟩ := ha.registered
      exact quiet id _ (fun ht hj => hl (hi.isLive hc ht hj hr)) .rfl
  | halt => exact quiet id _ (fitting_none _ _) .rfl
  | enter => split <;> exact quiet id _ trivial .rfl
  | register => exact quiet id _ trivial .rfl
  | notRegistered => exact quiet id _ trivial .rfl
  | invoke => exact quiet id _ hs .rfl
  | handler hcall =>
      have hw := ha.handler_spares hcall
      exact hi.claims.quiet hw.record hw.available hs (by rw [hq])
  | deregister => exact quiet id _ trivial .rfl

/-- The record of the task advances at every step. -/
theorem advances_of_step (hc : Contenders crew oid)
    (he : s.Step crew (HandlerCall.Spares oid) (World.Spares oid) e s')
    (hv : ∀ t, e.written? = some t → t.version ≠ 0) : s.world.Advances oid s'.world :=
  Copies.advances_of_step (fun _ _ hw => World.advances_of_find? hw.record)
    (fun i _ _ _ _ ha hcall _ => by
      rw [hc.task i] at ha
      exact World.advances_of_find? (ha.handler_spares hcall).record) he hv

/-- What is read in looking for other runs is current, or the copy is not. -/
theorem Watched.step (hc : Contenders crew oid) (hi : Watched crew oid s)
    (copies : Copies.Inv crew s) (hw : s.world.Advances oid s'.world)
    (he : s.Step crew (HandlerCall.Spares oid) (World.Spares oid) e s') :
    Watched crew oid s' := by
  intro j looked
  have kept : Idle (s'.world.store.find? oid) (s.phase j) := by
    have hs := hi j looked
    have hcopy := fun t r => copies.precedes j t r
    rw [hc.task] at hcopy
    generalize s.phase j = q at hs hcopy
    cases q with
    | guarded t h | registered t h =>
        exact fun ht => hs (Task.Precedes.current (fun r => hcopy t r rfl) hw ht)
    | _ => trivial
  cases he with
  | gathered _ | outside _ => exact kept
  | @answered i c a p w ha hm =>
      by_cases hj : j = i
      · subst hj
        simp only [Function.update_self]
        generalize s.phase j = q at hm kept
        cases hm with
        | aside _ | register => exact kept
        | enter => simp [looked, Idle]
        | @look t fresh h hf =>
            intro ht
            rw [hc.task] at ha
            obtain ⟨rfl, hg⟩ := ha.get
            obtain rfl : t = fresh := Option.some.inj (ht.symm.trans (Store.get_ok hg.symm))
            exact hf
        | _ => trivial
      · simpa [hj] using kept

theorem Inv.step (hc : Contenders crew oid) (hi : Inv crew oid s)
    (he : VettedStep crew oid s e s')
    (hv : ∀ t, e.written? = some t → t.version ≠ 0) : Inv crew oid s' := by
  obtain ⟨he, vetted⟩ := he
  have advances := advances_of_step hc he hv
  refine ⟨hi.runs.step (fun w w' hw => ⟨fun i => ?_, hw.owner⟩) he,
    hi.copies.step (fun i => ?_) he, hi.watched.step hc hi.copies advances he, ?_⟩
  · rw [hc.task]
    exact hw.registered _
  · rw [hc.task]
    exact advances
  · cases he with
    | answered ha hm => exact hi.answered hc ha hm hv (vetted _)
    | gathered hw => exact hi.claims.outside hw.spares
    | outside hw => exact hi.claims.outside hw

omit [DecidableEq ι] in
theorem inv_begin (ha : w.store.available) : Inv crew oid (Stage.begin w) where
  runs := Registration.inv_begin w
  copies := Copies.inv_begin w
  watched _ _ := trivial
  claims := ⟨ha, fun _ => trivial, fun _ _ h => by cases h⟩

/-- Whoever holds the task goes on to hold it until a write by which it lets go. -/
theorem Inv.holds_step (hc : Contenders crew oid) (hi : Inv crew oid s)
    (he : s.Step crew (HandlerCall.Spares oid) (World.Spares oid) e s')
    (hh : (s.phase i).Holds) (hl : ¬ e.LetsGo (crew i) i) : (s'.phase i).Holds := by
  obtain rfl := hc.task i
  cases he with
  | gathered _ | outside _ => exact hh
  | @answered j r a p w ha hm =>
      by_cases hj : i = j
      · subst hj
        simp only [Function.update_self]
        obtain ⟨r, hr, -⟩ := (hi.claims.sound i).kept hh
        have hav := hi.claims.available
        generalize s.phase i = q at hm hh
        cases hm with
        | aside _ | invoke | handler _ | readToSettle | notSettled => exact hh
        | start => trivial
        | decide | readToClose | readToSuspend | forget | close | suspend | wake | record =>
            exact hh.busy
        | settle hp => exact absurd ⟨_, _, _, rfl⟩ hl
        | giveUp =>
            have hg := ha.get.2
            rw [Store.get_of_find? hav hr] at hg
            cases hg
        | @neverSettled h t _ =>
            have hw := Store.modify_always hav hr (Possession.settlingDelta t)
            rw [ha.modify.2] at hw
            cases hw
        | _ => cases hh
      · simpa [hj] using hh

/-- In a run, the invariant holds and whoever has the task is in a phase in which it
holds it. -/
theorem vetted_run_inv {es : List (Event ι)} (hc : Contenders crew oid)
    (ha : w.store.available) (hr : Run (VettedStep crew oid) (Stage.begin w) es s)
    (hv : NoWrap es) : Inv crew oid s ∧ ∀ i, Possesses (crew i) i es → (s.phase i).Holds := by
  induction hr with
  | nil =>
      refine ⟨inv_begin ha, fun i hi => ?_⟩
      obtain ⟨before, e, after, hes, -⟩ := hi
      simp at hes
  | @snoc s' s'' es e _ he ih =>
      obtain ⟨hi, hh⟩ := ih fun e he => hv e (List.mem_append_left _ he)
      refine ⟨hi.step hc he (hv e (by simp)), fun i hp => ?_⟩
      rcases possesses_snoc hp with ht | ⟨hp, hl⟩
      · exact Stage.holds_of_takes he.1 ht
      · exact hi.holds_step hc he.1 (hh i hp) hl

/-- Firings that look for other runs take the task only where that is vetted. -/
theorem run_inv {es : List (Event ι)} (hc : Rivals crew oid) (ha : w.store.available)
    (hr : Run (Stage.Step crew (HandlerCall.Spares oid) (World.Spares oid)) (Stage.begin w)
      es s) (hv : NoWrap es) :
    Inv crew oid s ∧ ∀ i, Possesses (crew i) i es → (s.phase i).Holds :=
  vetted_run_inv hc.contenders ha
    (hr.restrict (P := fun _ => True) (fun _ _ => trivial) fun _ _ _ _ he =>
      ⟨he, fun i _ => .inl (hc.guarded i)⟩) hv

end

end Exclusion

/-- Mutual exclusion: whatever the firings of a task do among each other and whatever
happens besides, no two of them have the task at a time. -/
theorem possesses_unique {ι : Type} [DecidableEq ι] {crew : ι → Occasion} {oid : TaskOid}
    {w : World} {c : Scene ι} {es : List (Event ι)} (hc : Exclusion.Rivals crew oid)
    (ha : w.store.available)
    (hr : Run (Scene.Step crew (World.Spares oid)) (Scene.begin crew w) es c)
    (hv : NoWrap es) {i j : ι} (hi : Possesses (crew i) i es)
    (hj : Possesses (crew j) j es) : i = j := by
  obtain ⟨s, hs, -⟩ := Scene.run_shown (Scene.begin_shown hc.handlers w) hr
  obtain ⟨inv, holds⟩ := Exclusion.run_inv hc ha hs hv
  exact inv.claims.exclusive i j (holds i hi) (holds j hj)

namespace Exclusion

/-- Two firings, whose handlers end at once. -/
abbrev crew : Bool → Occasion :=
  Rehearsal.pair (.done (.ok .interrupted)) (.done (.ok .interrupted))

/-- The second of them loads the task and is overtaken by the first one, which takes it. Then
the second one writes the version that it has loaded. -/
abbrev played : List (Event Bool) × Scene Bool :=
  Scene.play crew
    (List.replicate 6 (.go false) ++ List.replicate 8 (.go true) ++ List.replicate 2 (.go false))
    (.begin crew Rehearsal.world)

theorem crew_rivals : Rivals crew Rehearsal.task.oid := by
  refine ⟨?_, ?_, ?_, ?_, Rehearsal.pair_keepsTo trivial trivial⟩
  all_goals decide

/-- Of two firings that have loaded the same version the first one to write has the task, and
the other one is refused. -/
theorem possesses_unique_of_played :
    Possesses (crew true) true played.1 ∧
      (∃ e, .deed false (.answered (.modify Rehearsal.task.oid
        (Possession.runningDelta (crew false).nodeId) (.version 0)) (.error e)) ∈ played.1) ∧
      ∀ j, Possesses (crew j) j played.1 → true = j := by
  have hr : Run (Scene.Step crew (World.Spares Rehearsal.task.oid))
      (Scene.begin crew Rehearsal.world) played.1 played.2 :=
    Scene.play_run _ _ fun f hf => by simp at hf
  have hv : NoWrap played.1 := noWrap_of_all (by decide +kernel)
  have hi : Possesses (crew true) true played.1 := by
    refine ⟨played.1.take 13, _, played.1.drop 14, rfl, ⟨0, _, rfl⟩, fun e he hl => ?_⟩
    have second : (played.1.drop 14).all fun | .deed i _ => !i | .outside => true := by
      decide +kernel
    obtain ⟨_, _, _, rfl⟩ := hl
    exact nomatch List.all_eq_true.mp second _ he
  have loses : ∃ e, .deed false (.answered (.modify Rehearsal.task.oid
      (Possession.runningDelta (crew false).nodeId) (.version 0)) (.error e)) ∈ played.1 :=
    ⟨_, List.mem_of_getElem? (i := 15) rfl⟩
  exact ⟨hi, loses, fun j => possesses_unique crew_rivals rfl hr hv hi⟩

end Exclusion

end TaskFiring
