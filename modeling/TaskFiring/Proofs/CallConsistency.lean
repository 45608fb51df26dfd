import TaskFiring.Proofs.FiringView

/-!
What the calls of a firing do to the world, and how those of two runs of it compare. Its calls
concern its own task only and stop nobody. If two runs of a firing look alike and make calls
that go together, then the answers compare, and the runs look alike after them.
-/

namespace TaskFiring

namespace World

/-- The world is one in which the firing goes on as it would in that one: nobody has changed
the frame or runs in its groups, and nobody has stopped it. -/
structure Suits (f : Occasion) (w w₀ : World) (k : Option HandleId) : Prop where
  frame : w₀.SameFrame w
  counts : ∀ g, w₀.store.InGroup f.oid g →
    w.store.countRunning g f.oid = w₀.store.countRunning g f.oid
  awake : (w₀.site f.place).shutDown = false
  undeterred : w.Undeterred f.oid k

section

variable {w w' w₀ : World} {place : Place} {f : Occasion} {oid : TaskOid} {h : HandleId}
  {k : Option HandleId}

theorem Undeterred.canRun (hu : w.Undeterred oid k) (hk : k = some h) : w.canRun h = true := by
  obtain ⟨handle, hh, -, hun⟩ := hu h hk
  simp [World.canRun, hh, hun.canRun]

theorem Undeterred.isInterrupted (hu : w.Undeterred oid k) (hk : k = some h) :
    w.isInterrupted h = false := by
  obtain ⟨handle, hh, -, hun⟩ := hu h hk
  simp [World.isInterrupted, hh, hun.interrupted]

theorem prospects_spawn (hu : w.Undeterred oid k) (hk : k = some h) (spec : ChildSpec) :
    (w.spawn h spec).2.prospects k = w.prospects k ++
      [(spec.name, ChildWork.fate (spec.work (w.spawn h spec).1), false)] := by
  subst hk
  obtain ⟨handle, hh, -⟩ := hu h rfl
  rw [prospects_some hh, ← Handle.prospect_spawn]
  exact prospects_some (handle?_of_modify (f := (·.spawn (w.spawn h spec).1 spec)) hh rfl)

/-- Both spawn such children. -/
theorem LooksLike.spawn {v : World} {k' : Option HandleId} {h' : HandleId} {c c' : ChildSpec}
    (hl : w.LooksLike f v k k') (hw : w.Undeterred oid k) (hv : v.Undeterred oid k')
    (hk : k = some h) (hk' : k' = some h') (hc : c.Alike c') :
    (w.spawn h c).2.LooksLike f (v.spawn h' c').2 k k' := by
  refine { hl with children := ?_ }
  rw [prospects_spawn hw hk, prospects_spawn hv hk', hl.children, hc.name,
    hc.fate _ (v.spawn h' c').1]

/-- A flag of a handle cannot be seen. -/
theorem LooksLike.onHandle {v : World} {k' : Option HandleId} {h' : HandleId}
    {g g' : Handle → Handle} (hl : w.LooksLike f v k k') (hw : w.Undeterred oid k)
    (hv : v.Undeterred oid k') (hk : k = some h) (hk' : k' = some h')
    (hg : ∀ handle, (g handle).children = handle.children)
    (hg' : ∀ handle, (g' handle).children = handle.children) :
    (w.onHandle h g).LooksLike f (v.onHandle h' g') k k' := by
  subst hk hk'
  obtain ⟨handle, hh, -⟩ := hw h rfl
  obtain ⟨handle', hh', -⟩ := hv h' rfl
  refine { hl with children := ?_ }
  rw [prospects_some (handle?_of_modify hh rfl), prospects_some (handle?_of_modify hh' rfl),
    hg, hg', ← prospects_some hh, ← prospects_some hh']
  exact hl.children

/-- Both are registered, or neither. -/
theorem LooksLike.register {v w' v' : World} {k' : Option HandleId} {h' : HandleId} {b b' : Bool}
    (hl : w.LooksLike f v k k') (ho : w.owner? h = some f.oid) (ho' : v.owner? h' = some f.oid)
    (hr : w.register f.place h = (b, w')) (hr' : v.register f.place h' = (b', v')) :
    b = b' ∧ w'.LooksLike f v' k k' := by
  obtain ⟨hanswer, hentry, -⟩ := register_own ho hr
  obtain ⟨hanswer', hentry', -⟩ := register_own ho' hr'
  obtain ⟨sites, rfl, -⟩ := onlyRegisters_register hr
  obtain ⟨sites', rfl, -⟩ := onlyRegisters_register hr'
  exact ⟨by rw [hanswer, hanswer', hl.registered],
    { hl with registered := hentry'.trans hentry.symm, children := hl.children }⟩

theorem LooksLike.deregister {v w' v' : World} {k' : Option HandleId} {h' : HandleId}
    {b b' : Bool} (hl : w.LooksLike f v k k') (ho : w.owner? h = some f.oid)
    (ho' : v.owner? h' = some f.oid) (hreg : w.registered f.place f.oid = some h)
    (hreg' : v.registered f.place f.oid = some h') (hr : w.deregister f.place h = (b, w'))
    (hr' : v.deregister f.place h' = (b', v')) : w'.LooksLike f v' k k' := by
  have hentry := deregister_own ho hreg hr
  have hentry' := deregister_own ho' hreg' hr'
  obtain ⟨sites, rfl, -⟩ := onlyRegisters_deregister hr
  obtain ⟨sites', rfl, -⟩ := onlyRegisters_deregister hr'
  exact { hl with registered := by rw [hentry, hentry'], children := hl.children }

/-- A handler that was not interrupted gets its answer. -/
theorem Answers.handler_performed {call : HandlerCall} {a : Option call.Response}
    (ha : w.Answers place (.handler h oid call) a w') (hi : w.isInterrupted h = false) :
    ∃ x, a = some x ∧ w.performHandler h oid call = some (x, w') := by
  cases ha with
  | cut hc => exact nomatch hc.symm.trans hi
  | performed hp =>
      obtain ⟨⟨x, w₁⟩, hx, hp⟩ := Option.map_eq_some_iff.mp hp
      obtain ⟨rfl, rfl⟩ := Prod.mk.inj hp
      exact ⟨x, rfl, hx⟩

end

end World

/-! Calls without a handle. -/

namespace Call.IsOwn

open World

variable {s : Store} {f : Occasion} {oid : TaskOid} {r : Call} {w₀ w w' v v' : World}
  {place : Place} {a b : r.Response} {k k' : Option HandleId}

/-- Such a call is answered at once. -/
theorem performed (hr : r.IsOwn s oid) (ha : w.Answers place r a w') :
    w.perform place r = some (a, w') := by
  cases ha with
  | performed hp => exact hp
  | gathered _ | cut _ => exact hr.elim

theorem made? (hr : r.IsOwn s oid) (a : r.Response) : Custody.made? (.answered r a) = none := by
  cases r with
  | newHandle => exact hr.elim
  | _ => rfl

theorem handles (hr : r.IsOwn s oid) (hp : w.perform place r = some (a, w')) :
    w'.handles = w.handles := by
  cases r with
  | get | countRunning | nextFireTime | now | schedulerRunning | notifyStarted | notifyFinished
  | establish | clearIdentity | modify | unschedule | rescheduleLater | scheduleNow
  | deleteJob =>
      cases hp
      rfl
  | _ => exact hr.elim

theorem sameBut (hr : r.IsOwn s oid) (hp : w.perform place r = some (a, w')) :
    w.SameBut oid w' := by
  cases r with
  | get | countRunning | nextFireTime | now | schedulerRunning | notifyStarted | notifyFinished
  | establish | clearIdentity =>
      cases hp
      exact sameBut_of_eq oid rfl rfl rfl rfl
  | modify o d p =>
      cases hp
      obtain rfl : o = oid := hr
      exact sameBut_modify w o d p
  | unschedule o =>
      cases hp
      obtain rfl : o = oid := hr
      exact sameBut_record w (.unscheduled o)
  | rescheduleLater o t =>
      cases hp
      obtain rfl : o = oid := hr
      exact sameBut_record w (.rescheduledLater o t)
  | scheduleNow o =>
      cases hp
      obtain rfl : o = oid := hr
      exact sameBut_record w (.scheduledNow o)
  | deleteJob o =>
      cases hp
      obtain rfl : o = oid := hr
      exact sameBut_deleteJob w o
  | _ => exact hr.elim

/-- Two runs that look alike get the same answer. -/
theorem answered (hr : r.IsOwn w₀.store f.oid) (hw : w.Suits f w₀ k) (hv : v.Suits f w₀ k')
    (hl : w.LooksLike f v k k') (hp : w.perform f.place r = some (a, w'))
    (hq : v.perform f.place r = some (b, v')) : a = b ∧ w'.LooksLike f v' k k' := by
  have frame : w.SameFrame v := hw.frame.symm.trans hv.frame
  cases r with
  | get o =>
      cases hp
      cases hq
      obtain rfl : o = f.oid := hr
      exact ⟨(Store.get_congr frame.available hl.record).symm, hl⟩
  | modify o d p =>
      cases hp
      cases hq
      obtain rfl : o = f.oid := hr
      obtain ⟨hanswer, hrecord⟩ := Store.modify_congr frame.available hl.record d p
      exact ⟨hanswer.symm, { hl with record := hrecord }⟩
  | countRunning g o =>
      cases hp
      cases hq
      obtain ⟨rfl, hg⟩ := hr
      exact ⟨(hw.counts g hg).trans (hv.counts g hg).symm, hl⟩
  | unschedule o | rescheduleLater o _ | scheduleNow o =>
      cases hp
      cases hq
      obtain rfl : o = f.oid := hr
      obtain ⟨hanswer, hevents⟩ := Trigger.record_congr frame.failing hl.events _
      refine ⟨hanswer.symm, { hl with events := hevents, fireTime := ?_ }⟩
      rw [(Trigger.record_rest _ _).1, (Trigger.record_rest _ _).1]
      exact hl.fireTime
  | deleteJob o =>
      cases hp
      cases hq
      obtain rfl : o = f.oid := hr
      obtain ⟨hanswer, hevents⟩ := @Trigger.record_congr (w.trigger.forget f.oid)
        (v.trigger.forget f.oid) f.oid frame.failing hl.events (.jobDeleted f.oid)
      refine ⟨hanswer.symm, { hl with events := hevents, fireTime := ?_ }⟩
      simp only [Trigger.deleteJob, (Trigger.record_rest _ _).1, Trigger.forget,
        Table.find?_erase, if_true]
  | nextFireTime o =>
      cases hp
      cases hq
      obtain rfl : o = f.oid := hr
      refine ⟨?_, hl⟩
      simp only [Trigger.nextFireTime, frame.timesUnknown, hl.fireTime]
  | schedulerRunning =>
      cases hp
      cases hq
      exact ⟨frame.running.symm, hl⟩
  | now =>
      cases hp
      cases hq
      exact ⟨frame.now.symm, hl⟩
  | notifyStarted | notifyFinished | establish | clearIdentity =>
      cases hp
      cases hq
      exact ⟨rfl, { hl with }⟩
  | _ => exact hr.elim

end Call.IsOwn

/-! Calls of the handler. -/

namespace HandlerCall.Kin

open World

variable {f : Occasion} {oid : TaskOid} {c c' : HandlerCall}
  {like : c.Response → c'.Response → Prop} {w₀ w w' v v' : World} {h h' : HandleId}
  {x : c.Response} {y : c'.Response} {k k' : Option HandleId}

theorem sameBut (hc : Kin oid c c' like) (hp : w.performHandler h oid c = some (x, w')) :
    w.SameBut oid w' := by
  cases hc with
  | identity | spawn _ | write =>
      cases hp
      exact sameBut_of_eq oid rfl rfl rfl rfl
  | own hc =>
      cases c with
      | canRun =>
          cases hp
          exact sameBut_of_eq oid rfl rfl rfl rfl
      | wait | awaitInterrupt =>
          obtain ⟨-, hp⟩ := Option.ite_none_right_eq_some.mp hp
          cases hp
          exact sameBut_of_eq oid rfl rfl rfl rfl
      | switchToWaiting =>
          cases hp
          exact sameBut_modify w oid _ _
      | disturb d =>
          cases d with
          | write o d =>
              cases hp
              obtain rfl : o = oid := hc
              exact sameBut_modify w o d _
          | _ => exact hc.elim
      | _ => exact hc.elim

theorem undeterred (hc : Kin oid c c' like) (hp : w.performHandler h oid c = some (x, w'))
    (hu : w.Undeterred oid k) : w'.Undeterred oid k := by
  cases hc with
  | identity | write =>
      cases hp
      exact hu
  | spawn _ =>
      cases hp
      exact hu.modify rfl fun _ _ h => ⟨rfl, h.spawn _ _⟩
  | own hc =>
      cases c with
      | canRun | switchToWaiting =>
          cases hp
          exact hu
      | wait | awaitInterrupt =>
          obtain ⟨-, hp⟩ := Option.ite_none_right_eq_some.mp hp
          cases hp
          exact hu
      | disturb d =>
          cases hp
          cases d <;> exact hu
      | _ => exact hc.elim

/-- The handlers of two runs that look alike get answers that compare. -/
theorem performed (hc : Kin f.oid c c' like) (hw : w.Suits f w₀ k) (hv : v.Suits f w₀ k')
    (hl : w.LooksLike f v k k') (hk : k = some h) (hk' : k' = some h')
    (hp : w.performHandler h f.oid c = some (x, w'))
    (hq : v.performHandler h' f.oid c' = some (y, v')) :
    like x y ∧ w'.LooksLike f v' k k' := by
  have available : v.store.available = w.store.available :=
    hv.frame.available.trans hw.frame.available.symm
  cases hc with
  | identity =>
      cases hp
      cases hq
      exact ⟨trivial, hl⟩
  | write =>
      cases hp
      cases hq
      exact ⟨trivial, { hl with }⟩
  | spawn hc =>
      cases hp
      cases hq
      exact ⟨trivial, hl.spawn hw.undeterred hv.undeterred hk hk' hc⟩
  | own hc =>
      cases c with
      | canRun =>
          cases hp
          cases hq
          exact ⟨(hw.undeterred.canRun hk).trans (hv.undeterred.canRun hk').symm, hl⟩
      | wait | awaitInterrupt =>
          obtain ⟨-, hp⟩ := Option.ite_none_right_eq_some.mp hp
          obtain ⟨-, hq⟩ := Option.ite_none_right_eq_some.mp hq
          cases hp
          cases hq
          exact ⟨rfl, hl⟩
      | switchToWaiting =>
          cases hp
          cases hq
          obtain ⟨hanswer, hrecord⟩ :=
            Store.modify_congr available hl.record waitingDelta .always
          exact ⟨hanswer.symm, { hl with record := hrecord }⟩
      | disturb d =>
          cases d with
          | write o d =>
              cases hp
              cases hq
              obtain rfl : o = f.oid := hc
              exact ⟨rfl, { hl with
                record := (Store.modify_congr available hl.record d .always).2 }⟩
          | _ => exact hc.elim
      | _ => exact hc.elim

end HandlerCall.Kin

/-! All calls of a firing. -/

/-- The firing makes its calls under its handle, takes only one, and leaves the registry only
if it is in it. -/
structure Call.Proper (f : Occasion) (w : World) (k : Option HandleId) (r : Call) : Prop where
  own : ∀ h, r.handle? = some h → k = some h
  first : (∃ o, r = .newHandle o) → k = none
  leaves : ∀ h, r = .deregister h → w.registered f.place f.oid = some h

namespace Call.Kin

open World

section

variable {s : Store} {oid : TaskOid} {r r' : Call} {like : r.Response → r'.Response → Prop}
  {w w' : World} {place : Place} {a : r.Response} {k : Option HandleId}

/-- A call of a firing concerns its task only. -/
theorem sameBut (hk : Kin s oid r r' like)
    (ho : ∀ h, r.handle? = some h → w.owner? h = some oid) (ha : w.Answers place r a w') :
    w.SameBut oid w' := by
  cases hk with
  | own hr => exact hr.sameBut (hr.performed ha)
  | register => exact sameBut_register (ho _ rfl) ha.register
  | deregister => exact sameBut_deregister (ho _ rfl) ha.deregister
  | get | registered | newHandle | isShutDown | canRun | isInterrupted | setSafe | setExecuting
  | spawn =>
      cases ha with
      | performed hp =>
          cases hp
          exact sameBut_of_eq oid rfl rfl rfl rfl
  | collect =>
      cases ha with
      | performed hp => cases hp
      | gathered _ => exact sameBut_of_eq oid rfl rfl rfl rfl
  | @handler h h' c c' like hc =>
      cases ha with
      | cut _ => exact sameBut_of_eq oid rfl rfl rfl rfl
      | performed hp =>
          obtain ⟨⟨b, w₁⟩, hb, hp⟩ := Option.map_eq_some_iff.mp hp
          obtain ⟨rfl, rfl⟩ := Prod.mk.inj hp
          exact hc.sameBut hb

/-- No call of a firing stops it or a child of it. -/
theorem undeterred (hk : Kin s oid r r' like) (hm : (∃ o, r = .newHandle o) → k = none)
    (ha : w.Answers place r a w') (hu : w.Undeterred oid k) :
    w'.Undeterred oid (k.or (Custody.made? (.answered r a))) := by
  have quiet (h : Custody.made? (.answered r a) = none) (hw : w'.Undeterred oid k) :
      w'.Undeterred oid (k.or (Custody.made? (.answered r a))) := by
    rwa [h, Option.or_none]
  cases hk with
  | own hr => exact quiet (hr.made? a) (hu.of_handles (hr.handles (hr.performed ha)))
  | register => exact quiet rfl (hu.of_handles (register_handles ha.register))
  | deregister => exact quiet rfl (hu.of_handles (deregister_handles ha.deregister))
  | get | registered | isShutDown | canRun | isInterrupted =>
      cases ha with
      | performed hp =>
          cases hp
          exact quiet rfl hu
  | newHandle =>
      cases ha with
      | performed hp =>
          cases hp
          obtain rfl := hm ⟨_, rfl⟩
          rintro _ ⟨⟩
          exact ⟨{ oid }, by simp [World.handle?], rfl, rfl, rfl, nofun⟩
  | setSafe | setExecuting =>
      cases ha with
      | performed hp =>
          cases hp
          exact quiet rfl (hu.modify rfl fun _ _ h => ⟨rfl, h.canRun, h.interrupted, h.children⟩)
  | spawn =>
      cases ha with
      | performed hp =>
          cases hp
          exact quiet rfl (hu.modify rfl fun _ _ h => ⟨rfl, h.spawn _ _⟩)
  | collect =>
      cases ha with
      | performed hp => cases hp
      | gathered _ => exact quiet rfl hu
  | @handler h h' c c' like hc =>
      refine quiet rfl ?_
      cases ha with
      | cut _ => exact hu
      | performed hp =>
          obtain ⟨⟨b, w₁⟩, hb, hp⟩ := Option.map_eq_some_iff.mp hp
          obtain ⟨rfl, rfl⟩ := Prod.mk.inj hp
          exact hc.undeterred hb hu

end

section

variable {f : Occasion} {r r' : Call} {like : r.Response → r'.Response → Prop}
  {w₀ w w' v v' : World} {a : r.Response} {b : r'.Response} {k k' : Option HandleId}

/-- The answers to the calls of two runs compare, and the runs look alike after them. -/
theorem answered (hk : Kin w₀.store f.oid r r' like) (hw : w.Suits f w₀ k)
    (hv : v.Suits f w₀ k') (hl : w.LooksLike f v k k') (hr : r.Proper f w k)
    (hr' : r'.Proper f v k') (ha : w.Answers f.place r a w') (hb : v.Answers f.place r' b v') :
    like a b ∧ w'.LooksLike f v' (k.or (Custody.made? (.answered r a)))
      (k'.or (Custody.made? (.answered r' b))) := by
  have quiet (h : Custody.made? (.answered r a) = none)
      (h' : Custody.made? (.answered r' b) = none) (hl : w'.LooksLike f v' k k') :
      w'.LooksLike f v' (k.or (Custody.made? (.answered r a)))
        (k'.or (Custody.made? (.answered r' b))) := by
    rwa [h, h', Option.or_none, Option.or_none]
  have available : v.store.available = w.store.available :=
    hv.frame.available.trans hw.frame.available.symm
  cases hk with
  | own hown =>
      obtain ⟨hab, hl'⟩ := hown.answered hw hv hl (hown.performed ha) (hown.performed hb)
      exact ⟨⟨hab, ha.fair⟩, quiet (hown.made? a) (hown.made? b) hl'⟩
  | get o =>
      obtain ⟨rfl, rfl⟩ := ha.get
      obtain ⟨rfl, rfl⟩ := hb.get
      refine ⟨⟨hw.frame.forest.get hw.frame.available o,
        hv.frame.forest.get hv.frame.available o, ?_⟩, quiet rfl rfl hl⟩
      rintro rfl
      exact (Store.get_congr available hl.record).symm
  | registered =>
      obtain ⟨rfl, rfl⟩ := ha.registered
      obtain ⟨rfl, rfl⟩ := hb.registered
      exact ⟨hl.registered.symm, quiet rfl rfl hl⟩
  | newHandle =>
      -- the two handles need not be the same, but none has a child yet
      cases ha with
      | performed hp =>
      cases hb with
      | performed hq =>
          cases hp
          cases hq
          obtain rfl := hr.first ⟨_, rfl⟩
          obtain rfl := hr'.first ⟨_, rfl⟩
          refine ⟨trivial, { hl with children := ?_ }⟩
          simp [Custody.made?, prospects, World.handle?]
  | isShutDown =>
      cases ha with
      | performed hp =>
      cases hb with
      | performed hq =>
          cases hp
          cases hq
          exact ⟨⟨(hw.frame.shutDown _).trans hw.awake, (hv.frame.shutDown _).trans hv.awake⟩,
            quiet rfl rfl hl⟩
  | canRun =>
      cases ha with
      | performed hp =>
      cases hb with
      | performed hq =>
          cases hp
          cases hq
          exact ⟨⟨hw.undeterred.canRun (hr.own _ rfl), hv.undeterred.canRun (hr'.own _ rfl)⟩,
            quiet rfl rfl hl⟩
  | isInterrupted =>
      cases ha with
      | performed hp =>
      cases hb with
      | performed hq =>
          cases hp
          cases hq
          exact ⟨⟨hw.undeterred.isInterrupted (hr.own _ rfl),
            hv.undeterred.isInterrupted (hr'.own _ rfl)⟩, quiet rfl rfl hl⟩
  | setSafe | setExecuting =>
      cases ha with
      | performed hp =>
      cases hb with
      | performed hq =>
          cases hp
          cases hq
          exact ⟨trivial, quiet rfl rfl (hl.onHandle hw.undeterred hv.undeterred (hr.own _ rfl)
            (hr'.own _ rfl) (fun _ => rfl) fun _ => rfl)⟩
  | register =>
      obtain ⟨hab, hl'⟩ := hl.register (hw.undeterred.owner (hr.own _ rfl))
        (hv.undeterred.owner (hr'.own _ rfl)) ha.register hb.register
      exact ⟨hab, quiet rfl rfl hl'⟩
  | deregister =>
      exact ⟨trivial, quiet rfl rfl (hl.deregister (hw.undeterred.owner (hr.own _ rfl))
        (hv.undeterred.owner (hr'.own _ rfl)) (hr.leaves _ rfl) (hr'.leaves _ rfl)
        ha.deregister hb.deregister)⟩
  | spawn hc =>
      cases ha with
      | performed hp =>
      cases hb with
      | performed hq =>
          cases hp
          cases hq
          exact ⟨trivial, quiet rfl rfl (hl.spawn hw.undeterred hv.undeterred (hr.own _ rfl)
            (hr'.own _ rfl) hc)⟩
  | collect =>
      cases ha with
      | performed hp => cases hp
      | gathered _ =>
          cases hb with
          | performed hq => cases hq
          | gathered _ => exact ⟨rfl, quiet rfl rfl hl⟩
  | @handler h h' c c' like hc =>
      obtain ⟨x, rfl, hp⟩ := ha.handler_performed (hw.undeterred.isInterrupted (hr.own _ rfl))
      obtain ⟨y, rfl, hq⟩ := hb.handler_performed (hv.undeterred.isInterrupted (hr'.own _ rfl))
      obtain ⟨hxy, hl'⟩ := hc.performed hw hv hl (hr.own _ rfl) (hr'.own _ rfl) hp hq
      exact ⟨⟨x, y, rfl, rfl, hxy⟩, quiet rfl rfl hl'⟩

end

end Call.Kin

end TaskFiring
