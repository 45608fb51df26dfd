import TaskFiring.Proofs.Contest

/-!
What a contest puts up with. The firings of a task need a store and a scheduler at work, the
hierarchy as it was, their handles, and nodes that are not shut down. No call by which a
firing in a contest goes on takes any of it away; most of them leave the record of the task
and its registries alone besides.
-/

namespace TaskFiring

/-- A call by which a firing in a contest goes on. -/
def Call.Contests (oid : TaskOid) : Call → Prop
  | .register _ | .deregister _ | .isInterrupted _ => True
  | .handler _ _ call => call.Behaves oid
  | r => r.IsLight oid

namespace World

/-- The firing of the handle was stopped. -/
def Stopped (w : World) (h : HandleId) : Prop :=
  ∃ handle, w.handle? h = some handle ∧ (handle.interrupted ∨ ¬ handle.canRun)

/-- Nothing was done that a firing cannot do with, but maybe to records and registries. -/
structure Favours (f : Occasion) (w w' : World) : Prop where
  available : w.store.available → w'.store.available
  forest : w.store.SameForest w'.store
  scheduler : w.trigger.running → w'.trigger.running
  awake : (w.site f.place).shutDown = false → (w'.site f.place).shutDown = false
  owner : ∀ h oid, w.owner? h = some oid → w'.owner? h = some oid
  unstopped : ∀ h, w.owner? h = some f.oid → w'.Stopped h → w.Stopped h

/-- Nobody but the firings writes the record of the task or registers it, and nothing is done
that a firing cannot do with. -/
structure Abstains (f : Occasion) (w w' : World) : Prop extends Favours f w w' where
  record : w'.store.find? f.oid = w.store.find? f.oid
  registered : w'.registered f.place f.oid = w.registered f.place f.oid

section

variable {w w' : World} {f : Occasion} {place : Place} {h : HandleId} {oid : TaskOid}

theorem Agrees.abstains (hw : w.Agrees w') (ht : w'.trigger.running = w.trigger.running)
    (hs : w'.sites = w.sites) (hu : ∀ h, w'.Stopped h → w.Stopped h) : w.Abstains f w' where
  available := by rw [hw.store]; exact id
  forest := hw.store ▸ .refl _
  scheduler := by rw [ht]; exact id
  awake := by simp only [site, hs]; exact id
  owner := hw.owner
  unstopped h _ := hu h
  record := by rw [hw.store]
  registered := hw.registered _ _

theorem Abstains.refl (f : Occasion) (w : World) : w.Abstains f w :=
  (Agrees.refl w).abstains rfl rfl fun _ => id

/-- No change to a handle stops its firing that leaves its flags alone. -/
theorem stopped_onHandle {g : Handle → Handle} (hi : ∀ k, (g k).interrupted = k.interrupted)
    (hc : ∀ k, (g k).canRun = k.canRun) {h' : HandleId} (hs : (w.onHandle h g).Stopped h') :
    w.Stopped h' := by
  obtain ⟨handle, hh, hs⟩ := hs
  obtain ⟨k, hk, rfl⟩ : ∃ k, w.handle? h' = some k ∧
      (if h.index = h'.index then g k else k) = handle := by
    simpa [handle?, onHandle, List.getElem?_modify] using hh
  refine ⟨k, hk, ?_⟩
  split at hs
  · rwa [hi, hc] at hs
  · exact hs

theorem stopped_newHandle
    (hs : ({ w with handles := w.handles ++ [{ oid := oid }] } : World).Stopped h) :
    w.Stopped h := by
  obtain ⟨handle, hh, hs⟩ := hs
  simp only [handle?, List.getElem?_append] at hh
  split at hh
  · exact ⟨handle, hh, hs⟩
  · obtain rfl := List.mem_singleton.mp (List.mem_of_getElem? hh)
    simp at hs

theorem Answers.not_stopped {h : HandleId} (ha : w.Answers place (.newHandle oid) h w') :
    ¬ w'.Stopped h := by
  cases ha with
  | performed hp =>
      cases hp
      intro hs
      obtain ⟨handle, hh, -⟩ := stopped_newHandle hs
      simp [handle?] at hh

theorem abstains_onHandle (w : World) (h : HandleId) {g : Handle → Handle}
    (ho : ∀ k, (g k).oid = k.oid) (hi : ∀ k, (g k).interrupted = k.interrupted)
    (hc : ∀ k, (g k).canRun = k.canRun) : w.Abstains f (w.onHandle h g) :=
  (agrees_onHandle w h ho).abstains rfl rfl fun _ => stopped_onHandle hi hc

theorem abstains_spawn (w : World) (h : HandleId) (spec : ChildSpec) :
    w.Abstains f (w.spawn h spec).2 :=
  (agrees_spawn w h spec).abstains rfl rfl fun _ hs =>
    stopped_onHandle (w := { w with nextChild := w.nextChild + 1 })
      (g := (·.spawn ⟨BitVec.ofNat 128 w.nextChild⟩ spec)) (fun _ => rfl) (fun _ => rfl) hs

theorem Answers.abstains {r : Call} {a : r.Response} (ha : w.Answers place r a w')
    (hr : r.IsHarmless) : w.Abstains f w' := by
  cases ha with
  | gathered _ | cut _ => exact .refl f w
  | performed hp =>
      cases r with
      | modify | register | deregister | shutDown | isInterrupted | handler => cases hr
      | clearCanRun | interruptHandler => cases hr
      | collect => cases hp
      | newHandle oid =>
          cases hp
          exact (agrees_newHandle w oid).abstains rfl rfl fun _ => stopped_newHandle
      | setSafe h | setExecuting h | cancelChildren h abort =>
          cases hp
          exact abstains_onHandle w h (fun _ => rfl) (fun _ => rfl) fun _ => rfl
      | spawn h spec =>
          cases hp
          exact abstains_spawn w h spec
      | unschedule | deleteJob | rescheduleLater | scheduleNow =>
          cases hp
          exact Agrees.abstains ⟨⟨fun _ _ => rfl, fun _ _ => id⟩, rfl⟩
            (Trigger.record_rest _ _).2.2.1 rfl fun _ => id
      | _ =>
          cases hp
          exact Agrees.abstains ⟨⟨fun _ _ => rfl, fun _ _ => id⟩, rfl⟩ rfl rfl fun _ => id

theorem favours_of_store {s : Store} (ha : w.store.available → s.available)
    (hf : w.store.SameForest s) : w.Favours f { w with store := s } :=
  ⟨ha, hf, id, id, fun _ _ => id, fun _ _ => id⟩

theorem favours_modify (w : World) (oid : TaskOid) (d : TaskDelta) (c : Precondition) :
    w.Favours f { w with store := (w.store.modify oid d c).2 } := by
  refine favours_of_store ?_ (Store.sameForest_modify _ _ _ _)
  rcases w.store.modify_cases oid d c with ⟨e, hm⟩ | ⟨r, s, hm, -, -, ha, -⟩
  · rw [hm]
    exact id
  · rw [hm, ha]
    exact id

theorem OnlyRegisters.favours (hw : w.OnlyRegisters w') : w.Favours f w' := by
  obtain ⟨_, rfl, same⟩ := hw
  exact ⟨id, .refl _, id, (same f.place).trans, fun _ _ => id, fun _ _ => id⟩

theorem favours_disturb {d : Disturbance} (hd : (HandlerCall.disturb d).Behaves oid) :
    w.Favours f (w.disturb d) := by
  cases d with
  | write oid' d => exact favours_modify w oid' d .always
  | remove oid' => exact absurd rfl (hd.2 oid')
  | storeAvailable value => exact favours_of_store (fun _ => hd.1) (.refl _)
  | triggerFailing value | advance seconds =>
      exact ⟨id, .refl _, id, id, fun _ _ => id, fun _ _ => id⟩

theorem Answers.favours {r : Call} {a : r.Response} (ha : w.Answers place r a w')
    (hr : r.Contests oid) : w.Favours f w' := by
  cases ha with
  | gathered _ | cut _ => exact (Abstains.refl f w).toFavours
  | performed hp =>
      cases r with
      | modify oid' d c =>
          cases hp
          exact favours_modify w oid' d c
      | register h => exact (onlyRegisters_register (Option.some.inj hp)).favours
      | deregister h => exact (onlyRegisters_deregister (Option.some.inj hp)).favours
      | isInterrupted h =>
          cases hp
          exact (Abstains.refl f w).toFavours
      | handler h oid' call =>
          obtain ⟨⟨b, w₁⟩, hb, hp⟩ := Option.map_eq_some_iff.mp hp
          obtain ⟨rfl, rfl⟩ := Prod.mk.inj hp
          cases call with
          | switchToWaiting => cases hr.1
          | disturb d =>
              cases hb
              exact favours_disturb hr
          | spawn spec =>
              cases hb
              exact (abstains_spawn w h spec).toFavours
          | wait _ | awaitInterrupt =>
              simp only [performHandler, Option.ite_none_right_eq_some, Option.some.injEq,
                Prod.mk.injEq] at hb
              obtain ⟨-, -, rfl⟩ := hb
              exact (Abstains.refl f w).toFavours
          | canRun | identity | write =>
              cases hb
              exact ⟨id, .refl _, id, id, fun _ _ => id, fun _ _ => id⟩
      | _ => exact (Answers.abstains (.performed hp) hr).toFavours

/-- A wait for children that goes on stops nothing. -/
theorem Gathers.abstains {result result' : OperationResult} {closed closed' : Nat}
    {batch batch' : List Nat}
    (hg : w.Gathers h result closed batch result' closed' batch' w') : w.Abstains f w' := by
  cases hg with
  | take hg _ =>
      cases hg
      exact abstains_onHandle w h (fun _ => rfl) (fun _ => rfl) fun _ => rfl
  | close hc =>
      simp only [closeTaken?, Option.bind_eq_bind, Option.bind_eq_some_iff,
        Option.some.injEq] at hc
      obtain ⟨c, -, r, -, hc⟩ := hc
      cases hc
      exact abstains_onHandle w h (fun _ => rfl) (fun _ => rfl) fun _ => rfl

/-- The record is left alone or written, but not its scheduling state. -/
theorem Answers.record {r : Call} {a : r.Response} (ha : w.Answers place r a w')
    (hr : r.Contests f.oid) : w'.store.find? f.oid = w.store.find? f.oid ∨
      ∃ t d, w.store.find? f.oid = some t ∧ d.scheduling = none ∧
        w'.store.find? f.oid = some (Store.written t d) := by
  cases r with
  | modify oid d c =>
      obtain ⟨rfl, hd⟩ : oid = f.oid ∧ d.scheduling = none := hr
      have hm := ha.modify.2
      rcases w.store.modify_cases f.oid d c with ⟨e, he⟩ | ⟨t, s, hs, ht, -, -, hf⟩
      · rw [he] at hm
        exact .inl (by rw [← (Prod.mk.inj hm).2])
      · rw [hs] at hm
        refine .inr ⟨t, d, ht, hd, ?_⟩
        rw [← (Prod.mk.inj hm).2, hf, if_pos rfl]
  | handler h oid call => exact .inl (ha.handler_spares hr.1).record
  | _ => exact .inl (by rw [ha.store id])

end

end World

end TaskFiring
