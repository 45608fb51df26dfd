import TaskFiring.World

/-!
What the answer to a call may change in the surroundings. A write changes one record
by one update; registering and deregistering change one entry; all calls that stay
aside of these leave the store and every registry as they were, and no call takes a
handle away or gives it to another task.
-/

namespace TaskFiring

namespace Store

/-- A write that succeeds replaces the one record. -/
theorem modify_ok {s s' : Store} {oid : TaskOid} {d : TaskDelta} {p : Precondition}
    {t' : Task} (h : s.modify oid d p = (.ok t', s')) :
    s'.available = s.available ∧ ∃ t, s.find? oid = some t ∧ violation? t p = none ∧
      t' = written t d ∧ ∀ oid', s'.find? oid' = if oid = oid' then some t' else s.find? oid' := by
  unfold modify at h
  split at h
  · split at h
    · simp at h
    · next t ht =>
      split at h
      · simp at h
      · next hv =>
        simp only [Prod.mk.injEq, Except.ok.injEq] at h
        obtain ⟨rfl, rfl⟩ := h
        have ho : (written t d).oid = oid := (Table.key_of_find? ht : t.oid = oid)
        refine ⟨rfl, t, ht, hv, rfl, fun oid' => ?_⟩
        rw [← ho]
        exact Table.find?_put _ _ _
  · simp at h

theorem available_of_modify {s s' : Store} {oid : TaskOid} {d : TaskDelta} {p : Precondition}
    {t : Task} (h : s.modify oid d p = (.ok t, s')) : s.available := by
  unfold modify at h
  split at h
  · assumption
  · cases h

/-- A write fails and leaves the store as it was, or it replaces the one record. -/
theorem modify_cases (s : Store) (oid : TaskOid) (d : TaskDelta) (p : Precondition) :
    (∃ e, s.modify oid d p = (.error e, s)) ∨
      ∃ t s', s.modify oid d p = (.ok (written t d), s') ∧ s.find? oid = some t ∧
        violation? t p = none ∧ s'.available = s.available ∧
        ∀ oid', s'.find? oid' = if oid = oid' then some (written t d) else s.find? oid' := by
  cases hm : s.modify oid d p with
  | mk a s' =>
      cases a with
      | error e => exact .inl ⟨e, by rw [eq_of_modify_error hm]⟩
      | ok t' =>
          obtain ⟨ha, t, ht, hv, rfl, hf⟩ := modify_ok hm
          exact .inr ⟨t, s', rfl, ht, hv, ha, hf⟩

/-- An unconditional write of a record that exists succeeds. -/
theorem modify_always {s : Store} {oid : TaskOid} {t : Task} (ha : s.available)
    (ht : s.find? oid = some t) (d : TaskDelta) :
    (s.modify oid d .always).1 = .ok (written t d) := by
  simp [modify, ha, ht, violation?]

/-- A write by a version succeeds exactly if the record has it. -/
theorem modify_version {s : Store} {oid : TaskOid} {t : Task} (ha : s.available)
    (ht : s.find? oid = some t) (d : TaskDelta) (v : UInt64) :
    (t.version = v ∧ ∃ s', s.modify oid d (.version v) = (.ok (written t d), s') ∧
        s'.find? oid = some (written t d)) ∨
      t.version ≠ v ∧
        s.modify oid d (.version v) = (.error (.conflict oid v t.version), s) := by
  have ho : t.oid = oid := Table.key_of_find? ht
  by_cases hv : t.version = v
  · refine .inl ⟨hv, { s with tasks := s.tasks.put (written t d) }, ?_, ?_⟩
    · simp [modify, ha, ht, violation?, hv]
    · exact (Table.find?_put _ _ _).trans (if_pos ho)
  · exact .inr ⟨hv, by simp [modify, ha, ht, violation?, hv, ho]⟩

/-- A record comes to run only by a write that says so. -/
theorem running_of_written {t : Task} {d : TaskDelta} (hd : d.execution ≠ some .running)
    (h : (written t d).execution = .running) : d.execution = none ∧ t.execution = .running := by
  have h : d.execution.getD t.execution = .running := h
  cases hx : d.execution with
  | none =>
      rw [hx] at h
      exact ⟨rfl, h⟩
  | some x =>
      rw [hx] at h
      exact absurd (hx.trans (congrArg some h)) hd

theorem get_ok {s : Store} {oid : TaskOid} {t : Task} (h : s.get oid = .ok t) :
    s.find? oid = some t := by
  unfold get at h
  split at h
  · split at h
    · next ht => rw [ht, Except.ok.inj h]
    · cases h
  · cases h

theorem get_of_find? {s : Store} {oid : TaskOid} {t : Task} (ha : s.available)
    (ht : s.find? oid = some t) : s.get oid = .ok t := by
  simp [get, ha, ht]

theorem oid_of_find? {s : Store} {oid : TaskOid} {t : Task} (h : s.find? oid = some t) :
    t.oid = oid :=
  Table.key_of_find? h

end Store

namespace World

/-- The task that a handle was made for. -/
def owner? (w : World) (h : HandleId) : Option TaskOid := (w.handle? h).map Handle.oid

/-- The registries are the same, and so are the owners of the handles there were. -/
structure SameRuns (w w' : World) : Prop where
  registered : ∀ place oid, w'.registered place oid = w.registered place oid
  owner : ∀ h oid, w.owner? h = some oid → w'.owner? h = some oid

/-- Besides, the store is the same. -/
structure Agrees (w w' : World) : Prop extends SameRuns w w' where
  store : w'.store = w.store

theorem SameRuns.refl (w : World) : w.SameRuns w := ⟨fun _ _ => rfl, fun _ _ => id⟩

theorem Agrees.refl (w : World) : w.Agrees w := ⟨.refl w, rfl⟩

theorem sameRuns_onHandle (w : World) (h : HandleId) {f : Handle → Handle}
    (hf : ∀ handle, (f handle).oid = handle.oid) : w.SameRuns (w.onHandle h f) where
  registered _ _ := rfl
  owner h' oid := by
    simp only [owner?, handle?, onHandle, List.getElem?_modify, Option.map_eq_some_iff]
    rintro ⟨handle, hh, ho⟩
    refine ⟨if h.index = h'.index then f handle else handle, by rw [hh]; rfl, ?_⟩
    split
    · rw [hf, ho]
    · exact ho

theorem agrees_onHandle (w : World) (h : HandleId) {f : Handle → Handle}
    (hf : ∀ handle, (f handle).oid = handle.oid) : w.Agrees (w.onHandle h f) :=
  ⟨sameRuns_onHandle w h hf, rfl⟩

theorem agrees_spawn (w : World) (h : HandleId) (spec : ChildSpec) :
    w.Agrees (w.spawn h spec).2 :=
  ⟨⟨fun _ _ => rfl, (sameRuns_onHandle w h (f := (·.spawn _ spec)) fun _ => rfl).owner⟩, rfl⟩

/-- A new handle, and the task it is for. -/
theorem owner?_newHandle (w : World) (oid : TaskOid) :
    ({ w with handles := w.handles ++ [{ oid := oid }] } : World).owner? ⟨w.handles.length⟩
      = some oid := by
  simp [owner?, handle?]

theorem agrees_newHandle (w : World) (oid : TaskOid) :
    w.Agrees { w with handles := w.handles ++ [{ oid := oid }] } where
  registered _ _ := rfl
  owner h oid' := by
    simp only [owner?, handle?, Option.map_eq_some_iff]
    rintro ⟨handle, hh, ho⟩
    refine ⟨handle, ?_, ho⟩
    rw [List.getElem?_append_left (List.getElem?_eq_some_iff.mp hh).1]
    exact hh
  store := rfl

section

variable {w w' : World} {place place' : Place} {h : HandleId} {oid : TaskOid} {b : Bool}

theorem site_onSite (w : World) (place place' : Place) (f : Site → Site) :
    (w.onSite place f).site place'
      = if place = place' then f (w.site place) else w.site place' := by
  simp only [site, onSite, Table.find?_put]
  split <;> rfl

/-- Only a task that has no entry yet can be registered. -/
theorem register_true (hr : w.register place h = (true, w')) (ho : w.owner? h = some oid) :
    w.registered place oid = none ∧
      ∀ place' oid', w'.registered place' oid' =
        if place = place' ∧ oid = oid' then some h else w.registered place' oid' := by
  unfold register at hr
  obtain ⟨handle, hh, rfl⟩ : ∃ handle, w.handle? h = some handle ∧ handle.oid = oid := by
    simpa [owner?] using ho
  simp only [hh] at hr
  split at hr
  · simp at hr
  · next hc =>
    obtain rfl : _ = w' := congrArg Prod.snd hr
    refine ⟨?_, fun place' oid' => ?_⟩
    · simpa [registered, Table.contains] using hc
    · simp only [registered, site_onSite]
      by_cases hp : place = place'
      · subst hp
        simp only [if_true, Table.find?_put, true_and]
        split <;> rfl
      · simp only [hp, if_false, false_and]

theorem register_false (hr : w.register place h = (false, w')) (ho : w.owner? h = some oid) :
    ∃ h', w.registered place oid = some h' := by
  obtain ⟨handle, hh, rfl⟩ : ∃ handle, w.handle? h = some handle ∧ handle.oid = oid := by
    simpa [owner?] using ho
  simp only [register, hh] at hr
  split at hr
  · next hc =>
    obtain ⟨⟨_, h'⟩, hf⟩ := Option.isSome_iff_exists.mp hc
    exact ⟨h', by rw [registered, hf]; rfl⟩
  · cases hr

/-- Nothing changes but what is registered. -/
def OnlyRegisters (w w' : World) : Prop :=
  ∃ sites, w' = { w with sites } ∧ ∀ place, (w'.site place).shutDown = (w.site place).shutDown

theorem onlyRegisters_onSite (w : World) (place : Place) {f : Site → Site}
    (hf : ∀ s, (f s).shutDown = s.shutDown) : w.OnlyRegisters (w.onSite place f) := by
  refine ⟨_, rfl, fun place' => ?_⟩
  rw [site_onSite]
  split
  · next hp => rw [hf, hp]
  · rfl

theorem onlyRegisters_register (hr : w.register place h = (b, w')) : w.OnlyRegisters w' := by
  unfold register at hr
  split at hr
  · cases hr
    exact ⟨_, rfl, fun _ => rfl⟩
  · split at hr <;> cases hr
    · exact ⟨_, rfl, fun _ => rfl⟩
    · exact onlyRegisters_onSite w place fun _ => rfl

theorem onlyRegisters_deregister (hr : w.deregister place h = (b, w')) :
    w.OnlyRegisters w' := by
  unfold deregister at hr
  split at hr
  · cases hr
    exact ⟨_, rfl, fun _ => rfl⟩
  · split at hr <;> cases hr
    · exact onlyRegisters_onSite w place fun _ => rfl
    · exact ⟨_, rfl, fun _ => rfl⟩

theorem register_same (hr : w.register place h = (b, w')) :
    w'.store = w.store ∧ (∀ h oid, w.owner? h = some oid → w'.owner? h = some oid) ∧
      (b = false → w' = w) := by
  unfold register at hr
  split at hr
  · cases hr
    exact ⟨rfl, fun _ _ => id, fun _ => rfl⟩
  · split at hr <;> cases hr
    · exact ⟨rfl, fun _ _ => id, fun _ => rfl⟩
    · exact ⟨rfl, fun _ _ => id, nofun⟩

/-- Only the entry of that handle is removed. -/
theorem deregister_spec (hr : w.deregister place h = (b, w')) :
    w'.store = w.store ∧ (∀ h oid, w.owner? h = some oid → w'.owner? h = some oid) ∧
      ∀ place' oid' h', w.registered place' oid' = some h' →
        w'.registered place' oid' = some h' ∨ place = place' ∧ h' = h := by
  unfold deregister at hr
  split at hr
  · cases hr
    exact ⟨rfl, fun _ _ => id, fun _ _ _ => .inl⟩
  · next handle hh =>
    split at hr
    · next hf =>
      obtain rfl : _ = w' := congrArg Prod.snd hr
      refine ⟨rfl, fun _ _ => id, fun place' oid' h' hr' => ?_⟩
      by_cases hp : place = place' ∧ handle.oid = oid'
      · obtain ⟨rfl, rfl⟩ := hp
        simp only [registered, hf, Option.map_some, Option.some.injEq] at hr'
        exact .inr ⟨rfl, hr'.symm⟩
      · left
        rw [← hr']
        simp only [registered, site_onSite]
        split
        · next hpp =>
          subst hpp
          have hne : handle.oid ≠ oid' := fun e => hp ⟨rfl, e⟩
          simp only [Table.find?_erase, hne, if_false]
        · rfl
    · cases hr
      exact ⟨rfl, fun _ _ => id, fun _ _ _ => .inl⟩

/-- What is registered afterwards was so before, and is not what was removed. -/
theorem registered_of_deregister (hr : w.deregister place h = (b, w'))
    (ho : w.owner? h = some oid) {oid' : TaskOid} {h' : HandleId}
    (hr' : w'.registered place' oid' = some h') :
    w.registered place' oid' = some h' ∧ ¬ (place = place' ∧ oid = oid' ∧ h = h') := by
  obtain ⟨handle, hh, rfl⟩ : ∃ handle, w.handle? h = some handle ∧ handle.oid = oid := by
    simpa [owner?] using ho
  simp only [deregister, hh] at hr
  split at hr
  · obtain rfl : _ = w' := congrArg Prod.snd hr
    simp only [registered, site_onSite] at hr'
    by_cases hp : place = place'
    · subst hp
      by_cases hoid : handle.oid = oid'
      · simp [hoid, Table.find?_erase] at hr'
      · simp only [if_true, Table.find?_erase, hoid, if_false] at hr'
        exact ⟨hr', fun he => hoid he.2.1⟩
    · simp only [hp, if_false] at hr'
      exact ⟨hr', fun he => hp he.1⟩
  · next hn =>
    obtain rfl : _ = w' := congrArg Prod.snd hr
    refine ⟨hr', ?_⟩
    rintro ⟨rfl, rfl, rfl⟩
    obtain ⟨⟨o, k⟩, hf, rfl⟩ := Option.map_eq_some_iff.mp hr'
    obtain rfl : o = handle.oid := Table.key_of_find? hf
    exact hn hf

/-- A handler neither changes what is registered or who it is, nor tells the listeners. -/
theorem performHandler_rest {call : HandlerCall} {x : call.Response}
    (hx : w.performHandler h oid call = some (x, w')) :
    w'.sites = w.sites ∧ w'.security = w.security ∧ w'.listener = w.listener := by
  cases call with
  | disturb d =>
      cases hx
      cases d <;> exact ⟨rfl, rfl, rfl⟩
  | wait _ | awaitInterrupt =>
      obtain ⟨-, hx⟩ := Option.ite_none_right_eq_some.mp hx
      cases hx
      exact ⟨rfl, rfl, rfl⟩
  | spawn | canRun | identity | write | switchToWaiting =>
      cases hx
      exact ⟨rfl, rfl, rfl⟩

end

/-! Children that go on. -/

/-- How a child goes on: it comes to the end of its work, or gets an answer. -/
inductive ChildGoes (w : World) (h : HandleId) (i : Nat) : World → Prop
  | ends {c : Child} {e : ChildEnd} : w.child? h i = some c → c.aborted = false →
      c.ended = none → c.work = .done e →
      ChildGoes w h i (w.onChild h i fun c => { c with ended := some e })
  | answered {c : Child} {r : ChildCall} {next : r.Response → ChildWork} {a : r.Response}
      {w' : World} : w.child? h i = some c → c.aborted = false → c.ended = none →
      c.work = .ask r next → w.performChild c.canRun r = some (a, w') →
      ChildGoes w h i (w'.onChild h i fun c => { c with work := next a })

section

variable {w w' : World} {h : HandleId} {i : Nat}

theorem stepChild?_eq_some_iff : w.stepChild? h i = some w' ↔ w.ChildGoes h i w' := by
  unfold stepChild?
  constructor
  · intro hw
    simp only [Option.bind_eq_bind, Option.bind_eq_some_iff] at hw
    obtain ⟨c, hc, hw⟩ := hw
    split at hw
    · cases hw
    · next hn =>
      simp only [Bool.or_eq_true, not_or, Bool.not_eq_true, Option.isSome_eq_false_iff,
        Option.isNone_iff_eq_none] at hn
      split at hw
      · next hwork =>
        cases hw
        exact .ends hc hn.1 hn.2 hwork
      · next hwork =>
        simp only [Option.bind_eq_some_iff] at hw
        obtain ⟨⟨a, w₁⟩, hp, hw⟩ := hw
        cases hw
        exact .answered hc hn.1 hn.2 hwork hp
  · intro hg
    cases hg with
    | ends hc ha he hwork => simp [hc, ha, he, hwork]
    | answered hc ha he hwork hp => simp [hc, ha, he, hwork, hp]

theorem performChild_same {canRun : Bool} {r : ChildCall} {a : r.Response}
    (hw : w.performChild canRun r = some (a, w')) :
    w'.store = w.store ∧ w'.trigger = w.trigger ∧ w'.now = w.now ∧ w'.sites = w.sites ∧
      w'.handles = w.handles := by
  cases r with
  | canRun | write entry =>
      cases hw
      exact ⟨rfl, rfl, rfl, rfl, rfl⟩
  | wait wait =>
      obtain ⟨-, hw⟩ := Option.ite_none_right_eq_some.mp hw
      cases hw
      exact ⟨rfl, rfl, rfl, rfl, rfl⟩

end

end World
end TaskFiring
