import TaskFiring.Proofs.Interleaving

/-!
The registries of the nodes. A firing that has registered and not left again has the
entry for its task at its place, and it alone: a node runs a task once at a time.
-/

namespace TaskFiring

namespace Phase

/-- The handle that the firing was given. -/
def handle? : Phase → Option HandleId
  | .admitted _ h | .guarded _ h | .registered _ h | .busy (.held h) _
  | .busy (.ended h) _ => some h
  | _ => none

/-- The firing is in the registry of its node. -/
def Entered : Phase → Prop
  | .registered _ _ | .busy (.held _) _ | .busy (.ended _) _ => True
  | _ => False

theorem handle?_busy (tenure : Tenure) (e e' : Errand) :
    (Phase.busy tenure e).handle? = (Phase.busy tenure e').handle? := by
  cases tenure <;> rfl

theorem Entered.busy {tenure : Tenure} {e e' : Errand} (h : (Phase.busy tenure e).Entered) :
    (Phase.busy tenure e').Entered := by
  cases tenure <;> exact h

theorem Entered.handle {p : Phase} (h : p.Entered) : ∃ k, p.handle? = some k := by
  cases p with
  | registered t k => exact ⟨k, rfl⟩
  | busy tenure e =>
      cases tenure with
      | refused => cases h
      | held k | ended k => exact ⟨k, rfl⟩
  | _ => cases h

section

variable {f : Occasion} {allowed : HandlerCall → Prop} {q p : Phase} {r : Call} {a : r.Response}

/-- A firing gets its handle when it is admitted, and keeps it. -/
theorem handle?_of_move (hm : Move f allowed q r a p) {h : HandleId} (hp : p.handle? = some h) :
    q.handle? = some h ∨ Deed.answered r a = .answered (.newHandle f.oid) h ∧ ¬ p.Entered := by
  cases hm with
  | aside _ | look | register | start | notStarted | invoke | handler _ | record => exact .inl hp
  | decide | readToClose | readToSuspend | forget | close | suspend | wake =>
      exact .inl ((handle?_busy _ _ _).trans hp)
  | readToSettle | giveUp | settle _ | notSettled | neverSettled => exact .inl hp
  | enter =>
      split at hp
      all_goals
        cases hp
        exact .inr ⟨rfl, by split <;> exact id⟩
  | _ => cases hp

/-- A firing enters the registry by registering. -/
theorem entered_of_move (hm : Move f allowed q r a p) (hp : p.Entered) :
    q.Entered ∨ ∃ h, Deed.answered r a = .answered (.register h) true := by
  cases hm with
  | aside _ | start | notStarted | invoke | handler _ | record => exact .inl hp
  | decide | readToClose | readToSuspend | forget | close | suspend | wake =>
      exact .inl hp.busy
  | readToSettle | giveUp | settle _ | notSettled | neverSettled => exact .inl hp
  | enter => split at hp <;> cases hp
  | register => exact .inr ⟨_, rfl⟩
  | _ => cases hp

theorem handle?_of_register {h : HandleId} (hm : Move f allowed q (.register h) true p) :
    q.handle? = some h ∧ p.handle? = some h := by
  cases hm with
  | aside hr => cases hr
  | register => exact ⟨rfl, rfl⟩

/-- A firing that leaves the registry is over. -/
theorem gone_of_deregister {h : HandleId} {b : Bool}
    (hm : Move f allowed q (.deregister h) b p) : q.handle? = some h ∧ q.Entered ∧ p = .gone := by
  cases hm with
  | aside hr => cases hr
  | deregister => exact ⟨rfl, trivial, rfl⟩

end

end Phase

namespace World

variable {w w' : World} {place : Place}

theorem sameRuns_disturb (w : World) (d : Disturbance) : w.SameRuns (w.disturb d) := by
  cases d <;> exact ⟨fun _ _ => rfl, fun _ _ => id⟩

/-- Only registering and leaving a registry change it. -/
theorem Answers.sameRuns {r : Call} {a : r.Response} (ha : w.Answers place r a w')
    (hr : ∀ h, Deed.answered r a ≠ .answered (.register h) true)
    (hd : ∀ h b, Deed.answered r a ≠ .answered (.deregister h) b) : w.SameRuns w' := by
  cases r with
  | register h =>
      cases a with
      | true => exact absurd rfl (hr h)
      | false =>
          obtain rfl := (register_same ha.register).2.2 rfl
          exact .refl w'
  | deregister h => exact absurd rfl (hd h a)
  | modify oid d c => exact ha.modify.1
  | handler h oid call =>
      rcases ha.handler_cases with hw | ⟨-, -, hw, -⟩ | ⟨d, -, rfl⟩
      · exact hw.toSameRuns
      · exact hw
      · exact sameRuns_disturb w d
  | shutDown =>
      cases ha with
      | performed hp =>
          cases hp
          refine ⟨fun place' oid => ?_, fun _ _ => id⟩
          simp only [World.registered, site_onSite]
          split
          · next hpl => rw [hpl]
          · rfl
  | isInterrupted h =>
      obtain rfl := ha.isInterrupted
      exact .refl w'
  | _ => exact (ha.agrees trivial).toSameRuns

end World

namespace Registration

section

variable {ι : Type} (crew : ι → Occasion)

structure Inv (s : Stage ι) : Prop where
  /-- Handles are for the tasks of their firings. -/
  owner : ∀ i h, (s.phase i).handle? = some h → s.world.owner? h = some (crew i).oid
  entry : ∀ i h, (s.phase i).handle? = some h → (s.phase i).Entered →
    s.world.registered (crew i).place (crew i).oid = some h
  /-- A node has one entry for a task. -/
  alone : ∀ i j, (s.phase i).Entered → (s.phase j).Entered →
    (crew i).place = (crew j).place → (crew i).oid = (crew j).oid → i = j

/-- What happens outside leaves the entries for the tasks of the firings alone, and the
owners of all handles. -/
structure Spared (w w' : World) : Prop where
  registered : ∀ i, w'.registered (crew i).place (crew i).oid
    = w.registered (crew i).place (crew i).oid
  owner : ∀ h oid, w.owner? h = some oid → w'.owner? h = some oid

end

section

variable {ι : Type} [DecidableEq ι] {crew : ι → Occasion} {s s' : Stage ι} {w : World}
  {i : ι} {p : Phase} {e : Event ι}

omit [DecidableEq ι] in
theorem inv_begin (w : World) : Inv crew (Stage.begin w) where
  owner _ _ h := by cases h
  entry _ _ h := by cases h
  alone _ _ h := by cases h

omit [DecidableEq ι] in
theorem Inv.outside (hi : Inv crew s) (hw : Spared crew s.world w) : Inv crew ⟨w, s.phase⟩ :=
  ⟨fun i h hh => hw.owner _ _ (hi.owner i h hh),
    fun i h hh he => (hw.registered i).trans (hi.entry i h hh he), hi.alone⟩

/-- A firing goes on without a change to its entry. -/
theorem Inv.quiet (hi : Inv crew s) (hw : s.world.SameRuns w)
    (hp : ∀ h, p.handle? = some h →
      (s.phase i).handle? = some h ∨ w.owner? h = some (crew i).oid ∧ ¬ p.Entered)
    (he : p.Entered → (s.phase i).Entered) :
    Inv crew ⟨w, Function.update s.phase i p⟩ := by
  have entered : ∀ j, (Function.update s.phase i p j).Entered → (s.phase j).Entered :=
    Stage.forall_update (P := fun j q => q.Entered → (s.phase j).Entered) he fun _ _ => id
  refine ⟨?_, ?_, fun j k hj hk => hi.alone j k (entered j hj) (entered k hk)⟩
  · refine Stage.forall_update
      (P := fun j q => ∀ h, q.handle? = some h → w.owner? h = some (crew j).oid) ?_ ?_
    · intro h hh
      rcases hp h hh with hq | ⟨ho, -⟩
      · exact hw.owner _ _ (hi.owner i h hq)
      · exact ho
    · exact fun j _ h hh => hw.owner _ _ (hi.owner j h hh)
  · refine Stage.forall_update (P := fun j q => ∀ h, q.handle? = some h → q.Entered →
      w.registered (crew j).place (crew j).oid = some h) ?_ ?_
    · intro h hh hent
      rcases hp h hh with hq | ⟨-, hn⟩
      · exact (hw.registered _ _).trans (hi.entry i h hq (he hent))
      · exact absurd hent hn
    · exact fun j _ h hh hent => (hw.registered _ _).trans (hi.entry j h hh hent)

/-- A firing is registered where no other one for its task is. -/
theorem Inv.register {h : HandleId} (hi : Inv crew s) (hq : (s.phase i).handle? = some h)
    (hr : s.world.register (crew i).place h = (true, w)) (hp : p.handle? = some h) :
    Inv crew ⟨w, Function.update s.phase i p⟩ := by
  obtain ⟨hn, hreg⟩ := World.register_true hr (hi.owner i h hq)
  obtain ⟨-, howner, -⟩ := World.register_same hr
  have apart {j : ι} (hj : (s.phase j).Entered) :
      ¬ ((crew i).place = (crew j).place ∧ (crew i).oid = (crew j).oid) := by
    rintro ⟨hpl, ho⟩
    obtain ⟨k, hk⟩ := hj.handle
    have he := hi.entry j k hk hj
    rw [← hpl, ← ho, hn] at he
    cases he
  refine ⟨?_, ?_, ?_⟩
  · refine Stage.forall_update
      (P := fun j q => ∀ k, q.handle? = some k → w.owner? k = some (crew j).oid) ?_ ?_
    · intro k hk
      obtain rfl : h = k := Option.some.inj (hp.symm.trans hk)
      exact howner _ _ (hi.owner i h hq)
    · exact fun j _ k hk => howner _ _ (hi.owner j k hk)
  · refine Stage.forall_update (P := fun j q => ∀ k, q.handle? = some k → q.Entered →
      w.registered (crew j).place (crew j).oid = some k) ?_ ?_
    · intro k hk _
      obtain rfl : h = k := Option.some.inj (hp.symm.trans hk)
      simp [hreg]
    · intro j _ k hk hent
      rw [hreg, if_neg (apart hent)]
      exact hi.entry j k hk hent
  · intro j k hj hk hpl ho
    by_cases hji : j = i
    · by_cases hki : k = i
      · rw [hji, hki]
      · have hk' : (s.phase k).Entered := by simpa [hki] using hk
        exact absurd ⟨by rw [← hji, hpl], by rw [← hji, ho]⟩ (apart hk')
    · have hj' : (s.phase j).Entered := by simpa [hji] using hj
      by_cases hki : k = i
      · exact absurd ⟨by rw [← hki, hpl], by rw [← hki, ho]⟩ (apart hj')
      · exact hi.alone j k hj' (by simpa [hki] using hk) hpl ho

/-- A firing leaves the registry, and the entries of the others remain. -/
theorem Inv.deregister {h : HandleId} {b : Bool} (hi : Inv crew s)
    (hr : s.world.deregister (crew i).place h = (b, w))
    (hq : (s.phase i).handle? = some h) (he : (s.phase i).Entered) :
    Inv crew ⟨w, Function.update s.phase i .gone⟩ := by
  obtain ⟨-, howner, hreg⟩ := World.deregister_spec hr
  have entered : ∀ j, (Function.update s.phase i .gone j).Entered → (s.phase j).Entered :=
    Stage.forall_update (P := fun j q => q.Entered → (s.phase j).Entered) (fun h => h.elim)
      fun _ _ => id
  refine ⟨?_, ?_, fun j k hj hk => hi.alone j k (entered j hj) (entered k hk)⟩
  · refine Stage.forall_update
      (P := fun j q => ∀ k, q.handle? = some k → w.owner? k = some (crew j).oid) ?_ ?_
    · exact fun _ hk => by cases hk
    · exact fun j _ k hk => howner _ _ (hi.owner j k hk)
  · refine Stage.forall_update (P := fun j q => ∀ k, q.handle? = some k → q.Entered →
      w.registered (crew j).place (crew j).oid = some k) ?_ ?_
    · exact fun _ _ hent => hent.elim
    · intro j hj k hk hent
      refine (hreg _ _ _ (hi.entry j k hk hent)).resolve_right ?_
      rintro ⟨hpl, rfl⟩
      have ho := (hi.owner i k hq).symm.trans (hi.owner j k hk)
      exact hj (hi.alone j i hent he hpl.symm (Option.some.inj ho).symm)

theorem Inv.answered {allowed : HandlerCall → Prop} {r : Call} {a : r.Response}
    (hi : Inv crew s) (ha : s.world.Answers (crew i).place r a w)
    (hm : Phase.Move (crew i) allowed (s.phase i) r a p) :
    Inv crew ⟨w, Function.update s.phase i p⟩ := by
  by_cases hd : ∃ h b, Deed.answered r a = .answered (.deregister h) b
  · obtain ⟨h, b, hd⟩ := hd
    cases hd
    obtain ⟨hq, he, rfl⟩ := Phase.gone_of_deregister hm
    exact hi.deregister ha.deregister hq he
  by_cases hr : ∃ h, Deed.answered r a = .answered (.register h) true
  · obtain ⟨h, hr⟩ := hr
    cases hr
    obtain ⟨hq, hp⟩ := Phase.handle?_of_register hm
    exact hi.register hq ha.register hp
  have hw := ha.sameRuns (fun h he => hr ⟨h, he⟩) fun h b he => hd ⟨h, b, he⟩
  refine hi.quiet hw (fun h hp => ?_) fun hp => ?_
  · refine (Phase.handle?_of_move hm hp).imp id fun hn => ⟨?_, hn.2⟩
    cases hn.1
    exact ha.newHandle.2
  · exact (Phase.entered_of_move hm hp).resolve_right hr

theorem Inv.step {allowed : HandlerCall → Prop} {outside : World → World → Prop}
    (ho : ∀ w w', outside w w' → Spared crew w w') (hi : Inv crew s)
    (he : s.Step crew allowed outside e s') : Inv crew s' := by
  cases he with
  | answered ha hm => exact hi.answered ha hm
  | gathered hw => exact hi.outside ⟨fun i => hw.registered _ _, hw.owner⟩
  | outside hw => exact hi.outside (ho _ _ hw)

theorem Inv.run {allowed : HandlerCall → Prop} {outside : World → World → Prop}
    {es : List (Event ι)} (ho : ∀ w w', outside w w' → Spared crew w w') (hi : Inv crew s)
    (hr : Run (Stage.Step crew allowed outside) s es s') : Inv crew s' := by
  induction hr with
  | nil => exact hi
  | snoc _ he ih => exact ih.step ho he

end

end Registration
end TaskFiring
