import TaskFiring.Proofs.CallConsistency

/-!
Two runs of a firing in lockstep. As long as they look alike they go on together, one call or
one piece of a wait after the other; and if one goes on so can the other, once the gates are
open and the children have ended that it waits for.
-/

namespace TaskFiring

/-! Waiting for children. -/

namespace World

section

variable {w w' v v' : World} {f : Occasion} {oid : TaskOid} {k k' : Option HandleId}
  {h h' : HandleId} {result r₁ r₂ : OperationResult} {closed n₁ n₂ : Nat}
  {batch b₁ b₂ : List Nat}

theorem Gathers.sameBut (hg : w.Gathers h result closed batch r₁ n₁ b₁ w') (oid : TaskOid) :
    w.SameBut oid w' := by
  obtain ⟨g, -, rfl⟩ := hg.onHandle
  exact sameBut_of_eq oid rfl rfl rfl rfl

/-- Children are waited for without being stopped. -/
theorem Gathers.undeterred (hg : w.Gathers h result closed batch r₁ n₁ b₁ w')
    (hu : w.Undeterred oid k) : w'.Undeterred oid k := by
  cases hg with
  | take ht _ =>
      cases ht
      exact hu.modify rfl fun _ _ h => ⟨rfl, h.takePending⟩
  | close hc =>
      simp only [closeTaken?, Option.bind_eq_bind, Option.bind_eq_some_iff,
        Option.some.injEq] at hc
      obtain ⟨c, -, r, -, hc⟩ := hc
      cases hc
      exact hu.modify rfl fun _ _ h => ⟨rfl, h.closeChild _⟩

/-- The same children are there to be waited for. -/
theorem LooksLike.pending (hl : w.LooksLike f v k k') (hw : w.Undeterred oid k)
    (hv : v.Undeterred oid k') (hk : k = some h) (hk' : k' = some h') :
    (w.takePending h).1 = (v.takePending h').1 := by
  subst hk hk'
  obtain ⟨handle, hh, -⟩ := hw h rfl
  obtain ⟨handle', hh', -⟩ := hv h' rfl
  have same := hl.children
  rw [prospects_some hh, prospects_some hh'] at same
  simp [takePending, hh, hh', Handle.pending_congr same]

/-- So is each of them. -/
theorem LooksLike.child? {i : Nat} {c : Child} (hl : w.LooksLike f v k k')
    (hw : w.Undeterred oid k) (hv : v.Undeterred oid k') (hk : k = some h) (hk' : k' = some h')
    (hc : w.child? h i = some c) : ∃ c', v.child? h' i = some c' ∧ c'.Undeterred := by
  subst hk hk'
  obtain ⟨handle, hh, -⟩ := hw h rfl
  obtain ⟨handle', hh', -, hun'⟩ := hv h' rfl
  have same := hl.children
  rw [prospects_some hh, prospects_some hh'] at same
  rw [child?_of_handle? hh] at hc
  have there : (handle'.children.map Child.prospect)[i]? = some c.prospect := by
    rw [same, List.getElem?_map, hc]
    rfl
  rw [List.getElem?_map] at there
  obtain ⟨c', hc', -⟩ := Option.map_eq_some_iff.mp there
  exact ⟨c', (child?_of_handle? hh').trans hc', hun'.children c' (List.mem_of_getElem? hc')⟩

/-- A child that has ended can be closed. -/
theorem closeTaken?_of_ended {i : Nat} {c : Child} (hc : w.child? h i = some c)
    (he : c.ended.isSome) : ∃ r w', w.closeTaken? h i = some (r, w') := by
  obtain ⟨e, he⟩ := Option.isSome_iff_exists.mp he
  cases e <;> simp [closeTaken?, hc, Child.result?, he]

/-- A wait that is over in one run does not go on in the other. -/
theorem LooksLike.not_gathers {place : Place} {a : OperationResult × Nat}
    (hl : w.LooksLike f v k k') (hw : w.Undeterred oid k) (hv : v.Undeterred oid k')
    (hk : k = some h) (hk' : k' = some h')
    (ha : w.Answers place (.collect h result closed batch) a w')
    (hg : v.Gathers h' result closed batch r₂ n₂ b₂ v') : False := by
  have pending := hl.pending hw hv hk hk'
  cases ha with
  | performed hp => cases hp
  | gathered hnone =>
      cases hg with
      | take hsome hne =>
          rw [hnone, hsome] at pending
          exact hne pending.symm

/-- Two runs wait for their children alike, piece by piece. -/
theorem Gathers.congr (hl : w.LooksLike f v k k') (hw : w.Undeterred oid k)
    (hv : v.Undeterred oid k') (hk : k = some h) (hk' : k' = some h')
    (hg : w.Gathers h result closed batch r₁ n₁ b₁ w')
    (hg' : v.Gathers h' result closed batch r₂ n₂ b₂ v') :
    r₁ = r₂ ∧ n₁ = n₂ ∧ b₁ = b₂ ∧ w'.LooksLike f v' k k' := by
  have pending := hl.pending hw hv hk hk'
  subst hk hk'
  obtain ⟨handle, hh, -, hun⟩ := hw h rfl
  obtain ⟨handle', hh', -, hun'⟩ := hv h' rfl
  have same := hl.children
  rw [prospects_some hh, prospects_some hh'] at same
  cases hg with
  | take ht _ =>
      cases hg' with
      | take ht' _ =>
          rw [ht, ht'] at pending
          cases ht
          cases ht'
          refine ⟨rfl, rfl, pending, { hl with children := ?_ }⟩
          rw [prospects_some (handle?_of_modify hh rfl), prospects_some (handle?_of_modify hh' rfl),
            Handle.prospect_takePending, Handle.prospect_takePending, same]
  | close hc =>
      cases hg' with
      | close hc' =>
          simp only [closeTaken?, child?_of_handle? hh, child?_of_handle? hh',
            Option.bind_eq_bind, Option.bind_eq_some_iff, Option.some.injEq] at hc hc'
          obtain ⟨c, hget, r, hr, hc⟩ := hc
          obtain ⟨c', hget', r', hr', hc'⟩ := hc'
          cases hc
          cases hc'
          obtain ⟨e, he, rfl⟩ := (hun.children c (List.mem_of_getElem? hget)).result? hr
          obtain ⟨e', he', rfl⟩ := (hun'.children c' (List.mem_of_getElem? hget')).result? hr'
          obtain ⟨hname, hrest⟩ := Prod.mk.inj (Handle.prospect_at same hget hget')
          have hend : e' = e := by simpa [he, he'] using (Prod.mk.inj hrest).1
          refine ⟨?_, rfl, rfl, { hl with children := ?_ }⟩
          · subst hend
            cases e' <;> simp [Child.outcome, hname]
          · rw [prospects_some (handle?_of_modify hh rfl),
              prospects_some (handle?_of_modify hh' rfl), Handle.prospect_closeChild,
              Handle.prospect_closeChild, same]

end

end World

/-! Two runs, call by call. -/

namespace Lockstep

open World

variable {α β : Type} {f : Occasion} {w₀ w w' v v' : World} {k k' : Option HandleId}
  {p p' : Action α} {q q' : Action β} {d d' : Deed} {Q : α → β → Prop}

/-- The calls that a program is about to make are proper. -/
abbrev Behaves (f : Occasion) (w : World) (k : Option HandleId) (p : Action α) : Prop :=
  ∀ r next, p = .ask r next → r.Proper f w k

/-- What a firing does concerns its task only, and stops nobody. -/
theorem turn_sameBut (hpq : p.Paired (Call.Kin w₀.store f.oid) q Q) (hp : Behaves f w k p)
    (hu : w.Undeterred f.oid k) (ht : p.Turn f.place w d p' w') :
    w.SameBut f.oid w' ∧ w'.Undeterred f.oid (k.or (Custody.made? d)) := by
  cases ht with
  | @answered r next _ _ a ha =>
      cases q with
      | done b => exact hpq.elim
      | ask r' next' =>
          obtain ⟨like, hk, -⟩ := hpq
          have proper := hp r next rfl
          refine ⟨hk.sameBut (fun h hh => hu.owner (proper.own h hh)) ha, ?_⟩
          exact hk.undeterred proper.first ha hu
  | gathered hg =>
      refine ⟨hg.sameBut _, ?_⟩
      rw [show Custody.made? .gathered = none from rfl, Option.or_none]
      exact hg.undeterred hu

/-- If both runs go on, they go on together. -/
theorem turn (hpq : p.Paired (Call.Kin w₀.store f.oid) q Q) (hw : w.Suits f w₀ k)
    (hv : v.Suits f w₀ k') (hl : w.LooksLike f v k k') (hp : Behaves f w k p)
    (hq : Behaves f v k' q) (ht : p.Turn f.place w d p' w') (ht' : q.Turn f.place v d' q' v') :
    p'.Paired (Call.Kin w₀.store f.oid) q' Q ∧
      w'.LooksLike f v' (k.or (Custody.made? d)) (k'.or (Custody.made? d')) := by
  have idle : Custody.made? .gathered = none := rfl
  cases ht with
  | @answered r next _ _ a ha =>
      cases ht' with
      | @answered r' next' _ _ b hb =>
          obtain ⟨like, hk, hnext⟩ := hpq
          obtain ⟨hab, hl'⟩ := hk.answered hw hv hl (hp r next rfl) (hq r' next' rfl) ha hb
          exact ⟨hnext a b hab, hl'⟩
      | gathered hg =>
          obtain ⟨like, hk, -⟩ := hpq
          cases hk with
          | own hr => exact hr.elim
          | collect =>
              exact (hl.not_gathers hw.undeterred hv.undeterred ((hp _ _ rfl).own _ rfl)
                ((hq _ _ rfl).own _ rfl) ha hg).elim
  | gathered hg =>
      cases q with
      | done b => exact hpq.elim
      | ask r' next' =>
          obtain ⟨like, hk, hnext⟩ := hpq
          cases hk with
          | own hr => exact hr.elim
          | collect =>
              have own := (hp _ _ rfl).own _ rfl
              have own' := (hq _ _ rfl).own _ rfl
              cases ht' with
              | answered hb =>
                  exact (hl.symm.not_gathers hv.undeterred hw.undeterred own' own hb hg).elim
              | gathered hg' =>
                  obtain ⟨rfl, rfl, rfl, hl'⟩ :=
                    hg.congr hl hw.undeterred hv.undeterred own own' hg'
                  rw [idle, Option.or_none, Option.or_none]
                  exact ⟨⟨_, .collect, hnext⟩, hl'⟩

/-- The handler of one run got its answer, so the other gets one once a gate is open. -/
theorem ready_handler {r : HandlerCall} (hr : r.IsOwn f.oid) {x : r.Response}
    {h h' : HandleId} (hw : w.isInterrupted h = false)
    (hx : w.performHandler h f.oid r = some (x, w')) (v : World) :
    ∃ v₁ y v', v.Passes v₁ ∧ v₁.performHandler h' f.oid r = some (y, v') := by
  cases r with
  | canRun | switchToWaiting => exact ⟨v, _, _, .refl, rfl⟩
  | disturb d => exact ⟨v, (), _, .refl, rfl⟩
  | wait wait =>
      refine ⟨_, (), _, .single (.gate wait.gate), if_pos ?_⟩
      simp [waitIsOver]
  | awaitInterrupt =>
      -- nobody interrupts, so that wait has not come to its end either
      obtain ⟨hi, -⟩ := Option.ite_none_right_eq_some.mp hx
      cases hi.symm.trans hw
  | _ => exact hr.elim

/-- One run has closed its child, so the other can once its own has ended. -/
theorem ready_close {i : Nat} {h h' : HandleId} {r : OperationResult} (hw : w.Undeterred f.oid k)
    (hv : v.Undeterred f.oid k') (hl : w.LooksLike f v k k') (hk : k = some h)
    (hk' : k' = some h') (hc : w.closeTaken? h i = some (r, w')) :
    ∃ v₁ r' v', v.Passes v₁ ∧ v₁.closeTaken? h' i = some (r', v') := by
  simp only [closeTaken?, Option.bind_eq_bind, Option.bind_eq_some_iff] at hc
  obtain ⟨c, hc, -⟩ := hc
  obtain ⟨c', hc', hu⟩ := hl.child? hw hv hk hk' hc
  obtain ⟨v₁, c₁, hpass, hc₁, hend⟩ := child_ends hc' hu
  obtain ⟨r', v', hclose⟩ := closeTaken?_of_ended hc₁ hend
  exact ⟨v₁, r', v', hpass, hclose⟩

/-- The wait of one run goes on or is over, so the other's can go on or be over. -/
theorem ready_collect {h h' : HandleId} {result : OperationResult} {closed : Nat}
    {batch : List Nat} {next : OperationResult × Nat → Action α} (hw : w.Undeterred f.oid k)
    (hv : v.Undeterred f.oid k') (hl : w.LooksLike f v k k') (hk : k = some h)
    (hk' : k' = some h')
    (ht : (Program.ask (.collect h result closed batch) next : Action α).Turn f.place w d p' w')
    (next' : OperationResult × Nat → Action β) :
    ∃ v₁ d' q' v', v.Passes v₁ ∧ Program.Turn f.place
      (.ask (.collect h' result closed batch) next' : Action β) v₁ d' q' v' := by
  cases batch with
  | nil =>
      cases hpend : v.takePending h' with
      | mk batch v' =>
      cases batch with
      | nil => exact ⟨v, _, _, _, .refl, .answered (.gathered hpend)⟩
      | cons i batch => exact ⟨v, _, _, _, .refl, .gathered (.take hpend nofun)⟩
  | cons i batch =>
      cases ht with
      | answered ha =>
          cases ha with
          | performed hperform => cases hperform
      | gathered hg =>
          cases hg with
          | close hc =>
              obtain ⟨v₁, r', v', hpass, hclose⟩ := ready_close hw hv hl hk hk' hc
              exact ⟨v₁, _, _, v', hpass, .gathered (.close hclose)⟩

/-- If one run goes on, so can the other, as soon as the gates and the children that it waits
for let it. -/
theorem ready (hpq : p.Paired (Call.Kin w₀.store f.oid) q Q) (hw : w.Suits f w₀ k)
    (hv : v.Suits f w₀ k') (hl : w.LooksLike f v k k') (hp : Behaves f w k p)
    (hq : Behaves f v k' q) (ht : p.Turn f.place w d p' w') :
    ∃ v₁ d' q' v', v.Passes v₁ ∧ q.Turn f.place v₁ d' q' v' := by
  obtain ⟨r, next, rfl⟩ : ∃ r next, p = .ask r next := by
    cases ht <;> exact ⟨_, _, rfl⟩
  cases q with
  | done b => exact hpq.elim
  | ask r' next' =>
  obtain ⟨like, hk, -⟩ := hpq
  have own := (hp r next rfl).own
  have own' := (hq r' next' rfl).own
  cases hk with
  -- only a wait for a gate or for children may have to wait, and both get what they wait for
  | own hr =>
      cases r with
      | get | countRunning | nextFireTime | now | schedulerRunning | notifyStarted
      | notifyFinished | establish | clearIdentity | modify | unschedule | rescheduleLater
      | scheduleNow | deleteJob =>
          exact ⟨v, _, _, _, .refl, .answered (.performed rfl)⟩
      | _ => exact hr.elim
  | get | registered | newHandle | isShutDown | canRun | isInterrupted | setSafe | setExecuting
  | register | deregister | spawn =>
      exact ⟨v, _, _, _, .refl, .answered (.performed rfl)⟩
  | collect =>
      exact ready_collect hw.undeterred hv.undeterred hl (own _ rfl) (own' _ rfl) ht next'
  | handler hc =>
      have performed {h : HandleId} {c : HandlerCall} {v₁ v' : World} {y : c.Response}
          (hy : v₁.performHandler h f.oid c = some (y, v')) :
          v₁.perform f.place (.handler h f.oid c) = some (some y, v') := by
        simp [perform, hy]
      cases hc with
      | identity | write | spawn =>
          exact ⟨v, _, _, _, .refl, .answered (.performed (performed rfl))⟩
      | own hr =>
          have calm := hw.undeterred.isInterrupted (own _ rfl)
          cases ht with
          | answered ha =>
              obtain ⟨x, -, hx⟩ := ha.handler_performed calm
              obtain ⟨v₁, y, v', hpass, hy⟩ := ready_handler hr calm hx v
              exact ⟨v₁, _, _, v', hpass, .answered (.performed (performed hy))⟩

end Lockstep

end TaskFiring
