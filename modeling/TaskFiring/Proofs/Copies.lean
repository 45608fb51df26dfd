import TaskFiring.Proofs.Interleaving

/-!
The copies that firings go by until they take their tasks. As every write raises the
version of a record, a copy is older than the record or equal to it, and a write that
depends on its version finds the record as it was copied. So a task is ready at the
moment in which it is taken.
-/

namespace TaskFiring

/-- The versions of the records that are written do not wrap. -/
def NoWrap {ι : Type} (es : List (Event ι)) : Prop :=
  ∀ e ∈ es, ∀ t, e.written? = some t → t.version ≠ 0

theorem noWrap_of_all {ι : Type} {es : List (Event ι)}
    (h : es.all fun e => e.written?.all (·.version ≠ 0)) : NoWrap es :=
  fun e he t ht => by simpa [ht] using List.all_eq_true.mp h e he

/-- A copy of the record or of what it was earlier. -/
def Task.Precedes (t r : Task) : Prop :=
  t.version.toNat ≤ r.version.toNat ∧ (t.version = r.version → t = r)

theorem Task.Precedes.refl (t : Task) : t.Precedes t := ⟨Nat.le_refl _, fun _ => rfl⟩

/-- Versions rise as long as they do not wrap. -/
theorem Store.version_lt_written {t : Task} {d : TaskDelta}
    (h : (Store.written t d).version ≠ 0) :
    t.version.toNat < (Store.written t d).version.toNat := by
  have hne : (t.version + 1).toNat ≠ 0 := fun hz => h (UInt64.toNat_inj.mp hz)
  have := t.version.toNat_lt
  simp only [Store.written, UInt64.toNat_add, UInt64.reduceToNat] at hne ⊢
  omega

namespace World

/-- The record of the task is the same, or it is gone, or its version is higher. -/
def Advances (oid : TaskOid) (w w' : World) : Prop :=
  ∀ r', w'.store.find? oid = some r' → ∃ r, w.store.find? oid = some r ∧
    (r' = r ∨ r.version.toNat < r'.version.toNat)

section

variable {w w' : World} {place : Place}

theorem advances_of_find? {oid : TaskOid} (h : w'.store.find? oid = w.store.find? oid) :
    w.Advances oid w' :=
  fun r hr => ⟨r, by rw [← h, hr], .inl rfl⟩

theorem advances_of_modify {oid : TaskOid} {d : TaskDelta} {c : Precondition}
    (h : w'.store = (w.store.modify oid d c).2)
    (hv : ∀ t, (w.store.modify oid d c).1 = .ok t → t.version ≠ 0) (oid' : TaskOid) :
    w.Advances oid' w' := by
  rcases w.store.modify_cases oid d c with ⟨e, hm⟩ | ⟨r, s, hm, hr, -, -, hf⟩
  · exact advances_of_find? (by rw [h, hm])
  · intro r' hr'
    rw [h, hm] at hr'
    simp only [hf] at hr'
    split at hr'
    · next ho =>
      subst ho
      cases hr'
      exact ⟨r, hr, .inr (Store.version_lt_written (hv _ (by rw [hm])))⟩
    · exact ⟨r', hr', .inl rfl⟩

/-- A call of a firing raises the version of what it writes, if its handler does. -/
theorem Answers.advances {r : Call} {a : r.Response} {oid : TaskOid}
    (ha : w.Answers place r a w')
    (hv : ∀ t, Deed.written? (.answered r a) = some t → t.version ≠ 0)
    (hr : ∀ h oid' call, r = .handler h oid' call → w.Advances oid w') :
    w.Advances oid w' := by
  cases r with
  | modify oid' d c =>
      refine advances_of_modify (by rw [ha.modify.2]) (fun t ht => ?_) oid
      rw [ha.modify.2] at ht
      exact hv t (by rw [show a = .ok t from ht]; rfl)
  | handler h oid' call => exact hr h oid' call rfl
  | _ => exact advances_of_find? (by rw [ha.store id])

end

end World

theorem Task.Precedes.advances {t r' : Task} {oid : TaskOid} {w w' : World}
    (ht : ∀ r, w.store.find? oid = some r → t.Precedes r) (hw : w.Advances oid w')
    (hr : w'.store.find? oid = some r') : t.Precedes r' := by
  obtain ⟨r, hf, rfl | hlt⟩ := hw r' hr
  · exact ht r' hf
  · have hle := (ht r hf).1
    refine ⟨by omega, fun hv => ?_⟩
    rw [hv] at hle
    omega

/-- A copy that is current was so before. -/
theorem Task.Precedes.current {t : Task} {oid : TaskOid} {w w' : World}
    (ht : ∀ r, w.store.find? oid = some r → t.Precedes r) (hw : w.Advances oid w')
    (hr : w'.store.find? oid = some t) : w.store.find? oid = some t := by
  obtain ⟨r, hf, rfl | hlt⟩ := hw t hr
  · exact hf
  · have := (ht r hf).1
    omega

namespace Phase

/-- The copy that the firing goes by. -/
def copy? : Phase → Option Task
  | .loaded t | .repairing t | .prepared t | .admitted t _ | .guarded t _
  | .registered t _ => some t
  | _ => none

/-- The copy is known to be ready. -/
def Checked : Phase → Prop
  | .repairing _ | .prepared _ | .admitted _ _ | .guarded _ _ | .registered _ _ => True
  | _ => False

section

variable {f : Occasion} {allowed : HandlerCall → Prop} {q p : Phase} {r : Call} {a : r.Response}

/-- A copy is what it was, or what was read, or what a repair has written. -/
theorem copy?_of_move (hm : Move f allowed q r a p) {t : Task} (hp : p.copy? = some t) :
    q.copy? = some t ∨ Deed.answered r a = .answered (.get f.oid) (.ok t) ∨
      ∃ d c, Deed.answered r a = .answered (.modify f.oid d c) (.ok t) := by
  cases hm with
  | aside _ | spare | doubt | look | register => exact .inl hp
  | enter => split at hp <;> exact .inl hp
  | load =>
      cases hp
      exact .inr (.inl rfl)
  | repair =>
      cases hp
      exact .inr (.inr ⟨_, _, rfl⟩)
  | _ => cases hp

end

end Phase

namespace Copies

section

variable {ι : Type} (crew : ι → Occasion)

structure Inv (s : Stage ι) : Prop where
  precedes : ∀ i t r, (s.phase i).copy? = some t →
    s.world.store.find? (crew i).oid = some r → t.Precedes r
  ready : ∀ i t, (s.phase i).copy? = some t → (s.phase i).Checked → t.isReady

end

section

variable {ι : Type} [DecidableEq ι] {crew : ι → Occasion} {s s' : Stage ι} {w : World}
  {i : ι} {p : Phase} {e : Event ι} {t r : Task}

omit [DecidableEq ι] in
theorem inv_begin (w : World) : Inv crew (Stage.begin w) where
  precedes _ _ _ h := by cases h
  ready _ _ h := by cases h

/-- A write that depends on the version of a copy replaces what was copied. -/
theorem eq_of_violation? (hp : t.Precedes r)
    (hv : Store.violation? r (.version t.version) = none) : r = t := by
  refine (hp.2 ?_).symm
  simp only [Store.violation?] at hv
  split at hv
  · next h => exact h.symm
  · cases hv

omit [DecidableEq ι] in
/-- A firing goes on past the check of its task with copies that are ready. -/
theorem Inv.ready_of_move {allowed : HandlerCall → Prop} {c : Call} {a : c.Response}
    (hi : Inv crew s) (ha : s.world.Answers (crew i).place c a w)
    (hm : Phase.Move (crew i) allowed (s.phase i) c a p) (hp : p.copy? = some t)
    (hc : p.Checked) : t.isReady := by
  have hready := hi.ready i
  have hcopy := fun t r => hi.precedes i t r
  generalize s.phase i = q at hm hready hcopy
  cases hm with
  | aside _ => exact hready t hp hc
  | load => cases hc
  | spare hr | doubt hr =>
      cases hp
      exact hr
  | @repair t₀ _ =>
      cases hp
      obtain ⟨-, r, hf, hv, rfl, -⟩ := Store.modify_ok ha.modify.2
      obtain rfl : r = t₀ := eq_of_violation? (hcopy _ _ rfl hf) hv
      exact hready r rfl trivial
  | enter => split at hp <;> exact hready t hp trivial
  | look | register => exact hready t hp trivial
  | _ => cases hp

omit [DecidableEq ι] in
/-- What is copied is older than the record, also after the call. -/
theorem Inv.precedes_of_move {allowed : HandlerCall → Prop} {c : Call} {a : c.Response}
    (hi : Inv crew s) (hw : s.world.Advances (crew i).oid w)
    (ha : s.world.Answers (crew i).place c a w)
    (hm : Phase.Move (crew i) allowed (s.phase i) c a p) (hp : p.copy? = some t)
    (hr : w.store.find? (crew i).oid = some r) : t.Precedes r := by
  rcases Phase.copy?_of_move hm hp with hq | hget | ⟨d, c', hmod⟩
  · exact Task.Precedes.advances (fun r hr => hi.precedes i t r hq hr) hw hr
  · cases hget
    obtain ⟨rfl, hg⟩ := ha.get
    obtain rfl : t = r := Option.some.inj ((Store.get_ok hg.symm).symm.trans hr)
    exact .refl t
  · cases hmod
    obtain ⟨-, -, -, -, -, hf⟩ := Store.modify_ok ha.modify.2
    obtain rfl : t = r := Option.some.inj ((by simpa using hf (crew i).oid : _ = _).symm.trans hr)
    exact .refl t

/-- Every step raises the version of what it writes, if handlers and outsiders do. -/
theorem advances_of_step {allowed : HandlerCall → Prop} {outside : World → World → Prop}
    {oid : TaskOid} (ho : ∀ w w', outside w w' → w.Advances oid w')
    (hh : ∀ i h call (a : Option call.Response) w',
      s.world.Answers (crew i).place (.handler h (crew i).oid call) a w' → allowed call →
      (∀ t, Deed.written? (.answered (.handler h (crew i).oid call) a) = some t →
        t.version ≠ 0) → s.world.Advances oid w')
    (he : s.Step crew allowed outside e s')
    (hv : ∀ t, e.written? = some t → t.version ≠ 0) : s.world.Advances oid s'.world := by
  cases he with
  | gathered hw => exact World.advances_of_find? (by rw [hw.store])
  | outside hw => exact ho _ _ hw
  | @answered i c a p w ha hm =>
      refine ha.advances hv ?_
      rintro h oid' call rfl
      generalize s.phase i = q at hm
      cases hm with
      | aside hr => cases hr
      | handler hcall => exact hh i h call a w ha hcall hv

theorem Inv.step {allowed : HandlerCall → Prop} {outside : World → World → Prop}
    (hi : Inv crew s) (hw : ∀ i, s.world.Advances (crew i).oid s'.world)
    (he : s.Step crew allowed outside e s') : Inv crew s' := by
  cases he with
  | gathered _ | outside _ =>
      refine ⟨fun i t r hq hr => ?_, hi.ready⟩
      exact Task.Precedes.advances (fun r hr => hi.precedes i t r hq hr) (hw i) hr
  | @answered i c a p w ha hm =>
      refine ⟨fun j t r hp hr => ?_, fun j t hp hc => ?_⟩
      · by_cases hj : j = i
        · subst hj
          exact hi.precedes_of_move (hw j) ha hm (by simpa using hp) hr
        · have hp : (s.phase j).copy? = some t := by simpa [hj] using hp
          exact Task.Precedes.advances (fun r hr => hi.precedes j t r hp hr) (hw j) hr
      · by_cases hj : j = i
        · subst hj
          exact hi.ready_of_move ha hm (by simpa using hp) (by simpa using hc)
        · exact hi.ready j t (by simpa [hj] using hp) (by simpa [hj] using hc)

end

end Copies
end TaskFiring
