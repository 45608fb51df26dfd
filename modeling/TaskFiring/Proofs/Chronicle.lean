import TaskFiring.Proofs.Copies
import TaskFiring.Proofs.Passage

/-!
Runs with the worlds they go through. Where the versions of a task rise with every write,
its record stays the same from any point of a run to a later one at which it is the same.
-/

namespace TaskFiring

/-- An event, with the world before and after it. -/
structure Change (ι : Type) where
  event : Event ι
  before : World
  after : World

/-- A step of a scene as a change. -/
def Scene.Changes {ι : Type} [DecidableEq ι] (crew : ι → Occasion)
    (outside : World → World → Prop) (c : Scene ι) (x : Change ι) (c' : Scene ι) : Prop :=
  c.Step crew outside x.event c' ∧ x.before = c.world ∧ x.after = c'.world

section

variable {ι : Type} [DecidableEq ι] {crew : ι → Occasion} {outside : World → World → Prop}
  {c c' : Scene ι} {x : Change ι} {xs : List (Change ι)} {es : List (Event ι)} {i : ι}

/-- What happens in a run of changes. -/
theorem Scene.events_of_changes (hr : Run (Scene.Changes crew outside) c xs c') :
    Run (Scene.Step crew outside) c (xs.map Change.event) c' :=
  hr.image fun _ _ _ h => h.1

/-- Every run can be written down. -/
theorem Scene.changes_of_events (hr : Run (Scene.Step crew outside) c es c') :
    ∃ xs, xs.map Change.event = es ∧ Run (Scene.Changes crew outside) c xs c' := by
  induction hr with
  | nil => exact ⟨[], rfl, .nil⟩
  | @snoc c₁ c₂ es e _ he ih =>
      obtain ⟨xs, rfl, hr⟩ := ih
      exact ⟨xs ++ [⟨e, c₁.world, c₂.world⟩], by simp, .snoc hr ⟨he, rfl, rfl⟩⟩

/-- A deed of the firing in a run of changes. -/
theorem exists_change_of_deedsOf {ds ds' : List Deed} {d : Deed}
    (h : deedsOf i (xs.map Change.event) = ds ++ d :: ds') :
    ∃ before x after, xs = before ++ x :: after ∧
      deedsOf i (before.map Change.event) = ds ∧ x.event = .deed i d ∧
      deedsOf i (after.map Change.event) = ds' := by
  obtain ⟨before, after, he, hb, ha⟩ := exists_of_deedsOf h
  obtain ⟨xs, rest, rfl, rfl, hrest⟩ := List.map_eq_append_iff.mp he
  obtain ⟨x, xs', rfl, hx, rfl⟩ := List.map_eq_cons_iff.mp hrest
  exact ⟨xs, x, xs', rfl, hb, hx, ha⟩

/-- The first one. -/
theorem exists_first_change_of_deedsOf {ds : List Deed} {d : Deed}
    (h : deedsOf i (xs.map Change.event) = d :: ds) :
    ∃ before x after, xs = before ++ x :: after ∧
      deedsOf i (before.map Change.event) = [] ∧ x.event = .deed i d ∧
      deedsOf i (after.map Change.event) = ds :=
  exists_change_of_deedsOf (h : _ = [] ++ d :: ds)

end

namespace World

/-- The record of the task is left, or written once, or it is taken away. -/
def Amends (oid : TaskOid) (w w' : World) : Prop :=
  w'.store.find? oid = w.store.find? oid ∨ w'.store.find? oid = none ∨
    ∃ r d, w.store.find? oid = some r ∧ w'.store.find? oid = some (Store.written r d)

section

variable {w w' : World} {place : Place} {r : Call} {a : r.Response} {oid : TaskOid}

theorem amends_of_modify {oid' : TaskOid} {d : TaskDelta} {c : Precondition}
    (h : w'.store = (w.store.modify oid' d c).2) : w.Amends oid w' := by
  unfold Amends
  rw [h]
  rcases w.store.modify_cases oid' d c with ⟨e, hm⟩ | ⟨r, s, hm, hr, -, -, hf⟩
  · exact .inl (by rw [hm])
  · rw [hm]
    by_cases ho : oid' = oid
    · subst ho
      exact .inr (.inr ⟨r, d, hr, by simp [hf]⟩)
    · exact .inl (by simp [hf, ho])

theorem disturb_amends (d : Disturbance) : w.Amends oid (w.disturb d) := by
  cases d with
  | write oid' d => exact amends_of_modify rfl
  | remove oid' =>
      have hf := Table.find?_erase w.store.tasks oid' oid
      by_cases ho : oid' = oid
      · exact .inr (.inl (hf.trans (if_pos ho)))
      · exact .inl (hf.trans (if_neg ho))
  | storeAvailable | triggerFailing | advance => exact .inl rfl

/-- No call puts a record in that was not there. -/
theorem Answers.amends (ha : w.Answers place r a w') : w.Amends oid w' := by
  cases r with
  | modify oid' d c => exact amends_of_modify (by rw [ha.modify.2])
  | handler h oid' call =>
      rcases ha.handler_cases with hw | ⟨b, -, -, hm⟩ | ⟨d, -, rfl⟩
      · exact .inl (by rw [hw.store])
      · exact amends_of_modify (by rw [hm])
      · exact disturb_amends d
  | _ => exact .inl (by rw [ha.store id])

/-- A write that succeeds replaces the record that has met its condition. -/
theorem Answers.replaced {d : TaskDelta} {c : Precondition} {t : Task}
    (ha : w.Answers place (.modify oid d c) (.ok t) w') :
    ∃ r, w.store.find? oid = some r ∧ Store.violation? r c = none ∧ t = Store.written r d ∧
      w'.store.find? oid = some t := by
  obtain ⟨-, r, hf, hc, ht, hf'⟩ := Store.modify_ok ha.modify.2
  exact ⟨r, hf, hc, ht, by simpa using hf' oid⟩

end

end World

/-- A version that is written is not the first one again. -/
def Change.NoWrap {ι : Type} (oid : TaskOid) (x : Change ι) : Prop :=
  ∀ r, x.after.store.find? oid = some r → x.before.store.find? oid = some r ∨ r.version ≠ 0

section

variable {ι : Type} [DecidableEq ι] {crew : ι → Occasion} {outside : World → World → Prop}
  {c c' : Scene ι} {x : Change ι} {xs : List (Change ι)} {oid : TaskOid} {r r' : Task}

theorem Scene.Step.answers {i : ι} {q : Call} {a : q.Response}
    (he : c.Step crew outside (.deed i (.answered q a)) c') :
    c.world.Answers (crew i).place q a c'.world := by
  cases he with
  | deed ht =>
      generalize c.program i = p at ht
      cases ht with
      | answered ha => exact ha

/-- Nor does anything else that happens in a run, if it does not come from outside. -/
theorem Scene.Step.amends {e : Event ι} (he : c.Step crew outside e c')
    (ho : ∀ w w', outside w w' → w.Amends oid w') : c.world.Amends oid c'.world := by
  cases he with
  | outside h => exact ho _ _ h
  | @deed i _ _ _ ht =>
      generalize c.program i = q at ht
      cases ht with
      | answered ha => exact ha.amends
      | gathered hg => exact .inl (by rw [hg.agrees.store])

theorem Change.advances (hx : c.Changes crew outside x c')
    (ho : ∀ w w', outside w w' → w.Amends oid w') (hv : x.NoWrap oid) :
    c.world.Advances oid c'.world := by
  obtain ⟨he, hbefore, hafter⟩ := hx
  intro r' hr'
  rcases he.amends ho with h | h | ⟨r, d, hr, h⟩
  · exact ⟨r', h.symm.trans hr', .inl rfl⟩
  · rw [h] at hr'
    cases hr'
  · obtain rfl : Store.written r d = r' := Option.some.inj (h.symm.trans hr')
    refine ⟨r, hr, ?_⟩
    rcases hv _ (hafter ▸ h) with hsame | hv
    · exact .inl (Option.some.inj ((hbefore ▸ hsame).symm.trans hr))
    · exact .inr (Store.version_lt_written hv)

/-- No version wraps in a run with fewer events than there are versions left. -/
theorem Change.noWrap_of_short (hr : Run (Scene.Changes crew outside) c xs c')
    (ho : ∀ w w', outside w w' → w.Amends oid w') {n : Nat} (hn : n + xs.length < UInt64.size)
    (h : ∀ r, c.world.store.find? oid = some r → r.version.toNat ≤ n) :
    (∀ x ∈ xs, x.NoWrap oid) ∧
      ∀ r, c'.world.store.find? oid = some r → r.version.toNat ≤ n + xs.length := by
  induction hr with
  | nil => exact ⟨by simp, h⟩
  | @snoc c₁ c₂ xs x _ hx ih =>
      rw [List.length_append, List.length_singleton] at hn ⊢
      obtain ⟨hv, hle⟩ := ih (by omega)
      obtain ⟨he, hbefore, hafter⟩ := hx
      have step : ∀ r', c₂.world.store.find? oid = some r' →
          (c₁.world.store.find? oid = some r' ∨ r'.version ≠ 0) ∧
            r'.version.toNat ≤ n + (xs.length + 1) := by
        intro r' hr'
        rcases he.amends ho with hsame | hgone | ⟨r, d, hr, hwritten⟩
        · rw [hr'] at hsame
          exact ⟨.inl hsame.symm, Nat.le_trans (hle r' hsame.symm) (by omega)⟩
        · rw [hr'] at hgone
          cases hgone
        · obtain rfl : Store.written r d = r' := Option.some.inj (hwritten.symm.trans hr')
          have le := hle r hr
          have next : (Store.written r d).version.toNat = r.version.toNat + 1 := by
            rw [UInt64.size] at hn
            simp only [Store.written, UInt64.toNat_add, UInt64.reduceToNat]
            omega
          refine ⟨.inr fun h => ?_, by omega⟩
          rw [h] at next
          cases next
      refine ⟨List.forall_mem_append.mpr ⟨hv, List.forall_mem_singleton.mpr ?_⟩,
        fun r hr => (step r hr).2⟩
      intro r hr
      rw [hafter] at hr
      rw [hbefore]
      exact (step r hr).1

/-- What the record was at some time precedes what it is later. -/
theorem Change.precedes (hr : Run (Scene.Changes crew outside) c xs c')
    (ho : ∀ w w', outside w w' → w.Amends oid w') (hv : ∀ x ∈ xs, x.NoWrap oid)
    (h : c.world.store.find? oid = some r) (h' : c'.world.store.find? oid = some r') :
    r.Precedes r' := by
  induction hr generalizing r' with
  | nil =>
      obtain rfl : r = r' := Option.some.inj (h.symm.trans h')
      exact .refl r
  | @snoc c₁ c₂ xs x _ hx ih =>
      have advances := Change.advances hx ho (hv x (by simp))
      refine Task.Precedes.advances (fun r₁ h₁ => ?_) advances h'
      exact ih (fun x hx => hv x (List.mem_append_left _ hx)) h₁

/-- A record that is the same again was the same all the time. -/
theorem Change.steady (hr : Run (Scene.Changes crew outside) c xs c')
    (ho : ∀ w w', outside w w' → w.Amends oid w') (hv : ∀ x ∈ xs, x.NoWrap oid)
    (h : c.world.store.find? oid = some r) (h' : c'.world.store.find? oid = some r) :
    ∀ x ∈ xs, x.after.store.find? oid = some r := by
  induction hr with
  | nil => simp
  | @snoc c₁ c₂ xs x hr hx ih =>
      have hv' : ∀ x ∈ xs, x.NoWrap oid := fun x hx => hv x (List.mem_append_left _ hx)
      obtain ⟨r₁, h₁, hlt⟩ := Change.advances hx ho (hv x (by simp)) r h'
      have le := (Change.precedes hr ho hv' h h₁).1
      obtain rfl : r = r₁ := hlt.resolve_right (by omega)
      refine List.forall_mem_append.mpr ⟨ih hv' h₁, List.forall_mem_singleton.mpr ?_⟩
      rw [hx.2.2]
      exact h'

/-- So was one that has the same version again. -/
theorem Change.unmoved (hr : Run (Scene.Changes crew outside) c xs c')
    (ho : ∀ w w', outside w w' → w.Amends oid w') (hv : ∀ x ∈ xs, x.NoWrap oid)
    (h : c.world.store.find? oid = some r) (h' : c'.world.store.find? oid = some r')
    (hs : Store.violation? r' (.version r.version) = none) :
    r' = r ∧ ∀ x ∈ xs, x.after.store.find? oid = some r := by
  obtain rfl : r' = r := Copies.eq_of_violation? (Change.precedes hr ho hv h h') hs
  exact ⟨rfl, Change.steady hr ho hv h h'⟩

end

end TaskFiring
