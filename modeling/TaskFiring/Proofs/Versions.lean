import TaskFiring.Proofs.Loading
import TaskFiring.Proofs.Stirring

/-!
Runs that differ in the versions of a record. A firing gives the version that it has read back
to the store when it takes its task, and does not go by it otherwise. So two runs of a firing
whose records differ in nothing else go on together, whatever else goes on beside them, as long
as nobody writes the record before the task is taken: the write then finds the version that it
asks for in both.
-/

namespace TaskFiring

/-- Versions that compare go on to compare when both records are written. -/
def Abreast (ρ : UInt64 → UInt64 → Prop) : Prop := ∀ a b, ρ a b → ρ (a + 1) (b + 1)

theorem Abreast.flip {ρ : UInt64 → UInt64 → Prop} (h : Abreast ρ) : Abreast (flip ρ) :=
  fun a b => h b a

/-- The same task but for the version. -/
def Task.Alike (ρ : UInt64 → UInt64 → Prop) (t u : Task) : Prop :=
  ∃ v, ρ t.version v ∧ u = { t with version := v }

/-- The stores differ in the version of that task only. -/
structure Store.Alike (ρ : UInt64 → UInt64 → Prop) (oid : TaskOid) (s s' : Store) : Prop where
  available : s'.available = s.available
  others : ∀ o, o ≠ oid → s'.find? o = s.find? o
  own : (s.find? oid = none ∧ s'.find? oid = none) ∨
    ∃ t u, s.find? oid = some t ∧ s'.find? oid = some u ∧ t.Alike ρ u

/-- The worlds differ in that, and in what was told to the listeners and noted. -/
def World.Alike (ρ : UInt64 → UInt64 → Prop) (oid : TaskOid) (w v : World) : Prop :=
  ∃ s l j, v = w.recast s w.trigger l j ∧ w.store.Alike ρ oid s

section

variable {ρ : UInt64 → UInt64 → Prop} {oid : TaskOid} {t u : Task} {s s' : Store}

theorem Task.Alike.flip (h : t.Alike ρ u) : u.Alike (flip ρ) t := by
  obtain ⟨v, hv, rfl⟩ := h
  exact ⟨t.version, hv, rfl⟩

theorem Task.matched_flip {a b : Except StoreError Task}
    (h : Matched (Task.Alike (flip ρ)) b a) : Matched (Task.Alike ρ) a b := by
  rcases h with h | e
  · exact .ok h.flip
  · exact .error e

theorem Task.Alike.written (hρ : Abreast ρ) (h : t.Alike ρ u) (d : TaskDelta) :
    (Store.written t d).Alike ρ (Store.written u d) := by
  obtain ⟨v, hv, rfl⟩ := h
  exact ⟨v + 1, hρ _ _ hv, rfl⟩

theorem Store.available_of_get (h : s.get oid = .ok t) : s.available := by
  unfold Store.get at h
  split at h
  · assumption
  · cases h

/-- A write whose condition is met replaces the record. -/
theorem Store.modify_of_met {d : TaskDelta} {c : Precondition} (ha : s.available)
    (ht : s.find? oid = some t) (hc : violation? t c = none) :
    ∃ s₁, s.modify oid d c = (.ok (written t d), s₁) ∧ s₁.available = s.available ∧
      ∀ o, s₁.find? o = if oid = o then some (written t d) else s.find? o := by
  rcases s.modify_cases oid d c with ⟨e, hm⟩ | ⟨r, s₁, hm, hr, -, hrest⟩
  · simp [Store.modify, ha, ht, hc] at hm
  · obtain rfl : r = t := Option.some.inj (hr.symm.trans ht)
    exact ⟨s₁, hm, hrest⟩

namespace Store.Alike

theorem flip (h : s.Alike ρ oid s') : s'.Alike (flip ρ) oid s where
  available := h.available.symm
  others o ho := (h.others o ho).symm
  own := by
    rcases h.own with ⟨hs, hs'⟩ | ⟨t, u, ht, hu, ha⟩
    · exact .inl ⟨hs', hs⟩
    · exact .inr ⟨u, t, hu, ht, ha.flip⟩

theorem get (h : s.Alike ρ oid s') : Matched (Task.Alike ρ) (s.get oid) (s'.get oid) := by
  unfold Store.get
  rw [h.available]
  split
  · rcases h.own with ⟨hs, hs'⟩ | ⟨t, u, ht, hu, ha⟩
    · rw [hs, hs']
      exact .error _
    · rw [ht, hu]
      exact .ok ha
  · exact .error _

/-- A write does the same in both if its condition holds in both or fails alike. -/
theorem modify (hρ : Abreast ρ) (h : s.Alike ρ oid s') (d : TaskDelta) {c c' : Precondition}
    (hc : ∀ t u, s.find? oid = some t → s'.find? oid = some u → t.Alike ρ u →
      violation? u c' = violation? t c) :
    Matched (Task.Alike ρ) (s.modify oid d c).1 (s'.modify oid d c').1 ∧
      (s.modify oid d c).2.Alike ρ oid (s'.modify oid d c').2 := by
  have failed (e : StoreError) (hm : s.modify oid d c = (.error e, s))
      (hm' : s'.modify oid d c' = (.error e, s')) :
      Matched (Task.Alike ρ) (s.modify oid d c).1 (s'.modify oid d c').1 ∧
        (s.modify oid d c).2.Alike ρ oid (s'.modify oid d c').2 := by
    rw [hm, hm']
    exact ⟨.error e, h⟩
  by_cases hav : s.available
  · have hav' := h.available.trans hav
    rcases h.own with ⟨hs, hs'⟩ | ⟨t, u, ht, hu, ha⟩
    · exact failed (.notFound oid) (by simp [Store.modify, hav, hs])
        (by simp [Store.modify, hav', hs'])
    · cases hv : violation? t c with
      | some e =>
          have hv' := (hc t u ht hu ha).trans hv
          exact failed e (by simp [Store.modify, hav, ht, hv])
            (by simp [Store.modify, hav', hu, hv'])
      | none =>
          have hv' := (hc t u ht hu ha).trans hv
          obtain ⟨s₁, hm, ha₁, hf₁⟩ := Store.modify_of_met (d := d) hav ht hv
          obtain ⟨s₂, hm', ha₂, hf₂⟩ := Store.modify_of_met (d := d) hav' hu hv'
          rw [hm, hm']
          refine ⟨.ok (ha.written hρ d), (ha₂.trans h.available).trans ha₁.symm,
            fun o ho => ?_, .inr ⟨_, _, ?_, ?_, ha.written hρ d⟩⟩
          · rw [hf₁, hf₂, if_neg (Ne.symm ho), if_neg (Ne.symm ho), h.others o ho]
          · exact (hf₁ oid).trans (if_pos rfl)
          · exact (hf₂ oid).trans (if_pos rfl)
  · have hav' : ¬ s'.available := by rwa [h.available]
    exact failed .unavailable (if_neg hav) (if_neg hav')

/-- So does one from behind, of whichever task. -/
theorem write (hρ : Abreast ρ) (h : s.Alike ρ oid s') (o : TaskOid) (d : TaskDelta) :
    (s.modify o d .always).2.Alike ρ oid (s'.modify o d .always).2 := by
  by_cases ho : o = oid
  · subst ho
    exact (h.modify hρ d fun _ _ _ _ _ => rfl).2
  · refine ⟨?_, fun o' ho' => ?_, ?_⟩
    · rw [Store.available_modify, Store.available_modify, h.available]
    · by_cases he : o' = o
      · subst he
        exact (Store.modify_congr h.available (h.others o' ho') d .always).2
      · rw [Store.find?_modify_ne he, Store.find?_modify_ne he, h.others o' ho']
    · rw [Store.find?_modify_ne (Ne.symm ho), Store.find?_modify_ne (Ne.symm ho)]
      exact h.own

theorem remove (h : s.Alike ρ oid s') (o : TaskOid) :
    (s.remove o).Alike ρ oid (s'.remove o) := by
  have removed (s : Store) (o' : TaskOid) :
      (s.remove o).find? o' = if o = o' then none else s.find? o' :=
    Table.find?_erase _ _ _
  refine ⟨h.available, fun o' ho' => ?_, ?_⟩
  · rw [removed, removed, h.others o' ho']
  · rw [removed, removed]
    by_cases ho : o = oid
    · exact .inl ⟨if_pos ho, if_pos ho⟩
    · rw [if_neg ho, if_neg ho]
      exact h.own

theorem sameForest (h : s.Alike ρ oid s') : s.SameForest s' := by
  intro o
  by_cases ho : o = oid
  · subst ho
    rcases h.own with ⟨hs, hs'⟩ | ⟨t, u, ht, hu, v, -, rfl⟩
    · rw [hs, hs']
    · rw [ht, hu]
      rfl
  · rw [h.others o ho]

theorem countRunning (h : s.Alike ρ oid s') (g : String) :
    s'.countRunning g oid = s.countRunning g oid :=
  Store.countRunning_congr h.sameForest h.available fun o ho _ => h.others o ho

end Store.Alike

end

/-! Which calls go together. -/

/-- The calls of a handler in two such runs: it may note something else. -/
inductive HandlerCall.Shifts (ρ : UInt64 → UInt64 → Prop) :
    Pairing ⟨HandlerCall, HandlerCall.Response⟩
  | same {c : HandlerCall} : c ≠ .switchToWaiting → Shifts ρ c c fun a b => a = b
  | switchToWaiting : Shifts ρ .switchToWaiting .switchToWaiting (Matched (Task.Alike ρ))
  | write {e e' : JournalEntry} : Shifts ρ (.write e) (.write e') fun _ _ => True

theorem HandlerCall.Shifts.flip {ρ : UInt64 → UInt64 → Prop} {c c' : HandlerCall}
    {like : c.Response → c'.Response → Prop} (h : HandlerCall.Shifts ρ c c' like) :
    ∃ like', HandlerCall.Shifts (flip ρ) c' c like' ∧ ∀ a b, like' b a → like a b := by
  cases h with
  | same hne => exact ⟨_, .same hne, fun _ _ => Eq.symm⟩
  | switchToWaiting => exact ⟨_, .switchToWaiting, fun _ _ => Task.matched_flip⟩
  | write => exact ⟨_, .write, fun _ _ _ => trivial⟩

namespace Call

/-- A call that says nothing of a record of the task, and is told nothing of it. -/
def IsBlind (oid : TaskOid) : Call → Prop
  | .get _ | .modify _ _ _ | .notifyStarted _ _ | .handler _ _ _ => False
  | .countRunning _ exclude => exclude = oid
  | _ => True

/-- A condition that has nothing to do with the version. -/
def Versionless (c : Precondition) : Prop := ∀ v, c ≠ .version v

theorem Versionless.always : Versionless .always := by
  intro v h
  cases h

theorem Versionless.scheduling (s : SchedulingState) : Versionless (.scheduling s) := by
  intro v h
  cases h

/-- The calls of a firing in two such runs. -/
inductive Shifts (ρ : UInt64 → UInt64 → Prop) (oid : TaskOid) : Pairing Calls
  | blind {r : Call} : r.IsBlind oid → Shifts ρ oid r r fun a b => a = b
  | get : Shifts ρ oid (.get oid) (.get oid) (Matched (Task.Alike ρ))
  | modify {d : TaskDelta} {c : Precondition} : Versionless c →
      Shifts ρ oid (.modify oid d c) (.modify oid d c) (Matched (Task.Alike ρ))
  /-- Both find the version that they ask for. -/
  | start {d : TaskDelta} {u v : UInt64} :
      Shifts ρ oid (.modify oid d (.version u)) (.modify oid d (.version v)) fun a b =>
        ∃ t t', a = .ok t ∧ b = .ok t' ∧ t.oid = oid ∧ t.Alike ρ t'
  | notifyStarted {b b' : Bool} :
      Shifts ρ oid (.notifyStarted oid b) (.notifyStarted oid b') fun _ _ => True
  | handler {h : HandleId} {c c' : HandlerCall} {like : c.Response → c'.Response → Prop} :
      HandlerCall.Shifts ρ c c' like →
      Shifts ρ oid (.handler h oid c) (.handler h oid c') fun a b =>
        (a = none ∧ b = none) ∨ ∃ x y, a = some x ∧ b = some y ∧ like x y

theorem Shifts.flip {ρ : UInt64 → UInt64 → Prop} {oid : TaskOid} {r r' : Call}
    {like : r.Response → r'.Response → Prop} (h : Shifts ρ oid r r' like) :
    ∃ like', Shifts (flip ρ) oid r' r like' ∧ ∀ a b, like' b a → like a b := by
  cases h with
  | blind hr => exact ⟨_, .blind hr, fun _ _ => Eq.symm⟩
  | get => exact ⟨_, .get, fun _ _ => Task.matched_flip⟩
  | modify hc => exact ⟨_, .modify hc, fun _ _ => Task.matched_flip⟩
  | start =>
      refine ⟨_, .start, ?_⟩
      rintro _ _ ⟨t, t', rfl, rfl, ho, v, hv, rfl⟩
      exact ⟨_, t, rfl, rfl, ho, t.version, hv, rfl⟩
  | notifyStarted => exact ⟨_, .notifyStarted, fun _ _ _ => trivial⟩
  | handler hc =>
      obtain ⟨like', hc', hlike⟩ := hc.flip
      refine ⟨_, .handler hc', ?_⟩
      rintro _ _ (⟨rfl, rfl⟩ | ⟨x, y, rfl, rfl, hxy⟩)
      · exact .inl ⟨rfl, rfl⟩
      · exact .inr ⟨y, x, rfl, rfl, hlike y x hxy⟩

/-- A write on condition of a version finds it. -/
def Timely (w : World) : Call → Prop
  | .modify oid _ (.version v) => ∃ t, w.Has oid t ∧ t.version = v
  | _ => True

end Call

namespace World

section

variable {ρ : UInt64 → UInt64 → Prop} {oid : TaskOid} {w w' v : World} {place : Place}
  {h : HandleId}

theorem Alike.flip (hw : w.Alike ρ oid v) : v.Alike (flip ρ) oid w := by
  obtain ⟨s, l, j, rfl, hs⟩ := hw
  exact ⟨w.store, w.listener, w.journal, rfl, hs.flip⟩

theorem Has.of_store {t : Task} (h : w.Has oid t) (hw : w'.store = w.store) : w'.Has oid t :=
  ⟨hw.symm ▸ h.available, hw.symm ▸ h.record⟩

/-- What goes on beside the one firing can go on beside the other. -/
theorem Detached.alike {outside : World → World → Prop} (hout : Detached outside)
    (hs : outside w w') (hw : w.Alike ρ oid v) : ∃ v', outside v v' ∧ w'.Alike ρ oid v' := by
  obtain ⟨s, l, j, rfl, hstore⟩ := hw
  obtain ⟨es, -, hrecast⟩ := hout.apart hs
  have intact := hout.intact hs
  refine ⟨_, hrecast s w.trigger l j, s, l, j ++ es, by rw [intact.trigger], ?_⟩
  rw [intact.store]
  exact hstore

theorem recast_register (w : World) (place : Place) (h : HandleId) (s : Store)
    (l : List ListenerEvent) (j : List JournalEntry) :
    (w.recast s w.trigger l j).register place h
      = ((w.register place h).1,
        (w.register place h).2.recast s (w.register place h).2.trigger l j) := by
  unfold register
  rw [show (w.recast s w.trigger l j).handle? h = w.handle? h from rfl]
  cases w.handle? h with
  | none => rfl
  | some handle =>
      dsimp only
      rw [show (w.recast s w.trigger l j).site place = w.site place from rfl]
      split <;> rfl

theorem recast_deregister (w : World) (place : Place) (h : HandleId) (s : Store)
    (l : List ListenerEvent) (j : List JournalEntry) :
    (w.recast s w.trigger l j).deregister place h
      = ((w.deregister place h).1,
        (w.deregister place h).2.recast s (w.deregister place h).2.trigger l j) := by
  unfold deregister
  rw [show (w.recast s w.trigger l j).handle? h = w.handle? h from rfl]
  cases w.handle? h with
  | none => rfl
  | some handle =>
      dsimp only
      rw [show (w.recast s w.trigger l j).site place = w.site place from rfl]
      split <;> rfl

theorem recast_closeTaken? (w : World) (h : HandleId) (i : Nat) (s : Store)
    (l : List ListenerEvent) (j : List JournalEntry) :
    (w.recast s w.trigger l j).closeTaken? h i
      = (w.closeTaken? h i).map fun x => (x.1, x.2.recast s x.2.trigger l j) := by
  unfold closeTaken?
  rw [show (w.recast s w.trigger l j).child? h i = w.child? h i from rfl]
  cases w.child? h i with
  | none => rfl
  | some c =>
      cases hr : c.result? with
      | none => simp [hr]
      | some r =>
          simp only [Option.bind_eq_bind, Option.bind_some, hr]
          rfl

theorem Gathers.alike {result r₁ : OperationResult} {closed n₁ : Nat} {batch b₁ : List Nat}
    (hg : w.Gathers h result closed batch r₁ n₁ b₁ w') (hw : w.Alike ρ oid v) :
    ∃ v', v.Gathers h result closed batch r₁ n₁ b₁ v' ∧ w'.Alike ρ oid v' := by
  obtain ⟨s, l, j, rfl, hs⟩ := hw
  rw [← hg.agrees.store] at hs
  cases hg with
  | take ht hb =>
      cases ht
      exact ⟨_, .take rfl hb, s, l, j, rfl, hs⟩
  | close hc =>
      have hc' := (w.recast_closeTaken? h _ s l j).trans (congrArg _ hc)
      exact ⟨_, .close hc', s, l, j, rfl, hs⟩

/-- A call that is blind to the record is answered the same. -/
theorem Answers.blind {r : Call} {a : r.Response} (hr : r.IsBlind oid)
    (ha : w.Answers place r a w') (hw : w.Alike ρ oid v) :
    ∃ v', v.Answers place r a v' ∧ w'.Alike ρ oid v' := by
  obtain ⟨s, l, j, rfl, hs⟩ := hw
  cases ha with
  | cut _ => exact hr.elim
  | gathered hnone =>
      have pending : ((w.recast s w.trigger l j).takePending _).1 = [] := congrArg Prod.fst hnone
      exact ⟨_, .gathered (Prod.ext pending rfl), s, l, j, rfl, hs⟩
  | performed hp =>
      cases r with
      | collect => cases hp
      | get | modify | notifyStarted | handler => exact hr.elim
      | countRunning g exclude =>
          cases hr
          cases hp
          refine ⟨_, .performed (congrArg (fun a => some (a, _)) (hs.countRunning g)), s, l, j,
            rfl, hs⟩
      | register h =>
          have hp : w.register place h = (a, w') := Option.some.inj hp
          have hp' := recast_register w place h s l j
          rw [hp] at hp'
          refine ⟨_, .performed (congrArg some hp'), s, l, j, rfl, ?_⟩
          rw [(register_same hp).1]
          exact hs
      | deregister h =>
          have hp : w.deregister place h = (a, w') := Option.some.inj hp
          have hp' := recast_deregister w place h s l j
          rw [hp] at hp'
          refine ⟨_, .performed (congrArg some hp'), s, l, j, rfl, ?_⟩
          rw [(deregister_spec hp).1]
          exact hs
      | notifyFinished o status =>
          cases hp
          exact ⟨_, .performed rfl, s, _, j, rfl, hs⟩
      | _ =>
          cases hp
          exact ⟨_, .performed rfl, s, l, j, rfl, hs⟩

theorem disturb_alike (hρ : Abreast ρ) (d : Disturbance) (hw : w.Alike ρ oid v) :
    (w.disturb d).Alike ρ oid (v.disturb d) := by
  obtain ⟨s, l, j, rfl, hs⟩ := hw
  cases d with
  | write o d => exact ⟨_, l, j, rfl, hs.write hρ o d⟩
  | remove o => exact ⟨_, l, j, rfl, hs.remove o⟩
  | storeAvailable value => exact ⟨_, l, j, rfl, rfl, hs.others, hs.own⟩
  | triggerFailing value => exact ⟨s, l, j, rfl, hs⟩
  | advance seconds => exact ⟨s, l, j, rfl, hs⟩

/-- A write of the record by both. -/
theorem onStore_alike {r r' : Except StoreError Task × Store} {l : List ListenerEvent}
    {j : List JournalEntry} {s : Store} (hr : r.2.Alike ρ oid r'.2) :
    (w.onStore r).2.Alike ρ oid ((w.recast s w.trigger l j).onStore r').2 :=
  ⟨r'.2, l, j, rfl, hr⟩

theorem performHandler_alike (hρ : Abreast ρ) {c c' : HandlerCall}
    {like : c.Response → c'.Response → Prop} (hc : HandlerCall.Shifts ρ c c' like)
    {x : c.Response} (hp : w.performHandler h oid c = some (x, w')) (hw : w.Alike ρ oid v) :
    ∃ y v', v.performHandler h oid c' = some (y, v') ∧ like x y ∧ w'.Alike ρ oid v' := by
  have alike := hw
  obtain ⟨s, l, j, rfl, hs⟩ := hw
  cases hc with
  | write =>
      cases hp
      exact ⟨(), _, rfl, trivial, s, l, _, rfl, hs⟩
  | switchToWaiting =>
      cases hp
      have condition (t u : Task) (_ : w.store.find? oid = some t) (_ : s.find? oid = some u)
          (_ : t.Alike ρ u) : Store.violation? u .always = Store.violation? t .always := rfl
      obtain ⟨answers, stores⟩ := hs.modify hρ World.waitingDelta condition
      exact ⟨_, _, rfl, answers, onStore_alike stores⟩
  | same hne =>
      cases c with
      | switchToWaiting => exact absurd rfl hne
      | canRun | identity | spawn =>
          cases hp
          exact ⟨_, _, rfl, rfl, s, l, j, rfl, hs⟩
      | write entry =>
          cases hp
          exact ⟨(), _, rfl, rfl, s, l, _, rfl, hs⟩
      | wait _ | awaitInterrupt =>
          obtain ⟨hover, hp⟩ := Option.ite_none_right_eq_some.mp hp
          cases hp
          exact ⟨(), _, if_pos hover, rfl, s, l, j, rfl, hs⟩
      | disturb d =>
          cases hp
          exact ⟨(), _, rfl, rfl, disturb_alike hρ d alike⟩

/-- Writes that ask for the version that is there succeed in both. -/
theorem Answers.start_alike (hρ : Abreast ρ) {d : TaskDelta} {m n : UInt64}
    {a : Except StoreError Task} (hw : w.Alike ρ oid v)
    (ht : Call.Timely w (.modify oid d (.version m)))
    (ht' : Call.Timely v (.modify oid d (.version n)))
    (ha : w.Answers place (.modify oid d (.version m)) a w') :
    ∃ b v', v.Answers place (.modify oid d (.version n)) b v' ∧
      (∃ t t', a = .ok t ∧ b = .ok t' ∧ t.oid = oid ∧ t.Alike ρ t') ∧ w'.Alike ρ oid v' := by
  obtain ⟨t, has, rfl⟩ := ht
  obtain ⟨u, has', rfl⟩ := ht'
  obtain ⟨s, l, j, rfl, hs⟩ := hw
  have met {s : Store} {t r : Task} (ht : s.find? oid = some t) (hr : s.find? oid = some r) :
      Store.violation? r (.version t.version) = none := by
    cases ht.symm.trans hr
    exact Solo.violation?_version t
  obtain ⟨answers, stores⟩ := hs.modify hρ d fun _ _ hr hr' _ =>
    (met has'.record hr').trans (met has.record hr).symm
  obtain ⟨s₁, hm, -⟩ :=
    Store.modify_of_met (d := d) has.available has.record (Solo.violation?_version t)
  cases ha with
  | performed hp =>
      cases hp
      refine ⟨_, _, .performed rfl, ?_, onStore_alike stores⟩
      rw [hm] at answers
      generalize hb : (s.modify oid d (.version u.version)).1 = b at answers
      cases answers with
      | ok halike =>
          have ho : t.oid = oid := Store.oid_of_find? has.record
          exact ⟨_, _, congrArg Prod.fst hm, hb, ho, halike⟩

/-- Calls that go together get answers that compare, and leave worlds that do. -/
theorem Answers.alike (hρ : Abreast ρ) {r r' : Call} {like : r.Response → r'.Response → Prop}
    {a : r.Response} (hr : Call.Shifts ρ oid r r' like) (hw : w.Alike ρ oid v)
    (ht : r.Timely w) (ht' : r'.Timely v) (ha : w.Answers place r a w') :
    ∃ b v', v.Answers place r' b v' ∧ like a b ∧ w'.Alike ρ oid v' := by
  cases hr with
  | blind hr =>
      obtain ⟨v', ha', hw'⟩ := ha.blind hr hw
      exact ⟨a, v', ha', rfl, hw'⟩
  | get =>
      obtain ⟨rfl, rfl⟩ := ha.get
      obtain ⟨s, l, j, rfl, hs⟩ := hw
      exact ⟨_, _, .performed rfl, hs.get, s, l, j, rfl, hs⟩
  | notifyStarted =>
      obtain ⟨s, l, j, rfl, hs⟩ := hw
      cases ha with
      | performed hp =>
          cases hp
          exact ⟨(), _, .performed rfl, trivial, s, _, j, rfl, hs⟩
  | @modify d c hc =>
      obtain ⟨s, l, j, rfl, hs⟩ := hw
      have condition (t u : Task) (_ : w.store.find? oid = some t) (_ : s.find? oid = some u)
          (h : t.Alike ρ u) : Store.violation? u c = Store.violation? t c := by
        obtain ⟨v, -, rfl⟩ := h
        cases c with
        | version v => exact absurd rfl (hc v)
        | always | scheduling => rfl
      obtain ⟨answers, stores⟩ := hs.modify hρ d condition
      cases ha with
      | performed hp =>
          cases hp
          exact ⟨_, _, .performed rfl, answers, onStore_alike stores⟩
  | start => exact ha.start_alike hρ hw ht ht'
  | @handler k c c' like hc =>
      cases ha with
      | cut hi =>
          obtain ⟨s, l, j, rfl, hs⟩ := hw
          exact ⟨none, _, .cut hi, .inl ⟨rfl, rfl⟩, s, l, j, rfl, hs⟩
      | performed hp =>
          obtain ⟨⟨x, w₁⟩, hx, hp⟩ := Option.map_eq_some_iff.mp hp
          cases hp
          obtain ⟨y, v', hy, hxy, hw'⟩ := performHandler_alike hρ hc hx hw
          refine ⟨some y, v', .performed ?_, .inr ⟨x, y, rfl, rfl, hxy⟩, hw'⟩
          simp [perform, hy]

end

end World

/-! The copy that a firing goes by. -/

/-- The firing stands where it goes by the record as it is, if it goes by a copy. -/
def Occasion.UpToDate (f : Occasion) (c : Action FiringOutcome × World) : Prop :=
  ∃ s, c.1.Follows Call.Fair (Phase.Move f fun _ => True) s (fun _ _ => True) ∧
    ∀ t, s.copy? = some t → c.2.Has f.oid t

namespace Occasion.UpToDate

variable {f : Occasion} {outside : World → World → Prop}
  {c c' : Action FiringOutcome × World} {e : Option Deed} {es : List (Option Deed)}

theorem outset (f : Occasion) (w : World) : f.UpToDate (f.program, w) :=
  ⟨.outset, program_follows (Node.keepsTo_true _), fun _ h => nomatch h⟩

/-- A copy is taken from the record, and as long as the firing goes by it, it does not write. -/
theorem has_of_move {s s' : Phase} {w w' : World} {r : Call} {a : r.Response} {t : Task}
    (hs : ∀ t, s.copy? = some t → w.Has f.oid t)
    (hm : Phase.Move f (fun _ => True) s r a s') (ha : w.Answers f.place r a w')
    (ht : s'.copy? = some t) : w'.Has f.oid t := by
  have same (hr : ¬ r.MayWrite) (ht : s.copy? = some t) : w'.Has f.oid t :=
    (hs t ht).of_store (ha.store hr)
  cases hm with
  | aside hr =>
      refine same (fun hw => ?_) ht
      cases r with
      | modify | handler => exact hr
      | _ => exact hw
  | spare | doubt | look | register => exact same id ht
  | enter =>
      refine same id ?_
      split at ht <;> exact ht
  | load =>
      cases ht
      obtain ⟨rfl, hget⟩ := ha.get
      exact ⟨Store.available_of_get hget.symm, Store.get_ok hget.symm⟩
  | repair =>
      cases ht
      have hmodify := ha.modify.2
      obtain ⟨havailable, -, -, -, -, hfind⟩ := Store.modify_ok hmodify
      exact ⟨havailable.trans (Store.available_of_modify hmodify),
        (hfind f.oid).trans (if_pos rfl)⟩
  | _ => cases ht

theorem step (hout : World.Detached outside) (h : f.UpToDate c)
    (hg : Program.Goes f.place outside c e c') : f.UpToDate c' := by
  obtain ⟨s, hfollows, hs⟩ := h
  cases hg with
  | outside ho => exact ⟨s, hfollows, fun t ht => (hs t ht).of_store (hout.intact ho).store⟩
  | own ht =>
      cases ht with
      | answered ha =>
          obtain ⟨s', hm, hnext⟩ := hfollows _ ha.fair
          exact ⟨s', hnext, fun t => has_of_move hs hm ha⟩
      | gathered hg =>
          exact ⟨s, follows_collect hfollows, fun t ht => (hs t ht).of_store hg.agrees.store⟩

theorem run (hout : World.Detached outside) (h : f.UpToDate c)
    (hr : Run (Program.Goes f.place outside) c es c') : f.UpToDate c' := by
  induction hr with
  | nil => exact h
  | snoc _ he ih => exact ih.step hout he

theorem timely {r : Call} {next : r.Response → Action FiringOutcome} {w : World}
    (h : f.UpToDate (.ask r next, w)) : r.Timely w := by
  obtain ⟨s, hfollows, hs⟩ := h
  cases r with
  | modify oid d c =>
      cases c with
      | version v =>
          obtain ⟨s', hm, -⟩ := hfollows (.error .unavailable) trivial
          cases hm with
          | aside hr => exact hr.elim
          | notRepaired | notStarted => exact ⟨_, hs _ rfl, rfl⟩
      | always | scheduling => trivial
  | _ => trivial

end Occasion.UpToDate

/-! Two runs. -/

/-- The two firings stand at calls that go together, in worlds that compare. -/
structure Astride (ρ : UInt64 → UInt64 → Prop) (f g : Occasion)
    (R : FiringOutcome → FiringOutcome → Prop) (c d : Action FiringOutcome × World) : Prop where
  paired : c.1.Paired (Call.Shifts ρ f.oid) d.1 R
  worlds : c.2.Alike ρ f.oid d.2
  left : f.UpToDate c
  right : g.UpToDate d

namespace Astride

variable {ρ : UInt64 → UInt64 → Prop} {f g : Occasion} {outside : World → World → Prop}
  {R : FiringOutcome → FiringOutcome → Prop} {c c' d : Action FiringOutcome × World}
  {e : Option Deed} {es : List (Option Deed)}

theorem flip (hoid : g.oid = f.oid) (h : Astride ρ f g R c d) :
    Astride (flip ρ) g f (flip R) d c where
  paired := hoid ▸ h.paired.flip (fun _ _ _ => Call.Shifts.flip) fun _ _ => id
  worlds := hoid ▸ h.worlds.flip
  left := h.right
  right := h.left

/-- What the one does, the other can do. -/
theorem step (hρ : Abreast ρ) (hout : World.Detached outside) (hplace : g.place = f.place)
    (h : Astride ρ f g R c d) (hc : Program.Goes f.place outside c e c') :
    ∃ e' d', Program.Goes g.place outside d e' d' ∧ Astride ρ f g R c' d' := by
  have left := h.left.step hout hc
  have onward {e' : Option Deed} {d' : Action FiringOutcome × World}
      (hd : Program.Goes g.place outside d e' d')
      (paired : c'.1.Paired (Call.Shifts ρ f.oid) d'.1 R) (worlds : c'.2.Alike ρ f.oid d'.2) :
      ∃ e' d', Program.Goes g.place outside d e' d' ∧ Astride ρ f g R c' d' :=
    ⟨e', d', hd, paired, worlds, left, h.right.step hout hd⟩
  obtain ⟨q, v⟩ := d
  have paired := h.paired
  cases hc with
  | outside ho =>
      obtain ⟨v', hv, hw⟩ := hout.alike ho h.worlds
      exact onward (.outside hv) paired hw
  | own ht =>
      cases q with
      | done b => cases ht <;> exact paired.elim
      | ask r' next' =>
          cases ht with
          | answered ha =>
              obtain ⟨like, hr, hnext⟩ := paired
              obtain ⟨b, v', hb, hab, hw⟩ :=
                ha.alike hρ hr h.worlds h.left.timely h.right.timely
              exact onward (.own (.answered (hplace ▸ hb))) (hnext _ _ hab) hw
          | gathered hg =>
              obtain ⟨like, hr, hnext⟩ := paired
              cases hr with
              | blind _ =>
                  obtain ⟨v', hg', hw⟩ := hg.alike h.worlds
                  exact onward (.own (.gathered hg')) ⟨_, .blind trivial, hnext⟩ hw

theorem run (hρ : Abreast ρ) (hout : World.Detached outside) (hplace : g.place = f.place)
    (h : Astride ρ f g R c d) (hc : Run (Program.Goes f.place outside) c es c') :
    ∃ es' d', Run (Program.Goes g.place outside) d es' d' ∧ Astride ρ f g R c' d' := by
  induction hc with
  | nil => exact ⟨[], d, .nil, h⟩
  | snoc _ he ih =>
      obtain ⟨es', d₁, hd, h₁⟩ := ih
      obtain ⟨e', d₂, he', h₂⟩ := h₁.step hρ hout hplace he
      exact ⟨_, d₂, hd.snoc he', h₂⟩

end Astride

end TaskFiring
