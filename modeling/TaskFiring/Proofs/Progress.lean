import TaskFiring.Proofs.Abstention
import TaskFiring.Proofs.Waiting

/-!
Overlapping firings make progress. Of any number of firings in a contest for a task at least
one gets to its handler, and each one that does not says that it was beaten. Until somebody
takes the task, some firing goes by a copy that is the record, and the record is cleaned up
at most once; whoever is turned away meanwhile is so because of another one that is not.
-/

namespace TaskFiring

namespace Footing

/-- The firing has taken the task. -/
def Won : Footing → Prop
  | .taken _ | .invoked _ | .left => True
  | _ => False

/-- The firing has gone on to its handler. -/
def Invoked : Footing → Prop
  | .invoked _ | .left => True
  | _ => False

/-- The firing is registered by that handle. -/
def Enrolled (h : HandleId) : Footing → Prop
  | .registered _ h' | .taken h' | .invoked h' | .outrun h' => h' = h
  | _ => False

/-- The copy was left by a dead run, and the record has been cleaned up since. -/
structure Outdated (record copy : Task) : Prop where
  clean : Preparation.isClean record
  version : copy.version ≠ record.version
  idle : copy.runningOn? = none
  unclean : ¬ Preparation.isClean copy

/-- What a copy is worth as long as nobody has taken the task. -/
def Fits (r : Task) : Footing → Prop
  | .outset | .lost => True
  | .loaded t => t = r ∨ Outdated r t
  | .repairing t => (t = r ∨ Outdated r t) ∧ ¬ Preparation.isClean t
  | .prepared t | .admitted t _ | .registered t _ => t = r ∧ Preparation.isClean r
  | _ => False

/-- The firing may take the task yet. -/
def InPlay (r : Task) : Footing → Prop
  | .outset | .prepared _ | .admitted _ _ | .registered _ _ => True
  | .loaded t | .repairing t => t = r
  | _ => False

end Footing

namespace Contest

section

variable {f : Occasion} {st p : Footing} {r : Call} {a : r.Response} {h : HandleId}

theorem Move.contests (hm : Move f st r a p) (hp : p ≠ .astray) : r.Contests f.oid := by
  cases hm with
  | aside hr =>
      cases r with
      | modify | register | deregister | isInterrupted | handler => cases hr
      | _ => exact hr
  | linger _ hr =>
      cases r with
      | register | deregister | isInterrupted | handler => trivial
      | _ => exact hr
  | handler hc => exact hc
  | repair | notRepaired | start | notStarted => exact ⟨rfl, rfl⟩
  | stray | wander => exact absurd rfl hp
  | _ => trivial

/-- A firing gets its handle when it is admitted, and keeps it. -/
theorem Move.handle? (hm : Move f st r a p) (hp : p.handle? = some h) :
    st.handle? = some h ∨ Deed.answered r a = .answered (.newHandle f.oid) h := by
  cases hm with
  | enter =>
      cases hp
      exact .inr rfl
  | deregister hs => rcases hs with rfl | rfl <;> cases hp
  | aside | register | start | notStarted | invoke | handler | linger => exact .inl hp
  | _ => cases hp

/-- A firing that is registered stays so until it leaves. -/
theorem Move.enrolled (hm : Move f st r a p) (hs : st.Enrolled h) (hp : p ≠ .astray) :
    p.Enrolled h ∨ ∃ b, Deed.answered r a = .answered (.deregister h) b := by
  cases hm with
  | aside | start | notStarted | invoke | handler | linger => exact .inl hs
  | deregister hl =>
      right
      rcases hl with rfl | rfl <;> cases hs <;> exact ⟨_, rfl⟩
  | stray | wander => exact absurd rfl hp
  | _ => cases hs

theorem Move.of_register (hm : Move f st (.register h) true p) (hp : p ≠ .astray) :
    st.handle? = some h ∧ p.Enrolled h := by
  cases hm with
  | aside hr => cases hr
  | linger _ hr => cases hr
  | register => exact ⟨rfl, rfl⟩
  | stray _ hr => cases hr
  | wander => exact absurd rfl hp

theorem Move.of_deregister {b : Bool} (hm : Move f st (.deregister h) b p)
    (hp : p ≠ .astray) : st.Lingers h := by
  cases hm with
  | aside hr => cases hr
  | linger _ hr => cases hr
  | deregister hl => exact hl
  | stray _ hr => cases hr
  | wander => exact absurd rfl hp

theorem Move.won (hm : Move f st r a p) (hs : st.Won) (hp : p ≠ .astray) : p.Won := by
  cases hm with
  | aside | linger => exact hs
  | invoke | handler => trivial
  | deregister hl =>
      rcases hl with rfl | rfl
      · trivial
      · cases hs
  | stray | wander => exact absurd rfl hp
  | _ => cases hs

theorem Move.invoked {ι : Type} {i : ι} (hm : Move f st r a p) (hp : p.Invoked) :
    st.Invoked ∨ Event.Invokes i (.deed i (.answered r a)) := by
  cases hm with
  | aside | handler | linger => exact .inl hp
  | invoke => exact .inr ⟨_, rfl⟩
  | deregister hl =>
      rcases hl with rfl | rfl
      · exact .inl trivial
      · cases hp
  | _ => cases hp

end

/-! As long as nobody has taken the task. -/

section

variable {ι : Type} [DecidableEq ι] {st : ι → Footing} {p : Footing} {i j : ι} {r t : Task}

/-- Nobody has taken the task, and somebody may. -/
structure Undecided (r : Task) (st : ι → Footing) : Prop where
  idle : r.runningOn? = none
  fits : ∀ i, (st i).Fits r
  inPlay : ∃ i, (st i).InPlay r

theorem Undecided.update (hu : Undecided r st) (hp : p.Fits r)
    (hin : (st i).InPlay r → p.InPlay r) : Undecided r (Function.update st i p) where
  idle := hu.idle
  fits := (Function.forall_update_iff st fun _ q => q.Fits r).mpr ⟨hp, fun j _ => hu.fits j⟩
  inPlay := by
    obtain ⟨j, hj⟩ := hu.inPlay
    by_cases hij : j = i
    · subst hij
      exact ⟨j, by simpa using hin hj⟩
    · exact ⟨j, by simpa [hij] using hj⟩

/-- Who gives up leaves the task to another firing. -/
theorem Undecided.lose (hu : Undecided r st) (hj : (st j).InPlay r) (hij : j ≠ i) :
    Undecided r (Function.update st i .lost) where
  idle := hu.idle
  fits := (Function.forall_update_iff st fun _ q => q.Fits r).mpr
    ⟨trivial, fun j _ => hu.fits j⟩
  inPlay := ⟨j, by simpa [hij] using hj⟩

theorem version_written_ne (r : Task) (d : TaskDelta) :
    r.version ≠ (Store.written r d).version := by
  intro h
  have h : r.version = r.version + 1 := h
  simp at h

/-- Who cleans the record up goes by it from then on, and every other copy is outdated. -/
theorem Undecided.repaired (hu : Undecided r st) (hi : st i = .repairing r) :
    Undecided (Store.written r Preparation.repairDelta)
      (Function.update st i (.prepared (Store.written r Preparation.repairDelta))) where
  idle := rfl
  fits := by
    have unclean : ¬ Preparation.isClean r := by
      have h := hu.fits i
      rw [hi] at h
      exact h.2
    have outdated {u : Task} (h : u = r ∨ Footing.Outdated r u) :
        Footing.Outdated (Store.written r Preparation.repairDelta) u := by
      obtain rfl := h.resolve_right fun h => unclean h.clean
      exact ⟨rfl, version_written_ne u _, hu.idle, unclean⟩
    refine (Function.forall_update_iff st fun _ q => q.Fits _).mpr ⟨⟨rfl, rfl⟩, fun j _ => ?_⟩
    have h := hu.fits j
    generalize st j = q at h
    cases q with
    | outset | lost => trivial
    | loaded u => exact .inr (outdated h)
    | repairing u => exact ⟨.inr (outdated h.1), h.2⟩
    | prepared u | admitted u k | registered u k => exact absurd h.2 unclean
    | taken | invoked | outrun | left | astray => cases h
  inPlay := ⟨i, by simp [Footing.InPlay]⟩

omit [DecidableEq ι] in
/-- Whoever is registered has not taken the task, so it may yet. -/
theorem Undecided.inPlay_of_enrolled {h : HandleId} (hu : Undecided r st)
    (hj : (st j).Enrolled h) : (st j).InPlay r := by
  have fits := hu.fits j
  generalize st j = x at hj fits
  cases x with
  | registered => trivial
  | taken | invoked | outrun => cases fits
  | _ => cases hj

variable {w w' : World} {place : Place} {oid : TaskOid} {u u' : Task} {e : StoreError}

theorem Undecided.repair (hu : Undecided r st) (ha : w.store.available)
    (hr : w.store.find? oid = some r) (hi : st i = .repairing u)
    (hw : w.Answers place (.modify oid Preparation.repairDelta (.version u.version)) (.ok u') w') :
    ∃ r, w'.store.find? oid = some r ∧ Undecided r (Function.update st i (.prepared u')) := by
  have fits := hu.fits i
  rw [hi] at fits
  rcases Store.modify_version ha hr Preparation.repairDelta u.version with
    ⟨hv, s, hs, hf⟩ | ⟨-, hs⟩
  · obtain ⟨h, rfl⟩ := Prod.mk.inj (hs.symm.trans hw.modify.2)
    cases h
    obtain rfl := fits.1.resolve_right fun h => h.version hv.symm
    exact ⟨_, hf, hu.repaired hi⟩
  · cases congrArg Prod.fst (hs.symm.trans hw.modify.2)

/-- Who finds the record changed when it is to be cleaned up goes by an outdated copy. -/
theorem Undecided.notRepaired {d : TaskDelta} (hu : Undecided r st) (ha : w.store.available)
    (hr : w.store.find? oid = some r) (hi : st i = .repairing u)
    (hw : w.Answers place (.modify oid d (.version u.version)) (.error e) w') :
    w'.store = w.store ∧ Undecided r (Function.update st i .lost) := by
  rcases Store.modify_version ha hr d u.version with ⟨-, s, hs, -⟩ | ⟨hv, hs⟩
  · cases congrArg Prod.fst (hs.symm.trans hw.modify.2)
  · obtain ⟨j, hj⟩ := hu.inPlay
    refine ⟨congrArg Prod.snd (hw.modify.2.symm.trans hs), hu.lose hj ?_⟩
    rintro rfl
    rw [hi] at hj
    exact hv (congrArg Task.version hj).symm

omit [DecidableEq ι] in
/-- Who is registered takes the task. -/
theorem Undecided.starts {d : TaskDelta} {h : HandleId} (hu : Undecided r st)
    (ha : w.store.available) (hr : w.store.find? oid = some r) (hi : st i = .registered u h) :
    ¬ w.Answers place (.modify oid d (.version u.version)) (.error e) w' := by
  intro hw
  have fits := hu.fits i
  rw [hi] at fits
  obtain ⟨rfl, -⟩ := fits
  rcases Store.modify_version ha hr d u.version with ⟨-, s, hs, -⟩ | ⟨hv, -⟩
  · cases congrArg Prod.fst (hs.symm.trans hw.modify.2)
  · exact absurd rfl hv

end

section

variable {ι : Type} [DecidableEq ι] (crew : ι → Occasion) (t : Task) (s : Store)

/-- What holds of the world, and of where the firings are. -/
structure Inv (w : World) (st : ι → Footing) : Prop where
  hosts : ∀ i, w.Hosts (crew i) t s
  present : ∀ i, st i ≠ .astray
  own : ∀ i h, (st i).handle? = some h → w.owner? h = some t.oid ∧ ¬ w.Stopped h
  entry : ∀ i h, w.registered (crew i).place t.oid = some h →
    ∃ j, (crew j).place = (crew i).place ∧ (st j).Enrolled h
  course : (∃ i, (st i).Won) ∨ ∃ r, w.store.find? t.oid = some r ∧ Undecided r st

end

section

variable {ι : Type} [DecidableEq ι] {crew : ι → Occasion} {t r : Task} {s : Store}
  {w w' : World} {st : ι → Footing} {p : Footing} {i : ι} {q : Call} {a : q.Response}
  {h : HandleId}

omit [DecidableEq ι] in
theorem hosts_of_favours {f : Occasion} (hw : w.Hosts f t s) (hf : w.Favours f w')
    (hr : w'.store.find? f.oid = w.store.find? f.oid ∨
      ∃ t d, w.store.find? f.oid = some t ∧ d.scheduling = none ∧
        w'.store.find? f.oid = some (Store.written t d)) : w'.Hosts f t s where
  available := hf.available hw.available
  record := by
    obtain ⟨u, hu, same⟩ := hw.record
    rcases hr with hr | ⟨v, d, hv, hd, hr⟩
    · exact ⟨u, hr.trans hu, same⟩
    · obtain rfl : u = v := Option.some.inj (hu.symm.trans hv)
      exact ⟨_, hr, same.written hd⟩
  forest := hw.forest.trans hf.forest
  scheduler := hf.scheduler hw.scheduler
  awake := hf.awake hw.awake

omit [DecidableEq ι] in
theorem Inv.outside (hcrew : ∀ i, (crew i).oid = t.oid) (hi : Inv crew t s w st)
    (hw : ∀ i, w.Abstains (crew i) w') : Inv crew t s w' st where
  hosts i := hosts_of_favours (hi.hosts i) (hw i).toFavours (.inl (hw i).record)
  present := hi.present
  own i h hh := by
    obtain ⟨ho, hn⟩ := hi.own i h hh
    exact ⟨(hw i).owner _ _ ho, fun hs => hn ((hw i).unstopped h (hcrew i ▸ ho) hs)⟩
  entry i h hh := by
    have hr := (hw i).registered
    rw [hcrew] at hr
    exact hi.entry i h (hr.symm.trans hh)
  course := by
    refine hi.course.imp id fun ⟨r, hr, hu⟩ => ⟨r, ?_, hu⟩
    obtain ⟨i, -⟩ := hu.inPlay
    have hs := (hw i).record
    rw [hcrew] at hs
    exact hs.trans hr

omit [DecidableEq ι] in
/-- A firing that is told to stop was stopped. -/
theorem stopped_of_halts {place : Place} (ha : w.Answers place q a w') (hq : q.Halts h a)
    (ho : w.owner? h = some t.oid) : w.Stopped h := by
  obtain ⟨handle, hh, -⟩ := Option.map_eq_some_iff.mp ho
  refine ⟨handle, hh, ?_⟩
  cases ha with
  | gathered => cases hq
  | cut hi =>
      obtain rfl : _ = h := hq
      left
      simpa [World.isInterrupted, hh] using hi
  | performed hp =>
      cases q with
      | canRun k =>
          cases a with
          | true => cases hq
          | false =>
              obtain rfl : k = h := hq
              have hp : handle.canRun = false ∧ w = w' := by
                simpa [World.perform, World.canRun, hh] using hp
              exact .inr (by simp [hp.1])
      | isInterrupted k =>
          cases a with
          | false => cases hq
          | true =>
              obtain rfl : k = h := hq
              have hp : handle.interrupted = true ∧ w = w' := by
                simpa [World.perform, World.isInterrupted, hh] using hp
              exact .inl hp.1
      | handler k oid call =>
          obtain ⟨_, -, hp⟩ := Option.map_eq_some_iff.mp hp
          obtain ⟨rfl, -⟩ := Prod.mk.inj hp
          cases hq
      | _ => cases hq

omit [DecidableEq ι] in
theorem Inv.stays (hi : Inv crew t s w st) (ha : w.Answers (crew i).place q a w')
    (hm : Move (crew i) (st i) q a p) : p ≠ .astray := by
  have here := hi.present i
  have own := hi.own i
  generalize st i = x at hm here own
  cases hm with
  | aside | linger => exact here
  | deregister hl => rcases hl with rfl | rfl <;> nofun
  | stray hh hq =>
      obtain ⟨ho, hn⟩ := own _ hh
      exact absurd (stopped_of_halts ha hq ho) hn
  | wander => exact absurd rfl here
  | _ => nofun

theorem Undecided.answered (hcrew : ∀ i, (crew i).oid = t.oid) (hi : Inv crew t s w st)
    (hr : w.store.find? t.oid = some r) (hu : Undecided r st)
    (ha : w.Answers (crew i).place q a w') (hm : Move (crew i) (st i) q a p)
    (hp : p ≠ .astray) :
    p.Won ∨ ∃ r, w'.store.find? t.oid = some r ∧ Undecided r (Function.update st i p) := by
  have available := (hi.hosts i).available
  have fits := hu.fits i
  rw [← hcrew i] at hr ⊢
  have quiet (hs : w'.store = w.store) (hp : p.Fits r) (hin : (st i).InPlay r → p.InPlay r) :
      p.Won ∨ ∃ r, w'.store.find? (crew i).oid = some r ∧
        Undecided r (Function.update st i p) :=
    .inr ⟨r, by rw [hs, hr], hu.update hp hin⟩
  have read {u : Task} (hg : w.Answers (crew i).place (.get (crew i).oid) (.ok u) w') : u = r :=
    Option.some.inj ((Store.get_ok hg.get.2.symm).symm.trans hr)
  generalize hst : st i = x at hm quiet fits
  cases hm with
  | aside hq =>
      have hs := (ha.abstains (f := crew i) hq).record
      exact .inr ⟨r, hs.trans hr, hu.update fits fun h => hst ▸ h⟩
  | load => exact quiet (ha.store id) (.inl (read ha)) fun _ => read ha
  | @spare u found hlive =>
      have idle : u.runningOn? = none := by
        rcases fits with rfl | h
        · exact hu.idle
        · exact h.idle
      have clean : Preparation.isClean u := by
        refine hlive.resolve_left fun h => ?_
        simp [Preparation.isLive, idle] at h
      obtain rfl := fits.resolve_right fun h => h.unclean clean
      exact quiet (ha.store id) ⟨rfl, clean⟩ fun _ => trivial
  | doubt unclean => exact quiet (ha.store id) ⟨fits, unclean⟩ id
  | repair => exact .inr (hu.repair available hr hst ha)
  | notRepaired =>
      obtain ⟨hs, hu⟩ := hu.notRepaired available hr hst ha
      exact .inr ⟨r, hs ▸ hr, hu⟩
  | enter => exact quiet (ha.store id) fits fun _ => trivial
  | seen hn =>
      rw [read ha, hu.idle] at hn
      cases hn
  | register => exact quiet (ha.store id) fits fun _ => trivial
  | notRegistered =>
      obtain ⟨k, hk⟩ := World.register_false ha.register (hi.own i _ (by rw [hst]; rfl)).1
      obtain ⟨j, -, hj⟩ := hi.entry i k hk
      refine .inr ⟨r, by rw [ha.store id, hr], hu.lose (hu.inPlay_of_enrolled hj) ?_⟩
      rintro rfl
      rw [hst] at hj
      cases hj
  | start => exact .inl trivial
  | notStarted => exact absurd ha (hu.starts available hr hst)
  | linger hl | deregister hl => rcases hl with rfl | rfl <;> cases fits
  | stray | wander => exact absurd rfl hp
  | invoke | handler => cases fits

theorem Inv.entry_answered (hi : Inv crew t s w st)
    (ha : w.Answers (crew i).place q a w') (hm : Move (crew i) (st i) q a p)
    (hp : p ≠ .astray) (k : ι) (hk : w'.registered (crew k).place t.oid = some h) :
    ∃ j, (crew j).place = (crew k).place ∧ (Function.update st i p j).Enrolled h := by
  -- an entry from before is still that of its firing
  have kept (hw : w.registered (crew k).place t.oid = some h)
      (hn : (crew i).place = (crew k).place → (st i).Enrolled h → p.Enrolled h) :
      ∃ j, (crew j).place = (crew k).place ∧ (Function.update st i p j).Enrolled h := by
    obtain ⟨j, hpl, hj⟩ := hi.entry k h hw
    by_cases hji : j = i
    · subst hji
      exact ⟨j, hpl, by simpa using hn hpl hj⟩
    · exact ⟨j, hpl, by simpa [hji] using hj⟩
  by_cases hd : ∃ h b, Deed.answered q a = .answered (.deregister h) b
  · obtain ⟨h', b, hd⟩ := hd
    cases hd
    have lingers := hm.of_deregister hp
    have ho := (hi.own i h' lingers.handle?).1
    obtain ⟨hw, hn⟩ := World.registered_of_deregister ha.deregister ho hk
    refine kept hw fun hpl hs => absurd ⟨hpl, rfl, ?_⟩ hn
    rcases lingers with hx | hx <;> rw [hx] at hs <;> exact hs
  by_cases hr : ∃ h, Deed.answered q a = .answered (.register h) true
  · obtain ⟨h', hr⟩ := hr
    cases hr
    obtain ⟨hh, hs⟩ := hm.of_register hp
    obtain ⟨-, hreg⟩ := World.register_true ha.register (hi.own i h' hh).1
    rw [hreg] at hk
    split at hk
    · next hpl =>
      obtain rfl : h' = h := Option.some.inj hk
      exact ⟨i, hpl.1, by simpa using hs⟩
    · next hpl => exact kept hk fun he => absurd ⟨he, rfl⟩ hpl
  have same := ha.sameRuns (fun h he => hr ⟨h, he⟩) fun h b he => hd ⟨h, b, he⟩
  rw [same.registered] at hk
  exact kept hk fun _ hs => (hm.enrolled hs hp).resolve_right fun ⟨b, he⟩ => hd ⟨h, b, he⟩

theorem Inv.answered (hcrew : ∀ i, (crew i).oid = t.oid) (hi : Inv crew t s w st)
    (ha : w.Answers (crew i).place q a w') (hm : Move (crew i) (st i) q a p) :
    Inv crew t s w' (Function.update st i p) := by
  have hp := hi.stays ha hm
  have contests := hm.contests hp
  have favours (f : Occasion) : w.Favours f w' := ha.favours contests
  refine ⟨fun j => hosts_of_favours (hi.hosts j) (favours _) ?_, ?_, ?_,
    fun k h hk => hi.entry_answered ha hm hp k hk, ?_⟩
  · rw [hcrew j, ← hcrew i]
    exact ha.record contests
  · exact (Function.forall_update_iff st fun _ x => x ≠ .astray).mpr
      ⟨hp, fun j _ => hi.present j⟩
  · have old (j : ι) (h : HandleId) (hh : (st j).handle? = some h) :
        w'.owner? h = some t.oid ∧ ¬ w'.Stopped h := by
      obtain ⟨ho, hn⟩ := hi.own j h hh
      have hf := favours (crew j)
      exact ⟨hf.owner _ _ ho, fun hs => hn (hf.unstopped h (hcrew j ▸ ho) hs)⟩
    refine (Function.forall_update_iff st fun _ x => ∀ h, x.handle? = some h →
      w'.owner? h = some t.oid ∧ ¬ w'.Stopped h).mpr ⟨fun h hh => ?_, fun j _ => old j⟩
    rcases hm.handle? hh with hh | hn
    · exact old i h hh
    · cases hn
      exact ⟨hcrew i ▸ ha.newHandle.2, ha.not_stopped⟩
  · rcases hi.course with ⟨j, hj⟩ | ⟨r, hr, hu⟩
    · by_cases hji : j = i
      · subst hji
        exact .inl ⟨j, by simpa using hm.won hj hp⟩
      · exact .inl ⟨j, by simpa [hji] using hj⟩
    · exact (hu.answered hcrew hi hr ha hm hp).imp_left fun hwon => ⟨i, by simpa using hwon⟩

end

/-! The programs of the firings. -/

section

variable {ι : Type} [DecidableEq ι] {crew : ι → Occasion} {t : Task} {s : Store}
  {c c' : Scene ι} {st : ι → Footing} {e : Event ι} {es : List (Event ι)}

/-- The programs go on from where the firings are. -/
def Shows (crew : ι → Occasion) (t : Task) (s : Store) (c : Scene ι) (st : ι → Footing) : Prop :=
  ∀ i, Runs (crew i) t s (c.program i) (st i) fun st r => st.Reports (crew i).oid r

/-- A wait for children that goes on is still the same call to its firing. -/
theorem runs_collect {f : Occasion} {x : Footing} {h : HandleId}
    {result result' : OperationResult} {closed closed' : Nat} {batch batch' : List Nat}
    {α : Type} {next : OperationResult × Nat → Action α} {Q : Footing → α → Prop}
    (hf : Runs f t s (.ask (.collect h result closed batch) next) x Q) :
    Runs f t s (.ask (.collect h result' closed' batch') next) x Q := by
  intro answer _
  obtain ⟨x', hm, hn⟩ := hf answer fun h => absurd trivial h
  refine ⟨x', ?_, hn⟩
  cases hm with
  | aside _ => exact .aside trivial
  | linger hl _ => exact .linger hl trivial
  | stray _ hh => cases hh
  | wander => exact .wander

theorem step (hcrew : ∀ i, (crew i).oid = t.oid) (hs : Shows crew t s c st)
    (hi : Inv crew t s c.world st)
    (he : c.Step crew (fun w w' => ∀ i, w.Abstains (crew i) w') e c') :
    ∃ st', Shows crew t s c' st' ∧ Inv crew t s c'.world st' ∧
      ∀ i, (st' i).Invoked → (st i).Invoked ∨ e.Invokes i := by
  cases he with
  | outside ho => exact ⟨st, hs, hi.outside hcrew ho, fun _ => .inl⟩
  | @deed i _ p w ht =>
      have hp := hs i
      generalize c.program i = x at ht hp
      cases ht with
      | @answered r next _ _ a ha =>
          obtain ⟨y, hm, hn⟩ := hp a fun _ => ⟨_, _, hi.hosts i, ha⟩
          refine ⟨Function.update st i y, fun j => ?_, hi.answered hcrew ha hm, fun j hj => ?_⟩
          · by_cases hji : j = i
            · subst hji
              simpa using hn
            · simpa [hji] using hs j
          · by_cases hji : j = i
            · subst hji
              exact hm.invoked (by simpa using hj)
            · exact .inl (by simpa [hji] using hj)
      | gathered hg =>
          refine ⟨st, fun j => ?_, hi.outside hcrew fun _ => hg.abstains, fun _ => .inl⟩
          by_cases hji : j = i
          · subst hji
            simpa using runs_collect hp
          · simpa [hji] using hs j

theorem run (hcrew : ∀ i, (crew i).oid = t.oid) (hs : Shows crew t s c st)
    (hi : Inv crew t s c.world st)
    (hr : Run (Scene.Step crew fun w w' => ∀ i, w.Abstains (crew i) w') c es c') :
    ∃ st', Shows crew t s c' st' ∧ Inv crew t s c'.world st' ∧
      ∀ i, (st' i).Invoked → (st i).Invoked ∨ ∃ e ∈ es, e.Invokes i := by
  induction hr with
  | nil => exact ⟨st, hs, hi, fun _ => .inl⟩
  | snoc _ he ih =>
      obtain ⟨st', hs', hi', hinv⟩ := ih
      obtain ⟨st'', hs'', hi'', hinv'⟩ := step hcrew hs' hi' he
      refine ⟨st'', hs'', hi'', fun i h => ?_⟩
      rcases hinv' i h with h | h
      · exact (hinv i h).imp id fun ⟨e, he, h⟩ => ⟨e, List.mem_append_left _ he, h⟩
      · exact .inr ⟨_, by simp, h⟩

end

end Contest

/-- The surroundings of a firing when a contest for the task begins, which nobody runs. -/
structure World.Opens (w : World) (f : Occasion) (t : Task) : Prop where
  available : w.store.available
  record : w.store.find? f.oid = some t
  idle : t.runningOn? = none
  scheduler : w.trigger.running
  awake : (w.site f.place).shutDown = false
  vacant : w.registered f.place f.oid = none

namespace Contest

theorem inv_begin {ι : Type} [Nonempty ι] {crew : ι → Occasion} {t : Task} {w : World}
    (hcrew : ∀ i, (crew i).oid = t.oid) (hw : ∀ i, w.Opens (crew i) t) :
    Inv crew t w.store w fun _ => .outset where
  hosts i := {
    available := (hw i).available
    record := ⟨t, (hw i).record, .refl t⟩
    forest := .refl _
    scheduler := (hw i).scheduler
    awake := (hw i).awake }
  present _ := nofun
  own _ _ hh := nomatch hh
  entry i h hh := by
    rw [← hcrew i, (hw i).vacant] at hh
    cases hh
  course := by
    obtain ⟨i⟩ := ‹Nonempty ι›
    refine .inr ⟨t, hcrew i ▸ (hw i).record, (hw i).idle, fun _ => trivial, i, trivial⟩

end Contest

/-- Overlapping firings make progress. In a contest of any number of firings for a task that
may recur, each one that is over has gone on to its handler or says that it was beaten; and
if all are over, one has gone on to its handler. -/
theorem contest_decided {ι : Type} [DecidableEq ι] [Nonempty ι] {crew : ι → Occasion}
    {w : World} {t : Task} {c : Scene ι} {es : List (Event ι)} (ht : t.Unlimited w.store)
    (hcrew : ∀ i, (crew i).Contends t) (hw : ∀ i, w.Opens (crew i) t)
    (hr : Run (Scene.Step crew fun w w' => ∀ i, w.Abstains (crew i) w') (.begin crew w) es c) :
    (∀ i report, c.program i = .done report →
      (∃ e ∈ es, e.Invokes i) ∨ Beaten t.oid report) ∧
    ((∀ i, ∃ report, c.program i = .done report) → ∃ i, ∃ e ∈ es, e.Invokes i) := by
  have task (i : ι) : (crew i).oid = t.oid := (hcrew i).task
  have begun : Contest.Shows crew t w.store (.begin crew w) fun _ => .outset :=
    fun i => Contest.program_runs ht (hcrew i)
  obtain ⟨st, shown, inv, invoked⟩ := Contest.run task begun (Contest.inv_begin task hw) hr
  have invoked (i : ι) (h : (st i).Invoked) : ∃ e ∈ es, e.Invokes i :=
    (invoked i h).resolve_left fun h => h
  have ended (i : ι) (report : FiringOutcome) (hp : c.program i = .done report) :
      (st i).Invoked ∨ st i = .lost ∧ Beaten t.oid report := by
    have hs := shown i
    rw [hp] at hs
    have hs : (st i).Reports t.oid report := task i ▸ hs
    have here := inv.present i
    generalize st i = x at hs here
    cases x with
    | left => exact .inl trivial
    | lost => exact .inr ⟨rfl, hs⟩
    | astray => exact absurd rfl here
    | _ => cases hs
  refine ⟨fun i report hp => (ended i report hp).imp (invoked i) And.right, fun hdone => ?_⟩
  have final (i : ι) : (st i).Invoked ∨ st i = .lost := by
    obtain ⟨report, hp⟩ := hdone i
    exact (ended i report hp).imp id And.left
  rcases inv.course with ⟨i, won⟩ | ⟨r, -, undecided⟩
  · refine ⟨i, invoked i ((final i).resolve_right fun h => ?_)⟩
    rw [h] at won
    cases won
  · -- who may take the task yet is not over
    obtain ⟨i, hi⟩ := undecided.inPlay
    rcases final i with h | h
    · exact ⟨i, invoked i h⟩
    · rw [h] at hi
      cases hi

namespace Contest

/-- A task that recurs, and what a dead run may have left in its record. -/
def task : Task := { Rehearsal.task with recurring := true, node := some ⟨"gone"⟩ }

def world : World := { Rehearsal.world with store := { tasks := Table.empty.put task } }

/-- Two firings on nodes of their own, whose handlers finish at once. -/
abbrev crew : Bool → Occasion :=
  Rehearsal.pair (.done (.ok .finished)) (.done (.ok .finished))

/-- They go on by turns. -/
abbrev played : List (Event Bool) × Scene Bool :=
  Scene.play crew (List.replicate 40 [.go true, .go false]).flatten (.begin crew world)

theorem task_unlimited : task.Unlimited world.store where
  ready := rfl
  recurring := rfl
  groups c h := by
    have hn : world.store.effectiveConstraints task = none := rfl
    rw [hn] at h
    cases h

theorem crew_contends (i : Bool) : (crew i).Contends task where
  task := by cases i <;> rfl
  fresh := by cases i <;> rfl
  handler := by
    refine ⟨{ safe := true, work := fun _ => .done (.ok .finished) }, ?_, fun _ => trivial,
      fun _ => ⟨none, rfl⟩⟩
    cases i <;> rfl

theorem world_opens (i : Bool) : world.Opens (crew i) task := by
  cases i <;> exact ⟨rfl, rfl, rfl, rfl, rfl, rfl⟩

theorem played_run :
    Run (Scene.Step crew fun w w' => ∀ i, w.Abstains (crew i) w') (.begin crew world) played.1
      played.2 :=
  Scene.play_run _ _ fun f hf => by simp at hf

end Contest

/-- Of two firings that go on by turns over such a record, one gets to its handler. -/
theorem contest_decided_played :
    (∀ i, ∃ report, Contest.played.2.program i = .done report) ∧
    (∀ i report, Contest.played.2.program i = .done report →
      (∃ e ∈ Contest.played.1, e.Invokes i) ∨ Beaten Contest.task.oid report) ∧
    ∃ i, ∃ e ∈ Contest.played.1, e.Invokes i := by
  have ended (i : Bool) : ∃ report, Contest.played.2.program i = .done report :=
    Scene.done_of_hasEnded (by cases i <;> decide +kernel)
  obtain ⟨each, some⟩ := contest_decided Contest.task_unlimited Contest.crew_contends
    Contest.world_opens Contest.played_run
  exact ⟨ended, each, some ended⟩

end TaskFiring
