import TaskFiring.Proofs.Assignment
import TaskFiring.Proofs.Chronicle
import TaskFiring.Proofs.Membership
import TaskFiring.Proofs.Starting
import TaskFiring.Proofs.Waiting

/-!
What the registry of a node tells of the records. A firing is registered before it writes
its node and lets go before it leaves, so a record that says running on a node stands for an
entry in the registry of that node, and no repair there touches it. A run whose handler has
put the task into waiting is registered just as well, but its record is not looked up: once
the task is ready again, a repair takes it for the remains of a dead run.
-/

namespace TaskFiring

/-- A call of a handler that writes no record, unless it puts its own task into waiting, and
leaves the store available. -/
def HandlerCall.SeatsNone : HandlerCall → Prop
  | .disturb (.write _ _) | .disturb (.remove _) => False
  | .disturb (.storeAvailable value) => value
  | _ => True

/-- The firing clears from its task what it takes for the remains of a dead run. -/
def Event.Repairs {ι : Type} (f : Occasion) (i : ι) (e : Event ι) : Prop :=
  ∃ v t, e = .deed i (.answered (.modify f.oid Preparation.repairDelta (.version v)) (.ok t))

namespace World

/-- No task comes to run on a node, and the store stays available. -/
structure SeatsNone (w w' : World) : Prop where
  running : ∀ oid t n, w'.store.find? oid = some t → t.runningOn? = some n →
    ∃ u, w.store.find? oid = some u ∧ u.runningOn? = some n
  available : w.store.available → w'.store.available

/-- The record of the task is not taken away, and where it is written its version rises. -/
def Retains (oid : TaskOid) (w w' : World) : Prop :=
  ∀ r, w.store.find? oid = some r → ∃ r', w'.store.find? oid = some r' ∧
    (r' = r ∨ r.version.toNat < r'.version.toNat)

section

variable {w w' : World} {place : Place} {oid : TaskOid} {d : TaskDelta} {c : Precondition}
  {h : HandleId} {call : HandlerCall} {a : Option call.Response}

theorem seatsNone_of_store (h : w'.store = w.store) : w.SeatsNone w' := by
  refine ⟨fun oid t n ht hn => ?_, fun ha => ?_⟩
  · rw [h] at ht
    exact ⟨t, ht, hn⟩
  · rw [h]
    exact ha

theorem retains_of_store (h : w'.store = w.store) : w.Retains oid w' :=
  fun r hr => ⟨r, by rw [h, hr], .inl rfl⟩

/-- A record does not come to run on a node by a write that names none. -/
theorem runningOn?_of_written {t : Task} {n : NodeId} (he : d.execution ≠ some .running)
    (hd : d.node.join = none) (h : (Store.written t d).runningOn? = some n) :
    t.runningOn? = some n := by
  unfold Task.runningOn? at h ⊢
  split at h
  · next hrun =>
    have hnode : d.node.getD t.node = some n := h
    rw [if_pos (Store.running_of_written he hrun).2]
    cases hx : d.node with
    | none => rwa [hx] at hnode
    | some m =>
        rw [hx] at hnode hd
        cases hnode.symm.trans hd
  · cases h

theorem seatsNone_of_modify (h : w'.store = (w.store.modify oid d c).2)
    (he : d.execution ≠ some .running) (hd : d.node.join = none) :
    w.SeatsNone w' := by
  rcases w.store.modify_cases oid d c with ⟨e, hm⟩ | ⟨r, s', hm, hr, -, ha, hf⟩
  · exact seatsNone_of_store (by rw [h, hm])
  · rw [hm] at h
    refine ⟨fun oid' t n ht hn => ?_, fun hav => by rw [h, ha, hav]⟩
    rw [h, hf] at ht
    split at ht
    · next ho =>
      subst ho
      cases ht
      exact ⟨r, hr, runningOn?_of_written he hd hn⟩
    · exact ⟨t, ht, hn⟩

theorem Answers.seatsNone {a : Except StoreError Task}
    (ha : w.Answers place (.modify oid d c) a w') (he : d.execution ≠ some .running)
    (hd : d.node.join = none) : w.SeatsNone w' :=
  seatsNone_of_modify (by rw [ha.modify.2]) he hd

theorem retains_of_modify (h : w'.store = (w.store.modify oid d c).2)
    (hv : ∀ t, (w.store.modify oid d c).1 = .ok t → t.version ≠ 0) (oid' : TaskOid) :
    w.Retains oid' w' := by
  rcases w.store.modify_cases oid d c with ⟨e, hm⟩ | ⟨r, s', hm, hr, -, -, hf⟩
  · exact retains_of_store (by rw [h, hm])
  · intro r' hr'
    rw [hm] at h hv
    rw [h, hf]
    split
    · next ho =>
      subst ho
      obtain rfl : r' = r := Option.some.inj (hr'.symm.trans hr)
      exact ⟨_, rfl, .inr (Store.version_lt_written (hv _ rfl))⟩
    · exact ⟨r', hr', .inl rfl⟩

theorem Answers.handler_seatsNone (ha : w.Answers place (.handler h oid call) a w')
    (hc : call.SeatsNone) : w.SeatsNone w' := by
  rcases ha.handler_cases with hw | ⟨b, -, -, hm⟩ | ⟨d, rfl, rfl⟩
  · exact seatsNone_of_store hw.store
  · exact seatsNone_of_modify (d := waitingDelta) (by rw [hm]) nofun rfl
  · cases d with
    | write _ _ | remove _ => cases hc
    | storeAvailable value => exact ⟨fun _ t _ ht hn => ⟨t, ht, hn⟩, fun _ => hc⟩
    | triggerFailing _ | advance _ => exact seatsNone_of_store rfl

theorem Answers.handler_retains (ha : w.Answers place (.handler h oid call) a w')
    (hc : call.SeatsNone)
    (hv : ∀ t, Deed.written? (.answered (.handler h oid call) a) = some t → t.version ≠ 0)
    (oid' : TaskOid) : w.Retains oid' w' := by
  rcases ha.handler_cases with hw | ⟨b, hb, -, hm⟩ | ⟨d, rfl, rfl⟩
  · exact retains_of_store hw.store
  · refine retains_of_modify (d := waitingDelta) (by rw [hm]) (fun t ht => ?_) oid'
    rw [hm] at ht
    exact hv t (by rw [hb, show b = .ok t from ht]; rfl)
  · cases d with
    | write _ _ | remove _ => cases hc
    | storeAvailable _ | triggerFailing _ | advance _ => exact fun r hr => ⟨r, hr, .inl rfl⟩

/-- A copy that is current after a step was so before, if there was a record. -/
theorem Retains.current {t r : Task} (hw : w.Retains oid w')
    (hr : w.store.find? oid = some r) (ht : t.Precedes r)
    (hr' : w'.store.find? oid = some t) : w.store.find? oid = some t := by
  obtain ⟨r', hf, hrise⟩ := hw r hr
  obtain rfl : t = r' := Option.some.inj (hr'.symm.trans hf)
  rcases hrise with rfl | hlt
  · exact hr
  · have := ht.1
    omega

theorem Retains.precedes {t r : Task} (hw : w.Retains oid w')
    (hr : w.store.find? oid = some r) (ht : t.Precedes r) :
    ∃ r', w'.store.find? oid = some r' ∧ t.Precedes r' := by
  obtain ⟨r', hf, rfl | hlt⟩ := hw r hr
  · exact ⟨_, hf, ht⟩
  · refine ⟨r', hf, ?_⟩
    have hle := ht.1
    refine ⟨by omega, fun hv => ?_⟩
    rw [hv] at hle
    omega

end

end World

/-- From outside, tasks are added that do not run and records are written, but no task comes
to run on a node and none is taken away; the entries and handles of the firings are left
alone. -/
structure Tends {ι : Type} (crew : ι → Occasion) (w w' : World) : Prop where
  seats : w.SeatsNone w'
  retains : ∀ oid, w.Retains oid w'
  runs : Registration.Spared crew w w'

namespace Phase

variable {f : Occasion} {q p : Phase} {r : Call} {a : r.Response} {w w' : World} {place : Place}

/-- A task comes to run on a node only by the write of a firing that takes it. -/
theorem seats_of_move (hm : Move f HandlerCall.SeatsNone q r a p)
    (ha : w.Answers place r a w') :
    w.SeatsNone w' ∨ p.Holds ∧ (w.store.available → w'.store.available) ∧
      ∀ oid t n, w'.store.find? oid = some t → t.runningOn? = some n →
        oid = f.oid ∧ n = f.nodeId ∨ w.store.find? oid = some t := by
  have quiet (hr : ¬ r.MayWrite) : w.SeatsNone w' := World.seatsNone_of_store (ha.store hr)
  cases hm with
  | aside hr => exact .inl (World.seatsNone_of_store (ha.agrees hr).store)
  | load | spare | doubt | halt | recoverClosing | recoverSuspending | enter | look
  | register | notRegistered | deregister | invoke | decide | readToClose | readToSuspend
  | forget | readToSettle | giveUp => exact .inl (quiet id)
  | handler hcall => exact .inl (ha.handler_seatsNone hcall)
  | repair | notRepaired | wake | record =>
      exact .inl (ha.seatsNone nofun rfl)
  | notStarted =>
      exact .inl (World.seatsNone_of_store (Store.eq_of_modify_error ha.modify.2))
  | close => exact .inl (ha.seatsNone (Starting.closingDelta_execution _ _) rfl)
  | suspend => exact .inl (ha.seatsNone (Starting.suspendingDelta_execution _) rfl)
  | settle | notSettled | neverSettled =>
      exact .inl (ha.seatsNone (Possession.settlingDelta_execution _).1 rfl)
  | start =>
      obtain ⟨hav, u, -, -, rfl, hf⟩ := Store.modify_ok ha.modify.2
      refine .inr ⟨trivial, fun h => hav.trans h, fun oid t n ht hn => ?_⟩
      rw [hf] at ht
      split at ht
      · next ho =>
        cases ht
        have hn : some f.nodeId = some n := hn
        exact .inl ⟨ho.symm, (Option.some.inj hn).symm⟩
      · exact .inr ht

/-- A firing holds its task until the record does not say any more that it runs on a
node, if the store is available. -/
theorem holds_or_idle_of_move {allowed : HandlerCall → Prop} (hm : Move f allowed q r a p)
    (ha : w.Answers place r a w') (available : w.store.available) (hq : q.Holds) :
    p.Holds ∨ ∀ t, w'.store.find? f.oid = some t → t.runningOn? = none := by
  cases hm with
  | aside _ | invoke | handler _ | readToSettle | notSettled => exact .inl hq
  | decide | readToClose | readToSuspend | forget | close | suspend | wake | record =>
      exact .inl hq.busy
  | giveUp =>
      obtain ⟨rfl, hg⟩ := ha.get
      refine .inr fun t ht => ?_
      rw [Store.get_of_find? available ht] at hg
      cases hg
  | settle =>
      obtain ⟨-, u, -, -, rfl, hf⟩ := Store.modify_ok ha.modify.2
      refine .inr fun t ht => ?_
      rw [hf, if_pos rfl] at ht
      cases ht
      unfold Task.runningOn?
      split <;> rfl
  | @neverSettled _ read _ =>
      have hm := ha.modify.2
      have same := Store.eq_of_modify_error hm
      refine .inr fun t ht => ?_
      rw [same] at ht
      have written := Store.modify_always available ht (Possession.settlingDelta read)
      rw [hm] at written
      cases written
  | _ => cases hq

/-- A firing comes to doubt a record when it does not find it live. -/
theorem doubt_of_move {allowed : HandlerCall → Prop} {t : Task}
    (hm : Move f allowed q r a (.repairing t)) :
    q = .repairing t ∨ q = .loaded t ∧ ∃ found : Option HandleId,
      Deed.answered r a = .answered (.registered f.oid) found ∧
        ¬ Preparation.isLive t f.nodeId found.isSome f.recovering := by
  generalize hp : Phase.repairing t = p at hm
  cases hm with
  | aside _ => exact .inl rfl
  | doubt _ hn =>
      cases hp
      exact .inr ⟨rfl, _, rfl, hn⟩
  | enter => split at hp <;> cases hp
  | _ => cases hp

/-- A firing repairs the record of which it has a copy, by the version of that. -/
theorem repairing_of_move {allowed : HandlerCall → Prop} {v : UInt64} {t : Task}
    (hm : Move f allowed q (.modify f.oid Preparation.repairDelta (.version v)) (.ok t) p) :
    ∃ u, q = .repairing u ∧ v = u.version := by
  generalize hd : Preparation.repairDelta = d at hm
  generalize hv : Precondition.version v = c at hm
  cases hm with
  | aside hr => cases hr
  | repair =>
      cases hv
      exact ⟨_, rfl, rfl⟩
  | start => cases congrArg TaskDelta.node hd
  | close | suspend | wake | record => cases hv
  | settle hp => rcases hp with rfl | rfl <;> cases hv

end Phase

namespace Coverage

section

variable {ι : Type} (crew : ι → Occasion)

/-- Nodes with the same name are at the same place. -/
def Distinct : Prop := ∀ i j, (crew i).nodeId = (crew j).nodeId → (crew i).place = (crew j).place

/-- What runs on a node is held by a firing there, and that one is registered. -/
structure Inv (s : Stage ι) : Prop where
  available : s.world.store.available
  runs : Registration.Inv crew s
  seated : ∀ oid t n, s.world.store.find? oid = some t → t.runningOn? = some n →
    ∃ i, (crew i).oid = oid ∧ (crew i).nodeId = n ∧ (s.phase i).Holds

/-- What the firings go by until they take their tasks. A copy about to be repaired does not
say that the task runs on the node of the firing, if it is current. -/
structure Copied (s : Stage ι) : Prop where
  copied : ∀ i t, (s.phase i).copy? = some t →
    ∃ r, s.world.store.find? (crew i).oid = some r ∧ t.Precedes r
  doubted : ∀ i t, s.phase i = .repairing t → s.world.store.find? (crew i).oid = some t →
    t.runningOn? ≠ some (crew i).nodeId

end

section

variable {ι : Type} [DecidableEq ι] {crew : ι → Occasion} {s s' : Stage ι} {e : Event ι}
  {es : List (Event ι)} {w : World} {i j : ι} {t : Task} {oid : TaskOid} {n : NodeId}

omit [DecidableEq ι] in
/-- A task that runs on a node is in the registry of the node. -/
theorem Inv.registered (hi : Inv crew s) (distinct : Distinct crew)
    (ht : s.world.store.find? oid = some t) (hn : t.runningOn? = some n)
    (hj : (crew j).nodeId = n) : (s.world.registered (crew j).place oid).isSome := by
  obtain ⟨i, rfl, rfl, held⟩ := hi.seated oid t n ht hn
  obtain ⟨h, hh⟩ := held.entered.handle
  rw [distinct j i hj, hi.runs.entry i h hh held.entered]
  rfl

omit [DecidableEq ι] in
theorem inv_begin (available : w.store.available)
    (idle : ∀ oid t, w.store.find? oid = some t → t.execution ≠ .running) :
    Inv crew (Stage.begin w) where
  available := available
  runs := Registration.inv_begin w
  seated oid t n ht hn := by
    unfold Task.runningOn? at hn
    rw [if_neg (idle oid t ht)] at hn
    cases hn

theorem Inv.step (hi : Inv crew s)
    (he : s.Step crew HandlerCall.SeatsNone (Tends crew) e s') : Inv crew s' := by
  have runs := hi.runs.step (fun _ _ h => h.runs) he
  cases he with
  | gathered hw => exact ⟨hw.store ▸ hi.available, runs, hw.store ▸ hi.seated⟩
  | outside hw =>
      refine ⟨hw.seats.available hi.available, runs, fun oid t n ht hn => ?_⟩
      obtain ⟨u, hu, hn⟩ := hw.seats.running oid t n ht hn
      exact hi.seated oid u n hu hn
  | @answered j r a p w ha hm =>
      -- whoever has held a task that still runs on a node holds it on
      have keep : ∀ oid t n u, w.store.find? oid = some t → t.runningOn? = some n →
          s.world.store.find? oid = some u → u.runningOn? = some n →
          ∃ i, (crew i).oid = oid ∧ (crew i).nodeId = n ∧
            (Function.update s.phase j p i).Holds := by
        intro oid t n u ht hn hu hun
        obtain ⟨i, rfl, rfl, held⟩ := hi.seated oid u n hu hun
        refine ⟨i, rfl, rfl, ?_⟩
        by_cases hij : i = j
        · subst hij
          rw [Function.update_self]
          refine (Phase.holds_or_idle_of_move hm ha hi.available held).resolve_right fun idle => ?_
          rw [idle t ht] at hn
          cases hn
        · rwa [Function.update_of_ne hij]
      rcases Phase.seats_of_move hm ha with seats | ⟨held, available, origin⟩
      · refine ⟨seats.available hi.available, runs, fun oid t n ht hn => ?_⟩
        obtain ⟨u, hu, hun⟩ := seats.running oid t n ht hn
        exact keep oid t n u ht hn hu hun
      · refine ⟨available hi.available, runs, fun oid t n ht hn => ?_⟩
        rcases origin oid t n ht hn with ⟨rfl, rfl⟩ | hu
        · exact ⟨j, rfl, rfl, by simpa using held⟩
        · exact keep oid t n t ht hn hu hn

theorem Inv.run (hi : Inv crew s)
    (hr : Run (Stage.Step crew HandlerCall.SeatsNone (Tends crew)) s es s') :
    Inv crew s' := by
  induction hr with
  | nil => exact hi
  | snoc _ he ih => exact ih.step he

omit [DecidableEq ι] in
theorem copied_begin (w : World) : Copied crew (Stage.begin w) where
  copied _ _ h := by cases h
  doubted _ _ h := by cases h

theorem retains_of_step (he : s.Step crew HandlerCall.SeatsNone (Tends crew) e s')
    (hv : ∀ t, e.written? = some t → t.version ≠ 0) (oid : TaskOid) :
    s.world.Retains oid s'.world := by
  cases he with
  | gathered hw => exact World.retains_of_store hw.store
  | outside hw => exact hw.retains oid
  | @answered i r a p w ha hm =>
      cases r with
      | modify oid' d c =>
          refine World.retains_of_modify (by rw [ha.modify.2]) (fun t ht => ?_) oid
          rw [ha.modify.2] at ht
          exact hv t (by rw [show a = .ok t from ht]; rfl)
      | handler h oid' call =>
          generalize s.phase i = q at hm
          cases hm with
          | aside hr => cases hr
          | handler hcall => exact ha.handler_retains hcall hv oid
      | _ => exact World.retains_of_store (ha.store id)

omit [DecidableEq ι] in
/-- A copy that is current after a step was so before. -/
theorem Copied.current (hc : Copied crew s) (hw : s.world.Retains (crew i).oid w)
    (hq : (s.phase i).copy? = some t) (ht : w.store.find? (crew i).oid = some t) :
    s.world.store.find? (crew i).oid = some t := by
  obtain ⟨r, hr, hp⟩ := hc.copied i t hq
  exact hw.current hr hp ht

theorem Copied.step (hc : Copied crew s) (hi : Inv crew s) (distinct : Distinct crew)
    (he : s.Step crew HandlerCall.SeatsNone (Tends crew) e s')
    (hv : ∀ t, e.written? = some t → t.version ≠ 0) : Copied crew s' := by
  have retains := retains_of_step he hv
  have copied : ∀ i t, (s.phase i).copy? = some t →
      ∃ r, s'.world.store.find? (crew i).oid = some r ∧ t.Precedes r := by
    intro i t hq
    obtain ⟨r, hr, hp⟩ := hc.copied i t hq
    exact (retains _).precedes hr hp
  cases he with
  | gathered _ | outside _ =>
      exact ⟨copied, fun i t hq ht =>
        hc.doubted i t hq (hc.current (retains _) (by rw [hq]; rfl) ht)⟩
  | @answered j r a p w ha hm =>
      refine ⟨?_, ?_⟩
      · refine Stage.forall_update (P := fun i q => ∀ t, q.copy? = some t →
          ∃ r, w.store.find? (crew i).oid = some r ∧ t.Precedes r) (fun t hp => ?_)
          fun i _ => copied i
        rcases Phase.copy?_of_move hm hp with hq | hget | ⟨d, c, hmod⟩
        · exact copied j t hq
        · cases hget
          obtain ⟨rfl, hg⟩ := ha.get
          exact ⟨t, Store.get_ok hg.symm, .refl t⟩
        · cases hmod
          obtain ⟨-, -, -, -, -, hf⟩ := Store.modify_ok ha.modify.2
          exact ⟨t, by simpa using hf (crew j).oid, .refl t⟩
      · refine Stage.forall_update (P := fun i q => ∀ t, q = .repairing t →
          w.store.find? (crew i).oid = some t → t.runningOn? ≠ some (crew i).nodeId) ?_
          fun i _ t hq ht => hc.doubted i t hq (hc.current (retains _) (by rw [hq]; rfl) ht)
        rintro t rfl ht hn
        rcases Phase.doubt_of_move hm with hq | ⟨hq, found, hd, dead⟩
        · exact hc.doubted j t hq (hc.current (retains _) (by rw [hq]; rfl) ht) hn
        · cases hd
          obtain ⟨rfl, rfl⟩ := ha.registered
          have entry := hi.registered distinct ht hn rfl
          simp [Preparation.isLive, hn, entry] at dead

theorem Copied.run (hc : Copied crew s) (hi : Inv crew s) (distinct : Distinct crew)
    (hr : Run (Stage.Step crew HandlerCall.SeatsNone (Tends crew)) s es s')
    (hv : NoWrap es) : Copied crew s' := by
  induction hr with
  | nil => exact hc
  | snoc hr he ih =>
      exact (ih fun e he => hv e (List.mem_append_left _ he)).step (hi.run hr) distinct he
        (hv _ (by simp))

/-- What a firing repairs does not say that the task runs on its node. -/
theorem Copied.repairs {allowed : HandlerCall → Prop} {outside : World → World → Prop}
    (hc : Copied crew s) (he : s.Step crew allowed outside e s')
    (hr : e.Repairs (crew j) j) : ∃ t, s.world.store.find? (crew j).oid = some t ∧
      t.runningOn? ≠ some (crew j).nodeId := by
  obtain ⟨v, t, rfl⟩ := hr
  cases he with
  | answered ha hm =>
      obtain ⟨u, hq, rfl⟩ := Phase.repairing_of_move hm
      obtain ⟨-, r, hf, hv, -, -⟩ := Store.modify_ok ha.modify.2
      obtain ⟨r', hr', hp⟩ := hc.copied j u (by rw [hq]; rfl)
      obtain rfl : r = r' := Option.some.inj (hf.symm.trans hr')
      obtain rfl : r = u := Copies.eq_of_violation? hp hv
      exact ⟨r, hf, hc.doubted j r hq hf⟩

end

section

open Program (Reaches Asks)

variable {f : Occasion} {w : World} {t : Task}

theorem repair_asks {here : NodeId} {recovering : Bool} {place : Place}
    (idle : t.execution ≠ .running) (unclean : ¬ Preparation.isClean t) :
    Asks place (Preparation.repair here t recovering).run w
      (.modify t.oid Preparation.repairDelta (.version t.version)) w := by
  have dead : ¬ (Preparation.isLive t here (w.registered place t.oid).isSome recovering
      || Preparation.isClean t) := by
    simp [Preparation.isLive, Task.runningOn?, idle, unclean]
  have look : w.Answers place (.registered t.oid) (w.registered place t.oid) w :=
    .performed rfl
  unfold Preparation.repair
  refine Asks.after (Reaches.query look (.refl _ _)) ?_
  rw [if_neg dead]
  exact Program.asks_self _ _

/-- A firing that runs alone gets to repair a record that is ready, not running and not
clean. It makes no difference whether its node has the task registered. -/
theorem asks_repair (available : w.store.available) (found : w.store.find? f.oid = some t)
    (ready : t.isReady) (idle : t.execution ≠ .running) (unclean : ¬ Preparation.isClean t) :
    Asks f.place f.program w (.modify f.oid Preparation.repairDelta (.version t.version)) w := by
  unfold Occasion.program Node.fire Firing.prepare
  have ho := Store.oid_of_find? found
  rw [← ho] at found ⊢
  have load := (Membership.load_yields f.place available found _ _).mpr ⟨rfl, rfl⟩
  have check : (Preparation.ensureReady t).run.Reaches f.place w (.done (.ok ())) w := by
    unfold Preparation.ensureReady
    rw [if_pos ready]
    exact .refl _ _
  refine Asks.first (Asks.second load (Asks.second check (Asks.attempt ?_)))
  exact repair_asks idle unclean

end

section

open Program (Asks)

variable {ι : Type} [DecidableEq ι] {crew : ι → Occasion} {outside : World → World → Prop}
  {c : Scene ι} {i : ι} {t : Task} {w w' : World} {r : Call} {a : r.Response}

/-- A call to which a firing gets that runs alone is answered while all others wait. -/
theorem run_of_asks (h : Asks (crew i).place (c.program i) c.world r w)
    (ha : w.Answers (crew i).place r a w') :
    ∃ es c', Run (Scene.Step crew outside) c (es ++ [.deed i (.answered r a)]) c' := by
  obtain ⟨next, ds, hr⟩ := h
  have last : Scene.Step crew outside ⟨w, Function.update c.program i (.ask r next)⟩
      (.deed i (.answered r a))
      ⟨w', Function.update (Function.update c.program i (.ask r next)) i (next a)⟩ := by
    refine .deed ?_
    simp only [Function.update_self]
    exact .answered ha
  exact ⟨_, _, (Solo.run_of_alone hr).snoc last⟩

theorem run_repairs (hp : c.program i = (crew i).program)
    (available : c.world.store.available) (found : c.world.store.find? (crew i).oid = some t)
    (ready : t.isReady) (idle : t.execution ≠ .running) (unclean : ¬ Preparation.isClean t) :
    ∃ es c', Run (Scene.Step crew outside) c es c' ∧ ∃ e ∈ es, e.Repairs (crew i) i := by
  have asks := asks_repair available found ready idle unclean
  rw [← hp] at asks
  obtain ⟨es, c', hr⟩ :=
    run_of_asks asks (Solo.answers_modify available found (Solo.violation?_version t))
  refine ⟨_, c', hr, _, List.mem_append_right es (List.mem_singleton_self _), ?_⟩
  exact ⟨_, _, rfl⟩

end

end Coverage

/-- In a run of firings on nodes with distinct names, where the store is available, no
record is taken away and nothing is made to run from outside, a task whose record says
running on a node is held by a firing there and is in the registry of the node. So is a task
whose handler goes on, whatever its record says. A firing on that node to which a copy says
running there finds the run live, and no repair there touches a record that says so. What a
repair does touch is any other record that is ready and not clean, be the task in the
registry or not. -/
theorem registry_covers_running {ι : Type} [DecidableEq ι] {crew : ι → Occasion} {w : World}
    {c : Scene ι} {es : List (Event ι)} (distinct : Coverage.Distinct crew)
    (hk : ∀ i, (crew i).node.KeepsTo HandlerCall.SeatsNone) (available : w.store.available)
    (idle : ∀ oid t, w.store.find? oid = some t → t.execution ≠ .running)
    (hr : Run (Scene.Step crew (Tends crew)) (.begin crew w) es c) :
    (∀ oid t n, c.world.store.find? oid = some t → t.execution = .running → t.node = some n →
      (∃ i, (crew i).nodeId = n ∧ (crew i).oid = oid ∧ Possesses (crew i) i es) ∧
        ∀ i, (crew i).nodeId = n → (c.world.registered (crew i).place oid).isSome) ∧
    (∀ i, c.InHandler i → (c.world.registered (crew i).place (crew i).oid).isSome) ∧
    (∀ i found c' t u, c.Step crew (Tends crew)
        (.deed i (.answered (.registered (crew i).oid) found)) c' →
      c.world.store.find? (crew i).oid = some t → t.runningOn? = some (crew i).nodeId →
      u.runningOn? = some (crew i).nodeId →
      Preparation.isLive u (crew i).nodeId found.isSome (crew i).recovering) ∧
    (NoWrap es → ∀ i e c', c.Step crew (Tends crew) e c' → e.Repairs (crew i) i →
      ∃ t, c.world.store.find? (crew i).oid = some t ∧
        t.runningOn? ≠ some (crew i).nodeId) ∧
    ∀ i t, c.program i = (crew i).program → c.world.store.find? (crew i).oid = some t →
      t.isReady → t.execution ≠ .running → ¬ Preparation.isClean t →
      ∃ es' c', Run (Scene.Step crew (Tends crew)) c es' c' ∧
        ∃ e ∈ es', e.Repairs (crew i) i := by
  obtain ⟨s, hs, shown⟩ := Scene.run_shown (Scene.begin_shown hk w) hr
  have inv := (Coverage.inv_begin available idle).run hs
  refine ⟨fun oid t n ht hrun hn => ?_, fun i hi => ?_, fun i found c' t u he ht hn hu => ?_,
    fun hv i e c' he hrep => ?_, fun i t hp ht ready stale unclean => ?_⟩
  · rw [← shown.world] at ht ⊢
    have on : t.runningOn? = some n := by rw [Task.runningOn?, if_pos hrun, hn]
    obtain ⟨i, ho, hnode, held⟩ := inv.seated oid t n ht on
    exact ⟨⟨i, hnode, ho, Stage.possesses_of_holds hs held⟩,
      fun j hj => inv.registered distinct ht on hj⟩
  · have entered := (Waiting.holds_of_inHandler shown hi).entered
    obtain ⟨h, hh⟩ := entered.handle
    rw [← shown.world, inv.runs.entry i h hh entered]
    rfl
  · obtain ⟨-, rfl⟩ := he.answers.registered
    rw [← shown.world] at ht ⊢
    have entry := inv.registered distinct ht hn rfl
    simp [Preparation.isLive, hu, entry]
  · have copied := (Coverage.copied_begin w).run (Coverage.inv_begin available idle) distinct hs hv
    obtain ⟨s', hstep, -⟩ := Scene.step_shown shown he
    rw [← shown.world]
    exact copied.repairs hstep hrep
  · refine Coverage.run_repairs hp ?_ ht ready stale unclean
    rw [← shown.world]
    exact inv.available

namespace Coverage

/-- Two firings on one node, of which the first puts its task into waiting and goes on. -/
abbrev crew (i : Bool) : Occasion :=
  if i then
    Rehearsal.occasion "a"
      (.ask .switchToWaiting fun _ => .ask (.wait ⟨"gate", true⟩) fun _ => .done (.ok .finished))
  else Rehearsal.occasion "a" (.done (.ok .finished))

/-- The first firing has taken the task. -/
abbrev taken : List (Event Bool) × Scene Bool :=
  Scene.play crew (List.replicate 8 (.go true)) (.begin crew Rehearsal.world)

/-- The handler of the first firing waits. -/
abbrev waiting : List (Event Bool) × Scene Bool :=
  Scene.play crew (List.replicate 14 (.go true)) (.begin crew Rehearsal.world)

/-- Then the task is made ready. -/
abbrev woken : Scene Bool :=
  ⟨Rehearsal.reschedule .ready waiting.2.world, waiting.2.program⟩

/-- Then the second firing looks at the record and repairs it. -/
abbrev played : List (Event Bool) × Scene Bool :=
  Scene.play crew (List.replicate 3 (.go false)) woken

theorem crew_distinct : Distinct crew := by
  intro i j _
  cases i <;> cases j <;> rfl

theorem crew_keepsTo (i : Bool) : (crew i).node.KeepsTo HandlerCall.SeatsNone := by
  cases i with
  | true => exact Rehearsal.occasion_keepsTo ⟨trivial, fun _ => ⟨trivial, fun _ => trivial⟩⟩
  | false => exact Rehearsal.occasion_keepsTo trivial

theorem world_idle (oid : TaskOid) (t : Task) (h : Rehearsal.world.store.find? oid = some t) :
    t.execution ≠ .running := by
  have h := (Table.find?_put Table.empty Rehearsal.task oid).symm.trans h
  split at h
  · cases h
    decide
  · cases h

theorem taken_run :
    Run (Scene.Step crew (Tends crew)) (.begin crew Rehearsal.world) taken.1 taken.2 :=
  Scene.play_run _ _ fun f hf => by simp at hf

theorem waiting_run :
    Run (Scene.Step crew (Tends crew)) (.begin crew Rehearsal.world) waiting.1 waiting.2 :=
  Scene.play_run _ _ fun f hf => by simp at hf

theorem woken_tended : Tends crew waiting.2.world woken.world where
  seats := World.seatsNone_of_modify (d := { scheduling := some .ready }) rfl nofun rfl
  retains := by
    have hs : woken.world.store = (waiting.2.world.store.modify Rehearsal.task.oid
        { scheduling := some .ready } .always).2 := rfl
    refine World.retains_of_modify hs fun t ht => ?_
    have h : (waiting.2.world.store.modify Rehearsal.task.oid { scheduling := some .ready }
        .always).1.toOption.all (·.version ≠ 0) := by decide +kernel
    simpa [ht, Except.toOption] using h
  runs := ⟨fun _ => rfl, fun _ _ => id⟩

theorem played_run :
    Run (Scene.Step crew (Tends crew)) waiting.2 (.outside :: played.1) played.2 := by
  have woken_run : Run (Scene.Step crew (Tends crew)) waiting.2 [.outside] woken :=
    .snoc .nil (.outside woken_tended)
  exact woken_run.append (Scene.play_run _ _ fun f hf => by simp at hf)

/-- Whether the second firing repairs the record in an event. -/
def repairs : Event Bool → Bool
  | .deed i (.answered (.modify oid d (.version _)) (.ok _)) =>
      !i && oid = Rehearsal.task.oid && d = Preparation.repairDelta
  | _ => false

theorem repairs_of_played : ∃ e ∈ .outside :: played.1, e.Repairs (crew false) false := by
  have h : played.1.any repairs := by decide +kernel
  obtain ⟨e, he, hw⟩ := List.any_eq_true.mp h
  unfold repairs at hw
  split at hw
  · simp only [Bool.and_eq_true, Bool.not_eq_true', decide_eq_true_eq] at hw
    obtain ⟨⟨rfl, rfl⟩, rfl⟩ := hw
    exact ⟨_, List.mem_cons_of_mem _ he, _, _, rfl⟩
  · cases hw

theorem inHandler_waiting : waiting.2.InHandler true :=
  Scene.inHandler_of_program (by decide +kernel)

theorem inHandler_played : played.2.InHandler true :=
  Scene.inHandler_of_program (by decide +kernel)

end Coverage

/-- A firing repairs the record of a run of its own node, while the handler of that run goes
on and the task is registered there. -/
theorem repairs_beside_handler :
    ∃ (crew : Bool → Occasion) (c₁ c₂ : Scene Bool) (es₁ es₂ : List (Event Bool)),
      (∀ i, (crew i).recovering = false ∧ (crew i).node.config.checkConcurrent) ∧
      (∀ i, (crew i).node.KeepsTo HandlerCall.SeatsNone) ∧ Coverage.Distinct crew ∧
      (crew false).nodeId = (crew true).nodeId ∧ (crew false).oid = (crew true).oid ∧
      Rehearsal.world.store.available ∧
      (∀ oid t, Rehearsal.world.store.find? oid = some t → t.execution ≠ .running) ∧
      Run (Scene.Step crew (Tends crew)) (.begin crew Rehearsal.world) es₁ c₁ ∧
      Run (Scene.Step crew (Tends crew)) c₁ es₂ c₂ ∧
      c₁.InHandler true ∧ c₂.InHandler true ∧
      (c₂.world.registered (crew false).place (crew false).oid).isSome ∧
      ∃ e ∈ es₂, e.Repairs (crew false) false :=
  ⟨Coverage.crew, _, _, _, _, by decide, Coverage.crew_keepsTo, Coverage.crew_distinct, rfl, rfl,
    rfl, Coverage.world_idle, Coverage.waiting_run, Coverage.played_run,
    Coverage.inHandler_waiting, Coverage.inHandler_played, by decide +kernel,
    Coverage.repairs_of_played⟩

/-- Where the first of these firings has just taken the task, the registry tells so. -/
theorem registered_of_taken :
    (Coverage.taken.2.world.registered (.node "a") Rehearsal.task.oid).isSome := by
  have running : (Coverage.taken.2.world.store.find? Rehearsal.task.oid).any fun t =>
      t.execution = .running ∧ t.node = some ⟨"a"⟩ := by decide +kernel
  obtain ⟨t, ht, hx⟩ := (Option.any_eq_true _ _).mp running
  obtain ⟨hrun, hnode⟩ := of_decide_eq_true hx
  obtain ⟨covers, -⟩ := registry_covers_running Coverage.crew_distinct Coverage.crew_keepsTo rfl
    Coverage.world_idle Coverage.taken_run
  exact (covers _ t _ ht hrun hnode).2 true rfl

end TaskFiring
