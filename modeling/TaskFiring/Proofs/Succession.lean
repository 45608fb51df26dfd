import TaskFiring.Proofs.Chronicle
import TaskFiring.Proofs.Holding
import TaskFiring.Proofs.Milestones
import TaskFiring.Proofs.Rehearsal

/-!
Results by several firings. What is stored as the result of a task is what was recorded
last, and whoever takes the task records a result before it returns. So the firing that took
the task last has its result stored, unless another one records its own after that: one that
held the task already when it was taken again, or that has let go of it and has waited for
late children since.
-/

namespace TaskFiring

section

variable {ι : Type}

/-- The firing has recorded a result of its task. -/
def Event.Records (f : Occasion) (i : ι) (result : OperationResult) (e : Event ι) : Prop :=
  ∃ t, e = .deed i (.answered (.modify f.oid { result := some result } .always) (.ok t))

/-- No firing has recorded a result of the task. -/
def NoneRecorded (crew : ι → Occasion) (oid : TaskOid) (es : List (Event ι)) : Prop :=
  ∀ e ∈ es, ∀ i result, (crew i).oid = oid → ¬ e.Records (crew i) i result

theorem NoneRecorded.append {crew : ι → Occasion} {oid : TaskOid} {es es' : List (Event ι)}
    (h : NoneRecorded crew oid es) (h' : NoneRecorded crew oid es') :
    NoneRecorded crew oid (es ++ es') :=
  List.forall_mem_append.mpr ⟨h, h'⟩

/-- Of all results of the task, the firing has recorded the last. -/
def RecordsLast (crew : ι → Occasion) (oid : TaskOid) (i : ι) (result : OperationResult)
    (es : List (Event ι)) : Prop :=
  ∃ before e after, es = before ++ e :: after ∧ (crew i).oid = oid ∧
    e.Records (crew i) i result ∧ NoneRecorded crew oid after

end

/-- A call of a handler by which no result of the task is written or lost. -/
def HandlerCall.LeavesResult (oid : TaskOid) : HandlerCall → Prop
  | .disturb (.write oid' d) => oid' = oid → d.result = none
  | .disturb (.remove oid') => oid' ≠ oid
  | .disturb (.storeAvailable value) => value
  | _ => True

/-- The store goes on to be available, and what it has as the result of the task stays. -/
structure World.LeavesResult (oid : TaskOid) (w w' : World) : Prop where
  available : w.store.available → w'.store.available
  result : ∀ t, w.store.find? oid = some t →
    ∃ t', w'.store.find? oid = some t' ∧ t'.result = t.result

namespace World

section

variable {w w' : World} {place : Place} {oid oid' : TaskOid} {d : TaskDelta}

theorem leavesResult_of_store (h : w'.store = w.store) : w.LeavesResult oid w' := by
  refine ⟨by rw [h]; exact id, fun t ht => ⟨t, by rw [h, ht], rfl⟩⟩

/-- A write of another task, or one that says nothing of a result. -/
theorem leavesResult_of_modify {c : Precondition}
    (h : w'.store = (w.store.modify oid' d c).2) (hd : oid' = oid → d.result = none) :
    w.LeavesResult oid w' := by
  rcases w.store.modify_cases oid' d c with ⟨e, hm⟩ | ⟨r, s, hm, hr, -, ha, hf⟩
  · exact leavesResult_of_store (by rw [h, hm])
  rw [hm] at h
  refine ⟨by rw [h, ha]; exact id, fun t ht => ?_⟩
  rw [h, hf]
  by_cases ho : oid' = oid
  · subst ho
    obtain rfl := Option.some.inj (hr.symm.trans ht)
    refine ⟨_, if_pos rfl, ?_⟩
    simp [Store.written, TaskDelta.apply, hd rfl]
  · exact ⟨t, by rw [if_neg ho, ht], rfl⟩

theorem Answers.leavesResult {c : Precondition} {a : Except StoreError Task}
    (ha : w.Answers place (.modify oid' d c) a w') (hd : oid' = oid → d.result = none) :
    w.LeavesResult oid w' :=
  leavesResult_of_modify (by rw [ha.modify.2]) hd

theorem Answers.handler_leavesResult {h : HandleId} {call : HandlerCall}
    {a : Option call.Response} (ha : w.Answers place (.handler h oid' call) a w')
    (hc : call.LeavesResult oid) : w.LeavesResult oid w' := by
  rcases ha.handler_cases with hw | ⟨b, -, -, hm⟩ | ⟨d, rfl, rfl⟩
  · exact leavesResult_of_store hw.store
  · exact leavesResult_of_modify (d := waitingDelta) (by rw [hm]) fun _ => rfl
  · cases d with
    | write oid' d => exact leavesResult_of_modify (d := d) rfl hc
    | remove oid' =>
        refine ⟨id, fun t ht => ⟨t, ?_, rfl⟩⟩
        exact ((Table.find?_erase _ _ _).trans (if_neg hc)).trans ht
    | storeAvailable value => exact ⟨fun _ => hc, fun t ht => ⟨t, ht, rfl⟩⟩
    | triggerFailing _ | advance _ => exact leavesResult_of_store rfl

end

end World

namespace Succession

section

variable {ι : Type} [DecidableEq ι] {crew : ι → Occasion} {oid : TaskOid} {s s' : Stage ι}
  {e : Event ι} {es : List (Event ι)} {i : ι} {t : Task}

/-- Whatever is not the recording of a result leaves the one that is stored. -/
theorem leavesResult_of_step
    (he : s.Step crew (HandlerCall.LeavesResult oid) (World.LeavesResult oid) e s')
    (hn : ∀ i result, (crew i).oid = oid → ¬ e.Records (crew i) i result) :
    s.world.LeavesResult oid s'.world := by
  cases he with
  | gathered hw => exact World.leavesResult_of_store hw.store
  | outside hw => exact hw
  | @answered i r a p w ha hm =>
      have hn := hn i
      generalize s.phase i = q at hm
      cases hm with
      | aside hr => exact World.leavesResult_of_store (ha.agrees hr).store
      | repair | notRepaired | start | notStarted | close | suspend | wake | settle
      | notSettled | neverSettled => exact ha.leavesResult fun _ => rfl
      | @record _ result a =>
          cases a with
          | error e => exact World.leavesResult_of_store (Store.eq_of_modify_error ha.modify.2)
          | ok t => exact ha.leavesResult fun ho => absurd ⟨t, rfl⟩ (hn result ho)
      | handler hcall => exact ha.handler_leavesResult hcall
      | _ => exact World.leavesResult_of_store (ha.store id)

theorem result_of_records {outside : World → World → Prop} {allowed : HandlerCall → Prop}
    {result : OperationResult} (he : s.Step crew allowed outside e s')
    (hr : e.Records (crew i) i result) :
    s'.world.store.available = s.world.store.available ∧
      ∃ t, s'.world.store.find? (crew i).oid = some t ∧ t.result = some result := by
  obtain ⟨t, rfl⟩ := hr
  cases he with
  | answered ha hm =>
      obtain ⟨hav, r, -, -, rfl, hf⟩ := Store.modify_ok ha.modify.2
      exact ⟨hav, _, by simpa using hf (crew i).oid, rfl⟩

/-- What is stored as the result was recorded last, or it was there before. -/
theorem result_of_run
    (hr : Run (Stage.Step crew (HandlerCall.LeavesResult oid) (World.LeavesResult oid)) s es s')
    (ha : s.world.store.available) :
    s'.world.store.available ∧ ∀ t, s.world.store.find? oid = some t →
      ∃ t', s'.world.store.find? oid = some t' ∧
        ((∃ i result, RecordsLast crew oid i result es ∧ t'.result = some result) ∨
          NoneRecorded crew oid es ∧ t'.result = t.result) := by
  induction hr with
  | nil => exact ⟨ha, fun t ht => ⟨t, ht, .inr ⟨fun _ h => absurd h List.not_mem_nil, rfl⟩⟩⟩
  | @snoc s₁ s₂ es e _ he ih =>
      obtain ⟨ha₁, before⟩ := ih
      by_cases hrec : ∃ i result, (crew i).oid = oid ∧ e.Records (crew i) i result
      · obtain ⟨i, result, rfl, hrec⟩ := hrec
        obtain ⟨hav, t₂, ht₂, hresult⟩ := result_of_records he hrec
        refine ⟨hav ▸ ha₁, fun _ _ => ⟨t₂, ht₂, .inl ⟨i, result, ?_, hresult⟩⟩⟩
        exact ⟨es, e, [], rfl, rfl, hrec, fun _ h => absurd h List.not_mem_nil⟩
      · have hn : NoneRecorded crew oid [e] := by
          intro e' he' i result ho hr
          obtain rfl := List.mem_singleton.mp he'
          exact hrec ⟨i, result, ho, hr⟩
        have hw := leavesResult_of_step he (hn e (by simp))
        refine ⟨hw.available ha₁, fun t ht => ?_⟩
        obtain ⟨t₁, ht₁, before⟩ := before t ht
        obtain ⟨t₂, ht₂, hresult⟩ := hw.result t₁ ht₁
        refine ⟨t₂, ht₂, ?_⟩
        rw [hresult]
        refine before.imp ?_ fun ⟨quiet, same⟩ => ⟨quiet.append hn, same⟩
        rintro ⟨i, result, ⟨b, e', a, rfl, ho, hrec, quiet⟩, same⟩
        exact ⟨i, result, ⟨b, e', a ++ [e], by simp, ho, hrec, quiet.append hn⟩, same⟩

end

/-! A firing that has taken its task owes a result for it until it has tried to record
one. -/

open Program (Follows Only)
open Starting

/-- The calls of a firing, as to the record that it owes a result for. -/
inductive Move : Protocol Calls (Option Task)
  | take {oid : TaskOid} {n : NodeId} {v : UInt64} {t : Task} :
      Move none (.modify oid (Possession.runningDelta n) (.version v)) (.ok t) (some t)
  | refused {s : Option Task} {oid : TaskOid} {d : TaskDelta} {c : Precondition}
      {e : StoreError} : Move s (.modify oid d c) (.error e) s
  | pay {t : Task} {result : OperationResult} {a : Except StoreError Task} :
      Move (some t) (.modify t.oid { result := some result } .always) a none
  | rest {s : Option Task} {r : Call} {a : r.Response} : r.AssignsNone → Move s r a s

/-- A part of a firing, whatever it is answered. -/
abbrev Runs {α : Type} (p : Action α) (s : Option Task) (Q : Option Task → α → Prop) : Prop :=
  p.Follows (fun _ _ => True) Move s Q

section

variable {α : Type} {p : Action α} {s : Option Task} {node : Node} {g : Firing}

theorem runs_of_assignsNone (hp : p.Only Call.AssignsNone) : Runs p s fun s' _ => s' = s :=
  hp.follows fun _ _ => .rest

theorem runs_of_startsNone (hp : p.Only Call.StartsNone) : Runs p s fun s' _ => s' = s :=
  runs_of_assignsNone (assignsNone hp)

theorem runs_of_aside (hp : p.Only Call.IsAside) : Runs p s fun s' _ => s' = s :=
  runs_of_startsNone (startsNone_of_aside hp)

/-- A task that is taken is owed for. -/
theorem start_runs {t : Task} {n : NodeId} :
    Runs (Possession.start t n).run none fun s r =>
      match r with
      | .ok t => s = some t
      | .error _ => s = none := by
  unfold Possession.start
  refine Follows.query fun answer _ => ?_
  cases answer with
  | ok u => exact ⟨some u, .take, rfl⟩
  | error e =>
      refine ⟨none, .refused, ?_⟩
      cases e with
      | conflict o expected actual =>
          refine Follows.lift (runs_of_aside (Course.lostRace_aside _ _)) ?_
          rintro _ stop rfl
          exact rfl
      | notFound _ | preconditionFailed _ _ | backend _ => exact rfl

theorem runTaken_runs {handler : Handler} :
    Runs (Firing.runTaken node handler g) s fun s' r => s' = s ∧ r.1.task = g.task := by
  unfold Firing.runTaken
  refine Follows.ask fun _ _ => ⟨s, .rest trivial, ?_⟩
  refine Follows.ask fun _ _ => ⟨s, .rest trivial, ?_⟩
  refine (runs_of_aside (Course.spawnAll_aside _ _)).bind ?_
  rintro s ⟨⟩ rfl
  refine (runs_of_assignsNone (runHandler_assignsNone handler g)).bind ?_
  rintro s ended rfl
  exact Follows.ask fun _ _ => ⟨s, .rest trivial, rfl, rfl⟩

/-- However the handler has ended, its result is recorded. -/
theorem conclude_runs {ended : HandlerEnd} :
    Runs (Firing.conclude g ended) (some g.task) fun s _ => s = none := by
  have later := assignsNone (conclude_startsNone g ended)
  cases ended with
  | error e => exact fun answer _ => ⟨none, .pay, runs_of_assignsNone (later.2 answer)⟩
  | ok outcome => exact fun answer _ => ⟨none, .pay, runs_of_assignsNone (later.2 answer)⟩

theorem runStarted_runs :
    Runs (Firing.runStarted node g) (some g.task) fun s _ => s = none := by
  cases hh : node.handlers.resolve g.task.handlerRef with
  | none =>
      have later := runStarted_assignsNone node g
      unfold Firing.runStarted at later ⊢
      simp only [Handling.resolve, hh, bind_assoc, pure_bind] at later ⊢
      exact fun answer _ => ⟨none, .pay, runs_of_assignsNone (later.2 answer)⟩
  | some handler =>
      unfold Firing.runStarted
      rw [Handling.resolve_of_some hh]
      change Runs (Firing.runTaken node handler g >>= fun e => Firing.conclude e.1 e.2) _ _
      refine runTaken_runs.bind ?_
      rintro _ ⟨g', ended⟩ ⟨rfl, htask⟩
      rw [← htask]
      exact conclude_runs

theorem runRegistered_runs :
    Runs (Firing.runRegistered node g) none fun s _ => s = none := by
  unfold Firing.runRegistered
  refine start_runs.bind ?_
  rintro s (stop | t) hs
  · exact hs
  · obtain rfl : s = some t := hs
    exact runStarted_runs (g := { g with task := t, nodeSet := true })

theorem runPrepared_runs : Runs (Firing.runPrepared node g) none fun s _ => s = none := by
  unfold Firing.runPrepared
  refine (runs_of_startsNone (guard_startsNone _ _)).bind ?_
  rintro s (stop | ⟨⟩) rfl
  · exact rfl
  refine Follows.ask fun registered _ => ⟨none, .rest trivial, ?_⟩
  cases registered with
  | false => exact rfl
  | true =>
      have run : Runs
          ((Firing.runRegistered node g).bind fun e => Firing.finish node e.1 e.2) none
          fun s _ => s = none := by
        refine runRegistered_runs.bind ?_
        rintro s e rfl
        exact runs_of_startsNone (finish_startsNone _ _ _)
      refine Follows.ask fun shutDown _ => ⟨none, .rest trivial, ?_⟩
      cases shutDown with
      | false => exact run
      | true =>
          refine (runs_of_aside (Course.interrupt_aside _ _)).bind ?_
          rintro s ⟨⟩ rfl
          exact run

/-- Nothing is owed in the end. -/
theorem program_runs (f : Occasion) : Runs f.program none fun s _ => s = none := by
  unfold Occasion.program Node.fire
  refine (runs_of_startsNone (prepare_startsNone _ _ _)).bind ?_
  rintro s (stop | g) rfl
  · exact rfl
  · exact runPrepared_runs

end

section

variable {α : Type} {p q : Action α} {s : Option Task} {Q : Option Task → α → Prop}
  {ds : List Deed} {t : Task}

/-- A wait for children that goes on changes nothing about what is owed. -/
theorem runs_gathered {h : HandleId} {result result' : OperationResult} {closed closed' : Nat}
    {batch batch' : List Nat} {next : OperationResult × Nat → Action α}
    (hp : Runs (.ask (.collect h result closed batch) next) s Q) :
    Runs (.ask (.collect h result' closed' batch') next) s Q := by
  intro answer _
  obtain ⟨s', hm, hn⟩ := hp answer trivial
  cases hm with
  | rest _ => exact ⟨s, .rest trivial, hn⟩

theorem runs_along (hw : p.Way ds q) (hp : Runs p s Q) : ∃ s', Runs q s' Q := by
  induction hw with
  | nil => exact ⟨s, hp⟩
  | snoc _ hd ih =>
      obtain ⟨s', hq⟩ := ih
      cases hd with
      | @answered r next a =>
          obtain ⟨s'', -, hn⟩ := hq a trivial
          exact ⟨s'', hn⟩
      | gathered => exact ⟨s', runs_gathered hq⟩

/-- What is owed is owed until it is paid. -/
theorem owes_along (hw : p.Way ds q) (hp : Runs p (some t) Q) :
    Runs q (some t) Q ∨ ∃ (result : OperationResult) (a : Except StoreError Task),
      .answered (.modify t.oid { result := some result } .always) a ∈ ds := by
  induction hw with
  | nil => exact .inl hp
  | snoc _ hd ih =>
      rcases ih with hq | ⟨result, a, hm⟩
      · cases hd with
        | @answered r next a =>
            obtain ⟨s', hm, hn⟩ := hq a trivial
            cases hm with
            | refused | rest => exact .inl hn
            | @pay _ result a => exact .inr ⟨result, a, by simp⟩
        | gathered => exact .inl (runs_gathered hq)
      · exact .inr ⟨result, a, List.mem_append_left _ hm⟩

/-- A firing that has taken its task tries to record a result before it returns. -/
theorem records_of_way {f : Occasion} {ds ds' : List Deed} {v : UInt64} {report : FiringOutcome}
    (hw : f.program.Way (ds ++ Milestones.taking f v t :: ds') (.done report)) :
    ∃ (result : OperationResult) (a : Except StoreError Task),
      .answered (.modify t.oid { result := some result } .always) a ∈ ds' := by
  obtain ⟨q, q', hbefore, hd, hafter⟩ := Run.around hw
  obtain ⟨s, hq⟩ := runs_along hbefore (program_runs f)
  generalize hdeed : Milestones.taking f v t = d at hd
  cases hd with
  | gathered => cases hdeed
  | answered =>
      cases hdeed
      obtain ⟨s', hm, hn⟩ := hq (.ok t) trivial
      generalize hdelta : Possession.runningDelta f.nodeId = delta at hm
      generalize hcond : Precondition.version v = cond at hm
      generalize f.oid = oid at hm
      cases hm with
      | take => exact (owes_along hafter hn).resolve_left fun h => nomatch h
      | pay => cases hcond
      | rest hr =>
          subst hdelta
          exact absurd rfl (hr f.nodeId)

end

section

variable {ι : Type} [DecidableEq ι] {crew : ι → Occasion} {oid : TaskOid} {w : World}
  {c : Scene ι} {before after : List (Event ι)} {e : Event ι} {i j : ι}

omit [DecidableEq ι] in
/-- Whoever holds the task without having taken it lately has held it for longer. -/
theorem possesses_before (hp : Possesses (crew j) j (before ++ e :: after))
    (he : e.Takes (crew i) i) (hij : j ≠ i)
    (hn : ∀ e' ∈ after, ¬ e'.Takes (crew j) j) : Possesses (crew j) j before := by
  induction after using List.reverseRecOn with
  | nil =>
      refine ((possesses_snoc hp).resolve_left ?_).1
      rintro ⟨v, t, rfl⟩
      obtain ⟨v', t', he⟩ := he
      cases he
      exact hij rfl
  | append_singleton after e' ih =>
      rw [← List.cons_append, ← List.append_assoc] at hp
      rcases possesses_snoc hp with ht | ⟨hp, -⟩
      · exact absurd ht (hn e' (by simp))
      · exact ih hp fun e he => hn e (List.mem_append_left _ he)

/-- While a task is there, a firing that tries to record a result of it does. -/
theorem records_of_run {es : List (Event ι)} {result : OperationResult}
    {a : Except StoreError Task} {s s' : Stage ι} {t : Task}
    (hr : Run (Stage.Step crew (HandlerCall.LeavesResult oid) (World.LeavesResult oid)) s es s')
    (ha : s.world.store.available) (ht : s.world.store.find? oid = some t)
    (ho : (crew i).oid = oid)
    (hm : .deed i (.answered (.modify oid { result := some result } .always) a) ∈ es) :
    ∃ e ∈ es, e.Records (crew i) i result := by
  refine ⟨_, hm, ?_⟩
  obtain ⟨before, after, rfl⟩ := List.append_of_mem hm
  obtain ⟨s₁, s₂, h₁, hstep, -⟩ := hr.around
  obtain ⟨ha₁, record⟩ := result_of_run h₁ ha
  obtain ⟨t₁, ht₁, -⟩ := record t ht
  cases hstep with
  | answered hanswer _ =>
      have hw := Store.modify_always ha₁ ht₁ { result := some result }
      rw [hanswer.modify.2] at hw
      subst ho
      exact ⟨_, by rw [show a = .ok _ from hw]⟩

omit [DecidableEq ι] in
/-- Whoever has recorded a result but not the last one, is followed by the one who has. -/
theorem eq_or_followed {es es' : List (Event ι)} {e : Event ι} {result result' : OperationResult}
    (h : RecordsLast crew oid i result (es ++ e :: es')) (ho : (crew j).oid = oid)
    (he : e.Records (crew j) j result') :
    j = i ∨ ∃ e' ∈ es', ∃ result, e'.Records (crew i) i result := by
  obtain ⟨b, e', a, hes, -, hrec, quiet⟩ := h
  have same : e = e' → j = i := by
    rintro rfl
    obtain ⟨t, rfl⟩ := he
    obtain ⟨t', h⟩ := hrec
    cases h
    rfl
  rcases List.append_eq_append_iff.mp hes with ⟨m, rfl, h⟩ | ⟨m, rfl, h⟩
  · cases m with
    | nil => exact .inl (same (List.cons.inj h).1)
    | cons _ m =>
        obtain ⟨rfl, rfl⟩ := List.cons.inj h
        exact .inr ⟨e', by simp, result, hrec⟩
  · cases m with
    | nil => exact .inl (same (List.cons.inj h).1.symm)
    | cons _ m =>
        obtain ⟨rfl, rfl⟩ := List.cons.inj h
        exact absurd he (quiet e (by simp) j result' ho)

/-- Once a firing has returned that has taken the task, what is stored as the result was
recorded since. -/
theorem recordsLast_of_taker {before after : List (Event ι)} {e : Event ι}
    {report : FiringOutcome} (hk : ∀ i, (crew i).node.KeepsTo (HandlerCall.LeavesResult oid))
    (ha : w.store.available)
    (hr : Run (Scene.Step crew (World.LeavesResult oid)) (.begin crew w)
      (before ++ e :: after) c)
    (ho : (crew i).oid = oid) (he : e.Takes (crew i) i) (hdone : c.program i = .done report) :
    ∃ j result, RecordsLast crew oid j result after ∧
      (c.world.store.find? oid).bind Task.result = some result := by
  obtain ⟨s, hs, hshown⟩ := Scene.run_shown (Scene.begin_shown hk w) hr
  obtain ⟨s₁, s₂, h₁, hstep, h₂⟩ := hs.around
  have ha₁ := (result_of_run h₁ ha).1
  obtain ⟨v, t, rfl⟩ := he
  -- the task is there once it was taken
  have hfair : t.oid = oid := by
    cases hstep with
    | answered hanswer _ => exact ho ▸ hanswer.fair
  have taken : s₂.world.store.available ∧ s₂.world.store.find? oid = some t := by
    cases hstep with
    | answered hanswer _ =>
        obtain ⟨hav, r, -, -, -, hf⟩ := Store.modify_ok hanswer.modify.2
        exact ⟨hav ▸ ha₁, by simpa [ho] using hf oid⟩
  obtain ⟨-, record⟩ := result_of_run h₂ taken.1
  obtain ⟨t', ht', source⟩ := record t taken.2
  have own : ∃ e ∈ after, ∃ result, e.Records (crew i) i result := by
    have way := Scene.way_of_run hr i
    rw [deedsOf_append, deedsOf_own, hdone] at way
    obtain ⟨result, a, hm⟩ := records_of_way way
    rw [hfair] at hm
    obtain ⟨e, he, hrec⟩ := records_of_run h₂ taken.1 taken.2 ho (mem_deedsOf.mp hm)
    exact ⟨e, he, result, hrec⟩
  obtain ⟨j, result, hlastrec, hresult⟩ := source.resolve_right fun ⟨quiet, _⟩ => by
    obtain ⟨e, he, result, hrec⟩ := own
    exact quiet e he i result ho hrec
  exact ⟨j, result, hlastrec, by rw [← hshown.world, ht']; exact hresult⟩

end

end Succession

/-- The result that is stored once the firing that took the task last has returned is its
own, unless another one has recorded a result after its last. Such a firing held the task
already when it was taken again, or does not hold it when it records. -/
theorem result_of_last_taker {ι : Type} [DecidableEq ι] {crew : ι → Occasion} {oid : TaskOid}
    {w : World} {c : Scene ι} {before after : List (Event ι)} {e : Event ι} {i : ι}
    {report : FiringOutcome}
    (hk : ∀ i, (crew i).node.KeepsTo (HandlerCall.LeavesResult oid))
    (ha : w.store.available)
    (hr : Run (Scene.Step crew (World.LeavesResult oid)) (.begin crew w)
      (before ++ e :: after) c)
    (ho : (crew i).oid = oid) (he : e.Takes (crew i) i)
    (hlast : ∀ e' ∈ after, ∀ j, (crew j).oid = oid → ¬ e'.Takes (crew j) j)
    (hdone : c.program i = .done report) :
    ((∃ result, RecordsLast crew oid i result after ∧
        (c.world.store.find? oid).bind Task.result = some result) ↔
      ∀ es e' es' j result, after = es ++ e' :: es' → j ≠ i → (crew j).oid = oid →
        e'.Records (crew j) j result → ∃ e'' ∈ es', ∃ result, e''.Records (crew i) i result) ∧
    ∀ es e' es' j result, after = es ++ e' :: es' → j ≠ i → (crew j).oid = oid →
      e'.Records (crew j) j result → Possesses (crew j) j before ∨
        ¬ Possesses (crew j) j (before ++ e :: es) := by
  obtain ⟨j, result, hlastrec, stored⟩ := Succession.recordsLast_of_taker hk ha hr ho he hdone
  refine ⟨⟨?_, fun followed => ?_⟩, ?_⟩
  · rintro ⟨result, h, -⟩ es e' es' j result' rfl hj hjo hrec
    exact (Succession.eq_or_followed h hjo hrec).resolve_left hj
  · obtain rfl : j = i := by
      by_contra hj
      obtain ⟨b, e', a, rfl, hjo, hrec, quiet⟩ := hlastrec
      obtain ⟨e'', he'', result', hrec'⟩ := followed b e' a j result rfl hj hjo hrec
      exact quiet e'' he'' i result' ho hrec'
    exact ⟨result, hlastrec, stored⟩
  · rintro es e' es' j result' rfl hj hjo -
    by_contra hn
    obtain ⟨hbefore, held⟩ := not_or.mp hn
    refine hbefore (Succession.possesses_before (not_not.mp held) he hj ?_)
    exact fun e he => hlast e (by simp [he]) j hjo

namespace Succession

/-- Two firings, whose handlers end at once with a word each. -/
abbrev pair : Bool → Occasion :=
  Rehearsal.pair (.done (.ok ⟨.interrupted, some "older"⟩))
    (.done (.ok ⟨.interrupted, some "newer"⟩))

/-- They go on one after the other. -/
abbrev played : List (Event Bool) × Scene Bool :=
  Scene.play pair (List.replicate 40 (.go true) ++ List.replicate 40 (.go false))
    (.begin pair Rehearsal.world)

/-- Whether the firing takes its task in an event. -/
def takes (f : Occasion) (i : Bool) : Event Bool → Bool
  | .deed j (.answered (.modify oid d (.version _)) (.ok _)) =>
      j = i && oid = f.oid && d = Possession.runningDelta f.nodeId
  | _ => false

theorem takes_iff {f : Occasion} {i : Bool} {e : Event Bool} :
    takes f i e ↔ e.Takes f i := by
  constructor
  · intro h
    unfold takes at h
    split at h
    · simp only [Bool.and_eq_true, decide_eq_true_eq] at h
      obtain ⟨⟨rfl, rfl⟩, rfl⟩ := h
      exact ⟨_, _, rfl⟩
    · cases h
  · rintro ⟨v, t, rfl⟩
    simp [takes]

/-- The result that the firing records in an event. -/
def recorded? (f : Occasion) (i : Bool) : Event Bool → Option OperationResult
  | .deed j (.answered (.modify oid d .always) (.ok _)) =>
      if j = i ∧ oid = f.oid ∧ d = { result := d.result } then d.result else none
  | _ => none

theorem recorded?_iff {f : Occasion} {i : Bool} {result : OperationResult} {e : Event Bool} :
    recorded? f i e = some result ↔ e.Records f i result := by
  constructor
  · intro h
    unfold recorded? at h
    split at h
    · simp only [Option.ite_none_right_eq_some] at h
      obtain ⟨⟨rfl, rfl, hd⟩, hresult⟩ := h
      rw [hd, hresult]
      exact ⟨_, rfl⟩
    · cases h
  · rintro ⟨t, rfl⟩
    simp [recorded?]

theorem pair_keepsTo (i : Bool) :
    (pair i).node.KeepsTo (HandlerCall.LeavesResult Rehearsal.task.oid) := by
  cases i <;> exact Rehearsal.occasion_keepsTo (by trivial)

theorem played_run :
    Run (Scene.Step pair (World.LeavesResult Rehearsal.task.oid))
      (.begin pair Rehearsal.world) played.1 played.2 :=
  Scene.play_run _ _ fun f hf => by simp at hf

/-- The event at some place in a run. -/
theorem split_at {es : List (Event Bool)} {n : Nat} {P : Event Bool → Bool}
    (h : es[n]?.any P) : ∃ e, es = es.take n ++ e :: es.drop (n + 1) ∧ P e := by
  obtain ⟨e, he, hP⟩ := (Option.any_eq_true _ _).mp h
  obtain ⟨hn, rfl⟩ := List.getElem?_eq_some_iff.mp he
  refine ⟨_, ?_, hP⟩
  rw [← List.drop_eq_getElem_cons, List.take_append_drop]

end Succession

/-- Of two firings that do not overlap the result of the second one is stored. -/
theorem result_of_last_taker_played : ∃ result,
    RecordsLast Succession.pair Rehearsal.task.oid false result (Succession.played.1.drop 32) ∧
      (Succession.played.2.world.store.find? Rehearsal.task.oid).bind Task.result
        = some result := by
  -- the second firing takes the task when the first one is gone
  obtain ⟨e, split, taken⟩ := Succession.split_at
    (by decide +kernel :
      Succession.played.1[31]?.any (Succession.takes (Succession.pair false) false))
  have hr := Succession.played_run
  rw [split] at hr
  obtain ⟨report, done⟩ : ∃ report, Succession.played.2.program false = .done report :=
    Scene.done_of_hasEnded (by decide +kernel)
  have untaken : (Succession.played.1.drop 32).all fun e =>
      !Succession.takes (Succession.pair true) true e &&
        !Succession.takes (Succession.pair false) false e := by
    decide +kernel
  have own : (Succession.played.1.drop 32).all
      (Succession.recorded? (Succession.pair true) true · = none) := by
    decide +kernel
  refine (result_of_last_taker Succession.pair_keepsTo rfl hr rfl (Succession.takes_iff.mp taken)
    (fun e he j _ ht => ?_) done).1.mpr ?_
  · have := List.all_eq_true.mp untaken e he
    cases j <;> simp [Succession.takes_iff.mpr ht] at this
  · rintro es e es' j result hes hj - hrec
    have := List.all_eq_true.mp own e (by rw [hes]; simp)
    cases j with
    | true => simp [Succession.recorded?_iff.mpr hrec] at this
    | false => exact absurd rfl hj

theorem World.stepChild?_store {w w' : World} {h : HandleId} {i : Nat}
    (hw : w.stepChild? h i = some w') : w'.store = w.store := by
  cases stepChild?_eq_some_iff.mp hw with
  | ends => rfl
  | answered _ _ _ _ hp => exact (performChild_same hp).1

namespace Succession

/-- The wait of a firing for children goes on, if it can. -/
def gather? {ι : Type} [DecidableEq ι] (c : Scene ι) (i : ι) : Option (Scene ι) :=
  match c.program i with
  | .ask (.collect h result closed []) next =>
      match c.world.takePending h with
      | ([], _) => none
      | (batch, w) =>
          some ⟨w, Function.update c.program i (.ask (.collect h result closed batch) next)⟩
  | .ask (.collect h result closed (k :: batch)) next => do
      let (r, w) ← c.world.closeTaken? h k
      some ⟨w, Function.update c.program i
        (.ask (.collect h (result.addSubresult r) (closed + 1) batch) next)⟩
  | _ => none

theorem gather?_step {ι : Type} [DecidableEq ι] {crew : ι → Occasion}
    {outside : World → World → Prop} {c c' : Scene ι} {i : ι} (h : gather? c i = some c') :
    c.Step crew outside (.deed i .gathered) c' := by
  unfold gather? at h
  split at h
  · next hp =>
    split at h
    · cases h
    · next hb ht =>
      cases h
      refine .deed ?_
      rw [hp]
      exact .gathered (.take ht hb)
  · next hp =>
    simp only [Option.bind_eq_bind, Option.bind_eq_some_iff, Option.some.injEq] at h
    obtain ⟨⟨r, w⟩, hc, rfl⟩ := h
    refine .deed ?_
    rw [hp]
    exact .gathered (.close hc)
  · cases h

theorem gather_step {ι : Type} [DecidableEq ι] {crew : ι → Occasion}
    {outside : World → World → Prop} {c : Scene ι} {i : ι} (h : (gather? c i).isSome) :
    c.Step crew outside (.deed i .gathered) ((gather? c i).getD c) := by
  obtain ⟨c', hc⟩ := Option.isSome_iff_exists.mp h
  rw [hc]
  exact gather?_step hc

/-- The first of the firings has its node spawn a child when it lets go of its task. -/
def crew (i : Bool) : Occasion :=
  if i then
    let f := pair true
    { f with node :=
        { f.node with onFinish := fun _ => [⟨"late", fun _ => .done (.ok (.new "late"))⟩] } }
  else pair false

/-- The first firing goes on until it has to wait for that child. -/
abbrev first : List (Event Bool) × Scene Bool :=
  Scene.play crew (List.replicate 40 (.go true)) (.begin crew Rehearsal.world)

abbrev waiting : Scene Bool := (gather? first.2 true).getD first.2

/-- Meanwhile the second one begins and ends. -/
abbrev second : List (Event Bool) × Scene Bool :=
  Scene.play crew (List.replicate 40 (.go false)) waiting

/-- Then the child ends. -/
abbrev grown : Scene Bool :=
  ⟨(second.2.world.stepChild? ⟨0⟩ 0).getD second.2.world, second.2.program⟩

abbrev gathered : Scene Bool := (gather? grown true).getD grown

/-- And the first firing goes on to its end. -/
abbrev third : List (Event Bool) × Scene Bool :=
  Scene.play crew (List.replicate 40 (.go true)) gathered

abbrev overlapping : List (Event Bool) :=
  first.1 ++ [.deed true .gathered] ++ second.1 ++ [.outside] ++ [.deed true .gathered] ++ third.1

theorem crew_keepsTo (i : Bool) :
    (crew i).node.KeepsTo (HandlerCall.LeavesResult Rehearsal.task.oid) := by
  cases i with
  | true => exact pair_keepsTo true
  | false => exact pair_keepsTo false

theorem overlapping_run :
    Run (Scene.Step crew (World.LeavesResult Rehearsal.task.oid))
      (.begin crew Rehearsal.world) overlapping third.2 := by
  have first_run : Run (Scene.Step crew (World.LeavesResult Rehearsal.task.oid))
      (.begin crew Rehearsal.world) first.1 first.2 :=
    Scene.play_run _ _ fun f hf => by simp at hf
  have second_run : Run (Scene.Step crew (World.LeavesResult Rehearsal.task.oid))
      waiting second.1 second.2 :=
    Scene.play_run _ _ fun f hf => by simp at hf
  have third_run : Run (Scene.Step crew (World.LeavesResult Rehearsal.task.oid))
      gathered third.1 third.2 :=
    Scene.play_run _ _ fun f hf => by simp at hf
  have child : grown.world.store = second.2.world.store := by
    obtain ⟨w, hw⟩ : ∃ w, second.2.world.stepChild? ⟨0⟩ 0 = some w :=
      Option.isSome_iff_exists.mp (by decide +kernel)
    simp only [hw, Option.getD_some]
    exact World.stepChild?_store hw
  exact ((((first_run.snoc (gather_step (by decide +kernel))).append second_run).snoc
    (.outside (World.leavesResult_of_store child))).snoc
      (gather_step (by decide +kernel))).append third_run

end Succession

/-- The result of a late child overwrites that of the firing that took the task since. -/
theorem newest_result_lost :
    ∃ (crew : Bool → Occasion) (c : Scene Bool) (before after : List (Event Bool))
      (e : Event Bool) (result : OperationResult),
      (∀ i, (crew i).recovering = false ∧ (crew i).node.config.checkConcurrent) ∧
      (∀ i, (crew i).oid = Rehearsal.task.oid) ∧
      (∀ i, (crew i).node.KeepsTo (HandlerCall.LeavesResult Rehearsal.task.oid)) ∧
      Run (Scene.Step crew (World.LeavesResult Rehearsal.task.oid))
        (.begin crew Rehearsal.world) (before ++ e :: after) c ∧
      e.Takes (crew false) false ∧ (∀ e' ∈ after, ∀ j, ¬ e'.Takes (crew j) j) ∧
      (∀ i, c.hasEnded i) ∧ RecordsLast crew Rehearsal.task.oid true result after ∧
      (c.world.store.find? Rehearsal.task.oid).bind Task.result = some result := by
  let stored := (Succession.third.2.world.store.find? Rehearsal.task.oid).bind Task.result
  obtain ⟨e, split, taken⟩ := Succession.split_at
    (by decide +kernel : Succession.overlapping[31]?.any
      (Succession.takes (Succession.crew false) false))
  have hr := Succession.overlapping_run
  rw [split] at hr
  obtain ⟨e', split', hrec⟩ := Succession.split_at
    (by decide +kernel : (Succession.overlapping.drop 32)[19]?.any fun e =>
      stored.isSome ∧ Succession.recorded? (Succession.crew true) true e = stored)
  obtain ⟨hstored, hrec⟩ := of_decide_eq_true hrec
  obtain ⟨result, hresult⟩ := Option.isSome_iff_exists.mp hstored
  have untaken : (Succession.overlapping.drop 32).all fun e =>
      !Succession.takes (Succession.crew true) true e &&
        !Succession.takes (Succession.crew false) false e := by
    decide +kernel
  have quiet : ((Succession.overlapping.drop 32).drop 20).all fun e =>
      Succession.recorded? (Succession.crew true) true e = none &&
        Succession.recorded? (Succession.crew false) false e = none := by
    decide +kernel
  refine ⟨Succession.crew, _, _, _, e, result, by decide, by decide, Succession.crew_keepsTo, hr,
    Succession.takes_iff.mp taken, fun e he j ht => ?_, by decide +kernel,
    ⟨_, e', _, split', rfl, Succession.recorded?_iff.mp (hrec.trans hresult), ?_⟩, hresult⟩
  · have := List.all_eq_true.mp untaken e he
    cases j <;> simp [Succession.takes_iff.mpr ht] at this
  · intro e he j result _ hr
    have := List.all_eq_true.mp quiet e he
    cases j <;> simp [Succession.recorded?_iff.mpr hr] at this

end TaskFiring
