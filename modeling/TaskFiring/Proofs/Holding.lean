import TaskFiring.Proofs.Registration

/-!
Taking a task and letting go of it, as events of a run and as phases of a firing. A
firing holds its task from the write that takes it; it is registered all that time, and
once it has let go it never holds the task again.
-/

namespace TaskFiring

section

variable {ι : Type}

/-- The firing has its task written as running on its node. -/
def Event.Takes (f : Occasion) (i : ι) (e : Event ι) : Prop :=
  ∃ v t, e = .deed i (.answered
    (.modify f.oid (Possession.runningDelta f.nodeId) (.version v)) (.ok t))

/-- The firing writes its task in order to let go of it. -/
def Event.LetsGo (f : Occasion) (i : ι) (e : Event ι) : Prop :=
  ∃ read p t, e = .deed i (.answered
    (.modify f.oid (Possession.settlingDelta read) p) (.ok t))

/-- The firing has taken its task and not let go of it since. -/
def Possesses (f : Occasion) (i : ι) (es : List (Event ι)) : Prop :=
  ∃ before e after, es = before ++ e :: after ∧ e.Takes f i ∧ ∀ e' ∈ after, ¬ e'.LetsGo f i

theorem possesses_snoc {f : Occasion} {i : ι} {es : List (Event ι)} {e : Event ι}
    (h : Possesses f i (es ++ [e])) :
    e.Takes f i ∨ Possesses f i es ∧ ¬ e.LetsGo f i := by
  obtain ⟨before, e₀, after, hes, ht, hn⟩ := h
  rcases List.eq_nil_or_concat after with rfl | ⟨after, e', rfl⟩
  · obtain ⟨-, he⟩ := List.append_inj' hes rfl
    rw [List.cons.inj he |>.1]
    exact .inl ht
  · rw [List.concat_eq_append, ← List.cons_append, ← List.append_assoc] at hes
    obtain ⟨rfl, he⟩ := List.append_inj' hes rfl
    rw [List.cons.inj he |>.1]
    refine .inr ⟨⟨before, e₀, after, rfl, ht, fun e hm => hn e (by simp [hm])⟩, ?_⟩
    exact hn e' (by simp)

theorem Possesses.append {f : Occasion} {i : ι} {es : List (Event ι)} {e : Event ι}
    (h : Possesses f i es) (hl : ¬ e.LetsGo f i) : Possesses f i (es ++ [e]) := by
  obtain ⟨before, e₀, after, rfl, ht, hn⟩ := h
  refine ⟨before, e₀, after ++ [e], by simp, ht, fun e' he => ?_⟩
  rcases List.mem_append.mp he with he | he
  · exact hn e' he
  · obtain rfl := List.mem_singleton.mp he
    exact hl

end

namespace Phase

/-- The firing has taken the task and not let go of it. -/
def Holds : Phase → Prop
  | .busy (.held _) _ => True
  | _ => False

theorem Holds.busy {tenure : Tenure} {e e' : Errand} (h : (Phase.busy tenure e).Holds) :
    (Phase.busy tenure e').Holds := by
  cases tenure <;> exact h

theorem Holds.entered {p : Phase} (h : p.Holds) : p.Entered := by
  cases p with
  | busy tenure e =>
      cases tenure with
      | held _ => trivial
      | refused | ended _ => cases h
  | _ => cases h

/-- The firing is done with its task. -/
def Left : Phase → Prop
  | .busy (.ended _) _ | .gone => True
  | _ => False

theorem Left.not_holds {p : Phase} (h : p.Left) : ¬ p.Holds := by
  cases p with
  | busy tenure e =>
      cases tenure with
      | ended _ => exact id
      | refused | held _ => cases h
  | _ => exact id

section

variable {f : Occasion} {allowed : HandlerCall → Prop} {q p : Phase} {r : Call} {a : r.Response}

/-- A firing comes to hold its task by the write that takes it. -/
theorem holds_of_move (hm : Move f allowed q r a p) (hp : p.Holds) :
    q.Holds ∨ ∃ v t, Deed.answered r a = .answered
      (.modify f.oid (Possession.runningDelta f.nodeId) (.version v)) (.ok t) := by
  cases hm with
  | aside _ | invoke | handler _ | record | readToSettle | notSettled => exact .inl hp
  | decide | readToClose | readToSuspend | forget | close | suspend | wake =>
      exact .inl hp.busy
  | enter => split at hp <;> cases hp
  | start => exact .inr ⟨_, _, rfl⟩
  | _ => cases hp

/-- A firing that holds its task goes on to hold it or is done with it. -/
theorem holds_or_left_of_move (hm : Move f allowed q r a p) (hq : q.Holds) :
    p.Holds ∨ p.Left := by
  cases hm with
  | aside _ | invoke | handler _ | readToSettle | notSettled => exact .inl hq
  | decide | readToClose | readToSuspend | forget | close | suspend | wake | record =>
      exact .inl hq.busy
  | giveUp | settle _ | neverSettled => exact .inr trivial
  | _ => cases hq

theorem left_of_move (hm : Move f allowed q r a p) (hq : q.Left) : p.Left := by
  cases hm with
  | aside _ => exact hq
  | deregister => trivial
  | @decide tenure | @readToClose tenure | @readToSuspend tenure | @forget tenure
  | @close tenure | @suspend tenure | @wake tenure | @record tenure =>
      cases tenure with
      | ended _ => trivial
      | refused | held _ => cases hq
  | _ => cases hq

/-- The handler of a firing is called while it holds its task. -/
theorem holds_of_invoke {h : HandleId} {b : Bool} (hm : Move f allowed q (.isInterrupted h) b p) :
    q.Holds ∧ p.Holds := by
  cases hm with
  | aside hr => cases hr
  | invoke => exact ⟨trivial, trivial⟩

theorem holds_of_handler {h : HandleId} {oid : TaskOid} {call : HandlerCall}
    {b : Option call.Response} (hm : Move f allowed q (.handler h oid call) b p) :
    q.Holds ∧ p.Holds := by
  cases hm with
  | aside hr => cases hr
  | handler _ => exact ⟨trivial, trivial⟩

end

end Phase

namespace Stage

section

variable {ι : Type} [DecidableEq ι] {crew : ι → Occasion} {allowed : HandlerCall → Prop}
  {outside : World → World → Prop} {s s' : Stage ι} {es : List (Event ι)} {e : Event ι}
  {i : ι}

/-- A firing takes its task when it is registered, by the version of its copy, and then
holds it. -/
theorem registered_of_takes (he : s.Step crew allowed outside e s')
    (ht : e.Takes (crew i) i) :
    ∃ t r h p, s.phase i = .registered t h ∧ s.world.store.find? (crew i).oid = some r ∧
      Store.violation? r (.version t.version) = none ∧ p.Holds ∧
      s'.phase = Function.update s.phase i p := by
  obtain ⟨v, t, rfl⟩ := ht
  cases he with
  | answered ha hm =>
      generalize s.phase i = q at hm
      generalize hd : Possession.runningDelta (crew i).nodeId = d at hm
      generalize hv : Precondition.version v = c at hm
      cases hm with
      | aside hr => cases hr
      | repair => cases congrArg TaskDelta.node hd
      | start =>
          cases hv
          obtain ⟨-, r, hf, hc, -, -⟩ := Store.modify_ok ha.modify.2
          exact ⟨_, r, _, .busy (.held _) .none, rfl, hf, hc, trivial, rfl⟩
      | close | suspend | wake | record => cases hv
      | settle hp => rcases hp with rfl | rfl <;> cases hv

theorem holds_of_takes (he : s.Step crew allowed outside e s') (ht : e.Takes (crew i) i) :
    (s'.phase i).Holds := by
  obtain ⟨t, r, h, p, -, -, -, hp, hs⟩ := registered_of_takes he ht
  simpa [hs] using hp

/-- A firing that lets go of its task does not hold it any more. -/
theorem not_holds_of_letsGo (he : s.Step crew allowed outside e s')
    (hl : e.LetsGo (crew i) i) : ¬ (s'.phase i).Holds := by
  obtain ⟨read, c, t, rfl⟩ := hl
  cases he with
  | answered ha hm =>
      simp only [Function.update_self]
      generalize s.phase i = q at hm
      generalize hd : Possession.settlingDelta read = d at hm
      cases hm with
      | aside hr => cases hr
      | repair | settle => exact id
      | start | close | suspend | wake | record => cases congrArg TaskDelta.node hd

/-- What a firing's own moves keep of its phase, every step keeps. -/
theorem phase_of_step {P : Phase → Prop} (he : s.Step crew allowed outside e s')
    (hs : ∀ r a p, e = .deed i (.answered r a) →
      Phase.Move (crew i) allowed (s.phase i) r a p → P p) (hp : P (s.phase i)) :
    P (s'.phase i) := by
  cases he with
  | gathered _ | outside _ => exact hp
  | @answered j r a p w ha hm =>
      by_cases hj : i = j
      · subst hj
        simpa using hs r a p rfl hm
      · simpa [hj] using hp

/-- A firing that is in such a phase was so before, or the step has brought it there. -/
theorem phase_or_of_step {P : Phase → Prop} {Q : Event ι → Prop}
    (hs : ∀ q r a p, Phase.Move (crew i) allowed q r a p → P p →
      P q ∨ Q (.deed i (.answered r a)))
    (he : s.Step crew allowed outside e s') (hp : P (s'.phase i)) : P (s.phase i) ∨ Q e := by
  by_contra hn
  obtain ⟨hq, hQ⟩ := not_or.mp hn
  refine phase_of_step (P := fun p => ¬ P p) he ?_ hq hp
  rintro r a p rfl hm hp
  exact hn (hs _ _ _ _ hm hp)

theorem phase_or_of_run {P : Phase → Prop} {Q : Event ι → Prop}
    (hs : ∀ q r a p, Phase.Move (crew i) allowed q r a p → P p →
      P q ∨ Q (.deed i (.answered r a)))
    (hr : Run (Stage.Step crew allowed outside) s es s') (hp : P (s'.phase i)) :
    P (s.phase i) ∨ ∃ e ∈ es, Q e := by
  induction hr with
  | nil => exact .inl hp
  | snoc _ he ih =>
      rcases phase_or_of_step hs he hp with hp | hQ
      · exact (ih hp).imp id fun ⟨e, hm, hQ⟩ => ⟨e, List.mem_append_left _ hm, hQ⟩
      · exact .inr ⟨_, by simp, hQ⟩

omit [DecidableEq ι] in
theorem holds_or_takes_of_move {q p : Phase} {r : Call} {a : r.Response}
    (hm : Phase.Move (crew i) allowed q r a p) (hp : p.Holds) :
    q.Holds ∨ (Event.deed i (.answered r a)).Takes (crew i) i := by
  refine (Phase.holds_of_move hm hp).imp id ?_
  rintro ⟨v, t, hd⟩
  exact ⟨v, t, by rw [hd]⟩

/-- Whoever holds a task has taken it. -/
theorem takes_of_holds {w : World}
    (hr : Run (Stage.Step crew allowed outside) (Stage.begin w) es s)
    (hh : (s.phase i).Holds) : ∃ e ∈ es, e.Takes (crew i) i :=
  (phase_or_of_run (fun _ _ _ _ => holds_or_takes_of_move) hr hh).resolve_left id

/-- And it has not let go of it since. -/
theorem possesses_of_holds {w : World}
    (hr : Run (Stage.Step crew allowed outside) (Stage.begin w) es s)
    (hh : (s.phase i).Holds) : Possesses (crew i) i es := by
  induction hr with
  | nil => cases hh
  | @snoc s s' es e _ he ih =>
      rcases phase_or_of_step (Q := fun e => e.Takes (crew i) i)
        (fun _ _ _ _ => holds_or_takes_of_move) he hh with held | ht
      · exact (ih held).append fun hl => not_holds_of_letsGo he hl hh
      · exact ⟨es, e, [], rfl, ht, fun _ h => absurd h List.not_mem_nil⟩

/-- Whoever holds a task in the end has held it ever since it did once. -/
theorem holds_or_left_of_run (hr : Run (Stage.Step crew allowed outside) s es s')
    (hh : (s.phase i).Holds) : (s'.phase i).Holds ∨ (s'.phase i).Left := by
  induction hr with
  | nil => exact .inl hh
  | snoc _ he ih =>
      refine phase_of_step (P := fun p => p.Holds ∨ p.Left) he (fun r a p _ hm => ?_) ih
      rcases ih with ih | ih
      · exact Phase.holds_or_left_of_move hm ih
      · exact .inr (Phase.left_of_move hm ih)

theorem left_of_run (hr : Run (Stage.Step crew allowed outside) s es s')
    (hl : (s.phase i).Left) : (s'.phase i).Left := by
  induction hr with
  | nil => exact hl
  | snoc _ he ih =>
      exact phase_of_step he (fun r a p _ hm => Phase.left_of_move hm ih) ih

end

end Stage
end TaskFiring
