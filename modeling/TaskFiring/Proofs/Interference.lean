import TaskFiring.Proofs.Passage
import TaskFiring.Proofs.Rehearsal

/-!
Parts of a firing by themselves, among others. Between two calls of a part the others may do
something, and a call may fail. A part that follows a protocol is then matched by the moves of
that protocol, with the same happenings and worlds; and while there is no further move to
make, the part is over and nobody comes in between any more.
-/

namespace TaskFiring

/-- What happens while a part of a firing is at work. -/
inductive Happening (ω : Type)
  /-- A call is answered as the world is. -/
  | served (d : Deed)
  /-- A call fails, and has no effect. -/
  | failed (d : Deed)
  /-- Others do something. -/
  | other (o : ω)

namespace Happening

variable {ω : Type}

/-- What the part itself does. -/
def deed? : Happening ω → Option Deed
  | .served d | .failed d => some d
  | .other _ => none

def other? : Happening ω → Option ω
  | .served _ | .failed _ => none
  | .other o => some o

def IsFailure : Happening ω → Prop
  | .failed _ => True
  | .served _ | .other _ => False

instance : DecidablePred (IsFailure (ω := ω))
  | .failed _ => .isTrue trivial
  | .served _ | .other _ => .isFalse id

/-- The record that the part has written. -/
def written? (x : Happening ω) : Option Task := x.deed?.bind Deed.written?

end Happening

theorem forall_mem_snoc {α : Type} {p : α → Prop} {xs : List α} {x : α} :
    (∀ y ∈ xs ++ [x], p y) ↔ (∀ y ∈ xs, p y) ∧ p x := by
  simp [or_imp, forall_and]

/-- The answers that say that a call has failed. -/
def Call.Fails : (r : Call) → r.Response → Prop
  | .get _, .error _ | .modify _ _ _, .error _ | .countRunning _ _, .error _
  | .unschedule _, .error _ | .deleteJob _, .error _ | .rescheduleLater _ _, .error _
  | .scheduleNow _, .error _ | .nextFireTime _, .error _ => True
  | _, _ => False

/-- A part goes on by one call, or others come before its next one. -/
inductive Program.Amid {α ω : Type} (place : Place) (others : World → ω → World → Prop) :
    Action α × World → Happening ω → Action α × World → Prop
  | served {r : Call} {next : r.Response → Action α} {a : r.Response} {w w' : World} :
      w.Answers place r a w' →
      Amid place others (.ask r next, w) (.served (.answered r a)) (next a, w')
  | failed {r : Call} {next : r.Response → Action α} {a : r.Response} {w : World} :
      r.Fails a → Amid place others (.ask r next, w) (.failed (.answered r a)) (next a, w)
  | other {r : Call} {next : r.Response → Action α} {o : ω} {w w' : World} :
      others w o w' → Amid place others (.ask r next, w) (.other o) (.ask r next, w')

/-- The moves of a protocol in a world, among others. -/
inductive Protocol.Amid {σ ω : Type} (P : Protocol Calls σ) (place : Place)
    (others : World → ω → World → Prop) : σ × World → Happening ω → σ × World → Prop
  | served {r : Call} {a : r.Response} {s s' : σ} {w w' : World} :
      w.Answers place r a w' → P s r a s' →
      Amid P place others (s, w) (.served (.answered r a)) (s', w')
  | failed {r : Call} {a : r.Response} {s s' : σ} {w : World} : r.Fails a → P s r a s' →
      Amid P place others (s, w) (.failed (.answered r a)) (s', w)
  | other {o : ω} {s : σ} {w w' : World} : (∃ r a s', P s r a s') → others w o w' →
      Amid P place others (s, w) (.other o) (s, w')

/-- Others turn the scheduling state of the task from the one into the other. -/
def World.Reschedules (oid : TaskOid) (w : World)
    (change : SchedulingState × SchedulingState) (w' : World) : Prop :=
  w'.store.available = w.store.available ∧
    ∃ r r', w.store.find? oid = some r ∧ r.scheduling = change.1 ∧
      w'.store.find? oid = some r' ∧ r'.scheduling = change.2

/-- Besides, they change nothing else about the task. -/
def World.OnlyReschedules (oid : TaskOid) (w : World)
    (change : SchedulingState × SchedulingState) (w' : World) : Prop :=
  w.Reschedules oid change w' ∧
    ∀ r r', w.store.find? oid = some r → w'.store.find? oid = some r' →
      r' = { r with scheduling := r'.scheduling, version := r'.version }

/-- An administrator sets the scheduling state of a task that is there. -/
def World.reschedule? (oid : TaskOid) (scheduling : SchedulingState) (w : World) :
    Option ((SchedulingState × SchedulingState) × World) :=
  match w.store.find? oid, w.store.modify oid { scheduling := some scheduling } .always with
  | some r, (.ok _, store) => some ((r.scheduling, scheduling), { w with store := store })
  | _, _ => none

theorem World.onlyReschedules_of_reschedule? {oid : TaskOid} {scheduling : SchedulingState}
    {w w' : World} {change : SchedulingState × SchedulingState}
    (h : w.reschedule? oid scheduling = some (change, w')) :
    w.OnlyReschedules oid change w' := by
  unfold reschedule? at h
  split at h
  · next r t store hr hm =>
    cases h
    obtain ⟨havailable, r₀, hr₀, -, rfl, hfind⟩ := Store.modify_ok hm
    obtain rfl : r₀ = r := Option.some.inj (hr₀.symm.trans hr)
    have hnew := (hfind oid).trans (if_pos rfl)
    refine ⟨⟨havailable, r₀, _, hr, rfl, hnew, rfl⟩, ?_⟩
    intro r r' hr hr'
    cases hr₀.symm.trans hr
    cases hnew.symm.trans hr'
    rfl
  · cases h

/-- Any answer may be given. -/
def Call.Anyhow (r : Call) (_ : r.Response) : Prop := True

section

variable {α σ ω : Type} {P : Protocol Calls σ} {Q : σ → α → Prop} {place : Place}
  {others : World → ω → World → Prop} {s s' : σ} {p p' : Action α} {w w' : World}
  {xs : List (Happening ω)}

/-- What is left of the part follows the protocol from where that is, in the same world. -/
def Program.ShownBy (P : Protocol Calls σ) (Q : σ → α → Prop) (c : Action α × World)
    (m : σ × World) : Prop :=
  m.2 = c.2 ∧ c.1.Follows Call.Anyhow P m.1 Q

theorem Program.amid_shown {c c' : Action α × World} {m : σ × World} {x : Happening ω}
    (hm : Program.ShownBy P Q c m) (hx : Program.Amid place others c x c') :
    ∃ m', P.Amid place others m x m' ∧ Program.ShownBy P Q c' m' := by
  obtain ⟨s, w⟩ := m
  obtain ⟨rfl, hf⟩ := hm
  cases hx with
  | @served r next a w w' ha =>
      obtain ⟨s', hmove, hnext⟩ := hf a trivial
      exact ⟨(s', w'), .served ha hmove, rfl, hnext⟩
  | @failed r next a w hfails =>
      obtain ⟨s', hmove, hnext⟩ := hf a trivial
      exact ⟨(s', w), .failed hfails hmove, rfl, hnext⟩
  | @other r next o w w' ho =>
      -- the part asks for something, so the protocol has a move
      obtain ⟨a⟩ := r.nonempty_response
      obtain ⟨s', hmove, -⟩ := hf a trivial
      exact ⟨(s, w'), .other ⟨r, a, s', hmove⟩ ho, rfl, hf⟩

/-- A run of a part that follows a protocol is a run of the protocol. -/
theorem Program.Follows.amid (hp : p.Follows Call.Anyhow P s Q)
    (hr : Run (Program.Amid place others) (p, w) xs (p', w')) :
    ∃ s', Run (P.Amid place others) (s, w) xs (s', w') ∧ p'.Follows Call.Anyhow P s' Q := by
  have start : Program.ShownBy P Q (p, w) (s, w) := ⟨rfl, hp⟩
  obtain ⟨⟨s', w₁⟩, hrun, rfl, hfollows⟩ :=
    hr.simulate (fun _ _ _ _ => Program.amid_shown) start
  exact ⟨s', hrun, hfollows⟩

/-- What comes next: the call is answered at once, or others do what they can. -/
inductive Turnout (ω : Type)
  | serve
  | change (f : World → Option (ω × World))

namespace Program

/-- What happens next, if that can come next. -/
def turnout? (place : Place) : Action α × World → Turnout ω →
    Option (Happening ω × Action α × World)
  | (.done _, _), _ => none
  | (.ask r next, w), .serve =>
      (w.answer? place r).map fun (a, w) => (.served (.answered r a), next a, w)
  | (.ask r next, w), .change f => (f w).map fun (o, w) => (.other o, .ask r next, w)

abbrev playAmid (place : Place) :
    List (Turnout ω) → Action α × World → List (Happening ω) × Action α × World :=
  rehearse (turnout? place)

theorem amid_of_turnout? {c c' : Action α × World} {t : Turnout ω} {x : Happening ω}
    (hf : ∀ f, t = .change f → ∀ w o w', f w = some (o, w') → others w o w')
    (h : turnout? place c t = some (x, c')) : Amid place others c x c' := by
  obtain ⟨p, w⟩ := c
  cases p with
  | done a => cases h
  | ask r next =>
      cases t with
      | serve =>
          obtain ⟨⟨a, w'⟩, ha, h⟩ := Option.map_eq_some_iff.mp h
          cases h
          exact .served (World.answers_of_answer? ha)
      | change f =>
          obtain ⟨⟨o, w'⟩, ho, h⟩ := Option.map_eq_some_iff.mp h
          cases h
          exact .other (hf f rfl _ _ _ ho)

/-- What is played is a run, if the others do only what they may. -/
theorem playAmid_run (ts : List (Turnout ω)) (c : Action α × World)
    (hf : ∀ f, .change f ∈ ts → ∀ w o w', f w = some (o, w') → others w o w') :
    Run (Amid place others) c (playAmid place ts c).1 (playAmid place ts c).2 :=
  run_rehearse ts c fun _ ht _ _ _ => amid_of_turnout? fun f hchange => hf f (hchange ▸ ht)

/-- What others do in a run that is played, by its name. -/
theorem playAmid_change {c : Action α × World} {f : World → Option (ω × World)} {o : ω}
    (hgoes : c.1.isOver = false) (ho : (f c.2).map Prod.fst = some o) :
    (playAmid place [.change f] c).1 = [.other o] := by
  obtain ⟨p, w⟩ := c
  obtain ⟨⟨o, w'⟩, hf, rfl⟩ := Option.map_eq_some_iff.mp ho
  cases p with
  | done a => cases hgoes
  | ask r next =>
      have hf : f w = some (o, w') := hf
      simp [playAmid, rehearse, turnout?, hf]

/-- A run that is played around something that others do. -/
theorem playAmid_around (ts ts' : List (Turnout ω)) (c : Action α × World)
    (hf : ∀ f, .change f ∈ ts ++ ts' → ∀ w o w', f w = some (o, w') → others w o w')
    {f : World → Option (ω × World)} (hchange : ∀ w o w', f w = some (o, w') → others w o w')
    {o : ω} (hgoes : (playAmid place ts c).2.1.isOver = false)
    (ho : (f (playAmid place ts c).2.2).map Prod.fst = some o) :
    Run (Amid place others) c
      ((playAmid place ts c).1 ++
        .other o :: (playAmid place ts' (playAmid place [.change f] (playAmid place ts c).2).2).1)
      (playAmid place ts' (playAmid place [.change f] (playAmid place ts c).2).2).2 := by
  have first : Run (Amid place others) c (playAmid place ts c).1 (playAmid place ts c).2 :=
    playAmid_run ts c fun f hmem => hf f (List.mem_append_left _ hmem)
  have between : Run (Amid place others) (playAmid place ts c).2 [.other o]
      (playAmid place [.change f] (playAmid place ts c).2).2 := by
    rw [← playAmid_change hgoes ho]
    apply playAmid_run
    intro g hg
    cases List.mem_singleton.mp hg
    exact hchange
  refine first.append (between.append ?_)
  exact playAmid_run ts' _ fun f hmem => hf f (List.mem_append_right _ hmem)

end Program

end

end TaskFiring
