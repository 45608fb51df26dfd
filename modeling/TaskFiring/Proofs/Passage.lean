import TaskFiring.Proofs.Interleaving

/-!
Ways through a program. What a firing does in a run, taken by itself, is a way through its
program; the deeds on it tell how far the program is. A part that does not make some call
is passed before that call is answered.
-/

namespace TaskFiring

/-- A program goes on by one deed, in whatever world. -/
inductive Program.Passes {α : Type} : Action α → Deed → Action α → Prop
  | answered {r : Call} {next : r.Response → Action α} {a : r.Response} :
      Passes (.ask r next) (.answered r a) (next a)
  | gathered {h : HandleId} {result result' : OperationResult} {closed closed' : Nat}
      {batch batch' : List Nat} {next : OperationResult × Nat → Action α} :
      Passes (.ask (.collect h result closed batch) next) .gathered
        (.ask (.collect h result' closed' batch') next)

/-- The deeds lead through the program. -/
abbrev Program.Way {α : Type} (p : Action α) (ds : List Deed) (q : Action α) : Prop :=
  Run Passes p ds q

def Call.IsCollect : Call → Prop
  | .collect _ _ _ _ => True
  | _ => False

/-- There is always some answer that a call may get. -/
theorem Call.nonempty_response (r : Call) : Nonempty r.Response := by
  cases r with
  | get | modify => exact ⟨.error .unavailable⟩
  | newHandle => exact ⟨⟨0⟩⟩
  | spawn => exact ⟨⟨0⟩⟩
  | collect h result closed => exact ⟨result, closed⟩
  | _ => exact ⟨default⟩

/-- A kind of calls that does not depend on how far a wait for children is. -/
def Call.Steady (kind : Call → Prop) : Prop :=
  ∀ h result closed batch result' closed' batch',
    kind (.collect h result closed batch) → kind (.collect h result' closed' batch')

/-- The deed answers a call of that kind, or is part of a wait for children of that kind. -/
def Deed.Serves (kind : Call → Prop) : Deed → Prop
  | .answered r _ => kind r
  | .gathered => ∃ h result closed batch, kind (.collect h result closed batch)

/-- No wait for children comes to its end. -/
def NoneCollected (ds : List Deed) : Prop :=
  ∀ (r : Call) (a : r.Response), .answered r a ∈ ds → ¬ r.IsCollect

namespace Program

variable {α β : Type} {p q : Action α} {ds : List Deed} {d : Deed}

theorem Turn.passes {place : Place} {w w' : World} (h : p.Turn place w d q w') :
    p.Passes d q := by
  cases h with
  | answered _ => exact .answered
  | gathered _ => exact .gathered

theorem Way.cons {d : Deed} {p' : Action α} (hp : p.Passes d p') (h : p'.Way ds q) :
    p.Way (d :: ds) q :=
  Run.cons hp h

/-- A call other than a wait for children is answered by one deed. -/
theorem Way.next {r : Call} {next : r.Response → Action α} (hr : ¬ r.IsCollect)
    (h : (.ask r next : Action α).Way (d :: ds) q) :
    ∃ a, d = .answered r a ∧ (next a).Way ds q := by
  obtain ⟨_, hd, hrest⟩ := Run.first h
  cases hd with
  | answered => exact ⟨_, rfl, hrest⟩
  | gathered => exact absurd trivial hr

/-- A program does only what its calls are. -/
theorem Only.along {kind : Call → Prop} (hk : Call.Steady kind) (hp : p.Only kind)
    (h : p.Way ds q) : (∀ d ∈ ds, d.Serves kind) ∧ q.Only kind := by
  induction h with
  | nil => exact ⟨fun _ h => absurd h List.not_mem_nil, hp⟩
  | snoc _ hd ih =>
      obtain ⟨hds, hq⟩ := ih
      cases hd with
      | answered =>
          refine ⟨fun d hd => ?_, hq.2 _⟩
          rcases List.mem_append.mp hd with hd | hd
          · exact hds d hd
          · obtain rfl := List.mem_singleton.mp hd
            exact hq.1
      | gathered =>
          refine ⟨fun d hd => ?_, hk _ _ _ _ _ _ _ hq.1, hq.2⟩
          rcases List.mem_append.mp hd with hd | hd
          · exact hds d hd
          · obtain rfl := List.mem_singleton.mp hd
            exact ⟨_, _, _, _, hq.1⟩

/-- What a program gives at its end, it gives from any point on a way through it. -/
theorem Meets.along {Q : Unit → α → Prop} (hp : p.Meets Demand.free () Q) (h : p.Way ds q) :
    q.Meets Demand.free () Q := by
  induction h with
  | nil => exact hp
  | snoc _ hd ih =>
      cases hd with
      | answered => exact ih _
      | gathered => exact ih

/-- The first of two parts is passed before a call is answered that it does not make. -/
theorem Way.past {kind : Call → Prop} {f : α → Action β} {q : Action β}
    (hk : Call.Steady kind) (hp : p.Only kind) {r : Call} {a : r.Response} (hr : ¬ kind r)
    (h : (p.bind f).Way (ds ++ [.answered r a]) q) :
    ∃ ds₁ ds₂ b, ds = ds₁ ++ ds₂ ∧ p.Way ds₁ (.done b) ∧
      (f b).Way (ds₂ ++ [.answered r a]) q := by
  induction ds generalizing p with
  | nil =>
      cases p with
      | done b => exact ⟨[], [], b, rfl, .nil, h⟩
      | ask r' next =>
          obtain ⟨_, hd, -⟩ := Run.first h
          cases hd with
          | answered => exact absurd hp.1 hr
  | cons d ds ih =>
      cases p with
      | done b => exact ⟨[], d :: ds, b, rfl, .nil, h⟩
      | ask r' next =>
          obtain ⟨_, hd, hrest⟩ := Run.first h
          cases hd with
          | @answered _ _ a' =>
              obtain ⟨ds₁, ds₂, b, rfl, hway, hf⟩ := ih (hp.2 a') hrest
              exact ⟨_ :: ds₁, ds₂, b, rfl, hway.cons .answered, hf⟩
          | @gathered k _ result' _ closed' _ batch' =>
              have hp' : (.ask (.collect k result' closed' batch') next : Action α).Only kind :=
                ⟨hk _ _ _ _ _ _ _ hp.1, hp.2⟩
              obtain ⟨ds₁, ds₂, b, rfl, hway, hf⟩ := ih hp' hrest
              exact ⟨_ :: ds₁, ds₂, b, rfl, hway.cons .gathered, hf⟩

/-- On a way into a whole, its first part goes on, or has ended. -/
theorem Way.part {f : α → Action β} {q : Action β} (h : (p.bind f).Way ds q) :
    (∃ p', p.Way ds p' ∧ q = p'.bind f) ∨
      ∃ ds₁ ds₂ a, ds = ds₁ ++ ds₂ ∧ p.Way ds₁ (.done a) ∧ (f a).Way ds₂ q := by
  induction ds generalizing p with
  | nil => exact .inl ⟨p, .nil, h.eq_of_nil⟩
  | cons d ds ih =>
      cases p with
      | done a => exact .inr ⟨[], d :: ds, a, rfl, .nil, h⟩
      | ask r next =>
          obtain ⟨p', hd, hrest⟩ : ∃ p', (Program.ask r next : Action α).Passes d p' ∧
              (p'.bind f).Way ds q := by
            obtain ⟨_, hd, hrest⟩ := Run.first h
            cases hd with
            | answered => exact ⟨_, .answered, hrest⟩
            | gathered => exact ⟨_, .gathered, hrest⟩
          rcases ih hrest with ⟨p'', hway, hq⟩ | ⟨ds₁, ds₂, a, rfl, hway, hf⟩
          · exact .inl ⟨p'', hway.cons hd, hq⟩
          · exact .inr ⟨d :: ds₁, ds₂, a, rfl, hway.cons hd, hf⟩

/-- A way to the end of a whole goes through the end of its first part. -/
theorem Way.through {f : α → Action β} {b : β} (h : (p.bind f).Way ds (.done b)) :
    ∃ ds₁ ds₂ a, ds = ds₁ ++ ds₂ ∧ p.Way ds₁ (.done a) ∧ (f a).Way ds₂ (.done b) := by
  rcases h.part with ⟨p', hway, hq⟩ | h
  · cases p' with
    | done a => exact ⟨ds, [], a, by simp, hway, by rw [hq]; exact .nil⟩
    | ask r next => cases hq
  · exact h

/-- A wait for children, up to its end. -/
theorem Way.collected {h : HandleId} {result : OperationResult} {closed : Nat}
    {batch : List Nat} {next : OperationResult × Nat → Action α}
    {r : Call} {a : r.Response} (hn : NoneCollected ds)
    (hw : (Program.ask (.collect h result closed batch) next : Action α).Way
      (ds ++ [.answered r a]) q) :
    (∀ d ∈ ds, d = .gathered) ∧ ∃ answer, q = next answer := by
  induction ds generalizing result closed batch with
  | nil =>
      obtain ⟨_, hd, hrest⟩ := Run.first hw
      cases hd with
      | answered => exact ⟨fun _ h => absurd h List.not_mem_nil, _, hrest.eq_of_nil⟩
  | cons d ds ih =>
      obtain ⟨_, hd, hrest⟩ := Run.first hw
      cases hd with
      | answered => exact absurd trivial (hn _ _ List.mem_cons_self)
      | gathered =>
          obtain ⟨hds, hq⟩ := ih (fun r a hd => hn r a (List.mem_cons_of_mem _ hd)) hrest
          exact ⟨List.forall_mem_cons.mpr ⟨rfl, hds⟩, hq⟩

end Program

/-- A deed is a move from one state of affairs to another, or part of a wait for children. -/
inductive Protocol.Passes {σ : Type} (P : Protocol Calls σ) : σ → Deed → σ → Prop
  | answered {s s' : σ} {r : Call} {a : r.Response} : P s r a s' → Passes P s (.answered r a) s'
  | gathered {s : σ} : Passes P s .gathered s

/-- What the firing does in an event. -/
def Event.deed? {ι : Type} [DecidableEq ι] (i : ι) : Event ι → Option Deed
  | .deed j d => if j = i then some d else none
  | .outside => none

/-- What the firing does in a run. -/
def deedsOf {ι : Type} [DecidableEq ι] (i : ι) (es : List (Event ι)) : List Deed :=
  es.filterMap (Event.deed? i)

section

variable {ι : Type} [DecidableEq ι] {crew : ι → Occasion} {outside : World → World → Prop}
  {c c' : Scene ι} {es : List (Event ι)}

@[simp] theorem deedsOf_append (i : ι) (es es' : List (Event ι)) :
    deedsOf i (es ++ es') = deedsOf i es ++ deedsOf i es' :=
  List.filterMap_append

@[simp] theorem deedsOf_own (i : ι) (d : Deed) (es : List (Event ι)) :
    deedsOf i (.deed i d :: es) = d :: deedsOf i es :=
  List.filterMap_cons_some (if_pos rfl)

@[simp] theorem deedsOf_other {i j : ι} (hj : j ≠ i) (d : Deed) (es : List (Event ι)) :
    deedsOf i (.deed j d :: es) = deedsOf i es :=
  List.filterMap_cons_none (if_neg hj)

@[simp] theorem deedsOf_outside (i : ι) (es : List (Event ι)) :
    deedsOf i (.outside :: es) = deedsOf i es :=
  List.filterMap_cons_none rfl

@[simp] theorem deedsOf_nil (i : ι) : deedsOf i [] = [] := rfl

theorem Event.deed?_eq_some {i : ι} {e : Event ι} {d : Deed} :
    e.deed? i = some d ↔ e = .deed i d := by
  cases e with
  | outside => simp [deed?]
  | deed j d' =>
      by_cases hj : j = i
      · simp [deed?, hj]
      · simp [deed?, hj]

theorem mem_deedsOf {i : ι} {d : Deed} : d ∈ deedsOf i es ↔ .deed i d ∈ es := by
  simp [deedsOf, Event.deed?_eq_some]

/-- A deed of the firing in a run. -/
theorem exists_of_deedsOf {i : ι} {ds ds' : List Deed} {d : Deed}
    (h : deedsOf i es = ds ++ d :: ds') :
    ∃ before after, es = before ++ .deed i d :: after ∧ deedsOf i before = ds ∧
      deedsOf i after = ds' := by
  obtain ⟨before, rest, rfl, hb, h⟩ := List.filterMap_eq_append_iff.mp h
  obtain ⟨idle, e, after, rfl, hi, he, ha⟩ := List.filterMap_eq_cons_iff.mp h
  obtain rfl := Event.deed?_eq_some.mp he
  refine ⟨before ++ idle, after, by simp, ?_, ha⟩
  rw [deedsOf_append, deedsOf, deedsOf, hb, List.filterMap_eq_nil_iff.mpr hi, List.append_nil]

theorem mem_deedsOf_snoc {i : ι} {d : Deed} {e : Event ι} :
    d ∈ deedsOf i (es ++ [e]) ↔ d ∈ deedsOf i es ∨ e = .deed i d := by
  simp [mem_deedsOf, eq_comm]

theorem deedsOf_snoc (i : ι) (d : Deed) (es : List (Event ι)) :
    deedsOf i (es ++ [.deed i d]) = deedsOf i es ++ [d] := by
  rw [deedsOf_append, deedsOf_own, deedsOf_nil]

/-- What others do adds nothing. -/
theorem deedsOf_snoc_other {i : ι} {e : Event ι} (he : ∀ d, e ≠ .deed i d) :
    deedsOf i (es ++ [e]) = deedsOf i es := by
  cases e with
  | outside => simp
  | deed j d =>
      have hj : j ≠ i := by
        rintro rfl
        exact he d rfl
      simp [hj]

/-- In a run, each firing goes its way. -/
theorem Scene.way_of_run (hr : Run (Scene.Step crew outside) c es c') (i : ι) :
    (c.program i).Way (deedsOf i es) (c'.program i) := by
  induction hr with
  | nil => exact .nil
  | snoc _ he ih =>
      rw [deedsOf_append]
      cases he with
      | outside _ => simpa using ih
      | @deed j _ _ _ ht =>
          by_cases hj : j = i
          · subst hj
            simpa using ih.snoc ht.passes
          · simpa [hj, Ne.symm hj] using ih

end

end TaskFiring
