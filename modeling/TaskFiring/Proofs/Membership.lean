import Mathlib.Data.Set.Card
import TaskFiring.Proofs.Hierarchy
import TaskFiring.Proofs.Reliance

/-!
Which groups a task belongs to. A firing finds the root of its task by a walk that asks for
one parent after the other; the store finds it by a walk through its own records when it
counts. Both stop at the same task, whatever the parents are, so the groups in which a
running task counts for others are those that its own admission goes through.
-/

namespace TaskFiring

namespace Program

variable {α β : Type} {place : Place} {w w' : World}

theorem reaches_done_iff {a b : α} :
    (Program.done a : Action α).Reaches place w (.done b) w' ↔ b = a ∧ w' = w := by
  constructor
  · rintro ⟨_ | ⟨d, ds⟩, h⟩
    · cases h.eq_of_nil
      exact ⟨rfl, rfl⟩
    · obtain ⟨⟨p₁, w₁⟩, ht, -⟩ := h.first
      have ht : Turn place (.done a) w d p₁ w₁ := ht
      cases ht
  · rintro ⟨rfl, rfl⟩
    exact .refl _ _

/-- A program goes on with the answer to its call, if that is one that is answered at once. -/
theorem reaches_ask_iff {r : Call} {a : r.Response} {w₁ : World}
    {next : r.Response → Action α} {b : α} (ha : w.perform place r = some (a, w₁))
    (hr : r.IsPrompt) :
    (Program.ask r next : Action α).Reaches place w (.done b) w' ↔
      (next a).Reaches place w₁ (.done b) w' := by
  constructor
  · rintro ⟨_ | ⟨d, ds⟩, h⟩
    · cases h.eq_of_nil
    · obtain ⟨⟨p₁, w₂⟩, ht, rest⟩ := h.first
      have ht : Turn place (.ask r next) w d p₁ w₂ := ht
      cases ht with
      | answered ha' =>
          cases ha' with
          | performed hp =>
              cases ha.symm.trans hp
              exact ⟨ds, rest⟩
          | gathered _ => cases ha
          | cut _ => exact hr.elim
      | gathered _ => cases ha
  · exact fun h => .ask (.performed ha) h

/-- A program in two parts ends where the second ends that starts from the end of the
first. -/
theorem reaches_bind_iff {p : Action α} {f : α → Action β} {b : β} :
    (p.bind f).Reaches place w (.done b) w' ↔
      ∃ a w₁, p.Reaches place w (.done a) w₁ ∧ (f a).Reaches place w₁ (.done b) w' := by
  constructor
  · rintro ⟨ds, h⟩
    -- along the deeds: as long as the first part asks, it is the one that takes the turn
    induction ds generalizing p w with
    | nil =>
        cases p with
        | done a => exact ⟨a, w, .refl _ _, [], h⟩
        | ask r next => cases h.eq_of_nil
    | cons d ds ih =>
        cases p with
        | done a => exact ⟨a, w, .refl _ _, d :: ds, h⟩
        | ask r next =>
            obtain ⟨⟨p₁, w₁⟩, ht, rest⟩ := h.first
            have ht : Turn place (.ask r fun answer => (next answer).bind f) w d p₁ w₁ := ht
            cases ht with
            | answered ha =>
                obtain ⟨a, w₁, hp, hf⟩ := ih rest
                exact ⟨a, w₁, .ask ha hp, hf⟩
            | @gathered _ _ result' _ closed' _ batch' _ _ w₂ hg =>
                obtain ⟨a, w₁, hp, hf⟩ :=
                  ih (p := .ask (.collect _ result' closed' batch') next) rest
                exact ⟨a, w₁, .trans ⟨[.gathered], .snoc .nil (.gathered hg)⟩ hp, hf⟩
  · rintro ⟨a, w₁, hp, hf⟩
    exact hp.bind hf

/-- The program ends, and this is how and in which world. -/
def Yields (place : Place) (p : Action α) (w : World) (a : α) (w₁ : World) : Prop :=
  ∀ b w', p.Reaches place w (.done b) w' ↔ b = a ∧ w' = w₁

theorem yields_done (a : α) : Yields place (.done a) w a w := fun _ _ => reaches_done_iff

/-- The call is answered at once, and the rest goes on from there. -/
theorem Yields.ask {r : Call} {a₀ : r.Response} {w₀ w₁ : World}
    {next : r.Response → Action α} {a : α} (ha : w.perform place r = some (a₀, w₀))
    (hr : r.IsPrompt) (h : Yields place (next a₀) w₀ a w₁) :
    Yields place (.ask r next) w a w₁ :=
  fun b w' => (reaches_ask_iff ha hr).trans (h b w')

theorem Yields.bind {p : Action α} {f : α → Action β} {a : α} {b : β} {w₁ w₂ : World}
    (hp : Yields place p w a w₁) (hf : Yields place (f a) w₁ b w₂) :
    Yields place (p.bind f) w b w₂ := by
  intro b' w'
  rw [reaches_bind_iff, ← hf b' w']
  constructor
  · rintro ⟨a', w₁', hp', hf'⟩
    obtain ⟨rfl, rfl⟩ := (hp a' w₁').mp hp'
    exact hf'
  · exact fun hf' => ⟨a, w₁, (hp a w₁).mpr ⟨rfl, rfl⟩, hf'⟩

/-- A call in a part that may fail. -/
theorem Yields.query {ε : Type} {r : Call} {a : r.Response} {w₀ w₁ : World}
    {f : r.Response → ExceptT ε (Program Calls) β} {b : Except ε β}
    (ha : w.perform place r = some (a, w₀)) (hr : r.IsPrompt)
    (h : Yields place (f a).run w₀ b w₁) :
    Yields place ((liftM (call r) : ExceptT ε (Program Calls) _) >>= f).run w b w₁ :=
  Yields.ask ha hr h

theorem Yields.attempt {ε : Type} {x : ExceptT ε (Program Calls) α}
    {f : α → ExceptT ε (Program Calls) β} {a : α} {b : Except ε β} {w₁ w₂ : World}
    (hx : Yields place x.run w (.ok a) w₁) (hf : Yields place (f a).run w₁ b w₂) :
    Yields place (x >>= f).run w b w₂ :=
  Yields.bind (f := ExceptT.bindCont f) hx hf

/-- A part that cannot fail, in one that can. -/
theorem Yields.lift {ε : Type} {x : Action α} {f : α → ExceptT ε (Program Calls) β} {a : α}
    {b : Except ε β} {w₁ w₂ : World} (hx : Yields place x w a w₁)
    (hf : Yields place (f a).run w₁ b w₂) :
    Yields place ((liftM x : ExceptT ε (Program Calls) α) >>= f).run w b w₂ :=
  Yields.attempt (hx.bind (yields_done _)) hf

/-- Running alone, a program gets to a call and leaves such a world. -/
def Asks (place : Place) (p : Action α) (w : World) (r : Call) (w' : World) : Prop :=
  ∃ next, p.Reaches place w (.ask r next) w'

theorem asks_self (r : Call) (next : r.Response → Action α) :
    Asks place (.ask r next : Action α) w r w :=
  ⟨next, .refl _ _⟩

theorem Asks.after {p p' : Action α} {r : Call} {w'' : World} (h : p.Reaches place w p' w')
    (h' : Asks place p' w' r w'') : Asks place p w r w'' := by
  obtain ⟨next, hr⟩ := h'
  exact ⟨next, h.trans hr⟩

theorem Asks.first {p : Action α} {f : α → Action β} {r : Call} (h : Asks place p w r w') :
    Asks place (p.bind f) w r w' := by
  obtain ⟨next, hr⟩ := h
  exact ⟨_, hr.first⟩

theorem Asks.attempt {x : Step α} {f : α → Step β} {r : Call} (h : Asks place x.run w r w') :
    Asks place (x >>= f).run w r w' :=
  h.first

/-- The second of two parts gets to its call where the first has ended. -/
theorem Asks.second {x : Step α} {f : α → Step β} {a : α} {r : Call} {w'' : World}
    (h : x.run.Reaches place w (.done (.ok a)) w') (h' : Asks place (f a).run w' r w'') :
    Asks place (x >>= f).run w r w'' :=
  Asks.after h.first h'

end Program

namespace Membership

open Program (Reaches Yields Asks Only)
open Preparation (Snapshot)

variable {α β : Type} {place : Place} {w w' : World} {t : Task} {config : Config}
  {cs : Option Constraints} {g : String}

/-! How a firing loads its task. -/

theorem get_of_missing {oid : TaskOid} (available : w.store.available)
    (h : w.store.find? oid = none) : w.store.get oid = .error (.notFound oid) := by
  simp [Store.get, available, h]

/-- The walk of a firing up the hierarchy ends at the same task as that of the store. -/
theorem ancestor_yields (place : Place) (available : w.store.available) (oid : TaskOid)
    (room : Nat) (visited : List TaskOid) (top : Option Task) (t : Task) :
    ∃ root, root.getD t = w.store.topmost room visited (top.getD t) ∧
      Yields place (Preparation.ancestor oid room visited top (top.getD t).parent).run w
        (.ok root) w := by
  induction room generalizing visited top with
  | zero => exact ⟨top, rfl, Program.yields_done _⟩
  | succ room ih =>
      unfold Store.topmost
      cases hp : (top.getD t).parent with
      | none => exact ⟨top, rfl, Program.yields_done _⟩
      | some parent =>
          by_cases hv : parent ∈ visited
          · simp only [hv, if_true]
            rw [Course.ancestor_visited hv]
            exact ⟨top, rfl, Program.yields_done _⟩
          · simp only [hv, if_false]
            rw [Course.ancestor_unvisited hv]
            cases hf : w.store.find? parent with
            | none =>
                refine ⟨top, rfl, Yields.query rfl trivial ?_⟩
                rw [get_of_missing available hf]
                exact Program.yields_done _
            | some p =>
                obtain ⟨root, hroot, hy⟩ := ih (parent :: visited) (some p)
                refine ⟨root, hroot, Yields.query rfl trivial ?_⟩
                rw [Store.get_of_find? available hf]
                exact hy

/-- What a firing is to load, by the store. -/
def snapshot (s : Store) (t : Task) : Snapshot where
  task := t
  rootOid := (s.topmost (maxHierarchyDepth - 1) [t.oid] t).oid
  constraints := s.effectiveConstraints t

theorem load_yields (place : Place) (available : w.store.available)
    (found : w.store.find? t.oid = some t) :
    Yields place (Preparation.load t.oid).run w (.ok (snapshot w.store t)) w := by
  obtain ⟨root, hroot, hy⟩ :=
    ancestor_yields place available t.oid (maxHierarchyDepth - 1) [t.oid] none t
  have hroot : root.getD t = w.store.topmost (maxHierarchyDepth - 1) [t.oid] t := hroot
  unfold Preparation.load
  refine Yields.query rfl trivial ?_
  rw [Store.get_of_find? available found]
  refine Yields.attempt hy ?_
  have same : snapshot w.store t =
      { task := t
        rootOid := (root.map Task.oid).getD t.oid
        constraints := t.constraints.or (root.bind Task.constraints) } := by
    unfold snapshot
    rw [Store.effectiveConstraints_eq_or, ← hroot]
    cases root with
    | some p => rfl
    | none => simp
  rw [same]
  exact Program.yields_done _

/-! Which groups its admission goes through. -/

/-- The admission of a task, once loaded, goes through a group. -/
def GoesThrough (place : Place) (w : World) (oid : TaskOid) (g : String) : Prop :=
  ∃ s : Snapshot, (Preparation.load oid).run.Reaches place w (.done (.ok s)) w ∧
    ∃ cs, s.constraints = some cs ∧ ∃ c ∈ cs.groups, c.group = g

/-- The admission of a task, once loaded, asks how many others run in a group. -/
def Consults (place : Place) (config : Config) (w : World) (oid : TaskOid) (g : String) : Prop :=
  ∃ s : Snapshot, (Preparation.load oid).run.Reaches place w (.done (.ok s)) w ∧
    ∃ w', Asks place (Admission.enforce config s.task s.constraints).run w
      (.countRunning g oid) w'

theorem countRunning_of_available (available : w.store.available) (g : String)
    (oid : TaskOid) : w.store.countRunning g oid = .ok (w.store.others g oid) :=
  if_pos available

/-- Each listed group with a limit is asked for. -/
theorem saturated_asks {gs : List GroupConstraint} {c : GroupConstraint} {oid : TaskOid}
    (available : w.store.available) (hc : c ∈ gs)
    (hl : (Admission.limitFor config c).isSome) :
    Asks place (Admission.saturated config oid gs).run w (.countRunning c.group oid) w := by
  induction gs with
  | nil => cases hc
  | cons d gs ih =>
      unfold Admission.saturated
      rcases List.mem_cons.mp hc with rfl | hc
      · obtain ⟨n, hn⟩ := Option.isSome_iff_exists.mp hl
        rw [hn]
        exact ⟨_, .refl _ _⟩
      · cases Admission.limitFor config d with
        | none => exact ih hc
        | some n =>
            refine Asks.after (Reaches.ask (.performed rfl) (.refl _ _)) ?_
            rw [countRunning_of_available available]
            exact Asks.attempt (ih hc)

theorem enforce_asks {c : GroupConstraint} {constraints : Constraints}
    (available : w.store.available) (hc : c ∈ constraints.groups)
    (hl : (Admission.limitFor config c).isSome) :
    Asks place (Admission.enforce config t (some constraints)).run w
      (.countRunning c.group t.oid) w :=
  Asks.attempt (Asks.attempt (saturated_asks available hc hl))

/-- Of all counts only such are asked for. -/
def CountsOnly (P : String → TaskOid → Prop) : Call → Prop
  | .countRunning g oid => P g oid
  | _ => True

theorem saturated_counts (config : Config) (oid : TaskOid) (gs : List GroupConstraint) :
    (Admission.saturated config oid gs).run.Only (CountsOnly fun g oid' => oid' = oid ∧
      ∃ c ∈ gs, c.group = g ∧ (Admission.limitFor config c).isSome) := by
  induction gs with
  | nil => trivial
  | cons c gs ih =>
      have rest : (Admission.saturated config oid gs).run.Only (CountsOnly fun g oid' =>
          oid' = oid ∧ ∃ d ∈ c :: gs, d.group = g ∧ (Admission.limitFor config d).isSome) := by
        refine ih.mono fun r hr => ?_
        cases r with
        | countRunning g oid' =>
            obtain ⟨ho, d, hd, hg⟩ := hr
            exact ⟨ho, d, List.mem_cons_of_mem _ hd, hg⟩
        | _ => trivial
      unfold Admission.saturated
      cases hl : Admission.limitFor config c with
      | none => exact rest
      | some n =>
          refine Only.attempt ⟨⟨rfl, c, by simp, rfl, by simp [hl]⟩, fun _ => trivial⟩ fun _ => ?_
          refine Only.attempt rest fun _ => ?_
          split <;> trivial

theorem enforce_counts (config : Config) (t : Task) (cs : Option Constraints) :
    (Admission.enforce config t cs).run.Only (CountsOnly fun g oid => oid = t.oid ∧
      ∃ constraints, cs = some constraints ∧ ∃ c ∈ constraints.groups, c.group = g ∧
        (Admission.limitFor config c).isSome) := by
  have check : (Admission.check config t cs).run.Only (CountsOnly fun g oid => oid = t.oid ∧
      ∃ constraints, cs = some constraints ∧ ∃ c ∈ constraints.groups, c.group = g ∧
        (Admission.limitFor config c).isSome) := by
    unfold Admission.check
    cases cs with
    | none => trivial
    | some constraints =>
        refine Only.attempt ((saturated_counts config t.oid constraints.groups).mono ?_)
          fun full => ?_
        · intro r hr
          cases r with
          | countRunning g oid => exact ⟨hr.1, constraints, rfl, hr.2⟩
          | _ => trivial
        · split
          · trivial
          · refine Only.lift ⟨trivial, fun _ => trivial⟩ fun now => ?_
            refine Only.lift ?_ fun next => ?_
            · unfold Admission.naturalRefire?
              split
              · trivial
              · refine Only.bind ⟨trivial, fun _ => trivial⟩ fun answer => ?_
                split <;> trivial
            · split <;> trivial
  unfold Admission.enforce
  refine Only.attempt check fun decision => ?_
  split
  · trivial
  · split
    · exact Only.attempt ⟨trivial, fun _ => trivial⟩ fun _ => trivial
    · trivial

theorem counts_of_turn {p p' : Action α} {d : Deed} {P : String → TaskOid → Prop}
    (ht : p.Turn place w d p' w') (hp : p.Only (CountsOnly P)) : p'.Only (CountsOnly P) := by
  cases ht with
  | answered _ => exact hp.2 _
  | gathered _ => exact ⟨trivial, hp.2⟩

/-- A program that runs alone asks for no other counts than it may. -/
theorem counts_of_asks {p : Action α} {P : String → TaskOid → Prop} {oid : TaskOid}
    (hp : p.Only (CountsOnly P)) (h : Asks place p w (.countRunning g oid) w') : P g oid := by
  obtain ⟨next, ds, h⟩ := h
  have kept : ∀ {ds q}, Run (Program.Alone place) (p, w) ds q → q.1.Only (CountsOnly P) := by
    intro ds q hq
    induction hq with
    | nil => exact hp
    | snoc _ ht ih => exact counts_of_turn ht ih
  exact (kept h).1

section

variable (available : w.store.available) (found : w.store.find? t.oid = some t)
include available found

theorem goesThrough_iff : GoesThrough place w t.oid g ↔
    (w.store.effectiveConstraints t).any (·.containsGroup g) := by
  have loads := load_yields place available found
  rw [Option.any_eq_true]
  constructor
  · rintro ⟨s, hs, cs, hcs, c, hc, hg⟩
    cases ((loads _ _).mp hs).1
    exact ⟨cs, hcs, List.any_eq_true.mpr ⟨c, hc, decide_eq_true hg⟩⟩
  · rintro ⟨cs, hcs, hg⟩
    obtain ⟨c, hc, hg⟩ := List.any_eq_true.mp hg
    exact ⟨snapshot w.store t, (loads _ _).mpr ⟨rfl, rfl⟩, cs, hcs, c, hc, of_decide_eq_true hg⟩

theorem consults_iff : Consults place config w t.oid g ↔
    ∃ cs, w.store.effectiveConstraints t = some cs ∧
      ∃ c ∈ cs.groups, c.group = g ∧ (Admission.limitFor config c).isSome := by
  have loads := load_yields place available found
  constructor
  · rintro ⟨s, hs, w', asks⟩
    cases ((loads _ _).mp hs).1
    exact (counts_of_asks (enforce_counts config _ _) asks).2
  · rintro ⟨cs, hcs, c, hc, rfl, hl⟩
    refine ⟨snapshot w.store t, (loads _ _).mpr ⟨rfl, rfl⟩, w, ?_⟩
    change Asks place (Admission.enforce config t (w.store.effectiveConstraints t)).run w _ w
    rw [hcs]
    exact enforce_asks available hc hl

end

/-- The tasks that are counted are those that run and whose admission goes through the
group. -/
theorem others_eq_ncard (available : w.store.available) (place : Place) (g : String)
    (other : TaskOid) : w.store.others g other = Set.ncard {oid | oid ≠ other ∧
      ∃ u, w.store.find? oid = some u ∧ u.execution = .running ∧
        GoesThrough place w oid g} := by
  rw [Store.others, ← Table.length_keysOf,
    ← List.toFinset_card_of_nodup (Table.nodup_keysOf _ _), ← Set.ncard_coe_finset]
  congr 1
  ext oid
  simp only [List.coe_toFinset, Set.mem_ofPred_eq, Table.mem_keysOf]
  constructor
  · rintro ⟨u, hu, hp⟩
    cases Store.oid_of_find? hu
    simp only [Store.runsInGroup, Bool.and_eq_true, decide_eq_true_eq] at hp
    exact ⟨hp.1, u, hu, hp.2.1, (goesThrough_iff available hu).mpr hp.2.2⟩
  · rintro ⟨hne, u, hu, hrun, hg⟩
    cases Store.oid_of_find? hu
    refine ⟨u, hu, ?_⟩
    simp only [Store.runsInGroup, Bool.and_eq_true, decide_eq_true_eq]
    exact ⟨hne, hrun, (goesThrough_iff available hu).mp hg⟩

end Membership

/-- A firing loads a task with the constraints that the store has in effect for it, whatever
the parents are: itself, each other, missing, or more than are followed. So a running task
is counted for others in exactly the groups that its own admission goes through, and of
these its admission asks for those that have a limit. -/
theorem counted_where_admitted {place : Place} {w : World} {t : Task}
    (available : w.store.available) (found : w.store.find? t.oid = some t) :
    (∀ r w', (Preparation.load t.oid).run.Reaches place w (.done r) w' ↔
      r = .ok
        { task := t
          rootOid := (w.store.topmost (maxHierarchyDepth - 1) [t.oid] t).oid
          constraints := w.store.effectiveConstraints t } ∧ w' = w) ∧
    (∀ g, w.store.runsInGroup g t ↔
      t.execution = .running ∧ Membership.GoesThrough place w t.oid g) ∧
    (∀ g other, w.store.countRunning g other = .ok (Set.ncard {oid | oid ≠ other ∧
      ∃ u, w.store.find? oid = some u ∧ u.execution = .running ∧
        Membership.GoesThrough place w oid g})) ∧
    ∀ config g, Membership.Consults place config w t.oid g ↔
      ∃ cs, w.store.effectiveConstraints t = some cs ∧
        ∃ c ∈ cs.groups, c.group = g ∧ (Admission.limitFor config c).isSome := by
  refine ⟨Membership.load_yields place available found, fun g => ?_, fun g other => ?_,
    fun config g => Membership.consults_iff available found⟩
  · rw [Membership.goesThrough_iff available found, Store.runsInGroup, Bool.and_eq_true,
      decide_eq_true_eq]
  · rw [Membership.countRunning_of_available available,
      Membership.others_eq_ncard available place]

namespace Membership

def child : Task :=
  { oid := ⟨1⟩, name := "t", handlerRef := "h", parent := some ⟨2⟩, execution := .running }

/-- A running task whose parent has it for a parent in turn, and a task that is its own
parent. -/
def looped : World where
  now := default
  store :=
    { tasks := Table.ofList
        [child,
          { oid := ⟨2⟩, name := "p", handlerRef := "h", parent := some ⟨1⟩,
            constraints := some { groups := [⟨"g", none⟩], retryAfter := none } },
          { oid := ⟨3⟩, name := "s", handlerRef := "h", parent := some ⟨3⟩ }] }

end Membership

/-- The running task of the loop goes through the group of its parent. -/
theorem admitted_through_loop :
    Membership.GoesThrough .aside Membership.looped Membership.child.oid "g" := by
  have runs : Membership.looped.store.runsInGroup "g" Membership.child := by decide +kernel
  have found : Membership.looped.store.find? Membership.child.oid = some Membership.child := by
    decide +kernel
  obtain ⟨-, counts, -, -⟩ := counted_where_admitted rfl found
  exact ((counts "g").mp runs).2

end TaskFiring
