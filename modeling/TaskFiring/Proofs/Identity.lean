import TaskFiring.Proofs.Chronicle
import TaskFiring.Proofs.Itinerary
import TaskFiring.Proofs.Waiting

/-!
The identity that a handler runs as. A firing enters a scope of identity for its handler
and leaves it afterwards, but there is one identity for all firings: each scope that is
entered takes the identity over from whoever had it, and each one that is left clears it,
whoever has it. A handler runs as the owner of its task as long as nobody else does either.
-/

namespace TaskFiring

/-- What a call makes of the identity, if anything. -/
def Call.identity? : Call → Option (Option String)
  | .establish owner => some (some (Security.identityOf owner))
  | .clearIdentity => some none
  | _ => none

def Deed.identity? : Deed → Option (Option String)
  | .answered r _ => r.identity?
  | .gathered => none

def Event.identity? {ι : Type} : Event ι → Option (Option String)
  | .deed _ d => d.identity?
  | .outside => none

/-- What the last scope that was entered or left has made of the identity. -/
def lastIdentity? {ι : Type} (es : List (Event ι)) : Option (Option String) :=
  (es.filterMap Event.identity?).getLast?

/-- What a call tells the listeners. -/
def Call.news? : Call → Option ListenerEvent
  | .notifyStarted oid recovering => some (.started oid recovering)
  | .notifyFinished oid status => some (.finished oid status)
  | _ => none

theorem Call.IsIncidental.identity? {r : Call} (hr : r.IsIncidental) : r.identity? = none := by
  cases r with
  | establish | clearIdentity => cases hr
  | _ => rfl

namespace World

/-- The identity is left, and the listeners have heard nothing. -/
structure Aloof (w w' : World) : Prop where
  security : w'.security = w.security
  listener : w'.listener = w.listener

section

variable (owners : TaskOid → Option String)

/-- The tasks that are stored have these owners. -/
def Owned (w : World) : Prop := ∀ oid t, w.store.find? oid = some t → t.owner = owners oid

/-- From outside, nobody changes the identity, and no task changes hands. -/
structure KeepsOwners (w w' : World) : Prop where
  security : w'.security = w.security
  owned : w'.Owned owners

end

section

variable {w w' : World} {place : Place} {h : HandleId} {oid : TaskOid}
  {owners : TaskOid → Option String}

theorem OnlyRegisters.aloof (hw : w.OnlyRegisters w') : w.Aloof w' := by
  obtain ⟨_, rfl, -⟩ := hw
  exact ⟨rfl, rfl⟩

/-- Calls that neither enter nor leave a scope and tell the listeners nothing. -/
theorem Answers.aloof {r : Call} {a : r.Response} (ha : w.Answers place r a w')
    (hi : r.identity? = none) (hn : r.news? = none) : w.Aloof w' := by
  cases ha with
  | gathered _ | cut _ => exact ⟨rfl, rfl⟩
  | performed hp =>
      cases r with
      | collect => cases hp
      | establish | clearIdentity => cases hi
      | notifyStarted | notifyFinished => cases hn
      | register h => exact (onlyRegisters_register (Option.some.inj hp)).aloof
      | deregister h => exact (onlyRegisters_deregister (Option.some.inj hp)).aloof
      | handler h oid call =>
          obtain ⟨⟨b, w₁⟩, hb, hp⟩ := Option.map_eq_some_iff.mp hp
          obtain ⟨rfl, rfl⟩ := Prod.mk.inj hp
          obtain ⟨-, security, listener⟩ := performHandler_rest hb
          exact ⟨security, listener⟩
      | _ =>
          cases hp
          exact ⟨rfl, rfl⟩

/-- The identity is the one that the call makes of it. -/
theorem Answers.current {r : Call} {a : r.Response} (ha : w.Answers place r a w') :
    w'.security.current = r.identity?.getD w.security.current := by
  cases r with
  | establish | clearIdentity | notifyStarted | notifyFinished =>
      cases ha with
      | performed hp =>
          cases hp
          rfl
  | _ => exact congrArg Security.current (ha.aloof rfl rfl).security

/-- The listeners hear what the call tells them. -/
theorem Answers.listener {r : Call} {a : r.Response} (ha : w.Answers place r a w') :
    w'.listener = w.listener ++ r.news?.toList := by
  cases r with
  | establish | clearIdentity | notifyStarted | notifyFinished =>
      cases ha with
      | performed hp =>
          cases hp
          simp [Call.news?]
  | _ =>
      rw [(ha.aloof rfl rfl).listener]
      simp [Call.news?]

/-- A write leaves the owner. -/
theorem Owned.amends (hw : w.Owned owners) (ha : ∀ oid, w.Amends oid w') : w'.Owned owners := by
  intro oid t ht
  rcases ha oid with hs | hs | ⟨r, d, hr, hs⟩
  · exact hw oid t (hs ▸ ht)
  · cases hs.symm.trans ht
  · obtain rfl := Option.some.inj (hs.symm.trans ht)
    exact hw oid r hr

end

end World

namespace Itinerary

/-- A firing in the scope of its handler has entered it as the owner of the task, since it
has taken that, and has neither entered nor left one since. -/
theorem scope_of_path {f : Occasion} {ds : List Deed} {s : Leg} {h : HandleId} {t : Task}
    (hp : Path f ds s) (hs : s = .acting h t) :
    ∃ v ds₁ ds₂, ds = ds₁ ++ .answered (.establish t.owner) () :: ds₂ ∧
      Milestones.taking f v t ∈ ds₁ ∧ ∀ d ∈ ds₂, d.identity? = none := by
  induction hp with
  | nil => cases hs
  | @snoc s₁ s₂ ds d path step ih =>
      have on (hs : s₁ = .acting h t) (hd : d.identity? = none) :
          ∃ v ds₁ ds₂, ds ++ [d] = ds₁ ++ .answered (.establish t.owner) () :: ds₂ ∧
            Milestones.taking f v t ∈ ds₁ ∧ ∀ d ∈ ds₂, d.identity? = none := by
        obtain ⟨v, ds₁, ds₂, rfl, taken, quiet⟩ := ih hs
        refine ⟨v, ds₁, ds₂ ++ [d], by simp, taken, fun d' hd' => ?_⟩
        rcases List.mem_append.mp hd' with hd' | hd'
        · exact quiet d' hd'
        · rw [List.mem_singleton.mp hd', hd]
      cases step with
      | gathered => exact on hs rfl
      | answered hm =>
          cases hm with
          | rest hr => exact on hs hr.identity?
          | invoke | handler => exact on hs rfl
          | establish =>
              cases hs
              obtain ⟨v, taken⟩ := taking_of_path path rfl
              exact ⟨v, ds, [], rfl, taken, fun _ hd => absurd hd List.not_mem_nil⟩
          | _ => cases hs

end Itinerary

namespace Identity

section

variable {ι : Type} [DecidableEq ι] {crew : ι → Occasion} {w : World} {c c' : Scene ι}
  {es : List (Event ι)} {e : Event ι} {i : ι} {owners : TaskOid → Option String}

theorem current_of_step (he : c.Step crew (World.KeepsOwners owners) e c') :
    c'.world.security.current = e.identity?.getD c.world.security.current := by
  cases he with
  | outside ho => rw [ho.security]; rfl
  | @deed i _ _ _ ht =>
      generalize c.program i = p at ht
      cases ht with
      | answered ha => exact ha.current
      | gathered hg =>
          obtain ⟨f, -, rfl⟩ := hg.onHandle
          rfl

/-- The identity is what the last scope that was entered or left has made of it. -/
theorem current_of_run (hr : Run (Scene.Step crew (World.KeepsOwners owners)) c es c') :
    c'.world.security.current = (lastIdentity? es).getD c.world.security.current := by
  induction hr with
  | nil => rfl
  | snoc _ he ih =>
      rw [current_of_step he, ih, lastIdentity?, lastIdentity?, List.filterMap_append,
        List.getLast?_append]
      cases hi : Event.identity? _ with
      | none => simp [hi]
      | some x => simp [hi]

theorem owned_of_step (hw : c.world.Owned owners)
    (he : c.Step crew (World.KeepsOwners owners) e c') : c'.world.Owned owners := by
  cases he with
  | outside ho => exact ho.owned
  | @deed i _ _ _ ht =>
      generalize c.program i = p at ht
      cases ht with
      | answered ha => exact hw.amends fun _ => ha.amends
      | gathered hg =>
          obtain ⟨f, -, rfl⟩ := hg.onHandle
          exact hw

theorem owned_of_run (hw : c.world.Owned owners)
    (hr : Run (Scene.Step crew (World.KeepsOwners owners)) c es c') : c'.world.Owned owners := by
  induction hr with
  | nil => exact hw
  | snoc _ he ih => exact owned_of_step ih he

theorem owner_of_taken {v : UInt64} {t : Task} (hw : w.Owned owners)
    (hr : Run (Scene.Step crew (World.KeepsOwners owners)) (.begin crew w) es c)
    (ht : Milestones.taking (crew i) v t ∈ deedsOf i es) : t.owner = owners (crew i).oid := by
  obtain ⟨es₁, es₂, rfl⟩ := List.append_of_mem (mem_deedsOf.mp ht)
  obtain ⟨c₁, c₂, hr₁, he, -⟩ := hr.around
  have hw := owned_of_run (c := .begin crew w) hw (hr₁.snoc he)
  cases he with
  | deed hturn =>
      generalize c₁.program i = p at hturn
      cases hturn with
      | answered ha =>
          obtain ⟨-, -, -, -, ht⟩ := ha.replaced
          exact hw _ t ht

end

end Identity

/-- While the handler of a task runs, the identity is that of the owner of the task, or the
system's if it has none, if and only if no other scope has been entered or left since its
own was, or the last one of these was entered as the same. -/
theorem identity_iff_undisturbed {ι : Type} [DecidableEq ι] {crew : ι → Occasion} {w : World}
    {c : Scene ι} {es : List (Event ι)} {i : ι} {owners : TaskOid → Option String}
    (hw : w.Owned owners)
    (hr : Run (Scene.Step crew (World.KeepsOwners owners)) (.begin crew w) es c)
    (hi : c.InHandler i) :
    ∃ before after,
      es = before ++ .deed i (.answered (.establish (owners (crew i).oid)) ()) :: after ∧
      (∀ d ∈ deedsOf i after, d.identity? = none) ∧
      (c.world.security.current = some (Security.identityOf (owners (crew i).oid)) ↔
        ∀ x, lastIdentity? after = some x →
          x = some (Security.identityOf (owners (crew i).oid))) := by
  obtain ⟨h, oid, call, next, hp⟩ := hi
  obtain ⟨l, path, runs⟩ := Itinerary.path_of_run hr i
  rw [hp] at runs
  obtain ⟨_, hm, -⟩ := runs none trivial
  obtain ⟨t', hl⟩ : ∃ t, l = .acting h t := by
    cases hm with
    | rest hr => cases hr
    | handler => exact ⟨_, rfl⟩
  obtain ⟨v, ds₁, ds₂, hd, taken, quiet⟩ := Itinerary.scope_of_path path hl
  rw [Identity.owner_of_taken hw hr (by rw [hd]; exact List.mem_append_left _ taken)] at hd
  obtain ⟨before, after, rfl, -, rfl⟩ := exists_of_deedsOf hd
  refine ⟨before, after, rfl, quiet, ?_⟩
  -- what was made of the identity before its own scope does not matter
  rw [List.append_cons] at hr
  obtain ⟨c₁, hbefore, hafter⟩ := hr.split
  obtain ⟨c₀, -, he⟩ := hbefore.last
  have entered : c₁.world.security.current = some (Security.identityOf (owners (crew i).oid)) :=
    Identity.current_of_step he
  rw [Identity.current_of_run hafter, entered]
  cases lastIdentity? after <;> simp

namespace Identity

/-- Two tasks. -/
abbrev world : World :=
  let alices : Task := { Rehearsal.task with owner := some "alice" }
  let bobs : Task := { oid := ⟨2⟩, name := "u", handlerRef := "h", owner := some "bob" }
  { now := default, store := { tasks := (Table.empty.put alices).put bobs } }

/-- Each has an owner of its own. -/
def owners (oid : TaskOid) : Option String :=
  if oid = Rehearsal.task.oid then some "alice" else some "bob"

/-- A firing for each, whose handler waits. -/
abbrev crew (i : Bool) : Occasion :=
  let work : HandlerWork := .ask (.wait ⟨"gate", true⟩) fun _ => .done (.ok ⟨.finished, none⟩)
  let f := Rehearsal.occasion "a" work
  if i then f else { f with oid := ⟨2⟩ }

/-- The first firing gets to its handler, then the second one to its own. -/
abbrev played : List (Event Bool) × Scene Bool :=
  Scene.play crew (List.replicate 14 (.go true) ++ List.replicate 14 (.go false))
    (.begin crew world)

theorem world_owned : world.Owned owners := by
  intro oid t ht
  simp only [Store.find?, Table.find?_put, Table.find?_empty] at ht
  split at ht
  · next h =>
    cases ht
    subst h
    decide
  · split at ht
    · next h =>
      cases ht
      subst h
      decide
    · cases ht

theorem played_run : Run (Scene.Step crew (World.KeepsOwners owners)) (.begin crew world)
    played.1 played.2 :=
  Scene.play_run _ _ fun f hf => by simp at hf

theorem inHandler_played (i : Bool) : played.2.InHandler i :=
  Scene.inHandler_of_program (by cases i <;> decide +kernel)

/-- The first handler runs as the owner of the other task. -/
theorem current_played :
    played.2.world.security.current ≠ some (Security.identityOf (owners (crew true).oid)) := by
  have h : played.2.world.security.current = some "bob" := by decide +kernel
  rw [h]
  decide

end Identity

/-- There a scope has been entered since, and not as the owner of the first task. -/
theorem disturbed_of_played :
    ∃ before after, Identity.played.1
        = before ++ .deed true (.answered (.establish (some "alice")) ()) :: after ∧
      ∃ x, lastIdentity? after = some x ∧ x ≠ some "alice" := by
  obtain ⟨before, after, he, -, hiff⟩ := identity_iff_undisturbed Identity.world_owned
    Identity.played_run (Identity.inHandler_played true)
  have disturbed := mt hiff.mpr Identity.current_played
  simp only [not_forall] at disturbed
  obtain ⟨x, hx, hne⟩ := disturbed
  exact ⟨before, after, he, x, hx, hne⟩

/-- A handler runs as the owner of another task. -/
theorem not_always_own_identity :
    ∃ (crew : Bool → Occasion) (w : World) (owners : TaskOid → Option String)
      (es : List (Event Bool)) (c : Scene Bool),
      (crew true).oid ≠ (crew false).oid ∧ w.Owned owners ∧
      Run (Scene.Step crew (World.KeepsOwners owners)) (.begin crew w) es c ∧
      c.InHandler true ∧
      c.world.security.current ≠ some (Security.identityOf (owners (crew true).oid)) :=
  ⟨Identity.crew, Identity.world, Identity.owners, _, _, by decide, Identity.world_owned,
    Identity.played_run, Identity.inHandler_played true, Identity.current_played⟩

end TaskFiring
