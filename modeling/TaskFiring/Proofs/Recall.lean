import TaskFiring.Proofs.FiringView
import TaskFiring.Proofs.Intervention

/-!
What interruptions do to the children of one handle. Any number of interruptions go on at the
same time; each takes the leave to run from the handle and then, as a step of its own, cancels
the children. In between and afterwards children are spawned, taken by the waiter and closed.
A child spawned before the leave is taken is there to be cancelled, and one spawned later does
not get it. So once an interruption is over, no child that is not closed has it.
-/

namespace TaskFiring

/-- A child in the one state may be in the other one later. -/
inductive ChildState.Leads : ChildState → ChildState → Prop
  | stay {s : ChildState} : Leads s s
  | cancel : Leads .running .cancelled
  | finish : Leads .running .closed
  | close : Leads .cancelled .closed

namespace ChildState

variable {s s' s'' : ChildState}

theorem Leads.trans (h : s.Leads s') (h' : s'.Leads s'') : s.Leads s'' := by
  cases h with
  | stay => exact h'
  | cancel =>
      cases h' with
      | stay => exact .cancel
      | close => exact .finish
  | finish => cases h'; exact .finish
  | close => cases h'; exact .close

theorem Leads.running (h : s.Leads .running) : s = .running := by
  cases h
  rfl

theorem leads_closed : ∀ s : ChildState, s.Leads .closed
  | .running => .finish
  | .cancelled => .close
  | .closed => .stay

theorem Leads.closed (h : ChildState.closed.Leads s) : s = .closed := by
  cases h
  rfl

end ChildState

namespace Child

/-- The child is further in its course. It does not get back its leave to run, and is not
cancelled without losing it. -/
structure Ages (c c' : Child) : Prop where
  id : c'.id = c.id
  state : c.state.Leads c'.state
  stopped : c.canRun = false → c'.canRun = false
  cancelled : c'.state = .cancelled → c.state = .cancelled ∨ c'.canRun = false

/-- To those who interrupt it and wait for it, the child is the same. -/
structure Alike (c c' : Child) : Prop where
  id : c'.id = c.id
  state : c'.state = c.state
  canRun : c'.canRun = c.canRun

variable {c c' c'' : Child}

theorem Alike.refl (c : Child) : c.Alike c := ⟨rfl, rfl, rfl⟩

theorem Alike.ages (h : c.Alike c') : c.Ages c' where
  id := h.id
  state := by
    rw [h.state]
    exact .stay
  stopped := fun hc => h.canRun.trans hc
  cancelled := fun hs => .inl (h.state.symm.trans hs)

theorem Ages.refl (c : Child) : c.Ages c := (Alike.refl c).ages

theorem Ages.trans (h : c.Ages c') (h' : c'.Ages c'') : c.Ages c'' where
  id := h'.id.trans h.id
  state := h.state.trans h'.state
  stopped := h'.stopped ∘ h.stopped
  cancelled := fun hs => by
    rcases h'.cancelled hs with hs | hc
    · exact (h.cancelled hs).imp_right h'.stopped
    · exact .inr hc

/-- The child goes on without being cancelled. -/
structure Spared (c c' : Child) : Prop extends c.Ages c' where
  spared : c'.state = .cancelled → c.state = .cancelled

theorem Alike.spared (h : c.Alike c') : c.Spared c' :=
  ⟨h.ages, fun hs => h.state.symm.trans hs⟩

theorem ages_cancel (abort : Bool) (c : Child) : c.Ages (c.cancel abort) := by
  unfold cancel
  split
  · next h => exact ⟨rfl, h ▸ .cancel, fun _ => rfl, fun _ => .inr rfl⟩
  · exact .refl c

theorem spared_close (c : Child) : c.Spared { c with state := .closed } :=
  ⟨⟨rfl, ChildState.leads_closed _, fun h => h, nofun⟩, nofun⟩

end Child

namespace Recall

open Interruption
open Program (Only)

/-! Changes of a handle. -/

/-- Those who ran before and are cancelled after, in the order in which they were spawned. -/
def cancelledIn : List Child → List Child → List ChildId
  | c :: cs, c' :: cs' =>
      if c.state = .running ∧ c'.state = .cancelled then c.id :: cancelledIn cs cs'
      else cancelledIn cs cs'
  | _, _ => []

/-- The children that there were are further in their course; new ones have no leave to run
that the handle has not, and have lost it if they were cancelled since. -/
structure Ages (x x' : Handle) : Prop where
  stopped : x.canRun = false → x'.canRun = false
  children : ∀ (k : Nat) c, x.children[k]? = some c →
    ∃ c', x'.children[k]? = some c' ∧ c.Ages c'
  spawned : ∀ (k : Nat) c', x'.children[k]? = some c' → x.children[k]? = none →
    x.canRun = false ∨ c'.state = .cancelled → c'.canRun = false

/-- No child that is not closed has the leave to run, nor does a new one get it. -/
structure Swept (x : Handle) : Prop where
  handle : x.canRun = false
  children : ∀ c ∈ x.children, c.state ≠ .closed → c.canRun = false

/-- Identifiers are distinct, and who is cancelled has no leave to run. -/
structure Sound (x : Handle) : Prop where
  distinct : (x.children.map Child.id).Nodup
  halted : ∀ c ∈ x.children, c.state = .cancelled → c.canRun = false

section

variable {x x' x'' : Handle} {cs cs' : List Child} {c : Child} {abort : Bool} {id : ChildId}
  {spec : ChildSpec}

theorem forall₂_refl {R : Child → Child → Prop} (hR : ∀ c, R c c) (cs : List Child) :
    List.Forall₂ R cs cs :=
  List.forall₂_same.mpr fun c _ => hR c

theorem forall₂_spared (cs : List Child) : List.Forall₂ Child.Spared cs cs :=
  forall₂_refl (fun c => (Child.Alike.refl c).spared) cs

/-- Where no children are spawned there are no new ones. -/
theorem not_new_of_forall₂ {R : Child → Child → Prop} (h : List.Forall₂ R cs cs') {k : Nat}
    (hk : cs'[k]? = some c) (hn : cs[k]? = none) : False := by
  have := (List.getElem?_eq_some_iff.mp hk).1
  have := List.getElem?_eq_none_iff.mp hn
  have := h.length_eq
  omega

theorem ages_of_forall₂ (hr : x.canRun = false → x'.canRun = false)
    (hc : List.Forall₂ Child.Ages x.children x'.children) : Ages x x' where
  stopped := hr
  children := fun k c hk => by
    obtain ⟨hlt, rfl⟩ := List.getElem?_eq_some_iff.mp hk
    have hlt' : k < x'.children.length := hc.length_eq ▸ hlt
    exact ⟨_, List.getElem?_eq_getElem hlt', hc.get hlt hlt'⟩
  spawned := fun k c' hk hn => (not_new_of_forall₂ hc hk hn).elim

theorem Ages.refl (x : Handle) : Ages x x :=
  ages_of_forall₂ (fun h => h) (forall₂_refl Child.Ages.refl x.children)

theorem Ages.trans (h : Ages x x') (h' : Ages x' x'') : Ages x x'' where
  stopped := h'.stopped ∘ h.stopped
  children := fun k c hk => by
    obtain ⟨c', hk', hc⟩ := h.children k c hk
    obtain ⟨c'', hk'', hc'⟩ := h'.children k c' hk'
    exact ⟨c'', hk'', hc.trans hc'⟩
  spawned := fun k c'' hk'' hn hs => by
    cases hk' : x'.children[k]? with
    | none => exact h'.spawned k c'' hk'' hk' (hs.imp_left h.stopped)
    | some c' =>
        obtain ⟨_, hk, hc⟩ := h'.children k c' hk'
        cases hk''.symm.trans hk
        rcases hs with hx | hs
        · exact hc.stopped (h.spawned k c' hk' hn (.inl hx))
        · rcases hc.cancelled hs with hs | hc
          · exact hc.stopped (h.spawned k c' hk' hn (.inr hs))
          · exact hc

/-- A child was there before, or it is new. -/
theorem Ages.origin (h : Ages x x') (hc : c ∈ x'.children) :
    (∃ c₀ ∈ x.children, c₀.Ages c) ∨
      (x.canRun = false ∨ c.state = .cancelled → c.canRun = false) := by
  obtain ⟨k, hk⟩ := List.mem_iff_getElem?.mp hc
  cases hk₀ : x.children[k]? with
  | none => exact .inr (h.spawned k c hk hk₀)
  | some c₀ =>
      obtain ⟨_, hk', ages⟩ := h.children k c₀ hk₀
      cases hk.symm.trans hk'
      exact .inl ⟨c₀, List.mem_of_getElem? hk₀, ages⟩

theorem Ages.swept (h : Ages x x') (hs : Swept x) : Swept x' where
  handle := h.stopped hs.handle
  children := fun c hc hn => by
    rcases h.origin hc with ⟨c₀, hc₀, ages⟩ | new
    · refine ages.stopped (hs.children c₀ hc₀ fun closed => hn ?_)
      exact (closed ▸ ages.state).closed
    · exact new (.inl hs.handle)

theorem Ages.sound (h : Ages x x') (hs : Sound x) (hd : (x'.children.map Child.id).Nodup) :
    Sound x' where
  distinct := hd
  halted := fun c hc hcancelled => by
    rcases h.origin hc with ⟨c₀, hc₀, ages⟩ | new
    · rcases ages.cancelled hcancelled with before | stopped
      · exact ages.stopped (hs.halted c₀ hc₀ before)
      · exact stopped
    · exact new (.inr hcancelled)

theorem map_id_of_ages (h : List.Forall₂ Child.Ages cs cs') :
    cs'.map Child.id = cs.map Child.id := by
  induction h with
  | nil => rfl
  | cons hc _ ih => rw [List.map_cons, List.map_cons, hc.id, ih]

theorem forall₂_modify {R : Child → Child → Prop} (hR : ∀ c, R c c) {f : Child → Child}
    (hf : ∀ c, R c (f c)) (cs : List Child) (i : Nat) : List.Forall₂ R cs (cs.modify i f) := by
  induction cs generalizing i with
  | nil =>
      rw [List.modify_nil]
      exact .nil
  | cons c cs ih =>
      cases i with
      | zero => exact .cons (hf c) (forall₂_refl hR cs)
      | succ i => exact .cons (hR c) (ih i)

/-- Nobody is cancelled where those who are spared are followed by new ones. -/
theorem cancelledIn_eq_nil (h : List.Forall₂ Child.Spared cs cs') (new : List Child) :
    cancelledIn cs (cs' ++ new) = [] := by
  induction h with
  | nil => rfl
  | cons hc _ ih =>
      rw [List.cons_append, cancelledIn, if_neg, ih]
      rintro ⟨running, hcancelled⟩
      cases running.symm.trans (hc.spared hcancelled)

theorem forall₂_takePending (x : Handle) :
    List.Forall₂ Child.Spared x.children x.takePending.children := by
  rw [Handle.takePending, List.forall₂_map_right_iff]
  exact List.forall₂_same.mpr fun c _ => Child.Alike.spared ⟨rfl, rfl, rfl⟩

theorem forall₂_closeChild (id : ChildId) (x : Handle) :
    List.Forall₂ Child.Spared x.children (x.closeChild id).children :=
  forall₂_modify (fun c => (Child.Alike.refl c).spared) Child.spared_close x.children _

theorem forall₂_cancel (abort : Bool) (x : Handle) :
    List.Forall₂ Child.Ages x.children (x.cancelChildren abort).children := by
  rw [Handle.cancelChildren, List.forall₂_map_right_iff]
  exact List.forall₂_same.mpr fun c _ => Child.ages_cancel abort c

/-- All who run are cancelled, and as many are told of. -/
theorem length_cancelledIn (abort : Bool) (x : Handle) :
    (cancelledIn x.children (x.cancelChildren abort).children).length = x.runningChildren := by
  unfold Handle.cancelChildren Handle.runningChildren
  generalize x.children = cs
  induction cs with
  | nil => rfl
  | cons c cs ih =>
      rw [List.map_cons, cancelledIn, List.countP_cons]
      by_cases running : c.state = .running
      · simpa [running, Child.cancel] using ih
      · simpa [running] using ih

/-- Once the leave is taken from the handle, cancelling takes it from all that are not closed. -/
theorem swept_cancelChildren (hs : Sound x) (hx : x.canRun = false) :
    Swept (x.cancelChildren abort) where
  handle := hx
  children := fun c' hc' hn => by
    obtain ⟨c, hc, rfl⟩ := List.mem_map.mp hc'
    unfold Child.cancel at hn ⊢
    split
    · rfl
    · next running =>
      rw [if_neg running] at hn
      cases state : c.state with
      | running => exact absurd state running
      | cancelled => exact hs.halted c hc state
      | closed => exact absurd state hn

/-- A child that is spawned has the leave to run that the handle has. -/
theorem ages_spawn (id : ChildId) (spec : ChildSpec) (x : Handle) : Ages x (x.spawn id spec) where
  stopped := fun h => h
  children := fun k c hk => by
    refine ⟨c, ?_, .refl c⟩
    rwa [Handle.spawn, List.getElem?_append_left (List.getElem?_eq_some_iff.mp hk).1]
  spawned := fun k c' hk' hn hs => by
    rw [Handle.spawn, List.getElem?_append_right (List.getElem?_eq_none_iff.mp hn)] at hk'
    obtain rfl := List.mem_singleton.mp (List.mem_of_getElem? hk')
    rcases hs with hx | running
    · exact hx
    · cases running

/-! Who is cancelled is counted once. -/

theorem cancelledIn_sublist (cs cs' : List Child) :
    (cancelledIn cs cs').Sublist (cs.map Child.id) := by
  induction cs generalizing cs' with
  | nil => exact List.nil_sublist _
  | cons c cs ih =>
      cases cs' with
      | nil => exact List.nil_sublist _
      | cons c' cs' =>
          rw [cancelledIn, List.map_cons]
          split
          · exact (ih cs').cons_cons _
          · exact (ih cs').cons _

theorem exists_of_mem_cancelledIn (h : id ∈ cancelledIn cs cs') :
    ∃ (k : Nat) (c c' : Child), cs[k]? = some c ∧ cs'[k]? = some c' ∧ c.state = .running ∧
      c'.state = .cancelled ∧ c.id = id := by
  induction cs generalizing cs' with
  | nil => cases h
  | cons c cs ih =>
      cases cs' with
      | nil => cases h
      | cons c' cs' =>
          have later (h : id ∈ cancelledIn cs cs') :
              ∃ (k : Nat) (d d' : Child), (c :: cs)[k]? = some d ∧ (c' :: cs')[k]? = some d' ∧
                d.state = .running ∧ d'.state = .cancelled ∧ d.id = id := by
            obtain ⟨k, d, d', hk, hk', hd⟩ := ih h
            exact ⟨k + 1, d, d', hk, hk', hd⟩
          rw [cancelledIn] at h
          split at h
          · next hc =>
            rcases List.mem_cons.mp h with rfl | h
            · exact ⟨0, c, c', rfl, rfl, hc.1, hc.2, rfl⟩
            · exact later h
          · exact later h

/-- The children by those identifiers are there, and do not run any more. -/
def Counted (x : Handle) (ids : List ChildId) : Prop :=
  ∀ id ∈ ids, ∃ c ∈ x.children, c.id = id ∧ c.state ≠ .running

theorem Ages.counted {ids : List ChildId} (h : Ages x x') (hc : Counted x ids) :
    Counted x' (ids ++ cancelledIn x.children x'.children) := by
  intro id hid
  rcases List.mem_append.mp hid with hid | hid
  · obtain ⟨c, hc, rfl, hn⟩ := hc id hid
    obtain ⟨k, hk⟩ := List.mem_iff_getElem?.mp hc
    obtain ⟨c', hk', ha⟩ := h.children k c hk
    refine ⟨c', List.mem_of_getElem? hk', ha.id, fun running => hn ?_⟩
    exact (running ▸ ha.state).running
  · obtain ⟨k, c, c', hk, hk', -, hcancelled, rfl⟩ := exists_of_mem_cancelledIn hid
    obtain ⟨_, hk₂, ha⟩ := h.children k c hk
    cases hk'.symm.trans hk₂
    exact ⟨c', List.mem_of_getElem? hk', ha.id, hcancelled ▸ nofun⟩

/-- Who is counted does not run any more, and is not counted again. -/
theorem Counted.nodup_append {ids : List ChildId} (hc : Counted x ids) (hs : Sound x)
    (hn : ids.Nodup) : (ids ++ cancelledIn x.children cs').Nodup := by
  refine List.nodup_append'.mpr ⟨hn, ?_, ?_⟩
  · exact hs.distinct.sublist (cancelledIn_sublist _ _)
  · intro id old new
    obtain ⟨c, hmem, rfl, stopped⟩ := hc id old
    obtain ⟨k, c₂, -, hk, -, running, -, same⟩ := exists_of_mem_cancelledIn new
    have := List.inj_on_of_nodup_map hs.distinct (List.mem_of_getElem? hk) hmem same
    exact stopped (this ▸ running)

/-- The handle after something by which so many children are told to be cancelled. -/
structure Comes (x : Handle) (n : Nat) (x' : Handle) : Prop where
  ages : Ages x x'
  distinct : (x'.children.map Child.id).Nodup
  begun : ∀ (k : Nat) c', x'.children[k]? = some c' → x.children[k]? = none →
    c'.state = .running
  told : n = (cancelledIn x.children x'.children).length

theorem comes_of_forall₂ (hs : Sound x) (hr : x.canRun = false → x'.canRun = false)
    (hc : List.Forall₂ Child.Ages x.children x'.children) :
    Comes x (cancelledIn x.children x'.children).length x' where
  ages := ages_of_forall₂ hr hc
  distinct := by
    rw [map_id_of_ages hc]
    exact hs.distinct
  begun := fun _ _ hk hn => (not_new_of_forall₂ hc hk hn).elim
  told := rfl

theorem comes_of_spared (hs : Sound x) (hr : x.canRun = false → x'.canRun = false)
    (hc : List.Forall₂ Child.Spared x.children x'.children) : Comes x 0 x' := by
  have comes := comes_of_forall₂ hs hr (hc.imp fun _ _ h => h.toAges)
  have none := cancelledIn_eq_nil hc []
  rw [List.append_nil] at none
  rwa [none, List.length_nil] at comes

theorem comes_cancelChildren (hs : Sound x) (abort : Bool) :
    Comes x x.runningChildren (x.cancelChildren abort) := by
  have comes : Comes x _ (x.cancelChildren abort) :=
    comes_of_forall₂ hs (fun h => h) (forall₂_cancel abort x)
  rwa [length_cancelledIn] at comes

theorem comes_spawn (hs : Sound x) (spec : ChildSpec) (hid : ∀ c ∈ x.children, c.id ≠ id) :
    Comes x 0 (x.spawn id spec) where
  ages := ages_spawn id spec x
  distinct := by
    rw [Handle.spawn, List.map_append, List.map_singleton]
    refine List.nodup_append'.mpr ⟨hs.distinct, List.nodup_singleton _, ?_⟩
    rw [List.disjoint_singleton]
    intro hmem
    obtain ⟨c, hc, same⟩ := List.mem_map.mp hmem
    exact hid c hc same
  begun := fun k c' hk' hn => by
    rw [Handle.spawn, List.getElem?_append_right (List.getElem?_eq_none_iff.mp hn)] at hk'
    obtain rfl := List.mem_singleton.mp (List.mem_of_getElem? hk')
    rfl
  told := by
    rw [Handle.spawn, cancelledIn_eq_nil (forall₂_spared x.children), List.length_nil]

end

/-! An interruption, call by call. -/

/-- The handler itself is interrupted, as the policy says. -/
def strike (policy : InterruptPolicy) (h : HandleId) : Action Unit := do
  if ← reachesHandler h policy then call (.interruptHandler h)

theorem interrupt_eq (policy : InterruptPolicy) (h : HandleId) :
    interrupt policy h = .ask (.clearCanRun h) fun _ =>
      .ask (.cancelChildren h (policy != .never)) fun _ => strike policy h :=
  rfl

/-- Calls that leave the children alone. -/
def Strikes (h : HandleId) : Call → Prop
  | .isSafe k | .interruptHandler k => k = h
  | _ => False

theorem strike_only (policy : InterruptPolicy) (h : HandleId) :
    (strike policy h).Only (Strikes h) := by
  refine Only.bind ?_ fun reached => ?_
  · cases policy with
    | always | never => trivial
    | maybe => exact ⟨rfl, fun _ => trivial⟩
  · cases reached with
    | true => exact ⟨rfl, fun _ => trivial⟩
    | false => trivial

/-- How far an interruption is, and what it has achieved. -/
inductive Stage (policy : InterruptPolicy) (h : HandleId) (x : Handle) : Action Unit → Prop
  | outset : Stage policy h x (interrupt policy h)
  | cleared : x.canRun = false →
      Stage policy h x (.ask (.cancelChildren h (policy != .never)) fun _ => strike policy h)
  | swept {p : Action Unit} : Swept x → p.Only (Strikes h) → Stage policy h x p

/-- How many children somebody is told to have cancelled. -/
def told : Deed → Nat
  | .answered (.cancelChildren _ _) n => n
  | _ => 0

section

variable {policy : InterruptPolicy} {h : HandleId} {x x' : Handle} {p p' : Action Unit}
  {place : Place} {w w' : World} {d : Deed}

theorem Stage.ages (hp : Stage policy h x p) (ha : Ages x x') : Stage policy h x' p := by
  cases hp with
  | outset => exact .outset
  | cleared hx => exact .cleared (ha.stopped hx)
  | swept hs hp => exact .swept (ha.swept hs) hp

/-- When an interruption is over, it has achieved what it is for. -/
theorem Stage.done (hp : Stage policy h x (.done ())) : Swept x := by
  generalize hq : (.done () : Action Unit) = q at hp
  cases hp with
  | outset => cases hq
  | cleared => cases hq
  | swept hs => exact hs

/-- First the leave to run is taken, and then the children are cancelled, whatever has come
in between. -/
theorem Stage.turn (hp : Stage policy h x p) (hs : Sound x) (hx : w.handle? h = some x)
    (ht : p.Turn place w d p' w') :
    ∃ x', w'.handle? h = some x' ∧ Comes x (told d) x' ∧ Stage policy h x' p' := by
  have marked (f : Handle → Handle) (hf : (f x).children = x.children)
      (hr : x.canRun = false → (f x).canRun = false) : Comes x 0 (f x) := by
    refine comes_of_spared hs hr ?_
    rw [hf]
    exact forall₂_spared x.children
  cases hp with
  | outset =>
      rw [interrupt_eq] at ht
      cases ht with
      | answered ha =>
          cases ha with
          | performed hq =>
              cases hq
              have comes := marked (fun s => { s with canRun := false }) rfl fun _ => rfl
              exact ⟨_, World.handle?_of_modify hx rfl, comes, .cleared rfl⟩
  | cleared hr =>
      cases ht with
      | answered ha =>
          cases ha with
          | performed hq =>
              cases hq
              -- the leave is gone for good, so nobody was spawned with it since
              refine ⟨_, World.handle?_of_modify hx rfl, ?_,
                .swept (swept_cancelChildren hs hr) (strike_only policy h)⟩
              rw [told, hx]
              exact comes_cancelChildren hs _
  | swept hsw hp =>
      cases ht with
      | gathered => exact hp.1.elim
      | @answered r next _ _ a ha =>
          have only := hp.2 a
          cases r with
          | isSafe k =>
              obtain rfl : k = h := hp.1
              cases ha with
              | performed hq =>
                  cases hq
                  have comes := marked id rfl fun h => h
                  exact ⟨x, hx, comes, .swept (comes.ages.swept hsw) only⟩
          | interruptHandler k =>
              obtain rfl : k = h := hp.1
              cases ha with
              | performed hq =>
                  cases hq
                  have comes := marked (fun s => { s with interrupted := true }) rfl fun h => h
                  exact ⟨_, World.handle?_of_modify hx rfl, comes,
                    .swept (comes.ages.swept hsw) only⟩
          | _ => exact hp.1.elim

end

/-! Interruptions among all that happens to the handle. -/

/-- Somebody who interrupts the handle. -/
structure Interrupter where
  place : Place
  policy : InterruptPolicy

/-- The world, and what is left of the interruptions. -/
structure Siege (ι : Type) where
  world : World
  interruption : ι → Action Unit

inductive Act (ι : Type)
  | deed (i : ι) (d : Deed)
  | spawn (id : ChildId)
  /-- The waiter takes all whom nobody waits for yet. -/
  | take
  | close (id : ChildId)
  /-- Something else, by which neither the leave to run changes nor who runs. -/
  | aside

def Act.told {ι : Type} : Act ι → Nat
  | .deed _ d => Recall.told d
  | _ => 0

/-- An act, and who is cancelled in it. -/
structure Event (ι : Type) where
  act : Act ι
  cancelled : List ChildId

def children (h : HandleId) (w : World) : List Child :=
  ((w.handle? h).map Handle.children).getD []

section

variable {ι : Type} [DecidableEq ι] (band : ι → Interrupter) (h : HandleId)

/-- What may happen next, in any order. -/
inductive Move : Siege ι → Act ι → Siege ι → Prop
  | deed {s : Siege ι} {i : ι} {d : Deed} {p : Action Unit} {w : World} :
      (s.interruption i).Turn (band i).place s.world d p w →
      Move s (.deed i d) ⟨w, Function.update s.interruption i p⟩
  /-- No identifier is used twice. -/
  | spawn {s : Siege ι} {spec : ChildSpec} :
      (∀ c ∈ children h s.world, c.id ≠ (s.world.spawn h spec).1) →
      Move s (.spawn (s.world.spawn h spec).1) ⟨(s.world.spawn h spec).2, s.interruption⟩
  | take {s : Siege ι} : Move s .take ⟨(s.world.takePending h).2, s.interruption⟩
  | close {s : Siege ι} {id : ChildId} :
      Move s (.close id) ⟨s.world.onHandle h (Handle.closeChild id), s.interruption⟩
  | aside {s : Siege ι} {w : World} :
      (∀ x, s.world.handle? h = some x → ∃ x', w.handle? h = some x' ∧ x'.canRun = x.canRun ∧
        List.Forall₂ Child.Alike x.children x'.children) →
      Move s .aside ⟨w, s.interruption⟩

/-- Who is cancelled in an act is seen by the children before and after it. -/
structure Step (s : Siege ι) (e : Event ι) (s' : Siege ι) : Prop where
  move : Move band h s e.act s'
  cancelled : e.cancelled = cancelledIn (children h s.world) (children h s'.world)

/-- Everybody is about to begin. -/
def begin (w : World) : Siege ι := ⟨w, fun i => interrupt (band i).policy h⟩

/-- How things stand, after those children were cancelled. -/
structure Standing (s : Siege ι) (ids : List ChildId) (x : Handle) : Prop where
  handle : s.world.handle? h = some x
  sound : Sound x
  stage : ∀ i, Stage (band i).policy h x (s.interruption i)
  counted : Counted x ids
  once : ids.Nodup

variable {band h} {s s' : Siege ι} {a : Act ι} {e : Event ι} {es es' : List (Event ι)} {x : Handle}
  {ids : List ChildId} {w : World}

omit [DecidableEq ι] in
theorem Standing.children_eq (hs : Standing band h s ids x) : children h s.world = x.children := by
  rw [children, hs.handle]
  rfl

/-- What an act makes of the handle. -/
theorem Standing.move (hs : Standing band h s ids x) (hm : Move band h s a s') :
    ∃ x', s'.world.handle? h = some x' ∧ Comes x a.told x' ∧
      ∀ i, Stage (band i).policy h x' (s'.interruption i) := by
  have others {x' : Handle} (hc : Comes x 0 x') (i : ι) :
      Stage (band i).policy h x' (s.interruption i) := (hs.stage i).ages hc.ages
  cases hm with
  | @deed i d p w ht =>
      obtain ⟨x', hx', comes, stage⟩ := (hs.stage i).turn hs.sound hs.handle ht
      refine ⟨x', hx', comes, fun j => ?_⟩
      change Stage (band j).policy h x' (Function.update s.interruption i p j)
      by_cases hj : j = i
      · subst hj
        rwa [Function.update_self]
      · rw [Function.update_of_ne hj]
        exact (hs.stage j).ages comes.ages
  | @spawn spec hid =>
      rw [hs.children_eq] at hid
      have comes := comes_spawn hs.sound spec hid
      exact ⟨_, World.handle?_of_modify hs.handle rfl, comes, others comes⟩
  | take =>
      have comes : Comes x 0 x.takePending :=
        comes_of_spared hs.sound (fun h => h) (forall₂_takePending x)
      exact ⟨_, World.handle?_of_modify hs.handle rfl, comes, others comes⟩
  | @close id =>
      have comes : Comes x 0 (x.closeChild id) :=
        comes_of_spared hs.sound (fun h => h) (forall₂_closeChild id x)
      exact ⟨_, World.handle?_of_modify hs.handle rfl, comes, others comes⟩
  | aside alike =>
      obtain ⟨x', hx', hr, hc⟩ := alike x hs.handle
      have comes := comes_of_spared hs.sound hr.trans (hc.imp fun _ _ h => h.spared)
      exact ⟨x', hx', comes, others comes⟩

theorem Standing.step (hs : Standing band h s ids x) (he : Step band h s e s') :
    ∃ x', Comes x e.act.told x' ∧ e.act.told = e.cancelled.length ∧
      Standing band h s' (ids ++ e.cancelled) x' := by
  obtain ⟨x', hx', comes, stage⟩ := hs.move he.move
  have now : children h s'.world = x'.children := by
    rw [children, hx']
    rfl
  have cancelled := he.cancelled
  rw [hs.children_eq, now] at cancelled
  rw [cancelled]
  exact ⟨x', comes, comes.told, hx', comes.ages.sound hs.sound comes.distinct, stage,
    comes.ages.counted hs.counted, hs.counted.nodup_append hs.sound hs.once⟩

theorem Standing.run (hs : Standing band h s ids x) (hr : Run (Step band h) s es s') :
    ∃ x', Ages x x' ∧ (∀ e ∈ es, e.act.told = e.cancelled.length) ∧
      Standing band h s' (ids ++ es.flatMap Event.cancelled) x' := by
  induction hr with
  | nil =>
      refine ⟨x, .refl x, fun _ he => absurd he List.not_mem_nil, ?_⟩
      rwa [List.flatMap_nil, List.append_nil]
  | snoc _ he ih =>
      obtain ⟨x₁, before, told, standing⟩ := ih
      obtain ⟨x₂, last, count, standing⟩ := standing.step he
      refine ⟨x₂, before.trans last.ages, ?_, ?_⟩
      · intro e' he'
        rcases List.mem_append.mp he' with he' | he'
        · exact told e' he'
        · obtain rfl := List.mem_singleton.mp he'
          exact count
      · rwa [List.flatMap_append, List.flatMap_singleton, ← List.append_assoc]

omit [DecidableEq ι] in
/-- A handle without children is a beginning. -/
theorem standing_begin (fresh : w.handle? h = some x) (none : x.children = []) :
    Standing band h (begin band h w) [] x where
  handle := fresh
  sound := by
    constructor
    · rw [none]
      exact List.nodup_nil
    · rw [none]
      exact nofun
  stage := fun _ => .outset
  counted := nofun
  once := List.nodup_nil

/-- Every child has been running once. -/
theorem Standing.began (hs : Standing band h s ids x) (none : x.children = [])
    (hr : Run (Step band h) s es s') (k : Nat) (c : Child)
    (hk : (children h s'.world)[k]? = some c) :
    ∃ es₁ es₂ s₁ c₁, es = es₁ ++ es₂ ∧ Run (Step band h) s es₁ s₁ ∧
      Run (Step band h) s₁ es₂ s' ∧ (children h s₁.world)[k]? = some c₁ ∧
      c₁.state = .running := by
  induction hr generalizing c with
  | nil =>
      rw [hs.children_eq, none] at hk
      cases hk
  | @snoc s₂ s₃ es e hr he ih =>
      obtain ⟨x₂, -, -, standing⟩ := hs.run hr
      obtain ⟨x₃, comes, -, standing'⟩ := standing.step he
      cases hk₂ : (children h s₂.world)[k]? with
      | none =>
          -- it is this act that spawns the child
          refine ⟨es ++ [e], [], s₃, c, by simp, hr.snoc he, .nil, hk, ?_⟩
          rw [standing.children_eq] at hk₂
          rw [standing'.children_eq] at hk
          exact comes.begun k c hk hk₂
      | some c₂ =>
          obtain ⟨es₁, es₂, s₁, c₁, rfl, before, after, hk₁, running⟩ := ih c₂ hk₂
          exact ⟨es₁, es₂ ++ [e], s₁, c₁, by simp, before, after.snoc he, hk₁, running⟩

/-- Once an interruption is over, no child that is not closed has the leave to run, whenever it
was spawned and whether or not the waiter has taken it. Every child runs at first; then it may
be cancelled and closed, or closed at once, and there is no way back. The interruptions tell of
as many children as they have cancelled, nobody else cancels any, and none is cancelled twice. -/
theorem reaches_children (fresh : w.handle? h = some x) (none : x.children = [])
    (hr : Run (Step band h) (begin band h w) es s) (hr' : Run (Step band h) s es' s') :
    ((∃ i, s.interruption i = .done ()) →
      ∀ c ∈ children h s'.world, c.state ≠ .closed → c.canRun = false) ∧
    (∀ (k : Nat) c, (children h s.world)[k]? = some c →
      ∃ c', (children h s'.world)[k]? = some c' ∧ c'.id = c.id ∧ c.state.Leads c'.state) ∧
    (∀ (k : Nat) c, (children h s.world)[k]? = some c →
      ∃ es₁ es₂ s₁ c₁, es = es₁ ++ es₂ ∧ Run (Step band h) (begin band h w) es₁ s₁ ∧
        Run (Step band h) s₁ es₂ s ∧ (children h s₁.world)[k]? = some c₁ ∧
        c₁.state = .running) ∧
    ((es ++ es').flatMap Event.cancelled).Nodup ∧
    ∀ e ∈ es ++ es', e.act.told = e.cancelled.length := by
  have first : Standing band h (begin band h w) [] x := standing_begin fresh none
  obtain ⟨x₁, -, -, standing⟩ := first.run hr
  obtain ⟨x₂, ages, -, standing'⟩ := standing.run hr'
  obtain ⟨x₃, -, told, whole⟩ := first.run (hr.append hr')
  refine ⟨?_, ?_, first.began none hr, whole.once, told⟩
  · rintro ⟨i, ended⟩
    have stage := standing.stage i
    rw [ended] at stage
    rw [standing'.children_eq]
    exact (ages.swept stage.done).children
  · intro k c hk
    rw [standing.children_eq] at hk
    rw [standing'.children_eq]
    obtain ⟨c', hk', hc⟩ := ages.children k c hk
    exact ⟨c', hk', hc.id, hc.state⟩

end

/-! A run by cue. -/

inductive Cue (ι : Type)
  | goOn (i : ι)
  | spawn (spec : ChildSpec)
  | take
  | close (id : ChildId)

section

variable {ι : Type} [DecidableEq ι] (band : ι → Interrupter) (h : HandleId)

def cue? (s : Siege ι) : Cue ι → Option (Act ι × Siege ι)
  | .goOn i => ((s.interruption i).go? (band i).place s.world).map fun (d, p, w) =>
      (.deed i d, ⟨w, Function.update s.interruption i p⟩)
  | .spawn spec =>
      if ∀ c ∈ children h s.world, c.id ≠ (s.world.spawn h spec).1 then
        some (.spawn (s.world.spawn h spec).1, ⟨(s.world.spawn h spec).2, s.interruption⟩)
      else none
  | .take => some (.take, ⟨(s.world.takePending h).2, s.interruption⟩)
  | .close id =>
      some (.close id, ⟨s.world.onHandle h (Handle.closeChild id), s.interruption⟩)

/-- What comes next by a cue, with the children that are cancelled by it. -/
def next? (s : Siege ι) (q : Cue ι) : Option (Event ι × Siege ι) :=
  (cue? band h s q).map fun (a, s') =>
    (⟨a, cancelledIn (children h s.world) (children h s'.world)⟩, s')

abbrev play : List (Cue ι) → Siege ι → List (Event ι) × Siege ι := rehearse (next? band h)

variable {band h}

theorem move_of_cue? {s s' : Siege ι} {q : Cue ι} {a : Act ι}
    (hq : cue? band h s q = some (a, s')) : Move band h s a s' := by
  cases q with
  | goOn i =>
      obtain ⟨⟨d, p, w⟩, hg, hq⟩ := Option.map_eq_some_iff.mp hq
      cases hq
      exact .deed (Program.turn_of_go? hg)
  | spawn spec =>
      obtain ⟨hid, hq⟩ := Option.ite_none_right_eq_some.mp hq
      cases hq
      exact .spawn hid
  | take =>
      cases hq
      exact .take
  | close id =>
      cases hq
      exact .close

theorem step_of_next? {s s' : Siege ι} {q : Cue ι} {e : Event ι}
    (hq : next? band h s q = some (e, s')) : Step band h s e s' := by
  obtain ⟨⟨a, s₁⟩, hc, hq⟩ := Option.map_eq_some_iff.mp hq
  cases hq
  exact ⟨move_of_cue? hc, rfl⟩

theorem play_run (qs : List (Cue ι)) (s : Siege ι) :
    Run (Step band h) s (play band h qs s).1 (play band h qs s).2 :=
  run_rehearse qs s fun _ _ _ _ _ => step_of_next?

end

/-- One of them interrupts the handler as well. -/
abbrev two : Bool → Interrupter := fun strict => ⟨.aside, if strict then .always else .never⟩

abbrev quiet : World := { now := default, handles := [{ oid := ⟨1⟩ }] }

def child : ChildSpec := ⟨"c", fun _ => .done (.ok (.new "c"))⟩

/-- One child is spawned before the first interruption and one amid it; the second interruption
overtakes it. -/
abbrev both : List (Event Bool) × Siege Bool :=
  play two ⟨0⟩
    [.spawn child, .goOn true, .spawn child, .goOn false, .goOn false, .take, .goOn true,
      .close ⟨1⟩, .goOn true]
    (begin two ⟨0⟩ quiet)

/-- Another child is spawned when both are over. -/
abbrev late : List (Event Bool) × Siege Bool := play two ⟨0⟩ [.spawn child] both.2

theorem reaches_children_late :
    (children ⟨0⟩ late.2.world).map Child.state = [.closed, .cancelled, .running] ∧
      (both.1 ++ late.1).flatMap Event.cancelled = [⟨1⟩, ⟨2⟩] ∧
      ∀ c ∈ children ⟨0⟩ late.2.world, c.state ≠ .closed → c.canRun = false := by
  have run : Run (Step two ⟨0⟩) (begin two ⟨0⟩ quiet) both.1 both.2 := play_run _ _
  have later : Run (Step two ⟨0⟩) both.2 late.1 late.2 := play_run _ _
  obtain ⟨_, ended⟩ := Program.done_of_isOver
    (by decide +kernel : (both.2.interruption true).isOver)
  obtain ⟨reached, -⟩ := reaches_children rfl rfl run later
  exact ⟨by decide +kernel, by decide +kernel, reached ⟨true, ended⟩⟩

end Recall
end TaskFiring
