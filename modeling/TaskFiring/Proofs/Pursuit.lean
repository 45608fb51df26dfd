import TaskFiring.Proofs.Intervention

/-!
How a firing is stopped, call by call. Whoever hears that a handler is not safe goes on to
interrupt it, and under a policy that spares safe handlers nobody interrupts one without
having heard that. A firing does so to its own handle only; a warden, to the handles that
it has found in the registry of its place.
-/

namespace TaskFiring

/-- The handle to which a call looks for the end of a handler, or for its being safe. -/
def Call.aim? : Call → Option HandleId
  | .isSafe h | .setSafe h _ | .interruptHandler h | .isInterrupted h | .handler h _ _ => some h
  | _ => none

/-- What those deeds tell of asking and striking; `doomed` is who was asked for and is not
struck yet. Somebody who is `lenient` strikes nobody unasked. -/
structure Heedful (lenient : Prop) (ds : List Deed) (doomed : Option HandleId) : Prop where
  asked : ∀ h, doomed = some h → .answered (.isSafe h) false ∈ ds
  strikes : ∀ h, .answered (.isSafe h) false ∈ ds →
    .answered (.interruptHandler h) () ∈ ds ∨ doomed = some h
  struck : lenient → ∀ h, .answered (.interruptHandler h) () ∈ ds →
    .answered (.isSafe h) false ∈ ds

namespace Heedful

variable {lenient : Prop} {ds : List Deed} {d : Deed} {doomed : Option HandleId} {h : HandleId}

theorem nil : Heedful lenient [] none := ⟨nofun, nofun, fun _ => nofun⟩

theorem quiet (hd : Heedful lenient ds doomed) (ha : ∀ h, d ≠ .answered (.isSafe h) false)
    (hs : ∀ h, d ≠ .answered (.interruptHandler h) ()) : Heedful lenient (ds ++ [d]) doomed := by
  have old {d' : Deed} (hd' : d' ∈ ds ++ [d]) (hne : d ≠ d') : d' ∈ ds :=
    (List.mem_append.mp hd').resolve_right fun h => hne (List.mem_singleton.mp h).symm
  refine ⟨fun h hh => ?_, fun h hh => ?_, fun hl h hh => ?_⟩
  · exact List.mem_append_left _ (hd.asked h hh)
  · exact (hd.strikes h (old hh (ha h))).imp_left (List.mem_append_left _)
  · exact List.mem_append_left _ (hd.struck hl h (old hh (hs h)))

theorem doom (hd : Heedful lenient ds none) :
    Heedful lenient (ds ++ [.answered (.isSafe h) false]) (some h) := by
  refine ⟨?_, fun k hk => ?_, fun hl k hk => ?_⟩
  · rintro k ⟨⟩
    simp
  · rcases List.mem_append.mp hk with hk | hk
    · exact (hd.strikes k hk).imp (List.mem_append_left _) nofun
    · cases List.mem_singleton.mp hk
      exact .inr rfl
  · refine List.mem_append_left _ (hd.struck hl k ?_)
    exact (List.mem_append.mp hk).resolve_right fun hk => nomatch List.mem_singleton.mp hk

theorem strike (hd : Heedful lenient ds (some h)) :
    Heedful lenient (ds ++ [.answered (.interruptHandler h) ()]) none := by
  refine ⟨nofun, fun k hk => .inl ?_, fun hl k hk => List.mem_append_left _ ?_⟩
  · rcases List.mem_append.mp hk with hk | hk
    · rcases hd.strikes k hk with hs | hs
      · exact List.mem_append_left _ hs
      · cases hs
        simp
    · cases List.mem_singleton.mp hk
  · rcases List.mem_append.mp hk with hk | hk
    · exact hd.struck hl k hk
    · cases List.mem_singleton.mp hk
      exact hd.asked h rfl

theorem strikeAtOnce (hd : Heedful lenient ds none) (hl : ¬ lenient) :
    Heedful lenient (ds ++ [.answered (.interruptHandler h) ()]) none := by
  refine ⟨nofun, fun k hk => .inl ?_, fun h => absurd h hl⟩
  rcases List.mem_append.mp hk with hk | hk
  · exact List.mem_append_left _ ((hd.strikes k hk).resolve_right nofun)
  · cases List.mem_singleton.mp hk

end Heedful

/-! What a firing does to its own handle. -/

namespace Leg

def doomed? : Leg → Option HandleId
  | .doomed h => some h
  | _ => none

/-- The handle tells whether the handler is safe. -/
def IsMarked : Leg → Prop
  | .marked _ _ | .announced _ _ | .acting _ _ | .acted _ _ => True
  | .concluded _ _ b _ | .told _ _ b _ => b
  | _ => False

end Leg

namespace Itinerary

variable {f : Occasion} {ds : List Deed} {d : Deed} {s s' : Leg} {h : HandleId}

theorem handle?_of_aims {r : Call} {a : r.Response}
    (hd : Passes f s (.answered r a) s') (hr : r.aim? = some h) : s.handle? = some h := by
  cases hd with
  | answered hm =>
      cases hm with
      | rest hi =>
          cases r with
          | isSafe | setSafe | interruptHandler | isInterrupted | handler => cases hi
          | _ => cases hr
      | mark | spare | doom | strike | strikeAtOnce _ | invoke | handler => exact hr
      | _ => cases hr

/-- A firing asks for the marks of its own handle only, and sets no others. -/
theorem handle?_of_mem (hp : Path f ds s) {r : Call} {a : r.Response}
    (hd : .answered r a ∈ ds) (hr : r.aim? = some h) : s.handle? = some h := by
  induction hp with
  | nil => cases hd
  | snoc _ step ih =>
      refine handle?_of_passes step ?_
      rcases List.mem_append.mp hd with hd | hd
      · exact ih hd
      · cases List.mem_singleton.mp hd
        exact handle?_of_aims step hr

theorem heedful_of_path (hp : Path f ds s) :
    Heedful (f.node.config.interruptPolicy = .maybe) ds s.doomed? := by
  induction hp with
  | nil => exact .nil
  | snoc _ step ih =>
      cases step with
      | gathered => exact ih.quiet (fun _ => nofun) fun _ => nofun
      | answered hm =>
          cases hm with
          | rest hr =>
              refine ih.quiet (fun h e => ?_) fun h e => ?_
              all_goals
                cases e
                cases hr
          | doom => exact ih.doom
          | strike => exact ih.strike
          | strikeAtOnce ha => exact ih.strikeAtOnce fun hm => by cases ha.symm.trans hm
          | _ => exact ih.quiet (fun _ => nofun) fun _ => nofun

/-- A firing marks its handle once, as the handler of its task has it. -/
theorem marks_of_path {b : Bool} (hp : Path f ds s)
    (hd : .answered (.setSafe h b) () ∈ ds) :
    s.IsMarked ∧ ∃ v t handler, Milestones.taking f v t ∈ ds ∧
      f.node.handlers.resolve t.handlerRef = some handler ∧ b = handler.safe := by
  induction hp with
  | nil => cases hd
  | @snoc s₁ s₂ ds d path step ih =>
      rcases List.mem_append.mp hd with hd | hd
      · obtain ⟨marked, v, t, handler, taken, hh⟩ := ih hd
        refine ⟨?_, v, t, handler, List.mem_append_left _ taken, hh⟩
        cases step with
        | gathered => exact marked
        | answered hm =>
            cases hm with
            | dismiss => cases marked
            | rest | tell | amend => exact marked
            | _ => first | exact marked.elim | trivial
      · cases List.mem_singleton.mp hd
        cases step with
        | answered hm =>
            cases hm with
            | rest hr => cases hr
            | mark hh =>
                obtain ⟨v, taken⟩ := taking_of_path path rfl
                exact ⟨trivial, v, _, _, List.mem_append_left _ taken, hh, rfl⟩

/-- After that it does not do so again. -/
theorem not_marks_of_isMarked {b : Bool} (hs : s.IsMarked) :
    ¬ Passes f s (.answered (.setSafe h b) ()) s' := by
  rintro ⟨hm⟩
  cases hm with
  | rest hr => cases hr
  | mark => cases hs

end Itinerary

/-! What a warden does. -/

/-- By its deeds somebody has found that handle in a registry. -/
def Found (h : HandleId) (ds : List Deed) : Prop :=
  (∃ hs, .answered .registeredHandles hs ∈ ds ∧ h ∈ hs) ∨
    ∃ oid, .answered (.registered oid) (some h) ∈ ds

theorem Found.append {h : HandleId} {ds ds' : List Deed} (hf : Found h ds) :
    Found h (ds ++ ds') := by
  rcases hf with ⟨hs, hd, hh⟩ | ⟨oid, hd⟩
  · exact .inl ⟨hs, List.mem_append_left _ hd, hh⟩
  · exact .inr ⟨oid, List.mem_append_left _ hd⟩

/-- What a warden has found, and whom it is about to interrupt. -/
structure Pursuit where
  found : List HandleId
  doomed : Option HandleId

namespace Pursuit

open Program (Follows)
open Interruption

section

variable (policy : InterruptPolicy)

inductive Move : Protocol Calls Pursuit
  | signal : Move ⟨[], none⟩ .shutDown () ⟨[], none⟩
  | seize {hs : List HandleId} : Move ⟨[], none⟩ .registeredHandles hs ⟨hs, none⟩
  | find {oid : TaskOid} {a : Option HandleId} :
      Move ⟨[], none⟩ (.registered oid) a ⟨a.toList, none⟩
  | stop {hs : List HandleId} {h : HandleId} : Move ⟨hs, none⟩ (.clearCanRun h) () ⟨hs, none⟩
  | cancel {hs : List HandleId} {h : HandleId} {abort : Bool} {n : Nat} :
      Move ⟨hs, none⟩ (.cancelChildren h abort) n ⟨hs, none⟩
  | spare {hs : List HandleId} {h : HandleId} :
      h ∈ hs → Move ⟨hs, none⟩ (.isSafe h) true ⟨hs, none⟩
  | doom {hs : List HandleId} {h : HandleId} :
      h ∈ hs → Move ⟨hs, none⟩ (.isSafe h) false ⟨hs, some h⟩
  | strike {hs : List HandleId} {h : HandleId} :
      h ∈ hs → Move ⟨hs, some h⟩ (.interruptHandler h) () ⟨hs, none⟩
  | strikeAtOnce {hs : List HandleId} {h : HandleId} : policy = .always →
      h ∈ hs → Move ⟨hs, none⟩ (.interruptHandler h) () ⟨hs, none⟩

end

abbrev Runs (policy : InterruptPolicy) {α : Type} (p : Action α) (s : Pursuit)
    (Q : Pursuit → α → Prop) : Prop :=
  p.Follows (fun _ _ => True) (Move policy) s Q

section

variable {policy : InterruptPolicy} {hs found : List HandleId} {h : HandleId}

theorem interrupt_runs (hh : h ∈ found) :
    Runs policy (interrupt policy h) ⟨found, none⟩ fun s _ => s = ⟨found, none⟩ := by
  unfold interrupt
  refine Follows.ask fun _ _ => ⟨_, .stop, ?_⟩
  refine Follows.ask fun _ _ => ⟨_, .cancel, ?_⟩
  cases policy with
  | always => exact Follows.ask fun _ _ => ⟨_, .strikeAtOnce rfl hh, rfl⟩
  | never => exact rfl
  | maybe =>
      refine Follows.ask fun safe _ => ?_
      cases safe with
      | true => exact ⟨_, .spare hh, rfl⟩
      | false => exact ⟨_, .doom hh, fun _ _ => ⟨_, .strike hh, rfl⟩⟩

theorem interruptAll_runs (hh : ∀ h ∈ hs, h ∈ found) :
    Runs policy (interruptAll policy hs) ⟨found, none⟩ fun s _ => s = ⟨found, none⟩ := by
  induction hs with
  | nil => exact rfl
  | cons h hs ih =>
      obtain ⟨first, rest⟩ := List.forall_mem_cons.mp hh
      refine (interrupt_runs first).bind ?_
      rintro _ ⟨⟩ rfl
      exact ih rest

/-- At its end a warden has nobody left to interrupt. -/
theorem program_runs (k : Warden) :
    Runs k.policy k.program ⟨[], none⟩ fun s _ => s.doomed = none := by
  unfold Warden.program
  cases k.target with
  | none =>
      refine Follows.bind (Q := fun s _ => s.doomed = none) ?_ fun _ _ => id
      refine Follows.ask fun _ _ => ⟨_, .signal, ?_⟩
      refine Follows.ask fun hs _ => ⟨_, .seize, ?_⟩
      refine (interruptAll_runs fun _ => id).bind ?_
      rintro _ ⟨⟩ rfl
      exact rfl
  | some oid =>
      refine Follows.bind (Q := fun s _ => s.doomed = none) ?_ fun _ _ => id
      refine Follows.ask fun a _ => ⟨_, .find, ?_⟩
      cases a with
      | none => exact rfl
      | some h =>
          refine (interrupt_runs (List.mem_singleton.mpr rfl)).bind ?_
          rintro _ ⟨⟩ rfl
          exact rfl

/-- The deeds lead a warden there. -/
abbrev Path (policy : InterruptPolicy) (ds : List Deed) (s : Pursuit) : Prop :=
  Run (Protocol.Passes (Move policy)) ⟨[], none⟩ ds s

theorem path_of_way {k : Warden} {ds : List Deed} {q : Action Unit} (hw : k.program.Way ds q) :
    ∃ s, Path k.policy ds s ∧ Runs k.policy q s fun s _ => s.doomed = none := by
  induction hw with
  | nil => exact ⟨_, .nil, program_runs k⟩
  | snoc _ hd ih =>
      obtain ⟨s, path, runs⟩ := ih
      cases hd with
      | answered =>
          obtain ⟨s', hm, hn⟩ := runs _ trivial
          exact ⟨s', path.snoc (.answered hm), hn⟩
      | @gathered _ result _ closed _ _ _ _ =>
          -- a warden does not wait for children
          obtain ⟨s', hm, -⟩ := runs (result, closed) trivial
          cases hm

/-- What a warden asks for and whom it strikes, it has found. -/
structure Tells (policy : InterruptPolicy) (ds : List Deed) (s : Pursuit) : Prop where
  found : ∀ h ∈ s.found, Found h ds
  reached : ∀ (r : Call) (a : r.Response) h, .answered r a ∈ ds → r.aim? = some h → Found h ds
  heedful : Heedful (policy = .maybe) ds s.doomed

theorem Tells.snoc {ds : List Deed} {d : Deed} {s s' : Pursuit} (ht : Tells policy ds s)
    (hf : ∀ h ∈ s'.found, Found h (ds ++ [d]))
    (hr : ∀ (r : Call) (a : r.Response) h, d = .answered r a → r.aim? = some h → h ∈ s.found)
    (hd : Heedful (policy = .maybe) (ds ++ [d]) s'.doomed) : Tells policy (ds ++ [d]) s' := by
  refine ⟨hf, fun r a h hm hh => ?_, hd⟩
  rcases List.mem_append.mp hm with hm | hm
  · exact (ht.reached r a h hm hh).append
  · exact (ht.found h (hr r a h (List.mem_singleton.mp hm).symm hh)).append

theorem tells_of_path {ds : List Deed} {s : Pursuit} (hp : Path policy ds s) :
    Tells policy ds s := by
  induction hp with
  | nil => exact ⟨nofun, fun _ _ _ h => absurd h List.not_mem_nil, .nil⟩
  | @snoc s₁ s₂ ds d _ step ih =>
      have same : ∀ h ∈ s₁.found, Found h (ds ++ [d]) := fun h hh => (ih.found h hh).append
      cases step with
      | gathered =>
          exact ih.snoc same (fun _ _ _ => nofun)
            (ih.heedful.quiet (fun _ => nofun) fun _ => nofun)
      | answered hm =>
          cases hm with
          | signal | stop | cancel =>
              refine ih.snoc same ?_ (ih.heedful.quiet (fun _ => nofun) fun _ => nofun)
              rintro _ _ _ ⟨⟩ ⟨⟩
          | seize =>
              refine ih.snoc (fun h hh => .inl ⟨_, by simp, hh⟩) ?_
                (ih.heedful.quiet (fun _ => nofun) fun _ => nofun)
              rintro _ _ _ ⟨⟩ ⟨⟩
          | @find oid a =>
              refine ih.snoc (fun h hh => .inr ⟨oid, ?_⟩) ?_
                (ih.heedful.quiet (fun _ => nofun) fun _ => nofun)
              · obtain rfl := Option.mem_toList.mp hh
                simp
              · rintro _ _ _ ⟨⟩ ⟨⟩
          | spare hh =>
              refine ih.snoc same ?_ (ih.heedful.quiet (fun _ => nofun) fun _ => nofun)
              rintro _ _ _ ⟨⟩ ⟨⟩
              exact hh
          | doom hh =>
              refine ih.snoc same ?_ ih.heedful.doom
              rintro _ _ _ ⟨⟩ ⟨⟩
              exact hh
          | strike hh =>
              refine ih.snoc same ?_ ih.heedful.strike
              rintro _ _ _ ⟨⟩ ⟨⟩
              exact hh
          | strikeAtOnce ha hh =>
              refine ih.snoc same ?_ (ih.heedful.strikeAtOnce fun hm => by cases ha.symm.trans hm)
              rintro _ _ _ ⟨⟩ ⟨⟩
              exact hh

end

end Pursuit
end TaskFiring
