import Mathlib.Data.List.Forall2
import Mathlib.Data.List.Nodup
import Mathlib.Data.List.Range
import TaskFiring.Proofs.Custody

/-!
The books of a firing about its children. The waiter takes all children that nobody waits for
yet, in the order in which they were spawned, and closes one after the other with its result.
Meanwhile children go on, end, panic and are cancelled, and others are spawned behind them;
none of that changes what was told of a child that is closed.
-/

namespace TaskFiring

namespace Child

/-- What the waiter makes of a child that has ended so. -/
def outcome (c : Child) : ChildEnd → OperationResult
  | .ok r => r
  | .error p => panickedResult c.name p

/-- The result may be told of the child: as it has ended, or that it was cancelled. -/
def Accounts (c : Child) (r : OperationResult) : Prop :=
  (∃ e, c.ended = some e ∧ r = c.outcome e) ∨ c.cancelled ∧ r = cancelledResult c.name

/-- The child is closed, and what was told of it is right: what it has returned or that it
has panicked, unless it was cancelled, and if it was, how it has ended or that it was
interrupted. -/
structure Settled (c : Child) (r : OperationResult) : Prop where
  closed : c.state = .closed
  ended : c.cancelled = false → c.ended.isSome
  returned : ∀ v, c.ended = some (.ok v) → c.cancelled = false → r = v
  panicked : ∀ p, c.ended = some (.error p) → c.cancelled = false → r.status = .fatalError
  cancelled : c.cancelled = true →
    r.status = .interrupted ∨ ∃ e, c.ended = some e ∧ r = c.outcome e

/-- The child goes on by its work, or is cancelled. -/
structure Goes (c c' : Child) : Prop where
  id : c'.id = c.id
  name : c'.name = c.name
  taken : c'.taken = c.taken
  ended : ∀ e, c.ended = some e → c'.ended = some e
  cancelled : c.cancelled → c'.cancelled
  closed : c.state = .closed → c'.state = .closed

variable {c c' : Child} {r : OperationResult}

theorem Goes.refl (c : Child) : c.Goes c :=
  ⟨rfl, rfl, rfl, fun _ he => he, fun h => h, fun h => h⟩

theorem goes_cancel (abort : Bool) (c : Child) : c.Goes (c.cancel abort) := by
  unfold cancel
  split
  · next h =>
    exact ⟨rfl, rfl, rfl, fun _ he => he, fun _ => rfl, fun hc => nomatch h.symm.trans hc⟩
  · exact .refl c

theorem accounts_of_result? (h : c.result? = some r) : c.Accounts r := by
  unfold result? at h
  split at h
  · next he => exact .inl ⟨_, he, (Option.some.inj h).symm⟩
  · next he => exact .inl ⟨_, he, (Option.some.inj h).symm⟩
  · split at h
    · next hc => exact .inr ⟨hc, (Option.some.inj h).symm⟩
    · cases h

theorem Accounts.goes (h : c.Accounts r) (hc : c.Goes c') : c'.Accounts r := by
  rcases h with ⟨e, he, rfl⟩ | ⟨hcancelled, rfl⟩
  · refine .inl ⟨e, hc.ended e he, ?_⟩
    cases e with
    | ok r => rfl
    | error p => rw [outcome, outcome, hc.name]
  · exact .inr ⟨hc.cancelled hcancelled, by rw [hc.name]⟩

theorem Accounts.settled (h : c.Accounts r) (hc : c.state = .closed) : c.Settled r := by
  rcases h with ⟨e, he, rfl⟩ | ⟨hcancelled, rfl⟩
  · refine ⟨hc, fun _ => by rw [he]; rfl, fun v hv _ => ?_, fun p hp _ => ?_,
      fun _ => .inr ⟨e, he, rfl⟩⟩
    · obtain rfl := Option.some.inj (he.symm.trans hv)
      rfl
    · obtain rfl := Option.some.inj (he.symm.trans hp)
      rfl
  · have no (h : c.cancelled = false) : False := nomatch hcancelled.symm.trans h
    exact ⟨hc, fun h => (no h).elim, fun _ _ h => (no h).elim, fun _ _ h => (no h).elim,
      fun _ => .inl rfl⟩

end Child

/-- The books about children that were spawned in this order: what was paid into the result,
and which of them were taken since. -/
structure Ledger (children : List Child) (paid : List OperationResult) (batch : List Nat) :
    Prop where
  range : batch = List.range' paid.length batch.length
  room : paid.length + batch.length ≤ children.length
  taken : ∀ (k : Nat) c, children[k]? = some c → (c.taken ↔ k < paid.length + batch.length)
  closed : ∀ (k : Nat) c r, children[k]? = some c → paid[k]? = some r →
    c.state = .closed ∧ c.Accounts r

namespace Ledger

variable {cs cs' : List Child} {paid : List OperationResult} {batch : List Nat} {i : Nat}
  {c : Child} {r : OperationResult}

theorem nil : Ledger [] [] [] := ⟨rfl, Nat.le_refl 0, nofun, nofun⟩

theorem goes (h : Ledger cs paid batch) (hc : List.Forall₂ Child.Goes cs cs') :
    Ledger cs' paid batch := by
  have back {k : Nat} {c' : Child} (hk : cs'[k]? = some c') :
      ∃ c, cs[k]? = some c ∧ c.Goes c' := by
    obtain ⟨hlt, rfl⟩ := List.getElem?_eq_some_iff.mp hk
    have hlt' : k < cs.length := hc.length_eq ▸ hlt
    exact ⟨cs[k], List.getElem?_eq_getElem hlt', hc.get hlt' hlt⟩
  refine ⟨h.range, hc.length_eq ▸ h.room, fun k c' hk => ?_, fun k c' r hk hr => ?_⟩
  · obtain ⟨c, hk, hg⟩ := back hk
    rw [hg.taken]
    exact h.taken k c hk
  · obtain ⟨c, hk, hg⟩ := back hk
    obtain ⟨hs, ha⟩ := h.closed k c r hk hr
    exact ⟨hg.closed hs, ha.goes hg⟩

/-- A new child comes last, and nobody waits for it yet. -/
theorem spawn (h : Ledger cs paid batch) (hc : c.taken = false) :
    Ledger (cs ++ [c]) paid batch := by
  have hroom := h.room
  refine ⟨h.range, by simp; omega, fun k c' hk => ?_, fun k c' r hk hr => ?_⟩
  · rcases Nat.lt_or_ge k cs.length with hlt | hge
    · rw [List.getElem?_append_left hlt] at hk
      exact h.taken k c' hk
    · rw [List.getElem?_append_right hge] at hk
      obtain rfl := List.mem_singleton.mp (List.mem_of_getElem? hk)
      simp only [hc, Bool.false_eq_true, false_iff]
      omega
  · have hlt := (List.getElem?_eq_some_iff.mp hr).1
    rw [List.getElem?_append_left (by omega)] at hk
    exact h.closed k c' r hk hr

/-- Nobody waits for the children that are not paid for yet. -/
theorem pending {handle : Handle} (h : Ledger handle.children paid []) :
    handle.pending = List.range' paid.length (handle.children.length - paid.length) := by
  have hroom : paid.length ≤ handle.children.length := h.room
  have split : List.range handle.children.length
      = List.range paid.length
        ++ List.range' paid.length (handle.children.length - paid.length) := by
    conv_lhs => rw [← Nat.add_sub_cancel' hroom, List.range_eq_range', ← List.range'_append_1]
    rw [Nat.zero_add, List.range_eq_range']
  have taken {k : Nat} (hk : k < handle.children.length) :
      (handle.children[k]?.any fun c => !c.taken) = decide (paid.length ≤ k) := by
    have := h.taken k _ (List.getElem?_eq_getElem hk)
    rw [List.getElem?_eq_getElem hk, Option.any_some]
    rw [Bool.eq_iff_iff, decide_eq_true_iff, Bool.not_eq_true', ← Bool.not_eq_true, this]
    simp
  rw [Handle.pending, split, List.filter_append]
  rw [List.filter_eq_nil_iff.mpr, List.filter_eq_self.mpr, List.nil_append]
  · intro k hk
    obtain ⟨hle, hlt⟩ := List.mem_range'_1.mp hk
    rw [taken (by omega)]
    exact decide_eq_true hle
  · intro k hk
    have hlt := List.mem_range.mp hk
    rw [taken (by omega)]
    simpa using hlt

theorem take {handle : Handle} (h : Ledger handle.children paid []) :
    Ledger handle.takePending.children paid handle.pending := by
  have hroom : paid.length ≤ handle.children.length := h.room
  have hlen : handle.pending.length = handle.children.length - paid.length := by
    rw [h.pending, List.length_range']
  have same {k : Nat} {c' : Child} (hk : handle.takePending.children[k]? = some c') :
      ∃ c, handle.children[k]? = some c ∧ { c with taken := true } = c' := by
    simpa [Handle.takePending] using hk
  refine ⟨by rw [hlen, h.pending], ?_, fun k c' hk => ?_, fun k c' r hk hr => ?_⟩
  · simp only [hlen, Handle.takePending, List.length_map]
    omega
  · obtain ⟨c, hc, rfl⟩ := same hk
    have hlt := (List.getElem?_eq_some_iff.mp hc).1
    simp only [true_iff]
    omega
  · obtain ⟨c, hc, rfl⟩ := same hk
    exact h.closed k c r hc hr

/-- Where no two children share an identifier, it is the next one that is closed. -/
theorem close {handle : Handle} (h : Ledger handle.children paid (i :: batch))
    (distinct : (handle.children.map Child.id).Nodup) (hc : handle.children[i]? = some c)
    (hr : c.result? = some r) :
    Ledger (handle.closeChild c.id).children (paid ++ [r]) batch := by
  obtain ⟨rfl, hbatch⟩ : i = paid.length ∧ batch = List.range' (paid.length + 1) batch.length := by
    have := h.range
    rw [List.length_cons, List.range'_succ] at this
    exact List.cons.inj this
  have hlt := (List.getElem?_eq_some_iff.mp hc).1
  have hfind : (handle.children.findIdx fun c' => c'.id = c.id) = paid.length := by
    rw [List.findIdx_eq hlt]
    obtain rfl : handle.children[paid.length] = c := (List.getElem?_eq_some_iff.mp hc).2
    refine ⟨decide_eq_true rfl, fun j hj => ?_⟩
    refine decide_eq_false fun hid => absurd ?_ (Nat.ne_of_lt hj)
    have same : (handle.children.map Child.id).get ⟨j, by simp; omega⟩
        = (handle.children.map Child.id).get ⟨paid.length, by simpa using hlt⟩ := by
      simpa using hid
    exact congrArg Fin.val (List.nodup_iff_injective_get.mp distinct same)
  have closed (k : Nat) : (handle.closeChild c.id).children[k]?
      = if paid.length = k then some { c with state := .closed } else handle.children[k]? := by
    rw [Handle.closeChild, hfind, List.getElem?_modify]
    split
    · next hk =>
      subst hk
      rw [hc]
      rfl
    · cases handle.children[k]? <;> rfl
  have hroom := h.room
  have htaken := h.taken
  simp only [List.length_cons] at hroom htaken
  refine ⟨by simpa using hbatch, ?_, fun k c' hk => ?_, fun k c' r' hk hr' => ?_⟩
  · simp only [Handle.closeChild, List.length_modify, List.length_append, List.length_singleton]
    omega
  · have before : ∃ c₀, handle.children[k]? = some c₀ ∧ c'.taken = c₀.taken := by
      rw [closed] at hk
      split at hk
      · next hp =>
        cases hk
        exact ⟨c, hp ▸ hc, rfl⟩
      · exact ⟨c', hk, rfl⟩
    obtain ⟨c₀, hk, hsame⟩ := before
    rw [hsame, htaken k c₀ hk, List.length_append, List.length_singleton]
    omega
  · rw [closed] at hk
    by_cases hp : paid.length = k
    · subst hp
      rw [if_pos rfl] at hk
      cases hk
      obtain rfl : r = r' := by simpa using hr'
      exact ⟨rfl, (Child.accounts_of_result? hr).goes
        ⟨rfl, rfl, rfl, fun _ he => he, fun hc => hc, fun _ => rfl⟩⟩
    · rw [if_neg hp] at hk
      have hlt' : k < paid.length := by
        have := (List.getElem?_eq_some_iff.mp hr').1
        simp only [List.length_append, List.length_singleton] at this
        omega
      rw [List.getElem?_append_left hlt'] at hr'
      exact h.closed k c' r' hk hr'

/-- When all are paid for, there is one result for each child, in order. -/
theorem settled (h : Ledger cs paid batch) (hn : paid.length = cs.length) :
    List.Forall₂ Child.Settled cs paid := by
  refine List.forall₂_iff_get.mpr ⟨hn.symm, fun k hk hk' => ?_⟩
  obtain ⟨hs, ha⟩ := h.closed k _ _ (List.getElem?_eq_getElem hk) (List.getElem?_eq_getElem hk')
  exact ha.settled hs

end Ledger

namespace World

/-- The handles that there were have the children that they had, which may have gone on. -/
def LeavesChildren (w w' : World) : Prop :=
  ∀ k handle, w.handle? k = some handle → ∃ handle', w'.handle? k = some handle' ∧
    List.Forall₂ Child.Goes handle.children handle'.children

section

variable {w w' : World} {place : Place} {h : HandleId}

theorem forall₂_goes_refl (cs : List Child) : List.Forall₂ Child.Goes cs cs :=
  List.forall₂_same.mpr fun c _ => .refl c

theorem map_id_of_goes {cs cs' : List Child} (h : List.Forall₂ Child.Goes cs cs') :
    cs'.map Child.id = cs.map Child.id := by
  induction h with
  | nil => rfl
  | cons hc _ ih => rw [List.map_cons, List.map_cons, hc.id, ih]

theorem LeavesChildren.length (hw : w.LeavesChildren w') :
    w.handles.length ≤ w'.handles.length := by
  by_contra hlt
  have hlt : w'.handles.length < w.handles.length := Nat.lt_of_not_le hlt
  obtain ⟨handle, hh, -⟩ := hw ⟨w'.handles.length⟩ _ (List.getElem?_eq_getElem hlt)
  simp [handle?] at hh

theorem leavesChildren_of_handles (hw : w'.handles = w.handles) : w.LeavesChildren w' :=
  fun _ handle hh => ⟨handle, by rw [handle?, hw]; exact hh, forall₂_goes_refl _⟩

theorem leavesChildren_of_modify {f : Handle → Handle}
    (hw : w'.handles = w.handles.modify h.index f)
    (hf : ∀ handle, w.handle? h = some handle →
      List.Forall₂ Child.Goes handle.children (f handle).children) :
    w.LeavesChildren w' := by
  rintro ⟨k⟩ handle hh
  refine ⟨if h.index = k then f handle else handle, ?_, ?_⟩
  · rw [handle?, hw, List.getElem?_modify, show w.handles[k]? = some handle from hh]
    rfl
  · split
    · next hk =>
      subst hk
      exact hf handle hh
    · exact forall₂_goes_refl _

theorem forall₂_cancelChildren (abort : Bool) (handle : Handle) :
    List.Forall₂ Child.Goes handle.children (handle.cancelChildren abort).children := by
  rw [Handle.cancelChildren, List.forall₂_map_right_iff]
  exact List.forall₂_same.mpr fun c _ => Child.goes_cancel abort c

theorem forall₂_modify {f : Child → Child} {c : Child} (hf : c.Goes (f c)) {cs : List Child}
    {i : Nat} (hc : cs[i]? = some c) : List.Forall₂ Child.Goes cs (cs.modify i f) := by
  induction cs generalizing i with
  | nil => cases hc
  | cons c' cs ih =>
      cases i with
      | zero =>
          cases hc
          exact .cons hf (forall₂_goes_refl cs)
      | succ i => exact .cons (.refl c') (ih hc)

/-- A change to one child, by which it goes on. -/
theorem leavesChildren_of_child {i : Nat} {c : Child} {f : Child → Child}
    (hc : w.child? h i = some c) (hw : w'.handles = w.handles) (hf : c.Goes (f c)) :
    w.LeavesChildren (w'.onChild h i f) := by
  refine leavesChildren_of_modify (by rw [onChild, onHandle, hw]) fun handle hh => ?_
  rw [child?, hh] at hc
  exact forall₂_modify hf hc

/-- A child goes on by its work, to its end or on the way there. -/
theorem stepChild?_leavesChildren {i : Nat} (hw : w.stepChild? h i = some w') :
    w.LeavesChildren w' := by
  cases stepChild?_eq_some_iff.mp hw with
  | ends hc _ hn _ =>
      exact leavesChildren_of_child hc rfl
        ⟨rfl, rfl, rfl, fun e he => (nomatch hn.symm.trans he), fun h => h, fun h => h⟩
  | answered hc _ _ _ hp =>
      exact leavesChildren_of_child hc (performChild_same hp).2.2.2.2
        ⟨rfl, rfl, rfl, fun e he => he, fun h => h, fun h => h⟩

/-- Calls by which a firing neither spawns children nor runs its handler leave the children
alone but for cancelling them. -/
theorem Answers.leavesChildren {r : Call} {a : r.Response} (ha : w.Answers place r a w')
    (hs : ∀ h spec, r ≠ .spawn h spec) (hh : ∀ h oid call, r ≠ .handler h oid call) :
    w.LeavesChildren w' := by
  cases ha with
  | gathered _ | cut _ => exact leavesChildren_of_handles rfl
  | performed hp =>
      cases r with
      | spawn h spec => exact absurd rfl (hs h spec)
      | handler h oid call => exact absurd rfl (hh h oid call)
      | collect => cases hp
      | newHandle oid =>
          cases hp
          refine fun k handle hh => ⟨handle, ?_, forall₂_goes_refl _⟩
          have hlt : k.index < w.handles.length := (List.getElem?_eq_some_iff.mp hh).1
          exact (List.getElem?_append_left hlt).trans hh
      | clearCanRun h | setSafe h | setExecuting h | interruptHandler h =>
          cases hp
          exact leavesChildren_of_modify rfl fun _ _ => forall₂_goes_refl _
      | cancelChildren h abort =>
          cases hp
          exact leavesChildren_of_modify rfl fun handle _ => forall₂_cancelChildren abort handle
      | register h => exact leavesChildren_of_handles (register_handles (Option.some.inj hp))
      | deregister h => exact leavesChildren_of_handles (deregister_handles (Option.some.inj hp))
      | _ =>
          cases hp
          exact leavesChildren_of_handles rfl

end

end World

/-- The children that are spawned in a deed. -/
def Deed.spawned : Deed → List ChildId
  | .answered (.spawn _ _) id => [id]
  | .answered (.handler _ _ (.spawn _)) (some id) => [id]
  | _ => []

namespace World

/-- The children of the handle are these, in the order in which they were spawned, and the
books about them are right unless two of them share an identifier. -/
def Books (h : HandleId) (ids : List ChildId) (paid : List OperationResult) (batch : List Nat)
    (w : World) : Prop :=
  ∃ handle, w.handle? h = some handle ∧ handle.children.map Child.id = ids ∧
    (ids.Nodup → Ledger handle.children paid batch)

namespace Books

variable {w w' : World} {place : Place} {h : HandleId} {ids : List ChildId}
  {paid : List OperationResult} {batch : List Nat}

theorem same (hb : w.Books h ids paid batch) (hw : w'.handle? h = w.handle? h) :
    w'.Books h ids paid batch := by
  rwa [Books, hw]

theorem goes (hb : w.Books h ids paid batch) (hw : w.LeavesChildren w') :
    w'.Books h ids paid batch := by
  obtain ⟨handle, hh, rfl, hl⟩ := hb
  obtain ⟨handle', hh', hg⟩ := hw h handle hh
  exact ⟨handle', hh', map_id_of_goes hg, fun hn => (hl hn).goes hg⟩

theorem onHandle {f : Handle → Handle} {ids' : List ChildId} {paid' : List OperationResult}
    {batch' : List Nat} (hb : w.Books h ids paid batch)
    (hw : w'.handles = w.handles.modify h.index f)
    (hf : ∀ handle, w.handle? h = some handle → handle.children.map Child.id = ids →
      (f handle).children.map Child.id = ids' ∧
        (ids'.Nodup → ids.Nodup ∧ (Ledger handle.children paid batch →
          Ledger (f handle).children paid' batch'))) :
    w'.Books h ids' paid' batch' := by
  obtain ⟨handle, hh, hids, hl⟩ := hb
  obtain ⟨hids', hl'⟩ := hf handle hh hids
  refine ⟨f handle, ?_, hids', fun hn => (hl' hn).2 (hl (hl' hn).1)⟩
  rw [handle?, hw, List.getElem?_modify, show w.handles[h.index]? = some handle from hh]
  simp

/-- A new handle has no children. -/
theorem newHandle {oid : TaskOid} (ha : w.Answers place (.newHandle oid) h w') :
    w'.Books h [] [] [] := by
  cases ha with
  | performed hp =>
      cases hp
      exact ⟨{ oid }, by simp [handle?], rfl, fun _ => Ledger.nil⟩

theorem spawn (hb : w.Books h ids paid batch) (spec : ChildSpec) :
    (w.spawn h spec).2.Books h (ids ++ [(w.spawn h spec).1]) paid batch := by
  refine hb.onHandle (f := (·.spawn (w.spawn h spec).1 spec)) rfl fun handle _ hids => ⟨?_, ?_⟩
  · rw [← hids]
    simp [Handle.spawn]
  · exact fun hn => ⟨hn.sublist (List.sublist_append_left _ _), fun hl => hl.spawn rfl⟩

/-- The handler may spawn a child, and changes nothing about the others. -/
theorem handler {oid : TaskOid} {call : HandlerCall} {a : Option call.Response}
    (hb : w.Books h ids paid batch) (ha : w.Answers place (.handler h oid call) a w') :
    w'.Books h (ids ++ Deed.spawned (.answered (.handler h oid call) a)) paid batch := by
  have quiet (hs : Deed.spawned (.answered (.handler h oid call) a) = [])
      (hw : w'.handles = w.handles) :
      w'.Books h (ids ++ Deed.spawned (.answered (.handler h oid call) a)) paid batch := by
    rw [hs, List.append_nil]
    exact hb.same (by rw [handle?, handle?, hw])
  cases ha with
  | cut _ =>
      refine quiet ?_ rfl
      cases call <;> rfl
  | performed hp =>
      obtain ⟨⟨b, w₁⟩, hanswer, he⟩ := Option.map_eq_some_iff.mp hp
      obtain ⟨rfl, rfl⟩ := Prod.mk.inj he
      cases call with
      | spawn spec =>
          cases hanswer
          exact hb.spawn spec
      | wait _ | awaitInterrupt =>
          obtain ⟨-, hanswer⟩ := Option.ite_none_right_eq_some.mp hanswer
          cases hanswer
          exact quiet rfl rfl
      | disturb d =>
          cases hanswer
          cases d <;> exact quiet rfl rfl
      | canRun | identity | write | switchToWaiting =>
          cases hanswer
          exact quiet rfl rfl

theorem take (hb : w.Books h ids paid []) (ht : w.takePending h = (batch, w')) :
    w'.Books h ids paid batch := by
  have ⟨handle, hh, _⟩ := hb
  obtain ⟨hbatch, rfl⟩ := Prod.mk.inj ht
  rw [hh] at hbatch
  obtain rfl : handle.pending = batch := hbatch
  refine hb.onHandle rfl fun handle' hh' hids => ?_
  obtain rfl : handle = handle' := Option.some.inj (hh.symm.trans hh')
  refine ⟨?_, fun hn => ⟨hn, Ledger.take⟩⟩
  rw [← hids]
  simp [Handle.takePending]

/-- When nobody is left to wait for, all are paid for. -/
theorem settled (hb : w.Books h ids paid []) (ht : w.takePending h = ([], w')) (hn : ids.Nodup) :
    ids.length = paid.length := by
  obtain ⟨handle, hh, rfl, hl⟩ := hb
  have hl := hl hn
  have hpending := (Prod.mk.inj ht).1
  rw [hh] at hpending
  have hnone := congrArg List.length (hl.pending.symm.trans hpending)
  have hroom : paid.length ≤ handle.children.length := hl.room
  simp only [List.length_range', List.length_nil, List.length_map] at hnone ⊢
  omega

theorem close {i : Nat} {r : OperationResult} (hb : w.Books h ids paid (i :: batch))
    (hc : w.closeTaken? h i = some (r, w')) : w'.Books h ids (paid ++ [r]) batch := by
  simp only [closeTaken?, Option.bind_eq_bind, Option.bind_eq_some_iff, Option.some.injEq,
    Prod.mk.injEq] at hc
  obtain ⟨c, hchild, r, hr, rfl, rfl⟩ := hc
  refine hb.onHandle rfl fun handle hh hids => ?_
  rw [child?, hh] at hchild
  refine ⟨?_, fun hn => ⟨hn, fun hl => hl.close (hids ▸ hn) hchild hr⟩⟩
  rw [← hids, Handle.closeChild]
  refine List.ext_getElem? fun k => ?_
  simp only [List.getElem?_map, List.getElem?_modify]
  cases handle.children[k]? with
  | none => rfl
  | some c' =>
      simp only [Option.map_some]
      split <;> rfl

end Books

end World

end TaskFiring
