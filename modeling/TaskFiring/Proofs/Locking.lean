import TaskFiring.Proofs.Copies
import TaskFiring.Proofs.Rehearsal

/-!
The optimistic lock of the store. Versions rise with every write, and nothing else changes a
record, so whoever writes by the version of a copy replaces what was copied: not a record of
the same version that says something else. This is said of the histories of a store, in which
anybody may read, write, insert and count, and the store may come and go meanwhile.
-/

namespace TaskFiring

namespace Store

/-- What is asked of a store, or done to it as a whole. -/
inductive Op
  | get (oid : TaskOid)
  | modify (oid : TaskOid) (d : TaskDelta) (p : Precondition)
  | insert (t : Task)
  | countRunning (group : String) (exclude : TaskOid)
  | setAvailable (value : Bool)

inductive Reply
  | task (t : Task)
  | count (n : Nat)
  | done

def Op.perform (s : Store) : Op → Except StoreError Reply × Store
  | .get oid => ((s.get oid).map .task, s)
  | .modify oid d p => ((s.modify oid d p).1.map .task, (s.modify oid d p).2)
  | .insert t => ((s.insert t).1.map fun _ => .done, (s.insert t).2)
  | .countRunning group exclude => ((s.countRunning group exclude).map .count, s)
  | .setAvailable value => (.ok .done, { s with available := value })

/-- The task that an operation reads or writes. -/
def Op.target? : Op → Option TaskOid
  | .get oid | .modify oid _ _ => some oid
  | .insert _ | .countRunning _ _ | .setAvailable _ => none

/-- An operation, and the store that it found. -/
structure Entry where
  before : Store
  op : Op

namespace Entry

def reply (e : Entry) : Except StoreError Reply := (e.op.perform e.before).1

def after (e : Entry) : Store := (e.op.perform e.before).2

end Entry

/-- A sequence of operations, each with the store that it found. -/
def history (s : Store) : List Op → List Entry
  | [] => []
  | op :: ops => ⟨s, op⟩ :: history (op.perform s).2 ops

/-- Every version has a next one. -/
def Spare (s : Store) : Prop := ∀ t ∈ s.tasks.rows, t.version.toNat < UInt64.size - 1

instance (s : Store) : Decidable s.Spare :=
  inferInstanceAs (Decidable (∀ t ∈ s.tasks.rows, t.version.toNat < UInt64.size - 1))

/-- What a precondition asks of a record. -/
def Allows (p : Precondition) (t : Task) : Prop :=
  match p with
  | .always => True
  | .version expected => t.version = expected
  | .scheduling expected => t.scheduling = expected

/-- A field after an update: what the update names for it, or what it was. -/
def Updated {α : Type} (named : Option α) (old new : α) : Prop :=
  (∀ value, named = some value → new = value) ∧ (named = none → new = old)

/-- A record rewritten by an update. -/
structure Rewrites (d : TaskDelta) (t t' : Task) : Prop where
  version : t'.version.toNat = t.version.toNat + 1
  scheduling : Updated d.scheduling t.scheduling t'.scheduling
  execution : Updated d.execution t.execution t'.execution
  node : Updated d.node t.node t'.node
  result : Updated (d.result.map some) t.result t'.result
  completedAt : Updated d.completedAt t.completedAt t'.completedAt
  /-- No other field has changed. -/
  rest : { t with version := t'.version, scheduling := t'.scheduling,
                  execution := t'.execution, node := t'.node, result := t'.result,
                  completedAt := t'.completedAt } = t'

namespace Entry

def Fails (e : Entry) : Prop := ∃ error, e.reply = .error error

/-- The operation has told a task. -/
def Returns (e : Entry) (oid : TaskOid) (t : Task) : Prop :=
  e.op.target? = some oid ∧ e.reply = .ok (.task t)

/-- A write succeeds exactly where it may, and then rewrites its target and nothing else. -/
def WritesOnce (e : Entry) : Prop :=
  ∀ oid d p, e.op = .modify oid d p →
    ((∃ t, e.Returns oid t) ↔
      e.before.available ∧ ∃ r, e.before.find? oid = some r ∧ Allows p r) ∧
    ∀ t, e.Returns oid t →
      (∃ r, e.before.find? oid = some r ∧ Rewrites d r t) ∧
        e.after.find? oid = some t ∧ e.after.available = e.before.available ∧
        ∀ other, other ≠ oid → e.after.find? other = e.before.find? other

/-- A write by the version of a task that was told before replaces that very task. -/
def Honours (told e : Entry) : Prop :=
  ∀ oid d t t', told.Returns oid t → e.op = .modify oid d (.version t.version) →
    e.Returns oid t' → e.before.find? oid = some t

end Entry

section

variable {s : Store} {op : Op} {e : Entry} {oid : TaskOid} {d : TaskDelta} {p : Precondition}
  {r t : Task}

theorem violation?_eq_none_iff : violation? t p = none ↔ Allows p t := by
  cases p with
  | always => simp [violation?, Allows]
  | version expected => simp [violation?, Allows]
  | scheduling expected => simp [violation?, Allows]

theorem Spare.version_lt (hs : s.Spare) (hr : s.find? oid = some r) :
    r.version.toNat < UInt64.size - 1 :=
  hs r (List.mem_of_find?_eq_some hr)

theorem toNat_version_written (h : r.version.toNat < UInt64.size - 1) :
    (written r d).version.toNat = r.version.toNat + 1 := by
  have : (written r d).version.toNat = (r.version.toNat + 1) % 2 ^ 64 := UInt64.toNat_add ..
  rw [this]
  simp only [UInt64.size] at h
  omega

theorem rewrites_written (h : r.version.toNat < UInt64.size - 1) :
    Rewrites d r (written r d) where
  version := toNat_version_written h
  scheduling := by constructor <;> intros <;> simp_all [written, TaskDelta.apply]
  execution := by constructor <;> intros <;> simp_all [written, TaskDelta.apply]
  node := by constructor <;> intros <;> simp_all [written, TaskDelta.apply]
  result := by
    constructor
    · intro value hv
      obtain ⟨result, hr, rfl⟩ := Option.map_eq_some_iff.mp hv
      simp [written, TaskDelta.apply, hr]
    · intro hn
      simp [written, TaskDelta.apply, Option.map_eq_none_iff.mp hn]
  completedAt := by constructor <;> intros <;> simp_all [written, TaskDelta.apply]
  rest := rfl

/-- Only a task that is not there yet is put in. -/
theorem insert_cases (s : Store) (t : Task) :
    (∃ error, s.insert t = (.error error, s)) ∨
      s.insert t = (.ok (), { s with tasks := s.tasks.put t }) ∧ s.find? t.oid = none := by
  unfold insert
  split
  · split
    · exact .inl ⟨_, rfl⟩
    · next hc =>
      have hnone : s.tasks.find? t.oid = none := by simpa [Table.contains] using hc
      exact .inr ⟨rfl, hnone⟩
  · exact .inl ⟨_, rfl⟩

/-- A write goes through where the store is there and the record meets the condition. -/
theorem modify_of_allows (ha : s.available) (hr : s.find? oid = some r) (hp : Allows p r) :
    (s.modify oid d p).1 = .ok (written r d) := by
  simp [modify, ha, hr, violation?_eq_none_iff.mpr hp]

namespace Entry

/-- A reply that is a task is that of a read or of a write. -/
theorem returns_cases (h : e.Returns oid t) :
    (e.op = .get oid ∧ e.before.get oid = .ok t) ∨
      ∃ d p, e.op = .modify oid d p ∧ (e.before.modify oid d p).1 = .ok t := by
  obtain ⟨s, op⟩ := e
  obtain ⟨htarget, hreply⟩ := h
  cases op with
  | get oid' =>
      cases htarget
      simp only [reply, Op.perform] at hreply
      cases hg : s.get oid with
      | error error => rw [hg] at hreply; cases hreply
      | ok t' =>
          rw [hg] at hreply
          cases hreply
          exact .inl ⟨rfl, rfl⟩
  | modify oid' d p =>
      cases htarget
      simp only [reply, Op.perform] at hreply
      cases hm : (s.modify oid d p).1 with
      | error error => rw [hm] at hreply; cases hreply
      | ok t' =>
          rw [hm] at hreply
          cases hreply
          exact .inr ⟨d, p, rfl, hm⟩
  | insert _ | countRunning _ _ | setAvailable _ => cases htarget

theorem returns_modify (hop : e.op = .modify oid d p) :
    e.Returns oid t ↔ (e.before.modify oid d p).1 = .ok t := by
  constructor
  · intro h
    obtain ⟨hg, -⟩ | ⟨d', p', hm, h⟩ := returns_cases h
    · cases hg.symm.trans hop
    · cases hm.symm.trans hop
      exact h
  · intro h
    refine ⟨by rw [hop]; rfl, ?_⟩
    rw [reply, hop, Op.perform, h]
    rfl

/-- An operation that fails has no effect. -/
theorem after_eq_of_fails (h : e.Fails) : e.after = e.before := by
  obtain ⟨s, op⟩ := e
  obtain ⟨error, h⟩ := h
  cases op with
  | get _ | countRunning _ _ => rfl
  | setAvailable _ => cases h
  | insert t =>
      obtain ⟨error', hi⟩ | ⟨hi, -⟩ := s.insert_cases t
      · simp only [after, Op.perform, hi]
      · simp only [reply, Op.perform, hi] at h
        cases h
  | modify oid d p =>
      obtain ⟨error', hm⟩ | ⟨r, s', hm, -⟩ := s.modify_cases oid d p
      · simp only [after, Op.perform, hm]
      · simp only [reply, Op.perform, hm] at h
        cases h

/-- A write that succeeds has met its condition. -/
theorem exists_returns_iff (hop : e.op = .modify oid d p) :
    (∃ t, e.Returns oid t) ↔
      e.before.available ∧ ∃ r, e.before.find? oid = some r ∧ Allows p r := by
  simp only [returns_modify hop]
  constructor
  · intro h
    obtain ⟨t, h⟩ := h
    have hm : e.before.modify oid d p = (.ok t, (e.before.modify oid d p).2) := Prod.ext h rfl
    obtain ⟨-, r, hr, hv, -⟩ := modify_ok hm
    exact ⟨available_of_modify hm, r, hr, violation?_eq_none_iff.mp hv⟩
  · intro h
    obtain ⟨ha, r, hr, hp⟩ := h
    exact ⟨written r d, modify_of_allows ha hr hp⟩

theorem writesOnce (hs : e.before.Spare) : e.WritesOnce := by
  intro oid d p hop
  refine ⟨exists_returns_iff hop, ?_⟩
  intro t ht
  have hafter : e.after = (e.before.modify oid d p).2 := by rw [after, hop]; rfl
  obtain ⟨ha, r, hr, -, rfl, hf⟩ := modify_ok (Prod.ext ((returns_modify hop).mp ht) rfl)
  rw [hafter]
  refine ⟨⟨r, hr, rewrites_written (hs.version_lt hr)⟩, by simp [hf], ha, ?_⟩
  intro other hother
  rw [hf, if_neg (Ne.symm hother)]

/-- What is told is in the store then. -/
theorem find?_after_of_returns (h : e.Returns oid t) : e.after.find? oid = some t := by
  obtain ⟨hop, hg⟩ | ⟨d, p, hop, hm⟩ := returns_cases h
  · rw [after, hop]
    exact get_ok hg
  · obtain ⟨-, -, -, -, -, hf⟩ := modify_ok (Prod.ext hm rfl)
    rw [after, hop]
    exact (hf oid).trans (if_pos rfl)

/-- A record stays the same, or a higher version takes its place: nobody removes a task, and
none is put in its place. -/
theorem precedes_after (hs : e.before.Spare) (hr : e.before.find? oid = some r)
    (ht : t.Precedes r) : ∃ r', e.after.find? oid = some r' ∧ t.Precedes r' := by
  obtain ⟨s, op⟩ := e
  cases op with
  | get _ | countRunning _ _ | setAvailable _ => exact ⟨r, hr, ht⟩
  | insert t' =>
      obtain ⟨error, hi⟩ | ⟨hi, hnone⟩ := s.insert_cases t'
      · refine ⟨r, ?_, ht⟩
        simpa only [after, Op.perform, hi] using hr
      · refine ⟨r, ?_, ht⟩
        have hne : t'.oid ≠ oid := by
          intro heq
          rw [heq] at hnone
          cases hnone.symm.trans hr
        simp only [after, Op.perform, hi]
        exact (Table.find?_put _ _ _).trans ((if_neg hne).trans hr)
  | modify oid' d p =>
      obtain ⟨error, hm⟩ | ⟨r₀, s', hm, hr₀, -, -, hf⟩ := s.modify_cases oid' d p
      · refine ⟨r, ?_, ht⟩
        simpa only [after, Op.perform, hm] using hr
      · simp only [after, Op.perform, hm, hf]
        by_cases ho : oid' = oid
        · subst ho
          obtain rfl : r₀ = r := Option.some.inj (hr₀.symm.trans hr)
          have hv := toNat_version_written (d := d) (hs.version_lt hr)
          have hle := ht.1
          refine ⟨written r₀ d, if_pos rfl, by omega, ?_⟩
          intro heq
          rw [heq] at hle
          omega
        · exact ⟨r, (if_neg ho).trans hr, ht⟩

end Entry

/-- A task that was told is the record, or older than it, ever after. -/
theorem precedes_of_history {ops : List Op} (hs : ∀ e ∈ s.history ops, e.before.Spare)
    (hr : s.find? oid = some r) (ht : t.Precedes r) :
    ∀ e ∈ s.history ops, ∃ r', e.before.find? oid = some r' ∧ t.Precedes r' := by
  induction ops generalizing s r with
  | nil => simp [history]
  | cons op ops ih =>
      obtain ⟨hfirst, hrest⟩ := List.forall_mem_cons.mp hs
      obtain ⟨r', hr', ht'⟩ := Entry.precedes_after hfirst hr ht
      exact List.forall_mem_cons.mpr ⟨⟨r, hr, ht⟩, ih hrest hr' ht'⟩

/-- What is of the version of an older copy is that copy. -/
theorem honours_of_precedes {told : Entry}
    (h : ∀ oid t, told.Returns oid t →
      ∃ r, e.before.find? oid = some r ∧ t.Precedes r) : told.Honours e := by
  intro oid d t t' htold hop ht'
  obtain ⟨r, hr, hprecedes⟩ := h oid t htold
  obtain ⟨-, r', hr', hv⟩ := (Entry.exists_returns_iff hop).mp ⟨t', ht'⟩
  obtain rfl : r = r' := Option.some.inj (hr.symm.trans hr')
  rw [hr, hprecedes.2 hv.symm]

theorem pairwise_honours {ops : List Op} (hs : ∀ e ∈ s.history ops, e.before.Spare) :
    (s.history ops).Pairwise Entry.Honours := by
  induction ops generalizing s with
  | nil => exact .nil
  | cons op ops ih =>
      obtain ⟨-, hrest⟩ := List.forall_mem_cons.mp hs
      refine List.pairwise_cons.mpr ⟨?_, ih hrest⟩
      intro e he
      apply honours_of_precedes
      intro oid t ht
      exact precedes_of_history hrest (Entry.find?_after_of_returns ht) (.refl t) e he

/-- The optimistic lock of a store is sound: what fails has no effect, a write goes through
exactly where it may and rewrites its target only, and one that goes by the version of a task
told before finds that task unchanged. -/
theorem optimistic_lock_sound (s : Store) (ops : List Op)
    (hs : ∀ e ∈ s.history ops, e.before.Spare) :
    (∀ e ∈ s.history ops, e.Fails → e.after = e.before) ∧
      (∀ e ∈ s.history ops, e.WritesOnce) ∧
        (s.history ops).Pairwise Entry.Honours := by
  refine ⟨?_, ?_, pairwise_honours hs⟩
  · intro e _ hfails
    exact Entry.after_eq_of_fails hfails
  · intro e he
    exact Entry.writesOnce (hs e he)

/-- Two writers contend for the task: the one that comes second by the version read at first
fails, reads again while the store comes and goes, and then succeeds. -/
def contention : List Op :=
  let oid := Rehearsal.task.oid
  [.insert Rehearsal.task, .get oid,
    .modify oid { node := some (some ⟨"a"⟩) } (.version 0),
    .modify oid { execution := some .running } (.version 0),
    .setAvailable false, .get oid, .setAvailable true, .get oid,
    .modify oid { execution := some .running } (.version 1)]

theorem optimistic_lock_sound_contended :
    (∀ e ∈ history {} contention, e.before.Spare) ∧
      (∀ e ∈ history {} contention, e.Fails → e.after = e.before) ∧
        (∀ e ∈ history {} contention, e.WritesOnce) ∧
          (history {} contention).Pairwise Entry.Honours := by
  have spare : ∀ e ∈ history {} contention, e.before.Spare := by decide
  exact ⟨spare, optimistic_lock_sound {} contention spare⟩

end

end Store
end TaskFiring
