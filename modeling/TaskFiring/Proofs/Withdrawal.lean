import Mathlib.Data.List.Basic
import TaskFiring.Proofs.Interference

/-!
Closing and suspending beside firings that start the task. Both read the record first and leave
the execution state alone where they have read that the task runs; the write that follows is
unconditional. So they replace the state of a running task exactly if another firing has
started it between the two.
-/

namespace TaskFiring
namespace Withdrawal

open Administration
open Program (Follows)

/-- What takes a task out of the tasks that are ready. -/
inductive Part
  | close (oid : TaskOid)
  | suspend (oid : TaskOid)

namespace Part

def oid : Part → TaskOid
  | .close oid | .suspend oid => oid

def program : Part → Action (Except Cause Task)
  | .close oid => (Administration.close oid).run
  | .suspend oid => (Administration.suspend oid).run

def scheduling : Part → SchedulingState
  | .close _ => .closed
  | .suspend _ => .suspended

def execution : Part → ExecutionState
  | .close _ => .closed
  | .suspend _ => .suspended

end Part

/-- Another firing asks to start the task on a node, and is answered so. -/
abbrev Start := NodeId × Except StoreError Task

abbrev History := List (Happening Start)

/-- Another firing starts the task, or fails to because of its version or the store. -/
def Starts (oid : TaskOid) (w : World) (start : Start) (w' : World) : Prop :=
  ∃ place expected,
    w.Answers place (.modify oid (Possession.runningDelta start.1) (.version expected)) start.2 w'

/-- Another firing has started the task. -/
def IsStart : Happening Start → Prop
  | .other (_, .ok _) => True
  | _ => False

/-- The part has read the task, and this is its record. -/
def look (part : Part) (t : Task) : Happening Start :=
  .served (.answered (.get part.oid) (.ok t))

/-- The update of a part that has read a task. -/
structure Fits (part : Part) (t : Task) (d : TaskDelta) : Prop where
  scheduling : d.scheduling = some part.scheduling
  node : d.node = none
  execution : d.execution = if t.execution = .running then none else some part.execution

inductive Stance
  | outset
  /-- The task has been read. -/
  | seen (t : Task)
  /-- It has been written, and the trigger engine is to be told. -/
  | carried
  | finished

/-- The calls of a part. -/
inductive Move (part : Part) : Protocol Calls Stance
  | look {t : Task} : Move part .outset (.get part.oid) (.ok t) (.seen t)
  | miss {e : StoreError} : Move part .outset (.get part.oid) (.error e) .finished
  | tick {t : Task} {now : Instant} : Move part (.seen t) .now now (.seen t)
  | carry {t t' : Task} {d : TaskDelta} : Fits part t d →
      Move part (.seen t) (.modify part.oid d .always) (.ok t') .carried
  | fail {t : Task} {d : TaskDelta} {e : StoreError} :
      Move part (.seen t) (.modify part.oid d .always) (.error e) .finished
  | tell {r : Call} {a : r.Response} : ¬ r.MayWrite → Move part .carried r a .finished

theorem fits_closing (oid : TaskOid) (t : Task) (now : Instant) :
    Fits (.close oid) t (closingDelta t now) :=
  ⟨rfl, rfl, rfl⟩

theorem fits_suspending (oid : TaskOid) (t : Task) : Fits (.suspend oid) t (suspendingDelta t) :=
  ⟨rfl, rfl, rfl⟩

/-- The write, and the call to the trigger engine after it. -/
theorem carry_runs {part : Part} {t : Task} {d : TaskDelta} {rest : Task → Attempt Task}
    (hd : Fits part t d)
    (hrest : ∀ t', (rest t').run.Follows Call.Anyhow (Move part) .carried fun _ _ => True) :
    (orFail (call (.modify part.oid d .always)) Cause.store >>= rest).run.Follows Call.Anyhow
      (Move part) (.seen t) fun _ _ => True := by
  intro answer _
  cases answer with
  | error e => exact ⟨_, .fail, trivial⟩
  | ok t' => exact ⟨_, .carry hd, hrest t'⟩

theorem Part.program_runs (part : Part) :
    part.program.Follows Call.Anyhow (Move part) .outset fun _ _ => True := by
  cases part with
  | close oid =>
      unfold Part.program Administration.close
      intro answer _
      cases answer with
      | error e => exact ⟨_, .miss, trivial⟩
      | ok t =>
          refine ⟨_, .look, ?_⟩
          intro now _
          refine ⟨_, .tick, carry_runs (fits_closing oid t now) ?_⟩
          intro t' answer _
          refine ⟨_, .tell nofun, ?_⟩
          cases answer <;> trivial
  | suspend oid =>
      unfold Part.program Administration.suspend
      intro answer _
      cases answer with
      | error e => exact ⟨_, .miss, trivial⟩
      | ok t =>
          refine ⟨_, .look, carry_runs (fits_suspending oid t) ?_⟩
          intro t' answer _
          refine ⟨_, .tell nofun, ?_⟩
          cases answer <;> trivial

/-- What the record is since the part has read it. -/
structure Since (part : Part) (t : Task) (ys : History) (w : World) : Prop where
  started : (∃ y ∈ ys, IsStart y) →
    ∃ r, w.store.find? part.oid = some r ∧ r.execution = .running
  same : (∀ y ∈ ys, ¬ IsStart y) → w.store.find? part.oid = some t

/-- What a stance says of the past. -/
def Stance.Shown (part : Part) (xs : History) (w : World) : Stance → Prop
  | .outset => ∀ t, look part t ∉ xs
  | .seen t => ∃ before after, xs = before ++ look part t :: after ∧
      (∀ t', look part t' ∉ before ∧ look part t' ∉ after) ∧ Since part t after w
  | .carried | .finished => True

section

variable {part : Part} {s s' : Stance} {t : Task} {xs ys : History} {x : Happening Start}
  {w w' : World} {place : Place}

/-- What leaves the record alone, and is no start, changes nothing. -/
theorem Since.idle (hi : Since part t ys w) (hx : ¬ IsStart x)
    (hw : w'.store.find? part.oid = w.store.find? part.oid) : Since part t (ys ++ [x]) w' where
  started := by
    rintro ⟨y, hy, hs⟩
    rcases List.mem_append.mp hy with hy | hy
    · rw [hw]
      exact hi.started ⟨y, hy, hs⟩
    · cases List.mem_singleton.mp hy
      exact absurd hs hx
  same := by
    intro none
    rw [hw]
    exact hi.same (forall_mem_snoc.mp none).1

/-- A start that succeeds leaves the task running, and one that fails leaves it as it is. -/
theorem Since.start {o : Start} (hi : Since part t ys w) (ho : Starts part.oid w o w') :
    Since part t (ys ++ [.other o]) w' := by
  obtain ⟨node, answer⟩ := o
  obtain ⟨place, expected, ha⟩ := ho
  have hm : w.store.modify part.oid (Possession.runningDelta node) (.version expected)
      = (answer, w'.store) := ha.modify.2
  cases answer with
  | error e =>
      refine hi.idle id ?_
      rw [Store.eq_of_modify_error hm]
  | ok t' =>
      obtain ⟨-, r, -, -, rfl, hfind⟩ := Store.modify_ok hm
      refine ⟨fun _ => ⟨_, (hfind _).trans (if_pos rfl), rfl⟩, fun none => ?_⟩
      exact absurd trivial (forall_mem_snoc.mp none).2

theorem look_not_mem_snoc (hxs : look part t ∉ xs) (hx : look part t ≠ x) :
    look part t ∉ xs ++ [x] := by
  simpa using ⟨hxs, hx⟩

/-- While the task has been read and not written, only calls that change nothing are made. -/
theorem shown_seen (hs : (Stance.seen t).Shown part xs w) (hx : ∀ t', look part t' ≠ x)
    (hsince : ∀ ys, Since part t ys w → Since part t (ys ++ [x]) w') :
    (Stance.seen t).Shown part (xs ++ [x]) w' := by
  obtain ⟨before, after, rfl, hlook, hi⟩ := hs
  refine ⟨before, after ++ [x], by simp, fun t' => ⟨(hlook t').1, ?_⟩, hsince after hi⟩
  exact look_not_mem_snoc (hlook t').2 (hx t')

/-- The task has just been read. -/
theorem shown_look (hs : Stance.outset.Shown part xs w) (hr : w.store.find? part.oid = some t) :
    (Stance.seen t).Shown part (xs ++ [look part t]) w :=
  ⟨xs, [], rfl, fun t' => ⟨hs t', List.not_mem_nil⟩, by simp, fun _ => hr⟩

theorem shown_step (hs : s.Shown part xs w)
    (hx : (Move part).Amid place (Starts part.oid) (s, w) x (s', w')) :
    s'.Shown part (xs ++ [x]) w' := by
  cases hx with
  | served ha hm =>
      cases hm with
      | @look t =>
          obtain ⟨rfl, hget⟩ := ha.get
          exact shown_look hs (Store.get_ok hget.symm)
      | tick =>
          refine shown_seen hs (fun _ h => nomatch h) fun ys hi => hi.idle id ?_
          rw [ha.store nofun]
      | carry | miss | fail | tell => trivial
  | failed hf hm =>
      cases hm with
      | look | carry | tick => exact hf.elim
      | miss | fail | tell => trivial
  | other hgoes ho =>
      cases s with
      | outset => exact fun t => look_not_mem_snoc (hs t) fun h => nomatch h
      | seen t => exact shown_seen hs (fun _ h => nomatch h) fun ys hi => hi.start ho
      | carried | finished => trivial

theorem shown_run (hr : Run ((Move part).Amid place (Starts part.oid)) (.outset, w) xs (s, w')) :
    s.Shown part xs w' :=
  hr.invariant (P := fun xs m => m.1.Shown part xs m.2) (by simp [Stance.Shown]) shown_step

/-- A call that does not write has written no record. -/
theorem written?_of_not_mayWrite {r : Call} (a : r.Response) (hr : ¬ r.MayWrite) :
    (Deed.answered r a).written? = none := by
  cases r with
  | modify | handler => exact absurd trivial hr
  | _ => rfl

/-- The one write of a part comes after its read, and is what the record read asks for. -/
theorem written_by (hm : (Move part).Amid place (Starts part.oid) (s, w) x (s', w'))
    (hx : x.written? = some t) :
    ∃ t₀ d r, s = .seen t₀ ∧ Fits part t₀ d ∧ w.store.find? part.oid = some r ∧
      w'.store.find? part.oid = some t ∧ t = Store.written r d := by
  cases hm with
  | served ha hmove =>
      cases hmove with
      | look | miss | tick | fail => cases hx
      | tell hr => cases (written?_of_not_mayWrite _ hr).symm.trans hx
      | @carry t₀ t' d hd =>
          cases hx
          obtain ⟨-, r, hr, -, rfl, hfind⟩ := Store.modify_ok ha.modify.2
          exact ⟨t₀, d, r, rfl, hd, hr, (hfind _).trans (if_pos rfl), rfl⟩
  | failed hfails hmove =>
      cases hmove with
      | look | tick | carry => exact hfails.elim
      | miss | fail => cases hx
      | tell hr => cases (written?_of_not_mayWrite _ hr).symm.trans hx
  | other => cases hx

/-- A part that has read the task replaces the state of a running one exactly if it read it
otherwise and another firing has started it since. -/
theorem replaced_iff {t₀ r : Task} {d : TaskDelta}
    (hs : (Stance.seen t₀).Shown part xs w) (hd : Fits part t₀ d)
    (hr : w.store.find? part.oid = some r) :
    (r.execution = .running ∧ (Store.written r d).execution ≠ .running ↔
      ∃ before t₁ after, xs = before ++ look part t₁ :: after ∧ t₁.execution ≠ .running ∧
        ∃ y ∈ after, IsStart y) := by
  obtain ⟨before, after, rfl, hlook, hi⟩ := hs
  have hwritten : (Store.written r d).execution
      = (if t₀.execution = .running then none else some part.execution).getD r.execution := by
    rw [← hd.execution]
    rfl
  constructor
  · rintro ⟨hrunning, hother⟩
    have hread : t₀.execution ≠ .running := fun h => hother (by simp [hwritten, h, hrunning])
    refine ⟨before, t₀, after, rfl, hread, ?_⟩
    by_contra hnone
    -- without a start the record would still be the one that was read
    have hsame := hi.same fun y hy hstart => hnone ⟨y, hy, hstart⟩
    cases hr.symm.trans hsame
    exact hread hrunning
  · rintro ⟨before', t₁, after', heq, hread, hstart⟩
    obtain ⟨-, hlooks, rfl⟩ :=
      (List.append_cons_inj_of_notMem (hlook t₁).1 (hlook t₁).2).mp heq
    obtain ⟨r', hr', hrunning⟩ := hi.started hstart
    cases hr.symm.trans hr'
    obtain rfl : t₀ = t₁ := by simpa [look] using hlooks
    refine ⟨hrunning, ?_⟩
    rw [hwritten, if_neg hread]
    cases part <;> exact nofun

/-- Closing or suspending a task replaces its state while it runs exactly if the record was read
before as not running and another firing has started it between the read and the write. The
node of that firing then stays in a record that no longer runs. -/
theorem replaces_running_iff (part : Part) (place : Place) {w w₁ w₂ : World} {before : History}
    {p₁ p₂ : Action (Except Cause Task)} {x : Happening Start} {t : Task}
    (run : Run (Program.Amid place (Starts part.oid)) (part.program, w) before (p₁, w₁))
    (step : Program.Amid place (Starts part.oid) (p₁, w₁) x (p₂, w₂))
    (written : x.written? = some t) :
    ∃ r, w₁.store.find? part.oid = some r ∧ w₂.store.find? part.oid = some t ∧
      t.scheduling = part.scheduling ∧ t.node = r.node ∧
      (r.execution = .running ∧ t.execution ≠ .running ↔
        ∃ xs t₀ ys, before = xs ++ look part t₀ :: ys ∧ t₀.execution ≠ .running ∧
          ∃ y ∈ ys, IsStart y) := by
  obtain ⟨s₁, hrun, hfollows⟩ := part.program_runs.amid run
  obtain ⟨s₂, hlast, -⟩ := hfollows.amid (.cons step .nil)
  obtain ⟨_, hstep, hnil⟩ := hlast.first
  cases hnil.eq_of_nil
  obtain ⟨t₀, d, r, rfl, hd, hr, ht, rfl⟩ := written_by hstep written
  refine ⟨r, hr, ht, ?_, ?_, replaced_iff (shown_run hrun) hd hr⟩
  · simp [Store.written, TaskDelta.apply, hd.scheduling]
  · simp [Store.written, TaskDelta.apply, hd.node]

end

/-! A run in which another firing starts the task after the part has read it. -/

/-- Another firing starts the task on a node, as its record is now. -/
def start? (oid : TaskOid) (node : NodeId) (w : World) : Option (Start × World) :=
  (w.store.find? oid).map fun r =>
    let answer := w.store.modify oid (Possession.runningDelta node) (.version r.version)
    ((node, answer.1), { w with store := answer.2 })

theorem starts_of_start? {oid : TaskOid} {node : NodeId} {w w' : World} {o : Start}
    (h : start? oid node w = some (o, w')) : Starts oid w o w' := by
  obtain ⟨r, -, h⟩ := Option.map_eq_some_iff.mp h
  cases h
  exact ⟨.aside, r.version, .performed rfl⟩

def closing : Part := .close Rehearsal.task.oid

/-- The task is read, and started on another node before it is written. -/
def upToWrite : History × Action (Except Cause Task) × World :=
  Program.playAmid .aside [.serve, .change (start? closing.oid ⟨"a"⟩), .serve]
    (closing.program, Rehearsal.world)

/-- The call after that. -/
def write? : Option (Happening Start × Action (Except Cause Task) × World) :=
  Program.turnout? .aside upToWrite.2 .serve

/-- The record that the write leaves, of a task that runs on another node. -/
def withdrawn : Task :=
  { Rehearsal.task with
    version := 2, scheduling := .closed, execution := .closed, node := some ⟨"a"⟩
    completedAt := some default }

theorem upToWrite_goes_on :
    Run (Program.Amid .aside (Starts closing.oid)) (closing.program, Rehearsal.world)
        upToWrite.1 upToWrite.2 ∧
      ∃ x c, Program.Amid .aside (Starts closing.oid) upToWrite.2 x c ∧
        x.written? = some withdrawn := by
  have writes : write?.bind (·.1.written?) = some withdrawn := by decide +kernel
  obtain ⟨⟨x, c⟩, hx, hw⟩ := Option.bind_eq_some_iff.mp writes
  refine ⟨?_, x, c, Program.amid_of_turnout? (by simp) hx, hw⟩
  refine Program.playAmid_run _ _ fun f hf w o w' ho => ?_
  simp only [List.mem_cons, reduceCtorEq, Turnout.change.injEq, List.not_mem_nil, or_false,
    false_or] at hf
  subst hf
  exact starts_of_start? ho

theorem upToWrite_running :
    ∃ r, upToWrite.2.2.store.find? closing.oid = some r ∧ r.execution = .running := by
  have running : (upToWrite.2.2.store.find? closing.oid).map Task.execution = some .running := by
    decide +kernel
  exact Option.map_eq_some_iff.mp running

/-- The start that came in between is in the run. -/
theorem replaces_running_iff_started :
    ∃ (before : History) (p₁ p₂ : Action (Except Cause Task)) (w₁ w₂ : World)
      (x : Happening Start),
      Run (Program.Amid .aside (Starts closing.oid)) (closing.program, Rehearsal.world)
        before (p₁, w₁) ∧
      Program.Amid .aside (Starts closing.oid) (p₁, w₁) x (p₂, w₂) ∧
      x.written? = some withdrawn ∧
      ∃ xs t₀ ys, before = xs ++ look closing t₀ :: ys ∧ t₀.execution ≠ .running ∧
        ∃ y ∈ ys, IsStart y := by
  obtain ⟨run, x, ⟨p₂, w₂⟩, step, written⟩ := upToWrite_goes_on
  refine ⟨upToWrite.1, upToWrite.2.1, p₂, upToWrite.2.2, w₂, x, run, step, written, ?_⟩
  obtain ⟨r, hr, -, -, -, replaced⟩ :=
    replaces_running_iff closing .aside run step written
  obtain ⟨r', hr', running⟩ := upToWrite_running
  cases hr.symm.trans hr'
  exact replaced.mp ⟨running, by decide⟩

/-- A write of closing may replace the state of a running task. -/
theorem running_replaced :
    ¬ ∀ (part : Part) (place : Place) (w : World) (before : History)
      (c₁ c₂ : Action (Except Cause Task) × World) (x : Happening Start) (r t : Task),
      Run (Program.Amid place (Starts part.oid)) (part.program, w) before c₁ →
      Program.Amid place (Starts part.oid) c₁ x c₂ → x.written? = some t →
      c₁.2.store.find? part.oid = some r → r.execution = .running → t.execution = .running := by
  intro never
  obtain ⟨run, x, c, step, written⟩ := upToWrite_goes_on
  obtain ⟨r, hr, running⟩ := upToWrite_running
  have kept := never closing .aside _ _ _ _ x r _ run step written hr running
  exact absurd kept (by decide)

end Withdrawal
end TaskFiring
