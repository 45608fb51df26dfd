import TaskFiring.Proofs.Passage
import TaskFiring.Proofs.Starting

/-!
How far a firing is, by its deeds. Only the write that takes the task assigns a node, so
once that write is answered the firing is about to run its handler; and once the first
wait for children is over after that, it is about to act on how the handler has ended.
-/

namespace TaskFiring

namespace Call

/-- Calls around a handler, that neither run it nor wait for its children. -/
def IsEscort : Call → Prop
  | .setSafe _ _ | .setExecuting _ _ | .notifyStarted _ _ | .spawn _ _ | .establish _
  | .clearIdentity => True
  | _ => False

/-- Calls by which a handler runs. -/
def isHandlers : Call → Bool
  | .isInterrupted _ | .handler _ _ _ => true
  | _ => false

theorem IsEscort.not_isHandlers {r : Call} (h : r.IsEscort) : r.isHandlers = false := by
  cases r with
  | isInterrupted | handler => cases h
  | _ => rfl

end Call

/-- A deed by which a handler runs. -/
def Deed.isHandlers : Deed → Bool
  | .answered r _ => r.isHandlers
  | .gathered => false

namespace Milestones

open Program (Only)
open Starting

/-! The milestones. -/

/-- What a firing does once its handler has ended and its children have been awaited. -/
def rest (node : Node) : Firing × HandlerEnd → Action FiringOutcome
  | (g, ended) => do
      let (g, ending) ← Firing.conclude g ended
      Firing.finish node g ending

theorem assignsNone_steady : Call.Steady Call.AssignsNone :=
  fun _ _ _ _ _ _ _ => id

section

variable {f : Occasion} {ds : List Deed} {v : UInt64} {t : Task}
  {q : Action FiringOutcome} {handler : Handler}

/-- The deed by which a firing takes its task. -/
abbrev taking (f : Occasion) (v : UInt64) (t : Task) : Deed :=
  .answered (.modify f.oid (Possession.runningDelta f.nodeId) (.version v)) (.ok t)

theorem not_assignsNone {f : Occasion} {v : UInt64} :
    ¬ Call.AssignsNone
      (.modify f.oid (Possession.runningDelta f.nodeId) (.version v)) :=
  fun h => h f.nodeId rfl

/-- No task is taken by calls that assign no node. -/
theorem not_taken {p : Action FiringOutcome} (hp : p.Only Call.AssignsNone) :
    ¬ p.Way (ds ++ [taking f v t]) q := by
  intro h
  have hm : taking f v t ∈ ds ++ [taking f v t] := by simp
  exact not_assignsNone (v := v) ((hp.along assignsNone_steady h).1 _ hm)

/-- A part that starts no task is passed before the task is taken. -/
theorem passed {α : Type} {p : Action α} {k : α → Action FiringOutcome}
    (hp : p.Only Call.StartsNone) (hw : (p.bind k).Way (ds ++ [taking f v t]) q) :
    ∃ ds₁ ds₂ a, ds = ds₁ ++ ds₂ ∧ p.Way ds₁ (.done a) ∧
      (k a).Way (ds₂ ++ [taking f v t]) q :=
  Program.Way.past assignsNone_steady (assignsNone hp) not_assignsNone hw

/-- Where the task is taken and its handler is there, the firing goes on to run it. -/
theorem taken {g : Firing}
    (hh : f.node.handlers.resolve t.handlerRef = some handler)
    (hw : (do
      let (g, ending) ← Firing.runRegistered f.node g
      Firing.finish f.node g ending : Action FiringOutcome).Way (ds ++ [taking f v t]) q) :
    ∃ g' : Firing, g'.task = t ∧ g'.recovering = g.recovering ∧ g'.nodeSet = true ∧
      q = (Firing.runTaken f.node handler g').bind (rest f.node) := by
  let fin : Firing × Firing.Ending → Action FiringOutcome :=
    fun r => Firing.finish f.node r.1 r.2
  have later : ∀ g : Firing, ((Firing.runStarted f.node g).bind fin).Only Call.AssignsNone :=
    fun g => Only.bind (runStarted_assignsNone f.node g) fun r =>
      assignsNone (finish_startsNone f.node _ _)
  cases ds with
  | nil =>
      obtain ⟨a, hd, hq⟩ := Program.Way.next id hw
      cases a with
      | error e => cases congrArg Deed.written? hd
      | ok t' =>
          obtain rfl : t = t' := Option.some.inj (congrArg Deed.written? hd)
          let g' : Firing := { g with task := t, nodeSet := true }
          refine ⟨g', rfl, rfl, rfl, hq.eq_of_nil.trans ?_⟩
          have hrun : Firing.runStarted f.node g'
              = (Firing.runTaken f.node handler g').bind fun r => Firing.conclude r.1 r.2 := by
            unfold Firing.runStarted
            rw [Handling.resolve_of_some hh]
            rfl
          change (Firing.runStarted f.node g').bind fin = _
          rw [hrun]
          exact Program.bind_assoc _ _ _
  | cons d ds =>
      obtain ⟨a, -, hrest⟩ := Program.Way.next id hw
      refine absurd hrest (not_taken ?_)
      cases a with
      | ok t' => exact later _
      | error e =>
          refine Only.bind (Only.bind ?_ fun r => ?_) fun r =>
            assignsNone (finish_startsNone f.node _ _)
          · cases e with
            | conflict _ _ _ =>
                refine Only.lift (assignsNone (startsNone_of_aside (Course.lostRace_aside _ _)))
                  fun stop => ?_
                trivial
            | _ => trivial
          · cases r with
            | error stop => trivial
            | ok t' => exact runStarted_assignsNone f.node _

theorem prepare_given (node : Node) (oid : TaskOid) (recovering : Bool) :
    (Firing.prepare node oid recovering).run.Meets Demand.free () fun _ r =>
      ∀ g, r = .ok g → g.recovering = recovering := by
  have attempt {α : Type} {x : Step α} {k : α → Step Firing}
      (hk : ∀ a, (k a).run.Meets Demand.free () fun _ r => ∀ g, r = .ok g →
        g.recovering = recovering) :
      (x >>= k).run.Meets Demand.free () fun _ r => ∀ g, r = .ok g →
        g.recovering = recovering :=
    Program.Meets.attempt Demand.free_monotone (Program.meets_free x.run) (fun _ a _ => hk a)
      fun _ _ _ _ h => nomatch h
  unfold Firing.prepare
  refine attempt fun snapshot => attempt fun _ => attempt fun task => attempt fun _ => ?_
  refine attempt fun _ => attempt fun _ => attempt fun handle => ?_
  rintro g ⟨⟩
  rfl

/-- The firing that has taken its task, if the handler is there, goes on to run it. -/
theorem program_taken (hh : f.node.handlers.resolve t.handlerRef = some handler)
    (hw : f.program.Way (ds ++ [taking f v t]) q) :
    ∃ g : Firing, g.task = t ∧ g.recovering = f.recovering ∧ g.nodeSet = true ∧
      q = (Firing.runTaken f.node handler g).bind (rest f.node) := by
  obtain ⟨ds₁, ds, prepared, -, hway, hw⟩ := passed (prepare_startsNone _ _ _) hw
  have hrec := (prepare_given _ _ _).along hway
  cases prepared with
  | error stop => exact absurd hw (not_taken trivial)
  | ok g =>
      obtain ⟨-, ds, guarded, -, -, hw⟩ := passed (guard_startsNone _ _) hw
      cases guarded with
      | error stop => exact absurd hw (not_taken trivial)
      | ok _ =>
          obtain ⟨-, ds, registered, -, -, hw⟩ :=
            passed (p := call (.register g.handle)) ⟨trivial, fun _ => trivial⟩ hw
          cases registered with
          | false => exact absurd hw (not_taken trivial)
          | true =>
              obtain ⟨-, ds, shutDown, -, -, hw⟩ :=
                passed (p := call .isShutDown) ⟨trivial, fun _ => trivial⟩ hw
              have done {ds : List Deed} (hw : (do
                  let (g, ending) ← Firing.runRegistered f.node g
                  Firing.finish f.node g ending : Action FiringOutcome).Way
                  (ds ++ [taking f v t]) q) :
                  ∃ g : Firing, g.task = t ∧ g.recovering = f.recovering ∧ g.nodeSet = true ∧
                    q = (Firing.runTaken f.node handler g).bind (rest f.node) := by
                obtain ⟨g', ht, hr, hn, hq⟩ := taken hh hw
                exact ⟨g', ht, hr.trans (hrec g rfl), hn, hq⟩
              cases shutDown with
              | false => exact done hw
              | true =>
                  obtain ⟨-, ds, _, -, -, hw⟩ :=
                    passed (startsNone_of_aside (Course.interrupt_aside _ _)) hw
                  exact done hw

end

section

variable {α β : Type} {ds : List Deed} {r : Call} {a : r.Response}

/-- What is around a handler is passed before a wait for children is over. -/
theorem past_escort {p : Action α} {k : α → Action β} {q : Action β}
    (hp : p.Only Call.IsEscort) (hr : r.IsCollect)
    (hw : (p >>= k).Way (ds ++ [.answered r a]) q) :
    ∃ ds' b, ds' <:+ ds ∧ ds'.filter Deed.isHandlers = ds.filter Deed.isHandlers ∧
      (k b).Way (ds' ++ [.answered r a]) q := by
  have hs : Call.Steady Call.IsEscort := fun _ _ _ _ _ _ _ h => h.elim
  have hn : ¬ r.IsEscort := by
    cases r with
    | collect => exact id
    | _ => cases hr
  obtain ⟨ds₁, ds₂, b, rfl, hway, hw⟩ := Program.Way.past hs hp hn hw
  refine ⟨ds₂, b, ⟨ds₁, rfl⟩, ?_, hw⟩
  have hnone : ds₁.filter Deed.isHandlers = [] := by
    refine List.filter_eq_nil_iff.mpr fun d hd => ?_
    have hd := (hp.along hs hway).1 d hd
    cases d with
    | gathered => decide
    | answered r' a' => simpa [Deed.isHandlers] using Call.IsEscort.not_isHandlers hd
  rw [List.filter_append, hnone, List.nil_append]

theorem spawnAll_escort (h : HandleId) (cs : List ChildSpec) :
    (Firing.spawnAll h cs).Only Call.IsEscort := by
  induction cs with
  | nil => trivial
  | cons c cs ih => exact Only.bind ⟨trivial, fun _ => trivial⟩ fun _ => ih

/-- What comes before a handler. -/
def opening (node : Node) (handler : Handler) (g : Firing) : Action Unit := do
  call (.setSafe g.handle handler.safe)
  call (.notifyStarted g.task.oid g.recovering)
  Firing.spawnAll g.handle (node.onStart g.task.oid)
  call (.establish g.task.owner)
  call (.setExecuting g.handle true)

/-- What comes after it. -/
def closing (g : Firing) : Action Unit := do
  call (.setExecuting g.handle false)
  call .clearIdentity

def context (g : Firing) : RunContext := { task := g.task, recovering := g.recovering }

theorem runTaken_eq (node : Node) (handler : Handler) (g : Firing)
    (k : Firing × HandlerEnd → Action β) :
    Firing.runTaken node handler g >>= k = (do
      opening node handler g
      let ended ← Handling.run handler g.handle (context g)
      closing g
      let (result, _) ← call (.collect g.handle g.result 0 [])
      k ({ g with result }, ended)) := by
  simp only [Firing.runTaken, Firing.runHandler, Firing.collectChildren, opening, closing,
    context, bind_assoc, pure_bind]

theorem opening_escort (node : Node) (handler : Handler) (g : Firing) :
    (opening node handler g).Only Call.IsEscort := by
  refine Only.bind ⟨trivial, fun _ => trivial⟩ fun _ => ?_
  refine Only.bind ⟨trivial, fun _ => trivial⟩ fun _ => ?_
  refine Only.bind (spawnAll_escort _ _) fun _ => ?_
  exact Only.bind ⟨trivial, fun _ => trivial⟩ fun _ => ⟨trivial, fun _ => trivial⟩

theorem closing_escort (g : Firing) : (closing g).Only Call.IsEscort :=
  Only.bind ⟨trivial, fun _ => trivial⟩ fun _ => ⟨trivial, fun _ => trivial⟩

theorem run_handlers (handler : Handler) (h : HandleId) (context : RunContext) :
    (Handling.run handler h context).Only (Call.isHandlers ·) :=
  run_only (fun _ => rfl) (fun _ _ _ _ => rfl)
    (fun _ => Program.only_true _ : handler.KeepsTo fun _ => True) h context

/-- Once the children of a firing are awaited that has taken its task, its handler has
ended as the answers made it, and the firing is about to act on that. -/
theorem handled {node : Node} {handler : Handler} {g : Firing}
    {k : Firing × HandlerEnd → Action β} {q : Action β} (hr : r.IsCollect)
    (hn : NoneCollected ds)
    (hw : (Firing.runTaken node handler g >>= k).Way (ds ++ [.answered r a]) q) :
    ∃ ended g', (Handling.run handler g.handle (context g)).Way (ds.filter Deed.isHandlers)
        (.done ended) ∧
      q = k (g', ended) ∧ g'.task = g.task ∧ g'.nodeSet = g.nodeSet := by
  rw [runTaken_eq] at hw
  have hs : Call.Steady (Call.isHandlers ·) := fun _ _ _ _ _ _ _ h => nomatch h
  have hr' : ¬ r.isHandlers := by
    cases r with
    | collect => exact Bool.false_ne_true
    | _ => cases hr
  obtain ⟨ds₁, -, hs₁, hf₁, hw⟩ := past_escort (opening_escort _ _ _) hr hw
  obtain ⟨ds₂, ds₃, ended, rfl, hway, hw⟩ := Program.Way.past hs (run_handlers _ _ _) hr' hw
  obtain ⟨ds₄, -, hs₄, hf₄, hw⟩ := past_escort (closing_escort _) hr hw
  obtain ⟨hgathered, answer, rfl⟩ := Program.Way.collected
    (fun r a hd => hn r a (hs₁.subset (List.mem_append_right _ (hs₄.subset hd)))) hw
  refine ⟨ended, _, ?_, rfl, rfl, rfl⟩
  -- of all that was done, only the handler's deeds are left
  have h₂ : ds₂.filter Deed.isHandlers = ds₂ := by
    refine List.filter_eq_self.mpr fun d hd => ?_
    have hd := ((run_handlers _ _ _).along hs hway).1 d hd
    cases d with
    | answered r a => exact hd
    | gathered =>
        obtain ⟨_, _, _, _, h⟩ := hd
        cases h
  have h₄ : ds₄.filter Deed.isHandlers = [] := by
    refine List.filter_eq_nil_iff.mpr fun d hd => ?_
    rw [hgathered d hd]
    decide
  rw [← hf₁, List.filter_append, h₂, ← hf₄, h₄, List.append_nil]
  exact hway

end

end Milestones
end TaskFiring
