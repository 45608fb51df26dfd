import TaskFiring.Proofs.Interleaving

/-!
Runs by cue. A list of cues says what is to happen next, one after the other, and what is
rehearsed by it is a run. In a scene a cue says whose call is answered next, or how the world
changes from outside. It serves to show runs of a few firings in full. The task and the nodes
of such runs are here too.
-/

namespace TaskFiring

section

variable {σ ε κ : Type} (next? : σ → κ → Option (ε × σ))

/-- Follows the cues. One that cannot be followed is passed over. -/
def rehearse : List κ → σ → List ε × σ
  | [], s => ([], s)
  | q :: qs, s =>
      match next? s q with
      | some (e, s) => (e :: (rehearse qs s).1, (rehearse qs s).2)
      | none => rehearse qs s

variable {next?}

/-- What is rehearsed is a run, if every cue that can be followed leads to a step. -/
theorem run_rehearse {step : σ → ε → σ → Prop} (qs : List κ) (s : σ)
    (hq : ∀ q ∈ qs, ∀ s e s', next? s q = some (e, s') → step s e s') :
    Run step s (rehearse next? qs s).1 (rehearse next? qs s).2 := by
  induction qs generalizing s with
  | nil => exact .nil
  | cons q qs ih =>
      have rest := fun s => ih s fun q hmem => hq q (List.mem_cons_of_mem _ hmem)
      unfold rehearse
      split
      · next e s' hs => exact .cons (hq q List.mem_cons_self s e s' hs) (rest s')
      · exact rest s

end

/-- The answer to a call, if it is there at once. -/
def World.answer? (w : World) (place : Place) : (r : Call) → Option (r.Response × World)
  | .collect h result closed [] =>
      if (w.takePending h).1 = [] then some ((result, closed), w) else none
  | r => w.perform place r

theorem World.answers_of_answer? {w w' : World} {place : Place} {r : Call} {a : r.Response}
    (h : w.answer? place r = some (a, w')) : w.Answers place r a w' := by
  unfold answer? at h
  split at h
  · split at h
    · next hp =>
      cases h
      exact .gathered (Prod.ext hp rfl)
    · cases h
  · exact .performed h

namespace Program

variable {α : Type} {place : Place} {w w' : World} {p p' : Action α} {d : Deed}

/-- The program goes on by one answer. -/
def go? (place : Place) (w : World) : Action α → Option (Deed × Action α × World)
  | .done _ => none
  | .ask r next => (w.answer? place r).map fun (a, w) => (.answered r a, next a, w)

theorem turn_of_go? (h : p.go? place w = some (d, p', w')) : p.Turn place w d p' w' := by
  cases p with
  | done _ => cases h
  | ask r next =>
      obtain ⟨⟨a, w₁⟩, ha, h⟩ := Option.map_eq_some_iff.mp h
      cases h
      exact .answered (World.answers_of_answer? ha)

def isOver : Action α → Bool
  | .done _ => true
  | .ask _ _ => false

theorem done_of_isOver (h : p.isOver) : ∃ a, p = .done a := by
  cases p with
  | done a => exact ⟨a, rfl⟩
  | ask _ _ => cases h

end Program

/-- What comes next in a scene: a firing goes on, or the world changes. -/
inductive Cue (ι : Type)
  | go (i : ι)
  | change (f : World → World)

namespace Scene

variable {ι : Type} [DecidableEq ι] (crew : ι → Occasion)

def cue? (c : Scene ι) : Cue ι → Option (Event ι × Scene ι)
  | .change f => some (.outside, ⟨f c.world, c.program⟩)
  | .go i => ((c.program i).go? (crew i).place c.world).map fun (d, p, w) =>
      (.deed i d, ⟨w, Function.update c.program i p⟩)

abbrev play : List (Cue ι) → Scene ι → List (Event ι) × Scene ι := rehearse (cue? crew)

/-- The firing has come to its report. -/
def hasEnded (c : Scene ι) (i : ι) : Bool := (c.program i).isOver

omit [DecidableEq ι] in
theorem done_of_hasEnded {c : Scene ι} {i : ι} (h : c.hasEnded i) :
    ∃ report, c.program i = .done report :=
  Program.done_of_isOver h

variable {crew} {outside : World → World → Prop}

theorem cue?_step {c c' : Scene ι} {q : Cue ι} {e : Event ι}
    (ho : ∀ f, q = .change f → ∀ w, outside w (f w)) (h : c.cue? crew q = some (e, c')) :
    c.Step crew outside e c' := by
  cases q with
  | change f =>
      cases h
      exact .outside (ho f rfl _)
  | go i =>
      obtain ⟨⟨d, p, w⟩, hg, h⟩ := Option.map_eq_some_iff.mp h
      cases h
      exact .deed (Program.turn_of_go? hg)

/-- What is played is a run, if every change is one that may come from outside. -/
theorem play_run (qs : List (Cue ι)) (c : Scene ι)
    (ho : ∀ f, .change f ∈ qs → ∀ w, outside w (f w)) :
    Run (Scene.Step crew outside) c (play crew qs c).1 (play crew qs c).2 :=
  run_rehearse qs c fun _ hq _ _ _ => cue?_step fun f hf => ho f (hf ▸ hq)

theorem program_cue? {c c' : Scene ι} {q : Cue ι} {e : Event ι} {i : ι} (hi : q ≠ .go i)
    (h : c.cue? crew q = some (e, c')) : c'.program i = c.program i := by
  cases q with
  | change f =>
      cases h
      rfl
  | go j =>
      obtain ⟨⟨d, p, w⟩, -, h⟩ := Option.map_eq_some_iff.mp h
      cases h
      exact Function.update_of_ne (fun hij => hi (congrArg _ hij.symm)) _ _

/-- A firing without a cue does not go on. -/
theorem program_play {qs : List (Cue ι)} {c : Scene ι} {i : ι} (h : .go i ∉ qs) :
    (play crew qs c).2.program i = c.program i := by
  have hr : Run (fun c (_ : Event ι) c' => c'.program i = c.program i) c (play crew qs c).1
      (play crew qs c).2 :=
    run_rehearse qs c fun q hq _ _ _ => program_cue? fun hi => h (hi ▸ hq)
  exact hr.invariant (P := fun _ c' => c'.program i = c.program i) rfl fun hc he => he.trans hc

end Scene

namespace Rehearsal

def task : Task := { oid := ⟨1⟩, name := "t", handlerRef := "h" }

/-- The task alone, with nothing running. -/
def world : World := { now := default, store := { tasks := Table.empty.put task } }

/-- A firing of the task on a node of that name, with this handler. -/
def occasion (name : String) (work : HandlerWork) : Occasion where
  node :=
    { config := { nodeId := ⟨name⟩ }
      handlers := Table.empty.put ("h", { safe := true, work := fun _ => work }) }
  place := .node name
  oid := task.oid
  recovering := false

/-- Two firings of the task, each on a node of its own. -/
def pair (first second : HandlerWork) (i : Bool) : Occasion :=
  if i then occasion "a" first else occasion "b" second

/-- An administrator sets the scheduling state of the task. -/
def reschedule (s : SchedulingState) (w : World) : World :=
  w.disturb (.write task.oid { scheduling := some s })

theorem occasion_keepsTo {name : String} {work : HandlerWork}
    {allowed : HandlerCall → Prop} (hw : work.Only allowed) :
    (occasion name work).node.KeepsTo allowed := by
  intro ref handler h
  simp only [Handlers.resolve, occasion, Table.find?_put, Table.find?_empty] at h
  split at h
  · cases h
    exact fun _ => hw
  · cases h

theorem pair_keepsTo {first second : HandlerWork} {allowed : HandlerCall → Prop}
    (h₁ : first.Only allowed) (h₂ : second.Only allowed) (i : Bool) :
    (pair first second i).node.KeepsTo allowed := by
  cases i with
  | true => exact occasion_keepsTo h₁
  | false => exact occasion_keepsTo h₂

end Rehearsal
end TaskFiring
