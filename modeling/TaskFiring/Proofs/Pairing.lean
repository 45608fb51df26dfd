import TaskFiring.Proofs.Phase
import TaskFiring.Proofs.Hierarchy

/-!
Programs side by side. A pairing says which calls of two programs go together, and how the
answers that they get then compare. Two programs are paired if that is so of all their calls,
from the first to the last. A handler that is paired with itself may be told another identity
and other identifiers of its children, and goes on alike: it depends on its own run only.
-/

namespace TaskFiring

/-- Which calls of two programs go together, and how their answers then compare. -/
abbrev Pairing (I : Interface) :=
  (r r' : I.Request) → (I.Response r → I.Response r' → Prop) → Prop

/-- Both fail alike, or both give something and that compares. -/
inductive Matched {ε α β : Type} (R : α → β → Prop) : Except ε α → Except ε β → Prop
  | ok {a : α} {b : β} : R a b → Matched R (.ok a) (.ok b)
  | error (e : ε) : Matched R (.error e) (.error e)

namespace Program

variable {I : Interface} {α α' β β' ε σ : Type}

/-- The calls of the two programs go together, one by one, as long as their answers compare;
and what the programs give at the end compares as well. -/
def Paired (P : Pairing I) : Program I α → Program I β → (α → β → Prop) → Prop
  | .done a, .done b, Q => Q a b
  | .ask r next, .ask r' next', Q =>
      ∃ like, P r r' like ∧ ∀ a b, like a b → (next a).Paired P (next' b) Q
  | _, _, _ => False

section

variable {P : Pairing I} {R : α → α' → Prop} {Q : β → β' → Prop}

theorem Paired.mono {p : Program I α} {p' : Program I α'} {R' : α → α' → Prop}
    (hp : p.Paired P p' R) (h : ∀ a a', R a a' → R' a a') : p.Paired P p' R' := by
  induction p generalizing p' with
  | done a =>
      cases p' with
      | done a' => exact h a a' hp
      | ask r' next' => exact hp.elim
  | ask r next ih =>
      cases p' with
      | done a' => exact hp.elim
      | ask r' next' =>
          obtain ⟨like, hr, hnext⟩ := hp
          exact ⟨like, hr, fun a b hab => ih a (hnext a b hab)⟩

theorem Paired.bind {p : Program I α} {p' : Program I α'} {f : α → Program I β}
    {f' : α' → Program I β'} (hp : p.Paired P p' R)
    (hf : ∀ a a', R a a' → (f a).Paired P (f' a') Q) : (p.bind f).Paired P (p'.bind f') Q := by
  induction p generalizing p' with
  | done a =>
      cases p' with
      | done a' => exact hf a a' hp
      | ask r' next' => exact hp.elim
  | ask r next ih =>
      cases p' with
      | done a' => exact hp.elim
      | ask r' next' =>
          obtain ⟨like, hr, hnext⟩ := hp
          exact ⟨like, hr, fun a b hab => ih a (hnext a b hab)⟩

theorem Paired.ask {r r' : I.Request} {f : I.Response r → Program I β}
    {f' : I.Response r' → Program I β'} {like : I.Response r → I.Response r' → Prop}
    (hr : P r r' like) (hf : ∀ a b, like a b → (f a).Paired P (f' b) Q) :
    (request r >>= f).Paired P (request r' >>= f') Q :=
  ⟨like, hr, hf⟩

/-- What goes together goes together the other way round. -/
theorem Paired.flip {P' : Pairing I} {R' : α' → α → Prop} {p : Program I α} {p' : Program I α'}
    (hP : ∀ r r' like, P r r' like → ∃ like', P' r' r like' ∧ ∀ a b, like' b a → like a b)
    (hR : ∀ a a', R a a' → R' a' a) (hp : p.Paired P p' R) : p'.Paired P' p R' := by
  induction p generalizing p' with
  | done a =>
      cases p' with
      | done a' => exact hR a a' hp
      | ask r' next' => exact hp.elim
  | ask r next ih =>
      cases p' with
      | done a' => exact hp.elim
      | ask r' next' =>
          obtain ⟨like, hr, hnext⟩ := hp
          obtain ⟨like', hr', hlike⟩ := hP r r' like hr
          exact ⟨like', hr', fun b a hab => ih a (hnext a b (hlike a b hab))⟩

/-- Of parts that may fail, a failure ends the whole. -/
theorem Paired.attempt {x : ExceptT ε (Program I) α} {x' : ExceptT ε (Program I) α'}
    {f : α → ExceptT ε (Program I) β} {f' : α' → ExceptT ε (Program I) β'}
    (hx : x.run.Paired P x'.run (Matched R))
    (hf : ∀ a a', R a a' → (f a).run.Paired P (f' a').run (Matched Q)) :
    (x >>= f).run.Paired P (x' >>= f').run (Matched Q) := by
  apply Paired.bind hx
  rintro _ _ (ha | e)
  · exact hf _ _ ha
  · exact .error e

/-- Calls in parts that may fail. -/
theorem Paired.query {r r' : I.Request} {f : I.Response r → ExceptT ε (Program I) β}
    {f' : I.Response r' → ExceptT ε (Program I) β'}
    {like : I.Response r → I.Response r' → Prop} (hr : P r r' like)
    (hf : ∀ a b, like a b → (f a).run.Paired P (f' b).run (Matched Q)) :
    ((liftM (request r) : ExceptT ε (Program I) _) >>= f).run.Paired P
      ((liftM (request r') : ExceptT ε (Program I) _) >>= f').run (Matched Q) :=
  ⟨like, hr, hf⟩

/-- A program all of whose calls get the same answers as in its other run gives the same; and
what holds of that as long as the answers are fair, holds of it. -/
theorem Only.paired {kind : I.Request → Prop} {fair : (r : I.Request) → I.Response r → Prop}
    {M : Protocol I σ} {s : σ} {Q : σ → α → Prop} {p : Program I α} (hp : p.Only kind)
    (h : ∀ r, kind r → P r r fun a b => a = b ∧ fair r a) (hq : p.Follows fair M s Q) :
    p.Paired P p fun a b => a = b ∧ ∃ s, Q s a := by
  induction p generalizing s with
  | done a => exact ⟨rfl, s, hq⟩
  | ask r next ih =>
      refine ⟨_, h r hp.1, ?_⟩
      rintro a _ ⟨rfl, ha⟩
      obtain ⟨s', -, hnext⟩ := hq a ha
      exact ih a (hp.2 a) hnext

theorem matched_of_eq {r r' : Except ε α} {R : α → α → Prop} (h : r = r')
    (hR : ∀ a, r = .ok a → R a a) : Matched R r r' := by
  subst h
  cases r with
  | ok a => exact .ok (hR a rfl)
  | error e => exact .error e

end

end Program

/-! What depends on its own run only. -/

/-- How the work of a child ends that is left to run, once all gates are open. -/
def ChildWork.fate : ChildWork → ChildEnd
  | .done e => e
  | .ask .canRun next => fate (next true)
  | .ask (.wait _) next | .ask (.write _) next => fate (next ())

/-- The two children have the same name, and come to the same end under any identifiers. -/
structure ChildSpec.Alike (c c' : ChildSpec) : Prop where
  name : c.name = c'.name
  fate : ∀ i j, ChildWork.fate (c.work i) = ChildWork.fate (c'.work j)

/-- A call by which a handler minds its own run and its own record. -/
def HandlerCall.IsOwn (oid : TaskOid) : HandlerCall → Prop
  | .canRun | .switchToWaiting | .wait _ | .awaitInterrupt => True
  | .disturb (.write oid' _) => oid' = oid
  | _ => False

/-- The calls of a handler in two of its runs. What it is told of the identity and which
identifiers its children get need not be the same, and it may note something else. -/
inductive HandlerCall.Kin (oid : TaskOid) : Pairing ⟨HandlerCall, HandlerCall.Response⟩
  | own {c : HandlerCall} : c.IsOwn oid → Kin oid c c fun a b => a = b
  | identity : Kin oid .identity .identity fun _ _ => True
  | spawn {c c' : ChildSpec} : c.Alike c' → Kin oid (.spawn c) (.spawn c') fun _ _ => True
  | write {e e' : JournalEntry} : Kin oid (.write e) (.write e') fun _ _ => True

/-- Whatever the handler is told that is not about its own run, it goes on alike. -/
def Handler.MindsItself (handler : Handler) : Prop :=
  ∀ context, (handler.work context).Paired (HandlerCall.Kin context.task.oid)
    (handler.work context) fun a b => a = b

/-- So do all handlers of the node, and the children that its listeners spawn for the task. -/
structure Node.MindsItself (node : Node) (oid : TaskOid) : Prop where
  handlers : ∀ name handler, node.handlers.resolve name = some handler → handler.MindsItself
  onStart : ∀ c ∈ node.onStart oid, c.Alike c
  onFinish : ∀ c ∈ node.onFinish oid, c.Alike c

/-! The calls of a firing. -/

/-- What of a task its place in the hierarchy depends on, and its groups. -/
def Task.position (t : Task) : TaskOid × Option TaskOid × Option Constraints :=
  (t.oid, t.parent, t.constraints)

/-- The task is there, and the group is one of its effective constraints. -/
def Store.InGroup (s : Store) (oid : TaskOid) (g : String) : Prop :=
  ∃ t, s.find? oid = some t ∧ (s.effectiveConstraints t).any (·.containsGroup g)

namespace Call

/-- A call as to that task and its groups, without a handle. -/
def IsOwn (s : Store) (oid : TaskOid) : Call → Prop
  | .get oid' | .modify oid' _ _ | .unschedule oid' | .deleteJob oid' | .rescheduleLater oid' _
  | .scheduleNow oid' | .nextFireTime oid' | .notifyStarted oid' _ | .notifyFinished oid' _ =>
      oid' = oid
  | .countRunning g oid' => oid' = oid ∧ s.InGroup oid g
  | .now | .schedulerRunning | .establish _ | .clearIdentity => True
  | _ => False

/-- The calls of a firing in two of its runs, each under a handle of its own. Of other tasks it
sees only where they are in the hierarchy, which is the same as in that store. -/
inductive Kin (s : Store) (oid : TaskOid) : Pairing Calls
  | own {r : Call} : r.IsOwn s oid → Kin s oid r r fun a b => a = b ∧ r.Fair a
  | get (oid' : TaskOid) : Kin s oid (.get oid') (.get oid') fun a b =>
      a.map Task.position = (s.get oid').map Task.position ∧
        b.map Task.position = (s.get oid').map Task.position ∧ (oid' = oid → a = b)
  | registered : Kin s oid (.registered oid) (.registered oid) fun a b => a.isSome = b.isSome
  | newHandle : Kin s oid (.newHandle oid) (.newHandle oid) fun _ _ => True
  | isShutDown : Kin s oid .isShutDown .isShutDown fun a b => a = false ∧ b = false
  | canRun {h h' : HandleId} : Kin s oid (.canRun h) (.canRun h') fun a b => a = true ∧ b = true
  | isInterrupted {h h' : HandleId} :
      Kin s oid (.isInterrupted h) (.isInterrupted h') fun a b => a = false ∧ b = false
  | setSafe {h h' : HandleId} {v : Bool} :
      Kin s oid (.setSafe h v) (.setSafe h' v) fun _ _ => True
  | setExecuting {h h' : HandleId} {v : Bool} :
      Kin s oid (.setExecuting h v) (.setExecuting h' v) fun _ _ => True
  | register {h h' : HandleId} : Kin s oid (.register h) (.register h') fun a b => a = b
  | deregister {h h' : HandleId} : Kin s oid (.deregister h) (.deregister h') fun _ _ => True
  | spawn {h h' : HandleId} {c c' : ChildSpec} : c.Alike c' →
      Kin s oid (.spawn h c) (.spawn h' c') fun _ _ => True
  | collect {h h' : HandleId} {result : OperationResult} {closed : Nat} {batch : List Nat} :
      Kin s oid (.collect h result closed batch) (.collect h' result closed batch)
        fun a b => a = b
  | handler {h h' : HandleId} {c c' : HandlerCall} {like : c.Response → c'.Response → Prop} :
      HandlerCall.Kin oid c c' like →
      Kin s oid (.handler h oid c) (.handler h' oid c') fun a b =>
        ∃ x y, a = some x ∧ b = some y ∧ like x y

end Call

end TaskFiring
