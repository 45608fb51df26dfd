import TaskFiring.Call

/-!
Reasoning about programs by the calls they make. A protocol says which calls, answered
how, lead from one state of affairs to another. A program follows a protocol if it can
account for each of its calls by a move, whatever the answer. A demand says what must hold
when a call is made, for what the program goes on to do to be right.
-/

namespace TaskFiring

/-- Which calls, answered how, lead from one state of affairs to another. -/
abbrev Protocol (I : Interface) (σ : Type) :=
  σ → (r : I.Request) → I.Response r → σ → Prop

/-- What must hold when a call is made, so that something holds after it. -/
abbrev Demand (I : Interface) (σ : Type) :=
  σ → (r : I.Request) → (I.Response r → σ → Prop) → Prop

namespace Demand

variable {I : Interface} {σ : Type}

/-- What is demanded for something suffices for less. -/
def Monotone (D : Demand I σ) : Prop :=
  ∀ s r k k', (∀ a s', k a s' → k' a s') → D s r k → D s r k'

/-- Any call may be made and answered in any way. -/
def free : Demand I Unit := fun _ _ k => ∀ answer, k answer ()

theorem free_monotone : (free : Demand I Unit).Monotone :=
  fun _ _ _ _ h hk answer => h _ _ (hk answer)

/-- Whatever the answer, as long as it is fair, there is a move. -/
def moves (fair : (r : I.Request) → I.Response r → Prop) (P : Protocol I σ) : Demand I σ :=
  fun s r k => ∀ answer, fair r answer → ∃ s', P s r answer s' ∧ k answer s'

theorem moves_monotone {fair : (r : I.Request) → I.Response r → Prop} {P : Protocol I σ} :
    (moves fair P).Monotone := by
  intro s r k k' h hk answer ha
  obtain ⟨s', hs, hn⟩ := hk answer ha
  exact ⟨s', hs, h answer s' hn⟩

end Demand

namespace Program

variable {I : Interface} {σ α β : Type}

/-- Every call of the program satisfies the predicate. -/
def Only (allowed : I.Request → Prop) : Program I α → Prop
  | .done _ => True
  | .ask r next => allowed r ∧ ∀ answer, (next answer).Only allowed

/-- Every call meets the demand, and the post-condition holds at the end. -/
def Meets (D : Demand I σ) : Program I α → σ → (σ → α → Prop) → Prop
  | .done a, s, Q => Q s a
  | .ask r next, s, Q => D s r fun answer s' => (next answer).Meets D s' Q

/-- Whatever the answers, as long as they are fair, there is a move for every call, and
the post-condition holds at the end. -/
abbrev Follows (fair : (r : I.Request) → I.Response r → Prop) (P : Protocol I σ)
    (p : Program I α) (s : σ) (Q : σ → α → Prop) : Prop :=
  p.Meets (.moves fair P) s Q

theorem Only.bind {allowed : I.Request → Prop} {p : Program I α} {f : α → Program I β}
    (hp : p.Only allowed) (hf : ∀ a, (f a).Only allowed) : (p.bind f).Only allowed := by
  induction p with
  | done a => exact hf a
  | ask r next ih => exact ⟨hp.1, fun answer => ih answer (hp.2 answer)⟩

theorem Only.attempt {ε : Type} {allowed : I.Request → Prop} {x : ExceptT ε (Program I) α}
    {f : α → ExceptT ε (Program I) β} (hx : x.run.Only allowed)
    (hf : ∀ a, (f a).run.Only allowed) : (x >>= f).run.Only allowed := by
  apply Only.bind hx
  rintro (e | a)
  · trivial
  · exact hf a

theorem Only.lift {ε : Type} {allowed : I.Request → Prop} {x : Program I α}
    {f : α → ExceptT ε (Program I) β} (hx : x.Only allowed)
    (hf : ∀ a, (f a).run.Only allowed) :
    ((liftM x : ExceptT ε (Program I) α) >>= f).run.Only allowed :=
  Only.attempt (Only.bind hx fun _ => trivial) hf

theorem Only.mono {allowed allowed' : I.Request → Prop} {p : Program I α}
    (hp : p.Only allowed) (h : ∀ r, allowed r → allowed' r) : p.Only allowed' := by
  induction p with
  | done a => trivial
  | ask r next ih => exact ⟨h r hp.1, fun answer => ih answer (hp.2 answer)⟩

theorem only_true (p : Program I α) : p.Only fun _ => True := by
  induction p with
  | done a => trivial
  | ask r next ih => exact ⟨trivial, ih⟩

section

variable {D : Demand I σ} {s : σ}

theorem Meets.mono (hD : D.Monotone) {p : Program I α} {Q Q' : σ → α → Prop}
    (hp : p.Meets D s Q) (h : ∀ s a, Q s a → Q' s a) : p.Meets D s Q' := by
  induction p generalizing s with
  | done a => exact h s a hp
  | ask r next ih => exact hD _ _ _ _ (fun answer s' => ih answer) hp

theorem Meets.bind (hD : D.Monotone) {p : Program I α} {f : α → Program I β}
    {Q : σ → α → Prop} {R : σ → β → Prop} (hp : p.Meets D s Q)
    (hf : ∀ s a, Q s a → (f a).Meets D s R) : (p.bind f).Meets D s R := by
  induction p generalizing s with
  | done a => exact hf s a hp
  | ask r next ih => exact hD _ _ _ _ (fun answer s' => ih answer) hp

theorem Meets.ask {r : I.Request} {f : I.Response r → Program I β} {R : σ → β → Prop}
    (h : D s r fun answer s' => (f answer).Meets D s' R) : (request r >>= f).Meets D s R :=
  h

/-- Of a part that may fail, a failure ends the whole. -/
theorem Meets.attempt (hD : D.Monotone) {ε : Type} {x : ExceptT ε (Program I) α}
    {f : α → ExceptT ε (Program I) β} {Q : σ → Except ε α → Prop}
    {R : σ → Except ε β → Prop} (hx : x.run.Meets D s Q)
    (hok : ∀ s a, Q s (.ok a) → (f a).run.Meets D s R)
    (herror : ∀ s e, Q s (.error e) → R s (.error e)) : (x >>= f).run.Meets D s R := by
  apply Meets.bind hD hx
  intro s a ha
  cases a with
  | ok a => exact hok s a ha
  | error e => exact herror s e ha

/-- A call in a part that may fail. -/
theorem Meets.query {ε : Type} {r : I.Request}
    {f : I.Response r → ExceptT ε (Program I) β} {R : σ → Except ε β → Prop}
    (h : D s r fun answer s' => (f answer).run.Meets D s' R) :
    ((liftM (request r) : ExceptT ε (Program I) _) >>= f).run.Meets D s R :=
  h

/-- A part that cannot fail, in one that can. -/
theorem Meets.lift (hD : D.Monotone) {ε : Type} {x : Program I α}
    {f : α → ExceptT ε (Program I) β} {Q : σ → α → Prop} {R : σ → Except ε β → Prop}
    (hx : x.Meets D s Q) (hf : ∀ s a, Q s a → (f a).run.Meets D s R) :
    ((liftM x : ExceptT ε (Program I) α) >>= f).run.Meets D s R := by
  refine Meets.attempt hD (Q := fun s r => ∃ a, r = .ok a ∧ Q s a) ?_ ?_ ?_
  · exact Meets.bind hD hx fun s a ha => ⟨a, rfl, ha⟩
  · rintro s a ⟨_, ⟨⟩, ha⟩
    exact hf s a ha
  · rintro s e ⟨_, ⟨⟩, _⟩

theorem meets_free (p : Program I α) : p.Meets Demand.free () fun _ _ => True := by
  induction p with
  | done a => trivial
  | ask r next ih => exact ih

end

/-! What follows a protocol meets its demand, so the rules are the same. -/

section

variable {fair : (r : I.Request) → I.Response r → Prop} {P : Protocol I σ} {s : σ}

theorem Follows.mono {p : Program I α} {Q Q' : σ → α → Prop} (hp : p.Follows fair P s Q)
    (h : ∀ s a, Q s a → Q' s a) : p.Follows fair P s Q' :=
  Meets.mono Demand.moves_monotone hp h

theorem Follows.bind {p : Program I α} {f : α → Program I β} {Q : σ → α → Prop}
    {R : σ → β → Prop} (hp : p.Follows fair P s Q)
    (hf : ∀ s a, Q s a → (f a).Follows fair P s R) : (p.bind f).Follows fair P s R :=
  Meets.bind Demand.moves_monotone hp hf

/-- A program all of whose calls may leave the state of affairs alone. -/
theorem Only.follows {allowed : I.Request → Prop} {p : Program I α}
    (hp : p.Only allowed) (h : ∀ r answer, allowed r → P s r answer s) :
    p.Follows fair P s fun s' _ => s' = s := by
  induction p with
  | done a => exact rfl
  | ask r next ih => exact fun answer _ => ⟨s, h r answer hp.1, ih answer (hp.2 answer)⟩

theorem Follows.attempt {ε : Type} {x : ExceptT ε (Program I) α}
    {f : α → ExceptT ε (Program I) β} {Q : σ → Except ε α → Prop}
    {R : σ → Except ε β → Prop} (hx : x.run.Follows fair P s Q)
    (hok : ∀ s a, Q s (.ok a) → (f a).run.Follows fair P s R)
    (herror : ∀ s e, Q s (.error e) → R s (.error e)) :
    (x >>= f).run.Follows fair P s R :=
  Meets.attempt Demand.moves_monotone hx hok herror

theorem Follows.ask {r : I.Request} {f : I.Response r → Program I β} {R : σ → β → Prop}
    (h : ∀ answer, fair r answer → ∃ s', P s r answer s' ∧ (f answer).Follows fair P s' R) :
    (request r >>= f).Follows fair P s R :=
  Meets.ask h

theorem Follows.query {ε : Type} {r : I.Request}
    {f : I.Response r → ExceptT ε (Program I) β} {R : σ → Except ε β → Prop}
    (h : ∀ answer, fair r answer →
      ∃ s', P s r answer s' ∧ (f answer).run.Follows fair P s' R) :
    ((liftM (request r) : ExceptT ε (Program I) _) >>= f).run.Follows fair P s R :=
  Meets.query h

theorem Follows.lift {ε : Type} {x : Program I α} {f : α → ExceptT ε (Program I) β}
    {Q : σ → α → Prop} {R : σ → Except ε β → Prop} (hx : x.Follows fair P s Q)
    (hf : ∀ s a, Q s a → (f a).run.Follows fair P s R) :
    ((liftM x : ExceptT ε (Program I) α) >>= f).run.Follows fair P s R :=
  Meets.lift Demand.moves_monotone hx hf

end

end Program
end TaskFiring
