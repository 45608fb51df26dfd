/-!
Programs as trees of requests. A program is over, or it asks its surroundings for
something and goes on with the answer. Who answers, and what happens between two
requests, is not the program's business: the same tree is run in one piece or step
by step among others.
-/

namespace TaskFiring

structure Interface where
  Request : Type
  Response : Request → Type

inductive Program (I : Interface) (α : Type) : Type
  | done (result : α)
  | ask (request : I.Request) (next : I.Response request → Program I α)

namespace Program

variable {I : Interface} {α β γ : Type}

def bind : Program I α → (α → Program I β) → Program I β
  | .done a, f => f a
  | .ask r next, f => .ask r fun answer => (next answer).bind f

instance : Monad (Program I) where
  pure := .done
  bind := bind

def request (r : I.Request) : Program I (I.Response r) := .ask r .done

@[simp] theorem bind_done (a : α) (f : α → Program I β) : (done a).bind f = f a := rfl

@[simp] theorem bind_ask (r : I.Request) (next : I.Response r → Program I α)
    (f : α → Program I β) : (ask r next).bind f = .ask r fun x => (next x).bind f := rfl

theorem bind_done_right (p : Program I α) : p.bind .done = p := by
  induction p with
  | done a => rfl
  | ask r next ih => simp [ih]

theorem bind_assoc (p : Program I α) (f : α → Program I β) (g : β → Program I γ) :
    (p.bind f).bind g = p.bind fun a => (f a).bind g := by
  induction p with
  | done a => rfl
  | ask r next ih => simp [ih]

instance : LawfulMonad (Program I) :=
  LawfulMonad.mk' (Program I) bind_done_right (fun _ _ => rfl) bind_assoc

end Program
end TaskFiring
