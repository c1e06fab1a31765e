import Mathlib.Logic.Relation

/-!
# Programs of an event loop

An asynchronous function is a tree of the requests it makes. At a request the function is
suspended until the environment answers; between two requests it runs to the next one without
interruption. A tree also records where a branch of the computation is left running on its own
(`fork`), and where the order of two computations is open (`amb`).

Exceptions are those of `ExceptT`, so `throw`, `try … catch` and early `return` are written as in
the source.
-/

namespace Async

/-- A program over the requests `E`, where `e : E` is answered by a value of `R e`. -/
inductive Prog (E : Type) (R : E → Type) : Type → Type 1
  | pure {α : Type} (a : α) : Prog E R α
  | call {α : Type} (e : E) (k : R e → Prog E R α) : Prog E R α
  | fork {α : Type} (child : Prog E R Unit) (k : Prog E R α) : Prog E R α
  | amb {α : Type} (l r : Prog E R α) : Prog E R α

namespace Prog

variable {E : Type} {R : E → Type} {α β γ ε : Type}

def bind {α β : Type} : Prog E R α → (α → Prog E R β) → Prog E R β
  | .pure a, f => f a
  | .call e k, f => .call e fun r => (k r).bind f
  | .fork c k, f => .fork c (k.bind f)
  | .amb l r, f => .amb (l.bind f) (r.bind f)

instance : Monad (Prog E R) where
  pure := Prog.pure
  bind := Prog.bind

@[simp] lemma pure_bind' (a : α) (f : α → Prog E R β) : (Prog.pure a).bind f = f a := rfl

@[simp] lemma call_bind (e : E) (k : R e → Prog E R α) (f : α → Prog E R β) :
    (Prog.call e k).bind f = .call e fun r => (k r).bind f := rfl

@[simp] lemma fork_bind (c : Prog E R Unit) (k : Prog E R α) (f : α → Prog E R β) :
    (Prog.fork c k).bind f = .fork c (k.bind f) := rfl

@[simp] lemma amb_bind (l r : Prog E R α) (f : α → Prog E R β) :
    (Prog.amb l r).bind f = .amb (l.bind f) (r.bind f) := rfl

/-- Let a program run to its end and drop what it returns. -/
def detach (p : Prog E R α) : Prog E R Unit := p.bind fun _ => .pure ()

/-! ### Running two programs at once -/

/-- The part of `race` in which the left program waits at request `e`; `ih` races what follows
its answer. -/
def raceCall (e : E) (k : R e → Prog E R α) (onRight : Prog E R α → β → Prog E R γ)
    (ih : R e → Prog E R β → Prog E R γ) : Prog E R β → Prog E R γ
  | .pure b => onRight (.call e k) b
  | .call f h => .amb (.call e fun x => ih x (.call f h))
      (.call f fun y => raceCall e k onRight ih (h y))
  | .fork c q => .fork c (raceCall e k onRight ih q)
  | .amb q₁ q₂ => .amb (raceCall e k onRight ih q₁) (raceCall e k onRight ih q₂)

/-- Interleave two programs until one of them returns, then go on with its value and with what
is left of the other. -/
def race (onLeft : α → Prog E R β → Prog E R γ) (onRight : Prog E R α → β → Prog E R γ) :
    Prog E R α → Prog E R β → Prog E R γ
  | .pure a, q => onLeft a q
  | .call e k, q => raceCall e k onRight (fun x => race onLeft onRight (k x)) q
  | .fork c p, q => .fork c (race onLeft onRight p q)
  | .amb p₁ p₂, q => .amb (race onLeft onRight p₁ q) (race onLeft onRight p₂ q)

end Prog

/-! ### Exceptions -/

section

variable {E : Type} {R : E → Type} {α β ε : Type}

/-- An asynchronous function that may reject with an `ε`. -/
abbrev Task (E : Type) (R : E → Type) (ε α : Type) := ExceptT ε (Prog E R) α

/-- Make a request; `k` tells the value or the exception of its answer. -/
def Task.request (e : E) (k : R e → Except ε α) : Task E R ε α :=
  ExceptT.mk (.call e fun r => .pure (k r))

/-- A computation that makes no request. -/
def Task.ofExcept (x : Except ε α) : Task E R ε α := ExceptT.mk (.pure x)

/-- Leave a program running. -/
def Task.spawn (c : Prog E R Unit) : Task E R ε Unit := ExceptT.mk (.fork c (.pure (.ok ())))

/-- `try p finally f`: the value or the exception of `p` is kept unless `f` throws itself. -/
def Task.finallyDo (p : Task E R ε α) (f : Task E R ε Unit) : Task E R ε α :=
  ExceptT.mk <| Prog.bind p.run fun r => Prog.bind f.run fun
    | .ok () => .pure r
    | .error err => .pure (.error err)

/-- `Promise.all`: all tasks run at once. The first rejection is the result, and the tasks that
are still running go on without a reader. -/
def promiseAll : List (Task E R ε α) → Task E R ε (List α)
  | [] => ExceptT.mk (.pure (.ok []))
  | p :: ps => ExceptT.mk <| Prog.race
      (fun
        | .ok a, rest => rest.bind fun
          | .ok as => .pure (.ok (a :: as))
          | .error err => .pure (.error err)
        | .error err, rest => .fork rest.detach (.pure (.error err)))
      (fun rest r => match r with
        | .ok as => rest.bind fun
          | .ok a => .pure (.ok (a :: as))
          | .error err => .pure (.error err)
        | .error err => .fork rest.detach (.pure (.error err)))
      p.run (promiseAll ps).run

end

end Async
