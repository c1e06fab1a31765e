import HybridLog.Async.Program

/-!
# Rules for tasks

Properties of programs that follow something along every path, such as the requests made so far or
what is still owed, share their rules for tasks: those follow from the two for programs, that the
condition on the result may be weakened and that programs may be composed.
-/

namespace Async

/-- A property of programs that follows an `M` along every path up to a condition on what is
returned. -/
structure PathRule (E : Type) (R : E → Type) (M : Type) where
  Holds : {α : Type} → (α → M → Prop) → Prog E R α → M → Prop
  weaken : ∀ {α : Type} {Q Q' : α → M → Prop} {p : Prog E R α} {m : M}, Holds Q p m →
    (∀ a m', Q a m' → Q' a m') → Holds Q' p m
  bind : ∀ {α β : Type} {Q : β → M → Prop} {p : Prog E R α} {f : α → Prog E R β} {m : M},
    Holds (fun a m' => Holds Q (f a) m') p m → Holds Q (p.bind f) m
  pure : ∀ {α : Type} {Q : α → M → Prop} {a : α} {m : M}, Q a m → Holds Q (.pure a) m

namespace PathRule

variable {E : Type} {R : E → Type} {M : Type} {α β ε : Type} (W : PathRule E R M)

/-- The property for a task, with one condition for each way it ends. -/
def Task (Q : α → M → Prop) (Er : ε → M → Prop) (p : Async.Task E R ε α) (m : M) : Prop :=
  W.Holds (fun
    | .ok a => Q a
    | .error err => Er err) p.run m

variable {W} {Q Q' : α → M → Prop} {Er Er' : ε → M → Prop} {m : M}

lemma Task.weaken {p : Async.Task E R ε α} (h : W.Task Q Er p m)
    (hQ : ∀ a m', Q a m' → Q' a m') (hEr : ∀ err m', Er err m' → Er' err m') :
    W.Task Q' Er' p m :=
  PathRule.weaken W h fun
    | .ok a => hQ a
    | .error err => hEr err

lemma Task.bind {Q : β → M → Prop} {p : Async.Task E R ε α} {f : α → Async.Task E R ε β}
    (h : W.Task (fun a m' => W.Task Q Er (f a) m') Er p m) : W.Task Q Er (p >>= f) m := by
  apply PathRule.bind W (p := p.run)
  apply PathRule.weaken W h
  intro r m' hr
  cases r with
  | ok a => exact hr
  | error err => exact PathRule.pure W hr

lemma Task.tryCatch {p : Async.Task E R ε α} {f : ε → Async.Task E R ε α}
    (h : W.Task Q (fun err m' => W.Task Q Er (f err) m') p m) :
    W.Task Q Er (tryCatch p f) m := by
  apply PathRule.bind W (p := p.run)
  apply PathRule.weaken W h
  intro r m' hr
  cases r with
  | ok a => exact PathRule.pure W hr
  | error err => exact hr

lemma Task.finallyDo {p : Async.Task E R ε α} {f : Async.Task E R ε Unit}
    (h : W.Task (fun a m' => W.Task (fun _ => Q a) Er f m')
      (fun err m' => W.Task (fun _ => Er err) Er f m') p m) : W.Task Q Er (p.finallyDo f) m := by
  apply PathRule.bind W (p := p.run)
  apply PathRule.weaken W h
  intro r m' hr
  apply PathRule.bind W (p := f.run)
  cases r with
  | ok a =>
    apply PathRule.weaken W hr
    intro r' m'' hr'
    cases r' <;> exact PathRule.pure W hr'
  | error err =>
    apply PathRule.weaken W hr
    intro r' m'' hr'
    cases r' <;> exact PathRule.pure W hr'

/-- A task that is run to its end, whatever it comes to. -/
lemma Task.detach {C : M → Prop} {p : Async.Task E R ε α}
    (h : W.Task (fun _ => C) (fun _ => C) p m) : W.Holds (fun _ => C) p.run.detach m := by
  apply PathRule.bind W
  apply PathRule.weaken W h
  intro r m' hr
  cases r with
  | ok a => exact PathRule.pure W hr
  | error err => exact PathRule.pure W hr

end PathRule

end Async
