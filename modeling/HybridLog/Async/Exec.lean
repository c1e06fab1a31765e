import HybridLog.Async.Program

/-!
# Running one program

Where a program runs alone, its run is determined by an oracle that answers each request, knowing
the requests before it.
-/

namespace Async

variable {E : Type} {R : E → Type} {α β ε : Type}

/-- The requests made after those in `done`, and the value returned. A program left running goes
first. -/
def Prog.exec (answer : List E → (e : E) → R e) : {α : Type} → Prog E R α → List E → List E × α
  | _, .pure a, done => (done, a)
  | _, .call e k, done => (k (answer done e)).exec answer (done ++ [e])
  | _, .fork c k, done => k.exec answer (c.exec answer done).1
  | _, .amb l _, done => l.exec answer done

lemma Prog.exec_bind (answer : List E → (e : E) → R e) (p : Prog E R α) (f : α → Prog E R β)
    (done : List E) : (p.bind f).exec answer done =
      (f (p.exec answer done).2).exec answer (p.exec answer done).1 := by
  induction p generalizing done with
  | pure a => rfl
  | call e k ih => exact ih _ f _
  | fork c k _ ihk => exact ihk f _
  | amb l r ihl _ => exact ihl f _

/-- The run of a task. -/
def Task.exec (answer : List E → (e : E) → R e) (p : Task E R ε α) (done : List E) :
    List E × Except ε α := Prog.exec answer p.run done

section Exec

variable (answer : List E → (e : E) → R e) (done : List E)

@[simp] lemma Task.exec_pure (a : α) :
    Task.exec answer (pure a : Task E R ε α) done = (done, .ok a) := rfl

@[simp] lemma Task.exec_throw (err : ε) :
    Task.exec answer (throw err : Task E R ε α) done = (done, .error err) := rfl

@[simp] lemma Task.exec_request (e : E) (k : R e → Except ε α) :
    Task.exec answer (Task.request e k) done = (done ++ [e], k (answer done e)) := rfl

@[simp] lemma Task.exec_ofExcept (x : Except ε α) :
    Task.exec answer (Task.ofExcept x : Task E R ε α) done = (done, x) := rfl

@[simp] lemma Task.exec_bind (p : Task E R ε α) (f : α → Task E R ε β) :
    Task.exec answer (p >>= f) done = match Task.exec answer p done with
      | (done', .ok a) => Task.exec answer (f a) done'
      | (done', .error err) => (done', .error err) := by
  refine (Prog.exec_bind answer p.run _ done).trans ?_
  rw [Task.exec]
  cases Prog.exec answer p.run done with
  | mk done' r => cases r <;> rfl

@[simp] lemma Task.exec_tryCatch (p : Task E R ε α) (f : ε → Task E R ε α) :
    Task.exec answer (tryCatch p f) done = match Task.exec answer p done with
      | (done', .ok a) => (done', .ok a)
      | (done', .error err) => Task.exec answer (f err) done' := by
  refine (Prog.exec_bind answer p.run _ done).trans ?_
  rw [Task.exec]
  cases Prog.exec answer p.run done with
  | mk done' r => cases r <;> rfl

end Exec

/-! ### Neighbours that may never answer -/

/-- A request and its answer. -/
abbrev Answered (E : Type) (R : E → Type) := Σ e : E, R e

/-- The requests answered after those in `done`, and the value returned, unless one is never
answered. A program left running goes first. -/
def Prog.trail (answer : List (Answered E R) → (e : E) → Option (R e)) :
    {α : Type} → Prog E R α → List (Answered E R) → List (Answered E R) × Option α
  | _, .pure a, done => (done, some a)
  | _, .call e k, done => match answer done e with
    | some r => (k r).trail answer (done ++ [⟨e, r⟩])
    | none => (done, none)
  | _, .fork c k, done => k.trail answer (c.trail answer done).1
  | _, .amb l _, done => l.trail answer done

lemma Prog.trail_bind (answer : List (Answered E R) → (e : E) → Option (R e)) (p : Prog E R α)
    (f : α → Prog E R β) (done : List (Answered E R)) :
    (p.bind f).trail answer done = match p.trail answer done with
      | (done', some a) => (f a).trail answer done'
      | (done', none) => (done', none) := by
  induction p generalizing done with
  | pure a => rfl
  | call e k ih =>
    simp only [bind, trail]
    cases answer done e with
    | some r => exact ih r f _
    | none => rfl
  | fork c k _ ihk => exact ihk f _
  | amb l r ihl _ => exact ihl f _

/-- The trail of a task. -/
def Task.trail (answer : List (Answered E R) → (e : E) → Option (R e)) (p : Task E R ε α)
    (done : List (Answered E R)) : List (Answered E R) × Option (Except ε α) :=
  Prog.trail answer p.run done

section Trail

variable (answer : List (Answered E R) → (e : E) → Option (R e)) (done : List (Answered E R))

@[simp] lemma Task.trail_pure (a : α) :
    Task.trail answer (pure a : Task E R ε α) done = (done, some (.ok a)) := rfl

@[simp] lemma Task.trail_throw (err : ε) :
    Task.trail answer (throw err : Task E R ε α) done = (done, some (.error err)) := rfl

@[simp] lemma Task.trail_ofExcept (x : Except ε α) :
    Task.trail answer (Task.ofExcept x : Task E R ε α) done = (done, some x) := rfl

lemma Task.trail_request {e : E} {r : R e} (h : answer done e = some r) (k : R e → Except ε α) :
    Task.trail answer (Task.request e k) done = (done ++ [⟨e, r⟩], some (k r)) := by
  rw [trail, request]
  simp [Prog.trail, h]

lemma Task.trail_stuck {e : E} (h : answer done e = none) (k : R e → Except ε α) :
    Task.trail answer (Task.request e k) done = (done, none) := by
  rw [trail, request]
  simp [Prog.trail, h]

@[simp] lemma Task.trail_bind (p : Task E R ε α) (f : α → Task E R ε β) :
    Task.trail answer (p >>= f) done = match Task.trail answer p done with
      | (done', some (.ok a)) => Task.trail answer (f a) done'
      | (done', some (.error err)) => (done', some (.error err))
      | (done', none) => (done', none) := by
  refine (Prog.trail_bind answer p.run _ done).trans ?_
  rw [Task.trail]
  rcases Prog.trail answer p.run done with ⟨done', _ | err | a⟩ <;> rfl

@[simp] lemma Task.trail_tryCatch (p : Task E R ε α) (f : ε → Task E R ε α) :
    Task.trail answer (tryCatch p f) done = match Task.trail answer p done with
      | (done', some (.error err)) => Task.trail answer (f err) done'
      | (done', r) => (done', r) := by
  refine (Prog.trail_bind answer p.run _ done).trans ?_
  rw [Task.trail]
  rcases Prog.trail answer p.run done with ⟨done', _ | err | a⟩ <;> rfl

lemma Task.trail_finallyDo (p : Task E R ε α) (f : Task E R ε Unit) :
    Task.trail answer (p.finallyDo f) done = match Task.trail answer p done with
      | (done', none) => (done', none)
      | (done', some r) => match Task.trail answer f done' with
        | (done'', some (.ok ())) => (done'', some r)
        | (done'', some (.error err)) => (done'', some (.error err))
        | (done'', none) => (done'', none) := by
  refine (Prog.trail_bind answer p.run _ done).trans ?_
  simp only [Task.trail, Prog.trail_bind]
  rcases Prog.trail answer p.run done with ⟨done', _ | r⟩
  · rfl
  · dsimp only
    rcases Prog.trail answer f.run done' with ⟨done'', _ | err | u⟩ <;> rfl

end Trail

end Async
