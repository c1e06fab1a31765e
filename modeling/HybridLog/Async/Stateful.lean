import HybridLog.Async.Inevitable

/-!
# Runs on a state

The environment of a program may have a state: it serves a request with an answer and a new state.
A run starts in one state and ends, with the value returned, in another. What is left running is
not followed.
-/

namespace Async

variable {E : Type} {R : E → Type} {S : Type} {α β ε : Type}
variable (serves : S → (e : E) → R e → S → Prop)

/-- The program may run from the state `s` to the state `s'` and return a value. -/
def Prog.RunsTo : {α : Type} → Prog E R α → S → α → S → Prop
  | _, .pure a, s, b, s' => b = a ∧ s' = s
  | _, .call e k, s, b, s' => ∃ r t, serves s e r t ∧ RunsTo (k r) t b s'
  | _, .fork _ k, s, b, s' => RunsTo k s b s'
  | _, .amb p q, s, b, s' => RunsTo p s b s' ∨ RunsTo q s b s'

/-- The task may run from `s` to `s'` and resolve or reject. -/
def Task.RunsTo (p : Task E R ε α) : S → Except ε α → S → Prop := p.run.RunsTo serves

/-- The task ends in the state it starts in. -/
def Task.Keeps (p : Task E R ε α) : Prop := ∀ s x s', p.RunsTo serves s x s' → s' = s

variable {serves}

lemma Prog.runsTo_bind {p : Prog E R α} {f : α → Prog E R β} {s s' : S} {b : β} :
    (p.bind f).RunsTo serves s b s' ↔
      ∃ a t, p.RunsTo serves s a t ∧ (f a).RunsTo serves t b s' := by
  induction p generalizing s with
  | pure a =>
    constructor
    · exact fun h => ⟨a, s, ⟨rfl, rfl⟩, h⟩
    · rintro ⟨_, _, ⟨rfl, rfl⟩, h⟩
      exact h
  | call e k ih =>
    constructor
    · rintro ⟨r, t, hserves, h⟩
      obtain ⟨a, u, hk, hf⟩ := (ih r).mp h
      exact ⟨a, u, ⟨r, t, hserves, hk⟩, hf⟩
    · rintro ⟨a, u, ⟨r, t, hserves, hk⟩, hf⟩
      exact ⟨r, t, hserves, (ih r).mpr ⟨a, u, hk, hf⟩⟩
  | fork c k _ ihk => exact ihk
  | amb p q ihp ihq =>
    constructor
    · rintro (h | h)
      · obtain ⟨a, t, hp, hf⟩ := ihp.mp h
        exact ⟨a, t, .inl hp, hf⟩
      · obtain ⟨a, t, hq, hf⟩ := ihq.mp h
        exact ⟨a, t, .inr hq, hf⟩
    · rintro ⟨a, t, hp | hq, hf⟩
      · exact .inl (ihp.mpr ⟨a, t, hp, hf⟩)
      · exact .inr (ihq.mpr ⟨a, t, hq, hf⟩)

/-- Where the environment always serves an answer that it admits, a run exists. -/
lemma Prog.Must.exists_runsTo {admits : (e : E) → R e → Prop}
    (hserves : ∀ s e, (∃ r, admits e r) → ∃ r s', admits e r ∧ serves s e r s') {P : α → Prop}
    {p : Prog E R α} (h : p.Must admits P) (s : S) : ∃ a s', p.RunsTo serves s a s' ∧ P a := by
  induction p generalizing s with
  | pure a => exact ⟨a, s, ⟨rfl, rfl⟩, h⟩
  | call e k ih =>
    obtain ⟨r, t, hr, hst⟩ := hserves s e h.1
    obtain ⟨a, s', hrun, ha⟩ := ih r (h.2 r hr) t
    exact ⟨a, s', ⟨r, t, hst, hrun⟩, ha⟩
  | fork c k _ ihk => exact ihk h s
  | amb p q ihp _ =>
    obtain ⟨a, s', hrun, ha⟩ := ihp h.1 s
    exact ⟨a, s', .inl hrun, ha⟩

namespace Task

variable {s s' : S}

lemma runsTo_pure {a : α} {x : Except ε α} :
    (pure a : Task E R ε α).RunsTo serves s x s' ↔ x = .ok a ∧ s' = s := Iff.rfl

lemma runsTo_request {e : E} {k : R e → Except ε α} {x : Except ε α} :
    (Task.request e k).RunsTo serves s x s' ↔ ∃ r, serves s e r s' ∧ x = k r := by
  constructor
  · rintro ⟨r, t, hserves, rfl, rfl⟩
    exact ⟨r, hserves, rfl⟩
  · rintro ⟨r, hserves, rfl⟩
    exact ⟨r, s', hserves, rfl, rfl⟩

/-- A task resolves if its parts do. -/
lemma runsTo_bind_ok {p : Task E R ε α} {f : α → Task E R ε β} {b : β} :
    (p >>= f).RunsTo serves s (.ok b) s' ↔
      ∃ a t, p.RunsTo serves s (.ok a) t ∧ (f a).RunsTo serves t (.ok b) s' := by
  constructor
  · intro h
    obtain ⟨x, t, hp, hf⟩ := Prog.runsTo_bind.mp h
    cases x with
    | ok a => exact ⟨a, t, hp, hf⟩
    | error err => cases hf.1
  · rintro ⟨a, t, hp, hf⟩
    exact Prog.runsTo_bind.mpr ⟨.ok a, t, hp, hf⟩

lemma runsTo_tryCatch_ok {p : Task E R ε α} {f : ε → Task E R ε α} {a : α}
    (h : p.RunsTo serves s (.ok a) s') : (tryCatch p f).RunsTo serves s (.ok a) s' :=
  Prog.runsTo_bind.mpr ⟨.ok a, s', h, rfl, rfl⟩

lemma Resolves.exists_runsTo {admits : (e : E) → R e → Prop}
    (hserves : ∀ s e, (∃ r, admits e r) → ∃ r s', admits e r ∧ serves s e r s') {P : α → Prop}
    {p : Task E R ε α} (h : p.Resolves admits P) (s : S) :
    ∃ a s', p.RunsTo serves s (.ok a) s' ∧ P a := by
  obtain ⟨_, s', hrun, a, rfl, ha⟩ := Prog.Must.exists_runsTo hserves h s
  exact ⟨a, s', hrun, ha⟩

/-! ### Tasks that keep the state -/

lemma keeps_pure (a : α) : (pure a : Task E R ε α).Keeps serves := fun _ _ _ h => h.2

lemma keeps_request {e : E} {k : R e → Except ε α}
    (h : ∀ s r s', serves s e r s' → s' = s) : (Task.request e k).Keeps serves := by
  intro s x s' hrun
  obtain ⟨r, hserves, -⟩ := runsTo_request.mp hrun
  exact h s r s' hserves

lemma Keeps.bind {p : Task E R ε α} {f : α → Task E R ε β} (hp : p.Keeps serves)
    (hf : ∀ a, (f a).Keeps serves) : (p >>= f).Keeps serves := by
  intro s x s' hrun
  obtain ⟨y, t, hrun, hrest⟩ := Prog.runsTo_bind.mp hrun
  rw [← hp s y t hrun]
  cases y with
  | ok a => exact hf a t x s' hrest
  | error err => exact hrest.2

end Task

end Async
