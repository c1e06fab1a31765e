import HybridLog.Async.Program
import Mathlib.Data.Nat.Init

/-!
# What cannot be avoided

`Inevitable step P s`: however the steps go on from `s`, a state with `P` is reached; no run goes
on forever without reaching one, and none gets stuck before. For programs that the environment
answers, `Must` and `May` say the same of all their runs and of one of them.
-/

namespace Async

/-! ### Steps -/

section Steps

variable {S S' : Type*} {step : S → S → Prop} {P Q : S → Prop}

inductive Inevitable (step : S → S → Prop) (P : S → Prop) : S → Prop
  | now {s : S} (h : P s) : Inevitable step P s
  | next {s : S} (hstep : ∃ s', step s s') (h : ∀ s', step s s' → Inevitable step P s') :
    Inevitable step P s

namespace Inevitable

lemma bind {s : S} (h : Inevitable step P s) (hP : ∀ s, P s → Inevitable step Q s) :
    Inevitable step Q s := by
  induction h with
  | now hs => exact hP _ hs
  | next hstep _ ih => exact .next hstep ih

/-- Some run reaches a state with `P`. -/
lemma exists_run {s : S} (h : Inevitable step P s) :
    ∃ s', Relation.ReflTransGen step s s' ∧ P s' := by
  induction h with
  | now hs => exact ⟨_, .refl, hs⟩
  | next hstep _ ih =>
    obtain ⟨s', hs'⟩ := hstep
    obtain ⟨s'', hrun, hP⟩ := ih s' hs'
    exact ⟨s'', hrun.head hs', hP⟩

/-- Where states with `P` are final, what is inevitable stays so. -/
lemma run (hfinal : ∀ s s', P s → ¬ step s s') {s s' : S} (h : Inevitable step P s)
    (hrun : Relation.ReflTransGen step s s') : Inevitable step P s' := by
  induction hrun with
  | refl => exact h
  | tail _ hstep ih =>
    cases ih with
    | now hs => exact absurd hstep (hfinal _ _ hs)
    | next _ hnext => exact hnext _ hstep

/-- A run that ends elsewhere avoids `P`. -/
lemma not_of_stuck (hfinal : ∀ s s', P s → ¬ step s s') {s s' : S}
    (hrun : Relation.ReflTransGen step s s') (hP : ¬ P s') (hstuck : ∀ s'', ¬ step s' s'') :
    ¬ Inevitable step P s := by
  intro h
  cases h.run hfinal hrun with
  | now hs => exact hP hs
  | next hstep _ =>
    obtain ⟨s'', hs''⟩ := hstep
    exact hstuck s'' hs''

/-- Steps that keep an invariant, decrease a measure and are possible until `P` lead to `P`. -/
lemma of_measure {inv : S → Prop} (μ : S → ℕ) (hkeep : ∀ s s', inv s → step s s' → inv s')
    (hless : ∀ s s', inv s → step s s' → μ s' < μ s)
    (hgo : ∀ s, inv s → ¬ P s → ∃ s', step s s') {s : S} (h : inv s) : Inevitable step P s := by
  induction hn : μ s using Nat.strong_induction_on generalizing s with
  | h n ih =>
    by_cases hP : P s
    · exact .now hP
    · refine .next (hgo s h hP) fun s' hs' => ?_
      exact ih _ (hn ▸ hless s s' h hs') (hkeep s s' h hs') rfl

/-- The same steps as a part of others, with an invariant of theirs. -/
lemma embed (step' : S' → S' → Prop) (inv : S → Prop) (f : S → S')
    (hkeep : ∀ s s', inv s → step s s' → inv s') (hto : ∀ s s', step s s' → step' (f s) (f s'))
    (hfrom : ∀ s t, inv s → ¬ P s → (∃ s', step s s') → step' (f s) t →
      ∃ s', step s s' ∧ t = f s')
    {s : S} (hs : inv s) (h : Inevitable step P s) :
    Inevitable step' (fun t => ∃ s, t = f s ∧ inv s ∧ P s) (f s) := by
  induction h with
  | now hP => exact .now ⟨_, rfl, hs, hP⟩
  | @next s hstep _ ih =>
    by_cases hP : P s
    · exact .now ⟨_, rfl, hs, hP⟩
    · have hfrom' := fun t => hfrom s t hs hP hstep
      obtain ⟨s', hs'⟩ := hstep
      refine .next ⟨f s', hto _ _ hs'⟩ fun t ht => ?_
      obtain ⟨s'', hs'', rfl⟩ := hfrom' t ht
      exact ih s'' hs'' (hkeep _ _ hs hs'')

end Inevitable

end Steps

/-! ### Programs -/

section Programs

variable {E : Type} {R : E → Type} {α β ε : Type} (admits : (e : E) → R e → Prop)

namespace Prog

/-- Every run of the program, with answers that the environment admits, returns a value with `P`;
what is left running is not followed. -/
def Must : {α : Type} → (α → Prop) → Prog E R α → Prop
  | _, P, .pure a => P a
  | _, P, .call e k => (∃ r, admits e r) ∧ ∀ r, admits e r → Must P (k r)
  | _, P, .fork _ k => Must P k
  | _, P, .amb l r => Must P l ∧ Must P r

/-- Some run of the program returns a value with `P`. -/
def May : {α : Type} → (α → Prop) → Prog E R α → Prop
  | _, P, .pure a => P a
  | _, P, .call e k => ∃ r, admits e r ∧ May P (k r)
  | _, P, .fork _ k => May P k
  | _, P, .amb l r => May P l ∨ May P r

variable {admits}

/-- One step of a program. -/
inductive Step (admits : (e : E) → R e → Prop) : {α : Type} → Prog E R α → Prog E R α → Prop
  | call {α : Type} {e : E} {r : R e} {k : R e → Prog E R α} (h : admits e r) :
    Step admits (.call e k) (k r)
  | fork {α : Type} {c : Prog E R Unit} {k : Prog E R α} : Step admits (.fork c k) k
  | left {α : Type} {p q : Prog E R α} : Step admits (.amb p q) p
  | right {α : Type} {p q : Prog E R α} : Step admits (.amb p q) q

lemma Must.inevitable {P : α → Prop} {p : Prog E R α} (h : p.Must admits P) :
    Inevitable (Step admits) (fun q => ∃ a, q = .pure a ∧ P a) p := by
  induction p with
  | pure a => exact .now ⟨a, rfl, h⟩
  | call e k ih =>
    obtain ⟨⟨r, hr⟩, hk⟩ := h
    refine .next ⟨_, .call hr⟩ fun q hq => ?_
    cases hq with
    | call hr' => exact ih _ (hk _ hr')
  | fork c k _ ihk =>
    refine .next ⟨_, .fork⟩ fun q hq => ?_
    cases hq
    exact ihk h
  | amb l r ihl ihr =>
    refine .next ⟨_, .left⟩ fun q hq => ?_
    cases hq with
    | left => exact ihl h.1
    | right => exact ihr h.2

lemma May.exists_run {P : α → Prop} {p : Prog E R α} (h : p.May admits P) :
    ∃ a, Relation.ReflTransGen (Step admits) p (.pure a) ∧ P a := by
  induction p with
  | pure a => exact ⟨a, .refl, h⟩
  | call e k ih =>
    obtain ⟨r, hr, hk⟩ := h
    obtain ⟨a, hrun, ha⟩ := ih r hk
    exact ⟨a, hrun.head (.call hr), ha⟩
  | fork c k _ ihk =>
    obtain ⟨a, hrun, ha⟩ := ihk h
    exact ⟨a, hrun.head .fork, ha⟩
  | amb l r ihl ihr =>
    rcases h with h | h
    · obtain ⟨a, hrun, ha⟩ := ihl h
      exact ⟨a, hrun.head .left, ha⟩
    · obtain ⟨a, hrun, ha⟩ := ihr h
      exact ⟨a, hrun.head .right, ha⟩

lemma Must.bind {P : α → Prop} {Q : β → Prop} {p : Prog E R α} {f : α → Prog E R β}
    (h : Must admits P p) (hf : ∀ a, P a → Must admits Q (f a)) : Must admits Q (p.bind f) := by
  induction p with
  | pure a => exact hf a h
  | call e k ih => exact ⟨h.1, fun r hr => ih r (h.2 r hr) hf⟩
  | fork c k _ ihk => exact ihk h hf
  | amb l r ihl ihr => exact ⟨ihl h.1 hf, ihr h.2 hf⟩

lemma May.bind {P : α → Prop} {Q : β → Prop} {p : Prog E R α} {f : α → Prog E R β}
    (h : May admits P p) (hf : ∀ a, P a → May admits Q (f a)) : May admits Q (p.bind f) := by
  induction p with
  | pure a => exact hf a h
  | call e k ih =>
    obtain ⟨r, hr, hk⟩ := h
    exact ⟨r, hr, ih r hk hf⟩
  | fork c k _ ihk => exact ihk h hf
  | amb l r ihl ihr =>
    rcases h with h | h
    · exact .inl (ihl h hf)
    · exact .inr (ihr h hf)

end Prog

/-- Every run of the task resolves, to a value with `P`. -/
def Task.Resolves (P : α → Prop) (p : Task E R ε α) : Prop :=
  p.run.Must admits fun r => ∃ a, r = .ok a ∧ P a

/-- Some run of the task rejects. -/
def Task.MayReject (p : Task E R ε α) : Prop := p.run.May admits fun r => ∃ err, r = .error err

namespace Task

variable {admits}

lemma resolves_pure {P : α → Prop} {a : α} (h : P a) :
    (pure a : Task E R ε α).Resolves admits P := ⟨a, rfl, h⟩

lemma resolves_request {P : α → Prop} {e : E} {k : R e → Except ε α} (hex : ∃ r, admits e r)
    (h : ∀ r, admits e r → ∃ a, k r = .ok a ∧ P a) :
    (Task.request e k : Task E R ε α).Resolves admits P := ⟨hex, h⟩

lemma Resolves.bind {P : α → Prop} {Q : β → Prop} {p : Task E R ε α} {f : α → Task E R ε β}
    (h : p.Resolves admits P) (hf : ∀ a, P a → (f a).Resolves admits Q) :
    (p >>= f).Resolves admits Q := by
  refine Prog.Must.bind h ?_
  rintro _ ⟨a, rfl, ha⟩
  exact hf a ha

lemma mayReject_request {e : E} {k : R e → Except ε α} {r : R e} {err : ε} (hr : admits e r)
    (h : k r = .error err) : (Task.request e k : Task E R ε α).MayReject admits :=
  ⟨r, hr, err, h⟩

/-- A task rejects with its first part. -/
lemma MayReject.bind {p : Task E R ε α} (h : p.MayReject admits) (f : α → Task E R ε β) :
    (p >>= f).MayReject admits := by
  refine Prog.May.bind h ?_
  rintro _ ⟨err, rfl⟩
  exact ⟨err, rfl⟩

lemma mayReject_request_bind {e : E} {k : R e → Except ε α} {f : α → Task E R ε β} {r : R e}
    {a : α} (hr : admits e r) (h : k r = .ok a) (hf : (f a).MayReject admits) :
    ((Task.request e k : Task E R ε α) >>= f).MayReject admits := by
  refine ⟨r, hr, ?_⟩
  show Prog.May admits _ ((Prog.pure (k r)).bind (ExceptT.bindCont f))
  rw [h]
  exact hf

end Task

end Programs

end Async
