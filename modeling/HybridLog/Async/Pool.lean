import HybridLog.Async.Program
import Mathlib.Data.List.Infix
import Mathlib.Data.List.Forall2

/-!
# Pools of programs over a shared state

A `Machine` says how the shared state answers the requests of the running programs and which
events come from outside. A configuration is the shared state, the trace of what happened so
far, and the programs that run at the moment; a step lets one program make one request, or an
outside event happen. Every program carries a tag, which the trace records.
-/

namespace Async

/-- The environment of a pool: `apply t e r s` is the state after request `e` of a program tagged
`t` is answered by `r`, if that answer is possible in `s`; `accept x s` is the state after the
outside event `x` and the programs it starts. -/
structure Machine (E : Type) (R : E → Type) (T X S : Type) where
  apply : T → (e : E) → R e → S → Option S
  accept : X → S → Option (S × List (T × Prog E R Unit))

/-- One entry of a trace: an answered request or an outside event. -/
inductive Event (E : Type) (R : E → Type) (T X : Type)
  | call (t : T) (e : E) (r : R e)
  | ext (x : X)

/-- The shared state and the events that led to it, oldest first. -/
structure World (E : Type) (R : E → Type) (T X S : Type) where
  state : S
  trace : List (Event E R T X)

structure Config (E : Type) (R : E → Type) (T X S : Type) where
  world : World E R T X S
  procs : List (T × Prog E R Unit)

variable {E : Type} {R : E → Type} {T X S : Type} {α β γ ε : Type}

/-- The world after one more event. -/
def World.push (w : World E R T X S) (ev : Event E R T X) (s : S) : World E R T X S :=
  ⟨s, w.trace ++ [ev]⟩

@[simp] lemma World.push_state (w : World E R T X S) (ev : Event E R T X) (s : S) :
    (w.push ev s).state = s := rfl

@[simp] lemma World.push_trace (w : World E R T X S) (ev : Event E R T X) (s : S) :
    (w.push ev s).trace = w.trace ++ [ev] := rfl

/-- The configuration in which nothing has happened. -/
def Config.start (s : S) : Config E R T X S := ⟨⟨s, []⟩, []⟩

/-! ### Steps and runs -/

inductive Step (M : Machine E R T X S) : Config E R T X S → Config E R T X S → Prop
  | call {w : World E R T X S} {l l' : List (T × Prog E R Unit)} {t : T} {e : E}
      {k : R e → Prog E R Unit} {r : R e} {s : S} (h : M.apply t e r w.state = some s) :
      Step M ⟨w, l ++ (t, .call e k) :: l'⟩ ⟨w.push (.call t e r) s, l ++ (t, k r) :: l'⟩
  | fork {w : World E R T X S} {l l' : List (T × Prog E R Unit)} {t : T}
      {c k : Prog E R Unit} :
      Step M ⟨w, l ++ (t, .fork c k) :: l'⟩ ⟨w, l ++ (t, k) :: (t, c) :: l'⟩
  | left {w : World E R T X S} {l l' : List (T × Prog E R Unit)} {t : T}
      {p q : Prog E R Unit} :
      Step M ⟨w, l ++ (t, .amb p q) :: l'⟩ ⟨w, l ++ (t, p) :: l'⟩
  | right {w : World E R T X S} {l l' : List (T × Prog E R Unit)} {t : T}
      {p q : Prog E R Unit} :
      Step M ⟨w, l ++ (t, .amb p q) :: l'⟩ ⟨w, l ++ (t, q) :: l'⟩
  | done {w : World E R T X S} {l l' : List (T × Prog E R Unit)} {t : T} :
      Step M ⟨w, l ++ (t, .pure ()) :: l'⟩ ⟨w, l ++ l'⟩
  | ext {w : World E R T X S} {l : List (T × Prog E R Unit)} {x : X} {s : S}
      {ps : List (T × Prog E R Unit)} (h : M.accept x w.state = some (s, ps)) :
      Step M ⟨w, l⟩ ⟨w.push (.ext x) s, l ++ ps⟩

/-- `Run M c c'`: some sequence of steps leads from `c` to `c'`. -/
abbrev Run (M : Machine E R T X S) : Config E R T X S → Config E R T X S → Prop :=
  Relation.ReflTransGen (Step M)

/-- The configurations reached from state `s` with nothing running. -/
abbrev Reach (M : Machine E R T X S) (s : S) (c : Config E R T X S) : Prop :=
  Run M (Config.start s) c

/-- The trace of a later configuration extends that of an earlier one. -/
lemma Step.trace_le {M : Machine E R T X S} {c c' : Config E R T X S} (h : Step M c c') :
    c.world.trace <+: c'.world.trace := by
  cases h <;> simp

lemma Run.trace_le {M : Machine E R T X S} {c c' : Config E R T X S} (h : Run M c c') :
    c.world.trace <+: c'.world.trace := by
  induction h with
  | refl => exact List.prefix_rfl
  | tail _ hstep ih => exact ih.trans hstep.trace_le

/-- An outside event could happen when it did. -/
theorem Reach.accepted {M : Machine E R T X S} {s₀ : S} {c : Config E R T X S} (h : Reach M s₀ c)
    {x : X} (hx : .ext x ∈ c.world.trace) : ∃ s s' ps, M.accept x s = some (s', ps) := by
  induction h with
  | refl => cases hx
  | tail _ hstep ih =>
    cases hstep with
    | call hs =>
      rcases List.mem_append.mp hx with hold | hnew
      · exact ih hold
      · cases List.mem_singleton.mp hnew
    | fork | left | right | done => exact ih hx
    | ext hs =>
      rcases List.mem_append.mp hx with hold | hnew
      · exact ih hold
      · cases List.mem_singleton.mp hnew
        exact ⟨_, _, _, hs⟩

/-! ### Replacing a member of a pool -/

/-- A step replaces one member `x` of the pool by the members of `new`. -/
lemma forall_mem_replace {ι : Type*} {P : ι → Prop} {l l' : List ι} {x : ι} (new : List ι)
    (h : ∀ p ∈ l ++ x :: l', P p) (hx : P x → ∀ p ∈ new, P p) : ∀ p ∈ l ++ (new ++ l'), P p := by
  intro p hp
  rcases List.mem_append.mp hp with hp | hp
  · exact h p (by simp [hp])
  · rcases List.mem_append.mp hp with hp | hp
    · exact hx (h x (by simp)) p hp
    · exact h p (by simp [hp])

lemma exists_mem_replace {ι : Type*} {P : ι → Prop} {l l' : List ι} {x : ι} (new : List ι)
    (h : ∃ p ∈ l ++ x :: l', P p) (hx : P x → ∃ p ∈ new, P p) : ∃ p ∈ l ++ (new ++ l'), P p := by
  obtain ⟨p, hp, hPp⟩ := h
  simp only [List.mem_append, List.mem_cons] at hp
  rcases hp with hp | rfl | hp
  · exact ⟨p, by simp [hp], hPp⟩
  · obtain ⟨q, hq, hPq⟩ := hx hPp
    exact ⟨q, by simp [hq], hPq⟩
  · exact ⟨p, by simp [hp], hPp⟩

/-- What holds of the tag and the trace when a program is started holds as long as it runs. -/
theorem Reach.tagged {M : Machine E R T X S} {P : T → List (Event E R T X) → Prop}
    (hlater : ∀ t tr tr', P t tr → tr <+: tr' → P t tr')
    (hext : ∀ x s s' ps tr, M.accept x s = some (s', ps) → ∀ p ∈ ps, P p.1 (tr ++ [.ext x]))
    {s₀ : S} {c : Config E R T X S} (h : Reach M s₀ c) : ∀ p ∈ c.procs, P p.1 c.world.trace := by
  induction h with
  | refl =>
    intro p hp
    cases hp
  | tail _ hstep ih =>
    have hold := fun p hp => hlater p.1 _ _ (ih p hp) hstep.trace_le
    cases hstep with
    | @call w l l' t e k r s hs =>
      exact forall_mem_replace [(t, k r)] hold fun h => List.forall_mem_singleton.mpr h
    | @fork w l l' t p q =>
      exact forall_mem_replace [(t, q), (t, p)] hold fun h =>
        List.forall_mem_cons.mpr ⟨h, List.forall_mem_singleton.mpr h⟩
    | @left w l l' t p q =>
      exact forall_mem_replace [(t, p)] hold fun h => List.forall_mem_singleton.mpr h
    | @right w l l' t p q =>
      exact forall_mem_replace [(t, q)] hold fun h => List.forall_mem_singleton.mpr h
    | @done w l l' t => exact forall_mem_replace [] hold fun _ => List.forall_mem_nil _
    | ext hs => exact List.forall_mem_append.mpr ⟨hold, hext _ _ _ _ _ hs⟩

end Async
