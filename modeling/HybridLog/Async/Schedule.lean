import HybridLog.Async.Pool

/-!
# Schedules

A schedule fixes which program moves next and how its request is answered, so a run along it can
be computed.
-/

namespace Async

variable {E : Type} {R : E → Type} {T X S : Type}

inductive Move (E : Type) (R : E → Type) (X S : Type)
  /-- The program at place `i` moves on; if it makes a request, `answer` answers it. -/
  | act (i : ℕ) (answer : (e : E) → S → R e)
  /-- The program at place `i` chooses its right branch. -/
  | right (i : ℕ)
  | ext (x : X)

/-- What is left of a program after it has moved on, and the world then. -/
def World.act (M : Machine E R T X S) (answer : (e : E) → S → R e) (w : World E R T X S) (t : T) :
    Prog E R Unit → Option (World E R T X S × List (T × Prog E R Unit))
  | .pure () => some (w, [])
  | .call e k => (M.apply t e (answer e w.state) w.state).map fun s =>
    (w.push (.call t e (answer e w.state)) s, [(t, k (answer e w.state))])
  | .fork c k => some (w, [(t, k), (t, c)])
  | .amb p _ => some (w, [(t, p)])

def Config.move (M : Machine E R T X S) (c : Config E R T X S) :
    Move E R X S → Option (Config E R T X S)
  | .act i answer => match c.procs[i]? with
    | none => none
    | some (t, p) => (c.world.act M answer t p).map fun (w, ps) =>
      ⟨w, c.procs.take i ++ ps ++ c.procs.drop (i + 1)⟩
  | .right i => match c.procs[i]? with
    | some (t, .amb _ q) => some ⟨c.world, c.procs.take i ++ (t, q) :: c.procs.drop (i + 1)⟩
    | _ => none
  | .ext x => (M.accept x c.world.state).map fun (s, ps) => ⟨c.world.push (.ext x) s, c.procs ++ ps⟩

/-- The configuration at the end of a schedule, if all its moves are possible. -/
def Config.play (M : Machine E R T X S) :
    Config E R T X S → List (Move E R X S) → Option (Config E R T X S)
  | c, [] => some c
  | c, m :: ms => (c.move M m).bind fun c' => c'.play M ms

lemma split_at {ι : Type*} {l : List ι} {i : ℕ} {x : ι} (h : l[i]? = some x) :
    l = l.take i ++ x :: l.drop (i + 1) := by
  obtain ⟨hi, rfl⟩ := List.getElem?_eq_some_iff.mp h
  rw [List.getElem_cons_drop, List.take_append_drop]

lemma Step.of_act {M : Machine E R T X S} {answer : (e : E) → S → R e} {w w' : World E R T X S}
    {t : T} {p : Prog E R Unit} {ps : List (T × Prog E R Unit)}
    (h : w.act M answer t p = some (w', ps)) (l l' : List (T × Prog E R Unit)) :
    Step M ⟨w, l ++ (t, p) :: l'⟩ ⟨w', l ++ ps ++ l'⟩ := by
  cases p with
  | pure a =>
    cases h
    simpa using Step.done
  | call e k =>
    obtain ⟨s, hs, heq⟩ := Option.map_eq_some_iff.mp h
    cases heq
    simpa using Step.call hs
  | fork c k =>
    cases h
    simpa using Step.fork
  | amb q q' =>
    cases h
    simpa using Step.left

lemma Step.of_move {M : Machine E R T X S} {c c' : Config E R T X S} {m : Move E R X S}
    (h : c.move M m = some c') : Step M c c' := by
  obtain ⟨w, procs⟩ := c
  cases m with
  | act i answer =>
    simp only [Config.move] at h
    split at h
    · cases h
    · next t p hi =>
      obtain ⟨⟨w', ps⟩, hact, rfl⟩ := Option.map_eq_some_iff.mp h
      conv_lhs => rw [split_at hi]
      exact Step.of_act hact _ _
  | right i =>
    simp only [Config.move] at h
    split at h
    · next t q q' hi =>
      cases h
      conv_lhs => rw [split_at hi]
      exact Step.right
    · cases h
  | ext x =>
    obtain ⟨⟨s, ps⟩, hs, rfl⟩ := Option.map_eq_some_iff.mp h
    exact Step.ext hs

/-- A move that adds an outside event to the trace is that event. -/
lemma Config.ext_of_move {M : Machine E R T X S} {c c' : Config E R T X S} {m : Move E R X S} {x : X}
    (h : c.move M m = some c') (htrace : c'.world.trace = c.world.trace ++ [.ext x]) :
    m = .ext x := by
  cases m with
  | act i answer =>
    simp only [move] at h
    split at h
    · cases h
    · next t p hi =>
      obtain ⟨⟨w', ps⟩, hact, rfl⟩ := Option.map_eq_some_iff.mp h
      cases p with
      | call e k =>
        obtain ⟨s, -, heq⟩ := Option.map_eq_some_iff.mp hact
        cases heq
        cases List.append_cancel_left htrace
      | pure | fork | amb =>
        cases hact
        simp at htrace
  | right i =>
    simp only [move] at h
    split at h
    · cases h
      simp at htrace
    · cases h
  | ext y =>
    obtain ⟨⟨s, ps⟩, -, rfl⟩ := Option.map_eq_some_iff.mp h
    cases List.append_cancel_left htrace
    rfl

/-- What a schedule computes is a run. -/
theorem Run.of_play {M : Machine E R T X S} : ∀ {ms : List (Move E R X S)}
    {c c' : Config E R T X S}, c.play M ms = some c' → Run M c c'
  | [], _, _, h => by
    cases h
    exact .refl
  | _ :: _, _, _, h => by
    obtain ⟨c₁, hmove, hplay⟩ := Option.bind_eq_some_iff.mp h
    exact .head (Step.of_move hmove) (Run.of_play hplay)

end Async
