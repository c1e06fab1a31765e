import HybridLog.Async.Guard
import HybridLog.Async.Stateful

/-!
# Runs of one program among others

A program of a pool may run to its end while the others wait. The state of its environment is then
the world of the pool, whose trace it extends. Tasks of `promiseAll` may run in turn.
-/

namespace Async

variable {E : Type} {R : E → Type} {S T X : Type} {α β γ ε : Type}

/-! ### Tasks in turn -/

section Turns

variable {serves : S → (e : E) → R e → S → Prop}

/-- The left program waits at a request, and the right one has nothing to do but to choose. -/
lemma Prog.runsTo_raceCall {e : E} {k : R e → Prog E R α} {onRight : Prog E R α → β → Prog E R γ}
    {next : R e → Prog E R β → Prog E R γ} {q : Prog E R β} {s t s' : S} {b : β} {x : γ}
    (hq : q.RunsTo serves t b s')
    (hnext : ∀ q', q'.RunsTo serves t b s' →
      ∃ r u, serves s e r u ∧ (next r q').RunsTo serves u x s')
    (hright : t = s' → (onRight (.call e k) b).RunsTo serves s x s') :
    (raceCall e k onRight next q).RunsTo serves s x s' := by
  induction q with
  | pure b' =>
    obtain ⟨rfl, rfl⟩ := hq
    exact hright rfl
  | call f h => exact .inl (hnext _ hq)
  | fork c q _ ih => exact ih hq hnext hright
  | amb q₁ q₂ ih₁ ih₂ =>
    rcases hq with hq | hq
    · exact .inl (ih₁ hq hnext hright)
    · exact .inr (ih₂ hq hnext hright)

/-- Where the left program runs first and the right one after it, so does their race. -/
lemma Prog.runsTo_race {onLeft : α → Prog E R β → Prog E R γ}
    {onRight : Prog E R α → β → Prog E R γ} {p : Prog E R α} {q : Prog E R β} {s t s' : S} {a : α}
    {b : β} {x : γ} (hp : p.RunsTo serves s a t) (hq : q.RunsTo serves t b s')
    (hleft : ∀ q', q'.RunsTo serves t b s' → (onLeft a q').RunsTo serves t x s')
    (hright : t = s' → ∀ u p', p'.RunsTo serves u a s' → (onRight p' b).RunsTo serves u x s') :
    (race onLeft onRight p q).RunsTo serves s x s' := by
  induction p generalizing s q with
  | pure a' =>
    obtain ⟨rfl, rfl⟩ := hp
    exact hleft q hq
  | call e k ih =>
    obtain ⟨r, u, hserves, hk⟩ := hp
    refine Prog.runsTo_raceCall hq (fun q' hq' => ⟨r, u, hserves, ih r hk hq' hleft hright⟩) ?_
    exact fun heq => hright heq s _ ⟨r, u, hserves, heq ▸ hk⟩
  | fork c k _ ihk => exact ihk hp hq hleft hright
  | amb p₁ p₂ ih₁ ih₂ =>
    rcases hp with hp | hp
    · exact .inl (ih₁ hp hq hleft hright)
    · exact .inr (ih₂ hp hq hleft hright)

/-- Each task runs where the one before has ended. -/
def RunInTurn (serves : S → (e : E) → R e → S → Prop) :
    List (Task E R ε α) → S → List α → S → Prop
  | [], s, as, s' => as = [] ∧ s' = s
  | p :: ps, s, as, s' => ∃ a t as', p.RunsTo serves s (.ok a) t ∧ RunInTurn serves ps t as' s' ∧
      as = a :: as'

lemma RunInTurn.promiseAll {ps : List (Task E R ε α)} {s s' : S} {as : List α}
    (h : RunInTurn serves ps s as s') : (promiseAll ps).RunsTo serves s (.ok as) s' := by
  induction ps generalizing s as with
  | nil =>
    obtain ⟨rfl, rfl⟩ := h
    exact ⟨rfl, rfl⟩
  | cons p ps ih =>
    obtain ⟨a, t, as', hp, hps, rfl⟩ := h
    refine Prog.runsTo_race hp (ih hps) (fun q hq => ?_) fun _ u q hq => ?_
    · exact Prog.runsTo_bind.mpr ⟨.ok as', s', hq, rfl, rfl⟩
    · exact Prog.runsTo_bind.mpr ⟨.ok a, s', hq, rfl, rfl⟩

end Turns

/-! ### In a pool -/

/-- The request of a program tagged `t` is answered, which the trace records. -/
def Machine.serves (M : Machine E R T X S) (t : T) (w : World E R T X S) (e : E) (r : R e)
    (w' : World E R T X S) : Prop :=
  ∃ s, M.apply t e r w.state = some s ∧ w' = w.push (.call t e r) s

variable {M : Machine E R T X S} {t : T} {w w' : World E R T X S}

/-- The first part of a program of a pool runs to its end. -/
lemma Prog.RunsTo.run {p : Prog E R α} {a : α} (h : p.RunsTo (M.serves t) w a w')
    (f : α → Prog E R Unit) (l l' : List (T × Prog E R Unit)) :
    ∃ l'', Run M ⟨w, l ++ (t, p.bind f) :: l'⟩ ⟨w', l ++ (t, f a) :: l''⟩ := by
  induction p generalizing w l' with
  | pure _ =>
    obtain ⟨rfl, rfl⟩ := h
    exact ⟨l', .refl⟩
  | call e k ih =>
    obtain ⟨r, _, ⟨s, hs, rfl⟩, hk⟩ := h
    obtain ⟨l'', hrun⟩ := ih r hk f l'
    exact ⟨l'', .head (.call hs) hrun⟩
  | fork c k _ ihk =>
    obtain ⟨l'', hrun⟩ := ihk h f ((t, c) :: l')
    exact ⟨l'', .head .fork hrun⟩
  | amb p q ihp ihq =>
    rcases h with h | h
    · obtain ⟨l'', hrun⟩ := ihp h f l'
      exact ⟨l'', .head .left hrun⟩
    · obtain ⟨l'', hrun⟩ := ihq h f l'
      exact ⟨l'', .head .right hrun⟩

/-- What a guard says about the end of a program holds where it has run. -/
lemma Follows.runsTo {P : Guard E R T X} {Q : α → Trace E R T X → Prop} {p : Prog E R α} {a : α}
    (h : Follows P t Q p w.trace) (hrun : p.RunsTo (M.serves t) w a w') : Q a w'.trace := by
  induction p generalizing w with
  | pure _ =>
    obtain ⟨rfl, rfl⟩ := hrun
    exact h _ List.prefix_rfl
  | call e k ih =>
    obtain ⟨r, _, ⟨s, -, rfl⟩, hk⟩ := hrun
    exact ih r ((h _ List.prefix_rfl).2 r) hk
  | fork c k _ ihk => exact ihk h.2 hrun
  | amb p q ihp ihq =>
    rcases hrun with hrun | hrun
    · exact ihp h.1 hrun
    · exact ihq h.2 hrun

/-- No outside event happens meanwhile. -/
lemma Prog.RunsTo.ext_mem {p : Prog E R α} {a : α} (h : p.RunsTo (M.serves t) w a w') {x : X}
    (hx : .ext x ∈ w'.trace) : .ext x ∈ w.trace := by
  induction p generalizing w with
  | pure _ => exact h.2 ▸ hx
  | call e k ih =>
    obtain ⟨r, _, ⟨s, -, rfl⟩, hk⟩ := h
    have hmem := ih r hk
    rw [World.push_trace, List.mem_append, List.mem_singleton] at hmem
    exact hmem.resolve_right nofun
  | fork c k _ ihk => exact ihk h
  | amb p q ihp ihq => exact h.elim ihp ihq

/-- What every answer keeps holds at the end. -/
lemma Prog.RunsTo.invariant {serves : S → (e : E) → R e → S → Prop} {I : S → Prop}
    (hserves : ∀ s e r s', serves s e r s' → I s → I s') {p : Prog E R α} {s s' : S} {a : α}
    (h : p.RunsTo serves s a s') (hs : I s) : I s' := by
  induction p generalizing s with
  | pure _ => exact h.2 ▸ hs
  | call e k ih =>
    obtain ⟨r, t, hr, hk⟩ := h
    exact ih r hk (hserves s e r t hr hs)
  | fork c k _ ihk => exact ihk h hs
  | amb p q ihp ihq => exact h.elim (fun h => ihp h hs) fun h => ihq h hs

/-! ### Among others -/

/-- A request with the trace after which it is answered. -/
lemma FollowsTask.request_at {P : Guard E R T X} {e : E} {k : R e → Except ε α}
    {Q : α → Trace E R T X → Prop} {Er : ε → Trace E R T X → Prop} {tr : Trace E R T X}
    (hP : ∀ tr', tr <+: tr' → P t e tr')
    (hQ : ∀ r pre tr', tr <+: pre → pre ++ [.call t e r] <+: tr' → match k r with
      | .ok a => Q a tr'
      | .error err => Er err tr') : FollowsTask P t Q Er (Task.request e k) tr := by
  refine fun pre htr => ⟨hP pre htr, fun r tr' htr' => ?_⟩
  have h := hQ r pre tr' htr htr'
  cases hk : k r with
  | ok a => simpa only [hk] using h
  | error err => simpa only [hk] using h

/-- Before each request of a program others may do anything. -/
lemma Follows.runsTo_among {P : Guard E R T X} {Q : α → Trace E R T X → Prop}
    {serves : Trace E R T X → (e : E) → R e → Trace E R T X → Prop}
    (hserves : ∀ tr e r tr', serves tr e r tr' → ∃ pre, tr <+: pre ∧ tr' = pre ++ [.call t e r])
    {p : Prog E R α} {tr tr' : Trace E R T X} {a : α} (h : Follows P t Q p tr)
    (hrun : p.RunsTo serves tr a tr') : Q a tr' := by
  induction p generalizing tr with
  | pure _ =>
    obtain ⟨rfl, rfl⟩ := hrun
    exact h _ List.prefix_rfl
  | call e k ih =>
    obtain ⟨r, _, hr, hk⟩ := hrun
    obtain ⟨pre, hpre, rfl⟩ := hserves _ e r _ hr
    exact ih r ((h pre hpre).2 r) hk
  | fork c k _ ihk => exact ihk h.2 hrun
  | amb p q ihp ihq =>
    rcases hrun with hrun | hrun
    · exact ihp h.1 hrun
    · exact ihq h.2 hrun

end Async
