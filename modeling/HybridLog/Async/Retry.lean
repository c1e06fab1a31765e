import HybridLog.Async.Guard

/-!
# Programs that are run again

A program that a crash cuts off is run again from its start, in a state that looks as its last
attempt has left it, until one run of it completes. An attempt does no harm if it has changed
nothing that is looked at, or if what was left of it could change nothing and the attempts after it
change nothing. The attempts together are then as good as one run that is not cut off.
-/

namespace Async

variable {E : Type} {R : E → Type} {T X S α : Type}

/-- The outside events of a trace. -/
def outside (tr : Trace E R T X) : List X :=
  tr.filterMap fun
    | .ext x => some x
    | .call .. => none

@[simp] lemma outside_nil : outside ([] : Trace E R T X) = [] := rfl

@[simp] lemma outside_append (tr tr' : Trace E R T X) :
    outside (tr ++ tr') = outside tr ++ outside tr' := List.filterMap_append

@[simp] lemma outside_call (t : T) (e : E) (r : R e) :
    outside [(.call t e r : Event E R T X)] = [] := rfl

@[simp] lemma outside_ext (x : X) : outside [(.ext x : Event E R T X)] = [x] := rfl

@[simp] lemma outside_map_ext (xs : List X) :
    outside (xs.map (Event.ext : X → Event E R T X)) = xs := by
  induction xs with
  | nil => rfl
  | cons x xs ih => exact congrArg (x :: ·) ih

/-- All requests of a program and of what it leaves running are of a kind. -/
def Prog.Only (P : E → Prop) : {α : Type} → Prog E R α → Prop
  | _, .pure _ => True
  | _, .call e k => P e ∧ ∀ r, Prog.Only P (k r)
  | _, .fork c k => Prog.Only P c ∧ Prog.Only P k
  | _, .amb l r => Prog.Only P l ∧ Prog.Only P r

lemma Prog.bind_pure (p : Prog E R α) : p.bind .pure = p := by
  induction p with
  | pure a => rfl
  | call e k ih => exact congrArg (Prog.call e) (funext ih)
  | fork c k _ ihk => exact congrArg (Prog.fork c) ihk
  | amb l r ihl ihr => exact congrArg₂ Prog.amb ihl ihr

/-- The program has just begun. -/
def Config.begin (t : T) (p : Prog E R Unit) (s : S) : Config E R T X S := ⟨⟨s, []⟩, [(t, p)]⟩

section Attempts

variable (M : Machine E R T X S) (same : S → S → Prop) (t : T) (p : Prog E R Unit)

/-- The attempts `cuts` at a program are cut off, where `cuttable` allows it, and the attempt after
them completes in `w`. A crash leaves what is looked at through `same`. -/
inductive Retried (cuttable : Config E R T X S → Prop) :
    S → List (Config E R T X S) → World E R T X S → Prop
  | completed {s : S} {w : World E R T X S} (h : Run M (.begin t p s) ⟨w, []⟩) :
    Retried cuttable s [] w
  | cut {s s' : S} {c : Config E R T X S} {cuts : List (Config E R T X S)} {w : World E R T X S}
    (h : Run M (.begin t p s) c) (hc : cuttable c) (hsame : same c.world.state s')
    (hagain : Retried cuttable s' cuts w) : Retried cuttable s (c :: cuts) w

/-- One completed run among the outside events of all attempts ends in a state that looks like `s'`,
and the requests of it that last were answered so in one of the attempts. -/
def AsOnce (lasting : E → Prop) (s : S) (attempts : List (World E R T X S)) (s' : S) : Prop :=
  ∃ w, Run M (.begin t p s) ⟨w, []⟩ ∧ same s' w.state ∧
    outside w.trace = attempts.flatMap (fun v => outside v.trace) ∧
    ∀ t e r, lasting e → Did t e r w.trace → ∃ v ∈ attempts, Did t e r v.trace

end Attempts

/-- States are looked at through `same`, which requests and outside events respect. Answers that are
inert change nothing that is looked at, and a free request, which never lasts, can have one. -/
structure Looked (M : Machine E R T X S) (same : S → S → Prop) (inert : (e : E) → R e → Prop)
    (free lasting : E → Prop) : Prop where
  equiv : Equivalence same
  respects : ∀ {t e r s s' u}, same s u → M.apply t e r s = some s' →
    ∃ u', M.apply t e r u = some u' ∧ same s' u'
  accepts : ∀ {x s s' ps u}, same s u → M.accept x s = some (s', ps) →
    ps = [] ∧ ∃ u', M.accept x u = some (u', []) ∧ same s' u'
  unchanged : ∀ {t e r s s'}, M.apply t e r s = some s' → inert e r → same s s'
  answered : ∀ t e s, free e → ∃ r s', M.apply t e r s = some s' ∧ inert e r
  passing : ∀ e, free e → ¬ lasting e

namespace Looked

variable {M : Machine E R T X S} {same : S → S → Prop} {inert : (e : E) → R e → Prop}
  {free lasting : E → Prop}

/-! ### Runs from states that look alike -/

/-- A run is possible from any state that looks like its first one. -/
lemma simulate (hM : Looked M same inert free lasting) {c c' : Config E R T X S} (h : Run M c c')
    {u : S} (hu : same c.world.state u) (tr : Trace E R T X) :
    ∃ new w, c'.world.trace = c.world.trace ++ new ∧ Run M ⟨⟨u, tr⟩, c.procs⟩ ⟨w, c'.procs⟩ ∧
      same c'.world.state w.state ∧ w.trace = tr ++ new := by
  induction h with
  | refl => exact ⟨[], ⟨u, tr⟩, by simp, .refl, hu, by simp⟩
  | tail _ hstep ih =>
    obtain ⟨new, w, hnew, hrun, hsame, htr⟩ := ih
    cases hstep with
    | @call w₁ l l' t e k r s hs =>
      obtain ⟨s', hs', hsame'⟩ := hM.respects hsame hs
      refine ⟨new ++ [.call t e r], w.push (.call t e r) s', ?_, hrun.tail (.call hs'), hsame', ?_⟩
      · rw [World.push_trace, hnew, List.append_assoc]
      · rw [World.push_trace, htr, List.append_assoc]
    | fork => exact ⟨new, w, hnew, hrun.tail .fork, hsame, htr⟩
    | left => exact ⟨new, w, hnew, hrun.tail .left, hsame, htr⟩
    | right => exact ⟨new, w, hnew, hrun.tail .right, hsame, htr⟩
    | done => exact ⟨new, w, hnew, hrun.tail .done, hsame, htr⟩
    | @ext w₁ l x s ps hs =>
      obtain ⟨rfl, s', hs', hsame'⟩ := hM.accepts hsame hs
      refine ⟨new ++ [.ext x], w.push (.ext x) s', ?_, hrun.tail (.ext hs'), hsame', ?_⟩
      · rw [World.push_trace, hnew, List.append_assoc]
      · rw [World.push_trace, htr, List.append_assoc]

/-- All answers of the attempt are inert. -/
def Untouched (inert : (e : E) → R e → Prop) (w : World E R T X S) : Prop :=
  ∀ t e r, Did t e r w.trace → inert e r

/-- Of a run whose answers are inert, only the outside events matter. -/
lemma replay (hM : Looked M same inert free lasting) {c c' : Config E R T X S} (h : Run M c c')
    (hinert : Untouched inert c'.world) {u : S} (hu : same c.world.state u) (tr : Trace E R T X)
    (qs : List (T × Prog E R Unit)) :
    ∃ new w, c'.world.trace = c.world.trace ++ new ∧ Run M ⟨⟨u, tr⟩, qs⟩ ⟨w, qs⟩ ∧
      same c'.world.state w.state ∧ w.trace = tr ++ (outside new).map .ext := by
  induction h with
  | refl => exact ⟨[], ⟨u, tr⟩, by simp, .refl, hu, by simp⟩
  | tail _ hstep ih =>
    obtain ⟨new, w, hnew, hrun, hsame, htr⟩ := ih fun t e r hd =>
      hinert t e r (hd.later hstep.trace_le)
    cases hstep with
    | @call w₁ l l' t e k r s hs =>
      have hsame' := hM.unchanged hs (hinert t e r (by simp [Did]))
      refine ⟨new ++ [.call t e r], w, ?_, hrun, hM.equiv.trans (hM.equiv.symm hsame') hsame, ?_⟩
      · rw [World.push_trace, hnew, List.append_assoc]
      · simpa using htr
    | fork | left | right | done => exact ⟨new, w, hnew, hrun, hsame, htr⟩
    | @ext w₁ l x s ps hs =>
      obtain ⟨rfl, s', hs', hsame'⟩ := hM.accepts hsame hs
      refine ⟨new ++ [.ext x], w.push (.ext x) s', ?_, ?_, hsame', ?_⟩
      · rw [World.push_trace, hnew, List.append_assoc]
      · have hstep' := hrun.tail (.ext hs')
        rwa [List.append_nil] at hstep'
      · simp [htr]

/-! ### Programs with free requests only -/

/-- What has happened since is neither seen in the state nor lasts. -/
structure Idly (same : S → S → Prop) (free : E → Prop) (w w' : World E R T X S) : Prop where
  same_state : same w.state w'.state
  trace : ∃ new, w'.trace = w.trace ++ new ∧ outside new = [] ∧ ∀ t e r, Did t e r new → free e

lemma Idly.refl (hM : Looked M same inert free lasting) (w : World E R T X S) :
    Idly same free w w :=
  ⟨hM.equiv.refl _, [], by simp, rfl, by simp [Did]⟩

lemma Idly.trans (hM : Looked M same inert free lasting) {w w' w'' : World E R T X S}
    (h : Idly same free w w') (h' : Idly same free w' w'') : Idly same free w w'' := by
  obtain ⟨hsame, new, htr, hout, hfree⟩ := h
  obtain ⟨hsame', new', htr', hout', hfree'⟩ := h'
  refine ⟨hM.equiv.trans hsame hsame', new ++ new', ?_, ?_, ?_⟩
  · rw [htr', htr, List.append_assoc]
  · rw [outside_append, hout, hout', List.nil_append]
  · intro t e r hd
    rcases List.mem_append.mp hd with hd | hd
    · exact hfree t e r hd
    · exact hfree' t e r hd

/-- A pool can go on to its end with free requests only. -/
def Ends (M : Machine E R T X S) (same : S → S → Prop) (free : E → Prop)
    (l : List (T × Prog E R Unit)) : Prop :=
  ∀ w, ∃ w', Run M ⟨w, l⟩ ⟨w', []⟩ ∧ Idly same free w w'

lemma ends_bind (hM : Looked M same inert free lasting) (t : T) {p : Prog E R α} (hp : p.Only free)
    {f : α → Prog E R Unit}
    (hf : ∀ a l, Ends M same free l → Ends M same free ((t, f a) :: l))
    {l : List (T × Prog E R Unit)} (hl : Ends M same free l) :
    Ends M same free ((t, p.bind f) :: l) := by
  induction p generalizing l with
  | pure a => exact hf a l hl
  | call e k ih =>
    intro w
    obtain ⟨r, s, hs, hr⟩ := hM.answered t e w.state hp.1
    obtain ⟨w', hrun, hidle⟩ := ih r (hp.2 r) hf hl (w.push (.call t e r) s)
    refine ⟨w', .head (Step.call (l := []) hs) hrun, Idly.trans hM ?_ hidle⟩
    refine ⟨hM.unchanged hs hr, [.call t e r], rfl, rfl, fun t' e' r' hd => ?_⟩
    cases List.mem_singleton.mp hd
    exact hp.1
  | fork c k ihc ihk =>
    intro w
    have hc : Ends M same free ((t, c) :: l) := by
      have hend := ihc hp.1 (f := .pure) (fun _ l hl w => ?_) hl
      · rwa [Prog.bind_pure] at hend
      · obtain ⟨w', hrun, hidle⟩ := hl w
        exact ⟨w', .head (Step.done (l := [])) hrun, hidle⟩
    obtain ⟨w', hrun, hidle⟩ := ihk hp.2 hf hc w
    exact ⟨w', .head (Step.fork (l := [])) hrun, hidle⟩
  | amb p q ihp _ =>
    intro w
    obtain ⟨w', hrun, hidle⟩ := ihp hp.1 hf hl w
    exact ⟨w', .head (Step.left (l := [])) hrun, hidle⟩

/-- Programs that make free requests only can all end. -/
theorem ends (hM : Looked M same inert free lasting) :
    ∀ l : List (T × Prog E R Unit), (∀ p ∈ l, p.2.Only free) → Ends M same free l
  | [], _ => fun w => ⟨w, .refl, Idly.refl hM w⟩
  | (t, p) :: l, h => by
    have hend := hM.ends_bind t (h (t, p) (by simp)) (f := .pure) (fun _ l hl w => ?_)
      (hM.ends l fun q hq => h q (by simp [hq]))
    · rwa [Prog.bind_pure] at hend
    · obtain ⟨w', hrun, hidle⟩ := hl w
      exact ⟨w', .head (Step.done (l := [])) hrun, hidle⟩

end Looked

/-! ### Attempts that do no harm -/

/-- Every attempt that is cut off has touched nothing, or could only make free requests any more and
those after it touch nothing. -/
inductive Harmless (inert : (e : E) → R e → Prop) (free : E → Prop) :
    List (Config E R T X S) → World E R T X S → Prop
  | last {w : World E R T X S} : Harmless inert free [] w
  | untouched {c : Config E R T X S} {cuts : List (Config E R T X S)} {w : World E R T X S}
    (h : Looked.Untouched inert c.world) (hcuts : Harmless inert free cuts w) :
    Harmless inert free (c :: cuts) w
  | through {c : Config E R T X S} {cuts : List (Config E R T X S)} {w : World E R T X S}
    (h : ∀ p ∈ c.procs, p.2.Only free) (hcuts : ∀ c' ∈ cuts, Looked.Untouched inert c'.world)
    (hw : Looked.Untouched inert w) : Harmless inert free (c :: cuts) w

section Harmless

variable {M : Machine E R T X S} {same : S → S → Prop} {inert : (e : E) → R e → Prop}
  {free lasting : E → Prop} {t : T} {p : Prog E R Unit} {cuttable : Config E R T X S → Prop}
  {s : S} {cuts : List (Config E R T X S)} {w : World E R T X S}

/-- The worlds of all attempts. -/
def attempts (cuts : List (Config E R T X S)) (w : World E R T X S) : List (World E R T X S) :=
  cuts.map (fun c => c.world) ++ [w]

@[simp] lemma attempts_nil : attempts [] w = [w] := rfl

@[simp] lemma attempts_cons (c : Config E R T X S) : attempts (c :: cuts) w =
    c.world :: attempts cuts w := rfl

/-- Of attempts that touch nothing, only the outside events matter. -/
lemma Looked.replay_all (hM : Looked M same inert free lasting)
    (h : Retried M same t p cuttable s cuts w)
    (hcuts : ∀ c ∈ cuts, Looked.Untouched inert c.world) (hw : Looked.Untouched inert w) {u : S}
    (hu : same s u) (tr : Trace E R T X) (qs : List (T × Prog E R Unit)) :
    ∃ v, Run M ⟨⟨u, tr⟩, qs⟩ ⟨v, qs⟩ ∧ same w.state v.state ∧
      v.trace = tr ++ ((attempts cuts w).flatMap fun v => outside v.trace).map .ext := by
  induction h generalizing u tr with
  | completed h =>
    obtain ⟨new, v, hnew, hrun, hsame, htr⟩ := hM.replay h hw hu tr qs
    refine ⟨v, hrun, hsame, ?_⟩
    rw [htr, attempts_nil, List.flatMap_singleton, hnew]
    rfl
  | @cut s s' c cuts w h hc hsame hagain ih =>
    obtain ⟨new, v, hnew, hrun, hlike, htr⟩ := hM.replay h (hcuts c (by simp)) hu tr qs
    obtain ⟨v', hrun', hlike', htr'⟩ := ih (fun c' hc' => hcuts c' (by simp [hc'])) hw
      (hM.equiv.trans (hM.equiv.symm hsame) hlike) v.trace
    refine ⟨v', hrun.trans hrun', hlike', ?_⟩
    rw [htr', htr, attempts_cons, List.flatMap_cons, List.map_append, List.append_assoc, hnew]
    rfl

lemma did_map_ext {t : T} {e : E} {r : R e} {xs : List X} :
    ¬ Did t e r (xs.map (Event.ext : X → Event E R T X)) := by
  simp [Did]

/-- Attempts that do no harm are as good as one run. -/
theorem Retried.asOnce (hM : Looked M same inert free lasting)
    (h : Retried M same t p cuttable s cuts w) (hharmless : Harmless inert free cuts w) :
    AsOnce M same t p lasting s (attempts cuts w) w.state := by
  induction hharmless generalizing s with
  | last =>
    cases h with
    | completed h => exact ⟨_, h, hM.equiv.refl _, by simp, fun t e r _ hd => ⟨_, by simp, hd⟩⟩
  | @untouched c cuts w hc _ ih =>
    cases h with
    | @cut _ s' _ _ _ h hcut hsame hagain =>
    -- the events outside the attempt come first, then the run that the attempts after it amount to
    obtain ⟨new, v, hnew, hrun, hlike, htr⟩ :=
      hM.replay h hc (hM.equiv.refl _) [] [(t, p)]
    obtain ⟨v', hrun', hlike', hout, hdid⟩ := ih hagain
    obtain ⟨new', v'', hnew', hrun'', hlike'', htr''⟩ :=
      hM.simulate hrun' (hM.equiv.trans (hM.equiv.symm hsame) hlike) v.trace
    refine ⟨v'', hrun.trans hrun'', hM.equiv.trans hlike' hlike'', ?_, ?_⟩
    · rw [htr'', htr, attempts_cons, List.flatMap_cons, ← hout, hnew, hnew']
      simp [Config.begin]
    · intro t' e r hlast hd
      rw [htr''] at hd
      rcases List.mem_append.mp hd with hd | hd
      · rw [htr] at hd
        exact (did_map_ext hd).elim
      · obtain ⟨a, ha, hd⟩ := hdid t' e r hlast (by rw [hnew']; exact List.mem_append_right _ hd)
        exact ⟨a, by simp [ha], hd⟩
  | @through c cuts w hc hcuts hw =>
    cases h with
    | @cut _ s' _ _ _ h hcut hsame hagain =>
    -- the attempt goes on to its end, and the events outside those after it follow
    obtain ⟨v, hrun, hlike, new, htr, hout, hfree⟩ := hM.ends c.procs hc c.world
    obtain ⟨v', hrun', hlike', htr'⟩ := hM.replay_all hagain hcuts hw
      (hM.equiv.trans (hM.equiv.symm hsame) hlike) v.trace []
    refine ⟨v', (h.trans hrun).trans hrun', hlike', ?_, ?_⟩
    · rw [htr', htr, attempts_cons, List.flatMap_cons]
      simp [hout]
    · intro t' e r hlast hd
      rw [htr', htr] at hd
      rcases List.mem_append.mp hd with hd | hd
      · rcases List.mem_append.mp hd with hd | hd
        · exact ⟨c.world, by simp, hd⟩
        · exact absurd hlast (hM.passing e (hfree t' e r hd))
      · exact (did_map_ext hd).elim

end Harmless

/-! ### The program of a task -/

section Programs

variable {β ε : Type}

@[simp] lemma Task.run_pure (a : α) : (pure a : Task E R ε α).run = .pure (.ok a) := rfl

@[simp] lemma Task.run_bind (p : Task E R ε α) (f : α → Task E R ε β) :
    (p >>= f).run = p.run.bind fun
      | .ok a => (f a).run
      | .error err => .pure (.error err) := by
  refine congrArg p.run.bind (funext fun r => ?_)
  cases r <;> rfl

@[simp] lemma Task.run_tryCatch (p : Task E R ε α) (f : ε → Task E R ε α) :
    (tryCatch p f).run = p.run.bind fun
      | .ok a => .pure (.ok a)
      | .error err => (f err).run := by
  refine congrArg p.run.bind (funext fun r => ?_)
  cases r <;> rfl

@[simp] lemma Task.run_finallyDo (p : Task E R ε α) (f : Task E R ε Unit) :
    (p.finallyDo f).run = Prog.bind p.run fun r => Prog.bind f.run fun
      | .ok () => .pure r
      | .error err => .pure (.error err) := rfl

end Programs

/-! ### The first request of a run -/

/-- A pool of one member has that one in its place. -/
lemma singleton_eq_split {ι : Type*} {x y : ι} {l l' : List ι} (h : [x] = l ++ y :: l') :
    l = [] ∧ l' = [] ∧ y = x := by
  rcases List.append_eq_singleton_iff.mp h.symm with ⟨rfl, hy⟩ | ⟨-, hy⟩
  · obtain ⟨rfl, rfl⟩ := List.cons.inj hy
    exact ⟨rfl, rfl, rfl⟩
  · cases hy

section Single

variable {M : Machine E R T X S} {w w' : World E R T X S} {c : Config E R T X S} {t : T} {e : E}
  {k : R e → Prog E R Unit}

/-- The only program of a pool makes a request, or something happens outside. -/
lemma Step.of_call (h : Step M ⟨w, [(t, .call e k)]⟩ c) :
    (∃ r s, M.apply t e r w.state = some s ∧ c = ⟨w.push (.call t e r) s, [(t, k r)]⟩) ∨
      ∃ x, .ext x ∈ c.world.trace := by
  generalize hpool : [(t, Prog.call e k)] = pool at h
  cases h with
  | @call _ l l' t' e' k' r s hs =>
    obtain ⟨rfl, rfl, heq⟩ := singleton_eq_split hpool
    cases heq
    exact .inl ⟨r, s, hs, rfl⟩
  | fork | left | right | done =>
    obtain ⟨rfl, rfl, heq⟩ := singleton_eq_split hpool
    cases heq
  | @ext _ _ x s ps hs => exact .inr ⟨x, by simp⟩

/-- The only program of a pool has returned, or something happens outside. -/
lemma Step.of_done (h : Step M ⟨w, [(t, .pure ())]⟩ c) :
    c = ⟨w, []⟩ ∨ ∃ x, .ext x ∈ c.world.trace := by
  generalize hpool : [(t, Prog.pure ())] = pool at h
  cases h with
  | call _ | fork | left | right =>
    obtain ⟨rfl, rfl, heq⟩ := singleton_eq_split hpool
    cases heq
  | done =>
    obtain ⟨rfl, rfl, -⟩ := singleton_eq_split hpool
    exact .inl rfl
  | @ext _ _ x s ps hs => exact .inr ⟨x, by simp⟩

/-- Nothing but outside events happens to an empty pool. -/
lemma Step.of_nil (h : Step M ⟨w, []⟩ c) : ∃ x, .ext x ∈ c.world.trace := by
  generalize hpool : [] = pool at h
  cases h with
  | call _ | fork | left | right | done => cases List.append_eq_nil_iff.mp hpool.symm |>.2
  | @ext _ _ x s ps hs => exact ⟨x, by simp⟩

/-- What has happened outside is there at the end. -/
lemma outside_ne_nil {x : X} (h : Run M c ⟨w', []⟩) (hx : .ext x ∈ c.world.trace) :
    outside w'.trace ≠ [] := by
  have hmem : x ∈ outside w'.trace := List.mem_filterMap.mpr ⟨_, (Run.trace_le h).subset hx, rfl⟩
  exact List.ne_nil_of_mem hmem

/-- Where nothing happens outside, the only program of a pool has its request answered. -/
lemma Run.head_call (h : Run M ⟨w, [(t, .call e k)]⟩ ⟨w', []⟩) (hout : outside w'.trace = []) :
    ∃ r s, M.apply t e r w.state = some s ∧
      Run M ⟨w.push (.call t e r) s, [(t, k r)]⟩ ⟨w', []⟩ := by
  rcases h.cases_head with heq | ⟨c, hstep, hrun⟩
  · cases heq
  rcases hstep.of_call with ⟨r, s, hs, rfl⟩ | ⟨x, hx⟩
  · exact ⟨r, s, hs, hrun⟩
  · exact absurd hout (outside_ne_nil hrun hx)

lemma Run.head_done (h : Run M ⟨w, [(t, .pure ())]⟩ ⟨w', []⟩) (hout : outside w'.trace = []) :
    w' = w := by
  rcases h.cases_head with heq | ⟨c, hstep, hrun⟩
  · cases heq
  rcases hstep.of_done with rfl | ⟨x, hx⟩
  · rcases hrun.cases_head with heq | ⟨c', hstep', hrun'⟩
    · cases heq
      rfl
    · obtain ⟨x, hx⟩ := hstep'.of_nil
      exact absurd hout (outside_ne_nil hrun' hx)
  · exact absurd hout (outside_ne_nil hrun hx)

end Single

end Async
