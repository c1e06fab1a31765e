import HybridLog.Async.Pool

/-!
# Guards

A guard says after which traces a program may make which requests. `Follows` is the weakest
precondition for keeping to a guard: between two requests of a program others may do anything, so
all that a program knows is that what it has seen in the trace stays there. If every program that
is started keeps to the guard, then so does every event of a run, and invariants of the shared
state can be proved event by event without looking at programs again.
-/

namespace Async

abbrev Trace (E : Type) (R : E → Type) (T X : Type) := List (Event E R T X)

abbrev Guard (E : Type) (R : E → Type) (T X : Type) := T → E → Trace E R T X → Prop

variable {E : Type} {R : E → Type} {T X S : Type} {α β γ ε : Type}

/-- Request `e` of a program tagged `t` has been answered by `r`. -/
def Did (t : T) (e : E) (r : R e) (tr : Trace E R T X) : Prop := .call t e r ∈ tr

lemma Did.later {t : T} {e : E} {r : R e} {tr tr' : Trace E R T X} (h : Did t e r tr)
    (htr : tr <+: tr') : Did t e r tr' := htr.subset h

/-! ### Programs -/

section Follows

variable (P : Guard E R T X) (t : T)

/-- From trace `tr` on, program `p` makes every request only where the guard allows it, and if it
returns, then with a value that satisfies `Q`. -/
def Follows : {α : Type} → (Q : α → Trace E R T X → Prop) → Prog E R α → Trace E R T X → Prop
  | _, Q, .pure a, tr => ∀ tr', tr <+: tr' → Q a tr'
  | _, Q, .call e k, tr => ∀ tr', tr <+: tr' →
      P t e tr' ∧ ∀ r, Follows Q (k r) (tr' ++ [.call t e r])
  | _, Q, .fork c k, tr => Follows (fun _ _ => True) c tr ∧ Follows Q k tr
  | _, Q, .amb l r, tr => Follows Q l tr ∧ Follows Q r tr

variable {P t}

lemma Follows.later {Q : α → Trace E R T X → Prop} {p : Prog E R α} {tr tr' : Trace E R T X}
    (h : Follows P t Q p tr) (htr : tr <+: tr') : Follows P t Q p tr' := by
  induction p generalizing tr tr' with
  | pure a => exact fun tr'' h'' => h tr'' (htr.trans h'')
  | call e k _ => exact fun tr'' h'' => h tr'' (htr.trans h'')
  | fork c k ihc ihk => exact ⟨ihc h.1 htr, ihk h.2 htr⟩
  | amb l r ihl ihr => exact ⟨ihl h.1 htr, ihr h.2 htr⟩

lemma Follows.weaken {Q Q' : α → Trace E R T X → Prop} {p : Prog E R α} {tr : Trace E R T X}
    (h : Follows P t Q p tr) (hQ : ∀ a tr', tr <+: tr' → Q a tr' → Q' a tr') :
    Follows P t Q' p tr := by
  induction p generalizing tr with
  | pure a => exact fun tr' htr => hQ a tr' htr (h tr' htr)
  | call e k ih =>
    intro tr' htr
    obtain ⟨hP, hk⟩ := h tr' htr
    exact ⟨hP, fun r => ih r (hk r) fun a tr'' htr'' =>
      hQ a tr'' (htr.trans ((List.prefix_append _ _).trans htr''))⟩
  | fork c k _ ihk => exact ⟨h.1, ihk h.2 hQ⟩
  | amb l r ihl ihr => exact ⟨ihl h.1 hQ, ihr h.2 hQ⟩

/-- A program that keeps to a guard keeps to every guard that allows at least as much. -/
lemma Follows.allow {P' : Guard E R T X} {Q : α → Trace E R T X → Prop} {p : Prog E R α}
    {tr : Trace E R T X} (h : Follows P t Q p tr)
    (hP : ∀ e tr', tr <+: tr' → P t e tr' → P' t e tr') : Follows P' t Q p tr := by
  induction p generalizing tr with
  | pure a => exact h
  | call e k ih =>
    intro tr' htr
    obtain ⟨hPe, hk⟩ := h tr' htr
    exact ⟨hP e tr' htr hPe, fun r => ih r (hk r) fun e' tr'' htr'' =>
      hP e' tr'' (htr.trans ((List.prefix_append _ _).trans htr''))⟩
  | fork c k ihc ihk => exact ⟨ihc h.1 hP, ihk h.2 hP⟩
  | amb l r ihl ihr => exact ⟨ihl h.1 hP, ihr h.2 hP⟩

lemma Follows.bind {Q : β → Trace E R T X → Prop} {p : Prog E R α} {f : α → Prog E R β}
    {tr : Trace E R T X} (h : Follows P t (fun a tr' => Follows P t Q (f a) tr') p tr) :
    Follows P t Q (p.bind f) tr := by
  induction p generalizing tr with
  | pure a => exact h tr List.prefix_rfl
  | call e k ih => exact fun tr' htr => ⟨(h tr' htr).1, fun r => ih r ((h tr' htr).2 r)⟩
  | fork c k _ ihk => exact ⟨h.1, ihk h.2⟩
  | amb l r ihl ihr => exact ⟨ihl h.1, ihr h.2⟩

lemma Follows.detach {Q : α → Trace E R T X → Prop} {p : Prog E R α} {tr : Trace E R T X}
    (h : Follows P t Q p tr) : Follows P t (fun _ _ => True) p.detach tr :=
  Follows.bind (h.weaken fun _ _ _ _ _ _ => trivial)

/-- What holds of a result goes on to hold. -/
lemma Follows.stable {Q : α → Trace E R T X → Prop} {p : Prog E R α} {tr : Trace E R T X}
    (h : Follows P t Q p tr) : Follows P t (fun a tr => ∀ tr', tr <+: tr' → Q a tr') p tr := by
  induction p generalizing tr with
  | pure a => exact fun tr' htr tr'' htr'' => h tr'' (htr.trans htr'')
  | call e k ih => exact fun tr' htr => ⟨(h tr' htr).1, fun r => ih r ((h tr' htr).2 r)⟩
  | fork c k _ ihk => exact ⟨h.1, ihk h.2⟩
  | amb l r ihl ihr => exact ⟨ihl h.1, ihr h.2⟩

lemma Follows.race {Ql : α → Trace E R T X → Prop} {Qr : β → Trace E R T X → Prop}
    {Q : γ → Trace E R T X → Prop} {onLeft : α → Prog E R β → Prog E R γ}
    {onRight : Prog E R α → β → Prog E R γ} {p : Prog E R α} {q : Prog E R β}
    {tr : Trace E R T X}
    (hl : ∀ a q tr, Ql a tr → Follows P t Qr q tr → Follows P t Q (onLeft a q) tr)
    (hr : ∀ p b tr, Follows P t Ql p tr → Qr b tr → Follows P t Q (onRight p b) tr)
    (hp : Follows P t Ql p tr) (hq : Follows P t Qr q tr) :
    Follows P t Q (Prog.race onLeft onRight p q) tr := by
  induction p generalizing q tr with
  | pure a => exact hl a q tr (hp tr List.prefix_rfl) hq
  | fork c k _ ihk => exact ⟨hp.1, ihk hl hr hp.2 hq⟩
  | amb l r ihl ihr => exact ⟨ihl hl hr hp.1 hq, ihr hl hr hp.2 hq⟩
  | call e k ih =>
    -- the left program waits; what it does next is decided by how far the right one is
    simp only [Prog.race]
    induction q generalizing tr with
    | pure b => exact hr _ b tr hp (hq tr List.prefix_rfl)
    | fork c q _ ihq => exact ⟨hq.1, ihq ih hl hr hp hq.2⟩
    | amb q₁ q₂ ih₁ ih₂ => exact ⟨ih₁ ih hl hr hp hq.1, ih₂ ih hl hr hp hq.2⟩
    | call f g ihg =>
      refine ⟨fun tr' htr => ?_, fun tr' htr => ?_⟩
      · obtain ⟨hP, hk⟩ := hp tr' htr
        exact ⟨hP, fun r =>
          ih r hl hr (hk r) (hq.later (htr.trans (List.prefix_append _ _)))⟩
      · obtain ⟨hP, hk⟩ := hq tr' htr
        exact ⟨hP, fun r =>
          ihg r ih hl hr (hp.later (htr.trans (List.prefix_append _ _))) (hk r)⟩

end Follows

/-! ### Tasks -/

section FollowsTask

variable (P : Guard E R T X) (t : T)

/-- `Follows` for a task: it resolves to a value satisfying `Q` or rejects with an exception
satisfying `Er`. -/
def FollowsTask (Q : α → Trace E R T X → Prop) (Er : ε → Trace E R T X → Prop)
    (p : Task E R ε α) (tr : Trace E R T X) : Prop :=
  Follows P t (fun
    | .ok a => Q a
    | .error err => Er err) p.run tr

variable {P t} {Q Q' : α → Trace E R T X → Prop} {Er Er' : ε → Trace E R T X → Prop}
  {tr : Trace E R T X}

lemma FollowsTask.weaken {p : Task E R ε α} (h : FollowsTask P t Q Er p tr)
    (hQ : ∀ a tr', tr <+: tr' → Q a tr' → Q' a tr')
    (hEr : ∀ err tr', tr <+: tr' → Er err tr' → Er' err tr') : FollowsTask P t Q' Er' p tr :=
  Follows.weaken h fun r tr' htr => match r with
    | .ok a => hQ a tr' htr
    | .error err => hEr err tr' htr

lemma FollowsTask.allow {P' : Guard E R T X} {p : Task E R ε α} (h : FollowsTask P t Q Er p tr)
    (hP : ∀ e tr', tr <+: tr' → P t e tr' → P' t e tr') : FollowsTask P' t Q Er p tr :=
  Follows.allow h hP

lemma FollowsTask.pure {a : α} (h : ∀ tr', tr <+: tr' → Q a tr') :
    FollowsTask P t Q Er (pure a : Task E R ε α) tr := h

lemma FollowsTask.throw {err : ε} (h : ∀ tr', tr <+: tr' → Er err tr') :
    FollowsTask P t Q Er (throw err : Task E R ε α) tr := h

/-- A request that the guard allows, with what its answers tell. -/
lemma FollowsTask.request {e : E} {k : R e → Except ε α}
    (hP : ∀ tr', tr <+: tr' → P t e tr')
    (hQ : ∀ r tr', tr <+: tr' → Did t e r tr' → match k r with
      | .ok a => Q a tr'
      | .error err => Er err tr') : FollowsTask P t Q Er (Task.request e k) tr := by
  refine fun tr' htr => ⟨hP tr' htr, fun r tr'' htr'' => ?_⟩
  have h := hQ r tr'' (htr.trans ((List.prefix_append _ _).trans htr''))
    (htr''.subset (by simp))
  cases hk : k r with
  | ok a => simpa only [hk] using h
  | error err => simpa only [hk] using h

lemma FollowsTask.ofExcept {x : Except ε α} (h : ∀ tr', tr <+: tr' → match x with
    | .ok a => Q a tr'
    | .error err => Er err tr') : FollowsTask P t Q Er (Task.ofExcept x) tr := by
  intro tr' htr
  have h := h tr' htr
  cases x <;> exact h

lemma FollowsTask.spawn {Q : Unit → Trace E R T X → Prop} {c : Prog E R Unit}
    (hc : Follows P t (fun _ _ => True) c tr) (h : ∀ tr', tr <+: tr' → Q () tr') :
    FollowsTask P t Q Er (Task.spawn c) tr := ⟨hc, h⟩

lemma FollowsTask.bind {Q : β → Trace E R T X → Prop} {p : Task E R ε α}
    {f : α → Task E R ε β}
    (h : FollowsTask P t (fun a tr' => FollowsTask P t Q Er (f a) tr') Er p tr) :
    FollowsTask P t Q Er (p >>= f) tr := by
  refine Follows.bind (p := p.run) (Follows.weaken (Follows.stable h) fun r tr' _ hr => ?_)
  cases r with
  | ok a => exact hr tr' List.prefix_rfl
  | error err => exact hr

lemma FollowsTask.tryCatch {p : Task E R ε α} {f : ε → Task E R ε α}
    (h : FollowsTask P t Q (fun err tr' => FollowsTask P t Q Er (f err) tr') p tr) :
    FollowsTask P t Q Er (tryCatch p f) tr := by
  refine Follows.bind (p := p.run) (Follows.weaken (Follows.stable h) fun r tr' _ hr => ?_)
  cases r with
  | ok a => exact hr
  | error err => exact hr tr' List.prefix_rfl

lemma FollowsTask.finallyDo {p : Task E R ε α} {f : Task E R ε Unit}
    (h : FollowsTask P t
      (fun a tr' => FollowsTask P t (fun _ => Q a) Er f tr')
      (fun err tr' => FollowsTask P t (fun _ => Er err) Er f tr') p tr) :
    FollowsTask P t Q Er (p.finallyDo f) tr := by
  refine Follows.bind (p := p.run) (Follows.weaken h fun r tr' _ hr => ?_)
  refine Follows.bind (p := f.run) ?_
  cases r with
  | ok a =>
    refine Follows.weaken (Follows.stable hr) fun r' tr'' _ hr' => ?_
    cases r' with
    | ok _ => exact hr'
    | error err => exact hr'
  | error err =>
    refine Follows.weaken (Follows.stable hr) fun r' tr'' _ hr' => ?_
    cases r' with
    | ok _ => exact hr'
    | error err => exact hr'

/-- `Promise.all` over the members of a list: it resolves to what each member resolves to, or
rejects with what some member rejects with. -/
lemma FollowsTask.promiseAll {Q : β → α → Trace E R T X → Prop}
    {Er : β → ε → Trace E R T X → Prop} {f : β → Task E R ε α} {tr : Trace E R T X}
    (hQ : ∀ x a tr tr', tr <+: tr' → Q x a tr → Q x a tr')
    (hEr : ∀ x err tr tr', tr <+: tr' → Er x err tr → Er x err tr') :
    ∀ xs : List β, (∀ x ∈ xs, FollowsTask P t (Q x) (Er x) (f x) tr) →
      FollowsTask P t (fun as tr => List.Forall₂ (fun x a => Q x a tr) xs as)
        (fun err tr => ∃ x ∈ xs, Er x err tr) (promiseAll (xs.map f)) tr
  | [], _ => fun _ _ => .nil
  | x :: xs, h => by
    have hx : FollowsTask P t (Q x) (Er x) (f x) tr := h x (by simp)
    have hxs := FollowsTask.promiseAll hQ hEr xs (fun y hy => h y (by simp [hy]))
    refine Follows.race ?_ ?_ hx hxs
    · intro r rest tr' hr hrest
      cases r with
      | ok a =>
        refine Follows.bind (Follows.weaken hrest fun r' tr'' htr'' hr' => ?_)
        cases r' with
        | ok as =>
          exact fun tr₃ htr₃ => .cons (hQ x a _ _ (htr''.trans htr₃) hr)
            (hr'.imp fun y b hb => hQ y b _ _ htr₃ hb)
        | error err =>
          obtain ⟨y, hy, hye⟩ := hr'
          exact fun tr₃ htr₃ => ⟨y, by simp [hy], hEr y err _ _ htr₃ hye⟩
      | error err =>
        exact ⟨hrest.detach, fun tr'' htr'' => ⟨x, by simp, hEr x err _ _ htr'' hr⟩⟩
    · intro rest r tr' hrest hr
      cases r with
      | ok as =>
        refine Follows.bind (Follows.weaken hrest fun r' tr'' htr'' hr' => ?_)
        cases r' with
        | ok a =>
          exact fun tr₃ htr₃ => .cons (hQ x a _ _ htr₃ hr')
            (hr.imp fun y b hb => hQ y b _ _ (htr''.trans htr₃) hb)
        | error err =>
          exact fun tr₃ htr₃ => ⟨x, by simp, hEr x err _ _ htr₃ hr'⟩
      | error err =>
        obtain ⟨y, hy, hye⟩ := hr
        exact ⟨hrest.detach, fun tr'' htr'' => ⟨y, by simp [hy], hEr y err _ _ htr'' hye⟩⟩

end FollowsTask

/-! ### Runs -/

/-- Every request of a trace was allowed by the guard when it was made. -/
def Guarded (P : Guard E R T X) (tr : Trace E R T X) : Prop :=
  ∀ pre t e r post, tr = pre ++ .call t e r :: post → P t e pre

lemma Guarded.nil {P : Guard E R T X} : Guarded P [] := fun pre t e r post h => by simp at h

lemma Guarded.push {P : Guard E R T X} {tr : Trace E R T X} {ev : Event E R T X}
    (h : Guarded P tr) (hev : ∀ t e r, ev = .call t e r → P t e tr) : Guarded P (tr ++ [ev]) := by
  intro pre t e r post heq
  rcases List.eq_nil_or_concat post with rfl | ⟨post, last, rfl⟩
  · obtain ⟨rfl, hlast⟩ := List.append_inj' heq rfl
    exact hev t e r (List.cons.inj hlast).1
  · rw [List.concat_eq_append, ← List.cons_append, ← List.append_assoc] at heq
    exact h pre t e r post (List.append_inj' heq rfl).1

/-- What has been done was allowed then. -/
lemma Guarded.did {P : Guard E R T X} {tr : Trace E R T X} (h : Guarded P tr) {t : T} {e : E}
    {r : R e} (hd : Did t e r tr) : ∃ pre, pre <+: tr ∧ P t e pre := by
  obtain ⟨pre, post, rfl⟩ := List.append_of_mem hd
  exact ⟨pre, List.prefix_append _ _, h pre t e r post rfl⟩

lemma Guarded.mono {P : Guard E R T X} {tr tr' : Trace E R T X} (h : Guarded P tr')
    (htr : tr <+: tr') : Guarded P tr := by
  obtain ⟨more, rfl⟩ := htr
  intro pre t e r post heq
  exact h pre t e r (post ++ more) (by simp [heq])

/-- If every program an outside event starts keeps to the guard, a run from a configuration whose
programs do leads to such a configuration, over a trace that was allowed. -/
theorem Run.guarded {M : Machine E R T X S} {P : Guard E R T X}
    (hext : ∀ tr x s s' ps, M.accept x s = some (s', ps) →
      ∀ p ∈ ps, Follows P p.1 (fun _ _ => True) p.2 (tr ++ [.ext x]))
    {c c' : Config E R T X S} (hrun : Run M c c') (hc : Guarded P c.world.trace)
    (hps : ∀ p ∈ c.procs, Follows P p.1 (fun _ _ => True) p.2 c.world.trace) :
    Guarded P c'.world.trace ∧
      ∀ p ∈ c'.procs, Follows P p.1 (fun _ _ => True) p.2 c'.world.trace := by
  induction hrun with
  | refl => exact ⟨hc, hps⟩
  | tail _ hstep ih =>
    obtain ⟨hc, hps⟩ := ih
    cases hstep with
    | @call w l l' t e k r s hs =>
      obtain ⟨hP, hk⟩ := hps (t, .call e k) (by simp) w.trace List.prefix_rfl
      refine ⟨hc.push fun t' e' r' heq => (by cases heq; exact hP), ?_⟩
      have hlater := fun p hp => (hps p hp).later (List.prefix_append w.trace [.call t e r])
      exact forall_mem_replace [(t, k r)] hlater fun _ => by simpa using hk r
    | @fork w l l' t c k =>
      exact ⟨hc, forall_mem_replace [(t, k), (t, c)] hps fun h => by simpa using ⟨h.2, h.1⟩⟩
    | @left w l l' t p q =>
      exact ⟨hc, forall_mem_replace [(t, p)] hps fun h => by simpa using h.1⟩
    | @right w l l' t p q =>
      exact ⟨hc, forall_mem_replace [(t, q)] hps fun h => by simpa using h.2⟩
    | @done w l l' t => exact ⟨hc, forall_mem_replace [] hps (by simp)⟩
    | @ext w l x s ps hs =>
      refine ⟨hc.push fun _ _ _ heq => (by cases heq), fun p hp => ?_⟩
      rcases List.mem_append.mp hp with hp | hp
      · exact (hps p hp).later (List.prefix_append _ _)
      · exact hext w.trace x w.state s ps hs p hp

/-- An invariant of runs over guarded traces, for runs whose events are all allowed: it is enough
to look at one event at a time. -/
theorem Run.invariant {M : Machine E R T X S} {P : Guard E R T X} {allowed : Event E R T X → Prop}
    {Inv : World E R T X S → Prop}
    (hcall : ∀ w t e r s, Guarded P w.trace → P t e w.trace → allowed (.call t e r) → Inv w →
      M.apply t e r w.state = some s → Inv (w.push (.call t e r) s))
    (hext : ∀ w x s ps, Guarded P w.trace → allowed (.ext x) → Inv w →
      M.accept x w.state = some (s, ps) → Inv (w.push (.ext x) s))
    {c c' : Config E R T X S} (hrun : Run M c c') (hinit : Inv c.world)
    (hguard : Guarded P c'.world.trace) (hall : ∀ ev ∈ c'.world.trace, allowed ev) :
    Inv c'.world := by
  induction hrun with
  | refl => exact hinit
  | tail _ hstep ih =>
    have hguard' := hguard.mono hstep.trace_le
    have hI := ih hguard' fun ev hev => hall ev (hstep.trace_le.subset hev)
    cases hstep with
    | @call w l l' t e k r s hs =>
      exact hcall w t e r s hguard' (hguard w.trace t e r [] rfl) (hall _ (by simp)) hI hs
    | fork => exact hI
    | left => exact hI
    | right => exact hI
    | done => exact hI
    | @ext w l x s ps hs => exact hext w x s ps hguard' (hall _ (by simp)) hI hs

end Async
