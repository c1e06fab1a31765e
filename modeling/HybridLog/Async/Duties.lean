import HybridLog.Async.Guard

/-!
# Duties

A program may wait for what another program does. A duty is something others wait for; it is open
until a request meets it, and meanwhile the shared state keeps it for later or some program has it
in hand. A program clears its duty if it meets it before it waits for anything itself. So long as
every open duty is kept or cleared, programs cannot all wait for each other.
-/

namespace Async

/-- What programs do for one another. -/
structure Duties (E : Type) (R : E → Type) (T S K : Type) where
  /-- The request waits for somebody else. -/
  waits : E → Prop
  /-- The request of a program tagged so meets the duty. -/
  meets : T → E → K → Prop
  /-- The answer hands the duty over to the program that asked. -/
  hands : (e : E) → R e → K → Prop
  due : S → K → Prop
  /-- The state keeps the duty; nobody has it in hand. -/
  kept : S → K → Prop

variable {E : Type} {R : E → Type} {T X S K : Type} {α β ε : Type}

/-! ### Programs -/

section Clears

variable (D : Duties E R T S K) (t : T) (d : K)

/-- Program `p` meets the duty before it waits for anything, or it returns a value with `Q` and has
not waited. -/
def Clears : {α : Type} → (Q : α → Prop) → Prog E R α → Prop
  | _, Q, .pure a => Q a
  | _, Q, .call e k => ¬D.waits e ∧ (D.meets t e d ∨ ∀ r, Clears Q (k r))
  | _, Q, .fork c k => Clears (fun _ => False) c ∨ Clears Q k
  | _, Q, .amb l r => Clears Q l ∧ Clears Q r

/-- Program `p` clears whatever it is handed. -/
def Tends : {α : Type} → Prog E R α → Prop
  | _, .pure _ => True
  | _, .call e k => ∀ r, (∀ d, D.hands e r d → Clears D t d (fun _ => False) (k r)) ∧ Tends (k r)
  | _, .fork c k => Tends c ∧ Tends k
  | _, .amb l r => Tends l ∧ Tends r

variable {D t d}

lemma Clears.weaken {Q Q' : α → Prop} {p : Prog E R α} (h : Clears D t d Q p)
    (hQ : ∀ a, Q a → Q' a) : Clears D t d Q' p := by
  induction p with
  | pure a => exact hQ a h
  | call e k ih => exact ⟨h.1, h.2.imp_right fun hk r => ih r (hk r) hQ⟩
  | fork c k _ ihk => exact h.imp_right fun hk => ihk hk hQ
  | amb l r ihl ihr => exact ⟨ihl h.1 hQ, ihr h.2 hQ⟩

lemma Clears.bind {Q : β → Prop} {p : Prog E R α} {f : α → Prog E R β}
    (h : Clears D t d (fun a => Clears D t d Q (f a)) p) : Clears D t d Q (p.bind f) := by
  induction p with
  | pure a => exact h
  | call e k ih => exact ⟨h.1, h.2.imp_right fun hk r => ih r (hk r)⟩
  | fork c k _ ihk => exact h.imp_right ihk
  | amb l r ihl ihr => exact ⟨ihl h.1, ihr h.2⟩

/-- A program that never waits returns before it waits. -/
lemma Clears.of_follows {P : Guard E R T X} {Q : α → Trace E R T X → Prop} {p : Prog E R α}
    {tr : Trace E R T X} (h : Follows P t Q p tr) (hP : ∀ e tr', P t e tr' → ¬D.waits e) :
    Clears D t d (fun a => ∃ tr', Q a tr') p := by
  induction p generalizing tr with
  | pure a => exact ⟨tr, h tr List.prefix_rfl⟩
  | call e k ih =>
    obtain ⟨he, hk⟩ := h tr List.prefix_rfl
    exact ⟨hP e tr he, .inr fun r => ih r (hk r)⟩
  | fork c k _ ihk => exact .inr (ihk h.2)
  | amb l r ihl ihr => exact ⟨ihl h.1, ihr h.2⟩

lemma Tends.bind {p : Prog E R α} {f : α → Prog E R β} (h : Tends D t p)
    (hf : ∀ a, Tends D t (f a)) : Tends D t (p.bind f) := by
  induction p with
  | pure a => exact hf a
  | call e k ih =>
    intro r
    refine ⟨fun d hd => Clears.bind (((h r).1 d hd).weaken fun _ => False.elim), ?_⟩
    exact ih r (h r).2 hf
  | fork c k _ ihk => exact ⟨h.1, ihk h.2 hf⟩
  | amb l r ihl ihr => exact ⟨ihl h.1 hf, ihr h.2 hf⟩

/-- A program that is handed nothing. -/
lemma Tends.of_follows {P : Guard E R T X} {Q : α → Trace E R T X → Prop} {p : Prog E R α}
    {tr : Trace E R T X} (h : Follows P t Q p tr)
    (hP : ∀ e tr', P t e tr' → ∀ r d, ¬D.hands e r d) :
    Tends D t p := by
  induction p generalizing tr with
  | pure a => trivial
  | call e k ih =>
    intro r
    obtain ⟨he, hk⟩ := h tr List.prefix_rfl
    exact ⟨fun d hd => (hP e tr he r d hd).elim, ih r (hk r)⟩
  | fork c k ihc ihk => exact ⟨ihc h.1, ihk h.2⟩
  | amb l r ihl ihr => exact ⟨ihl h.1, ihr h.2⟩

end Clears

/-! ### Tasks -/

section ClearsTask

variable (D : Duties E R T S K) (t : T) (d : K)

/-- `Clears` for a task, with one condition for each way it ends. -/
def ClearsTask (Q : α → Prop) (Er : ε → Prop) (p : Task E R ε α) : Prop :=
  Clears D t d (fun
    | .ok a => Q a
    | .error err => Er err) p.run

variable {D t d} {Q : α → Prop} {Er : ε → Prop}

lemma ClearsTask.throw {err : ε} (h : Er err) :
    ClearsTask D t d Q Er (throw err : Task E R ε α) := h

/-- The request that meets the duty. -/
lemma ClearsTask.meet {e : E} {k : R e → Except ε α} (he : ¬D.waits e) (h : D.meets t e d) :
    ClearsTask D t d Q Er (Task.request e k) := ⟨he, .inl h⟩

lemma ClearsTask.bind {Q : β → Prop} {p : Task E R ε α} {f : α → Task E R ε β}
    (h : ClearsTask D t d (fun a => ClearsTask D t d Q Er (f a)) Er p) :
    ClearsTask D t d Q Er (p >>= f) := by
  apply Clears.bind (p := p.run)
  apply Clears.weaken h
  intro r hr
  cases r with
  | ok a => exact hr
  | error err => exact hr

lemma ClearsTask.tryCatch {p : Task E R ε α} {f : ε → Task E R ε α}
    (h : ClearsTask D t d Q (fun err => ClearsTask D t d Q Er (f err)) p) :
    ClearsTask D t d Q Er (tryCatch p f) := by
  apply Clears.bind (p := p.run)
  apply Clears.weaken h
  intro r hr
  cases r with
  | ok a => exact hr
  | error err => exact hr

/-- The last part of `p.finallyDo f` meets the duty, whatever becomes of `p`. -/
lemma ClearsTask.finallyDo {p : Task E R ε α} {f : Task E R ε Unit}
    (hp : Clears D t d (fun _ => True) p.run)
    (hf : ClearsTask D t d (fun _ => False) (fun _ => False) f) :
    ClearsTask D t d Q Er (p.finallyDo f) := by
  apply Clears.bind (p := p.run)
  apply Clears.weaken hp
  intro r _
  apply Clears.bind (p := f.run)
  apply Clears.weaken hf
  intro r' hr'
  cases r' <;> exact hr'.elim

lemma ClearsTask.of_follows {P : Guard E R T X} {Q : α → Trace E R T X → Prop}
    {Er : ε → Trace E R T X → Prop} {p : Task E R ε α} {tr : Trace E R T X}
    (h : FollowsTask P t Q Er p tr) (hP : ∀ e tr', P t e tr' → ¬D.waits e) :
    ClearsTask D t d (fun a => ∃ tr', Q a tr') (fun err => ∃ tr', Er err tr') p := by
  apply Clears.weaken (Clears.of_follows h hP)
  intro r hr
  cases r with
  | ok a => exact hr
  | error err => exact hr

/-- A task that meets the duty, left running. -/
lemma ClearsTask.detach {p : Task E R ε α}
    (h : ClearsTask D t d (fun _ => False) (fun _ => False) p) :
    Clears D t d (fun _ => False) p.run.detach := by
  apply Clears.bind
  apply Clears.weaken h
  intro r hr
  cases r with
  | ok a => exact hr.elim
  | error err => exact hr.elim

/-- The first part of a program keeps to the guard of the whole. -/
lemma Follows.of_bind {P : Guard E R T X} {Q : β → Trace E R T X → Prop} {p : Prog E R α}
    {f : α → Prog E R β} {tr : Trace E R T X} (h : Follows P t Q (p.bind f) tr) :
    Follows P t (fun _ _ => True) p tr := by
  induction p generalizing tr with
  | pure a => exact fun _ _ => trivial
  | call e k ih => exact fun tr' htr => ⟨(h tr' htr).1, fun r => ih r ((h tr' htr).2 r)⟩
  | fork c k _ ihk => exact ⟨h.1, ihk h.2⟩
  | amb l r ihl ihr => exact ⟨ihl h.1, ihr h.2⟩

lemma Tends.request {e : E} {k : R e → Except ε α} (h : ∀ r d, ¬D.hands e r d) :
    Tends D t (Task.request e k : Task E R ε α).run :=
  fun r => ⟨fun d hd => (h r d hd).elim, trivial⟩

lemma Tends.andThen {p : Task E R ε α} {f : α → Task E R ε β} (h : Tends D t p.run)
    (hf : ∀ a, Tends D t (f a).run) : Tends D t (p >>= f).run := by
  refine Tends.bind (p := p.run) h fun r => ?_
  cases r with
  | ok a => exact hf a
  | error err => trivial

lemma Tends.tryCatch {p : Task E R ε α} {f : ε → Task E R ε α} (h : Tends D t p.run)
    (hf : ∀ err, Tends D t (f err).run) : Tends D t (tryCatch p f).run := by
  refine Tends.bind (p := p.run) h fun r => ?_
  cases r with
  | ok a => trivial
  | error err => exact hf err

end ClearsTask

/-! ### Pools -/

section Pool

variable (D : Duties E R T S K)

/-- Open duties are kept by the state or cleared by a program. -/
structure Assured (c : Config E R T X S) : Prop where
  tends : ∀ p ∈ c.procs, Tends D p.1 p.2
  due : ∀ d, D.due c.world.state d → D.kept c.world.state d ∨
    ∃ p ∈ c.procs, Clears D p.1 d (fun _ => False) p.2

variable {D} {M : Machine E R T X S}

lemma Assured.start {s : S} (h : ∀ d, ¬D.due s d) :
    Assured D (Config.start s : Config E R T X S) :=
  ⟨fun _ hp => by simp [Config.start] at hp, fun d hd => (h d hd).elim⟩

/-- One program is replaced by others that tend to what it tended to and clear what it cleared. -/
lemma Assured.replace {w : World E R T X S} {l l' : List (T × Prog E R Unit)}
    {p : T × Prog E R Unit} (new : List (T × Prog E R Unit)) (h : Assured D ⟨w, l ++ p :: l'⟩)
    (htends : Tends D p.1 p.2 → ∀ q ∈ new, Tends D q.1 q.2)
    (hclears : ∀ d, Clears D p.1 d (fun _ => False) p.2 →
      ∃ q ∈ new, Clears D q.1 d (fun _ => False) q.2) : Assured D ⟨w, l ++ (new ++ l')⟩ where
  tends := forall_mem_replace new h.tends htends
  due d hd := (h.due d hd).imp_right fun hc =>
    exists_mem_replace (P := fun q => Clears D q.1 d (fun _ => False) q.2) new hc (hclears d)

/-- Duties stay attended if no request or outside event leaves an open one unattended. -/
theorem Assured.step
    (hcall : ∀ t e r s s', M.apply t e r s = some s' → ∀ d, D.due s' d →
      D.kept s' d ∨ D.hands e r d ∨ D.due s d ∧ ¬D.kept s d ∧ ¬D.meets t e d)
    (hext : ∀ x s s' ps, M.accept x s = some (s', ps) → (∀ p ∈ ps, Tends D p.1 p.2) ∧
      ∀ d, D.due s' d → D.kept s' d ∨ (∃ p ∈ ps, Clears D p.1 d (fun _ => False) p.2) ∨
        D.due s d ∧ ¬D.kept s d)
    {c c' : Config E R T X S} (h : Assured D c) (hstep : Step M c c') : Assured D c' := by
  cases hstep with
  | @call w l l' t e k r s hs =>
    have hthis : Tends D t (.call e k) := h.tends (t, .call e k) (by simp)
    refine ⟨forall_mem_replace [(t, k r)] h.tends fun _ => by simpa using (hthis r).2, ?_⟩
    intro d hd
    rcases hcall t e r _ _ hs d hd with hkept | hhands | ⟨hdue, hkept, hmeets⟩
    · exact .inl hkept
    · exact .inr ⟨(t, k r), by simp, (hthis r).1 d hhands⟩
    · right
      have hold := (h.due d hdue).resolve_left hkept
      apply exists_mem_replace (P := fun q => Clears D q.1 d (fun _ => False) q.2) [(t, k r)] hold
      intro hc
      exact ⟨(t, k r), by simp, hc.2.resolve_left hmeets r⟩
  | @fork w l l' t c k =>
    apply h.replace [(t, k), (t, c)]
    · intro ht
      simpa using ⟨ht.2, ht.1⟩
    · intro d hc
      rcases hc with hc | hc
      · exact ⟨(t, c), by simp, hc⟩
      · exact ⟨(t, k), by simp, hc⟩
  | @left w l l' t p q =>
    apply h.replace [(t, p)]
    · intro ht
      simpa using ht.1
    · exact fun d hc => ⟨(t, p), by simp, hc.1⟩
  | @right w l l' t p q =>
    apply h.replace [(t, q)]
    · intro ht
      simpa using ht.2
    · exact fun d hc => ⟨(t, q), by simp, hc.2⟩
  | @done w l l' t => exact h.replace [] (by simp) fun d hc => hc.elim
  | @ext w l x s ps hs =>
    obtain ⟨htends, hdue⟩ := hext x _ _ _ hs
    constructor
    · intro p hp
      rcases List.mem_append.mp hp with hp | hp
      · exact h.tends p hp
      · exact htends p hp
    · intro d hd
      rcases hdue d hd with hkept | ⟨p, hp, hc⟩ | ⟨hdue, hkept⟩
      · exact .inl hkept
      · exact .inr ⟨p, List.mem_append_right _ hp, hc⟩
      · obtain ⟨p, hp, hc⟩ := (h.due d hdue).resolve_left hkept
        exact .inr ⟨p, List.mem_append_left _ hp, hc⟩

/-- A pool whose programs all wait for what is due keeps a duty for later: programs do not wait for
each other. -/
theorem Assured.kept_of_waiting {c : Config E R T X S} (h : Assured D c) (hne : c.procs ≠ [])
    (hwait : ∀ p ∈ c.procs, ∃ e k, p.2 = .call e k ∧ D.waits e ∧ ∃ d, D.due c.world.state d) :
    ∃ d, D.kept c.world.state d := by
  obtain ⟨p, hp⟩ := List.exists_mem_of_ne_nil _ hne
  obtain ⟨-, -, -, -, d, hd⟩ := hwait p hp
  rcases h.due d hd with hkept | ⟨q, hq, hc⟩
  · exact ⟨d, hkept⟩
  · obtain ⟨e, k, heq, he, -⟩ := hwait q hq
    rw [heq] at hc
    exact absurd he hc.1

end Pool

end Async
