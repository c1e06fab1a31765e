import HybridLog.Async.Guard

/-!
# Holds

Some requests may only be made by a program that holds something: a lock, a token, a message it has
not acknowledged. A program is started with its hold and lets go of it by a request, after which it
makes none that needs the hold; what it leaves running has no hold. So in a pool whose holds are
given out once, whoever makes a request that needs a hold has it.
-/

namespace Async

/-- Which requests of a program tagged so need its hold or let go of it, and who has one. -/
structure Hold (E T S : Type) where
  needs : T → E → Prop
  frees : T → E → Prop
  held : S → T → Prop

variable {E : Type} {R : E → Type} {T X S : Type} {α β ε : Type}

/-! ### Programs -/

section Within

variable (D : Hold E T S) (t : T)

/-- Program `p`, which has its hold if `has`, keeps within it; it returns with a value, and with
the hold or without it, as in `Q`. -/
def Within : {α : Type} → (has : Prop) → (Q : α → Prop → Prop) → Prog E R α → Prop
  | _, has, Q, .pure a => Q a has
  | _, has, Q, .call e k => (D.needs t e → has) ∧ (D.frees t e → has) ∧
      ∀ r, Within (has ∧ ¬D.frees t e) Q (k r)
  | _, has, Q, .fork c k => Within False (fun _ _ => True) c ∧ Within has Q k
  | _, has, Q, .amb l r => Within has Q l ∧ Within has Q r

variable {D t} {has : Prop}

lemma Within.weaken {Q Q' : α → Prop → Prop} {p : Prog E R α} (h : Within D t has Q p)
    (hQ : ∀ a b, Q a b → Q' a b) : Within D t has Q' p := by
  induction p generalizing has with
  | pure a => exact hQ a has h
  | call e k ih => exact ⟨h.1, h.2.1, fun r => ih r (h.2.2 r) hQ⟩
  | fork c k _ ihk => exact ⟨h.1, ihk h.2 hQ⟩
  | amb l r ihl ihr => exact ⟨ihl h.1 hQ, ihr h.2 hQ⟩

lemma Within.bind {Q : β → Prop → Prop} {p : Prog E R α} {f : α → Prog E R β}
    (h : Within D t has (fun a b => Within D t b Q (f a)) p) : Within D t has Q (p.bind f) := by
  induction p generalizing has with
  | pure a => exact h
  | call e k ih => exact ⟨h.1, h.2.1, fun r => ih r (h.2.2 r)⟩
  | fork c k _ ihk => exact ⟨h.1, ihk h.2⟩
  | amb l r ihl ihr => exact ⟨ihl h.1, ihr h.2⟩

/-- A program that neither needs its hold nor lets go of it. -/
lemma Within.of_follows {P : Guard E R T X} {Q : α → Trace E R T X → Prop} {p : Prog E R α}
    {tr : Trace E R T X} (h : Follows P t Q p tr)
    (hP : ∀ e tr', P t e tr' → ¬D.needs t e ∧ ¬D.frees t e) :
    Within D t has (fun a b => (∃ tr', Q a tr') ∧ (has → b)) p := by
  induction p generalizing tr has with
  | pure a => exact ⟨⟨tr, h tr List.prefix_rfl⟩, id⟩
  | call e k ih =>
    obtain ⟨he, hk⟩ := h tr List.prefix_rfl
    obtain ⟨hneeds, hfrees⟩ := hP e tr he
    refine ⟨fun hn => (hneeds hn).elim, fun hf => (hfrees hf).elim, fun r => ?_⟩
    exact (ih r (hk r)).weaken fun a b hb => ⟨hb.1, fun hh => hb.2 ⟨hh, hfrees⟩⟩
  | fork c k ihc ihk => exact ⟨(ihc h.1).weaken fun _ _ _ => trivial, ihk h.2⟩
  | amb l r ihl ihr => exact ⟨ihl h.1, ihr h.2⟩

/-- A program whose tag has nothing to do with holds. -/
lemma Within.of_free (ht : ∀ e, ¬D.needs t e ∧ ¬D.frees t e) (p : Prog E R α) :
    Within D t has (fun _ _ => True) p := by
  induction p generalizing has with
  | pure a => trivial
  | call e k ih => exact ⟨fun hn => ((ht e).1 hn).elim, fun hf => ((ht e).2 hf).elim, fun r => ih r⟩
  | fork c k ihc ihk => exact ⟨ihc, ihk⟩
  | amb l r ihl ihr => exact ⟨ihl, ihr⟩

/-- What a guard says about the end of a program holds as well. -/
lemma Within.and_follows {P : Guard E R T X} {Q : α → Prop → Prop}
    {Q' : α → Trace E R T X → Prop} {p : Prog E R α} {tr : Trace E R T X}
    (h : Within D t has Q p) (hf : Follows P t Q' p tr) :
    Within D t has (fun a b => Q a b ∧ ∃ tr', Q' a tr') p := by
  induction p generalizing tr has with
  | pure a => exact ⟨h, tr, hf tr List.prefix_rfl⟩
  | call e k ih => exact ⟨h.1, h.2.1, fun r => ih r (h.2.2 r) ((hf tr List.prefix_rfl).2 r)⟩
  | fork c k _ ihk => exact ⟨h.1, ihk h.2 hf.2⟩
  | amb l r ihl ihr => exact ⟨ihl h.1 hf.1, ihr h.2 hf.2⟩

end Within

/-! ### Tasks -/

section WithinTask

variable (D : Hold E T S) (t : T)

/-- A task that keeps within its hold and still has it at the end. -/
def Retains (p : Task E R ε α) : Prop := Within D t True (fun _ b => b) p.run

variable {D t}

lemma Retains.pure (a : α) : Retains D t (pure a : Task E R ε α) := trivial

lemma Retains.throw (err : ε) : Retains D t (throw err : Task E R ε α) := trivial

lemma Retains.request {e : E} {k : R e → Except ε α} (h : ¬D.frees t e) :
    Retains D t (Task.request e k) :=
  ⟨fun _ => trivial, fun _ => trivial, fun _ => ⟨trivial, h⟩⟩

/-- Whatever has the hold keeps within it. -/
lemma Within.of_true {Q : α → Prop → Prop} {p : Prog E R α} {has : Prop} (hhas : has)
    (h : Within D t True Q p) : Within D t has Q p := by
  rwa [eq_true hhas]

lemma Retains.bind {p : Task E R ε α} {f : α → Task E R ε β} (hp : Retains D t p)
    (hf : ∀ a, Retains D t (f a)) : Retains D t (p >>= f) := by
  refine Within.bind (p := p.run) (hp.weaken fun r b hb => ?_)
  cases r with
  | ok a => exact .of_true hb (hf a)
  | error err => exact hb

lemma Retains.tryCatch {p : Task E R ε α} {f : ε → Task E R ε α} (hp : Retains D t p)
    (hf : ∀ err, Retains D t (f err)) : Retains D t (tryCatch p f) := by
  refine Within.bind (p := p.run) (hp.weaken fun r b hb => ?_)
  cases r with
  | ok a => exact hb
  | error err => exact .of_true hb (hf err)

lemma Retains.ite {c : Prop} [Decidable c] {p q : Task E R ε α} (hp : Retains D t p)
    (hq : Retains D t q) : Retains D t (if c then p else q) := by
  split
  · exact hp
  · exact hq

lemma Retains.of_follows {P : Guard E R T X} {Q : α → Trace E R T X → Prop}
    {Er : ε → Trace E R T X → Prop} {p : Task E R ε α} {tr : Trace E R T X}
    (h : FollowsTask P t Q Er p tr) (hP : ∀ e tr', P t e tr' → ¬D.needs t e ∧ ¬D.frees t e) :
    Retains D t p :=
  (Within.of_follows h hP).weaken fun _ _ hb => hb.2 trivial

/-- The hold is let go of at the end, whatever becomes of `p`. -/
lemma Retains.finallyDo {p : Task E R ε α} {e : E} {k : R e → Except ε Unit}
    (hp : Retains D t p) : Within D t True (fun _ b => b → ¬D.frees t e)
      (p.finallyDo (Task.request e k)).run := by
  refine Within.bind (p := p.run) (hp.weaken fun r b hb => ?_)
  refine ⟨fun _ => hb, fun _ => hb, fun x => ?_⟩
  apply Within.bind (p := .pure (k x))
  cases k x with
  | ok _ => exact And.right
  | error err => exact And.right

end WithinTask

/-! ### Pools -/

section Pool

variable (D : Hold E T S)

/-- Program `p` needs no hold. -/
def Idle (p : T × Prog E R Unit) : Prop := Within D p.1 False (fun _ _ => True) p.2

open Classical in
/-- How many programs tagged `t` may need a hold. -/
noncomputable def busy (t : T) (ps : List (T × Prog E R Unit)) : ℕ :=
  ps.countP fun p => p.1 = t ∧ ¬Idle D p

/-- Every program needs no hold, or it keeps within one that it has and shares with nobody. -/
structure Orderly (c : Config E R T X S) : Prop where
  within : ∀ p ∈ c.procs, Idle D p ∨
    D.held c.world.state p.1 ∧ Within D p.1 True (fun _ _ => True) p.2
  single : ∀ t, busy D t c.procs ≤ 1

variable {D} {M : Machine E R T X S} {t : T} {ps qs : List (T × Prog E R Unit)}

lemma busy_append : busy D t (ps ++ qs) = busy D t ps + busy D t qs := List.countP_append

lemma busy_cons (p : T × Prog E R Unit) : busy D t (p :: ps) = busy D t [p] + busy D t ps := by
  rw [← List.singleton_append, busy_append]

lemma busy_eq_zero : busy D t ps = 0 ↔ ∀ p ∈ ps, p.1 = t → Idle D p := by
  simp [busy, List.countP_eq_zero]

lemma busy_singleton_le (p : T × Prog E R Unit) : busy D t [p] ≤ 1 := List.countP_le_length

lemma busy_self {p : T × Prog E R Unit} (h : ¬Idle D p) : busy D p.1 [p] = 1 := by
  simp [busy, h]

lemma Orderly.start {s : S} : Orderly D (Config.start s : Config E R T X S) where
  within p hp := by simp [Config.start] at hp
  single t := by simp [Config.start, busy]

/-- A program is replaced by what runs of it after its next step. -/
lemma Orderly.replace {w w' : World E R T X S} {l l' : List (T × Prog E R Unit)}
    {p : T × Prog E R Unit} (new : List (T × Prog E R Unit)) (h : Orderly D ⟨w, l ++ p :: l'⟩)
    (hidle : Idle D p → ∀ q ∈ new, Idle D q)
    (hheld : ∀ t, D.held w.state t → (t = p.1 → Idle D p) → D.held w'.state t)
    (hnew : D.held w.state p.1 → Within D p.1 True (fun _ _ => True) p.2 → ∀ q ∈ new, Idle D q ∨
      D.held w'.state q.1 ∧ Within D q.1 True (fun _ _ => True) q.2)
    (htag : ∀ q ∈ new, q.1 = p.1) (hcount : ∀ t, busy D t new ≤ 1) :
    Orderly D ⟨w', l ++ (new ++ l')⟩ := by
  -- another busy program has another tag, so its hold stays
  have hother (q : T × Prog E R Unit) (hq : q ∈ l ++ l') : Idle D q ∨
      D.held w'.state q.1 ∧ Within D q.1 True (fun _ _ => True) q.2 := by
    have hmem : q ∈ l ++ p :: l' := by
      rcases List.mem_append.mp hq with hq | hq <;> simp [hq]
    rcases h.within q hmem with hi | ⟨hq', hw⟩
    · exact .inl hi
    by_cases hi : Idle D q
    · exact .inl hi
    refine .inr ⟨hheld q.1 hq' fun hqp => ?_, hw⟩
    by_contra hp
    have hsingle := h.single p.1
    rw [busy_append, busy_cons, busy_self hp, Nat.add_left_comm, ← busy_append] at hsingle
    have hzero : busy D p.1 (l ++ l') = 0 := by omega
    exact hi (busy_eq_zero.mp hzero q hq hqp)
  constructor
  · intro q hq
    simp only [List.mem_append] at hq
    rcases hq with hq | hq | hq
    · exact hother q (by simp [hq])
    · rcases h.within p (by simp) with hi | ⟨hp, hw⟩
      · exact .inl (hidle hi q hq)
      · exact hnew hp hw q hq
    · exact hother q (by simp [hq])
  · intro t
    have hsingle := h.single t
    rw [busy_append, busy_cons] at hsingle
    have hle : busy D t new ≤ busy D t [p] := by
      by_cases hbusy : busy D t new = 0
      · exact hbusy ▸ Nat.zero_le _
      have hp : ¬Idle D p := fun hi => hbusy (busy_eq_zero.mpr fun q hq _ => hidle hi q hq)
      have ht : p.1 = t := by
        by_contra hne
        exact hbusy (busy_eq_zero.mpr fun q hq hqt => (hne ((htag q hq).symm.trans hqt)).elim)
      subst ht
      rw [busy_self hp]
      exact hcount p.1
    rw [busy_append, busy_append]
    omega

/-- Holds that are given out once are kept within. -/
theorem Orderly.step
    {c c' : Config E R T X S} (h : Orderly D c)
    (hcall : ∀ t e k r s', (t, .call e k) ∈ c.procs → M.apply t e r c.world.state = some s' →
      ∀ t', D.held c.world.state t' → (t' = t → ¬D.frees t e) → D.held s' t')
    (hext : ∀ x s' ps, M.accept x c.world.state = some (s', ps) →
      (∀ t, D.held c.world.state t → D.held s' t) ∧ (∀ t, busy D t ps ≤ 1) ∧ ∀ p ∈ ps, Idle D p ∨
        ¬D.held c.world.state p.1 ∧ D.held s' p.1 ∧ Within D p.1 True (fun _ _ => True) p.2)
    (hstep : Step M c c') : Orderly D c' := by
  cases hstep with
  | @call w l l' t e k r s hs =>
    have hkeep := hcall t e k r _ (by simp) hs
    refine h.replace [(t, k r)] ?_ ?_ ?_ (by simp) fun t' => busy_singleton_le _
    · intro hi q hq
      cases List.mem_singleton.mp hq
      simpa [Idle] using hi.2.2 r
    · exact fun t' hd hi => hkeep t' hd fun heq hf => (hi heq).2.1 (heq ▸ hf)
    · intro hd hw q hq
      cases List.mem_singleton.mp hq
      by_cases hf : D.frees t e
      · left
        simpa [Idle, hf] using hw.2.2 r
      · right
        exact ⟨hkeep t hd fun _ => hf, by simpa [hf] using hw.2.2 r⟩
  | @fork w l l' t c k =>
    have hchild : Idle D (t, c) := by
      rcases h.within (t, .fork c k) (by simp) with hi | ⟨-, hw⟩
      · exact hi.1
      · exact hw.1
    refine h.replace [(t, k), (t, c)] ?_ (fun _ hd _ => hd) ?_ (by simp) fun t' => ?_
    · intro hi q hq
      rcases List.mem_pair.mp hq with rfl | rfl
      · exact hi.2
      · exact hi.1
    · intro hd hw q hq
      rcases List.mem_pair.mp hq with rfl | rfl
      · exact .inr ⟨hd, hw.2⟩
      · exact .inl hchild
    · have hzero : busy D t' [(t, c)] = 0 := busy_eq_zero.mpr fun q hq _ => by
        cases List.mem_singleton.mp hq
        exact hchild
      rw [busy_cons, hzero]
      exact busy_singleton_le _
  | @left w l l' t p q =>
    refine h.replace [(t, p)] ?_ (fun _ hd _ => hd) ?_ (by simp) fun t' => busy_singleton_le _
    · intro hi q hq
      cases List.mem_singleton.mp hq
      exact hi.1
    · intro hd hw q hq
      cases List.mem_singleton.mp hq
      exact .inr ⟨hd, hw.1⟩
  | @right w l l' t p q =>
    refine h.replace [(t, q)] ?_ (fun _ hd _ => hd) ?_ (by simp) fun t' => busy_singleton_le _
    · intro hi q hq
      cases List.mem_singleton.mp hq
      exact hi.2
    · intro hd hw q hq
      cases List.mem_singleton.mp hq
      exact .inr ⟨hd, hw.2⟩
  | @done w l l' t =>
    exact h.replace [] (by simp) (fun _ hd _ => hd) (by simp) (by simp) fun t' => by simp [busy]
  | @ext w l x s ps hs =>
    obtain ⟨hkept, hcount, hps⟩ := hext x _ ps hs
    constructor
    · intro q hq
      rcases List.mem_append.mp hq with hq | hq
      · exact (h.within q hq).imp_right fun hw => ⟨hkept q.1 hw.1, hw.2⟩
      · exact (hps q hq).imp_right And.right
    · intro t
      rw [busy_append]
      by_cases hbusy : busy D t ps = 0
      · rw [hbusy]
        exact h.single t
      -- a new program is busy, so nobody has had its hold
      have hold : busy D t l = 0 := by
        rw [busy_eq_zero] at hbusy ⊢
        intro q hq hqt
        by_contra hi
        obtain ⟨hqheld, -⟩ := (h.within q hq).resolve_left hi
        refine hbusy fun p hp hpt => (hps p hp).resolve_right fun hnew => hnew.1 ?_
        rwa [hpt, ← hqt]
      rw [hold, Nat.zero_add]
      exact hcount t

/-- Whoever makes a request that needs a hold has it. -/
theorem Orderly.held {c : Config E R T X S} (h : Orderly D c) {e : E} {k : R e → Prog E R Unit}
    (hmem : (t, .call e k) ∈ c.procs) (hneeds : D.needs t e) : D.held c.world.state t := by
  rcases h.within _ hmem with hi | ⟨hd, -⟩
  · exact (hi.1 hneeds).elim
  · exact hd

end Pool

end Async
