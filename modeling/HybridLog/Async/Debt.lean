import HybridLog.Async.Guard
import HybridLog.Async.Rules
import Mathlib.Data.Set.Basic
import Mathlib.Data.Set.Insert
import Mathlib.Order.BooleanAlgebra.Set

/-!
# Obligations

A request may create an obligation (something has been started that somebody must finish) or
meet one. `Owes` follows the obligations a program carries along every path; a program that
returns must have met them all. In a pool this shows that an open obligation is always carried
by a program that still runs.

Only answers that a `Ledger` allows are looked at, so a result about a pool is one about runs
whose events are all allowed.
-/

namespace Async

/-- The obligations `K` that answered requests create and meet, and the events considered. -/
structure Ledger (E : Type) (R : E → Type) (T X K : Type) where
  allowed : Event E R T X → Prop
  creates : (e : E) → R e → Set K
  meets : (e : E) → R e → Set K

variable {E : Type} {R : E → Type} {T X S K : Type} {α β γ ε : Type}

section Owes

variable (L : Ledger E R T X K) (t : T)

/-- Program `p`, carrying the obligations `O`, returns with a value and obligations as in `Q`
whatever the allowed answers are. Programs it leaves running start and return with none. -/
def Owes : {α : Type} → (Q : α → Set K → Prop) → Prog E R α → Set K → Prop
  | _, Q, .pure a, O => Q a O
  | _, Q, .call e k, O => ∀ r, L.allowed (.call t e r) →
      Owes Q (k r) ((O \ L.meets e r) ∪ L.creates e r)
  | _, Q, .fork c k, O => Owes (fun _ O' => O' = ∅) c ∅ ∧ Owes Q k O
  | _, Q, .amb l r, O => Owes Q l O ∧ Owes Q r O

variable {L t}

lemma Owes.weaken {Q Q' : α → Set K → Prop} {p : Prog E R α} {O : Set K}
    (h : Owes L t Q p O) (hQ : ∀ a O', Q a O' → Q' a O') : Owes L t Q' p O := by
  induction p generalizing O with
  | pure a => exact hQ a O h
  | call e k ih => exact fun r hr => ih r (h r hr) hQ
  | fork c k _ ihk => exact ⟨h.1, ihk h.2 hQ⟩
  | amb l r ihl ihr => exact ⟨ihl h.1 hQ, ihr h.2 hQ⟩

lemma Owes.bind {Q : β → Set K → Prop} {p : Prog E R α} {f : α → Prog E R β} {O : Set K}
    (h : Owes L t (fun a O' => Owes L t Q (f a) O') p O) : Owes L t Q (p.bind f) O := by
  induction p generalizing O with
  | pure a => exact h
  | call e k ih => exact fun r hr => ih r (h r hr)
  | fork c k _ ihk => exact ⟨h.1, ihk h.2⟩
  | amb l r ihl ihr => exact ⟨ihl h.1, ihr h.2⟩

/-- Fewer obligations are carried by the same program. -/
lemma Owes.mono {Q : α → Set K → Prop} {p : Prog E R α} {O O' : Set K}
    (h : Owes L t Q p O) (hO : O' ⊆ O) (hQ : ∀ a U U', U' ⊆ U → Q a U → Q a U') :
    Owes L t Q p O' := by
  induction p generalizing O O' with
  | pure a => exact hQ a O O' hO h
  | call e k ih =>
    intro r hr
    apply ih r (h r hr) _ hQ
    exact Set.union_subset_union_left _ (Set.sdiff_subset_sdiff hO Set.Subset.rfl)
  | fork c k _ ihk => exact ⟨h.1, ihk h.2 hO hQ⟩
  | amb l r ihl ihr => exact ⟨ihl h.1 hO hQ, ihr h.2 hO hQ⟩

/-- A request of a program tagged `t` that creates nothing. -/
def Ledger.Calm (L : Ledger E R T X K) (t : T) (e : E) : Prop :=
  ∀ r, L.allowed (.call t e r) → L.creates e r = ∅

/-- A program whose requests create nothing is left with no more than it began with. -/
lemma Owes.of_calm {Q : α → Trace E R T X → Prop} {p : Prog E R α} {tr : Trace E R T X}
    (h : Follows (fun t e _ => L.Calm t e) t Q p tr) (O : Set K) :
    Owes L t (fun a O' => (∃ tr', Q a tr') ∧ O' ⊆ O) p O := by
  induction p generalizing tr O with
  | pure a => exact ⟨⟨tr, h tr List.prefix_rfl⟩, Set.Subset.rfl⟩
  | call e k ih =>
    intro r hr
    obtain ⟨hcalm, hk⟩ := h tr List.prefix_rfl
    rw [hcalm r hr, Set.union_empty]
    apply Owes.weaken (ih r (hk r) _)
    exact fun a O' h' => ⟨h'.1, h'.2.trans Set.sdiff_subset⟩
  | fork c k ihc ihk =>
    refine ⟨(ihc h.1 ∅).weaken fun a O' h' => Set.subset_empty_iff.mp h'.2, ihk h.2 O⟩
  | amb l r ihl ihr => exact ⟨ihl h.1 O, ihr h.2 O⟩

end Owes

/-! ### Tasks -/

section OwesTask

variable (L : Ledger E R T X K) (t : T)

/-- `Owes` for a task, with one condition for each way it ends. -/
def OwesTask (Q : α → Set K → Prop) (Er : ε → Set K → Prop) (p : Task E R ε α) (O : Set K) :
    Prop :=
  Owes L t (fun
    | .ok a => Q a
    | .error err => Er err) p.run O

/-- What is owed is followed along every path. -/
def owing : PathRule E R (Set K) := ⟨Owes L t, Owes.weaken, Owes.bind, fun h => h⟩

variable {L t} {Q Q' : α → Set K → Prop} {Er Er' : ε → Set K → Prop} {O : Set K}

lemma OwesTask.weaken {p : Task E R ε α} (h : OwesTask L t Q Er p O)
    (hQ : ∀ a O', Q a O' → Q' a O') (hEr : ∀ err O', Er err O' → Er' err O') :
    OwesTask L t Q' Er' p O := PathRule.Task.weaken (W := owing L t) h hQ hEr

lemma OwesTask.pure {a : α} (h : Q a O) : OwesTask L t Q Er (pure a : Task E R ε α) O := h

lemma OwesTask.throw {err : ε} (h : Er err O) :
    OwesTask L t Q Er (throw err : Task E R ε α) O := h

lemma OwesTask.request {e : E} {k : R e → Except ε α}
    (h : ∀ r, L.allowed (.call t e r) → match k r with
      | .ok a => Q a ((O \ L.meets e r) ∪ L.creates e r)
      | .error err => Er err ((O \ L.meets e r) ∪ L.creates e r)) :
    OwesTask L t Q Er (Task.request e k) O := by
  intro r hr
  have hr' := h r hr
  show Owes L t _ (Prog.pure (k r)) _
  cases hkr : k r with
  | ok a =>
    rw [hkr] at hr'
    exact hr'
  | error err =>
    rw [hkr] at hr'
    exact hr'

lemma OwesTask.spawn {Q : Unit → Set K → Prop} {c : Prog E R Unit}
    (hc : Owes L t (fun _ O' => O' = ∅) c ∅) (h : Q () O) :
    OwesTask L t Q Er (Task.spawn c) O := ⟨hc, h⟩

lemma OwesTask.bind {Q : β → Set K → Prop} {p : Task E R ε α} {f : α → Task E R ε β}
    (h : OwesTask L t (fun a O' => OwesTask L t Q Er (f a) O') Er p O) :
    OwesTask L t Q Er (p >>= f) O := PathRule.Task.bind (W := owing L t) h

lemma OwesTask.tryCatch {p : Task E R ε α} {f : ε → Task E R ε α}
    (h : OwesTask L t Q (fun err O' => OwesTask L t Q Er (f err) O') p O) :
    OwesTask L t Q Er (tryCatch p f) O := PathRule.Task.tryCatch (W := owing L t) h

lemma OwesTask.finallyDo {p : Task E R ε α} {f : Task E R ε Unit}
    (h : OwesTask L t (fun a O' => OwesTask L t (fun _ => Q a) Er f O')
      (fun err O' => OwesTask L t (fun _ => Er err) Er f O') p O) :
    OwesTask L t Q Er (p.finallyDo f) O := PathRule.Task.finallyDo (W := owing L t) h

/-- A task whose requests create nothing. -/
lemma OwesTask.of_calm {P : Guard E R T X} {Q : α → Trace E R T X → Prop}
    {Er : ε → Trace E R T X → Prop} {p : Task E R ε α} {tr : Trace E R T X}
    (h : FollowsTask P t Q Er p tr) (hcalm : ∀ e tr', P t e tr' → L.Calm t e) (O : Set K) :
    OwesTask L t (fun a O' => (∃ tr', Q a tr') ∧ O' ⊆ O)
      (fun err O' => (∃ tr', Er err tr') ∧ O' ⊆ O) p O := by
  apply Owes.weaken (Owes.of_calm (Follows.allow h fun e tr' _ => hcalm e tr') O)
  intro r O' hr
  cases r with
  | ok a => exact hr
  | error err => exact hr

lemma OwesTask.detach {p : Task E R ε α}
    (h : OwesTask L t (fun _ O' => O' = ∅) (fun _ O' => O' = ∅) p O) :
    Owes L t (fun _ O' => O' = ∅) p.run.detach O :=
  PathRule.Task.detach (W := owing L t) (C := fun O' => O' = ∅) h

end OwesTask

/-! ### Open obligations of a pool -/

/-- The condition under which a top-level program may return. -/
def Clear (_ : Unit) (O : Set K) : Prop := O = ∅

lemma clear_mono (a : Unit) (U U' : Set K) (h : U' ⊆ U) (hU : Clear a U) : Clear a U' :=
  Set.subset_eq_empty h hU

/-- In a run whose events are all allowed, whatever is open is carried by a program that runs.
`open'` tells the open obligations of a state and `Inv` is some invariant of the runs. -/
theorem Reach.owed {M : Machine E R T X S} {L : Ledger E R T X K} {open' : S → Set K}
    {Inv : World E R T X S → Prop} {s₀ : S} (hinit : open' s₀ = ∅)
    (hInv : ∀ c, Reach M s₀ c → (∀ ev ∈ c.world.trace, L.allowed ev) → Inv c.world)
    (hcall : ∀ t e r s s', M.apply t e r s = some s' → L.allowed (.call t e r) →
      open' s' ⊆ (open' s \ L.meets e r) ∪ L.creates e r)
    (hext : ∀ w x s ps, Inv w → M.accept x w.state = some (s, ps) → L.allowed (.ext x) →
      (∀ p ∈ ps, Owes L p.1 Clear p.2 ∅) ∧
        ∀ k ∈ open' s, k ∈ open' w.state ∨ ∃ p ∈ ps, Owes L p.1 Clear p.2 {k})
    {c : Config E R T X S} (h : Reach M s₀ c) (hall : ∀ ev ∈ c.world.trace, L.allowed ev) :
    (∀ p ∈ c.procs, Owes L p.1 Clear p.2 ∅) ∧
      ∀ k ∈ open' c.world.state, ∃ p ∈ c.procs, Owes L p.1 Clear p.2 {k} := by
  induction h with
  | refl => exact ⟨by simp [Config.start], by simp [Config.start, hinit]⟩
  | tail hreach hstep ih =>
    obtain ⟨hps, hopen⟩ := ih fun ev hev => hall ev (hstep.trace_le.subset hev)
    cases hstep with
    | @call w l l' t e k r s hs =>
      have hal : L.allowed (.call t e r) := hall _ (by simp)
      have hk := hps (t, .call e k) (by simp) r hal
      refine ⟨forall_mem_replace [(t, k r)] hps fun _ => by
        simpa using hk.mono (Set.empty_subset _) clear_mono, fun key hkey => ?_⟩
      rcases hcall t e r w.state s hs hal hkey with ⟨hold, hnot⟩ | hnew
      · -- either another program carries it, or this one does and does not meet it now
        refine exists_mem_replace [(t, k r)] (hopen key hold) fun hpo => ⟨(t, k r), by simp, ?_⟩
        exact (hpo r hal).mono (Set.singleton_subset_iff.mpr (.inl ⟨rfl, hnot⟩)) clear_mono
      · exact ⟨(t, k r), by simp, hk.mono (Set.singleton_subset_iff.mpr (.inr hnew)) clear_mono⟩
    | @fork w l l' t c k =>
      exact ⟨forall_mem_replace [(t, k), (t, c)] hps fun h => by simpa using ⟨h.2, h.1⟩,
        fun key hkey => exists_mem_replace [(t, k), (t, c)] (hopen key hkey) fun h =>
          ⟨(t, k), by simp, h.2⟩⟩
    | @left w l l' t q₁ q₂ =>
      exact ⟨forall_mem_replace [(t, q₁)] hps fun h => by simpa using h.1,
        fun key hkey => exists_mem_replace [(t, q₁)] (hopen key hkey) fun h =>
          ⟨(t, q₁), by simp, h.1⟩⟩
    | @right w l l' t q₁ q₂ =>
      exact ⟨forall_mem_replace [(t, q₂)] hps fun h => by simpa using h.2,
        fun key hkey => exists_mem_replace [(t, q₂)] (hopen key hkey) fun h =>
          ⟨(t, q₂), by simp, h.2⟩⟩
    | @done w l l' t =>
      exact ⟨forall_mem_replace [] hps (by simp),
        fun key hkey => exists_mem_replace [] (hopen key hkey) fun h =>
          absurd h (Set.singleton_ne_empty key)⟩
    | @ext w l x s ps hs =>
      have hI := hInv _ hreach fun ev hev => hall ev (by simp [hev])
      obtain ⟨hnew, hnewOpen⟩ := hext w x s ps hI hs (hall _ (by simp))
      refine ⟨fun p hp => ?_, fun key hkey => ?_⟩
      · rcases List.mem_append.mp hp with hp | hp
        · exact hps p hp
        · exact hnew p hp
      · rcases hnewOpen key hkey with hold | ⟨p, hp, hpo⟩
        · obtain ⟨p, hp, hpo⟩ := hopen key hold
          exact ⟨p, by simp [hp], hpo⟩
        · exact ⟨p, by simp [hp], hpo⟩

end Async
