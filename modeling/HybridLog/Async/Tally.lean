import HybridLog.Async.Guard
import HybridLog.Async.Rules
import Mathlib.Algebra.Order.Group.Multiset

/-!
# Own requests of a program

`Follows` speaks of what has happened in a trace, whoever did it. Where it matters how often a
program has made a request itself, `Emits` collects the answered requests of the program, and
`Follows.tally` finds them again in the trace.
-/

namespace Async

variable {E : Type} {R : E → Type} {T X : Type} {α β γ ε : Type}

/-- Answered requests, counted with repetitions. -/
abbrev Deeds (E : Type) (R : E → Type) := Multiset (Σ e : E, R e)

/-- The answered requests of a program tagged `t`, as they stand in a trace. -/
def Deeds.events (X : Type) (t : T) (own : Deeds E R) : Multiset (Event E R T X) :=
  own.map fun d => .call t d.1 d.2

@[simp] lemma Deeds.events_zero (t : T) : Deeds.events X t (0 : Deeds E R) = 0 := rfl

@[simp] lemma Deeds.events_cons (t : T) (d : Σ e : E, R e) (own : Deeds E R) :
    Deeds.events X t (d ::ₘ own) = .call t d.1 d.2 ::ₘ Deeds.events X t own :=
  Multiset.map_cons ..

lemma Deeds.events_mono {t : T} {own own' : Deeds E R} (h : own ≤ own') :
    own.events X t ≤ own'.events X t := Multiset.map_le_map h

/-! ### Programs -/

/-- A program that has made the requests `own` returns with a value and requests as in `Q`. What
the programs it leaves running do is not counted. -/
def Emits : {α : Type} → (Q : α → Deeds E R → Prop) → Prog E R α → Deeds E R → Prop
  | _, Q, .pure a, own => Q a own
  | _, Q, .call e k, own => ∀ r, Emits Q (k r) (⟨e, r⟩ ::ₘ own)
  | _, Q, .fork _ k, own => Emits Q k own
  | _, Q, .amb l r, own => Emits Q l own ∧ Emits Q r own

lemma Emits.weaken {Q Q' : α → Deeds E R → Prop} {p : Prog E R α} {own : Deeds E R}
    (h : Emits Q p own) (hQ : ∀ a own', Q a own' → Q' a own') : Emits Q' p own := by
  induction p generalizing own with
  | pure a => exact hQ a own h
  | call e k ih => exact fun r => ih r (h r) hQ
  | fork c k _ ihk => exact ihk h hQ
  | amb l r ihl ihr => exact ⟨ihl h.1 hQ, ihr h.2 hQ⟩

lemma Emits.bind {Q : β → Deeds E R → Prop} {p : Prog E R α} {f : α → Prog E R β}
    {own : Deeds E R} (h : Emits (fun a own' => Emits Q (f a) own') p own) :
    Emits Q (p.bind f) own := by
  induction p generalizing own with
  | pure a => exact h
  | call e k ih => exact fun r => ih r (h r)
  | fork c k _ ihk => exact ihk h
  | amb l r ihl ihr => exact ⟨ihl h.1, ihr h.2⟩

/-- What a program has done before stays done. -/
lemma Emits.frame {Q : α → Deeds E R → Prop} {p : Prog E R α} {own : Deeds E R}
    (h : Emits Q p own) (before : Deeds E R) :
    Emits (fun a own' => ∃ more, Q a more ∧ own' = before + more) p (before + own) := by
  induction p generalizing own with
  | pure a => exact ⟨own, h, rfl⟩
  | call e k ih =>
    intro r
    rw [← Multiset.add_cons]
    exact ih r (h r)
  | fork c k _ ihk => exact ihk h
  | amb l r ihl ihr => exact ⟨ihl h.1, ihr h.2⟩

lemma Emits.race {Ql : α → Deeds E R → Prop} {Qr : β → Deeds E R → Prop}
    {Q : γ → Deeds E R → Prop} {onLeft : α → Prog E R β → Prog E R γ}
    {onRight : Prog E R α → β → Prog E R γ} {p : Prog E R α} {q : Prog E R β}
    {own own' : Deeds E R}
    (hl : ∀ a q own own', Ql a own → Emits Qr q own' → Emits Q (onLeft a q) (own + own'))
    (hr : ∀ p b own own', Emits Ql p own → Qr b own' → Emits Q (onRight p b) (own + own'))
    (hp : Emits Ql p own) (hq : Emits Qr q own') :
    Emits Q (Prog.race onLeft onRight p q) (own + own') := by
  induction p generalizing q own own' with
  | pure a => exact hl a q own own' hp hq
  | fork c k _ ihk => exact ihk hl hr hp hq
  | amb l r ihl ihr => exact ⟨ihl hl hr hp.1 hq, ihr hl hr hp.2 hq⟩
  | call e k ih =>
    simp only [Prog.race]
    induction q generalizing own own' with
    | pure b => exact hr _ b own own' hp hq
    | fork c q _ ihq => exact ihq ih hl hr hp hq
    | amb q₁ q₂ ih₁ ih₂ => exact ⟨ih₁ ih hl hr hp hq.1, ih₂ ih hl hr hp hq.2⟩
    | call f g ihg =>
      refine ⟨fun r => ?_, fun r => ?_⟩
      · rw [← Multiset.cons_add]
        exact ih r hl hr (hp r) hq
      · rw [← Multiset.add_cons]
        exact ihg r ih hl hr hp (hq r)

/-! ### Tasks -/

section EmitsTask

/-- `Emits` for a task: it resolves to a value satisfying `Q` or rejects with an exception
satisfying `Er`. -/
def EmitsTask (Q : α → Deeds E R → Prop) (Er : ε → Deeds E R → Prop) (p : Task E R ε α)
    (own : Deeds E R) : Prop :=
  Emits (fun
    | .ok a => Q a
    | .error err => Er err) p.run own

variable {Q Q' : α → Deeds E R → Prop} {Er Er' : ε → Deeds E R → Prop} {own : Deeds E R}

/-- The requests of a program are followed along every path. -/
def emitting : PathRule E R (Deeds E R) := ⟨Emits, Emits.weaken, Emits.bind, fun h => h⟩

lemma EmitsTask.weaken {p : Task E R ε α} (h : EmitsTask Q Er p own)
    (hQ : ∀ a own', Q a own' → Q' a own') (hEr : ∀ err own', Er err own' → Er' err own') :
    EmitsTask Q' Er' p own := PathRule.Task.weaken (W := emitting) h hQ hEr

lemma EmitsTask.pure {a : α} (h : Q a own) : EmitsTask Q Er (pure a : Task E R ε α) own := h

lemma EmitsTask.throw {err : ε} (h : Er err own) :
    EmitsTask Q Er (throw err : Task E R ε α) own := h

/-- A request, with what its answers come to. -/
lemma EmitsTask.request {e : E} {k : R e → Except ε α}
    (h : ∀ r, match k r with
      | .ok a => Q a (⟨e, r⟩ ::ₘ own)
      | .error err => Er err (⟨e, r⟩ ::ₘ own)) : EmitsTask Q Er (Task.request e k) own := by
  intro r
  have hr := h r
  show Emits _ (.pure (k r)) _
  cases hk : k r with
  | ok a =>
    simp only [hk] at hr
    exact hr
  | error err =>
    simp only [hk] at hr
    exact hr

lemma EmitsTask.ofExcept {x : Except ε α} (hQ : ∀ a, x = .ok a → Q a own)
    (hEr : ∀ err, x = .error err → Er err own) : EmitsTask Q Er (Task.ofExcept x) own := by
  cases x with
  | ok a => exact hQ a rfl
  | error err => exact hEr err rfl

lemma EmitsTask.bind {Q : β → Deeds E R → Prop} {p : Task E R ε α} {f : α → Task E R ε β}
    (h : EmitsTask (fun a own' => EmitsTask Q Er (f a) own') Er p own) :
    EmitsTask Q Er (p >>= f) own := PathRule.Task.bind (W := emitting) h

lemma EmitsTask.tryCatch {p : Task E R ε α} {f : ε → Task E R ε α}
    (h : EmitsTask Q (fun err own' => EmitsTask Q Er (f err) own') p own) :
    EmitsTask Q Er (tryCatch p f) own := PathRule.Task.tryCatch (W := emitting) h

/-- `Promise.all` over the members of a list: where it resolves it has done what all of them have
done, and what one that rejects has done stays so, whatever others did meanwhile. -/
lemma EmitsTask.promiseAll {Q : β → Deeds E R → Prop} {Er : Deeds E R → Prop}
    {f : β → Task E R ε α} (hEr : ∀ own more, Er own → Er (own + more)) :
    ∀ xs : List β, (∀ x ∈ xs, EmitsTask (fun _ => Q x) (fun _ => Er) (f x) 0) →
      EmitsTask (fun _ own => ∃ owns, List.Forall₂ Q xs owns ∧ own = owns.sum) (fun _ => Er)
        (promiseAll (xs.map f)) 0
  | [], _ => ⟨[], .nil, rfl⟩
  | x :: xs, h => by
    have hx : EmitsTask (fun _ => Q x) (fun _ => Er) (f x) 0 := h x (by simp)
    have hxs := EmitsTask.promiseAll hEr xs fun y hy => h y (by simp [hy])
    rw [← zero_add (0 : Deeds E R)]
    refine Emits.race ?_ ?_ hx hxs
    · intro r rest own own' hr hrest
      cases r with
      | error err => exact hEr own own' hr
      | ok a =>
        refine Emits.bind ((hrest.frame own).weaken ?_)
        rintro r' - ⟨more, hmore, rfl⟩
        cases r' with
        | error err =>
          rw [add_comm]
          exact hEr more own hmore
        | ok as =>
          obtain ⟨owns, howns, rfl⟩ := hmore
          exact ⟨own :: owns, .cons hr howns, rfl⟩
    · intro rest r own own' hrest hr
      rw [add_comm]
      cases r with
      | error err => exact hEr own' own hr
      | ok as =>
        refine Emits.bind ((hrest.frame own').weaken ?_)
        rintro r' - ⟨more, hmore, rfl⟩
        cases r' with
        | error err =>
          rw [add_comm]
          exact hEr more own' hmore
        | ok a =>
          obtain ⟨owns, howns, rfl⟩ := hr
          rw [add_comm]
          exact ⟨more :: owns, .cons hmore howns, rfl⟩

/-- What each member has done is done by all of them together. -/
lemma Deeds.le_sum {deed : β → Σ e : E, R e} {xs : List β} {owns : List (Deeds E R)}
    (h : List.Forall₂ (fun x own => {deed x} ≤ own) xs owns) : ↑(xs.map deed) ≤ owns.sum := by
  induction h with
  | nil => exact Multiset.zero_le _
  | cons hx _ ih =>
    rw [List.map_cons, ← Multiset.cons_coe, ← Multiset.singleton_add, List.sum_cons]
    exact add_le_add hx ih

end EmitsTask

/-! ### In a trace -/

/-- A program's own requests stand in the trace as often as it made them. -/
lemma Follows.tally {P : Guard E R T X} {t : T} {Q : α → Trace E R T X → Prop}
    {Q' : α → Deeds E R → Prop} {p : Prog E R α} {tr : Trace E R T X} {own : Deeds E R}
    (h : Follows P t Q p tr) (hown : Emits Q' p own)
    (hle : own.events X t ≤ (tr : Multiset (Event E R T X))) :
    Follows P t (fun a tr' => Q a tr' ∧ ∃ own', Q' a own' ∧
      own'.events X t ≤ (tr' : Multiset (Event E R T X))) p tr := by
  have hlater {tr' : Trace E R T X} (htr : tr <+: tr') :
      own.events X t ≤ (tr' : Multiset (Event E R T X)) :=
    hle.trans (Multiset.coe_le.mpr htr.sublist.subperm)
  induction p generalizing tr own with
  | pure a => exact fun tr' htr => ⟨h tr' htr, own, hown, hlater htr⟩
  | call e k ih =>
    intro tr' htr
    have hnext (r : R e) : Deeds.events X t (⟨e, r⟩ ::ₘ own) ≤
        ((tr' ++ [.call t e r] : Trace E R T X) : Multiset (Event E R T X)) := by
      rw [Deeds.events_cons, ← Multiset.coe_add, ← Multiset.singleton_add, add_comm]
      exact add_le_add (hlater htr) le_rfl
    exact ⟨(h tr' htr).1, fun r => ih r ((h tr' htr).2 r) (hown r) (hnext r) fun htr'' =>
      (hnext r).trans (Multiset.coe_le.mpr htr''.sublist.subperm)⟩
  | fork c k _ ihk => exact ⟨h.1, ihk h.2 hown hle hlater⟩
  | amb l r ihl ihr => exact ⟨ihl h.1 hown.1 hle hlater, ihr h.2 hown.2 hle hlater⟩

lemma FollowsTask.tally {P : Guard E R T X} {t : T} {Q : α → Trace E R T X → Prop}
    {Er : ε → Trace E R T X → Prop} {Q' : α → Deeds E R → Prop} {p : Task E R ε α}
    {tr : Trace E R T X} (h : FollowsTask P t Q Er p tr)
    (hown : EmitsTask Q' (fun _ _ => True) p 0) :
    FollowsTask P t (fun a tr' => Q a tr' ∧ ∃ own, Q' a own ∧
      own.events X t ≤ (tr' : Multiset (Event E R T X))) Er p tr := by
  refine Follows.weaken (Follows.tally h hown (Multiset.zero_le _)) ?_
  rintro r tr' - ⟨hr, own, hdone, hle⟩
  cases r with
  | ok a => exact ⟨hr, own, hdone, hle⟩
  | error err => exact hr

end Async
