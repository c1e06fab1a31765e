import HybridLog.Async.Guard
import HybridLog.Async.Rules
import Mathlib.Algebra.Group.Submonoid.Defs
import Mathlib.Algebra.Order.Group.Multiset
import Mathlib.Tactic.Abel

/-!
# Dues

A program starts with dues. Some of its requests add to them and some pay a part of them; `Pays`
follows what is left along every path. In a pool nothing is paid twice: what the outside events and
the answered requests have charged is what the answered requests have paid together with the dues of
the programs that still run and what programs have left unpaid.

Only answers that a `Tariff` allows are looked at.
-/

namespace Async

/-- What an answered request of a program adds to its dues and what it pays of them, what programs
may leave unpaid, and the events considered. -/
structure Tariff (E : Type) (R : E → Type) (T X K : Type) where
  allowed : Event E R T X → Prop
  gain : T → (e : E) → R e → Multiset K
  cost : T → (e : E) → R e → Multiset K
  left : AddSubmonoid (Multiset K)

variable {E : Type} {R : E → Type} {T X S K : Type} {α β γ ε : Type}

section Pays

variable (L : Tariff E R T X K) (t : T)

/-- Program `p`, with dues `m`, returns with a value and dues as in `Q` whatever the allowed
answers are. Programs it leaves running start without dues. -/
def Pays : {α : Type} → (Q : α → Multiset K → Prop) → Prog E R α → Multiset K → Prop
  | _, Q, .pure a, m => Q a m
  | _, Q, .call e k, m => ∀ r, L.allowed (.call t e r) →
      ∃ m', m + L.gain t e r = L.cost t e r + m' ∧ Pays Q (k r) m'
  | _, Q, .fork c k, m => Pays (fun _ m' => m' ∈ L.left) c 0 ∧ Pays Q k m
  | _, Q, .amb l r, m => Pays Q l m ∧ Pays Q r m

variable {L t}

lemma Pays.weaken {Q Q' : α → Multiset K → Prop} {p : Prog E R α} {m : Multiset K}
    (h : Pays L t Q p m) (hQ : ∀ a m', Q a m' → Q' a m') : Pays L t Q' p m := by
  induction p generalizing m with
  | pure a => exact hQ a m h
  | call e k ih =>
    intro r hr
    obtain ⟨m', hm, hk⟩ := h r hr
    exact ⟨m', hm, ih r hk hQ⟩
  | fork c k _ ihk => exact ⟨h.1, ihk h.2 hQ⟩
  | amb l r ihl ihr => exact ⟨ihl h.1 hQ, ihr h.2 hQ⟩

lemma Pays.bind {Q : β → Multiset K → Prop} {p : Prog E R α} {f : α → Prog E R β}
    {m : Multiset K} (h : Pays L t (fun a m' => Pays L t Q (f a) m') p m) :
    Pays L t Q (p.bind f) m := by
  induction p generalizing m with
  | pure a => exact h
  | call e k ih =>
    intro r hr
    obtain ⟨m', hm, hk⟩ := h r hr
    exact ⟨m', hm, ih r hk⟩
  | fork c k _ ihk => exact ⟨h.1, ihk h.2⟩
  | amb l r ihl ihr => exact ⟨ihl h.1, ihr h.2⟩

/-- What a program owes is paid by some request of it, or it returns with it. -/
lemma Pays.mem {Q : α → Multiset K → Prop} {p : Prog E R α} {m : Multiset K} (h : Pays L t Q p m)
    (hr : ∀ e, ∃ r, L.allowed (.call t e r)) {k : K} (hk : k ∈ m) :
    (∃ a m', Q a m' ∧ k ∈ m') ∨ ∃ e r, k ∈ L.cost t e r := by
  induction p generalizing m with
  | pure a => exact .inl ⟨a, m, h, hk⟩
  | call e g ih =>
    obtain ⟨r, hallowed⟩ := hr e
    obtain ⟨m', hm, hg⟩ := h r hallowed
    have hmem : k ∈ L.cost t e r + m' := by
      rw [← hm]
      exact Multiset.mem_add.mpr (.inl hk)
    rcases Multiset.mem_add.mp hmem with hcost | hrest
    · exact .inr ⟨e, r, hcost⟩
    · exact ih r hg hrest
  | fork c g _ ihg => exact ihg h.2 hk
  | amb l r ihl _ => exact ihl h.1 hk

/-- A request of a program tagged `t` that leaves its dues as they are. -/
def Tariff.Free (L : Tariff E R T X K) (t : T) (e : E) : Prop :=
  ∀ r, L.gain t e r = 0 ∧ L.cost t e r = 0

/-- A program under a tag that nothing is charged or paid for. -/
lemma Pays.idle (hfree : ∀ e, L.Free t e) {Q : α → Multiset K → Prop} {p : Prog E R α}
    (hl : ∀ a, Q a 0) : Pays L t Q p 0 := by
  induction p with
  | pure a => exact hl a
  | call e k ih =>
    intro r _
    refine ⟨0, ?_, ih r hl⟩
    rw [(hfree e r).1, (hfree e r).2]
  | fork c k ihc ihk => exact ⟨ihc fun _ => L.left.zero_mem, ihk hl⟩
  | amb l r ihl ihr => exact ⟨ihl hl, ihr hl⟩

/-- A program whose requests are all free keeps its dues, whatever it returns. -/
lemma Pays.of_free {Q : α → Trace E R T X → Prop} {p : Prog E R α} {tr : Trace E R T X}
    (h : Follows (fun t e _ => L.Free t e) t Q p tr) (m : Multiset K) :
    Pays L t (fun a m' => (∃ tr', Q a tr') ∧ m' = m) p m := by
  induction p generalizing tr m with
  | pure a => exact ⟨⟨tr, h tr List.prefix_rfl⟩, rfl⟩
  | call e k ih =>
    intro r _
    obtain ⟨hfree, hk⟩ := h tr List.prefix_rfl
    refine ⟨m, ?_, ih r (hk r) m⟩
    rw [(hfree r).1, (hfree r).2, add_zero, zero_add]
  | fork c k ihc ihk =>
    refine ⟨(ihc h.1 0).weaken ?_, ihk h.2 m⟩
    rintro _ _ ⟨-, rfl⟩
    exact L.left.zero_mem
  | amb l r ihl ihr => exact ⟨ihl h.1 m, ihr h.2 m⟩

/-- Other dues wait until the program has returned. -/
lemma Pays.frame {Q : α → Multiset K → Prop} {p : Prog E R α} {m : Multiset K}
    (h : Pays L t Q p m) (n : Multiset K) :
    Pays L t (fun a m' => ∃ m₁, Q a m₁ ∧ m' = n + m₁) p (n + m) := by
  induction p generalizing m with
  | pure a => exact ⟨m, h, rfl⟩
  | call e k ih =>
    intro r hr
    obtain ⟨m', hm, hk⟩ := h r hr
    refine ⟨n + m', ?_, ih r hk⟩
    rw [add_assoc, hm, add_left_comm]
  | fork c k _ ihk => exact ⟨h.1, ihk h.2⟩
  | amb l r ihl ihr => exact ⟨ihl h.1, ihr h.2⟩

lemma Pays.race {Ql : α → Multiset K → Prop} {Qr : β → Multiset K → Prop}
    {Q : γ → Multiset K → Prop} {onLeft : α → Prog E R β → Prog E R γ}
    {onRight : Prog E R α → β → Prog E R γ} {p : Prog E R α} {q : Prog E R β} {m n : Multiset K}
    (hl : ∀ a q m n, Ql a m → Pays L t Qr q n → Pays L t Q (onLeft a q) (m + n))
    (hr : ∀ p b m n, Pays L t Ql p m → Qr b n → Pays L t Q (onRight p b) (m + n))
    (hp : Pays L t Ql p m) (hq : Pays L t Qr q n) :
    Pays L t Q (Prog.race onLeft onRight p q) (m + n) := by
  induction p generalizing q m n with
  | pure a => exact hl a q m n hp hq
  | fork c k _ ihk => exact ⟨hp.1, ihk hl hr hp.2 hq⟩
  | amb l r ihl ihr => exact ⟨ihl hl hr hp.1 hq, ihr hl hr hp.2 hq⟩
  | call e k ih =>
    simp only [Prog.race]
    induction q generalizing m n with
    | pure b => exact hr _ b m n hp hq
    | fork c q _ ihq => exact ⟨hq.1, ihq ih hl hr hp hq.2⟩
    | amb q₁ q₂ ih₁ ih₂ => exact ⟨ih₁ ih hl hr hp hq.1, ih₂ ih hl hr hp hq.2⟩
    | call f g ihg =>
      constructor
      · intro r hallow
        obtain ⟨m', hm, hk⟩ := hp r hallow
        refine ⟨m' + n, ?_, ih r hl hr hk hq⟩
        rw [add_right_comm, hm, add_assoc]
      · intro r hallow
        obtain ⟨n', hn, hk⟩ := hq r hallow
        refine ⟨m + n', ?_, ihg r ih hl hr hp hk⟩
        rw [add_assoc, hn, add_left_comm]

end Pays

/-! ### Tasks -/

section PaysTask

variable (L : Tariff E R T X K) (t : T)

/-- `Pays` for a task, with one condition for each way it ends. -/
def PaysTask (Q : α → Multiset K → Prop) (Er : ε → Multiset K → Prop) (p : Task E R ε α)
    (m : Multiset K) : Prop :=
  Pays L t (fun
    | .ok a => Q a
    | .error err => Er err) p.run m

/-- Dues are followed along every path. -/
def paying : PathRule E R (Multiset K) := ⟨Pays L t, Pays.weaken, Pays.bind, fun h => h⟩

variable {L t} {Q Q' : α → Multiset K → Prop} {Er Er' : ε → Multiset K → Prop} {m : Multiset K}

lemma PaysTask.weaken {p : Task E R ε α} (h : PaysTask L t Q Er p m)
    (hQ : ∀ a m', Q a m' → Q' a m') (hEr : ∀ err m', Er err m' → Er' err m') :
    PaysTask L t Q' Er' p m := PathRule.Task.weaken (W := paying L t) h hQ hEr

lemma PaysTask.pure {a : α} (h : Q a m) : PaysTask L t Q Er (pure a : Task E R ε α) m := h

lemma PaysTask.throw {err : ε} (h : Er err m) :
    PaysTask L t Q Er (throw err : Task E R ε α) m := h

lemma PaysTask.request {e : E} {k : R e → Except ε α}
    (h : ∀ r, L.allowed (.call t e r) → ∃ m', m + L.gain t e r = L.cost t e r + m' ∧ match k r with
      | .ok a => Q a m'
      | .error err => Er err m') : PaysTask L t Q Er (Task.request e k) m := by
  intro r hr
  obtain ⟨m', hm, hk⟩ := h r hr
  refine ⟨m', hm, ?_⟩
  show Pays L t _ (Prog.pure (k r)) m'
  cases hkr : k r with
  | ok a =>
    rw [hkr] at hk
    exact hk
  | error err =>
    rw [hkr] at hk
    exact hk

lemma PaysTask.spawn {Q : Unit → Multiset K → Prop} {c : Prog E R Unit}
    (hc : Pays L t (fun _ m' => m' ∈ L.left) c 0) (h : Q () m) :
    PaysTask L t Q Er (Task.spawn c) m := ⟨hc, h⟩

lemma PaysTask.bind {Q : β → Multiset K → Prop} {p : Task E R ε α} {f : α → Task E R ε β}
    (h : PaysTask L t (fun a m' => PaysTask L t Q Er (f a) m') Er p m) :
    PaysTask L t Q Er (p >>= f) m := PathRule.Task.bind (W := paying L t) h

lemma PaysTask.tryCatch {p : Task E R ε α} {f : ε → Task E R ε α}
    (h : PaysTask L t Q (fun err m' => PaysTask L t Q Er (f err) m') p m) :
    PaysTask L t Q Er (tryCatch p f) m := PathRule.Task.tryCatch (W := paying L t) h

lemma PaysTask.finallyDo {p : Task E R ε α} {f : Task E R ε Unit}
    (h : PaysTask L t (fun a m' => PaysTask L t (fun _ => Q a) Er f m')
      (fun err m' => PaysTask L t (fun _ => Er err) Er f m') p m) :
    PaysTask L t Q Er (p.finallyDo f) m := PathRule.Task.finallyDo (W := paying L t) h

/-- A task whose requests are all free. -/
lemma PaysTask.of_free {P : Guard E R T X} {Q : α → Trace E R T X → Prop}
    {Er : ε → Trace E R T X → Prop} {p : Task E R ε α} {tr : Trace E R T X}
    (h : FollowsTask P t Q Er p tr) (hfree : ∀ e tr', P t e tr' → L.Free t e)
    (m : Multiset K) :
    PaysTask L t (fun a m' => (∃ tr', Q a tr') ∧ m' = m)
      (fun err m' => (∃ tr', Er err tr') ∧ m' = m) p m := by
  apply Pays.weaken (Pays.of_free (Follows.allow h fun e tr' _ => hfree e tr') m)
  intro r m' hr
  cases r with
  | ok a => exact hr
  | error err => exact hr

lemma PaysTask.detach {p : Task E R ε α}
    (h : PaysTask L t (fun _ m' => m' ∈ L.left) (fun _ m' => m' ∈ L.left) p m) :
    Pays L t (fun _ m' => m' ∈ L.left) p.run.detach m :=
  PathRule.Task.detach (W := paying L t) (C := fun m' => m' ∈ L.left) h

/-- Members that never reject and leave nothing but what may be left. -/
lemma PaysTask.promiseAll {f : β → Task E R ε α} :
    ∀ xs : List β,
      (∀ x ∈ xs, PaysTask L t (fun _ m' => m' ∈ L.left) (fun _ _ => False) (f x) 0) →
      PaysTask L t (fun _ m' => m' ∈ L.left) (fun _ _ => False) (promiseAll (xs.map f)) 0
  | [], _ => L.left.zero_mem
  | x :: xs, h => by
    have hx := h x (by simp)
    have hxs := PaysTask.promiseAll xs fun y hy => h y (by simp [hy])
    rw [← zero_add (0 : Multiset K)]
    refine Pays.race ?_ ?_ hx hxs
    · intro r rest m n hr hrest
      cases r with
      | error err => exact hr.elim
      | ok a =>
        refine Pays.bind ((hrest.frame m).weaken ?_)
        rintro r' - ⟨n', hn', rfl⟩
        cases r' with
        | error err => exact hn'.elim
        | ok as => exact L.left.add_mem hr hn'
    · intro rest r m n hrest hr
      cases r with
      | error err => exact hr.elim
      | ok as =>
        rw [add_comm]
        refine Pays.bind ((hrest.frame n).weaken ?_)
        rintro r' - ⟨m', hm', rfl⟩
        cases r' with
        | error err => exact hm'.elim
        | ok a => exact L.left.add_mem hr hm'

end PaysTask

/-! ### Dues of a pool -/

section Pool

variable (L : Tariff E R T X K)

/-- The programs of a pool have dues `m` together. -/
inductive PoolPays : List (T × Prog E R Unit) → Multiset K → Prop
  | nil : PoolPays [] 0
  | cons {p : T × Prog E R Unit} {ps : List (T × Prog E R Unit)} {m n : Multiset K}
    (h : Pays L p.1 (fun _ m' => m' ∈ L.left) p.2 m) (hs : PoolPays ps n) : PoolPays (p :: ps) (m + n)

variable {L}

lemma PoolPays.single {t : T} {p : Prog E R Unit} {m : Multiset K}
    (h : Pays L t (fun _ m' => m' ∈ L.left) p m) : PoolPays L [(t, p)] m := by
  rw [← add_zero m]
  exact .cons h .nil

lemma PoolPays.append {l l' : List (T × Prog E R Unit)} {m n : Multiset K} (h : PoolPays L l m)
    (h' : PoolPays L l' n) : PoolPays L (l ++ l') (m + n) := by
  induction h with
  | nil => rwa [List.nil_append, zero_add]
  | cons hp _ ih =>
    rw [List.cons_append, add_assoc]
    exact .cons hp ih

lemma PoolPays.split {l l' : List (T × Prog E R Unit)} {m : Multiset K}
    (h : PoolPays L (l ++ l') m) :
    ∃ m₁ m₂, m = m₁ + m₂ ∧ PoolPays L l m₁ ∧ PoolPays L l' m₂ := by
  induction l generalizing m with
  | nil => exact ⟨0, m, (zero_add m).symm, .nil, h⟩
  | cons p ps ih =>
    cases h with
    | @cons _ _ m n hp hs =>
      obtain ⟨m₁, m₂, rfl, h₁, h₂⟩ := ih hs
      exact ⟨m + m₁, m₂, (add_assoc m m₁ m₂).symm, .cons hp h₁, h₂⟩

/-- Programs under tags that nothing is charged or paid for. -/
lemma PoolPays.idle {ps : List (T × Prog E R Unit)} (h : ∀ p ∈ ps, ∀ e, L.Free p.1 e) :
    PoolPays L ps 0 := by
  induction ps with
  | nil => exact .nil
  | cons p ps ih =>
    rw [← add_zero (0 : Multiset K)]
    exact .cons (.idle (h p (List.mem_cons_self ..)) fun _ => L.left.zero_mem)
      (ih fun q hq => h q (List.mem_cons_of_mem _ hq))

/-- One program of the pool is replaced by others, which have what is left of its dues. -/
lemma PoolPays.replace {l l' : List (T × Prog E R Unit)} {p : T × Prog E R Unit}
    {m gained paid : Multiset K} (new : List (T × Prog E R Unit))
    (h : PoolPays L (l ++ p :: l') m)
    (hp : ∀ n, Pays L p.1 (fun _ m' => m' ∈ L.left) p.2 n →
      ∃ n', n + gained = paid + n' ∧ PoolPays L new n') :
    ∃ m', m + gained = paid + m' ∧ PoolPays L (l ++ (new ++ l')) m' := by
  obtain ⟨a, b, rfl, hl, h⟩ := h.split
  cases h with
  | @cons _ _ n c hn hl' =>
    obtain ⟨n', hn', hnew⟩ := hp n hn
    refine ⟨a + (n' + c), ?_, hl.append (hnew.append hl')⟩
    calc a + (n + c) + gained = a + (n + gained) + c := by abel
      _ = a + (paid + n') + c := by rw [hn']
      _ = paid + (a + (n' + c)) := by abel

/-- What an event pays. -/
def Tariff.paid (L : Tariff E R T X K) : Event E R T X → Multiset K
  | .call t e r => L.cost t e r
  | .ext _ => 0

/-- What an event charges a program with, the outside ones according to `charge`. -/
def Tariff.charged (L : Tariff E R T X K) (charge : X → Multiset K) : Event E R T X → Multiset K
  | .call t e r => L.gain t e r
  | .ext x => charge x

/-- A step: what its event charges is added to the dues, and what is neither paid nor owed after it
is left unpaid. -/
lemma PoolPays.step {M : Machine E R T X S} {charge : X → Multiset K}
    (hext : ∀ x s s' ps, M.accept x s = some (s', ps) → PoolPays L ps (charge x))
    {c c' : Config E R T X S} (hstep : Step M c c') {dues : Multiset K}
    (h : PoolPays L c.procs dues) (hall : ∀ ev ∈ c'.world.trace, L.allowed ev) :
    ∃ new dues' left, c'.world.trace = c.world.trace ++ new ∧ new.length ≤ 1 ∧
      PoolPays L c'.procs dues' ∧ left ∈ L.left ∧
        dues + (new.map (L.charged charge)).sum = (new.map L.paid).sum + dues' + left := by
  cases hstep with
  | @call w l l' t e k r s hs =>
    have hr : L.allowed (.call t e r) := hall _ (by simp)
    obtain ⟨dues', hdues, hpool'⟩ := h.replace [(t, k r)] fun n hn => by
      obtain ⟨n', hn', hk⟩ := hn r hr
      exact ⟨n', hn', .single hk⟩
    refine ⟨[.call t e r], dues', 0, rfl, le_rfl, hpool', L.left.zero_mem, ?_⟩
    simpa [Tariff.charged, Tariff.paid] using hdues
  | @fork w l l' t c k =>
    obtain ⟨dues', hdues, hpool'⟩ := h.replace [(t, k), (t, c)] fun n hn =>
      ⟨n, (add_comm n 0), by simpa using (PoolPays.single hn.2).append (.single hn.1)⟩
    exact ⟨[], dues', 0, by simp, Nat.zero_le _, hpool', L.left.zero_mem, by simpa using hdues⟩
  | @left w l l' t p q =>
    obtain ⟨dues', hdues, hpool'⟩ := h.replace [(t, p)] fun n hn =>
      ⟨n, (add_comm n 0), .single hn.1⟩
    exact ⟨[], dues', 0, by simp, Nat.zero_le _, hpool', L.left.zero_mem, by simpa using hdues⟩
  | @right w l l' t p q =>
    obtain ⟨dues', hdues, hpool'⟩ := h.replace [(t, q)] fun n hn =>
      ⟨n, (add_comm n 0), .single hn.2⟩
    exact ⟨[], dues', 0, by simp, Nat.zero_le _, hpool', L.left.zero_mem, by simpa using hdues⟩
  | @done w l l' t =>
    -- what the program has not paid is left
    obtain ⟨a, b, rfl, hl, h⟩ := h.split
    cases h with
    | @cons _ _ n m hn hl' =>
      refine ⟨[], a + m, n, by simp, Nat.zero_le _, hl.append hl', hn, ?_⟩
      simp only [List.map_nil, List.sum_nil, add_zero, zero_add]
      abel
  | @ext w l x s ps hs =>
    refine ⟨[.ext x], dues + charge x, 0, rfl, le_rfl, h.append (hext x w.state s ps hs),
      L.left.zero_mem, ?_⟩
    simp [Tariff.charged, Tariff.paid]

/-- In a run whose events are all allowed, what has been charged is what has been paid, the dues of
the programs that run, and what has been left unpaid. -/
theorem Reach.balanced {M : Machine E R T X S} {charge : X → Multiset K} {s₀ : S}
    (hext : ∀ x s s' ps, M.accept x s = some (s', ps) → PoolPays L ps (charge x))
    {c : Config E R T X S} (h : Reach M s₀ c) (hall : ∀ ev ∈ c.world.trace, L.allowed ev) :
    ∃ dues left, PoolPays L c.procs dues ∧ left ∈ L.left ∧
      (c.world.trace.map (L.charged charge)).sum =
        (c.world.trace.map L.paid).sum + dues + left := by
  induction h with
  | refl => exact ⟨0, 0, .nil, L.left.zero_mem, rfl⟩
  | @tail c₁ _ _ hstep ih =>
    obtain ⟨dues, left, hpool, hleft, hsum⟩ := ih fun ev hev => hall ev (hstep.trace_le.subset hev)
    obtain ⟨new, dues', left', htrace, -, hpool', hleft', hnew⟩ := hpool.step hext hstep hall
    refine ⟨dues', left + left', hpool', L.left.add_mem hleft hleft', ?_⟩
    rw [htrace, List.map_append, List.map_append, List.sum_append, List.sum_append, hsum]
    calc _ = (c₁.world.trace.map L.paid).sum + (dues + (new.map (L.charged charge)).sum) + left := by
          abel
      _ = _ := by
          rw [hnew]
          abel

end Pool

end Async
