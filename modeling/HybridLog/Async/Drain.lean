import HybridLog.Async.Duties
import HybridLog.Async.Inevitable
import Mathlib.Data.Prod.Lex
import Mathlib.Logic.Hydra
import Mathlib.Tactic.Abel

/-!
# Draining a pool

Once no more work comes in from outside, a pool comes to rest if each step takes a piece of work
away and leaves less of it: the rest of a program instead of the program, or pieces of a lower level
than the one that was taken. Pieces of work are the running programs, each with the level of its
tag, and what the shared state has in store. What is left is compared as a multiset.
-/

namespace Async

variable {E : Type} {R : E → Type} {T X S K : Type}

/-! ### Programs -/

/-- A program, whatever it returns. -/
abbrev SomeProg (E : Type) (R : E → Type) := Σ α : Type, Prog E R α

/-- What may run of a program after its next step. -/
inductive Rest : SomeProg E R → SomeProg E R → Prop
  | call {α : Type} {e : E} {k : R e → Prog E R α} (r : R e) : Rest ⟨α, k r⟩ ⟨α, .call e k⟩
  | child {α : Type} {c : Prog E R Unit} {k : Prog E R α} : Rest ⟨Unit, c⟩ ⟨α, .fork c k⟩
  | next {α : Type} {c : Prog E R Unit} {k : Prog E R α} : Rest ⟨α, k⟩ ⟨α, .fork c k⟩
  | left {α : Type} {p q : Prog E R α} : Rest ⟨α, p⟩ ⟨α, .amb p q⟩
  | right {α : Type} {p q : Prog E R α} : Rest ⟨α, q⟩ ⟨α, .amb p q⟩

theorem Rest.wellFounded : WellFounded (Rest (E := E) (R := R)) := by
  constructor
  rintro ⟨α, p⟩
  induction p with
  | pure a =>
    constructor
    intro _ h
    cases h
  | call e k ih =>
    constructor
    rintro _ ⟨r⟩
    exact ih r
  | fork c k ihc ihk =>
    constructor
    rintro _ (_ | _)
    · exact ihc
    · exact ihk
  | amb p q ihp ihq =>
    constructor
    rintro _ (_ | _)
    · exact ihp
    · exact ihq

/-! ### Work -/

/-- A piece of work: its level and the program that does it. -/
abbrev Work (E : Type) (R : E → Type) := ℕ × SomeProg E R

abbrev Less : Work E R → Work E R → Prop := Prod.Lex (· < ·) Rest

theorem Less.wellFounded : WellFounded (Less (E := E) (R := R)) :=
  WellFounded.prod_lex wellFounded_lt Rest.wellFounded

/-- A piece of work that no program does yet. -/
def Work.stored (n : ℕ) : Work E R := (n, ⟨Unit, .pure ()⟩)

/-- A piece of work is taken away, and what comes instead is less than it. -/
def Eased (m' m : Multiset (Work E R)) : Prop :=
  ∃ a new, (∀ b ∈ new, Less b a) ∧ m' + {a} ≤ m + new

lemma cutExpand_le {ι : Type*} (r : ι → ι → Prop) (m d : Multiset ι) :
    Relation.ReflTransGen (Relation.CutExpand r) m (m + d) := by
  induction d using Multiset.induction with
  | empty =>
    rw [add_zero]
  | cons a d ih =>
    refine ih.tail ⟨0, a, fun b hb => (Multiset.notMem_zero b hb).elim, ?_⟩
    rw [add_zero, ← Multiset.singleton_add, add_comm {a} d, add_assoc]

/-- Work cannot be eased for ever. -/
theorem Eased.wellFounded : WellFounded (Eased (E := E) (R := R)) := by
  refine Subrelation.wf ?_ (WellFounded.cutExpand (Less.wellFounded (E := E) (R := R))).transGen
  rintro m' m ⟨a, new, hnew, hle⟩
  obtain ⟨d, hd⟩ := Multiset.le_iff_exists_add.mp hle
  -- `d` is dropped besides
  refine .tail' (cutExpand_le Less m' d) ⟨new, a, hnew, ?_⟩
  rw [hd, add_right_comm]

lemma Eased.mono {m₁ m₂ m₁' m₂' : Multiset (Work E R)} (h : Eased m₁ m₂) (h₁ : m₁' ≤ m₁)
    (h₂ : m₂ ≤ m₂') : Eased m₁' m₂' := by
  obtain ⟨a, new, hnew, hle⟩ := h
  exact ⟨a, new, hnew, (add_le_add_left h₁ _).trans (hle.trans (add_le_add_left h₂ _))⟩

/-! ### Pools -/

/-- The levels of the programs, and the levels of what is in store. -/
structure Workload (T S : Type) where
  level : T → ℕ
  stored : S → Multiset ℕ

namespace Workload

variable (W : Workload T S)

/-- The work of some running programs. -/
def ofProcs (ps : List (T × Prog E R Unit)) : Multiset (Work E R) :=
  (ps.map fun p => ((W.level p.1, ⟨Unit, p.2⟩) : Work E R) : List (Work E R))

def ofState (s : S) : Multiset (Work E R) := (W.stored s).map Work.stored

def ofConfig (c : Config E R T X S) : Multiset (Work E R) :=
  W.ofProcs c.procs + W.ofState c.world.state

variable {W}

lemma ofProcs_append (l l' : List (T × Prog E R Unit)) :
    W.ofProcs (l ++ l') = W.ofProcs l + W.ofProcs l' := by
  simp [ofProcs]

lemma ofProcs_cons (p : T × Prog E R Unit) (l : List (T × Prog E R Unit)) :
    W.ofProcs (p :: l) = {(W.level p.1, ⟨Unit, p.2⟩)} + W.ofProcs l := by
  simp [ofProcs]

end Workload

/-- The machine with the outside events of `quiet` only. -/
def Machine.only (quiet : X → Bool) (M : Machine E R T X S) : Machine E R T X S where
  apply := M.apply
  accept x s := if quiet x then M.accept x s else none

lemma Machine.only_accept {M : Machine E R T X S} {quiet : X → Bool} {x : X} {s : S}
    {o : S × List (T × Prog E R Unit)} (h : (M.only quiet).accept x s = some o) :
    quiet x = true ∧ M.accept x s = some o := by
  simp only [only] at h
  split at h
  · next hx => exact ⟨hx, h⟩
  · cases h

lemma Step.of_only {M : Machine E R T X S} {quiet : X → Bool} {c c' : Config E R T X S}
    (h : Step (M.only quiet) c c') : Step M c c' := by
  cases h with
  | call h => exact .call h
  | fork => exact .fork
  | left => exact .left
  | right => exact .right
  | done => exact .done
  | ext h => exact .ext (Machine.only_accept h).2

/-- The machine with the outside events that `ok` lets in. -/
def Machine.restrict (ok : X → S → Bool) (M : Machine E R T X S) : Machine E R T X S where
  apply := M.apply
  accept x s := if ok x s then M.accept x s else none

lemma Machine.restrict_accept {M : Machine E R T X S} {ok : X → S → Bool} {x : X} {s : S}
    {o : S × List (T × Prog E R Unit)} (h : (M.restrict ok).accept x s = some o) :
    ok x s = true ∧ M.accept x s = some o := by
  simp only [restrict] at h
  split at h
  · next hx => exact ⟨hx, h⟩
  · cases h

lemma Step.of_restrict {M : Machine E R T X S} {ok : X → S → Bool} {c c' : Config E R T X S}
    (h : Step (M.restrict ok) c c') : Step M c c' := by
  cases h with
  | call h => exact .call h
  | fork => exact .fork
  | left => exact .left
  | right => exact .right
  | done => exact .done
  | ext h => exact .ext (Machine.restrict_accept h).2

lemma Run.of_restrict {M : Machine E R T X S} {ok : X → S → Bool} {c c' : Config E R T X S}
    (h : Run (M.restrict ok) c c') : Run M c c' := by
  induction h with
  | refl => exact .refl
  | tail _ hstep ih => exact ih.tail hstep.of_restrict

/-- One outside event of `back`. -/
inductive Outside (M : Machine E R T X S) (back : X → Bool) :
    Config E R T X S → Config E R T X S → Prop
  | ext {c : Config E R T X S} {x : X} {s : S} {ps : List (T × Prog E R Unit)}
    (hx : back x = true) (h : M.accept x c.world.state = some (s, ps)) :
    Outside M back c ⟨c.world.push (.ext x) s, c.procs ++ ps⟩

/-- Any number of outside events of `back`, and then a step of a program or an event of `quiet`. -/
def Onward (M : Machine E R T X S) (quiet back : X → Bool) (c c' : Config E R T X S) : Prop :=
  ∃ c₁, Relation.ReflTransGen (Outside M back) c c₁ ∧ Step (M.only quiet) c₁ c'

/-- Every step of a program and every event of `quiet` takes work away and adds less, and the events
of `back` add none. -/
structure Workload.Falls (W : Workload T S) (M : Machine E R T X S) (quiet back : X → Bool)
    (Inv : Config E R T X S → Prop) : Prop where
  call : ∀ {w l l' t e k r s}, Inv ⟨w, l ++ (t, .call e k) :: l'⟩ →
    M.apply t e r w.state = some s →
      ∃ new, (∀ n ∈ new, n < W.level t) ∧ W.stored s ≤ W.stored w.state + new
  quiet : ∀ {c x s ps}, Inv c → quiet x = true → M.accept x c.world.state = some (s, ps) →
    ∃ n new, (∀ m ∈ new, m < n) ∧ (∀ p ∈ ps, W.level p.1 < n) ∧
      W.stored s + {n} ≤ W.stored c.world.state + new
  back : ∀ {c x s ps}, Inv c → back x = true → M.accept x c.world.state = some (s, ps) →
    ps = [] ∧ W.stored s ≤ W.stored c.world.state

namespace Workload.Falls

variable {W : Workload T S} {M : Machine E R T X S} {quiet back : X → Bool}
  {Inv : Config E R T X S → Prop}

/-- So it is where fewer outside events are let in. -/
lemma restrict (h : W.Falls M quiet back Inv) (ok : X → S → Bool)
    {Inv' : Config E R T X S → Prop} (hinv : ∀ c, Inv' c → Inv c) :
    W.Falls (M.restrict ok) quiet back Inv' where
  call hc hs := h.call (hinv _ hc) hs
  quiet hc hx hs := h.quiet (hinv _ hc) hx (Machine.restrict_accept hs).2
  back hc hx hs := h.back (hinv _ hc) hx (Machine.restrict_accept hs).2

/-- A program is replaced by what may run of it after its next step. -/
lemma eased_replace {w : World E R T X S} {l l' : List (T × Prog E R Unit)}
    {t : T} {p : Prog E R Unit} (new : List (Prog E R Unit))
    (hnew : ∀ q ∈ new, Rest ⟨Unit, q⟩ ⟨Unit, p⟩) :
    Eased (W.ofConfig ⟨w, l ++ (new.map (Prod.mk t) ++ l')⟩)
      (W.ofConfig ⟨w, l ++ (t, p) :: l'⟩) := by
  refine ⟨(W.level t, ⟨Unit, p⟩), W.ofProcs (new.map (Prod.mk t)), ?_, le_of_eq ?_⟩
  · intro b hb
    simp only [ofProcs, List.map_map, Multiset.mem_coe, List.mem_map] at hb
    obtain ⟨q, hq, rfl⟩ := hb
    exact .right _ (hnew q hq)
  · simp only [ofConfig, ofProcs_append, ofProcs_cons]
    abel

lemma eased (h : W.Falls M quiet back Inv) {c c' : Config E R T X S} (hc : Inv c)
    (hstep : Step (M.only quiet) c c') : Eased (W.ofConfig c') (W.ofConfig c) := by
  cases hstep with
  | @call w l l' t e k r s hs =>
    obtain ⟨new, hnew, hle⟩ := h.call hc hs
    refine ⟨(W.level t, ⟨Unit, .call e k⟩),
      {(W.level t, ⟨Unit, k r⟩)} + new.map Work.stored, ?_, ?_⟩
    · intro b hb
      rcases Multiset.mem_add.mp hb with hb | hb
      · rw [Multiset.mem_singleton.mp hb]
        exact .right _ (.call r)
      · obtain ⟨n, hn, rfl⟩ := Multiset.mem_map.mp hb
        exact .left _ _ (hnew n hn)
    · have hstate : W.ofState s ≤ W.ofState w.state + new.map (Work.stored (E := E) (R := R)) := by
        simpa only [ofState, Multiset.map_add] using Multiset.map_le_map hle
      simp only [ofConfig, ofProcs_append, ofProcs_cons, World.push_state]
      calc _ = W.ofProcs l + ({(W.level t, ⟨Unit, k r⟩)} + W.ofProcs l') +
            {(W.level t, ⟨Unit, .call e k⟩)} + W.ofState s := by abel
        _ ≤ W.ofProcs l + ({(W.level t, ⟨Unit, k r⟩)} + W.ofProcs l') +
            {(W.level t, ⟨Unit, .call e k⟩)} + (W.ofState w.state + new.map Work.stored) :=
          add_le_add_right hstate _
        _ = _ := by abel
  | @fork w l l' t c k =>
    refine eased_replace [k, c] fun q hq => ?_
    rcases List.mem_pair.mp hq with rfl | rfl
    · exact .next
    · exact .child
  | @left w l l' t p q =>
    refine eased_replace [p] fun q hq => ?_
    cases List.mem_singleton.mp hq
    exact .left
  | @right w l l' t p q =>
    refine eased_replace [q] fun q hq => ?_
    cases List.mem_singleton.mp hq
    exact .right
  | @done w l l' t => exact eased_replace [] (by simp)
  | @ext w l x s ps hs =>
    obtain ⟨hx, hs⟩ := Machine.only_accept hs
    obtain ⟨n, new, hnew, hps, hle⟩ := h.quiet hc hx hs
    refine ⟨Work.stored n, W.ofProcs ps + new.map Work.stored, ?_, ?_⟩
    · intro b hb
      rcases Multiset.mem_add.mp hb with hb | hb
      · obtain ⟨p, hp, rfl⟩ := List.mem_map.mp hb
        exact .left _ _ (hps p hp)
      · obtain ⟨m, hm, rfl⟩ := Multiset.mem_map.mp hb
        exact .left _ _ (hnew m hm)
    · have hstate : W.ofState s + {Work.stored n} ≤
          W.ofState w.state + new.map (Work.stored (E := E) (R := R)) := by
        simpa only [ofState, Multiset.map_add, Multiset.map_singleton] using
          Multiset.map_le_map hle
      simp only [ofConfig, ofProcs_append, World.push_state]
      calc _ = W.ofProcs l + W.ofProcs ps + (W.ofState s + {Work.stored n}) := by abel
        _ ≤ W.ofProcs l + W.ofProcs ps + (W.ofState w.state + new.map Work.stored) :=
          add_le_add_right hstate _
        _ = _ := by abel

lemma le_of_outside (h : W.Falls M quiet back Inv) {c c' : Config E R T X S} (hc : Inv c)
    (hstep : Outside M back c c') : W.ofConfig c' ≤ W.ofConfig c := by
  cases hstep with
  | ext hx hs =>
    obtain ⟨rfl, hle⟩ := h.back hc hx hs
    simp only [ofConfig, List.append_nil, World.push_state]
    exact add_le_add_right (Multiset.map_le_map hle) _

/-- The pool comes to rest: from a configuration with the invariant it cannot go on for ever, and
some step is possible until `P`. -/
theorem inevitable (h : W.Falls M quiet back Inv) {P : Config E R T X S → Prop}
    (hinv : ∀ {c c'}, Inv c → Step M c c' → Inv c')
    (hgo : ∀ c, Inv c → ¬P c → ∃ c', Step (M.only quiet) c c')
    {c : Config E R T X S} (hc : Inv c) : Inevitable (Onward M quiet back) P c := by
  have houtside {c c₁ : Config E R T X S} (hc : Inv c)
      (hrun : Relation.ReflTransGen (Outside M back) c c₁) :
      Inv c₁ ∧ W.ofConfig c₁ ≤ W.ofConfig c := by
    induction hrun with
    | refl => exact ⟨hc, le_rfl⟩
    | tail _ hstep ih =>
      refine ⟨hinv ih.1 ?_, (h.le_of_outside ih.1 hstep).trans ih.2⟩
      cases hstep with
      | ext _ hs => exact .ext hs
  induction hm : W.ofConfig c using Eased.wellFounded.induction generalizing c with
  | h m ih =>
    by_cases hP : P c
    · exact .now hP
    · refine .next ?_ fun c' => ?_
      · obtain ⟨c', hc'⟩ := hgo c hc hP
        exact ⟨c', c, .refl, hc'⟩
      · rintro ⟨c₁, hrun, hstep⟩
        obtain ⟨hc₁, hle⟩ := houtside hc hrun
        refine ih _ ?_ (hinv hc₁ hstep.of_only) rfl
        rw [← hm]
        exact (h.eased hc₁ hstep).mono le_rfl hle

end Workload.Falls

/-! ### Waiting -/

/-- Where every request that does not wait can be answered, and every program that waits, waits for
a duty that is due, a pool with attended duties can go on or keeps a duty for later. -/
theorem Assured.go {D : Duties E R T S K} {M : Machine E R T X S} {c : Config E R T X S}
    (h : Assured D c) (hne : c.procs ≠ [])
    (hanswer : ∀ t e s, ¬D.waits e → ∃ r s', M.apply t e r s = some s')
    (hwait : ∀ p ∈ c.procs, ∀ e k, p.2 = .call e k → D.waits e →
      (∃ r s', M.apply p.1 e r c.world.state = some s') ∨ ∃ d, D.due c.world.state d)
    (quiet : X → Bool) :
    (∃ c', Step (M.only quiet) c c') ∨ ∃ d, D.kept c.world.state d := by
  by_cases hgo : ∃ c', Step (M.only quiet) c c'
  · exact .inl hgo
  right
  apply h.kept_of_waiting hne
  rintro ⟨t, p⟩ hp
  obtain ⟨l, l', hsplit⟩ := List.append_of_mem hp
  obtain ⟨w, procs⟩ := c
  cases hsplit
  cases p with
  | pure a => exact (hgo ⟨_, .done⟩).elim
  | fork c k => exact (hgo ⟨_, .fork⟩).elim
  | amb p q => exact (hgo ⟨_, .left⟩).elim
  | call e k =>
    have hstuck : ¬∃ r s', M.apply t e r w.state = some s' := fun ⟨r, s', hs⟩ =>
      hgo ⟨_, .call hs⟩
    by_cases he : D.waits e
    · exact ⟨e, k, rfl, he, (hwait _ hp e k rfl he).resolve_left hstuck⟩
    · exact (hstuck (hanswer t e w.state he)).elim

end Async
