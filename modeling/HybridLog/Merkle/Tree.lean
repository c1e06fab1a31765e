import Mathlib.Data.Set.Function
import Mathlib.Data.List.Nodup
import Mathlib.Logic.Function.Iterate

/-!
# Binary Merkle trees

A level of the tree is a list of nodes. The next level pairs them up in order; the last node of an
odd level is paired with itself. The tree has no separation between leaves and inner nodes, so a
level of the tree is itself a list of leaves with the same root; `root_eq_root` says that without
repeated leaves this is the only way for two lists to share a root.
-/

namespace Merkle

variable {α : Type*}

/-! ### Levels -/

/-- The pairs of nodes that are hashed to build the next level. -/
def pairs : List α → List (α × α)
  | [] => []
  | [a] => [(a, a)]
  | a :: b :: rest => (a, b) :: pairs rest

/-- The next level of the tree. -/
def level (node : α → α → α) (l : List α) : List α :=
  (pairs l).map fun p => node p.1 p.2

/-- Go up while there is more than one node, at most `n` times. -/
def climb (node : α → α → α) : ℕ → List α → List α
  | 0, l => l
  | n + 1, l => if 1 < l.length then climb node n (level node l) else l

/-- The root of the tree over the leaves `l`, if there are leaves. -/
def root (node : α → α → α) (l : List α) : Option α :=
  (climb node l.length l).head?

@[simp] lemma pairs_length : ∀ l : List α, (pairs l).length = (l.length + 1) / 2
  | [] => by simp [pairs]
  | [_] => by simp [pairs]
  | a :: b :: rest => by
    simp only [pairs, List.length_cons, pairs_length rest]
    omega

@[simp] lemma level_length (node : α → α → α) (l : List α) :
    (level node l).length = (l.length + 1) / 2 := by
  simp [level]

/-- The left halves of the pairs are nodes of the level, in order. -/
lemma fst_pairs_sublist : ∀ l : List α, ((pairs l).map Prod.fst).Sublist l
  | [] => .slnil
  | [_] => List.Sublist.refl _
  | _ :: b :: rest => ((fst_pairs_sublist rest).cons b).cons_cons _

lemma fst_mem_of_mem_pairs {l : List α} {p : α × α} (h : p ∈ pairs l) : p.1 ∈ l :=
  (fst_pairs_sublist l).subset (List.mem_map_of_mem h)

lemma snd_mem_of_mem_pairs : ∀ {l : List α} {p : α × α}, p ∈ pairs l → p.2 ∈ l
  | [_], p, h => by
    simp only [pairs, List.mem_singleton] at h
    simp [h]
  | a :: b :: rest, p, h => by
    rcases List.mem_cons.mp h with rfl | h
    · simp
    · simp [snd_mem_of_mem_pairs h]

lemma pairs_nodup {l : List α} (h : l.Nodup) : (pairs l).Nodup :=
  (h.sublist (fst_pairs_sublist l)).of_map _

/-- Without repetitions a level can be read off its pairs: a pair of equal nodes can only come
from the duplicated tail. -/
lemma pairs_injective : ∀ {l l' : List α}, l.Nodup → l'.Nodup → pairs l = pairs l' → l = l'
  | [], [], _, _, _ => rfl
  | [a], [b], _, _, h => by
    simp only [pairs, List.cons.injEq, Prod.mk.injEq, and_true, and_self] at h
    rw [h]
  | a :: b :: rest, a' :: b' :: rest', hl, hl', h => by
    simp only [pairs, List.cons.injEq, Prod.mk.injEq] at h
    obtain ⟨⟨rfl, rfl⟩, h⟩ := h
    rw [pairs_injective (hl.of_cons.of_cons) (hl'.of_cons.of_cons) h]
  | [a], a' :: b' :: rest', _, hl', h => by
    simp only [pairs, List.cons.injEq, Prod.mk.injEq] at h
    obtain ⟨⟨rfl, rfl⟩, _⟩ := h
    simp at hl'
  | a :: b :: rest, [a'], hl, _, h => by
    simp only [pairs, List.cons.injEq, Prod.mk.injEq] at h
    obtain ⟨⟨rfl, rfl⟩, _⟩ := h
    simp at hl
  | [], [_], _, _, h => by simp [pairs] at h
  | [], _ :: _ :: _, _, _, h => by simp [pairs] at h
  | [_], [], _, _, h => by simp [pairs] at h
  | _ :: _ :: _, [], _, _, h => by simp [pairs] at h

/-! ### The root -/

variable {node : α → α → α}

/-- More fuel than nodes changes nothing. -/
lemma climb_add : ∀ (n k : ℕ) (l : List α), l.length ≤ n + 1 →
    climb node (n + k) l = climb node n l
  | 0, 0, _, _ => rfl
  | 0, k + 1, l, h => by
    simp only [climb]
    rw [if_neg (by omega)]
  | n + 1, k, l, h => by
    rw [show n + 1 + k = n + k + 1 by omega]
    simp only [climb]
    split
    · exact climb_add n k _ (by rw [level_length]; omega)
    · rfl

lemma climb_of_le (n : ℕ) (l : List α) (h : l.length ≤ n + 1) :
    climb node n l = climb node l.length l := by
  rcases Nat.le_total l.length n with hn | hn
  · obtain ⟨k, rfl⟩ := Nat.exists_eq_add_of_le hn
    exact climb_add _ k l (by omega)
  · obtain ⟨k, hk⟩ := Nat.exists_eq_add_of_le hn
    rw [hk]
    exact (climb_add n k l h).symm

@[simp] lemma root_nil : root node [] = none := rfl

@[simp] lemma root_singleton (a : α) : root node [a] = some a := rfl

/-- The root of a level is the root of the next. -/
lemma root_level {l : List α} (h : 1 < l.length) : root node (level node l) = root node l := by
  obtain ⟨n, hn⟩ : ∃ n, l.length = n + 1 := ⟨l.length - 1, by omega⟩
  simp only [root]
  rw [← climb_of_le n (level node l) (by rw [level_length]; omega), hn, climb, if_pos h]

lemma level_ne_nil {l : List α} (h : l ≠ []) : level node l ≠ [] := by
  have hpos := List.length_pos_iff.mpr h
  exact List.length_pos_iff.mp (by rw [level_length]; omega)

/-- Induction along the levels of a tree. -/
lemma level_induction {P : List α → Prop} (node : α → α → α) (nil : P []) (one : ∀ a, P [a])
    (more : ∀ l, 1 < l.length → P (level node l) → P l) (l : List α) : P l := by
  induction hn : l.length using Nat.strong_induction_on generalizing l with
  | _ n ih =>
    match l, hn with
    | [], _ => exact nil
    | [a], _ => exact one a
    | a :: b :: rest, hn =>
      refine more _ (by simp) (ih _ ?_ _ rfl)
      rw [level_length, ← hn]
      simp only [List.length_cons]
      omega

@[simp] lemma root_eq_none {l : List α} : root node l = none ↔ l = [] := by
  induction l using level_induction node with
  | nil => simp
  | one a => simp
  | more l hl ih =>
    have hne : l ≠ [] := by rintro rfl; simp at hl
    rw [← root_level hl, ih]
    exact ⟨fun h => absurd h (level_ne_nil hne), fun h => absurd h hne⟩

/-! ### Levels above a list -/

/-- `m` is a level of the tree over `l`. -/
inductive Above (node : α → α → α) : List α → List α → Prop
  | refl (l : List α) : Above node l l
  | up {l m : List α} (h : 1 < l.length) (hm : Above node (level node l) m) : Above node l m

/-- The pairs hashed on the way from the leaves to the root. -/
inductive Hashed (node : α → α → α) (l : List α) : α × α → Prop
  | mk {m : List α} {p : α × α} (hm : Above node l m) (h : 1 < m.length) (hp : p ∈ pairs m) :
      Hashed node l p

lemma Above.trans {l m k : List α} (h : Above node l m) (h' : Above node m k) :
    Above node l k := by
  induction h with
  | refl => exact h'
  | up hl _ ih => exact .up hl (ih h')

lemma Above.root_eq {l m : List α} (h : Above node l m) : root node m = root node l := by
  induction h with
  | refl => rfl
  | up hl _ ih => rw [ih, root_level hl]

lemma Above.hashed {l m : List α} {p : α × α} (h : Above node l m) (hp : Hashed node m p) :
    Hashed node l p := by
  obtain ⟨hm, hlen, hp⟩ := hp
  exact ⟨h.trans hm, hlen, hp⟩

lemma Above.iterate {l m : List α} (h : Above node l m) :
    ∃ j, m = (level node)^[j] l ∧ ∀ i < j, 1 < ((level node)^[i] l).length := by
  induction h with
  | refl l => exact ⟨0, rfl, by simp⟩
  | up hl _ ih =>
    obtain ⟨j, hj, hlen⟩ := ih
    refine ⟨j + 1, hj, fun i hi => ?_⟩
    cases i with
    | zero => exact hl
    | succ i => exact hlen i (by omega)

/-- Levels do not get longer. -/
lemma Above.length_le {l m : List α} (h : Above node l m) : m.length ≤ l.length := by
  induction h with
  | refl => exact Nat.le_refl _
  | up hlen _ ih =>
    rw [level_length] at ih
    omega

lemma Above.of_iterate : ∀ (j : ℕ) {l : List α},
    (∀ i < j, 1 < ((level node)^[i] l).length) → Above node l ((level node)^[j] l)
  | 0, l, _ => .refl l
  | j + 1, _, h => .up (h 0 (by omega)) (.of_iterate j fun i hi => h (i + 1) (by omega))

/-- A property of the leaves and of every hash holds of every node. -/
lemma Above.forall_mem {P : α → Prop} {l m : List α} (h : Above node l m) (hl : ∀ a ∈ l, P a)
    (hnode : ∀ a b, P (node a b)) : ∀ a ∈ m, P a := by
  induction h with
  | refl => exact hl
  | up _ _ ih =>
    refine ih fun a ha => ?_
    obtain ⟨p, _, rfl⟩ := List.mem_map.mp ha
    exact hnode _ _

/-- What lies strictly above the leaves is made of hashes. -/
lemma Above.mem_of_ne {l m : List α} (h : Above node l m) (hne : m ≠ l) {a : α} (ha : a ∈ m) :
    ∃ p, Hashed node l p ∧ a = node p.1 p.2 := by
  induction h with
  | refl => exact absurd rfl hne
  | @up l m hl hm ih =>
    rcases eq_or_ne m (level node l) with rfl | hml
    · obtain ⟨p, hp, rfl⟩ := List.mem_map.mp ha
      exact ⟨p, ⟨.refl l, hl, hp⟩, rfl⟩
    · obtain ⟨p, hp, rfl⟩ := ih hml ha
      exact ⟨p, (Above.up hl (.refl _)).hashed hp, rfl⟩

/-- The last level is the root. -/
lemma above_root {l : List α} {r : α} (h : root node l = some r) : Above node l [r] := by
  induction l using level_induction node with
  | nil => simp at h
  | one a =>
    obtain rfl : a = r := by simpa using h
    exact .refl _
  | more l hl ih => exact .up hl (ih (by rwa [root_level hl]))

/-- The number of nodes `j` levels above `n` leaves. -/
def levelSize (n : ℕ) : ℕ → ℕ
  | 0 => n
  | j + 1 => (levelSize n j + 1) / 2

@[simp] lemma levelSize_zero (j : ℕ) : levelSize 0 j = 0 := by
  induction j with
  | zero => rfl
  | succ j ih => simp [levelSize, ih]

lemma iterate_level_length (l : List α) (j : ℕ) :
    ((level node)^[j] l).length = levelSize l.length j := by
  induction j with
  | zero => rfl
  | succ j ih => rw [Function.iterate_succ_apply', level_length, ih, levelSize]

lemma levelSize_le (n : ℕ) {i j : ℕ} (h : i ≤ j) (hn : 1 ≤ n) :
    1 ≤ levelSize n j ∧ levelSize n j ≤ levelSize n i := by
  induction h with
  | refl =>
    refine ⟨?_, le_rfl⟩
    induction i with
    | zero => exact hn
    | succ i ih =>
      simp only [levelSize]
      omega
  | step _ ih =>
    simp only [levelSize]
    omega

lemma levelSize_succ_lt {n : ℕ} (j : ℕ) (h : 1 < levelSize n (j + 1)) :
    levelSize n (j + 1) < n := by
  rcases Nat.eq_zero_or_pos n with rfl | hn
  · simp at h
  · have h0 := (levelSize_le n (Nat.zero_le (j + 1)) hn).2
    have h1 := (levelSize_le n (Nat.le_add_left 1 j) hn).2
    simp only [levelSize] at h h0 h1 ⊢
    omega

/-- A level of more than one node lies above the leaves. -/
lemma above_iterate {l : List α} {j : ℕ} (h : 1 < levelSize l.length j) :
    Above node l ((level node)^[j] l) := by
  have hl : 1 ≤ l.length := by
    by_contra hzero
    rw [show l.length = 0 by omega, levelSize_zero] at h
    omega
  refine Above.of_iterate j fun i hi => ?_
  rw [iterate_level_length]
  exact lt_of_lt_of_le h (levelSize_le _ hi.le hl).2

/-! ### Lists with one root -/

lemma level_nodup {l : List α} (hinj : Set.InjOn (fun p : α × α => node p.1 p.2) {p | p ∈ pairs l})
    (h : l.Nodup) : (level node l).Nodup :=
  (List.nodup_map_iff_inj_on (pairs_nodup h)).mpr fun _ hp _ hq => hinj hp hq

/-- Lists are determined by their images under a function that is injective where they live. -/
lemma eq_of_map_eq {β : Type*} {f : α → β} {s : Set α} (hf : Set.InjOn f s) :
    ∀ {ps qs : List α}, (∀ p ∈ ps, p ∈ s) → (∀ q ∈ qs, q ∈ s) → ps.map f = qs.map f → ps = qs
  | [], [], _, _, _ => rfl
  | [], _ :: _, _, _, h => by simp at h
  | _ :: _, [], _, _, h => by simp at h
  | p :: ps, q :: qs, hps, hqs, h => by
    rw [List.forall_mem_cons] at hps hqs
    rw [List.map_cons, List.map_cons, List.cons.injEq] at h
    rw [hf hps.1 hqs.1 h.1, eq_of_map_eq hf hps.2 hqs.2 h.2]

lemma level_injective {l l' : List α}
    (hinj : Set.InjOn (fun p : α × α => node p.1 p.2) {p | p ∈ pairs l ∨ p ∈ pairs l'})
    (hl : l.Nodup) (hl' : l'.Nodup) (h : level node l = level node l') : l = l' :=
  pairs_injective hl hl'
    (eq_of_map_eq hinj (fun _ hp => Or.inl hp) (fun _ hq => Or.inr hq) h)

lemma Above.nodup {l m : List α} (h : Above node l m)
    (hinj : Set.InjOn (fun p : α × α => node p.1 p.2) {p | Hashed node l p}) (hl : l.Nodup) :
    m.Nodup := by
  induction h with
  | refl => exact hl
  | up hlen hm ih =>
    exact ih (hinj.mono fun _ hp => (Above.up hlen (.refl _)).hashed hp)
      (level_nodup (hinj.mono fun _ hp => Hashed.mk (.refl _) hlen hp) hl)

/-- Going down again: what lies above the next level of `m` lies one level further down. -/
lemma above_of_above_level {l l' : List α} (h1 : 1 < l'.length)
    (hinj : Set.InjOn (fun p : α × α => node p.1 p.2) {p | Hashed node l p ∨ Hashed node l' p})
    (hl : l.Nodup) (hl' : l'.Nodup) (hlen : 1 < l.length)
    (h : Above node (level node l) (level node l')) : Above node l l' := by
  generalize hk : level node l = k at h
  generalize hm : level node l' = m at h
  induction h generalizing l with
  | refl k =>
    have hp : l = l' := level_injective (hinj.mono fun p hp => hp.imp
      (fun hp => ⟨.refl _, hlen, hp⟩) (fun hp => ⟨.refl _, h1, hp⟩)) hl hl' (hk.trans hm.symm)
    exact hp ▸ .refl l
  | @up k m hk1 _ ih =>
    subst hk
    have hup : Above node l (level node l) := .up hlen (.refl _)
    have hdup : (level node l).Nodup :=
      hup.nodup (hinj.mono fun _ hp => Or.inl hp) hl
    exact .up hlen (ih (hinj.mono fun p hp => hp.imp_left hup.hashed) hdup hk1 rfl hm)

/-- Two lists without repetitions whose trees have the same root: one is a level of the other's
tree, provided no two of the hashed pairs collide. -/
theorem root_eq_root {l l' : List α}
    (hinj : Set.InjOn (fun p : α × α => node p.1 p.2) {p | Hashed node l p ∨ Hashed node l' p})
    (hl : l.Nodup) (hl' : l'.Nodup) (hne : l ≠ []) (h : root node l = root node l') :
    Above node l l' ∨ Above node l' l := by
  induction l using level_induction node generalizing l' with
  | nil => exact absurd rfl hne
  | one a => exact .inr (above_root h.symm)
  | more l hlen ih =>
    match l', h with
    | [], h => exact absurd (root_eq_none.mp h) hne
    | [b], h => exact .inl (above_root h)
    | b :: c :: rest, h =>
      have hlen' : 1 < (b :: c :: rest).length := by simp
      have hup : Above node l (level node l) := .up hlen (.refl _)
      have hup' : Above node (b :: c :: rest) (level node (b :: c :: rest)) :=
        .up hlen' (.refl _)
      have hih := @ih (level node (b :: c :: rest))
        (hinj.mono fun p hp => hp.imp hup.hashed hup'.hashed)
        (hup.nodup (hinj.mono fun _ hp => Or.inl hp) hl)
        (hup'.nodup (hinj.mono fun _ hp => Or.inr hp) hl')
        (level_ne_nil hne) (by rw [root_level hlen, root_level hlen', h])
      rcases hih with hih | hih
      · exact .inl (above_of_above_level hlen' hinj hl hl' hlen hih)
      · refine .inr (above_of_above_level hlen ?_ hl' hl hlen' hih)
        exact hinj.mono fun p hp => hp.symm

end Merkle
