import HybridLog.Merkle.Tree
import Mathlib.Algebra.Group.Nat.Even
import Mathlib.Data.Nat.Log

/-!
# What a root determines

Completing a list of leaves repeats what the tree repeats, until the tree is perfect. If no leaf is
itself a node of the other tree, two lists have the same root exactly if their completions agree.
The second half describes the root from the top down.
-/

namespace Merkle

universe u

variable {α β : Type u} {node : α → α → α}

/-! ### Completion -/

def unpair (ps : List (α × α)) : List α := ps.flatMap fun p => [p.1, p.2]

/-- The leaves of the perfect tree, building at most `n` levels. -/
def completeWith : ℕ → {α : Type u} → List α → List α
  | 0, _, l => l
  | n + 1, _, l => if 1 < l.length then unpair (completeWith n (pairs l)) else l

def complete (l : List α) : List α := completeWith l.length l

lemma unpair_injective : ∀ {ps qs : List (α × α)}, unpair ps = unpair qs → ps = qs
  | [], [], _ => rfl
  | [], _ :: _, h => by simp [unpair] at h
  | _ :: _, [], h => by simp [unpair] at h
  | (a, b) :: ps, (c, d) :: qs, h => by
    simp only [unpair, List.flatMap_cons, List.cons_append, List.nil_append, List.cons.injEq] at h
    obtain ⟨rfl, rfl, h⟩ := h
    rw [unpair_injective h]

lemma completeWith_add : ∀ (n k : ℕ) {α : Type u} (l : List α), l.length ≤ n + 1 →
    completeWith (n + k) l = completeWith n l
  | 0, 0, _, _, _ => rfl
  | 0, k + 1, _, l, h => by
    rw [Nat.zero_add, completeWith, completeWith, if_neg (by omega)]
  | n + 1, k, _, l, h => by
    rw [show n + 1 + k = n + k + 1 by omega, completeWith, completeWith]
    split
    · rw [completeWith_add n k (pairs l) (by rw [pairs_length]; omega)]
    · rfl

lemma complete_of_length_le {l : List α} (h : l.length ≤ 1) : complete l = l := by
  match l, h with
  | [], _ => rfl
  | [a], _ => rfl

lemma complete_eq {l : List α} (h : 1 < l.length) : complete l = unpair (complete (pairs l)) := by
  obtain ⟨n, hn⟩ : ∃ n, l.length = n + 1 := ⟨l.length - 1, by omega⟩
  have hle : (pairs l).length ≤ n := by rw [pairs_length]; omega
  obtain ⟨k, hk⟩ := Nat.exists_eq_add_of_le hle
  rw [complete, hn, completeWith, if_pos h, hk, completeWith_add _ _ _ (by omega), ← complete]

/-- Induction along the pairings of a list. -/
lemma pairs_induction {P : ∀ {α : Type u}, List α → Prop} (few : ∀ {α : Type u} (l : List α),
    l.length ≤ 1 → P l) (more : ∀ {α : Type u} (l : List α), 1 < l.length → P (pairs l) → P l) :
    ∀ {α : Type u} (l : List α), P l := by
  have hbound : ∀ (n : ℕ) {α : Type u} (l : List α), l.length ≤ n + 1 → P l := by
    intro n
    induction n with
    | zero => exact fun l h => few l h
    | succ n ih =>
      intro α l h
      rcases Nat.lt_or_ge 1 l.length with hl | hl
      · exact more l hl (ih _ (by rw [pairs_length]; omega))
      · exact few l hl
  intro α l
  exact hbound l.length l (by omega)

lemma pairs_map (f : α → β) : ∀ l : List α, pairs (l.map f) = (pairs l).map (Prod.map f f)
  | [] => rfl
  | [_] => rfl
  | a :: b :: rest => by
    rw [List.map_cons, List.map_cons, pairs, pairs, List.map_cons, pairs_map f rest]
    rfl

lemma unpair_map (f : α → β) (ps : List (α × α)) :
    unpair (ps.map (Prod.map f f)) = (unpair ps).map f := by
  simp only [unpair, List.flatMap_map, List.map_flatMap]
  rfl

lemma completeWith_map : ∀ (n : ℕ) {α β : Type u} (f : α → β) (l : List α),
    completeWith n (l.map f) = (completeWith n l).map f
  | 0, _, _, _, _ => rfl
  | n + 1, _, _, f, l => by
    rw [completeWith, completeWith, List.length_map]
    split
    · rw [pairs_map, completeWith_map n (Prod.map f f) (pairs l), unpair_map]
    · rfl

lemma complete_map (f : α → β) (l : List α) : complete (l.map f) = (complete l).map f := by
  rw [complete, List.length_map, completeWith_map, ← complete]

/-- A level, completed, is the level over the completion. -/
lemma complete_level (l : List α) :
    complete (level node l) = (complete (pairs l)).map fun p => node p.1 p.2 :=
  complete_map _ _

lemma prefix_unpair_pairs : ∀ l : List α, l <+: unpair (pairs l)
  | [] => List.prefix_rfl
  | [a] => ⟨[a], rfl⟩
  | a :: b :: rest => by
    obtain ⟨more, hmore⟩ := prefix_unpair_pairs rest
    exact ⟨more, congrArg (fun l => a :: b :: l) hmore⟩

/-- The completion starts with the leaves. -/
lemma prefix_complete (l : List α) : l <+: complete l := by
  induction l using pairs_induction with
  | few l h => exact (complete_of_length_le h).symm ▸ List.prefix_rfl
  | more l h ih =>
    obtain ⟨more, hmore⟩ := ih
    rw [complete_eq h, ← hmore, unpair, List.flatMap_append]
    exact (prefix_unpair_pairs l).trans (List.prefix_append _ _)

/-- The completion repeats leaves and adds none. -/
lemma mem_of_mem_complete (l : List α) : ∀ a ∈ complete l, a ∈ l := by
  induction l using pairs_induction with
  | few l h => rw [complete_of_length_le h]; exact fun a ha => ha
  | more l h ih =>
    intro a ha
    rw [complete_eq h, unpair] at ha
    obtain ⟨p, hp, hap⟩ := List.mem_flatMap.mp ha
    have hpairs := ih p hp
    simp only [List.mem_cons, List.not_mem_nil, or_false] at hap
    rcases hap with rfl | rfl
    · exact fst_mem_of_mem_pairs hpairs
    · exact snd_mem_of_mem_pairs hpairs

lemma length_complete_le_one {l : List α} : (complete l).length ≤ 1 ↔ l.length ≤ 1 := by
  refine ⟨fun h => (prefix_complete l).length_le.trans h, fun h => ?_⟩
  rwa [complete_of_length_le h]

/-- Completions agree if those of the pairs do. -/
lemma complete_pairs_eq {l l' : List α} (hl : 1 < l.length) (hl' : 1 < l'.length) :
    complete l = complete l' ↔ complete (pairs l) = complete (pairs l') := by
  rw [complete_eq hl, complete_eq hl']
  exact ⟨fun h => unpair_injective h, fun h => by rw [h]⟩

/-- Lists of one length with the same completion are the same. -/
lemma eq_of_complete_eq {l l' : List α} (h : complete l = complete l')
    (hlen : l.length = l'.length) : l = l' := by
  have hp := prefix_complete l
  rw [h] at hp
  exact (List.prefix_of_prefix_length_le hp (prefix_complete l') hlen.le).eq_of_length hlen

lemma length_le_one_iff_of_complete_eq {l l' : List α} (h : complete l = complete l') :
    l.length ≤ 1 ↔ l'.length ≤ 1 := by
  rw [← length_complete_le_one, h, length_complete_le_one]

/-- Lists without repetitions with the same completion are the same. -/
lemma eq_of_complete_eq_of_nodup (l : List α) : ∀ {l' : List α}, l.Nodup → l'.Nodup →
    complete l = complete l' → l = l' := by
  induction l using pairs_induction with
  | few l hl =>
    intro l' _ _ h
    have hl' := (length_le_one_iff_of_complete_eq h).mp hl
    rwa [complete_of_length_le hl, complete_of_length_le hl'] at h
  | more l hl ih =>
    intro l' hnd hnd' h
    have hl' : 1 < l'.length := by
      have := length_le_one_iff_of_complete_eq h
      omega
    exact pairs_injective hnd hnd'
      (ih (pairs_nodup hnd) (pairs_nodup hnd') ((complete_pairs_eq hl hl').mp h))

/-! ### Roots and completions -/

/-- The root depends on the completion only. -/
theorem root_eq_of_complete_eq (l : List α) : ∀ {l' : List α}, complete l = complete l' →
    root node l = root node l' := by
  have few : ∀ {l l' : List α}, l.length ≤ 1 → complete l = complete l' →
      root node l = root node l' := by
    intro l l' hl h
    have hl' := (length_le_one_iff_of_complete_eq h).mp hl
    rw [complete_of_length_le hl, complete_of_length_le hl'] at h
    rw [h]
  induction l using level_induction node with
  | nil => exact few (by simp)
  | one a => exact few (by simp)
  | more l hl ih =>
    intro l' h
    have hl' : 1 < l'.length := by
      have := length_le_one_iff_of_complete_eq h
      omega
    rw [← root_level hl, ← root_level hl']
    refine ih ?_
    rw [complete_level, complete_level, (complete_pairs_eq hl hl').mp h]

/-- Going down one level from two levels with the same completion. -/
lemma complete_eq_of_level {l l' : List α} (hl : 1 < l.length) (hl' : 1 < l'.length)
    (hinj : Set.InjOn (fun p : α × α => node p.1 p.2) {p | p ∈ pairs l ∨ p ∈ pairs l'})
    (h : complete (level node l) = complete (level node l')) : complete l = complete l' := by
  rw [complete_level, complete_level] at h
  rw [complete_pairs_eq hl hl']
  exact eq_of_map_eq hinj (fun p hp => .inl (mem_of_mem_complete _ p hp))
    (fun p hp => .inr (mem_of_mem_complete _ p hp)) h

/-- Every node above the next level is paired from the level below it. -/
lemma above_level {l k : List α} (hl : 1 < l.length) (h : Above node (level node l) k) :
    ∃ m, Above node l m ∧ 1 < m.length ∧ level node m = k := by
  generalize hk : level node l = j at h
  induction h generalizing l with
  | refl => exact ⟨l, .refl l, hl, hk⟩
  | up hj _ ih =>
    subst hk
    obtain ⟨m, hm, hlen, heq⟩ := ih hj rfl
    exact ⟨m, .up hl hm, hlen, heq⟩

/-- What meets the next level of `l'` above the next level of `l` meets `l'` above `l`. -/
lemma complete_eq_of_above_level {l l' k : List α} (hl : 1 < l.length) (hl' : 1 < l'.length)
    (hinj : Set.InjOn (fun p : α × α => node p.1 p.2) {p | Hashed node l p ∨ Hashed node l' p})
    (h : Above node (level node l) k) (hk : complete k = complete (level node l')) :
    ∃ m, Above node l m ∧ complete m = complete l' := by
  obtain ⟨m, hm, hlen, rfl⟩ := above_level hl h
  refine ⟨m, hm, complete_eq_of_level hlen hl' (hinj.mono ?_) hk⟩
  rintro p (hp | hp)
  · exact .inl ⟨hm, hlen, hp⟩
  · exact .inr ⟨.refl _, hl', hp⟩

/-- Two lists whose trees have the same root: the completion of one is that of a level of the
other's tree, provided no two of the hashed pairs collide. -/
theorem complete_eq_of_root_eq (l : List α) : ∀ {l' : List α},
    Set.InjOn (fun p : α × α => node p.1 p.2) {p | Hashed node l p ∨ Hashed node l' p} →
      l ≠ [] → root node l = root node l' →
        (∃ m, Above node l m ∧ complete m = complete l') ∨
          ∃ m, Above node l' m ∧ complete m = complete l := by
  induction l using level_induction node with
  | nil => exact fun _ h => absurd rfl h
  | one a => exact fun _ _ h => .inr ⟨[a], above_root h.symm, rfl⟩
  | more l hl ih =>
    intro l' hinj hne h
    rcases Nat.lt_or_ge 1 l'.length with hl' | hl'
    · have hup : Above node l (level node l) := .up hl (.refl _)
      have hup' : Above node l' (level node l') := .up hl' (.refl _)
      have hih := ih (hinj.mono fun p hp => hp.imp hup.hashed hup'.hashed)
        (level_ne_nil hne) (by rw [root_level hl, root_level hl', h])
      rcases hih with ⟨k, hk, hcomplete⟩ | ⟨k, hk, hcomplete⟩
      · exact .inl (complete_eq_of_above_level hl hl' hinj hk hcomplete)
      · exact .inr (complete_eq_of_above_level hl' hl (hinj.mono fun p hp => hp.symm) hk hcomplete)
    · match l', hl', h with
      | [], _, h => exact absurd (root_eq_none.mp h) hne
      | [b], _, h => exact .inl ⟨[b], above_root h, rfl⟩

/-- If the nodes hashed over one list are no leaves of the other, equal roots come from equal
completions. -/
theorem root_eq_iff_complete_eq {l l' : List α}
    (hinj : Set.InjOn (fun p : α × α => node p.1 p.2) {p | Hashed node l p ∨ Hashed node l' p})
    (hl : l ≠ []) (hl' : l' ≠ []) (hleaf' : ∀ p, Hashed node l p → node p.1 p.2 ∉ l')
    (hleaf : ∀ p, Hashed node l' p → node p.1 p.2 ∉ l) :
    root node l = root node l' ↔ complete l = complete l' := by
  have stays : ∀ {l l' m : List α}, l' ≠ [] → (∀ p, Hashed node l p → node p.1 p.2 ∉ l') →
      Above node l m → complete m = complete l' → complete l = complete l' := by
    intro l l' m hl' hleaf' hm hcomplete
    rcases eq_or_ne m l with rfl | hne
    · exact hcomplete
    · -- a leaf of `l'` would be a node over `l`
      obtain ⟨a, ha⟩ := List.exists_mem_of_ne_nil _ hl'
      have ham : a ∈ m := mem_of_mem_complete m a (hcomplete ▸ (prefix_complete l').subset ha)
      obtain ⟨p, hp, rfl⟩ := hm.mem_of_ne hne ham
      exact absurd ha (hleaf' p hp)
  refine ⟨fun h => ?_, fun h => root_eq_of_complete_eq l h⟩
  rcases complete_eq_of_root_eq l hinj hl h with ⟨m, hm, hcomplete⟩ | ⟨m, hm, hcomplete⟩
  · exact stays hl' hleaf' hm hcomplete
  · exact (stays hl hleaf hm hcomplete).symm

/-- Lists of one length with the same root are the same. -/
theorem eq_of_root_eq (l : List α) : ∀ {l' : List α}, l.length = l'.length →
    Set.InjOn (fun p : α × α => node p.1 p.2) {p | Hashed node l p ∨ Hashed node l' p} →
      root node l = root node l' → l = l' := by
  intro l' hlen hinj h
  refine eq_of_complete_eq ?_ hlen
  induction l using level_induction node generalizing l' with
  | nil => rw [List.length_eq_zero_iff.mp hlen.symm]
  | one a =>
    obtain ⟨b, rfl⟩ := List.length_eq_one_iff.mp hlen.symm
    rw [Option.some.inj h]
  | more l hl ih =>
    have hl' : 1 < l'.length := hlen ▸ hl
    have hup : Above node l (level node l) := .up hl (.refl _)
    have hup' : Above node l' (level node l') := .up hl' (.refl _)
    refine complete_eq_of_level hl hl' (hinj.mono ?_) (ih ?_ ?_ ?_)
    · exact fun p hp => hp.imp (fun hp => ⟨.refl _, hl, hp⟩) fun hp => ⟨.refl _, hl', hp⟩
    · rw [level_length, level_length, hlen]
    · exact hinj.mono fun p hp => hp.imp hup.hashed hup'.hashed
    · rw [root_level hl, root_level hl', h]

/-! ### The root from the top down -/

/-- The root of a tree of height `n`: the first half of the places is to the left, and where the
right half is missing the left one is taken twice. -/
def treeRoot (node : α → α → α) : ℕ → List α → Option α
  | 0, l => l.head?
  | n + 1, l => (treeRoot node n (l.take (2 ^ n))).map fun left =>
    node left ((treeRoot node n (l.drop (2 ^ n))).getD left)

/-- The height of the tree over `n` leaves. -/
def height (n : ℕ) : ℕ := Nat.clog 2 n

@[simp] lemma treeRoot_nil (n : ℕ) : treeRoot node n [] = none := by
  cases n with
  | zero => rfl
  | succ n => rw [treeRoot, List.take_nil, treeRoot_nil n, Option.map_none]

lemma level_take (n : ℕ) : ∀ l : List α,
    level node (l.take (2 * n)) = (level node l).take n ∧
      level node (l.drop (2 * n)) = (level node l).drop n := by
  induction n with
  | zero => exact fun l => by simp [level, pairs]
  | succ n ih =>
    intro l
    cases l with
    | nil => simp [level, pairs]
    | cons a l => cases l with
      | nil => simp [level, pairs, Nat.mul_succ]
      | cons b rest =>
        obtain ⟨htake, hdrop⟩ := ih rest
        simp only [level] at htake hdrop
        simp [level, pairs, Nat.mul_succ, htake, hdrop]

/-- Pairing the leaves first makes the tree one lower. -/
lemma treeRoot_level : ∀ (n : ℕ) {l : List α}, l.length ≤ 2 ^ (n + 1) →
    treeRoot node (n + 1) l = treeRoot node n (level node l)
  | 0, [], _ => rfl
  | 0, [a], _ => rfl
  | 0, [a, b], _ => rfl
  | n + 1, l, h => by
    have htwo : 2 ^ (n + 1) = 2 * 2 ^ n := Nat.pow_succ'
    have hdouble : 2 ^ (n + 1 + 1) = 2 * 2 ^ (n + 1) := Nat.pow_succ'
    obtain ⟨htake, hdrop⟩ := @level_take _ node (2 ^ n) l
    have hleft : (l.take (2 ^ (n + 1))).length ≤ 2 ^ (n + 1) := List.length_take_le _ _
    have hright : (l.drop (2 ^ (n + 1))).length ≤ 2 ^ (n + 1) := by
      rw [List.length_drop]
      omega
    rw [treeRoot, treeRoot_level n hleft, treeRoot_level n hright, htwo, htake, hdrop, treeRoot]

/-- The loop over the levels computes the root of the tree. -/
theorem root_eq_treeRoot (l : List α) : root node l = treeRoot node (height l.length) l := by
  induction l using level_induction node with
  | nil => rfl
  | one a => rfl
  | more l hl ih =>
    have hheight : height l.length = height (level node l).length + 1 := by
      rw [height, height, level_length, Nat.clog_of_two_le (by omega) hl]
      rfl
    have hle : l.length ≤ 2 ^ height l.length := Nat.le_pow_clog (by omega) _
    rw [hheight] at hle
    rw [← root_level hl, ih, hheight, treeRoot_level _ hle]

end Merkle
