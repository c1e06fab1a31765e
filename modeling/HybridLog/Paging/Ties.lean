import HybridLog.Paging.Windows
import Mathlib.Data.List.Sort

/-!
# Pages of orders with ties

A query that sorts by a key may put elements with the same key in any order, and each page is a
query of its own. The pages make up what is paged through, whatever orders they are cut from,
exactly if no two elements with the same key stand on both sides of a cut.
-/

namespace Paging

variable {α κ : Type} [LinearOrder κ] (key : α → κ)

/-- A list that a query for the elements of `M`, the greatest key first, may return. -/
structure OrderOf (M l : List α) : Prop where
  perm : l.Perm M
  descending : l.Pairwise fun a b => key b ≤ key a

/-- The keys of `M` in the order in which they are returned. -/
def descendingKeys (M : List α) : List κ := (M.map key).insertionSort (· ≥ ·)

/-- The `n`-th key differs from the one after it, if both exist. -/
def CutAt (T : List κ) (n : ℕ) : Prop := 0 < n → n < T.length → T[n - 1]? ≠ T[n]?

instance (T : List κ) (n : ℕ) : Decidable (CutAt T n) := inferInstanceAs (Decidable (_ → _))

variable {key} {M l l' : List α}

lemma OrderOf.length_eq (h : OrderOf key M l) : l.length = M.length := h.perm.length_eq

lemma OrderOf.map_key (h : OrderOf key M l) : l.map key = descendingKeys key M := by
  have hsorted : (l.map key).Pairwise (· ≥ ·) := List.pairwise_map.mpr h.descending
  have hperm : (l.map key).Perm (descendingKeys key M) :=
    (h.perm.map key).trans (List.perm_insertionSort _ _).symm
  exact hperm.eq_of_pairwise (fun _ _ _ _ hab hba => le_antisymm hba hab) hsorted
    (List.pairwise_insertionSort _ _)

/-- A list around its `n`-th element and the one after it. -/
lemma exists_split {n : ℕ} (h0 : 0 < n) (hn : n < l.length) :
    ∃ t x y u, l = t ++ x :: y :: u ∧ t.length + 1 = n := by
  obtain ⟨m, rfl⟩ : ∃ m, n = m + 1 := ⟨n - 1, by omega⟩
  refine ⟨l.take m, l[m], l[m + 1], l.drop (m + 2), ?_, ?_⟩
  · rw [← List.drop_eq_getElem_cons, ← List.drop_eq_getElem_cons, List.take_append_drop]
  · rw [List.length_take]
    omega

lemma OrderOf.cutAt_iff {t u : List α} {x y : α} (h : OrderOf key M (t ++ x :: y :: u)) :
    CutAt (descendingKeys key M) (t.length + 1) ↔ key x ≠ key y := by
  rw [← h.map_key, CutAt]
  have hx : (List.map key (t ++ x :: y :: u))[t.length]? = some (key x) := by simp
  have hy : (List.map key (t ++ x :: y :: u))[t.length + 1]? = some (key y) := by simp
  rw [Nat.add_sub_cancel, hx, hy, ne_eq, Option.some_inj]
  constructor
  · intro hcut
    apply hcut (Nat.succ_pos _)
    simp
  · exact fun hne _ _ => hne

/-! ### Clean cuts -/

/-- What comes before a clean cut are the elements with the greater keys. -/
lemma OrderOf.take_eq_filter {t u : List α} {x y : α} (h : OrderOf key M (t ++ x :: y :: u))
    (hne : key x ≠ key y) :
    (t ++ x :: y :: u).take (t.length + 1) = (t ++ x :: y :: u).filter (key x ≤ key ·) := by
  obtain ⟨-, hrest, hcross⟩ := List.pairwise_append.mp h.descending
  obtain ⟨hx, hrest⟩ := List.pairwise_cons.mp hrest
  obtain ⟨hy, -⟩ := List.pairwise_cons.mp hrest
  have hlt : key y < key x := lt_of_le_of_ne (hx y (List.mem_cons_self ..)) hne.symm
  have ht : t.filter (key x ≤ key ·) = t := by
    apply List.filter_eq_self.mpr
    intro a ha
    exact decide_eq_true (hcross a ha x (List.mem_cons_self ..))
  have hu : u.filter (key x ≤ key ·) = [] := by
    apply List.filter_eq_nil_iff.mpr
    intro a ha
    rw [decide_eq_true_eq, not_le]
    exact (hy a ha).trans_lt hlt
  rw [List.filter_append, List.filter_cons_of_pos (by simp), List.filter_cons_of_neg (by simpa),
    ht, hu, List.take_append, List.take_of_length_le (Nat.le_succ _), Nat.add_sub_cancel_left]
  rfl

/-- Which elements come before a clean cut does not depend on the order. -/
lemma OrderOf.take_perm (h : OrderOf key M l) (h' : OrderOf key M l') {n : ℕ}
    (hcut : CutAt (descendingKeys key M) n) : (l.take n).Perm (l'.take n) := by
  have hperm : l.Perm l' := h.perm.trans h'.perm.symm
  rcases Nat.eq_zero_or_pos n with rfl | h0
  · exact .refl _
  rcases Nat.lt_or_ge n l.length with hn | hn
  · have hn' : n < l'.length := hperm.length_eq ▸ hn
    obtain ⟨t, x, y, u, rfl, ht⟩ := exists_split h0 hn
    obtain ⟨t', x', y', u', rfl, ht'⟩ := exists_split h0 hn'
    have hlen : t.length = t'.length := by omega
    have hx : key x = key x' := by
      have hkeys := h.map_key.trans h'.map_key.symm
      have hget := congrArg (fun T => T[t.length]?) hkeys
      simpa [hlen] using hget
    have hne := h.cutAt_iff.mp (ht ▸ hcut)
    have hne' := h'.cutAt_iff.mp (ht' ▸ hcut)
    rw [← ht, h.take_eq_filter hne, ht, ← ht', h'.take_eq_filter hne', hx]
    exact hperm.filter _
  · rw [List.take_of_length_le hn, List.take_of_length_le (hperm.length_eq ▸ hn)]
    exact hperm

/-- The pages that are cut from one order each. -/
def pages (orders : ℕ → List α) (p n : ℕ) : List α :=
  (List.range n).flatMap fun i => window (orders i) (i * p) p

lemma pages_perm_take {orders : ℕ → List α} (horders : ∀ i, OrderOf key M (orders i))
    (hl : OrderOf key M l) {p : ℕ} (hcut : ∀ k, CutAt (descendingKeys key M) (k * p)) (n : ℕ) :
    (pages orders p n).Perm (l.take (n * p)) := by
  induction n with
  | zero =>
    rw [Nat.zero_mul]
    exact .refl _
  | succ n ih =>
    have hsucc : (orders n).take ((n + 1) * p) =
        (orders n).take (n * p) ++ window (orders n) (n * p) p := by
      rw [Nat.succ_mul, ← window_zero, ← window_zero, window_append, Nat.zero_add]
    have hbefore := ih.trans (hl.take_perm (horders n) (hcut n))
    have hafter := (horders n).take_perm hl (hcut (n + 1))
    rw [pages, List.range_succ, List.flatMap_append, List.flatMap_singleton]
    rw [hsucc] at hafter
    exact (hbefore.append_right _).trans hafter

/-! ### Cuts through a tie -/

/-- Two neighbours with one key may change places. -/
lemma OrderOf.swap {t u : List α} {x y : α} (h : OrderOf key M (t ++ x :: y :: u))
    (heq : key x = key y) : OrderOf key M (t ++ y :: x :: u) := by
  obtain ⟨ht, hrest, hcross⟩ := List.pairwise_append.mp h.descending
  obtain ⟨hx, hrest⟩ := List.pairwise_cons.mp hrest
  obtain ⟨hy, hu⟩ := List.pairwise_cons.mp hrest
  constructor
  · exact ((List.Perm.swap x y u).append_left t).trans h.perm
  · refine List.pairwise_append.mpr ⟨ht, ?_, fun a ha b hb => ?_⟩
    · refine List.pairwise_cons.mpr ⟨fun b hb => ?_, List.pairwise_cons.mpr ⟨?_, hu⟩⟩
      · rcases List.mem_cons.mp hb with rfl | hb
        · exact heq.le
        · exact hy b hb
      · exact fun b hb => hx b (List.mem_cons_of_mem _ hb)
    · apply hcross a ha b
      simp only [List.mem_cons] at hb ⊢
      tauto

lemma pages_add (orders : ℕ → List α) (p m n : ℕ) :
    pages orders p (m + n) =
      pages orders p m ++ pages (fun i => (orders (m + i)).drop (m * p)) p n := by
  rw [pages, List.range_add, List.flatMap_append, List.flatMap_map]
  congr 1
  apply List.flatMap_congr
  intro i _
  rw [window, window, List.drop_drop, ← Nat.add_mul]

lemma pages_const (p n : ℕ) : pages (fun _ => l) p n = l.take (n * p) := flatMap_window l p n

/-- Pages cut from a tie in two orders show an element twice. -/
lemma exists_pages_not_perm (hM : M.Nodup) {p k : ℕ} (hp : 0 < p) {t u : List α} {x y : α}
    (h : OrderOf key M (t ++ x :: y :: u)) (heq : key x = key y) (hk : t.length + 1 = k * p) :
    ∃ orders : ℕ → List α, (∀ i, OrderOf key M (orders i)) ∧
      ∃ n, M.length ≤ n * p ∧ ¬(pages orders p n).Perm M := by
  let orders (i : ℕ) : List α := if i < k then t ++ x :: y :: u else t ++ y :: x :: u
  have horders : ∀ i, OrderOf key M (orders i) := by
    intro i
    by_cases hi : i < k
    · simpa only [orders, if_pos hi] using h
    · simpa only [orders, if_neg hi] using h.swap heq
  have hbefore : pages orders p k = t ++ [x] := by
    have hsame : pages orders p k = pages (fun _ => t ++ x :: y :: u) p k := by
      apply List.flatMap_congr
      intro i hi
      simp only [orders, if_pos (List.mem_range.mp hi)]
    rw [hsame, pages_const, ← hk, List.take_append, List.take_of_length_le (Nat.le_succ _),
      Nat.add_sub_cancel_left]
    rfl
  have hafter : pages (fun i => (orders (k + i)).drop (k * p)) p M.length = x :: u := by
    have hdrop (i : ℕ) : (orders (k + i)).drop (k * p) = x :: u := by
      have hi : ¬k + i < k := by omega
      simp only [orders, if_neg hi]
      rw [← hk, List.drop_append, List.drop_of_length_le (Nat.le_succ _), Nat.add_sub_cancel_left]
      rfl
    simp only [hdrop]
    rw [pages_const]
    apply List.take_of_length_le
    have hlen := h.length_eq
    simp only [List.length_append, List.length_cons] at hlen ⊢
    exact le_trans (by omega) (Nat.le_mul_of_pos_right _ hp)
  refine ⟨orders, horders, k + M.length, ?_, fun hperm => ?_⟩
  · exact (Nat.le_mul_of_pos_right _ hp).trans (Nat.mul_le_mul_right p (Nat.le_add_left _ _))
  · rw [pages_add, hbefore, hafter] at hperm
    have hnodup := hperm.nodup_iff.mpr hM
    rw [List.append_assoc, List.singleton_append] at hnodup
    exact (List.nodup_cons.mp (List.Nodup.of_append_right hnodup)).1 (List.mem_cons_self ..)

/-- Pages put the list together, whatever order each of them is cut from, exactly if every cut is
clean. -/
theorem pages_perm_iff (hM : M.Nodup) {p : ℕ} (hp : 0 < p) :
    (∀ orders : ℕ → List α, (∀ i, OrderOf key M (orders i)) →
      ∀ n, M.length ≤ n * p → (pages orders p n).Perm M) ↔
      ∀ k, CutAt (descendingKeys key M) (k * p) := by
  constructor
  · intro h k
    have hsorted : OrderOf key M (M.insertionSort fun a b => key b ≤ key a) :=
      ⟨List.perm_insertionSort _ _, List.pairwise_insertionSort _ _⟩
    intro h0 hlen htie
    rw [← hsorted.map_key, List.length_map] at hlen
    obtain ⟨t, x, y, u, hl, ht⟩ := exists_split h0 hlen
    rw [hl] at hsorted
    have heq : key x = key y := by
      by_contra hne
      rw [← ht] at htie h0
      have hcut := hsorted.cutAt_iff.mpr hne h0
      rw [← hsorted.map_key] at hcut htie
      exact hcut (by simp) htie
    obtain ⟨orders, horders, n, hn, hnot⟩ := exists_pages_not_perm hM hp hsorted heq ht
    exact hnot (h orders horders n hn)
  · intro hcut orders horders n hn
    have hperm := pages_perm_take horders (horders 0) hcut n
    rw [List.take_of_length_le ((horders 0).length_eq.trans_le hn)] at hperm
    exact hperm.trans (horders 0).perm

end Paging
