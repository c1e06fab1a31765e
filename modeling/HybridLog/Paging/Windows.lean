import Mathlib.Data.List.Basic
import Mathlib.Data.List.Flatten
import Mathlib.Data.List.Range

/-!
# Windows of a list

A window is what a query with an offset and a limit shows of a list. Windows of one size, each
starting where the one before ends, put the list together again.
-/

namespace Paging

variable {α : Type}

/-- The elements at the positions `offset … offset + limit - 1`, as far as there are any. -/
def window (l : List α) (offset limit : ℕ) : List α := (l.drop offset).take limit

@[simp] lemma window_zero (l : List α) (limit : ℕ) : window l 0 limit = l.take limit := rfl

lemma window_of_length_le {l : List α} {offset : ℕ} (h : l.length ≤ offset) (limit : ℕ) :
    window l offset limit = [] := by
  rw [window, List.drop_of_length_le h, List.take_nil]

/-- The positions past the end add nothing to a window. -/
lemma window_eq_extract (l : List α) (offset limit : ℕ) :
    window l offset limit = window l offset (min (offset + limit) l.length - offset) := by
  rw [window, window, List.take_eq_take_iff, List.length_drop]
  omega

lemma window_append (l : List α) (offset m n : ℕ) :
    window l offset (m + n) = window l offset m ++ window l (offset + m) n := by
  rw [window, window, window, List.take_add, List.drop_drop]

lemma window_succ {l : List α} {offset : ℕ} (h : offset < l.length) (n : ℕ) :
    window l offset (n + 1) = l[offset] :: window l (offset + 1) n := by
  rw [window, window, List.drop_eq_getElem_cons h, List.take_succ_cons]

lemma map_window {β : Type} (f : α → β) (l : List α) (offset limit : ℕ) :
    (window l offset limit).map f = window (l.map f) offset limit := by
  rw [window, window, List.map_take, List.map_drop]

/-- The windows at the first `n` multiples of `p` make up the first `n * p` elements. -/
lemma flatMap_window (l : List α) (p n : ℕ) :
    (List.range n).flatMap (fun i => window l (i * p) p) = l.take (n * p) := by
  induction n with
  | zero => simp
  | succ n ih =>
    rw [List.range_succ, List.flatMap_append, ih, List.flatMap_singleton, Nat.succ_mul,
      ← window_zero, ← window_zero, window_append, Nat.zero_add]

/-! ### Reading a list that grows -/

section Growing

variable {read l : List α}

/-- What has been read of a list, with a window that starts where it ends, has been read. -/
lemma append_window_le (h : read <+: l) (n : ℕ) : read ++ window l read.length n <+: l := by
  obtain ⟨rest, rfl⟩ := h
  rw [window, List.drop_left]
  exact (List.prefix_append_right_inj read).mpr (List.take_prefix n rest)

/-- A window that is not full ends where the list ends. -/
lemma append_window_of_short (h : read <+: l) {n : ℕ} (hshort : (window l read.length n).length < n) :
    read ++ window l read.length n = l := by
  obtain ⟨rest, rfl⟩ := h
  rw [window, List.drop_left] at hshort ⊢
  rw [List.length_take] at hshort
  have hle : rest.length ≤ n := by omega
  rw [List.take_of_length_le hle]

end Growing

end Paging
