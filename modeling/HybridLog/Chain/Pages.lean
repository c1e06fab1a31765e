import HybridLog.Chain.Stores
import HybridLog.Paging.Windows

/-!
# `getPage` of the contracts

The three contracts page through the order of their keys with the same code. The end of a page is
found by a comparison with `offset + limit`, which is itself checked: where the sum does not fit
into 256 bits the call reverts, although the page it asks for is there.
-/

namespace HybridLog

open Paging

/-! ### The arithmetic of Solidity -/

/-- The values of `uint256`. -/
abbrev Uint256 := BitVec 256

/-- `a + b`, which reverts on overflow. -/
def checkedAdd (a b : ℕ) : Option ℕ := if a + b < 2 ^ 256 then some (a + b) else none

/-- `a - b`, which reverts on underflow. -/
def checkedSub (a b : ℕ) : Option ℕ := if b ≤ a then some (a - b) else none

/-- `new bytes32[](size)`, which reverts where the size does not fit into 64 bits. -/
def newArray (size : ℕ) : Option (List Bytes) :=
  if size < 2 ^ 64 then some (List.replicate size LogStore.zeroBytes32) else none

lemma checkedAdd_of_lt {a b : ℕ} (h : a + b < 2 ^ 256) : checkedAdd a b = some (a + b) := if_pos h

lemma checkedSub_of_le {a b : ℕ} (h : b ≤ a) : checkedSub a b = some (a - b) := if_pos h

/-! ### Reading a page -/

/-- The loop of `getPage` from index `i` on, with `left` rounds to go: `page[i - offset]` becomes
`ordered[i]`. -/
def copyKeys (ordered : List Bytes) (offset : ℕ) : ℕ → ℕ → List Bytes → Option (List Bytes)
  | 0, _, page => some page
  | left + 1, i, page => do
    let key ← ordered[i]?
    let j ← checkedSub i offset
    if j < page.length then
      let next ← checkedAdd i 1
      copyKeys ordered offset left next (page.set j key)
    else none

/-- `offset + limit > total ? total : offset + limit` -/
def pageEnd (total offset limit : ℕ) : Option ℕ := do
  let sum ← checkedAdd offset limit
  if total < sum then return total else checkedAdd offset limit

/-- `getPage` over the keys in their order. A call that reverts has no result. -/
def pageOf (ordered : List Bytes) (offset limit : Uint256) : Option (List Bytes) :=
  let total := ordered.length
  if total ≤ offset.toNat then newArray 0
  else do
    let stop ← pageEnd total offset.toNat limit.toNat
    let size ← checkedSub stop offset.toNat
    let page ← newArray size
    copyKeys ordered offset.toNat (stop - offset.toNat) offset.toNat page

def LogStore.getPage (s : LogStore) : Uint256 → Uint256 → Option (List Bytes) :=
  pageOf s.logsOrdered

def HashStore.getPage (s : HashStore) : Uint256 → Uint256 → Option (List Bytes) :=
  pageOf s.ordered

def BatchStore.getPage (s : BatchStore) : Uint256 → Uint256 → Option (List Bytes) :=
  pageOf s.ordered

/-! ### The loop -/

/-- The loop fills the page from place `i - offset` on. -/
lemma copyKeys_eq {ordered : List Bytes} {offset : ℕ} (hlen : ordered.length < 2 ^ 256) :
    ∀ (left i : ℕ) (done rest : List Bytes), i = offset + done.length → left = rest.length →
      i + left ≤ ordered.length →
      copyKeys ordered offset left i (done ++ rest) = some (done ++ window ordered i left)
  | 0, i, done, rest, _, hrest, _ => by
    rw [copyKeys, List.length_eq_zero_iff.mp hrest.symm, window, List.take_zero]
  | left + 1, i, done, [], _, hrest, _ => by cases hrest
  | left + 1, i, done, r :: rest, hi, hrest, hle => by
    have hlt : i < ordered.length := by omega
    have hj : i - offset = done.length := by omega
    have hset : (done ++ r :: rest).set done.length ordered[i] =
        done ++ [ordered[i]] ++ rest := by
      simp
    rw [copyKeys, List.getElem?_eq_getElem hlt, checkedSub_of_le (by omega), hj,
      checkedAdd_of_lt (show i + 1 < 2 ^ 256 by omega)]
    simp only [Option.bind_eq_bind, Option.bind_some, hset]
    rw [if_pos (by simp), copyKeys_eq hlen left (i + 1) (done ++ [ordered[i]]) rest
      (by simp [hi, Nat.add_assoc]) (by simpa using hrest) (by omega),
      window_succ hlt, List.append_assoc,
      List.singleton_append]

lemma pageEnd_eq {total offset limit : ℕ} : pageEnd total offset limit =
    if offset + limit < 2 ^ 256 then some (min (offset + limit) total) else none := by
  rw [pageEnd, checkedAdd]
  split
  · simp only [Option.bind_eq_bind, Option.bind_some, Option.pure_def]
    split
    · next h => rw [Nat.min_eq_right h.le]
    · next h => rw [Nat.min_eq_left (not_lt.mp h)]
  · rfl

/-- The sum of the bounds fits into 256 bits and the page into memory, unless there is nothing to
show. -/
def PageFits (total : ℕ) (offset limit : Uint256) : Prop :=
  offset.toNat < total → offset.toNat + limit.toNat < 2 ^ 256 ∧
    min (offset.toNat + limit.toNat) total - offset.toNat < 2 ^ 64

instance (total : ℕ) (offset limit : Uint256) : Decidable (PageFits total offset limit) :=
  inferInstanceAs (Decidable (_ → _))

variable {ordered : List Bytes} {offset limit : Uint256}

/-- A page that does not revert is the window asked for. -/
lemma pageOf_eq (hlen : ordered.length < 2 ^ 256) : pageOf ordered offset limit =
    if PageFits ordered.length offset limit then
      some (window ordered offset.toNat limit.toNat)
    else none := by
  rw [pageOf]
  by_cases hend : ordered.length ≤ offset.toNat
  · have hfits : PageFits ordered.length offset limit := fun h => absurd h (not_lt.mpr hend)
    rw [if_pos hfits, window_of_length_le hend]
    simp [hend, newArray]
  · have hlt : offset.toNat < ordered.length := not_le.mp hend
    simp only [if_neg hend, pageEnd_eq]
    by_cases hsum : offset.toNat + limit.toNat < 2 ^ 256
    · have hle : offset.toNat ≤ min (offset.toNat + limit.toNat) ordered.length := by omega
      have hroom : min (offset.toNat + limit.toNat) ordered.length ≤ ordered.length :=
        Nat.min_le_right ..
      have hiff : PageFits ordered.length offset limit ↔
          min (offset.toNat + limit.toNat) ordered.length - offset.toNat < 2 ^ 64 :=
        ⟨fun h => (h hlt).2, fun h _ => ⟨hsum, h⟩⟩
      rw [if_pos hsum, window_eq_extract]
      simp only [hiff, Option.bind_eq_bind, Option.bind_some]
      generalize min (offset.toNat + limit.toNat) ordered.length = stop at hle hroom ⊢
      rw [checkedSub_of_le hle, Option.bind_some, newArray]
      split
      · exact copyKeys_eq hlen _ _ [] _ rfl (by simp) (by omega)
      · rfl
    · have hfits : ¬PageFits ordered.length offset limit := fun h => hsum (h hlt).1
      rw [if_neg hfits, if_neg hsum]
      rfl

/-! ### Pages in a row -/

end HybridLog
