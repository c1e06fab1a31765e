import HybridLog.Chain.Services
import HybridLog.Paging.Windows

/-!
# The list endpoints of the services

`list` walks backwards through the order of the keys and looks up their records, skipping keys
that have none. Since every key of the order has a record, nothing is skipped, and an answer is a
window of the accepted writes, the newest first.
-/

namespace HybridLog

open Ledger Paging

/-! ### The endpoint -/

structure ListQuery where
  offset : UInt64
  limit : UInt64

def defaultLimit : UInt64 := 20

/-- The query of a request, with the defaults of its parameters. -/
def ListQuery.ofParams (offset limit : Option UInt64) : ListQuery :=
  ⟨offset.getD 0, limit.getD defaultLimit⟩

example : ListQuery.ofParams none none = ⟨0, 20⟩ := rfl

/-- `LogsList`, `HashesList`, `BatchesList` -/
structure ServiceList (R : Type) where
  total : ℕ
  offset : UInt64
  limit : UInt64
  items : List R

/-- `u64::saturating_sub` -/
def saturatingSub (a b : ℕ) : ℕ := if b ≤ a then a - b else 0

/-- `(start..stop).rev()` -/
def rangeRev (start stop : ℕ) : List ℕ := (List.range' start (stop - start)).reverse

/-- The body that the three endpoints share. The length of an index is not bounded here; for what
64 bits make of the two subtractions see `wordSub`. -/
def ServiceSchema.list {R : Type} (s : ServiceSchema R) (query : ListQuery) : ServiceList R :=
  let limit := min query.limit 200
  let total := s.ordered.length
  let stop := saturatingSub total query.offset.toNat
  let start := saturatingSub stop limit.toNat
  { total := total
    offset := query.offset
    limit := limit
    items := ((rangeRev start stop).filterMap fun i => s.ordered[i]?).filterMap fun h => s.get h }

/-- `saturating_sub` as 64 bits compute it. -/
def wordSub (a b : UInt64) : UInt64 := if b ≤ a then a - b else 0

lemma saturatingSub_eq (a b : ℕ) : saturatingSub a b = a - b := by
  rw [saturatingSub]
  split
  · rfl
  · next h => rw [Nat.sub_eq_zero_of_le (not_le.mp h).le]

/-- The subtraction of words neither underflows nor wraps around. -/
lemma toNat_wordSub (a b : UInt64) : (wordSub a b).toNat = saturatingSub a.toNat b.toNat := by
  rw [wordSub, saturatingSub]
  by_cases h : b ≤ a
  · rw [if_pos h, if_pos (UInt64.le_iff_toNat_le.mp h), UInt64.toNat_sub_of_le _ _ h]
  · rw [if_neg h, if_neg fun hle => h (UInt64.le_iff_toNat_le.mpr hle)]
    rfl

lemma toNat_min_limit (a b : UInt64) : (min a b).toNat = min a.toNat b.toNat := by
  show (if a ≤ b then a else b).toNat = _
  by_cases h : a ≤ b
  · rw [if_pos h, Nat.min_eq_left (UInt64.le_iff_toNat_le.mp h)]
  · rw [if_neg h, Nat.min_eq_right (not_le.mp fun hle => h (UInt64.le_iff_toNat_le.mpr hle)).le]

/-! ### Walking backwards -/

section

variable {α β : Type}

lemma filterMap_range' (l : List α) : ∀ n start : ℕ, start + n ≤ l.length →
    (List.range' start n).filterMap (fun i => l[i]?) = window l start n
  | 0, start, _ => by
    rw [window, List.take_zero]
    rfl
  | n + 1, start, h => by
    have hlt : start < l.length := by omega
    rw [List.range'_succ, List.filterMap_cons_some (List.getElem?_eq_getElem hlt),
      filterMap_range' l n (start + 1) (by omega), window_succ hlt]

/-- The walk from the end gives a window of the reversed list. -/
lemma filterMap_rangeRev (l : List α) (offset limit : ℕ) :
    (rangeRev (l.length - offset - limit) (l.length - offset)).filterMap (fun i => l[i]?) =
      window l.reverse offset limit := by
  have hstop : l.length - offset ≤ l.length := Nat.sub_le ..
  rw [window, List.drop_reverse, List.take_reverse, List.length_take, Nat.min_eq_left hstop,
    List.drop_take]
  generalize l.length - offset = stop at hstop ⊢
  have hstart : stop - limit ≤ stop := Nat.sub_le ..
  generalize stop - limit = start at hstart ⊢
  rw [rangeRev, List.filterMap_reverse, filterMap_range' l _ _ (by omega), window]

/-- Where nothing is missing, nothing is skipped. -/
lemma filterMap_eq_of_map_eq {f : α → Option β} {xs : List α} {ys : List β}
    (h : xs.map f = ys.map some) : xs.filterMap f = ys := by
  have hid : xs.filterMap f = (xs.map f).filterMap id := by
    rw [List.filterMap_map]
    rfl
  rw [hid, h, List.filterMap_map]
  exact List.filterMap_some

end

/-! ### The records of the accepted writes -/

namespace Service

variable {A R : Type} (m : Service A R) (objectHash : ObjectHash)

/-- The records of some entries that follow others. -/
def recordsFrom : List (Entry Bytes Address (TxHash × A)) →
    List (Entry Bytes Address (TxHash × A)) → List R
  | _, [] => []
  | before, e :: es => m.recordOf objectHash before e :: recordsFrom (before ++ [e]) es

/-- The records of the accepted writes, in the order in which they were accepted. -/
def acceptedRecords (calls : List (ExecutionContext × A)) : List R :=
  m.recordsFrom objectHash [] (m.entries objectHash calls)

variable {m objectHash}

/-- Each key of the order has its record. -/
lemma map_get_keys {s : ServiceSchema R} {l : List (Entry Bytes Address (TxHash × A))}
    (h : s.Holds m objectHash l) : ∀ before es : List (Entry Bytes Address (TxHash × A)),
      l = before ++ es → (keys es).map s.get = (m.recordsFrom objectHash before es).map some
  | _, [], _ => rfl
  | before, e :: es, hl => by
    have hrest := map_get_keys h (before ++ [e]) es (by simp [hl])
    rw [recordsFrom, List.map_cons, ← hrest, ← h.record before e es hl]
    rfl

lemma length_entries (calls : List (ExecutionContext × A)) :
    (m.entries objectHash calls).length = (m.accepted objectHash calls).length := by
  apply List.filterMap_length_eq_length.mpr
  intro x hx
  obtain ⟨e, he⟩ := entry_of_accepted hx
  exact Option.isSome_of_eq_some he

lemma length_recordsFrom : ∀ before es : List (Entry Bytes Address (TxHash × A)),
    (m.recordsFrom objectHash before es).length = es.length
  | _, [] => rfl
  | before, e :: es => by
    rw [recordsFrom, List.length_cons, List.length_cons, length_recordsFrom (before ++ [e]) es]

lemma length_acceptedRecords (calls : List (ExecutionContext × A)) :
    (m.acceptedRecords objectHash calls).length = (m.accepted objectHash calls).length :=
  (length_recordsFrom _ _).trans (length_entries calls)

end Service

/-! ### Exact windows -/

/-- The endpoint shows the accepted writes of a run, the newest first. -/
structure Service.Lists {A R : Type} (m : Service A R) (objectHash : ObjectHash)
    (calls : List (ExecutionContext × A)) : Prop where
  list : ∀ query, (m.after objectHash calls).list query = {
    total := (m.accepted objectHash calls).length
    offset := query.offset
    limit := min query.limit 200
    items := window (m.acceptedRecords objectHash calls).reverse query.offset.toNat
      (min query.limit.toNat 200) }
  /-- There is one record for each accepted write. -/
  records : (m.acceptedRecords objectHash calls).length = (m.accepted objectHash calls).length
  /-- As long as the length of the order is a word, so are the ends of the range. -/
  words : (m.accepted objectHash calls).length < 2 ^ 64 → ∀ query : ListQuery,
    let total := UInt64.ofNat (m.accepted objectHash calls).length
    let stop := wordSub total query.offset
    stop.toNat = (m.accepted objectHash calls).length - query.offset.toNat ∧
      (wordSub stop (min query.limit 200)).toNat = (m.accepted objectHash calls).length -
        query.offset.toNat - min query.limit.toNat 200
  /-- Windows in a row. -/
  windows : ∀ (limit : UInt64) (n : ℕ), 1 ≤ limit.toNat →
    (∀ i < n, i * min limit.toNat 200 < 2 ^ 64) →
    (List.range n).flatMap (fun i => ((m.after objectHash calls).list
      ⟨UInt64.ofNat (i * min limit.toNat 200), limit⟩).items) =
        (m.acceptedRecords objectHash calls).reverse.take (n * min limit.toNat 200)

namespace Service

variable {A R : Type} {m : Service A R} {objectHash : ObjectHash}
  {calls : List (ExecutionContext × A)}

lemma list_after (query : ListQuery) : (m.after objectHash calls).list query = {
    total := (m.accepted objectHash calls).length
    offset := query.offset
    limit := min query.limit 200
    items := window (m.acceptedRecords objectHash calls).reverse query.offset.toNat
      (min query.limit.toNat 200) } := by
  have hholds := holds_after m objectHash calls
  have hlen : (m.after objectHash calls).ordered.length = (m.accepted objectHash calls).length := by
    rw [hholds.ordered, length_keys, length_entries]
  have hlimit : (min query.limit 200).toNat = min query.limit.toNat 200 := toNat_min_limit ..
  rw [ServiceSchema.list]
  simp only [saturatingSub_eq, hlimit, filterMap_rangeRev]
  simp only [hlen, ServiceList.mk.injEq, true_and]
  have hrecords : (keys (m.entries objectHash calls)).map (m.after objectHash calls).get =
      (m.acceptedRecords objectHash calls).map some := map_get_keys hholds [] _ rfl
  apply filterMap_eq_of_map_eq
  rw [map_window, map_window, List.map_reverse, List.map_reverse, hholds.ordered]
  exact congrArg (fun l => window l.reverse _ _) hrecords

lemma lists (m : Service A R) (objectHash : ObjectHash) (calls : List (ExecutionContext × A)) :
    m.Lists objectHash calls := by
  constructor
  · exact list_after
  · exact length_acceptedRecords calls
  · intro hlen query
    have htotal : (UInt64.ofNat (m.accepted objectHash calls).length).toNat =
        (m.accepted objectHash calls).length := UInt64.toNat_ofNat_of_lt' hlen
    have hlimit : (min query.limit 200).toNat = min query.limit.toNat 200 := toNat_min_limit ..
    simp only [toNat_wordSub, saturatingSub_eq, htotal, hlimit, true_and]
  · intro limit n _ hoffsets
    rw [← flatMap_window]
    apply List.flatMap_congr
    intro i hi
    rw [list_after]
    simp only [UInt64.toNat_ofNat_of_lt' (hoffsets i (List.mem_range.mp hi))]

end Service

/-- Whatever has been written, each service lists its records by exact windows, the newest
first. -/
theorem services_list (objectHash : ObjectHash) :
    (∀ calls, logService.Lists objectHash calls) ∧
    (∀ calls, hashService.Lists objectHash calls) ∧
    ∀ calls, batchService.Lists objectHash calls :=
  ⟨logService.lists objectHash, hashService.lists objectHash, batchService.lists objectHash⟩

end HybridLog
