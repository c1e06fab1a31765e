import HybridLog.Database.Lists
import HybridLog.Paging.Ties

/-!
# Paging through a log table

Each page is a query of its own, and `ORDER BY timestamp DESC` leaves open how the rows of one
time are ordered, in every query anew. `pages_visit_iff` says when the pages visit each row once
all the same.
-/

namespace HybridLog

open Js Paging

variable (ilike : CaseFolding) (engine : RegexEngine)

/-! ### Pages -/

/-- `listOffchain`, `listAnchored` or `listBatched` of the adapter. -/
def listTable (order : NewestFirst) :
    Db → LogTable → ListOpts → List LogRow → Option PageResult
  | .postgres, table => Postgres.listTable ilike order table
  | .mongo, table => Mongo.listTable engine order table

/-- The options with another page. -/
def ListOpts.page (opts : ListOpts) (limit offset : ℕ) : ListOpts :=
  { opts with limit := some limit, offset := some offset }

/-- The rows of the first `n` pages of size `p`. The `i`-th query orders its rows by `orders i`. -/
def pageRows (orders : ℕ → NewestFirst) (db : Db) (table : LogTable) (opts : ListOpts)
    (rows : List LogRow) (p n : ℕ) : Option (List LogRow) :=
  ((List.range n).mapM fun i =>
    (listTable ilike engine (orders i) db table (opts.page p (i * p)) rows).map PageResult.rows).map
      List.flatten

/-- The database takes a query with these options. -/
def Accepts (db : Db) (table : LogTable) (opts : ListOpts) : Prop :=
  match db with
  | .postgres => (buildWhere opts).all fun c => c.hasColumn table && c.isSendable
  | .mongo => (Mongo.sourceTest engine (buildFilter opts).source).isSome

instance (db : Db) (table : LogTable) (opts : ListOpts) :
    Decidable (Accepts engine db table opts) :=
  match db with
  | .postgres => inferInstanceAs (Decidable (_ = true))
  | .mongo => inferInstanceAs (Decidable (_ = true))

/-- The query finds the row. -/
def matchesRow (db : Db) (opts : ListOpts) (r : LogRow) : Bool :=
  match db with
  | .postgres => (buildWhere opts).all (Condition.holds ilike.fold · r)
  | .mongo => (buildFilter opts).level.all (r.level = ·) &&
      (Mongo.sourceTest engine (buildFilter opts).source).any (· (chars r.source))

/-- The rows that the query finds. -/
def matching (db : Db) (opts : ListOpts) (rows : List LogRow) : List LogRow :=
  rows.filter (matchesRow ilike engine db opts)

/-! ### Orders -/

/-- The timestamps of some rows, the newest first. -/
abbrev newestTimes (rows : List LogRow) : List ℤ := descendingKeys LogRow.timestamp rows

lemma NewestFirst.orderOf (order : NewestFirst) (rows : List LogRow) :
    OrderOf LogRow.timestamp rows (order.sort rows) :=
  ⟨order.perm rows, order.newest rows⟩

open Classical in
/-- The order that puts `rows` as in `l`. -/
noncomputable def NewestFirst.listing {rows l : List LogRow}
    (h : OrderOf LogRow.timestamp rows l) : NewestFirst where
  sort rows' := if rows' = rows then l else byInsertion.sort rows'
  perm rows' := by
    split
    · rename_i heq
      rw [heq]
      exact h.perm
    · exact byInsertion.perm rows'
  newest rows' := by
    split
    · exact h.descending
    · exact byInsertion.newest rows'

lemma NewestFirst.listing_sort {rows l : List LogRow} (h : OrderOf LogRow.timestamp rows l) :
    (NewestFirst.listing h).sort rows = l := if_pos rfl

/-! ### One page -/

variable {ilike engine} {db : Db} {table : LogTable} {opts : ListOpts} {rows : List LogRow} {p : ℕ}

/-- A page is a window of the rows that the query finds, in its order. -/
lemma listTable_page (order : NewestFirst) (hp : 0 < p) (offset : ℕ) :
    (listTable ilike engine order db table (opts.page p offset) rows).map PageResult.rows =
      if Accepts engine db table opts then
        some (window (order.sort (matching ilike engine db opts rows)) offset p)
      else none := by
  have hwhere : buildWhere (opts.page p offset) = buildWhere opts := rfl
  have hfilter : buildFilter (opts.page p offset) = buildFilter opts := rfl
  cases db with
  | postgres =>
    rw [listTable, Postgres.listTable_eq, Postgres.list, Postgres.select, hwhere]
    by_cases hsend : (buildWhere opts).all fun c => c.hasColumn table && c.isSendable
    · rw [if_pos hsend, if_pos (show Accepts engine .postgres table opts from hsend)]
      rfl
    · rw [if_neg hsend, if_neg (show ¬ Accepts engine .postgres table opts from hsend)]
      rfl
  | mongo =>
    rw [listTable, Mongo.listTable_eq, Mongo.list, Mongo.find, hfilter]
    cases htest : Mongo.sourceTest engine (buildFilter opts).source with
    | none =>
      have hnot : ¬ Accepts engine .mongo table opts := by
        simp [Accepts, htest]
      rw [if_neg hnot]
      rfl
    | some test =>
      have haccepts : Accepts engine .mongo table opts := by
        simp [Accepts, htest]
      have hmatching : matching ilike engine .mongo opts rows = rows.filter fun r =>
          (buildFilter opts).level.all (r.level = ·) && test (chars r.source) := by
        refine List.filter_congr fun r _ => ?_
        rw [matchesRow, htest, Option.any_some]
      have hlimited (l : List LogRow) : Mongo.limited p l = l.take p := if_neg hp.ne'
      rw [if_pos haccepts, hmatching]
      exact congrArg some (hlimited _)

/-- The pages of the queries are the pages of the orders. -/
lemma pageRows_eq (orders : ℕ → NewestFirst) (hp : 0 < p) (h : Accepts engine db table opts)
    (n : ℕ) : pageRows ilike engine orders db table opts rows p n =
      some (pages (fun i => (orders i).sort (matching ilike engine db opts rows)) p n) := by
  rw [pageRows]
  simp only [listTable_page _ hp, if_pos h]
  exact congrArg (Option.map List.flatten) (List.mapM_pure ..)

lemma pageRows_succ_of_not_accepts (orders : ℕ → NewestFirst) (hp : 0 < p)
    (h : ¬ Accepts engine db table opts) (n : ℕ) :
    pageRows ilike engine orders db table opts rows p (n + 1) = none := by
  rw [pageRows]
  simp only [listTable_page _ hp, if_neg h]
  rw [List.range_succ_eq_map, List.mapM_cons]
  rfl

/-! ### All pages -/

variable (ilike engine db table opts rows p)

/-- However each query orders rows of one time, the pages show each row found exactly once. -/
def VisitsOnce : Prop :=
  ∀ orders : ℕ → NewestFirst, ∀ n, (matching ilike engine db opts rows).length ≤ n * p →
    ∃ shown, pageRows ilike engine orders db table opts rows p n = some shown ∧
      shown.Perm (matching ilike engine db opts rows)

variable {p rows}

/-- The pages visit each row once exactly if the database takes the query and no page ends between
two rows of one time. -/
theorem pages_visit_iff (hp : 0 < p) (hid : (rows.map LogRow.id).Nodup) :
    VisitsOnce ilike engine db table opts rows p ↔ Accepts engine db table opts ∧
      ∀ k, CutAt (newestTimes (matching ilike engine db opts rows)) (k * p) := by
  have hnodup : (matching ilike engine db opts rows).Nodup :=
    (List.Nodup.of_map LogRow.id hid).filter _
  constructor
  · intro h
    have haccepts : Accepts engine db table opts := by
      by_contra hnot
      obtain ⟨shown, hshown, -⟩ := h (fun _ => byInsertion)
        ((matching ilike engine db opts rows).length + 1)
        ((Nat.le_succ _).trans (Nat.le_mul_of_pos_right _ hp))
      rw [pageRows_succ_of_not_accepts _ hp hnot] at hshown
      cases hshown
    refine ⟨haccepts, (pages_perm_iff hnodup hp).mp fun orders horders n hn => ?_⟩
    obtain ⟨shown, hshown, hperm⟩ := h (fun i => .listing (horders i)) n hn
    rw [pageRows_eq _ hp haccepts, Option.some_inj] at hshown
    simp only [NewestFirst.listing_sort] at hshown
    exact hshown ▸ hperm
  · rintro ⟨haccepts, hcut⟩ orders n hn
    refine ⟨_, pageRows_eq orders hp haccepts n, ?_⟩
    exact (pages_perm_iff hnodup hp).mpr hcut _ (fun i => (orders i).orderOf _) n hn

/-! ### Two rows of one time -/

/-- Rows of one time come in the order opposite to that of `byInsertion`. -/
def byDecline : NewestFirst where
  sort rows := byInsertion.sort rows.reverse
  perm rows := (byInsertion.perm rows.reverse).trans rows.reverse_perm
  newest rows := byInsertion.newest rows.reverse

def everything : ListOpts where
  limit := none
  offset := none
  level := none
  source := none
  anchorStatus := none
  batched := none

/-- A row with the id and the time. -/
def rowNamed (id : JsString) (timestamp : ℤ) : LogRow :=
  { everything.probe ['a'] none none with id := id, timestamp := timestamp }

/-- Two batched logs of one time, of which two pages of one row show the same. -/
def twins : List LogRow := [rowNamed [0x61] 0, rowNamed [0x62] 0]

theorem twins_not_visited : (twins.map LogRow.id).Nodup ∧
    ¬ VisitsOnce asciiFolding wordEngine .postgres (.batched .priv) everything twins 1 := by
  refine ⟨by decide, fun h => ?_⟩
  obtain ⟨shown, hshown, hperm⟩ :=
    h (fun i => if i = 0 then byInsertion else byDecline) 2 (by decide)
  have hids := congrArg (Option.map (List.map LogRow.id)) hshown
  have htwice : [[0x61], [0x61]] = shown.map LogRow.id := Option.some.inj hids
  have hnodup := (hperm.map LogRow.id).nodup_iff.mpr (by decide)
  rw [← htwice] at hnodup
  revert hnodup
  decide

/-- The first page holds the twins, the second one an older row. -/
theorem twins_visited : VisitsOnce asciiFolding wordEngine .postgres (.batched .priv) everything
    (rowNamed [0x63] (-1) :: twins) 2 := by
  refine (pages_visit_iff asciiFolding wordEngine .postgres (.batched .priv) everything (by decide)
    (by decide)).mpr ⟨by decide, fun k => ?_⟩
  have htimes : newestTimes (matching asciiFolding wordEngine .postgres everything
      (rowNamed [0x63] (-1) :: twins)) = [0, 0, -1] := by decide
  rw [htimes]
  intro h0 hlt
  have hk : k = 1 := by
    rw [List.length_cons, List.length_cons, List.length_singleton] at hlt
    omega
  rw [hk]
  decide

end HybridLog
