import HybridLog.Database.Like
import HybridLog.Database.Rows

/-!
# Listing the rows of a log table

PostgreSQL is asked with a `WHERE` clause and MongoDB with a filter, and the two take different
options: the filter has no place for the status and the batch, the text of the source is a pattern
of `LIKE` for one and a regular expression for the other, each database has its own way to ignore
case, and a limit of zero is no limit for MongoDB. `lists_agree_iff` says for which options both
give the page that was asked for.
-/

namespace HybridLog

open Js

/-! ### Options -/

structure ListOpts where
  limit : Option ℕ
  offset : Option ℕ
  level : Option JsString
  source : Option JsString
  anchorStatus : Option JsString
  /-- `'pending'`: no batch root; `'assigned'`: has one. -/
  batched : Option JsString

structure PageResult where
  rows : List LogRow
  total : ℕ

/-- What a condition on an optional string lets through: the empty string is falsy. -/
def truthy : Option JsString → Option JsString := Option.filter (· ≠ [])

def AnchorStatus.text : AnchorStatus → JsString
  | .pending => ofString "pending"
  | .confirmed => ofString "confirmed"
  | .failed => ofString "failed"

def assignedText : JsString := ofString "assigned"

def pendingText : JsString := ofString "pending"

/-- An order of a query by `timestamp`, the newest first; rows of one time may come in any
order. -/
structure NewestFirst where
  sort : List LogRow → List LogRow
  perm : ∀ rows, (sort rows).Perm rows
  newest : ∀ rows, (sort rows).Pairwise fun r r' => r'.timestamp ≤ r.timestamp

/-- A way to ignore case: characters with one image are not told apart. -/
structure CaseFolding where
  fold : Char → Char
  caseless : Like.Caseless fold

/-- The regular expressions of MongoDB with the option `i`. -/
structure RegexEngine where
  folding : CaseFolding
  /-- There is no test for a text that is no expression. -/
  compile : List Char → Option (List Char → Bool)
  /-- Letters, digits, spaces and `_` stand for themselves. -/
  word : ∀ p, (p.all fun c => c.isAlphanum || c == ' ' || c == '_') →
    ∃ test, compile p = some test ∧ ∀ t, test t ↔ Like.Contains folding.fold p t

/-! ### PostgreSQL -/

inductive Condition
  | level (n : ℤ)
  | source (pattern : JsString)
  | anchorStatus (status : JsString)
  | rootIsNull
  | rootIsNotNull

/-- `%${source}%` -/
def likePattern (source : JsString) : JsString := 0x25 :: (source ++ [0x25])

/-- The conditions of the clause. -/
def buildWhere (opts : ListOpts) : List Condition :=
  (match truthy opts.level with
    | some level => [.level (levelToInt level)]
    | none => []) ++
  (match truthy opts.source with
    | some source => [.source (likePattern source)]
    | none => []) ++
  (match truthy opts.anchorStatus with
    | some status => [.anchorStatus status]
    | none => []) ++
  if opts.batched = some pendingText then [.rootIsNull]
  else if opts.batched = some assignedText then [.rootIsNotNull]
  else []

namespace Condition

/-- The table has the column. -/
def hasColumn : Condition → LogTable → Bool
  | .level _, _ | .source _, _ => true
  | .anchorStatus _, .anchored _ => true
  | .rootIsNull, .batched _ | .rootIsNotNull, .batched _ => true
  | _, _ => false

/-- No text of PostgreSQL has a character zero in it. -/
def isSendable : Condition → Bool
  | .source s | .anchorStatus s => !(chars s).contains '\x00'
  | _ => true

/-- A pattern that `%` ends with is always one, see `Like.parse_sample`. -/
def holds (fold : Char → Char) : Condition → LogRow → Bool
  | .level n, r => r.level = n
  | .source pattern, r => (Like.matchesText fold (chars pattern) (chars r.source)).getD false
  | .anchorStatus status, r => r.anchorStatus.any fun st => st.text = status
  | .rootIsNull, r => r.batchRoot.isNone
  | .rootIsNotNull, r => r.batchRoot.isSome

end Condition

namespace Postgres

variable (ilike : CaseFolding) (order : NewestFirst)

/-- `SELECT * FROM table WHERE …`, which fails if a column is missing or a text cannot be sent. -/
def select (table : LogTable) (clause : List Condition) (rows : List LogRow) :
    Option (List LogRow) :=
  if clause.all fun c => c.hasColumn table && c.isSendable then
    some (rows.filter fun r => clause.all fun c => c.holds ilike.fold r)
  else none

/-- The body that the three functions share; `rows` is the content of the table. -/
def list (table : LogTable) (opts : ListOpts) (rows : List LogRow) : Option PageResult := do
  let limit := opts.limit.getD 50
  let offset := opts.offset.getD 0
  let clause := buildWhere opts
  let counted ← select ilike table clause rows
  let selected ← select ilike table clause rows
  return ⟨((order.sort selected).drop offset).take limit, counted.length⟩

def listOffchain : ListOpts → List LogRow → Option PageResult := list ilike order .offchain

def listAnchored (side : Side) : ListOpts → List LogRow → Option PageResult :=
  list ilike order (.anchored side)

def listBatched (side : Side) : ListOpts → List LogRow → Option PageResult :=
  list ilike order (.batched side)

end Postgres

/-! ### MongoDB -/

structure Filter where
  level : Option ℤ
  /-- `{ $regex, $options: 'i' }` -/
  source : Option JsString

def buildFilter (opts : ListOpts) : Filter where
  level := (truthy opts.level).map levelToInt
  source := truthy opts.source

namespace Mongo

variable (engine : RegexEngine) (order : NewestFirst)

/-- The test of a source, if the expression is one. -/
def sourceTest : Option JsString → Option (List Char → Bool)
  | none => some fun _ => true
  | some s => engine.compile (chars s)

def find (filter : Filter) (rows : List LogRow) : Option (List LogRow) := do
  let test ← sourceTest engine filter.source
  return rows.filter fun r => filter.level.all (r.level = ·) && test (chars r.source)

/-- `.limit(0)` is no limit. -/
def limited (limit : ℕ) (rows : List LogRow) : List LogRow :=
  if limit = 0 then rows else rows.take limit

/-- The body that the three functions share; `docs` is the content of the collection. -/
def list (opts : ListOpts) (docs : List LogRow) : Option PageResult := do
  let limit := opts.limit.getD 50
  let offset := opts.offset.getD 0
  let filter := buildFilter opts
  let counted ← find engine filter docs
  let found ← find engine filter docs
  return ⟨limited limit ((order.sort found).drop offset), counted.length⟩

def listOffchain : ListOpts → List LogRow → Option PageResult := list engine order

def listAnchored (_side : Side) : ListOpts → List LogRow → Option PageResult := list engine order

def listBatched (_side : Side) : ListOpts → List LogRow → Option PageResult := list engine order

end Mongo

/-! ### What is asked for -/

/-- The integer is that of the level with this name, in upper or lower case. -/
def IsLevel (n : ℤ) (level : JsString) : Prop :=
  0 ≤ n ∧ levelNames[n.toNat]? = some (toUpperCase level)

instance (n : ℤ) (level : JsString) : Decidable (IsLevel n level) :=
  inferInstanceAs (Decidable (_ ∧ _))

lemma levelToInt_getElem {level : JsString} {i : ℕ}
    (h : levelNames[i]? = some (toUpperCase level)) : levelToInt level = i := by
  obtain ⟨hi, hlevel⟩ := List.getElem?_eq_some_iff.mp h
  have hall : ∀ i (hi : i < levelNames.length), levelNames.idxOf? levelNames[i] = some i := by
    decide
  rw [levelToInt, ← hlevel, hall i hi]

/-- A text that names no level is taken for `INFO` by the databases, and is no row's level. -/
lemma isLevel_iff {n : ℤ} {level : JsString} :
    IsLevel n level ↔ toUpperCase level ∈ levelNames ∧ n = levelToInt level := by
  constructor
  · rintro ⟨hn, h⟩
    rw [levelToInt_getElem h, Int.toNat_of_nonneg hn]
    exact ⟨List.mem_of_getElem? h, rfl⟩
  · rintro ⟨hmem, rfl⟩
    obtain ⟨i, h⟩ := List.getElem?_of_mem hmem
    rw [levelToInt_getElem h]
    exact ⟨Int.natCast_nonneg i, h⟩

/-- The row is of the level, from the source, and in the state asked for. The case of a source is
ignored. -/
structure Wanted (cf : CaseFolding) (opts : ListOpts) (r : LogRow) : Prop where
  level : ∀ level ∈ truthy opts.level, IsLevel r.level level
  source : ∀ source ∈ truthy opts.source, Like.Contains cf.fold (chars source) (chars r.source)
  anchorStatus : ∀ status ∈ truthy opts.anchorStatus, r.anchorStatus.map AnchorStatus.text = status
  pending : opts.batched = some pendingText → r.batchRoot = none
  assigned : opts.batched = some assignedText → r.batchRoot ≠ none

instance (cf : CaseFolding) (opts : ListOpts) (r : LogRow) : Decidable (Wanted cf opts r) :=
  decidable_of_iff ((∀ level ∈ truthy opts.level, IsLevel r.level level) ∧
      (∀ source ∈ truthy opts.source, Like.Contains cf.fold (chars source) (chars r.source)) ∧
      (∀ status ∈ truthy opts.anchorStatus, r.anchorStatus.map AnchorStatus.text = status) ∧
      (opts.batched = some pendingText → r.batchRoot = none) ∧
      (opts.batched = some assignedText → r.batchRoot ≠ none))
    ⟨fun ⟨h, h', h'', hp, ha⟩ => ⟨h, h', h'', hp, ha⟩, fun h => ⟨h.1, h.2, h.3, h.4, h.5⟩⟩

/-- The rows wanted, the newest first. -/
def wantedRows (cf : CaseFolding) (opts : ListOpts) (rows : List LogRow) : List LogRow :=
  (rows.filter (Wanted cf opts ·)).insertionSort fun r r' => r'.timestamp ≤ r.timestamp

/-- The page of the options. -/
def wantedPage (cf : CaseFolding) (opts : ListOpts) (rows : List LogRow) : PageResult where
  rows := ((wantedRows cf opts rows).drop (opts.offset.getD 0)).take (opts.limit.getD 50)
  total := (wantedRows cf opts rows).length

/-- The row has values in the columns of the table only. -/
def LogTable.Fits : LogTable → LogRow → Prop
  | .offchain, r => r.anchorStatus = none ∧ r.batchRoot = none
  | .anchored _, r => r.anchorStatus ≠ none ∧ r.batchRoot = none
  | .batched _, r => r.anchorStatus = none

/-- The rows make up a table, and no two are of one time. -/
structure LogTable.Contents (table : LogTable) (rows : List LogRow) : Prop where
  fits : ∀ r ∈ rows, table.Fits r
  distinct : (rows.map LogRow.timestamp).Nodup

/-! ### Orders -/

namespace NewestFirst

variable (order : NewestFirst)

/-- Where no two rows are of one time, there is one order. -/
lemma sort_eq {rows : List LogRow} (h : (rows.map LogRow.timestamp).Nodup) :
    order.sort rows = rows.insertionSort fun r r' => r'.timestamp ≤ r.timestamp := by
  have hperm := List.perm_insertionSort (fun r r' : LogRow => r'.timestamp ≤ r.timestamp) rows
  refine List.Perm.eq_of_pairwise (fun r r' hr hr' hle hle' => ?_) (order.newest rows)
    (List.pairwise_insertionSort _ rows) ((order.perm rows).trans hperm.symm)
  exact List.inj_on_of_nodup_map h ((order.perm rows).mem_iff.mp hr) (hperm.mem_iff.mp hr')
    (le_antisymm hle' hle)

end NewestFirst

/-! ### The clause -/

/-- The option asks for rows with a batch, or for rows without one. -/
def ListOpts.AsksForBatch (opts : ListOpts) : Prop :=
  opts.batched = some pendingText ∨ opts.batched = some assignedText

instance (opts : ListOpts) : Decidable opts.AsksForBatch := inferInstanceAs (Decidable (_ ∨ _))

lemma pendingText_ne_assignedText : pendingText ≠ assignedText := by decide

/-- A property of the conditions of a clause, option by option. -/
lemma all_buildWhere {opts : ListOpts} {p : Condition → Bool} :
    (buildWhere opts).all p ↔ (∀ level ∈ truthy opts.level, p (.level (levelToInt level))) ∧
      (∀ source ∈ truthy opts.source, p (.source (likePattern source))) ∧
      (∀ status ∈ truthy opts.anchorStatus, p (.anchorStatus status)) ∧
      (opts.batched = some pendingText → p .rootIsNull) ∧
      (opts.batched = some assignedText → p .rootIsNotNull) := by
  rw [buildWhere, List.all_append, List.all_append, List.all_append, Bool.and_eq_true,
    Bool.and_eq_true, Bool.and_eq_true, and_assoc, and_assoc]
  refine and_congr ?_ (and_congr ?_ (and_congr ?_ ?_))
  · cases truthy opts.level <;> simp
  · cases truthy opts.source <;> simp
  · cases truthy opts.anchorStatus <;> simp
  · split
    · rename_i h
      simp [h, pendingText_ne_assignedText]
    · split
      · rename_i h h'
        simp [h', pendingText_ne_assignedText.symm]
      · rename_i h h'
        simp [h, h']

lemma chars_likePattern (source : JsString) :
    chars (likePattern source) = Like.within (chars source) := by
  rw [likePattern, chars_cons rfl, chars_append_singleton rfl]
  rfl

lemma zero_mem_within {t : List Char} : '\x00' ∈ Like.within t ↔ '\x00' ∈ t := by
  simp [Like.within]

/-- PostgreSQL takes the query. -/
lemma all_sendable {opts : ListOpts} {table : LogTable} :
    ((buildWhere opts).all fun c => c.hasColumn table && c.isSendable) ↔
      (∀ source ∈ truthy opts.source, '\x00' ∉ chars source) ∧
      (∀ status ∈ truthy opts.anchorStatus, '\x00' ∉ chars status ∧ ∃ s, table = .anchored s) ∧
      (opts.AsksForBatch → ∃ s, table = .batched s) := by
  have hsource (source : JsString) : Condition.isSendable (.source (likePattern source)) ↔
      '\x00' ∉ chars source := by
    rw [Condition.isSendable, chars_likePattern, Bool.not_eq_true', ← Bool.not_eq_true,
      List.contains_iff_mem, zero_mem_within]
  rw [all_buildWhere]
  simp only [Bool.and_eq_true, hsource, ListOpts.AsksForBatch]
  cases table <;> simp [Condition.hasColumn, Condition.isSendable]

/-- What the clause selects: the source is matched with a pattern. -/
lemma all_holds {ilike : CaseFolding} {opts : ListOpts} {r : LogRow} :
    (buildWhere opts).all (Condition.holds ilike.fold · r) ↔
      (∀ level ∈ truthy opts.level, r.level = levelToInt level) ∧
      (∀ source ∈ truthy opts.source,
        Like.matchesText ilike.fold (Like.within (chars source)) (chars r.source) = some true) ∧
      (∀ status ∈ truthy opts.anchorStatus, r.anchorStatus.map AnchorStatus.text = status) ∧
      (opts.batched = some pendingText → r.batchRoot = none) ∧
      (opts.batched = some assignedText → r.batchRoot ≠ none) := by
  rw [all_buildWhere]
  refine and_congr ?_ (and_congr ?_ (and_congr ?_ (and_congr ?_ ?_)))
  · simp [Condition.holds]
  · simp only [Condition.holds, chars_likePattern]
    refine forall₂_congr fun source _ => ?_
    cases Like.matchesText ilike.fold (Like.within (chars source)) (chars r.source) <;> simp
  · simp only [Condition.holds]
    cases r.anchorStatus <;> simp
  · simp [Condition.holds]
  · simp [Condition.holds, Option.isSome_iff_ne_none]

/-! ### What each database gives -/

/-- A list of one row tells whether two predicates agree on it. -/
lemma iff_of_length_filter {p q : LogRow → Bool} {r : LogRow}
    (h : ([r].filter p).length = ([r].filter q).length) : p r ↔ q r := by
  cases hp : p r <;> cases hq : q r <;> simp [hp, hq] at h ⊢

section Answers

variable {cf ilike : CaseFolding} {engine : RegexEngine} {opts : ListOpts} {table : LogTable}

lemma LogTable.Contents.filter {rows : List LogRow} (h : table.Contents rows)
    (p : LogRow → Bool) : ((rows.filter p).map LogRow.timestamp).Nodup :=
  h.distinct.sublist (List.filter_sublist.map _)

lemma LogTable.contents_nil : table.Contents [] :=
  ⟨fun _ h => absurd h List.not_mem_nil, List.nodup_nil⟩

lemma LogTable.Fits.contents {r : LogRow} (h : table.Fits r) : table.Contents [r] :=
  ⟨fun _ hr => List.mem_singleton.mp hr ▸ h, List.nodup_singleton _⟩

lemma length_wantedRows (rows : List LogRow) :
    (wantedRows cf opts rows).length = (rows.filter (Wanted cf opts ·)).length :=
  List.length_insertionSort ..

/-- PostgreSQL gives the page for every content exactly if it takes the query and the clause
selects the rows wanted. -/
lemma Postgres.list_eq_iff (order : NewestFirst) :
    (∀ rows, table.Contents rows →
      Postgres.list ilike order table opts rows = some (wantedPage cf opts rows)) ↔
    ((buildWhere opts).all fun c => c.hasColumn table && c.isSendable) ∧
      ∀ r, table.Fits r →
        ((buildWhere opts).all (Condition.holds ilike.fold · r) ↔ Wanted cf opts r) := by
  constructor
  · intro h
    have hsend : (buildWhere opts).all fun c => c.hasColumn table && c.isSendable := by
      by_contra hsend
      have := h [] LogTable.contents_nil
      rw [Postgres.list, Postgres.select, if_neg hsend] at this
      cases this
    refine ⟨hsend, fun r hr => ?_⟩
    have hpage := h [r] hr.contents
    rw [Postgres.list, Postgres.select, if_pos hsend] at hpage
    have htotal := congrArg PageResult.total (Option.some.inj hpage)
    rw [wantedPage, length_wantedRows] at htotal
    simpa using iff_of_length_filter htotal
  · rintro ⟨hsend, hholds⟩ rows hrows
    have hfilter : (rows.filter fun r => (buildWhere opts).all (Condition.holds ilike.fold · r))
        = rows.filter (Wanted cf opts ·) := by
      refine List.filter_congr fun r hr => ?_
      rw [Bool.eq_iff_iff, decide_eq_true_iff]
      exact hholds r (hrows.fits r hr)
    rw [Postgres.list, Postgres.select, if_pos hsend, hfilter]
    simp only [Option.bind_eq_bind, Option.bind_some, order.sort_eq (hrows.filter _)]
    rw [← length_wantedRows]
    rfl

/-- Rows that differ in their times only. -/
def LogRow.copies (r : LogRow) (n : ℕ) : List LogRow :=
  (List.range n).map fun i => { r with timestamp := Int.ofNat i }

lemma LogRow.wanted_timestamp {r : LogRow} (t : ℤ) :
    Wanted cf opts { r with timestamp := t } ↔ Wanted cf opts r :=
  ⟨fun h => ⟨h.1, h.2, h.3, h.4, h.5⟩, fun h => ⟨h.1, h.2, h.3, h.4, h.5⟩⟩

lemma LogTable.Fits.contents_copies {r : LogRow} (h : table.Fits r) (n : ℕ) :
    table.Contents (r.copies n) := by
  constructor
  · intro r' hr'
    obtain ⟨i, -, rfl⟩ := List.mem_map.mp hr'
    cases table <;> exact h
  · rw [LogRow.copies, List.map_map]
    refine List.nodup_range.map fun i j hij => ?_
    exact Int.ofNat_inj.mp hij

lemma length_wantedRows_copies {r : LogRow} (h : Wanted cf opts r) (n : ℕ) :
    (wantedRows cf opts (r.copies n)).length = n := by
  have hall : (r.copies n).filter (Wanted cf opts ·) = r.copies n := ?_
  · rw [length_wantedRows, hall, LogRow.copies, List.length_map, List.length_range]
  rw [List.filter_eq_self]
  intro r' hr'
  obtain ⟨i, -, rfl⟩ := List.mem_map.mp hr'
  exact decide_eq_true ((LogRow.wanted_timestamp _).mpr h)

/-- What the filter selects, with the test of the source. -/
def Mongo.Found (opts : ListOpts) (test : List Char → Bool) (r : LogRow) : Prop :=
  (∀ level ∈ truthy opts.level, r.level = levelToInt level) ∧ test (chars r.source)

instance (test : List Char → Bool) (r : LogRow) : Decidable (Mongo.Found opts test r) :=
  inferInstanceAs (Decidable (_ ∧ _))

lemma Mongo.list_of_test (order : NewestFirst) {test : List Char → Bool}
    (h : Mongo.sourceTest engine (truthy opts.source) = some test) (rows : List LogRow) :
    Mongo.list engine order opts rows = some
      ⟨Mongo.limited (opts.limit.getD 50)
        ((order.sort (rows.filter (Mongo.Found opts test ·))).drop (opts.offset.getD 0)),
        (rows.filter (Mongo.Found opts test ·)).length⟩ := by
  have hfilter : (rows.filter fun r => ((truthy opts.level).map levelToInt).all (r.level = ·) &&
      test (chars r.source)) = rows.filter (Mongo.Found opts test ·) := by
    refine List.filter_congr fun r _ => ?_
    rw [Bool.eq_iff_iff, decide_eq_true_iff, Mongo.Found]
    cases truthy opts.level <;> simp
  have hfind : Mongo.find engine (buildFilter opts) rows
      = some (rows.filter (Mongo.Found opts test ·)) := by
    rw [← hfilter, Mongo.find, buildFilter, h]
    rfl
  rw [Mongo.list, hfind]
  rfl

/-- MongoDB gives the page for every content exactly if the source is an expression, the filter
finds the rows wanted, and no row is wanted where the limit is zero. -/
lemma Mongo.list_eq_iff (order : NewestFirst) :
    (∀ rows, table.Contents rows →
      Mongo.list engine order opts rows = some (wantedPage cf opts rows)) ↔
    ∃ test, Mongo.sourceTest engine (truthy opts.source) = some test ∧
      (∀ r, table.Fits r → (Mongo.Found opts test r ↔ Wanted cf opts r)) ∧
      (opts.limit = some 0 → ∀ r, table.Fits r → ¬ Wanted cf opts r) := by
  cases htest : Mongo.sourceTest engine (truthy opts.source) with
  | none =>
    have hnone : Mongo.list engine order opts [] = none := by
      rw [Mongo.list, Mongo.find, buildFilter, htest]
      rfl
    simp only [reduceCtorEq, false_and, exists_false, iff_false]
    intro h
    have := h [] LogTable.contents_nil
    rw [hnone] at this
    cases this
  | some test =>
    simp only [Mongo.list_of_test order htest, Option.some.injEq, exists_eq_left']
    have hcongr (hfind : ∀ r, table.Fits r → (Mongo.Found opts test r ↔ Wanted cf opts r))
        {rows : List LogRow} (hrows : table.Contents rows) :
        rows.filter (Mongo.Found opts test ·) = rows.filter (Wanted cf opts ·) := by
      refine List.filter_congr fun r hr => ?_
      rw [Bool.eq_iff_iff, decide_eq_true_iff, decide_eq_true_iff]
      exact hfind r (hrows.fits r hr)
    constructor
    · intro h
      have hfind (r : LogRow) (hr : table.Fits r) :
          Mongo.Found opts test r ↔ Wanted cf opts r := by
        have htotal := congrArg PageResult.total (h [r] hr.contents)
        rw [wantedPage, length_wantedRows] at htotal
        simpa using iff_of_length_filter htotal
      refine ⟨hfind, fun hlimit r hr hw => ?_⟩
      -- one row more than the offset leaves out
      have hcopies := hr.contents_copies (opts.offset.getD 0 + 1)
      have hpage := congrArg (fun p => p.rows.length) (h _ hcopies)
      have hlen := length_wantedRows_copies hw (opts.offset.getD 0 + 1)
      rw [hcongr hfind hcopies, order.sort_eq (hcopies.filter _), ← wantedRows, hlimit] at hpage
      simp [Mongo.limited, wantedPage, hlimit, hlen] at hpage
    · rintro ⟨hfind, hlimit⟩ rows hrows
      rw [hcongr hfind hrows, order.sort_eq (hrows.filter _), ← wantedRows, ← length_wantedRows,
        wantedPage, PageResult.mk.injEq, Mongo.limited]
      refine ⟨?_, rfl⟩
      split
      · rename_i hzero
        have hnone : rows.filter (Wanted cf opts ·) = [] := by
          rw [List.filter_eq_nil_iff]
          intro r hr hw
          have hlim : opts.limit = some 0 := by
            cases hl : opts.limit with
            | none => simp [hl] at hzero
            | some n => simpa [hl] using hzero
          exact hlimit hlim r (hrows.fits r hr) (of_decide_eq_true hw)
        simp [wantedRows, hnone]
      · rfl

end Answers

/-! ### When both give the page -/

section Agreement

variable {cf ilike : CaseFolding}

/-- The expression finds the texts that it occurs in, case ignored. -/
def RegexEngine.Literal (engine : RegexEngine) (cf : CaseFolding) (p : List Char) : Prop :=
  ∃ test, engine.compile p = some test ∧ ∀ t, test t ↔ Like.Contains cf.fold p t

/-- The expression finds no text. -/
def RegexEngine.Never (engine : RegexEngine) (p : List Char) : Prop :=
  ∃ test, engine.compile p = some test ∧ ∀ t, test t = false

/-- Words are found literally exactly if the engine tells their characters apart alike. -/
lemma RegexEngine.literal_word_iff (engine : RegexEngine) {p : List Char}
    (hp : p.all fun c => c.isAlphanum || c == ' ' || c == '_') :
    engine.Literal cf p ↔ Like.SameVariants engine.folding.fold cf.fold p := by
  obtain ⟨test, hcompile, htest⟩ := engine.word p hp
  rw [← Like.contains_congr_iff]
  constructor
  · rintro ⟨test', hcompile', htest'⟩ t
    rw [← htest, ← htest', Option.some.inj (hcompile.symm.trans hcompile')]
  · exact fun h => ⟨test, hcompile, fun t => (htest t).trans (h t)⟩

/-- Only the level and a source that both take literally are asked for, and some rows. -/
structure ListOpts.Common (cf ilike : CaseFolding) (engine : RegexEngine) (opts : ListOpts) :
    Prop where
  limit : opts.limit ≠ some 0
  level : ∀ level ∈ truthy opts.level, toUpperCase level ∈ levelNames
  anchorStatus : truthy opts.anchorStatus = none
  batched : ¬ opts.AsksForBatch
  source : ∀ source ∈ truthy opts.source, '\x00' ∉ chars source ∧ Like.Plain (chars source) ∧
    Like.SameVariants ilike.fold cf.fold (chars source) ∧ engine.Literal cf (chars source)

/-- The status is none of the three, so PostgreSQL finds nothing, and the expression finds
nothing either. -/
structure ListOpts.Vain (engine : RegexEngine) (table : LogTable) (opts : ListOpts) :
    Prop where
  table : ∃ s, table = .anchored s
  anchorStatus : ∃ status ∈ truthy opts.anchorStatus, '\x00' ∉ chars status ∧
    ∀ st : AnchorStatus, st.text ≠ status
  batched : ¬ opts.AsksForBatch
  source : ∃ source ∈ truthy opts.source, '\x00' ∉ chars source ∧ engine.Never (chars source)

variable {engine : RegexEngine} {opts : ListOpts} {table : LogTable}

/-- A row of the level asked for. -/
def ListOpts.probe (opts : ListOpts) (source : List Char) (status : Option AnchorStatus)
    (root : Option JsString) : LogRow where
  id := []
  timestamp := 0
  level := (truthy opts.level).elim 0 levelToInt
  source := source.flatMap utf16Encode
  message := []
  metadata := emptyColumn
  contentHash := []
  anchorStatus := status
  anchorTxHash := none
  anchoredAt := none
  batchRoot := root
  leafIndex := none

/-- A text that the pattern of the source lets through. -/
def ListOpts.sourceText (opts : ListOpts) : List Char :=
  (truthy opts.source).elim [] fun source => Like.sample (chars source)

section Probe

variable {text : List Char} {status : Option AnchorStatus} {root : Option JsString}

lemma probe_level : ∀ level ∈ truthy opts.level,
    (opts.probe text status root).level = levelToInt level := by
  intro level hl
  rw [ListOpts.probe, Option.mem_def.mp hl]
  rfl

lemma found_probe {test : List Char → Bool} :
    Mongo.Found opts test (opts.probe text status root) ↔ test text := by
  rw [Mongo.Found, and_iff_right probe_level, ListOpts.probe, chars_flatMap_utf16Encode]

lemma wanted_probe : Wanted cf opts (opts.probe text status root) ↔
    (∀ level ∈ truthy opts.level, toUpperCase level ∈ levelNames) ∧
    (∀ source ∈ truthy opts.source, Like.Contains cf.fold (chars source) text) ∧
    (∀ a ∈ truthy opts.anchorStatus, status.map AnchorStatus.text = a) ∧
    (opts.batched = some pendingText → root = none) ∧
    (opts.batched = some assignedText → root ≠ none) := by
  have hchars : chars (opts.probe text status root).source = text := chars_flatMap_utf16Encode text
  constructor
  · rintro ⟨hl, h, h', hp, ha⟩
    rw [hchars] at h
    exact ⟨fun level hlevel => (isLevel_iff.mp (hl level hlevel)).1, h, h', hp, ha⟩
  · rintro ⟨hl, h, h', hp, ha⟩
    refine ⟨fun level hlevel => isLevel_iff.mpr ⟨hl level hlevel, probe_level level hlevel⟩, ?_,
      h', hp, ha⟩
    rw [hchars]
    exact h

lemma holds_probe :
    (buildWhere opts).all (Condition.holds ilike.fold · (opts.probe text status root)) ↔
    (∀ source ∈ truthy opts.source,
      Like.matchesText ilike.fold (Like.within (chars source)) text = some true) ∧
    (∀ a ∈ truthy opts.anchorStatus, status.map AnchorStatus.text = a) ∧
    (opts.batched = some pendingText → root = none) ∧
    (opts.batched = some assignedText → root ≠ none) := by
  rw [all_holds, and_iff_right probe_level, ListOpts.probe, chars_flatMap_utf16Encode]

/-- PostgreSQL selects some row, unless the status or the batch shuts it out. -/
lemma holds_sourceText :
    (buildWhere opts).all
      (Condition.holds ilike.fold · (opts.probe opts.sourceText status root)) ↔
    (∀ a ∈ truthy opts.anchorStatus, status.map AnchorStatus.text = a) ∧
    (opts.batched = some pendingText → root = none) ∧
    (opts.batched = some assignedText → root ≠ none) := by
  rw [holds_probe, and_iff_right]
  intro source hs
  rw [ListOpts.sourceText, Option.mem_def.mp hs]
  exact Like.matches_sample ilike.fold (chars source)

end Probe

/-- Where the test never succeeds, a source is given. -/
lemma source_of_never {test : List Char → Bool}
    (htest : Mongo.sourceTest engine (truthy opts.source) = some test)
    (h : ∀ text, test text = false) :
    ∃ source ∈ truthy opts.source, engine.Never (chars source) := by
  cases hs : truthy opts.source with
  | none =>
    rw [hs, Mongo.sourceTest, Option.some_inj] at htest
    rw [← htest] at h
    exact absurd (h []) (by decide)
  | some source =>
    rw [hs] at htest
    exact ⟨source, rfl, test, htest, h⟩

lemma LogTable.exists_fits (table : LogTable) : ∃ status : Option AnchorStatus, ∀ opts text,
    table.Fits (ListOpts.probe opts text status none) := by
  cases table with
  | offchain => exact ⟨none, fun _ _ => ⟨rfl, rfl⟩⟩
  | anchored s => exact ⟨some .pending, fun _ _ => ⟨Option.some_ne_none _, rfl⟩⟩
  | batched s => exact ⟨none, fun _ _ => rfl⟩

section Agreed

variable {test : List Char → Bool}
  (hsend : (buildWhere opts).all fun c => c.hasColumn table && c.isSendable)
  (hholds : ∀ r, table.Fits r →
    ((buildWhere opts).all (Condition.holds ilike.fold · r) ↔ Wanted cf opts r))
  (hfound : ∀ r, table.Fits r → (Mongo.Found opts test r ↔ Wanted cf opts r))

include hsend hholds hfound

/-- A status asked for is not looked at by the filter, so no row may be found or wanted. -/
lemma vain_of_anchorStatus {a : JsString} (hstatus : truthy opts.anchorStatus = some a)
    (htest : Mongo.sourceTest engine (truthy opts.source) = some test) :
    opts.Vain engine table := by
  obtain ⟨hsource, hanchored, hbatched⟩ := all_sendable.mp hsend
  obtain ⟨hzero, s, rfl⟩ := hanchored a hstatus
  have hnot : ¬ opts.AsksForBatch := fun h => by
    obtain ⟨s', hs'⟩ := hbatched h
    cases hs'
  have hfits (text : List Char) (st : AnchorStatus) :
      (LogTable.anchored s).Fits (opts.probe text (some st) none) := ⟨Option.some_ne_none st, rfl⟩
  have hstatus_of_test (text : List Char) (st : AnchorStatus) (h : test text) : st.text = a := by
    have hwanted := (hfound _ (hfits text st)).mp (found_probe.mpr h)
    exact Option.some.inj (hwanted.anchorStatus a hstatus)
  have hnever (text : List Char) : test text = false := by
    by_contra htrue
    rw [Bool.not_eq_false] at htrue
    have hpending := hstatus_of_test text .pending htrue
    rw [← hstatus_of_test text .confirmed htrue] at hpending
    exact absurd hpending (by decide)
  refine ⟨⟨s, rfl⟩, ⟨a, hstatus, hzero, fun st hst => ?_⟩, hnot, ?_⟩
  · -- PostgreSQL would find a row with this status
    have hrow := (hholds _ (hfits opts.sourceText st)).mp <| holds_sourceText.mpr
      ⟨fun a' ha' => (congrArg some hst).trans (hstatus.symm.trans ha'), fun _ => rfl,
        fun h => absurd (.inr h) hnot⟩
    have := found_probe.mp ((hfound _ (hfits opts.sourceText st)).mpr hrow)
    rw [hnever] at this
    cases this
  · obtain ⟨source, hs, hnever⟩ := source_of_never htest hnever
    exact ⟨source, hs, hsource source hs, hnever⟩

/-- Nor is a batch asked for looked at, and some row is always selected. -/
lemma not_asksForBatch (hstatus : truthy opts.anchorStatus = none) : ¬ opts.AsksForBatch := by
  intro hasks
  obtain ⟨s, rfl⟩ := (all_sendable.mp hsend).2.2 hasks
  have hfits (root : Option JsString) :
      (LogTable.batched s).Fits (opts.probe opts.sourceText none root) := rfl
  -- the filter finds both rows or none
  have hboth (root root' : Option JsString)
      (h : Wanted cf opts (opts.probe opts.sourceText none root)) :
      Wanted cf opts (opts.probe opts.sourceText none root') :=
    (hfound _ (hfits root')).mp (found_probe.mpr (found_probe.mp ((hfound _ (hfits root)).mpr h)))
  have hnone : ∀ a ∈ truthy opts.anchorStatus, Option.map AnchorStatus.text none = some a := by
    simp [hstatus]
  rcases hasks with h | h
  · have hrow := (hholds _ (hfits none)).mp <| holds_sourceText.mpr
      ⟨hnone, fun _ => rfl, fun h' => absurd (h.symm.trans h') (by decide)⟩
    cases (hboth none (some []) hrow).pending h
  · have hrow := (hholds _ (hfits (some []))).mp <| holds_sourceText.mpr
      ⟨hnone, fun h' => absurd (h.symm.trans h') (by decide), fun _ => Option.some_ne_none _⟩
    exact (hboth (some []) none hrow).assigned h rfl

lemma common_of_agree (hstatus : truthy opts.anchorStatus = none) (hnot : ¬ opts.AsksForBatch)
    (htest : Mongo.sourceTest engine (truthy opts.source) = some test)
    (hlimit : opts.limit = some 0 → ∀ r, table.Fits r → ¬ Wanted cf opts r) :
    opts.Common cf ilike engine := by
  obtain ⟨status, hfits⟩ := table.exists_fits
  have hassigned : opts.batched ≠ some assignedText := fun h => hnot (.inr h)
  have hrow : Wanted cf opts (opts.probe opts.sourceText status none) := by
    refine (hholds _ (hfits opts opts.sourceText)).mp (holds_sourceText.mpr ⟨?_, fun _ => rfl, ?_⟩)
    · simp [hstatus]
    · exact fun h => absurd h hassigned
  have hlevel := (wanted_probe.mp hrow).1
  have hwanted (text : List Char) : Wanted cf opts (opts.probe text status none) ↔
      ∀ source ∈ truthy opts.source, Like.Contains cf.fold (chars source) text := by
    rw [wanted_probe, and_iff_right hlevel]
    simp [hstatus, hassigned]
  refine ⟨fun h => hlimit h _ (hfits opts opts.sourceText) hrow, hlevel, hstatus, hnot,
    fun source hs => ?_⟩
  have hs' := Option.mem_def.mp hs
  have hliteral (text : List Char) :
      Like.matchesText ilike.fold (Like.within (chars source)) text = some true ↔
        Like.Contains cf.fold (chars source) text := by
    have := hholds _ (hfits opts text)
    rw [holds_probe, hwanted] at this
    simpa [hs', hstatus, hassigned] using this
  obtain ⟨hplain, hsame⟩ := (Like.literal_iff cf.caseless).mp hliteral
  refine ⟨(all_sendable.mp hsend).1 source hs, hplain, hsame, test, ?_, fun text => ?_⟩
  · rwa [hs'] at htest
  · have := hfound _ (hfits opts text)
    rw [found_probe, hwanted] at this
    simpa [hs'] using this

end Agreed

lemma ListOpts.Common.sendable (h : opts.Common cf ilike engine) :
    (buildWhere opts).all fun c => c.hasColumn table && c.isSendable := by
  refine all_sendable.mpr ⟨fun source hs => (h.source source hs).1, fun a ha => ?_, fun hasks => ?_⟩
  · rw [h.anchorStatus] at ha
    cases ha
  · exact absurd hasks h.batched

/-- A row is wanted if its level and its source are. -/
lemma ListOpts.Common.wanted_iff (h : opts.Common cf ilike engine) (r : LogRow) :
    Wanted cf opts r ↔ (∀ level ∈ truthy opts.level, r.level = levelToInt level) ∧
      ∀ source ∈ truthy opts.source, Like.Contains cf.fold (chars source) (chars r.source) := by
  have hlevel : (∀ level ∈ truthy opts.level, IsLevel r.level level) ↔
      ∀ level ∈ truthy opts.level, r.level = levelToInt level :=
    forall₂_congr fun level hl => isLevel_iff.trans (and_iff_right (h.level level hl))
  rw [← hlevel]
  constructor
  · exact fun hw => ⟨hw.level, hw.source⟩
  · rintro ⟨hl, hs⟩
    refine ⟨hl, hs, fun a ha => ?_, fun hb => absurd (.inl hb) h.batched,
      fun hb => absurd (.inr hb) h.batched⟩
    rw [h.anchorStatus] at ha
    cases ha

lemma ListOpts.Common.holds_iff (h : opts.Common cf ilike engine) (r : LogRow) :
    (buildWhere opts).all (Condition.holds ilike.fold · r) ↔ Wanted cf opts r := by
  have hliteral : ∀ source ∈ truthy opts.source, ∀ text,
      Like.matchesText ilike.fold (Like.within (chars source)) text = some true ↔
        Like.Contains cf.fold (chars source) text :=
    fun source hs => (Like.literal_iff cf.caseless).mpr
      ⟨(h.source source hs).2.1, (h.source source hs).2.2.1⟩
  rw [all_holds, h.wanted_iff]
  constructor
  · rintro ⟨hl, hs, -⟩
    exact ⟨hl, fun source hso => (hliteral source hso _).mp (hs source hso)⟩
  · rintro ⟨hl, hs⟩
    refine ⟨hl, fun source hso => (hliteral source hso _).mpr (hs source hso), fun a ha => ?_,
      fun hb => absurd (.inl hb) h.batched, fun hb => absurd (.inr hb) h.batched⟩
    rw [h.anchorStatus] at ha
    cases ha

lemma ListOpts.Common.exists_test (h : opts.Common cf ilike engine) :
    ∃ test, Mongo.sourceTest engine (truthy opts.source) = some test ∧
      ∀ r, Mongo.Found opts test r ↔ Wanted cf opts r := by
  have hsource := h.source
  have hwanted := h.wanted_iff
  cases hs : truthy opts.source with
  | none => exact ⟨fun _ => true, rfl, fun r => by simp [Mongo.Found, hwanted, hs]⟩
  | some source =>
    obtain ⟨test, htest, hlit⟩ := (hsource source hs).2.2.2
    exact ⟨test, htest, fun r => by simp [Mongo.Found, hwanted, hs, hlit]⟩

lemma ListOpts.Vain.sendable (h : opts.Vain engine table) :
    (buildWhere opts).all fun c => c.hasColumn table && c.isSendable := by
  obtain ⟨a, ha, hzero, -⟩ := h.anchorStatus
  obtain ⟨source, hs, hzero', -⟩ := h.source
  refine all_sendable.mpr ⟨fun source' hs' => ?_, fun a' ha' => ?_, fun hasks => ?_⟩
  · rwa [Option.mem_unique hs' hs]
  · rw [Option.mem_unique ha' ha]
    exact ⟨hzero, h.table⟩
  · exact absurd hasks h.batched

lemma ListOpts.Vain.not_status (h : opts.Vain engine table) (status : Option AnchorStatus) :
    ¬ ∀ a ∈ truthy opts.anchorStatus, status.map AnchorStatus.text = a := by
  intro hall
  obtain ⟨a, ha, -, hne⟩ := h.anchorStatus
  obtain ⟨st, -, hst⟩ := Option.map_eq_some_iff.mp (hall a ha)
  exact hne st hst

lemma ListOpts.Vain.exists_test (h : opts.Vain engine table) :
    ∃ test, Mongo.sourceTest engine (truthy opts.source) = some test ∧
      ∀ r, ¬ Mongo.Found opts test r := by
  obtain ⟨source, hs, -, test, htest, hnever⟩ := h.source
  refine ⟨test, by rw [Option.mem_def.mp hs]; exact htest, fun r hr => ?_⟩
  have := hr.2
  rw [hnever] at this
  cases this

end Agreement

/-- The function of PostgreSQL that lists the table. -/
def Postgres.listTable (ilike : CaseFolding) (order : NewestFirst) :
    LogTable → ListOpts → List LogRow → Option PageResult
  | .offchain => Postgres.listOffchain ilike order
  | .anchored side => Postgres.listAnchored ilike order side
  | .batched side => Postgres.listBatched ilike order side

/-- The function of MongoDB that lists the collection. -/
def Mongo.listTable (engine : RegexEngine) (order : NewestFirst) :
    LogTable → ListOpts → List LogRow → Option PageResult
  | .offchain => Mongo.listOffchain engine order
  | .anchored side => Mongo.listAnchored engine order side
  | .batched side => Mongo.listBatched engine order side

@[simp] lemma Postgres.listTable_eq (ilike : CaseFolding) (order : NewestFirst)
    (table : LogTable) :
    Postgres.listTable ilike order table = Postgres.list ilike order table := by
  cases table <;> rfl

@[simp] lemma Mongo.listTable_eq (engine : RegexEngine) (order : NewestFirst)
    (table : LogTable) : Mongo.listTable engine order table = Mongo.list engine order := by
  cases table <;> rfl

/-- Both databases give the page of the options, whatever the table contains, exactly if the
options are common to both, or nothing can be found by either. -/
theorem lists_agree_iff (cf ilike : CaseFolding) (engine : RegexEngine)
    (pgOrder mongoOrder : NewestFirst) (table : LogTable) (opts : ListOpts) :
    (∀ rows, table.Contents rows →
      Postgres.listTable ilike pgOrder table opts rows = some (wantedPage cf opts rows) ∧
      Mongo.listTable engine mongoOrder table opts rows = some (wantedPage cf opts rows)) ↔
    opts.Common cf ilike engine ∨ opts.Vain engine table := by
  simp only [Postgres.listTable_eq, Mongo.listTable_eq, forall_and]
  rw [Postgres.list_eq_iff, Mongo.list_eq_iff]
  constructor
  · rintro ⟨⟨hsend, hholds⟩, test, htest, hfound, hlimit⟩
    cases hstatus : truthy opts.anchorStatus with
    | some a => exact .inr (vain_of_anchorStatus hsend hholds hfound hstatus htest)
    | none =>
      have hnot := not_asksForBatch hsend hholds hfound hstatus
      exact .inl (common_of_agree hsend hholds hfound hstatus hnot htest hlimit)
  · rintro (h | h)
    · obtain ⟨test, htest, hfound⟩ := h.exists_test
      exact ⟨⟨h.sendable, fun r _ => h.holds_iff r⟩, test, htest, fun r _ => hfound r,
        fun hlimit => absurd hlimit h.limit⟩
    · obtain ⟨test, htest, hfound⟩ := h.exists_test
      have hwanted (r : LogRow) : ¬ Wanted cf opts r := fun hw => h.not_status _ hw.anchorStatus
      refine ⟨⟨h.sendable, fun r _ => iff_of_false (fun hr => ?_) (hwanted r)⟩, test, htest,
        fun r _ => iff_of_false (hfound r) (hwanted r), fun _ r _ => hwanted r⟩
      exact h.not_status _ (all_holds.mp hr).2.2.1

/-! ### Two ways to ignore case -/

lemma caseless_toLower : Like.Caseless Char.toLower := by
  intro c hc d hd
  have hlow : c.toLower = c ∧ (c.val.toNat < 97 ∨ 122 < c.val.toNat) := by
    simp only [Like.special, List.mem_cons, List.not_mem_nil, or_false] at hc
    rcases hc with rfl | rfl | rfl <;> decide
  rw [hlow.1] at hd
  delta Char.toLower at hd
  split at hd
  · rename_i hupper
    have hval := congrArg (fun c => c.val.toNat) hd
    have h65 : (65 : ℕ) ≤ d.val.toNat := hupper.1
    have h90 : d.val.toNat ≤ (90 : ℕ) := hupper.2
    simp only [UInt32.toNat_add] at hval
    have h32 : ('a'.val - 'A'.val).toNat = 32 := rfl
    omega
  · exact hd

def asciiFolding : CaseFolding := ⟨Char.toLower, caseless_toLower⟩

/-- The long s is an s, and the sign for kelvin a k. -/
def unicodeFold (c : Char) : Char :=
  if c = 'ſ' then 's' else if c = '\u212a' then 'k' else c.toLower

/-- Other characters have the variants that they have in ASCII. -/
lemma unicodeFold_eq_iff {c : Char} (h : unicodeFold c = c.toLower)
    (hc : c.toLower ∉ ['s', 'k', 'ſ', '\u212a']) (d : Char) :
    unicodeFold c = unicodeFold d ↔ c.toLower = d.toLower := by
  simp only [List.mem_cons, List.not_mem_nil, or_false, not_or] at hc
  obtain ⟨hs, hk, hlong, hkelvin⟩ := hc
  rw [h, unicodeFold]
  split
  · rename_i hd
    rw [hd]
    exact iff_of_false hs hlong
  · split
    · rename_i hd
      rw [hd]
      exact iff_of_false hk hkelvin
    · exact Iff.rfl

def unicodeFolding : CaseFolding where
  fold := unicodeFold
  caseless c hc d hd := by
    have hlow : unicodeFold c = c.toLower ∧ c.toLower ≠ 's' ∧ c.toLower ≠ 'k' := by
      simp only [Like.special, List.mem_cons, List.not_mem_nil, or_false] at hc
      rcases hc with rfl | rfl | rfl <;> decide
    rw [hlow.1, unicodeFold] at hd
    split at hd
    · exact absurd hd.symm hlow.2.1
    · split at hd
      · exact absurd hd.symm hlow.2.2
      · exact caseless_toLower c hc d hd

/-- Expressions without any operators. -/
def wordEngine : RegexEngine where
  folding := unicodeFolding
  compile p := some fun t => decide (Like.Contains unicodeFold p t)
  word _ _ := ⟨_, rfl, fun _ => decide_eq_true_iff⟩

def byInsertion : NewestFirst where
  sort rows := rows.insertionSort fun r r' => r'.timestamp ≤ r.timestamp
  perm := List.perm_insertionSort _
  newest := List.pairwise_insertionSort _

/-- The second page of the warnings of some source. -/
def warnings (source : JsString) : ListOpts where
  limit := some 1
  offset := some 1
  level := some (ofString "warn")
  source := some source
  anchorStatus := none
  batched := none

/-- A row of that level. -/
def warningRow (source : List Char) (timestamp : ℤ) : LogRow :=
  { (warnings []).probe source (some .pending) none with timestamp := timestamp }

def warningRows : List LogRow :=
  [warningRow ['a', 'p', 'i'] 1, warningRow ['A', 'P', 'I'] 3, warningRow ['d', 'b'] 4,
    { warningRow ['a', 'p', 'i'] 5 with level := 3 }]

/-- Both list the warnings of `Api`. An s is found in a long s by one of them only. -/
theorem warnings_listed :
    (∀ rows, (LogTable.anchored .priv).Contents rows →
      Postgres.listTable asciiFolding byInsertion (.anchored .priv) (warnings (ofString "Api")) rows
          = some (wantedPage asciiFolding (warnings (ofString "Api")) rows) ∧
      Mongo.listTable wordEngine byInsertion (.anchored .priv) (warnings (ofString "Api")) rows
          = some (wantedPage asciiFolding (warnings (ofString "Api")) rows)) ∧
    (wantedPage asciiFolding (warnings (ofString "Api")) warningRows).rows.map LogRow.timestamp
      = [1] ∧
    (wantedPage asciiFolding (warnings (ofString "Api")) warningRows).total = 2 ∧
    ¬ (∀ rows, (LogTable.anchored .priv).Contents rows →
      Postgres.listTable asciiFolding byInsertion (.anchored .priv) (warnings (ofString "s")) rows
          = some (wantedPage asciiFolding (warnings (ofString "s")) rows) ∧
      Mongo.listTable wordEngine byInsertion (.anchored .priv) (warnings (ofString "s")) rows
          = some (wantedPage asciiFolding (warnings (ofString "s")) rows)) := by
  refine ⟨(lists_agree_iff asciiFolding asciiFolding wordEngine byInsertion byInsertion _ _).mpr
    (.inl ⟨by decide, by decide, by decide, by decide, fun source hs => ?_⟩), by decide, by decide,
    fun h => ?_⟩
  · obtain rfl : ofString "Api" = source := Option.some.inj hs
    refine ⟨by decide, by decide, fun _ _ _ => Iff.rfl,
      (wordEngine.literal_word_iff (by decide)).mpr fun c hc d => ?_⟩
    have hchars : chars (ofString "Api") = ['A', 'p', 'i'] := by decide
    simp only [hchars, List.mem_cons, List.not_mem_nil, or_false] at hc
    have hfolds : unicodeFold c = c.toLower ∧ c.toLower ∉ ['s', 'k', 'ſ', '\u212a'] := by
      rcases hc with rfl | rfl | rfl <;> decide
    exact unicodeFold_eq_iff hfolds.1 hfolds.2 d
  · rcases (lists_agree_iff asciiFolding asciiFolding wordEngine byInsertion byInsertion _ _).mp h
      with hcommon | hvain
    · obtain ⟨-, -, -, hliteral⟩ := hcommon.source (ofString "s") rfl
      have hsame := (wordEngine.literal_word_iff (by decide)).mp hliteral 's' (by decide) 'ſ'
      exact absurd (hsame.mp (by decide)) (by decide)
    · obtain ⟨a, ha, -⟩ := hvain.anchorStatus
      cases ha

/-! ### A status that MongoDB does not look at -/

def confirmedOnly : ListOpts where
  limit := none
  offset := none
  level := none
  source := none
  anchorStatus := some AnchorStatus.confirmed.text
  batched := none

def pendingRow : LogRow := confirmedOnly.probe ['a'] (some .pending) none

/-- Of a table with one pending row PostgreSQL lists no confirmed rows, and MongoDB one. -/
theorem confirmed_rows_differ :
    (LogTable.anchored .priv).Contents [pendingRow] ∧
    (wantedPage asciiFolding confirmedOnly [pendingRow]).total = 0 ∧
    (Postgres.listAnchored asciiFolding byInsertion .priv confirmedOnly [pendingRow]).map
      PageResult.total = some 0 ∧
    (Mongo.listAnchored wordEngine byInsertion .priv confirmedOnly [pendingRow]).map
      PageResult.total = some 1 := by
  refine ⟨⟨fun r hr => ?_, List.nodup_singleton _⟩, by decide, by decide, by decide⟩
  rw [List.mem_singleton.mp hr]
  exact ⟨by decide, rfl⟩

end HybridLog
