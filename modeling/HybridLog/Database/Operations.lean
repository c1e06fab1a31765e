import HybridLog.Database.Rows
import Mathlib.Logic.Function.Basic

/-!
# What the adapters change

An insertion fails if a key is taken; an update of a key that no row has changes nothing.
-/

namespace HybridLog

open Js

namespace Database

def setLogs (d : Database) (table : LogTable) (rows : List LogRow) : Database :=
  { d with logs := Function.update d.logs table rows }

def setBatches (d : Database) (table : Side) (rows : List BatchRow) : Database :=
  { d with batches := Function.update d.batches table rows }

@[simp] lemma setLogs_logs_self (d : Database) (table : LogTable) (rows : List LogRow) :
    (d.setLogs table rows).logs table = rows := Function.update_self ..

lemma setLogs_logs_of_ne (d : Database) {table table' : LogTable} (rows : List LogRow)
    (h : table' ≠ table) : (d.setLogs table rows).logs table' = d.logs table' :=
  Function.update_of_ne h ..

@[simp] lemma setLogs_batches (d : Database) (table : LogTable) (rows : List LogRow) :
    (d.setLogs table rows).batches = d.batches := rfl

@[simp] lemma setBatches_batches_self (d : Database) (table : Side) (rows : List BatchRow) :
    (d.setBatches table rows).batches table = rows := Function.update_self ..

lemma setBatches_batches_of_ne (d : Database) {table table' : Side} (rows : List BatchRow)
    (h : table' ≠ table) : (d.setBatches table rows).batches table' = d.batches table' :=
  Function.update_of_ne h ..

@[simp] lemma setBatches_logs (d : Database) (table : Side) (rows : List BatchRow) :
    (d.setBatches table rows).logs = d.logs := rfl

end Database

/-- The row would take the key of another row of the table: its id or, where the table has the
column, its content hash. -/
def LogRow.Clashes (table : LogTable) (row r : LogRow) : Prop :=
  r.id = row.id ∨ table ≠ .offchain ∧ r.contentHash = row.contentHash

instance (table : LogTable) (row r : LogRow) : Decidable (row.Clashes table r) :=
  inferInstanceAs (Decidable (_ ∨ _))

/-- An update of the columns about anchoring. -/
structure AnchorUpdate where
  status : AnchorStatus
  txHash : Option TxHash
  anchoredAt : Option ℕ

def AnchorUpdate.onLog (u : AnchorUpdate) (r : LogRow) : LogRow :=
  { r with
    anchorStatus := some u.status
    anchorTxHash := u.txHash
    anchoredAt := u.anchoredAt.map Int.ofNat }

def AnchorUpdate.onBatch (u : AnchorUpdate) (r : BatchRow) : BatchRow :=
  { r with
    anchorStatus := u.status
    anchorTxHash := u.txHash
    anchoredAt := u.anchoredAt.map Int.ofNat }

/-- The columns that place a row in a batch. -/
def LogRow.link (root : JsString) (index : ℕ) (r : LogRow) : LogRow :=
  { r with batchRoot := some root, leafIndex := some index }

/-- Of the tables of PostgreSQL only the anchored ones have columns for the status. -/
def Db.hasStatus : Db → LogTable → Bool
  | .mongo, _ | .postgres, .anchored _ => true
  | .postgres, _ => false

namespace Database

variable (d : Database)

def insert (table : LogTable) (row : LogRow) : Option Database :=
  if ∃ r ∈ d.logs table, row.Clashes table r then none
  else some (d.setLogs table (d.logs table ++ [row]))

/-- PostgreSQL keeps a record that is there already. -/
def insertBatchRecord (db : Db) (table : Side) (row : BatchRow) : Option Database :=
  if ∃ r ∈ d.batches table, r.merkleRoot = row.merkleRoot then
    match db with
    | .postgres => some d
    | .mongo => none
  else some (d.setBatches table (d.batches table ++ [row]))

/-- Update the rows with id `id`. -/
def updateLog (table : LogTable) (id : JsString) (f : LogRow → LogRow) : Database :=
  d.setLogs table ((d.logs table).map fun r => if r.id = id then f r else r)

def updateBatch (table : Side) (merkleRoot : JsString) (f : BatchRow → BatchRow) : Database :=
  d.setBatches table
    ((d.batches table).map fun r => if r.merkleRoot = merkleRoot then f r else r)

/-- Link leaf after leaf, from index `i` on. -/
def linkFrom (table : LogTable) (root : JsString) : ℕ → List JsString → Database → Database
  | _, [], d => d
  | i, id :: ids, d => linkFrom table root (i + 1) ids (d.updateLog table id (LogRow.link root i))

end Database

/-! ### What stays -/

/-- A row without the columns about anchoring and batches, which updates change. -/
def LogRow.core (r : LogRow) : LogRow :=
  { r with
    anchorStatus := none
    anchorTxHash := none
    anchoredAt := none
    batchRoot := none
    leafIndex := none }

/-- The record of a batch without the columns about anchoring. -/
def BatchRow.core (r : BatchRow) : BatchRow :=
  { r with
    anchorStatus := .pending
    anchorTxHash := none
    anchoredAt := none }

@[simp] lemma AnchorUpdate.core_onLog (u : AnchorUpdate) (r : LogRow) :
    (u.onLog r).core = r.core := rfl

@[simp] lemma AnchorUpdate.core_onBatch (u : AnchorUpdate) (r : BatchRow) :
    (u.onBatch r).core = r.core := rfl

@[simp] lemma LogRow.core_link (root : JsString) (i : ℕ) (r : LogRow) :
    (r.link root i).core = r.core := rfl

lemma LogRow.core_eq {r r' : LogRow} (h : r.core = r'.core) :
    r.id = r'.id ∧ r.contentHash = r'.contentHash :=
  ⟨(LogRow.mk.inj h).1, (LogRow.mk.inj h).2.2.2.2.2.2.1⟩

namespace Database

variable {d d' : Database}

/-- No row goes away, and each keeps its place and its content. -/
structure Le (d d' : Database) : Prop where
  logs : ∀ table, (d.logs table).map LogRow.core <+: (d'.logs table).map LogRow.core
  batches : ∀ table, (d.batches table).map BatchRow.core <+: (d'.batches table).map BatchRow.core

lemma Le.refl (d : Database) : Le d d := ⟨fun _ => List.prefix_rfl, fun _ => List.prefix_rfl⟩

lemma Le.trans {a b c : Database} (h : Le a b) (h' : Le b c) : Le a c :=
  ⟨fun t => (h.logs t).trans (h'.logs t), fun t => (h.batches t).trans (h'.batches t)⟩

/-- A row that is there stays, up to the columns that updates change. -/
lemma Le.mem (h : Le d d') {table : LogTable} {r : LogRow} (hr : r ∈ d.logs table) :
    ∃ r' ∈ d'.logs table, r'.core = r.core :=
  List.mem_map.mp ((h.logs table).subset (List.mem_map_of_mem hr))

lemma Le.mem_batch (h : Le d d') {table : Side} {r : BatchRow} (hr : r ∈ d.batches table) :
    ∃ r' ∈ d'.batches table, r'.core = r.core :=
  List.mem_map.mp ((h.batches table).subset (List.mem_map_of_mem hr))

lemma le_setLogs {table : LogTable} {rows : List LogRow}
    (h : (d.logs table).map LogRow.core <+: rows.map LogRow.core) : Le d (d.setLogs table rows) := by
  refine ⟨fun t => ?_, fun _ => List.prefix_rfl⟩
  by_cases ht : t = table
  · subst ht
    rwa [setLogs_logs_self]
  · rw [setLogs_logs_of_ne d rows ht]

lemma le_setBatches {table : Side} {rows : List BatchRow}
    (h : (d.batches table).map BatchRow.core <+: rows.map BatchRow.core) :
    Le d (d.setBatches table rows) := by
  refine ⟨fun _ => List.prefix_rfl, fun t => ?_⟩
  by_cases ht : t = table
  · subst ht
    rwa [setBatches_batches_self]
  · rw [setBatches_batches_of_ne d rows ht]

/-- An insertion that succeeds: no row has a key of the new one, which goes to the end. -/
lemma insert_eq_some {table : LogTable} {row : LogRow} (h : d.insert table row = some d') :
    (∀ r ∈ d.logs table, ¬row.Clashes table r) ∧ d' = d.setLogs table (d.logs table ++ [row]) := by
  rw [insert] at h
  split at h
  · cases h
  · next hnone => exact ⟨fun r hr hc => hnone ⟨r, hr, hc⟩, (Option.some.inj h).symm⟩

lemma le_insert {table : LogTable} {row : LogRow} (h : d.insert table row = some d') : Le d d' := by
  rw [(insert_eq_some h).2]
  exact le_setLogs (by rw [List.map_append]; exact List.prefix_append _ _)

lemma mem_insert {table : LogTable} {row : LogRow} (h : d.insert table row = some d') :
    row ∈ d'.logs table := by
  rw [(insert_eq_some h).2, setLogs_logs_self]
  simp

/-- The rows after an insertion. -/
lemma mem_of_insert {table table' : LogTable} {row r : LogRow} (h : d.insert table row = some d')
    (hr : r ∈ d'.logs table') : r ∈ d.logs table' ∨ table' = table ∧ r = row := by
  rw [(insert_eq_some h).2] at hr
  by_cases ht : table' = table
  · subst ht
    simpa using hr
  · rw [setLogs_logs_of_ne d _ ht] at hr
    exact .inl hr

/-- The record of a batch goes to a table of its own. -/
lemma insertBatchRecord_logs {db : Db} {table : Side} {row : BatchRow}
    (h : d.insertBatchRecord db table row = some d') : d'.logs = d.logs := by
  simp only [insertBatchRecord] at h
  split at h
  · cases db with
    | postgres => cases h; rfl
    | mongo => cases h
  · cases h
    rfl

lemma le_insertBatchRecord {db : Db} {table : Side} {row : BatchRow}
    (h : d.insertBatchRecord db table row = some d') : Le d d' := by
  simp only [insertBatchRecord] at h
  split at h
  · cases db with
    | postgres => cases h; exact .refl d
    | mongo => cases h
  · cases h
    exact le_setBatches (by rw [List.map_append]; exact List.prefix_append _ _)

/-- There is a record under the root afterwards, be it the new one or an earlier one. -/
lemma mem_insertBatchRecord {db : Db} {table : Side} {row : BatchRow}
    (h : d.insertBatchRecord db table row = some d') :
    ∃ r ∈ d'.batches table, r.merkleRoot = row.merkleRoot := by
  simp only [insertBatchRecord] at h
  split at h
  · next hold =>
    cases db with
    | postgres => cases h; exact hold
    | mongo => cases h
  · cases h
    exact ⟨row, by simp, rfl⟩

lemma le_updateLog (table : LogTable) (id : JsString) {f : LogRow → LogRow}
    (hf : ∀ r, (f r).core = r.core) : Le d (d.updateLog table id f) := by
  refine le_setLogs ?_
  rw [List.map_map]
  refine (List.map_congr_left fun r _ => ?_) ▸ List.prefix_rfl
  simp only [Function.comp]
  split
  · rw [hf]
  · rfl

lemma le_updateBatch (table : Side) (root : JsString) {f : BatchRow → BatchRow}
    (hf : ∀ r, (f r).core = r.core) : Le d (d.updateBatch table root f) := by
  refine le_setBatches ?_
  rw [List.map_map]
  refine (List.map_congr_left fun r _ => ?_) ▸ List.prefix_rfl
  simp only [Function.comp]
  split
  · rw [hf]
  · rfl

lemma le_linkFrom (table : LogTable) (root : JsString) : ∀ (i : ℕ) (ids : List JsString)
    (d : Database), Le d (linkFrom table root i ids d)
  | _, [], d => .refl d
  | i, id :: ids, _ =>
    (le_updateLog table id (LogRow.core_link root i)).trans (le_linkFrom table root (i + 1) ids _)

/-! ### Rows after an update -/

lemma mem_updateLog {table : LogTable} {id : JsString} {f : LogRow → LogRow} {r' : LogRow} :
    r' ∈ (d.updateLog table id f).logs table ↔
      ∃ r ∈ d.logs table, (if r.id = id then f r else r) = r' := by
  rw [updateLog, setLogs_logs_self, List.mem_map]

lemma updateLog_logs_of_ne {table table' : LogTable} (h : table' ≠ table) (id : JsString)
    (f : LogRow → LogRow) : (d.updateLog table id f).logs table' = d.logs table' :=
  setLogs_logs_of_ne d _ h

lemma linkFrom_logs_of_ne {table table' : LogTable} (h : table' ≠ table) (root : JsString) :
    ∀ (i : ℕ) (ids : List JsString) (d : Database),
      (linkFrom table root i ids d).logs table' = d.logs table'
  | _, [], _ => rfl
  | i, id :: ids, d => by
    rw [linkFrom, linkFrom_logs_of_ne h root (i + 1) ids, updateLog_logs_of_ne h]

lemma linkFrom_batches (table : LogTable) (root : JsString) :
    ∀ (i : ℕ) (ids : List JsString) (d : Database), (linkFrom table root i ids d).batches = d.batches
  | _, [], _ => rfl
  | i, _ :: ids, _ => linkFrom_batches table root (i + 1) ids _

/-- A row after the leaves have been linked: it is not one of them, or it has its place. -/
lemma mem_linkFrom {table : LogTable} {root : JsString} {r : LogRow} :
    ∀ {i : ℕ} {ids : List JsString} {d : Database}, r ∈ (linkFrom table root i ids d).logs table →
      r.id ∉ ids ∧ r ∈ d.logs table ∨
        ∃ j, ids[j]? = some r.id ∧ r.batchRoot = some root ∧ r.leafIndex = some ((i + j : ℕ) : ℤ)
  | _, [], _, h => .inl ⟨by simp, h⟩
  | i, id :: ids, d, h => by
    rcases mem_linkFrom (i := i + 1) h with ⟨hnot, hr⟩ | ⟨j, hj, hroot, hindex⟩
    · obtain ⟨r₀, hr₀, rfl⟩ := mem_updateLog.mp hr
      by_cases hid : r₀.id = id
      · rw [if_pos hid]
        exact .inr ⟨0, by rw [← hid]; rfl, rfl, rfl⟩
      · rw [if_neg hid] at hnot ⊢
        exact .inl ⟨by simp [hid, hnot], hr₀⟩
    · refine .inr ⟨j + 1, hj, hroot, ?_⟩
      rw [hindex]
      congr 1
      omega

end Database

end HybridLog
