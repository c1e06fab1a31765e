import HybridLog.System.Effects

/-!
# The columns of a row

Most of a row is as it was inserted. What stands in its status columns after a request stood there
before, came with the row, or has been written by an update that names the row.
-/

namespace HybridLog

open Js Async

/-! ### Contents of a table -/

namespace Database

variable (d : Database)

/-- An update of other columns leaves the contents of every table. -/
lemma core_updateLog (table table' : LogTable) (id : JsString) {f : LogRow → LogRow}
    (hf : ∀ r, (f r).core = r.core) :
    ((d.updateLog table id f).logs table').map LogRow.core =
      (d.logs table').map LogRow.core := by
  by_cases ht : table' = table
  · subst ht
    rw [updateLog, setLogs_logs_self, List.map_map]
    apply List.map_congr_left
    intro r _
    simp only [Function.comp]
    split
    · rw [hf]
    · rfl
  · rw [updateLog_logs_of_ne ht]

lemma core_linkFrom (table table' : LogTable) (root : JsString) (i : ℕ) (ids : List JsString) :
    ((linkFrom table root i ids d).logs table').map LogRow.core =
      (d.logs table').map LogRow.core := by
  induction ids generalizing i d with
  | nil => rfl
  | cons id ids ih => rw [linkFrom, ih, core_updateLog d _ _ _ (LogRow.core_link root i)]

end Database

/-- A request leaves the contents of a table, or adds a row whose keys are free. -/
lemma Effect.core {s s' : State} {e : Req} {r : e.Answer} (h : Effect s e r s') (db : Db)
    (table : LogTable) :
    ((s'.dbs db).logs table).map LogRow.core = ((s.dbs db).logs table).map LogRow.core ∨
      ∃ row, (⟨e, r⟩ : Σ e : Req, e.Answer) =
          ⟨.insert db table row, (Except.ok () : Except JsError Unit)⟩ ∧
        (∀ old ∈ (s.dbs db).logs table, old.id ≠ row.id) ∧
        ((s'.dbs db).logs table).map LogRow.core =
          ((s.dbs db).logs table).map LogRow.core ++ [row.core] := by
  have hother {db' : Db} {d : Database}
      (hd : (d.logs table).map LogRow.core = ((s.dbs db').logs table).map LogRow.core) :
      (((s.setDb db' d).dbs db).logs table).map LogRow.core =
        ((s.dbs db).logs table).map LogRow.core := by
    by_cases hdb : db = db'
    · subst hdb
      rw [State.setDb_dbs_self, hd]
    · rw [State.setDb_dbs_of_ne s d hdb]
  cases h with
  | @insert db' table' row d h =>
    obtain ⟨hfree, rfl⟩ := Database.insert_eq_some h
    by_cases hdb : db = db'
    · subst hdb
      rw [State.setDb_dbs_self]
      by_cases ht : table = table'
      · subst ht
        refine .inr ⟨row, rfl, fun old hold heq => hfree old hold (.inl heq), ?_⟩
        rw [Database.setLogs_logs_self, List.map_append]
        rfl
      · rw [Database.setLogs_logs_of_ne _ _ ht]
        exact .inl rfl
    · rw [State.setDb_dbs_of_ne s _ hdb]
      exact .inl rfl
  | record h => exact .inl (hother (by rw [Database.insertBatchRecord_logs h]))
  | links => exact .inl (hother (Database.core_linkFrom ..))
  | @link _ _ root i =>
    exact .inl (hother (Database.core_updateLog _ _ _ _ (LogRow.core_link root i)))
  | status => exact .inl (hother (Database.core_updateLog _ _ _ _ (AnchorUpdate.core_onLog _)))
  | batchStatus => exact .inl (hother rfl)
  | _ => exact .inl rfl

lemma LogRow.map_id_core (rows : List LogRow) :
    (rows.map LogRow.core).map LogRow.id = rows.map LogRow.id := by
  rw [List.map_map]
  rfl

/-- Ids are given once. -/
lemma Effect.nodup_ids {s s' : State} {e : Req} {r : e.Answer} (h : Effect s e r s') {db : Db}
    {table : LogTable} (hnodup : (((s.dbs db).logs table).map LogRow.id).Nodup) :
    (((s'.dbs db).logs table).map LogRow.id).Nodup := by
  rw [← LogRow.map_id_core]
  rcases h.core db table with hsame | ⟨row, -, hfree, hnew⟩
  · rwa [hsame, LogRow.map_id_core]
  · rw [hnew, List.map_append, LogRow.map_id_core]
    refine List.nodup_append.mpr ⟨hnodup, List.nodup_singleton _, ?_⟩
    intro id hid id' hid' heq
    obtain ⟨old, hold, rfl⟩ := List.mem_map.mp hid
    rw [List.map_singleton, List.mem_singleton] at hid'
    exact hfree old hold (heq.trans hid')

/-! ### Status columns -/

/-- Status, transaction and time of anchoring. -/
def LogRow.statusColumns (r : LogRow) : Option AnchorStatus × Option TxHash × Option ℤ :=
  (r.anchorStatus, r.anchorTxHash, r.anchoredAt)

def BatchRow.statusColumns (r : BatchRow) : AnchorStatus × Option TxHash × Option ℤ :=
  (r.anchorStatus, r.anchorTxHash, r.anchoredAt)

/-- A link leaves the columns alone. -/
lemma Database.exists_of_mem_linkFrom {table table' : LogTable} {root : JsString} {r : LogRow} :
    ∀ {i : ℕ} {ids : List JsString} {d : Database}, r ∈ (linkFrom table root i ids d).logs table' →
      ∃ old ∈ d.logs table', old.id = r.id ∧ old.statusColumns = r.statusColumns
  | _, [], _, h => ⟨r, h, rfl, rfl⟩
  | i, id :: ids, d, h => by
    obtain ⟨r₁, hr₁, hid₁, hst₁⟩ := exists_of_mem_linkFrom (i := i + 1) h
    by_cases ht : table' = table
    · subst ht
      obtain ⟨r₀, hr₀, rfl⟩ := mem_updateLog.mp hr₁
      refine ⟨r₀, hr₀, ?_⟩
      by_cases hid : r₀.id = id
      · rw [if_pos hid] at hid₁ hst₁
        exact ⟨hid₁, hst₁⟩
      · rw [if_neg hid] at hid₁ hst₁
        exact ⟨hid₁, hst₁⟩
    · rw [updateLog_logs_of_ne ht] at hr₁
      exact ⟨r₁, hr₁, hid₁, hst₁⟩

variable {s s' : State} {e : Req} {r : e.Answer}

/-- The status columns of a row of a log table after a request. -/
lemma Effect.logColumns (h : Effect s e r s') {db : Db} {table : LogTable} {row : LogRow}
    (hrow : row ∈ (s'.dbs db).logs table) :
    (∃ old ∈ (s.dbs db).logs table, old.id = row.id ∧ old.statusColumns = row.statusColumns) ∨
      (⟨e, r⟩ : Σ e : Req, e.Answer) =
        ⟨.insert db table row, (Except.ok () : Except JsError Unit)⟩ ∨
      ∃ st txHash anchoredAt, (⟨e, r⟩ : Σ e : Req, e.Answer) =
          ⟨.updateAnchorStatus db table row.id st txHash anchoredAt,
            (Except.ok () : Except JsError Unit)⟩ ∧ db.hasStatus table = true ∧
        row.statusColumns = (some st, txHash, anchoredAt.map Int.ofNat) := by
  have hold (hmem : row ∈ (s.dbs db).logs table) :
      ∃ old ∈ (s.dbs db).logs table, old.id = row.id ∧ old.statusColumns = row.statusColumns :=
    ⟨row, hmem, rfl, rfl⟩
  cases h with
  | @insert db' table' new d h =>
    rcases State.mem_setDb hrow with ⟨rfl, hin⟩ | ⟨-, hin⟩
    · rcases Database.mem_of_insert h hin with hmem | ⟨rfl, rfl⟩
      · exact .inl (hold hmem)
      · exact .inr (.inl rfl)
    · exact .inl (hold hin)
  | record h =>
    rcases State.mem_setDb hrow with ⟨rfl, hin⟩ | ⟨-, hin⟩
    · rw [Database.insertBatchRecord_logs h] at hin
      exact .inl (hold hin)
    · exact .inl (hold hin)
  | links =>
    rcases State.mem_setDb hrow with ⟨rfl, hin⟩ | ⟨-, hin⟩
    · exact .inl (Database.exists_of_mem_linkFrom hin)
    · exact .inl (hold hin)
  | @link side id root i =>
    rcases State.mem_setDb hrow with ⟨rfl, hin⟩ | ⟨-, hin⟩
    · have hone : row ∈ (Database.linkFrom (.batched side) root i [id] (s.dbs .mongo)).logs table :=
        hin
      exact .inl (Database.exists_of_mem_linkFrom hone)
    · exact .inl (hold hin)
  | @status db' table' id st txHash anchoredAt hstatus =>
    rcases State.mem_setDb hrow with ⟨rfl, hin⟩ | ⟨-, hin⟩
    · by_cases ht : table = table'
      · subst ht
        obtain ⟨old, hmem, rfl⟩ := Database.mem_updateLog.mp hin
        by_cases hid : old.id = id
        · subst hid
          rw [if_pos rfl]
          exact .inr (.inr ⟨st, txHash, anchoredAt, rfl, hstatus, rfl⟩)
        · rw [if_neg hid]
          exact .inl ⟨old, hmem, rfl, rfl⟩
      · rw [Database.updateLog_logs_of_ne ht] at hin
        exact .inl (hold hin)
    · exact .inl (hold hin)
  | batchStatus =>
    rcases State.mem_setDb hrow with ⟨rfl, hin⟩ | ⟨-, hin⟩
    · exact .inl (hold hin)
    · exact .inl (hold hin)
  | _ => exact .inl (hold hrow)

/-- The status columns of the record of a batch after a request. -/
lemma Effect.batchColumns (h : Effect s e r s') {db : Db} {side : Side} {row : BatchRow}
    (hrow : row ∈ (s'.dbs db).batches side) :
    row ∈ (s.dbs db).batches side ∨
      (⟨e, r⟩ : Σ e : Req, e.Answer) =
        ⟨.insertBatchRecord db side row, (Except.ok () : Except JsError Unit)⟩ ∨
      ∃ st txHash anchoredAt, (⟨e, r⟩ : Σ e : Req, e.Answer) =
          ⟨.updateBatchAnchorStatus db side row.merkleRoot st txHash anchoredAt,
            (Except.ok () : Except JsError Unit)⟩ ∧
        (∃ old ∈ (s.dbs db).batches side, old.merkleRoot = row.merkleRoot) ∧
        row.statusColumns = (st, txHash, anchoredAt.map Int.ofNat) := by
  rcases h.batches db side with hsame | ⟨new, heq, hnew⟩ |
    ⟨root, st, txHash, anchoredAt, heq, hupdate⟩
  · exact .inl (hsame ▸ hrow)
  · rw [hnew] at hrow
    rcases List.mem_append.mp hrow with hrow | hrow
    · exact .inl hrow
    · rw [List.mem_singleton.mp hrow]
      exact .inr (.inl heq)
  · rw [hupdate] at hrow
    obtain ⟨old, hmem, rfl⟩ := List.mem_map.mp hrow
    by_cases hroot : old.merkleRoot = root
    · subst hroot
      rw [if_pos rfl]
      exact .inr (.inr ⟨st, txHash, anchoredAt, heq, ⟨old, hmem, rfl⟩, rfl⟩)
    · rw [if_neg hroot]
      exact .inl hmem

end HybridLog
