import HybridLog.System.Links
import HybridLog.Verify.Content

/-!
# Verification and the chain

A positive answer about a log that was anchored should rest on the chain, which nobody rewrites,
also after the database has been. No entry point asks a chain, so a row can be forged: other
columns, the hash of these, and in a batched table a batch of its own. Some forgery has a hash that
no chain records, since a run leaves finitely many records, and `verification_backed_iff` concludes
that only a run without a row of a hybrid log is safe.
-/

namespace HybridLog

open Js Async

/-! ### What the chains record -/

/-- A service of the Exonum chain or the contract of the Ethereum chain has a record under a hash
in hexadecimal. -/
def State.Recorded (s : State) (key : JsString) : Prop :=
  (∃ service, bufferFromHex key ∈ s.exonum.keys service) ∨
    s.ethereum.store.recordExists (bufferFromHex key)

/-- The keys that the chains list. -/
def State.chainKeys (s : State) : List Bytes :=
  [ExonumService.log, .hash, .batch].flatMap s.exonum.keys ++ s.ethereum.store.logsOrdered

lemma State.Recorded.mem_chainKeys {s : State} (hok : s.ethereum.Ok) {key : JsString}
    (h : s.Recorded key) : bufferFromHex key ∈ s.chainKeys := by
  rw [State.chainKeys, List.mem_append, List.mem_flatMap]
  rcases h with ⟨service, hmem⟩ | hexists
  · exact .inl ⟨service, by cases service <;> simp, hmem⟩
  · exact .inr (hok.listed _ hexists)

variable (sha : Sha256) (s : State) (list : Listing)

/-- A chain records what a row of a table was anchored by: its recomputed hash or, for a row in a
batch, the root over the rows listed with it. -/
def State.Backs : LogTable → LogRow → Prop
  | .offchain, _ => True
  | .anchored _, row => ∃ key ∈ row.recomputed? sha, s.Recorded key
  | .batched side, row => ∃ root ∈ row.root?, s.Recorded (siblingsRoot sha (list side root))

/-- A chain records what a reply about an anchored log rests on. -/
def VerifyReply.Backed : VerifyReply → Prop
  | .anchored _ recomputed _ _ => s.Recorded recomputed
  | .batched side row _ _ _ _ => s.Backs sha list (.batched side) row
  | .offchain .. | .notFound _ | .error _ => True

/-- The ways to verify the log with an id answer positively only where a chain records the log. -/
structure Backed (d : Database) (id : JsString) : Prop where
  verifyLog : ∀ table row, d.findById table id = some row →
    verifies (verifyLog sha d table id) = true → s.Backs sha list table row
  getVerify : (getVerify sha list d id).valid = true → (getVerify sha list d id).Backed sha s list
  getVerifyBatch : ∀ side, (getVerifyBatch sha list d side id).valid = true →
    (getVerifyBatch sha list d side id).Backed sha s list

/-- Any columns of any rows have been rewritten, of the log tables and of the tables of batches.
An id is a key. -/
structure Rewriting (d d' : Database) : Prop where
  rows : ∀ table, (d'.logs table).length = (d.logs table).length
  keys : ∀ table, ((d'.logs table).map LogRow.id).Nodup
  batches : ∀ side, (d'.batches side).length = (d.batches side).length

/-- However the database is rewritten, the answers about each log rest on the chain. -/
def VerificationBacked (db : Db) : Prop :=
  ∀ d list id, Rewriting (s.dbs db) d → Listing.Of list db d → Backed sha s list d id

variable {sha s list} {d : Database} {id : JsString}

/-! ### Replies -/

/-- Where a hybrid table has no rows, no answer is about one. -/
lemma backed_of_empty (h : ∀ side, d.logs (.anchored side) = [] ∧ d.logs (.batched side) = []) :
    Backed sha s list d id := by
  have hnone (side : Side) :
      d.findById (.anchored side) id = none ∧ d.findById (.batched side) id = none := by
    constructor
    · rw [Database.findById, (h side).1, List.find?_nil]
    · rw [Database.findById, (h side).2, List.find?_nil]
  refine ⟨fun table row hrow _ => ?_, fun _ => ?_, fun side _ => ?_⟩
  · cases table with
    | offchain => trivial
    | anchored side => cases (hnone side).1.symm.trans hrow
    | batched side => cases (hnone side).2.symm.trans hrow
  · rw [getVerify]
    cases hoff : d.findById .offchain id with
    | some row =>
      show (verifyOffchain sha row).Backed sha s list
      cases hr : row.recomputed? sha <;> simp [verifyOffchain, hr, VerifyReply.Backed]
    | none =>
      rw [(hnone .priv).1, (hnone .pub).1, (hnone .priv).2, (hnone .pub).2]
      trivial
  · rw [getVerifyBatch, (hnone side).2]
    trivial

/-! ### Forged rows -/

/-- An entry that nobody has written. -/
def forgedEntry (id : JsString) (n : ℕ) : LogEntry :=
  ⟨id, .epoch, infoLevel, [], List.replicate n 0x61, emptyObject, []⟩

/-- The texts of such entries. -/
def forgedTexts (id : JsString) (n : ℕ) : Set Bytes :=
  (fun i => utf8 (forgedEntry id i).toHashableString) '' Set.Iic n

lemma forgedEntry_text {id : JsString} {i j : ℕ}
    (h : utf8 (forgedEntry id i).toHashableString = utf8 (forgedEntry id j).toHashableString) :
    i = j := by
  have hmessage := congrArg List.length (toHashableString_eq_iff.mp h).2.2.2.2.1
  simpa [forgedEntry] using hmessage

/-- Of more texts than there are digests in a list, one has another digest. -/
lemma exists_fresh {id : JsString} (l : List Bytes)
    (hinj : Set.InjOn sha.digest (forgedTexts id l.length)) :
    ∃ n, sha.digest (utf8 (forgedEntry id n).toHashableString) ∉ l := by
  by_contra hall
  push Not at hall
  let digests := (List.range (l.length + 1)).map fun n =>
    sha.digest (utf8 (forgedEntry id n).toHashableString)
  have hnodup : digests.Nodup := by
    refine List.Nodup.map_on (fun i hi j hj heq => ?_) List.nodup_range
    have hmem {n : ℕ} (hn : n ∈ List.range (l.length + 1)) :
        utf8 (forgedEntry id n).toHashableString ∈ forgedTexts id l.length :=
      ⟨n, Nat.lt_succ_iff.mp (List.mem_range.mp hn), rfl⟩
    exact forgedEntry_text (hinj (hmem hi) (hmem hj) heq)
  have hsub : digests ⊆ l := by
    intro b hb
    obtain ⟨n, -, rfl⟩ := List.mem_map.mp hb
    exact hall n
  have hlen := (List.subperm_of_subset hnodup hsub).length_le
  simp only [digests, List.length_map, List.length_range] at hlen
  omega

/-- A row rewritten to such an entry and its hash; in a batched table it is put into a batch of its
own. -/
def LogTable.forge (sha : Sha256) (n : ℕ) (table : LogTable) (row : LogRow) : LogRow :=
  { row with
    timestamp := 0
    level := 1
    source := []
    message := List.replicate n 0x61
    metadata := emptyColumn
    contentHash := sha.computeLogHash (forgedEntry row.id n)
    batchRoot := match table with
      | .batched _ => some (sha.computeLogHash (forgedEntry row.id n))
      | _ => row.batchRoot }

variable {table : LogTable} {row : LogRow} {n : ℕ}

lemma recomputed?_forge :
    (table.forge sha n row).recomputed? sha = some (sha.computeLogHash (forgedEntry row.id n)) := by
  have hlevel : intToLevel 1 = infoLevel := by decide
  have hentry : (table.forge sha n row).entryAt .epoch = forgedEntry row.id n := by
    show LogEntry.mk row.id .epoch (intToLevel 1) [] _ _ [] = _
    rw [hlevel]
    rfl
  have hrebuilt : (table.forge sha n row).rebuilt? = some (forgedEntry row.id n) := by
    rw [LogRow.rebuilt?, ← hentry]
    rfl
  rw [LogRow.recomputed?, hrebuilt, Option.map_some]

/-- The database with one row forged. -/
def Database.forge (sha : Sha256) (n : ℕ) (d : Database) (table : LogTable) (id : JsString) :
    Database where
  logs := Function.update d.logs table
    ((d.logs table).map fun row => if row.id = id then table.forge sha n row else row)
  batches := d.batches

lemma Database.logs_forge : (d.forge sha n table id).logs table =
    (d.logs table).map fun row => if row.id = id then table.forge sha n row else row :=
  Function.update_self ..

lemma Database.forge_ids (table' : LogTable) :
    ((d.forge sha n table id).logs table').map LogRow.id = (d.logs table').map LogRow.id := by
  by_cases heq : table' = table
  · subst heq
    rw [Database.logs_forge, List.map_map]
    refine List.map_congr_left fun row _ => ?_
    simp only [Function.comp_apply]
    split <;> rfl
  · exact congrArg (List.map LogRow.id) (Function.update_of_ne heq ..)

lemma Rewriting.forge (h : ∀ table, ((d.logs table).map LogRow.id).Nodup) :
    Rewriting d (d.forge sha n table id) where
  rows table' := by
    have hids : ((d.forge sha n table id).logs table').map LogRow.id =
        (d.logs table').map LogRow.id := Database.forge_ids table'
    simpa using congrArg List.length hids
  keys table' := by
    rw [Database.forge_ids]
    exact h table'
  batches _ := rfl

lemma Database.findById_forge (h : ((d.logs table).map LogRow.id).Nodup)
    (hrow : row ∈ d.logs table) :
    (d.forge sha n table row.id).findById table row.id = some (table.forge sha n row) := by
  have hmem : table.forge sha n row ∈ (d.forge sha n table row.id).logs table := by
    rw [Database.logs_forge]
    exact List.mem_map.mpr ⟨row, hrow, if_pos rfl⟩
  refine Database.findById_eq (r := table.forge sha n row) ?_ hmem
  rw [Database.forge_ids]
  exact h

/-! ### Forged batches -/

lemma isListing_singleton {db : Db} {rows l : List LogRow} {root : JsString} {r : LogRow}
    (h : rows.filter (fun r => r.batchRoot = some root) = [r]) (hl : IsListing db rows root l) :
    l = [r] := by
  obtain ⟨all, hperm, -, rfl⟩ := hl
  rw [h, List.perm_singleton] at hperm
  cases db <;> simp [hperm]

lemma filter_id_eq {rows : List LogRow} (hid : (rows.map LogRow.id).Nodup) (hrow : row ∈ rows) :
    rows.filter (fun r => r.id = row.id) = [row] := by
  have hids : (rows.filter fun r => r.id = row.id).map LogRow.id = [row.id] := by
    have hmap := List.filter_map (f := LogRow.id) (p := fun i => decide (i = row.id)) (l := rows)
    rw [List.filter_eq, List.count_eq_one_of_mem hid (List.mem_map_of_mem hrow)] at hmap
    exact hmap.symm
  obtain ⟨r, hr, -⟩ := List.map_eq_singleton_iff.mp hids
  have hmem : row ∈ rows.filter fun r => r.id = row.id :=
    List.mem_filter.mpr ⟨hrow, decide_eq_true rfl⟩
  rw [hr, List.mem_singleton] at hmem
  rw [hr, hmem]

/-- Under a root that no other row has, the forged row is listed alone. -/
lemma filter_forge {side : Side} (hid : ((d.logs (.batched side)).map LogRow.id).Nodup)
    (hrow : row ∈ d.logs (.batched side))
    (hroot : ∀ r ∈ d.logs (.batched side),
      r.batchRoot ≠ some (sha.computeLogHash (forgedEntry row.id n))) :
    ((d.forge sha n (.batched side) row.id).logs (.batched side)).filter
        (fun r => r.batchRoot = some (sha.computeLogHash (forgedEntry row.id n))) =
      [(LogTable.batched side).forge sha n row] := by
  rw [Database.logs_forge, List.filter_map]
  have hfilter : (d.logs (.batched side)).filter ((fun r : LogRow =>
      decide (r.batchRoot = some (sha.computeLogHash (forgedEntry row.id n)))) ∘
      fun r => if r.id = row.id then (LogTable.batched side).forge sha n r else r) =
      (d.logs (.batched side)).filter fun r => r.id = row.id := by
    refine List.filter_congr fun r hr => ?_
    simp only [Function.comp_apply, decide_eq_decide]
    by_cases heq : r.id = row.id
    · simp only [heq, if_true, iff_true]
      rw [LogTable.forge, heq]
    · simp only [heq, if_false, iff_false]
      exact hroot r hr
  rw [hfilter, filter_id_eq hid hrow, List.map_singleton, if_pos rfl]

lemma siblingsRoot_forge {side : Side} :
    siblingsRoot sha [(LogTable.batched side).forge sha n row] =
      sha.computeLogHash (forgedEntry row.id n) := by
  rw [siblingsRoot, List.map_singleton, Sha256.rootOf_eq (Merkle.root_singleton _)]
  exact (sha.isDigest_computeLogHash _).toHex_bufferFromHex

/-! ### Rewritten runs -/

/-- The digests that a forged row must not have: the keys of the chains and the roots of the
table. -/
def State.claimed (s : State) (db : Db) (table : LogTable) : List Bytes :=
  s.chainKeys ++ (((s.dbs db).logs table).filterMap LogRow.batchRoot).map bufferFromHex

variable {db : Db}

/-- A forged row is accepted, and no chain records what it was forged to. -/
lemma not_backs_forge (hok : s.ethereum.Ok) (htable : table ≠ .offchain)
    (hids : (((s.dbs db).logs table).map LogRow.id).Nodup) (hrow : row ∈ (s.dbs db).logs table)
    (hn : sha.digest (utf8 (forgedEntry row.id n).toHashableString) ∉ s.claimed db table)
    (hlist : list.Of db ((s.dbs db).forge sha n table row.id)) :
    verifies (verifyLog sha ((s.dbs db).forge sha n table row.id) table row.id) = true ∧
      ¬s.Backs sha list table (table.forge sha n row) := by
  rw [State.claimed, List.mem_append, not_or] at hn
  obtain ⟨hkeys, hroots⟩ := hn
  have hhash : bufferFromHex (sha.computeLogHash (forgedEntry row.id n)) =
      sha.digest (utf8 (forgedEntry row.id n).toHashableString) := by
    rw [Sha256.computeLogHash, Sha256.sha256, bufferFromHex_toHex]
  have hunrecorded : ¬s.Recorded (sha.computeLogHash (forgedEntry row.id n)) := fun h =>
    hkeys (hhash ▸ h.mem_chainKeys hok)
  refine ⟨verifies_verifyLog.mpr ⟨_, Database.findById_forge hids hrow, recomputed?_forge⟩, ?_⟩
  cases table with
  | offchain => exact absurd rfl htable
  | anchored side =>
    rintro ⟨key, hkey, hrecorded⟩
    rw [recomputed?_forge, Option.mem_some_iff] at hkey
    exact hunrecorded (hkey ▸ hrecorded)
  | batched side =>
    rintro ⟨root, hroot, hrecorded⟩
    obtain rfl : sha.computeLogHash (forgedEntry row.id n) = root :=
      Option.some.inj (root?_eq_some.mp hroot).1
    have hother : ∀ r ∈ (s.dbs db).logs (.batched side),
        r.batchRoot ≠ some (sha.computeLogHash (forgedEntry row.id n)) := by
      intro r hr heq
      refine hroots (hhash ▸ List.mem_map_of_mem ?_)
      exact List.mem_filterMap.mpr ⟨r, hr, heq⟩
    rw [isListing_singleton (filter_forge hids hrow hother) (hlist side _),
      siblingsRoot_forge] at hrecorded
    exact hunrecorded hrecorded

variable {cfg : ServerConfig} {objectHash : ObjectHash} {c : RedeliveryConfig}

/-- After a run, verification rests on the chain, however a database is rewritten, exactly if the
run has left no row of a hybrid log in it. -/
theorem verification_backed_iff (h : Reach (atLeastOnce cfg objectHash) .start c) (db : Db)
    (hinj : ∀ table, ∀ row ∈ (c.world.state.dbs db).logs table,
      Set.InjOn cfg.sha.digest (forgedTexts row.id (c.world.state.claimed db table).length)) :
    VerificationBacked cfg.sha c.world.state db ↔
      ∀ side, (c.world.state.dbs db).logs (.anchored side) = [] ∧
        (c.world.state.dbs db).logs (.batched side) = [] := by
  have hids (table : LogTable) : (((c.world.state.dbs db).logs table).map LogRow.id).Nodup :=
    (table_tells h db table).2
  constructor
  · intro hbacked
    have hempty (table : LogTable) (htable : table ≠ .offchain) :
        (c.world.state.dbs db).logs table = [] := by
      rw [List.eq_nil_iff_forall_not_mem]
      intro row hrow
      obtain ⟨n, hn⟩ := exists_fresh _ (hinj table row hrow)
      obtain ⟨list, hlist⟩ :=
        exists_listing db ((c.world.state.dbs db).forge cfg.sha n table row.id)
      obtain ⟨hvalid, hnot⟩ := not_backs_forge (chains_ok h).2 htable (hids table) hrow hn hlist
      have hall := hbacked _ list row.id (.forge hids) hlist
      exact hnot (hall.verifyLog table _ (Database.findById_forge (hids table) hrow) hvalid)
    exact fun side => ⟨hempty (.anchored side) (by simp), hempty (.batched side) (by simp)⟩
  · intro hempty d list id hrewriting _
    refine backed_of_empty fun side => ⟨?_, ?_⟩
    · rw [← List.length_eq_zero_iff, hrewriting.rows, (hempty side).1, List.length_nil]
    · rw [← List.length_eq_zero_iff, hrewriting.rows, (hempty side).2, List.length_nil]

/-! ### Two batched logs -/

lemma forgedTexts_injOn {id : JsString}
    (h : id = List.replicate 36 0x61 ∨ id = List.replicate 36 0x62) :
    Set.InjOn lengthSha.digest (forgedTexts id 2) := by
  have hall : ∀ i ≤ 2, ∀ j ≤ 2, lengthSha.digest (utf8 (forgedEntry id i).toHashableString) =
      lengthSha.digest (utf8 (forgedEntry id j).toHashableString) → i = j := by
    rcases h with rfl | rfl <;> decide +kernel
  rintro _ ⟨i, hi, rfl⟩ _ ⟨j, hj, rfl⟩ heq
  rw [hall i hi j hj heq]

def logTables : List LogTable :=
  [.offchain, .anchored .priv, .anchored .pub, .batched .priv, .batched .pub]

lemma mem_logTables (table : LogTable) : table ∈ logTables := by
  cases table with
  | offchain => decide
  | anchored side => cases side <;> decide
  | batched side => cases side <;> decide

/-- Two logs are in a batch of PostgreSQL. -/
def linkedConfig : RedeliveryConfig := linkedRun.get isSome_linkedRun

lemma reach_linkedConfig : Reach (atLeastOnce connectedConfig fun _ => []) .start linkedConfig :=
  Run.of_play (Option.some_get isSome_linkedRun).symm

/-- The rows of the batch can be forged. MongoDB has no rows. -/
theorem linked_rows_forgeable :
    ¬VerificationBacked connectedConfig.sha linkedConfig.world.state .postgres ∧
      VerificationBacked connectedConfig.sha linkedConfig.world.state .mongo := by
  constructor
  · have hrows : ∀ table ∈ logTables, ∀ row ∈ (linkedConfig.world.state.dbs .postgres).logs table,
        (row.id = List.replicate 36 0x61 ∨ row.id = List.replicate 36 0x62) ∧
          (linkedConfig.world.state.claimed .postgres table).length = 2 := by
      decide +kernel
    have htwo : ((linkedConfig.world.state.dbs .postgres).logs (.batched .priv)).length = 2 := by
      decide +kernel
    rw [verification_backed_iff reach_linkedConfig .postgres fun table row hrow => ?_]
    · intro hempty
      rw [(hempty .priv).2] at htwo
      cases htwo
    · obtain ⟨hid, hlength⟩ := hrows table (mem_logTables table) row hrow
      rw [hlength]
      exact forgedTexts_injOn hid
  · have hall : ∀ table ∈ logTables,
        ((linkedConfig.world.state.dbs .mongo).logs table).isEmpty := by decide +kernel
    have hnone (table : LogTable) : (linkedConfig.world.state.dbs .mongo).logs table = [] :=
      List.isEmpty_iff.mp (hall table (mem_logTables table))
    refine (verification_backed_iff reach_linkedConfig .mongo fun table row hrow => ?_).mpr
      fun side => ⟨hnone _, hnone _⟩
    rw [hnone] at hrow
    cases hrow

/-! ### A rewritten row -/

lemma isSome_awaitedRow : (awaitedRun .hybridPrivate .postgres).isSome := by decide +kernel

/-- A log is in its table, and its hash on the chain. -/
def awaitedConfig : RedeliveryConfig := (awaitedRun .hybridPrivate .postgres).get isSome_awaitedRow

/-- Then the text of the log is rewritten, and the hash with it. -/
theorem rewritten_row_unbacked :
    Reach (atLeastOnce connectedConfig fun _ => []) .start awaitedConfig ∧
      ∃ row, (awaitedConfig.world.state.dbs .postgres).logs (.anchored .priv) = [row] ∧
        row.anchorStatus = some .confirmed ∧
        awaitedConfig.world.state.Recorded row.contentHash ∧
        ¬VerificationBacked connectedConfig.sha awaitedConfig.world.state .postgres := by
  have hreach : Reach (atLeastOnce connectedConfig fun _ => []) .start awaitedConfig :=
    Run.of_play (Option.some_get isSome_awaitedRow).symm
  have hone : ((awaitedConfig.world.state.dbs .postgres).logs (.anchored .priv)).length = 1 := by
    decide +kernel
  obtain ⟨row, hrow⟩ := List.length_eq_one_iff.mp hone
  have hfacts : ∀ row ∈ (awaitedConfig.world.state.dbs .postgres).logs (.anchored .priv),
      row.anchorStatus = some .confirmed ∧
        bufferFromHex row.contentHash ∈ awaitedConfig.world.state.exonum.keys .hash ∧
        connectedConfig.sha.digest (utf8 (forgedEntry row.id 3).toHashableString) ∉
          awaitedConfig.world.state.claimed .postgres (.anchored .priv) := by
    decide +kernel
  have hmem := hrow ▸ List.mem_singleton_self row
  obtain ⟨hstatus, hkey, hfresh⟩ := hfacts row hmem
  refine ⟨hreach, row, hrow, hstatus, .inl ⟨.hash, hkey⟩, fun hbacked => ?_⟩
  have hids (table : LogTable) := (table_tells hreach .postgres table).2
  obtain ⟨list, hlist⟩ := exists_listing .postgres
    ((awaitedConfig.world.state.dbs .postgres).forge connectedConfig.sha 3 (.anchored .priv) row.id)
  obtain ⟨hvalid, hnot⟩ :=
    not_backs_forge (chains_ok hreach).2 (by simp) (hids _) hmem hfresh hlist
  have hall := hbacked _ list row.id (.forge hids) hlist
  exact hnot (hall.verifyLog _ _ (Database.findById_forge (hids _) hmem) hvalid)

end HybridLog
