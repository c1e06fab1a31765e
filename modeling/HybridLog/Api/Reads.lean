import HybridLog.System.Provenance
import HybridLog.Verify.Content

/-!
# `GET /log/:id` and `GET /verify-offchain/:hash`

A log that is kept in the off-chain table is read back under its id, and the rows of the anchored
tables are looked up by their hashes.
-/

namespace HybridLog

open Js Async

/-! ### Reading a row -/

/-- How the databases give back a JSON column: PostgreSQL has its own order of keys. -/
structure JsonColumns where
  read : Db → JsonColumn → JsonColumn
  same : ∀ db m, (read db m).val.Same m.val

/-- The row that a query returns. -/
def JsonColumns.readBack (columns : JsonColumns) (db : Db) (row : LogRow) : LogRow :=
  { row with metadata := columns.read db row.metadata }

def LogEntry.toPlainObject (e : LogEntry) : Json :=
  .obj [(ofString "id", .str e.id), (ofString "timestamp", .str e.timestamp.toISOString),
    (ofString "level", .str e.level), (ofString "source", .str e.source),
    (ofString "message", .str e.message), (ofString "metadata", e.metadata.val),
    (ofString "dataHash", .str e.dataHash), (ofString "blockchainTxId", .null),
    (ofString "blockchainConfirmed", .bool false)]

variable (cfg : ServerConfig) (columns : JsonColumns) (dbs : Db → Database)

/-- The error of a query with a text, if there is one. PostgreSQL takes no text with a NUL in it,
and the collections of MongoDB are undefined until it is initialised. -/
def ServerConfig.queryError? (db : Db) (text : JsString) : Option JsError :=
  match db with
  | .postgres =>
    if 0 ∈ text then some "error: invalid byte sequence for encoding \"UTF8\": 0x00" else none
  | .mongo =>
    if cfg.mongo = .connected then none
    else some "TypeError: Cannot read properties of undefined (reading 'findOne')"

/-! ### `GET /log/:id` -/

inductive LogReply
  | unavailable
  | notFound
  | found (log : Json)
  | error (err : JsError)

def getLog (db : Db) (id : JsString) : LogReply :=
  if db = .mongo ∧ cfg.mongo = .notInstalled then .unavailable
  else match cfg.queryError? db id with
    | some err => .error err
    | none => match (dbs db).findById .offchain id with
      | none => .notFound
      | some row => match (columns.readBack db row).rebuilt? with
        | none => .error invalidTime
        | some log => .found log.toPlainObject

/-! ### `GET /verify-offchain/:hash` -/

/-- `findAnchoredByHash` -/
def Database.findByHash (d : Database) (side : Side) (contentHash : JsString) : Option LogRow :=
  (d.logs (.anchored side)).find? fun r => r.contentHash = contentHash

/-- The anchored tables that are searched. Any other text than `public` stands for the private
chain, and without a chain both tables are searched. -/
def askedSides : Option JsString → List Side
  | none | some [] => [.priv, .pub]
  | some chain => if chain = ofString "public" then [.pub] else [.priv]

inductive HashReply
  | unknown
  | found (recomputed : JsString) (isMatch : Bool) (log : Json)
  | error (err : JsError)

/-- The fields of a row that the reply shows. -/
def LogEntry.summary (e : LogEntry) : Json :=
  .obj [(ofString "id", .str e.id), (ofString "level", .str e.level),
    (ofString "source", .str e.source), (ofString "timestamp", .str e.timestamp.toISOString),
    (ofString "message", .str (e.message.take 200))]

def getVerifyOffchain (db : Db) (chain : Option JsString) (contentHash : JsString) : HashReply :=
  if db = .mongo ∧ cfg.mongo = .notInstalled then
    .error "TypeError: Cannot read properties of null"
  else match cfg.queryError? db contentHash with
    | some err => .error err
    | none => match (askedSides chain).findSome? ((dbs db).findByHash · contentHash) with
      | none => .unknown
      | some row => match (columns.readBack db row).rebuilt? with
        | none => .error invalidTime
        | some entry =>
          let recomputed := cfg.sha.computeLogHash entry
          .found recomputed (recomputed = contentHash) entry.summary

/-! ### Entries that are read back -/

/-- What comes back of an entry. -/
def keptLog (db : Db) (e : LogEntry) : LogEntry where
  id := e.id
  timestamp := e.timestamp
  level := intToLevel (levelToInt e.level)
  source := toWellFormed e.source
  message := toWellFormed e.message
  metadata := metadataOrEmpty (some (columns.read db (db.encodeMetadata e.metadata)).parsed)
  dataHash := []

variable {cfg columns dbs} {objectHash : ObjectHash} {c : RedeliveryConfig} {db : Db}

lemma rebuilt?_readBack {row : LogRow} {e : LogEntry} {contentHash : JsString}
    (h : row.core = (entryRow db e contentHash).core) :
    (columns.readBack db row).rebuilt? = some (keptLog columns db e) := by
  have hid : row.id = e.id := congrArg LogRow.id h
  have htime : row.timestamp = e.timestamp.ms := congrArg LogRow.timestamp h
  have hlevel : row.level = levelToInt e.level := congrArg LogRow.level h
  have hsource : row.source = toWellFormed e.source := congrArg LogRow.source h
  have hmessage : row.message = toWellFormed e.message := congrArg LogRow.message h
  have hmetadata : row.metadata = db.encodeMetadata e.metadata := congrArg LogRow.metadata h
  simp [LogRow.rebuilt?, JsonColumns.readBack, LogRow.entryAt, keptLog, hid, htime, hlevel,
    hsource, hmessage, hmetadata]

/-- An entry comes back with its text if it can be restored. -/
lemma text_keptLog (columns : JsonColumns) (db : Db) {e : LogEntry} (hm : e.metadata.val ≠ .null) :
    utf8 (keptLog columns db e).toHashableString = utf8 e.toHashableString ↔
      Restored db e := by
  have huntouched : Untouched (entryRow db e []) (columns.readBack db (entryRow db e [])) :=
    ⟨rfl, rfl, rfl, rfl, rfl, columns.same db _, rfl⟩
  have hentry : (columns.readBack db (entryRow db e [])).entryAt e.timestamp =
      keptLog columns db e := rfl
  rw [← hentry, text_untouched hm huntouched]

/-- A log that was meant for a table of a database and is kept there. -/
structure InTable (cfg : ServerConfig) (tr : RedeliveryTrace) (db : Db) (table : LogTable)
    (e : LogEntry) : Prop where
  destined : Destined cfg tr db table e
  inserted : ∃ t row, Did t (.insert db table row) (Except.ok ()) tr ∧
    row.core = (storedRow cfg db table e).core

/-- A table holds what is kept in it. -/
lemma inTable_of_mem {table : LogTable} {row : LogRow}
    (h : Reach (atLeastOnce cfg objectHash) .start c)
    (hrow : row ∈ (c.world.state.dbs db).logs table) :
    ∃ e, InTable cfg c.world.trace db table e ∧ row.core = (storedRow cfg db table e).core := by
  obtain ⟨e, he, hcore⟩ := destined_of_mem h hrow
  obtain ⟨t, row₀, hd, hcore₀⟩ := inserted_of_mem h hrow
  exact ⟨e, ⟨he, t, row₀, hd, hcore₀.symm.trans hcore⟩, hcore⟩

lemma InTable.mem {table : LogTable} {e : LogEntry} (h : Reach (atLeastOnce cfg objectHash) .start c)
    (hin : InTable cfg c.world.trace db table e) :
    ∃ row ∈ (c.world.state.dbs db).logs table, row.core = (storedRow cfg db table e).core := by
  obtain ⟨t, row₀, hd, hcore₀⟩ := hin.inserted
  obtain ⟨row, hrow, hcore⟩ := (atLeastOnce_faithful cfg objectHash).marked h hd
  exact ⟨row, hrow, hcore.trans hcore₀⟩

/-! ### Reading a log -/

lemma not_unavailable {text : JsString} (h : cfg.queryError? db text = none) :
    ¬(db = .mongo ∧ cfg.mongo = .notInstalled) := by
  rintro ⟨rfl, hmongo⟩
  simp [ServerConfig.queryError?, hmongo] at h

/-- The off-chain table is asked by requests only: what comes through a queue goes to a chain. -/
lemma Destined.offchain {tr : RedeliveryTrace} {e : LogEntry} (h : Destined cfg tr db .offchain e) :
    ∃ req id timestamp, .ext (.server (.post req id timestamp)) ∈ tr ∧
      pickStorage cfg req.storageMode req.db = some (.offchain db) ∧
      e = req.entry id timestamp := by
  have htarget {st : Storage} (ht : st.target? = some (db, .offchain)) : st = .offchain db := by
    cases st with
    | offchain db' =>
      cases ht
      rfl
    | chain anchor => cases ht
    | hybrid db' anchor mode => cases mode <;> cases ht
  have hnot {s : LogStrategy} {db' : Db} (hs : s ≠ .databaseOnly)
      (hst : pickStorage cfg (some (.strategy s)) db' = some (.offchain db)) : False := by
    cases s with
    | databaseOnly => exact hs rfl
    | privateChain | publicChain => cases hst
    | hybridPrivate | hybridPrivateBatch | hybridPublic | hybridPublicBatch =>
      cases (pickStorage_ofDb cfg hst).1
  cases h with
  | posted hx hst ht => exact ⟨_, _, _, hx, htarget ht ▸ hst, rfl⟩
  | queued hx hmode hs hst ht => exact (hnot hs (htarget ht ▸ hst)).elim
  | foreign hx hqueue hst ht he =>
    exact (hnot (by simpa [LogStrategy.hasQueue] using hqueue) (htarget ht ▸ hst)).elim

/-- An id finds the entry that is kept under it. -/
lemma findById_inTable {table : LogTable} {e : LogEntry}
    (h : Reach (atLeastOnce cfg objectHash) .start c)
    (hin : InTable cfg c.world.trace db table e) : ∃ row,
      (c.world.state.dbs db).findById table e.id = some row ∧
        row.core = (storedRow cfg db table e).core := by
  obtain ⟨row, hrow, hcore⟩ := hin.mem h
  have hid : row.id = e.id := congrArg LogRow.id hcore
  exact ⟨row, hid ▸ Database.findById_eq (table_tells h db table).2 hrow, hcore⟩

lemma getLog_inTable {e : LogEntry} (h : Reach (atLeastOnce cfg objectHash) .start c)
    (hquery : cfg.queryError? db e.id = none) (hin : InTable cfg c.world.trace db .offchain e) :
    getLog cfg columns c.world.state.dbs db e.id = .found (keptLog columns db e).toPlainObject := by
  obtain ⟨row, hfind, hcore⟩ := findById_inTable h hin
  rw [getLog, if_neg (not_unavailable hquery), hquery, hfind]
  dsimp only
  rw [rebuilt?_readBack hcore]

/-- What is kept is found, and nothing else. -/
lemma getLog_cases (columns : JsonColumns) {id : JsString}
    (h : Reach (atLeastOnce cfg objectHash) .start c)
    (hquery : cfg.queryError? db id = none) :
    getLog cfg columns c.world.state.dbs db id = .notFound ∧
        (∀ e, InTable cfg c.world.trace db .offchain e → e.id ≠ id) ∨
      ∃ e, InTable cfg c.world.trace db .offchain e ∧ e.id = id ∧
        getLog cfg columns c.world.state.dbs db id =
          .found (keptLog columns db e).toPlainObject := by
  cases hfind : (c.world.state.dbs db).findById .offchain id with
  | none =>
    refine .inl ⟨?_, fun e hin hid => ?_⟩
    · rw [getLog, if_neg (not_unavailable hquery), hquery, hfind]
    · obtain ⟨row, hrow, -⟩ := findById_inTable h hin
      rw [hid, hfind] at hrow
      cases hrow
  | some row =>
    obtain ⟨e, hin, hcore⟩ := inTable_of_mem h (List.mem_of_find?_eq_some hfind)
    have hid : row.id = id := by simpa using List.find?_some hfind
    have hsame : row.id = e.id := congrArg LogRow.id hcore
    obtain rfl : e.id = id := hsame.symm.trans hid
    exact .inr ⟨e, hin, rfl, getLog_inTable h hquery hin⟩

/-! ### Replies -/

section Replies

variable {req : PostRequest} {entry : LogEntry}

/-- A program for an entry has been started by its request. -/
lemma posted_of_did (h : Reach (atLeastOnce cfg objectHash) .start c) {e : Req} {r : e.Answer}
    (hd : Did (.post req entry) e r c.world.trace) : ∃ id timestamp,
      .ext (.server (.post req id timestamp)) ∈ c.world.trace ∧ entry = req.entry id timestamp := by
  obtain ⟨pre, hpre, hstep⟩ := (atLeastOnce_guarded h).did hd
  cases hstep.begun with
  | post hx => exact ⟨_, _, hpre.subset hx, rfl⟩

lemma Storage.LogResult.kept {t : Tag} {tr : RedeliveryTrace} {opts : Option WriteOpts}
    {r : WriteResult} (h : Storage.LogResult cfg opts entry t tr (.offchain db) r)
    (hsuccess : r.success = true) : ∃ t row, Did t (.insert db .offchain row) (Except.ok ()) tr ∧
      row.core = (storedRow cfg db .offchain entry).core := by
  cases h with
  | inserted hd => exact ⟨_, _, hd, rfl⟩
  | notInserted hd => cases hsuccess

/-- Where a caller is told of a success, the off-chain table of the request keeps the entry. -/
lemma inTable_of_success (h : Reach (atLeastOnce cfg objectHash) .start c) {pendingChain : Bool}
    {r : WriteResult}
    (hreply : Did (.post req entry) (.respond (.result pendingChain r)) () c.world.trace)
    (hsuccess : r.success = true)
    (hst : pickStorage cfg req.storageMode req.db = some (.offchain db)) :
    InTable cfg c.world.trace db .offchain entry := by
  obtain ⟨id, timestamp, hx, rfl⟩ := posted_of_did h hreply
  refine ⟨.posted hx hst rfl, ?_⟩
  obtain ⟨pre, hpre, hstep⟩ := (atLeastOnce_guarded h).did hreply
  generalize req.entry id timestamp = entry at hstep
  cases hstep.own (by simp [Req.OfStorage]) with
  | respond hreplied => cases hreplied with
    | batch hm hb ha =>
      obtain ⟨t, hresolved⟩ := resolved_of_await h (hb.later hpre) (ha.later hpre)
      have hkey : req.writerKey.storage cfg = some (.offchain db) := req.writerKey_storage.trans hst
      cases hresolved with
      | batch hst' hentry hresult =>
        cases hkey.symm.trans hst'
        cases hresult
      | log hst' _ hresult =>
        cases hkey.symm.trans hst'
        exact hresult.kept hsuccess
    | sync _ _ hst' hresult =>
      cases hst.symm.trans hst'
      exact (hresult.later hpre).kept hsuccess

end Replies

/-- In every run, `GET /log/:id` finds what is kept in the off-chain table and nothing else: a log
that was posted for it. It is there from the time at which its caller is told of a success, and what
is shown of it has the text that was posted exactly if the database gives it back as it was. -/
theorem get_log_reads_back (h : Reach (atLeastOnce cfg objectHash) .start c) {id : JsString}
    (hquery : cfg.queryError? db id = none) :
    (getLog cfg columns c.world.state.dbs db id = .notFound ∨
      ∃ req timestamp, .ext (.server (.post req id timestamp)) ∈ c.world.trace ∧
        pickStorage cfg req.storageMode req.db = some (.offchain db) ∧
        InTable cfg c.world.trace db .offchain (req.entry id timestamp) ∧
        getLog cfg columns c.world.state.dbs db id =
          .found (keptLog columns db (req.entry id timestamp)).toPlainObject) ∧
    (∀ req entry pendingChain r,
      Did (.post req entry) (.respond (.result pendingChain r)) () c.world.trace →
      r.success = true → pickStorage cfg req.storageMode req.db = some (.offchain db) →
      entry.id = id → getLog cfg columns c.world.state.dbs db id =
        .found (keptLog columns db entry).toPlainObject) ∧
    ∀ (req : PostRequest) timestamp,
      utf8 (keptLog columns db (req.entry id timestamp)).toHashableString =
          utf8 (req.entry id timestamp).toHashableString ↔
        Restored db (req.entry id timestamp) := by
  refine ⟨?_, ?_, ?_⟩
  · rcases getLog_cases columns h hquery with ⟨hnone, -⟩ | ⟨e, hin, hid, hfound⟩
    · exact .inl hnone
    · obtain ⟨req, id', timestamp, hx, hst, rfl⟩ := hin.destined.offchain
      obtain rfl : id' = id := hid
      exact .inr ⟨req, timestamp, hx, hst, hin, hfound⟩
  · rintro req entry pendingChain r hreply hsuccess hst rfl
    exact getLog_inTable h hquery (inTable_of_success h hreply hsuccess hst)
  · exact fun req timestamp => text_keptLog columns db (metadataOrEmpty_ne_null req.metadata)

/-- Databases that give back their columns as they are. -/
def plainColumns : JsonColumns := ⟨fun _ m => m, fun _ m => same_refl m.property⟩

/-- The log is inserted, and its caller is told. -/
def offchainRun : Option RedeliveryConfig :=
  (Config.start State.start).play (atLeastOnce connectedConfig fun _ => [])
    ([.ext (.server (.post (awaitingRequest .databaseOnly .postgres) (List.replicate 36 0x61)
      .epoch))] ++ List.replicate 2 (.act 0 State.prompt))

theorem offchain_log_read_back : ∃ h : offchainRun.isSome,
    getLog connectedConfig plainColumns (offchainRun.get h).world.state.dbs .postgres
        (List.replicate 36 0x61) =
      .found (keptLog plainColumns .postgres ((awaitingRequest .databaseOnly .postgres).entry
        (List.replicate 36 0x61) .epoch)).toPlainObject := by
  have hreach := Run.of_play (Option.some_get (x := offchainRun) rfl).symm
  have hquery : connectedConfig.queryError? .postgres (List.replicate 36 0x61) = none := by decide
  have hreply : Did (.post (awaitingRequest .databaseOnly .postgres)
      ((awaitingRequest .databaseOnly .postgres).entry (List.replicate 36 0x61) .epoch))
      (.respond (.result false ⟨List.replicate 36 0x61, true, none, none, none⟩)) ()
      (offchainRun.get rfl).world.trace := List.mem_of_getLast? rfl
  exact ⟨rfl, (get_log_reads_back hreach hquery).2.1 _ _ _ _ hreply rfl rfl rfl⟩

/-! ### Looking up a hash -/

/-- The metadata of an entry are never null. -/
lemma Destined.metadata_ne_null {tr : RedeliveryTrace} {table : LogTable} {e : LogEntry}
    (h : Destined cfg tr db table e) : e.metadata.val ≠ .null := by
  cases h with
  | posted | queued => exact metadataOrEmpty_ne_null _
  | @foreign msg st e hx hqueue hst ht he =>
    cases hbody : msg.body with
    | entry dto =>
      rw [hbody] at he
      rw [List.mem_singleton.mp he]
      exact metadataOrEmpty_ne_null _
    | entries dtos =>
      rw [hbody] at he
      obtain ⟨dto, -, rfl⟩ := List.mem_map.mp he
      exact metadataOrEmpty_ne_null _

/-- The row that a table has for a hash. -/
lemma findByHash_eq_some {d : Database} {side : Side} {contentHash : JsString} {row : LogRow}
    (h : d.findByHash side contentHash = some row) :
    row ∈ d.logs (.anchored side) ∧ row.contentHash = contentHash :=
  ⟨List.mem_of_find?_eq_some h, by simpa using List.find?_some h⟩

/-- The table has the row of a log that is kept in it. -/
lemma InTable.findByHash {side : Side} {e : LogEntry} (h : Reach (atLeastOnce cfg objectHash) .start c)
    (hin : InTable cfg c.world.trace db (.anchored side) e) :
    (c.world.state.dbs db).findByHash side (cfg.sha.leafHash e) ≠ none := by
  obtain ⟨row, hrow, hcore⟩ := hin.mem h
  have hhash : row.contentHash = cfg.sha.leafHash e := congrArg LogRow.contentHash hcore
  intro hnone
  simpa [hhash] using List.find?_eq_none.mp hnone row hrow

/-- In every run, `GET /verify-offchain/:hash` finds the log that is kept under a hash in one of the
tables it searches, or there is none. Where the hash was computed by the server, it matches if the
database gives the log back as it was; otherwise it matches only if two texts have the same hash. -/
theorem verify_offchain_tells (columns : JsonColumns)
    (h : Reach (atLeastOnce cfg objectHash) .start c)
    {contentHash : JsString} (hquery : cfg.queryError? db contentHash = none)
    (chain : Option JsString) :
    (getVerifyOffchain cfg columns c.world.state.dbs db chain contentHash = .unknown ∧
      ∀ side ∈ askedSides chain, ∀ e, InTable cfg c.world.trace db (.anchored side) e →
        cfg.sha.leafHash e ≠ contentHash) ∨
    ∃ side ∈ askedSides chain, ∃ e, InTable cfg c.world.trace db (.anchored side) e ∧
      cfg.sha.leafHash e = contentHash ∧
      getVerifyOffchain cfg columns c.world.state.dbs db chain contentHash =
        .found (cfg.sha.computeLogHash (keptLog columns db e))
          (cfg.sha.computeLogHash (keptLog columns db e) = contentHash)
          (keptLog columns db e).summary ∧
      (e.dataHash = [] →
        (Restored db e → cfg.sha.computeLogHash (keptLog columns db e) = contentHash) ∧
        (Set.InjOn cfg.sha.digest
            {utf8 (keptLog columns db e).toHashableString, utf8 e.toHashableString} →
          cfg.sha.computeLogHash (keptLog columns db e) = contentHash → Restored db e)) := by
  cases hfind : (askedSides chain).findSome?
      ((c.world.state.dbs db).findByHash · contentHash) with
  | none =>
    refine .inl ⟨?_, ?_⟩
    · rw [getVerifyOffchain, if_neg (not_unavailable hquery), hquery]
      dsimp only
      rw [hfind]
    · rintro side hside e hin rfl
      exact hin.findByHash h (List.findSome?_eq_none_iff.mp hfind side hside)
  | some row =>
    obtain ⟨side, hside, hrow⟩ := List.exists_of_findSome?_eq_some hfind
    obtain ⟨hmem, hhash⟩ := findByHash_eq_some hrow
    obtain ⟨e, hin, hcore⟩ := inTable_of_mem h hmem
    have hleaf : row.contentHash = cfg.sha.leafHash e := congrArg LogRow.contentHash hcore
    have htext := text_keptLog columns db hin.destined.metadata_ne_null
    refine .inr ⟨side, hside, e, hin, hleaf.symm.trans hhash, ?_, fun hdata => ?_⟩
    · rw [getVerifyOffchain, if_neg (not_unavailable hquery), hquery]
      dsimp only
      rw [hfind]
      dsimp only
      rw [rebuilt?_readBack hcore]
    · have hown : contentHash = cfg.sha.computeLogHash e := by
        rw [← hhash, hleaf, Sha256.leafHash, if_pos hdata]
      rw [hown]
      refine ⟨fun hcond => ?_, fun hinj heq => htext.mp ?_⟩
      · rw [Sha256.computeLogHash, Sha256.sha256, htext.mpr hcond]
        rfl
      · exact (computeLogHash_eq_iff hinj (.inl rfl) (.inr rfl)).mp heq

/-- The log of the run, which the private chain has confirmed. -/
def awaitedLog : LogEntry :=
  (awaitingRequest .hybridPrivate .postgres).entry (List.replicate 36 0x61) .epoch

theorem awaited_hash_found : ∃ h : (awaitedRun .hybridPrivate .postgres).isSome,
    ∃ side ∈ askedSides none, ∃ e, InTable connectedConfig
        ((awaitedRun .hybridPrivate .postgres).get h).world.trace .postgres (.anchored side) e ∧
      getVerifyOffchain connectedConfig plainColumns
          ((awaitedRun .hybridPrivate .postgres).get h).world.state.dbs .postgres none
          (connectedConfig.sha.leafHash awaitedLog) =
        .found (connectedConfig.sha.computeLogHash (keptLog plainColumns .postgres e))
          (connectedConfig.sha.computeLogHash (keptLog plainColumns .postgres e) =
            connectedConfig.sha.leafHash awaitedLog)
          (keptLog plainColumns .postgres e).summary := by
  have hreach := Run.of_play (Option.some_get (x := awaitedRun .hybridPrivate .postgres) rfl).symm
  have hquery : connectedConfig.queryError? .postgres
      (connectedConfig.sha.leafHash awaitedLog) = none := by decide +kernel
  obtain ⟨row, hrow, hhash⟩ : ∃ row ∈ (((awaitedRun .hybridPrivate .postgres).get
      rfl).world.state.dbs .postgres).logs (.anchored .priv),
      row.contentHash = connectedConfig.sha.leafHash awaitedLog := by decide +kernel
  obtain ⟨e, hin, hcore⟩ := inTable_of_mem hreach hrow
  have hleaf : row.contentHash = connectedConfig.sha.leafHash e :=
    congrArg LogRow.contentHash hcore
  refine ⟨rfl, ?_⟩
  rcases verify_offchain_tells plainColumns hreach hquery none with
    ⟨-, hnone⟩ | ⟨side, hside, e', he', -, hfound, -⟩
  · exact absurd (hleaf.symm.trans hhash) (hnone .priv (List.mem_cons_self ..) _ hin)
  · exact ⟨side, hside, e', he', hfound⟩

end HybridLog
