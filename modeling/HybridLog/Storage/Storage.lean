import HybridLog.Anchor.EthereumAnchor
import HybridLog.Anchor.ExonumAnchor

/-!
# Storages

A storage writes entries to a database, to a chain, or first to a database and then the hash to a
chain. Its functions turn every exception of the steps they take into a failed result.
-/

namespace HybridLog

open Js Async

variable (cfg : ServerConfig)

/-! ### Anchors -/

inductive Anchor
  | exonum (mode : AnchorMode)
  | ethereum
deriving DecidableEq

namespace Anchor

def chain : Anchor → Chain
  | .exonum _ => .exonum
  | .ethereum => .ethereum

def writeLog : Anchor → LogEntry → Option WriteOpts → Io WriteResult
  | .exonum mode => ExonumAnchor.writeLog cfg mode
  | .ethereum => EthereumAnchor.writeLog cfg

def writeBatch : Anchor → List LogEntry → Option WriteOpts → Io BatchWriteResult
  | .exonum mode => ExonumAnchor.writeBatch cfg mode
  | .ethereum => EthereumAnchor.writeBatch cfg

end Anchor

/-! ### `PostgresStorage` and `MongoStorage` -/

namespace OffchainStorage

def writeLog (db : Db) (entry : LogEntry) : Io WriteResult :=
  tryCatch (do
    insertOffchain db (entry.withHash cfg.sha)
    pure ⟨entry.id, true, none, none, none⟩)
    fun err => pure (.failed entry.id err)

end OffchainStorage

/-! ### `HybridStorage` -/

inductive HybridMode
  | anchored (s : Side)
  | batched (s : Side)
deriving DecidableEq

namespace HybridMode

def logTable : HybridMode → LogTable
  | anchored s => .anchored s
  | batched s => .batched s

def batchesTable : HybridMode → Side
  | anchored s | batched s => s

end HybridMode

/-- `confirmed ? 'confirmed' : success ? 'pending' : 'failed'` -/
def statusOf (confirmed : Option Bool) (success : Bool) : AnchorStatus :=
  if confirmed = some true then .confirmed else if success then .pending else .failed

/-- `confirmed ? new Date() : undefined` -/
def anchoredNow (confirmed : Option Bool) : Io (Option ℕ) :=
  if confirmed = some true then do
    let ms ← now
    pure (some ms)
  else pure none

namespace HybridStorage

def writeLog (db : Db) (anchor : Anchor) (mode : HybridMode) (entry : LogEntry)
    (opts : Option WriteOpts) : Io WriteResult :=
  let hashed := entry.withHash cfg.sha
  tryCatch (do
    insertAnchored db hashed hashed.dataHash mode.logTable
    let r ← anchor.writeLog cfg hashed opts
    let anchoredAt ← anchoredNow r.confirmed
    updateAnchorStatus db entry.id (statusOf r.confirmed r.success) r.txId anchoredAt mode.logTable
    pure ⟨entry.id, true, r.txId, r.confirmed, none⟩)
    fun err => pure (.failed entry.id err)

/-- The record of a batch. -/
def batchRow (entries : List LogEntry) : BatchRow where
  merkleRoot := cfg.sha.computeBatchHash entries
  startId := startId entries
  endId := endId entries
  logCount := entries.length
  debugCount := levelCount entries "DEBUG"
  infoCount := levelCount entries "INFO"
  warnCount := levelCount entries "WARN"
  errorCount := levelCount entries "ERROR"
  criticalCount := levelCount entries "CRITICAL"
  maxSeverity := (entries.map fun e => levelToInt e.level).foldl max 0
  anchorStatus := .pending
  anchorTxHash := none
  anchoredAt := none

/-- `_writeBatch`. Both anchors have a `writeBatch`. -/
def writeBatch (db : Db) (anchor : Anchor) (mode : HybridMode) (entries : List LogEntry)
    (opts : Option WriteOpts) : Io BatchWriteResult :=
  if entries = [] then pure (.failed [] [] 0 "Empty batch")
  else
    let hashed := entries.map (LogEntry.withHash cfg.sha)
    let merkleRoot := cfg.sha.computeBatchHash hashed
    tryCatch (do
      let _ ← promiseAll (hashed.map fun e => insertBatched db e e.dataHash mode.logTable)
      insertBatchRecord db (batchRow cfg hashed) mode.batchesTable
      linkBatchLeaves db (hashed.map LogEntry.id) merkleRoot mode.batchesTable
      let r ← anchor.writeBatch cfg hashed opts
      let anchoredAt ← anchoredNow r.confirmed
      updateBatchAnchorStatus db merkleRoot (statusOf r.confirmed r.success) r.txId anchoredAt
        mode.batchesTable
      pure ⟨merkleRoot, startId entries, endId entries, entries.length, r.success, r.txId,
        r.confirmed, none⟩)
      fun err => pure (.failed (startId entries) (endId entries) entries.length err)

end HybridStorage

/-! ### Any storage -/

inductive Storage
  | offchain (db : Db)
  | chain (anchor : Anchor)
  | hybrid (db : Db) (anchor : Anchor) (mode : HybridMode)
deriving DecidableEq

namespace Storage

def writeLog : Storage → LogEntry → Option WriteOpts → Io WriteResult
  | .offchain db, entry, _ => OffchainStorage.writeLog cfg db entry
  | .chain anchor, entry, opts => anchor.writeLog cfg entry opts
  | .hybrid db anchor mode, entry, opts => HybridStorage.writeLog cfg db anchor mode entry opts

/-- Storages of one row per entry have no `writeBatch`. -/
def writeBatch? : Storage → Option (List LogEntry → Option WriteOpts → Io BatchWriteResult)
  | .offchain _ | .hybrid _ _ (.anchored _) => none
  | .chain anchor => some (anchor.writeBatch cfg)
  | .hybrid db anchor (.batched s) => some (HybridStorage.writeBatch cfg db anchor (.batched s))

end Storage

/-- `pickStorage` with the storages the server starts with; those of MongoDB exist only if it was
found. -/
def pickStorage (storageMode : Option StorageMode) (db : Db) : Option Storage :=
  match storageMode with
  | some (.strategy .privateChain) => some (.chain (.exonum .full))
  | some (.strategy .publicChain) => some (.chain .ethereum)
  | some (.strategy .hybridPublicBatch) => ofDb (.hybrid db .ethereum (.batched .pub))
  | some (.strategy .hybridPublic) => ofDb (.hybrid db .ethereum (.anchored .pub))
  | some (.strategy .hybridPrivateBatch) => ofDb (.hybrid db (.exonum .batch) (.batched .priv))
  | some (.strategy .hybridPrivate) => ofDb (.hybrid db (.exonum .hashOnly) (.anchored .priv))
  | some (.strategy .databaseOnly) | some (.other _) | none => ofDb (.offchain db)
where
  ofDb (s : Storage) : Option Storage :=
    if db = .mongo ∧ cfg.mongo ≠ .connected then none else some s

/-- How the server wires the storage of a hybrid strategy. -/
structure Wired (s : LogStrategy) (db db' : Db) (anchor : Anchor) (mode : HybridMode) : Prop where
  adapter : db' = db
  available : db = .mongo → cfg.mongo = .connected
  isHybrid : s.isHybrid = true
  chain : anchor.chain = s.chainFor
  logTable : mode.logTable = if s.isBatch then s.batchedTableFor else s.anchoredTableFor
  batchesTable : mode.batchesTable = s.batchesTableFor

lemma pickStorage_ofDb {db : Db} {st st' : Storage} (h : pickStorage.ofDb cfg db st = some st') :
    st = st' ∧ (db = .mongo → cfg.mongo = .connected) := by
  rw [pickStorage.ofDb] at h
  split at h
  · cases h
  · next hdb => exact ⟨Option.some.inj h, by simpa using hdb⟩

lemma pickStorage_hybrid {s : LogStrategy} {db db' : Db} {anchor : Anchor} {mode : HybridMode}
    (h : pickStorage cfg (some (.strategy s)) db = some (.hybrid db' anchor mode)) :
    Wired cfg s db db' anchor mode := by
  cases s with
  | privateChain | publicChain => cases h
  | databaseOnly => cases (pickStorage_ofDb cfg h).1
  | hybridPrivate | hybridPrivateBatch | hybridPublic | hybridPublicBatch =>
    obtain ⟨heq, hdb⟩ := pickStorage_ofDb cfg h
    cases heq
    exact ⟨rfl, hdb, rfl, rfl, rfl, rfl⟩

end HybridLog
