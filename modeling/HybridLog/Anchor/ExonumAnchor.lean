import HybridLog.Anchor.Encoding
import HybridLog.System.Config

/-!
# The Exonum anchor
-/

namespace HybridLog

open Js Async

inductive AnchorMode
  | full
  | hashOnly
  | batch
deriving DecidableEq

/-- `serviceConfig` -/
def AnchorMode.service : AnchorMode → ExonumService
  | .full => .log
  | .hashOnly => .hash
  | .batch => .batch

namespace ExonumAnchor

/-- The arguments of the transaction for an entry. -/
def logArgs (mode : AnchorMode) (entry : LogEntry) (seed : ℕ) : Bytes :=
  match mode with
  | .full => encodeWriteLog {
      contentHash := entry.dataHash
      level := entry.level
      source := entry.source
      messagePreview := entry.message.take 256
      seed := seed
      message := entry.message
      metadataJson := (metadataOrEmpty (some entry.metadata)).val.text }
  | .hashOnly | .batch => encodeWriteHash {
      contentHash := entry.dataHash
      level := entry.level
      messagePreview := entry.message.take 256
      seed := seed }

/-- The arguments of the transaction for a batch. -/
def batchArgs (sha : Sha256) (mode : AnchorMode) (entries : List LogEntry) (seed : ℕ) : Bytes :=
  match mode with
  | .batch => encodeWriteBatch {
      contentHash := sha.computeBatchHash entries
      seed := seed
      startId := startId entries
      endId := endId entries
      count := entries.length
      debugCount := levelCount entries "DEBUG"
      infoCount := levelCount entries "INFO"
      warnCount := levelCount entries "WARN"
      errorCount := levelCount entries "ERROR"
      criticalCount := levelCount entries "CRITICAL"
      maxSeverity := maxSeverity entries }
  | .full => encodeWriteLog {
      contentHash := sha.computeBatchHash entries
      level := maxSeverity entries
      source := (entries.head?.map LogEntry.source).getD []
      messagePreview := batchPreview entries
      seed := seed
      message := batchPreview entries
      metadataJson := ofString "\x7b\x7d" }
  | .hashOnly => encodeWriteHash {
      contentHash := sha.computeBatchHash entries
      level := maxSeverity entries
      messagePreview := batchPreview entries
      seed := seed }

/-- `Date.now() & 0x7fffffff` -/
def seedAt (ms : ℕ) : ℕ := ms % 2 ^ 31

variable (cfg : ServerConfig) (mode : AnchorMode)

def submitTxBytes (txArgBytes : Bytes) : Io TxHash :=
  Task.request (.submit (.exonum ⟨mode.service, txArgBytes, cfg.exonumAuthor⟩)) id

def checkTx (txHash : TxHash) (attempt : ℕ) : Io TxCheck :=
  tryCatch (do
    let type ← Task.request (.getTransaction txHash attempt) id
    match type with
    | .committed => pure ⟨true, false⟩
    | .inPool => pure ⟨false, true⟩
    | .other => pure ⟨false, false⟩)
    fun _ => pure ⟨false, true⟩

/-- The loop of `waitForConfirmation`, with `left` polls left. -/
def waitFrom (txHash : TxHash) : ℕ → ℕ → Io Bool
  | 0, _ => pure false
  | left + 1, attempt => do
    let r ← checkTx txHash attempt
    if r.confirmed then pure true
    else if r.pending then waitFrom txHash left (attempt + 1)
    else pure false

def waitForConfirmation (txHash : TxHash) : Io Bool := waitFrom txHash 30 0

def writeLog (entry : LogEntry) (opts : Option WriteOpts) : Io WriteResult :=
  tryCatch (do
    let hashed := entry.withHash cfg.sha
    let ms ← now
    let txHash ← submitTxBytes cfg mode (logArgs mode hashed (seedAt ms))
    if submitOnly opts then pure ⟨entry.id, true, some txHash, some false, none⟩
    else do
      let confirmed ← waitForConfirmation txHash
      pure ⟨entry.id, true, some txHash, some confirmed, none⟩)
    fun err => pure (.failed entry.id err)

def writeBatch (entries : List LogEntry) (opts : Option WriteOpts) : Io BatchWriteResult :=
  if entries = [] then pure (.failed [] [] 0 "Empty batch")
  else
    let hashed := entries.map (LogEntry.withHash cfg.sha)
    tryCatch (do
      let ms ← now
      let txHash ← submitTxBytes cfg mode (batchArgs cfg.sha mode hashed (seedAt ms))
      let result (confirmed : Bool) : BatchWriteResult :=
        ⟨cfg.sha.computeBatchHash hashed, startId entries, endId entries, entries.length, true,
          some txHash, some confirmed, none⟩
      if submitOnly opts then pure (result false)
      else do
        let confirmed ← waitForConfirmation txHash
        pure (result confirmed))
      fun err => pure (.failed [] [] entries.length err)

end ExonumAnchor

end HybridLog
