import HybridLog.System.Config

/-!
# The Ethereum anchor

The server makes one such anchor, for the contract `LogStore`. Encoding the arguments of a call
throws where a text is not well formed or a source is too long; in that case nothing is sent.
-/

namespace HybridLog

open Js Async

namespace EthereumAnchor

/-- `toUtf8Bytes` -/
def strictUtf8 (s : JsString) : Except JsError Bytes :=
  if wellFormed s then .ok (utf8 s) else .error "TypeError: invalid surrogate pair"

/-- `encodeBytes32String` of the first 31 code units. -/
def sourceBytes32 (source : JsString) : Except JsError Bytes := do
  let bytes ← strictUtf8 (source.take 31)
  if 31 < bytes.length then throw "Error: bytes32 string must be less than 32 bytes"
  else return bytes ++ List.replicate (32 - bytes.length) 0

/-- The bytes of a string of hexadecimal digits. -/
def hexBytes? : JsString → Option Bytes
  | [] => some []
  | [_] => none
  | c :: d :: rest => match hexValue? c, hexValue? d, hexBytes? rest with
    | some x, some y, some bs => some (UInt8.ofNat (x * 16 + y) :: bs)
    | _, _, _ => none

/-- `hash.replace(/^0x/, '')` -/
def withoutHexMark : JsString → JsString
  | 0x30 :: 0x78 :: rest => rest
  | s => s

def toBytes32 (hash : JsString) : Except JsError Bytes :=
  let hex := withoutHexMark hash
  match hexBytes? ((List.replicate (64 - hex.length) 0x30 ++ hex).take 64) with
  | some bs => .ok bs
  | none => .error "TypeError: invalid BytesLike value"

def levelUint8 (level : JsString) : ℕ := (levelToInt level).toNat

/-- The call of `write` for an entry. -/
def logCall (entry : LogEntry) : Except JsError StoreWrite := do
  let source ← sourceBytes32 entry.source
  return {
    contentHash := ← toBytes32 entry.dataHash
    level := levelUint8 entry.level
    source := source
    messagePreview := ← strictUtf8 (entry.message.take 256)
    message := ← strictUtf8 entry.message
    metadataJson := ← strictUtf8 (metadataOrEmpty (some entry.metadata)).val.text }

/-- The call of `write` for a batch. -/
def batchCall (sha : Sha256) (entries : List LogEntry) : Except JsError StoreWrite := do
  let source ← sourceBytes32 ((entries.head?.map LogEntry.source).getD [])
  return {
    contentHash := ← toBytes32 (sha.computeBatchHash entries)
    level := levelUint8 (maxSeverity entries)
    source := source
    messagePreview := ← strictUtf8 (ofString ("batch:" ++ toString entries.length))
    message := ← strictUtf8 (batchPreview entries)
    metadataJson := ← strictUtf8 (ofString "\x7b\x7d") }

variable (cfg : ServerConfig)

def send (call : StoreWrite) : Io TxHash :=
  Task.request (.submit (.ethereum ⟨call, cfg.ethereumSender⟩)) id

def writeLog (entry : LogEntry) (opts : Option WriteOpts) : Io WriteResult :=
  tryCatch (do
    let call ← Task.ofExcept (logCall (entry.withHash cfg.sha))
    let txHash ← send cfg call
    if submitOnly opts then pure ⟨entry.id, true, some txHash, some false, none⟩
    else do
      Task.request (.waitReceipt txHash) (fun r => r)
      pure ⟨entry.id, true, some txHash, some true, none⟩)
    fun err => pure (.failed entry.id err)

def writeBatch (entries : List LogEntry) (opts : Option WriteOpts) : Io BatchWriteResult :=
  if entries = [] then pure (.failed [] [] 0 "Empty batch")
  else
    let hashed := entries.map (LogEntry.withHash cfg.sha)
    tryCatch (do
      let call ← Task.ofExcept (batchCall cfg.sha hashed)
      let txHash ← send cfg call
      let result (confirmed : Bool) : BatchWriteResult :=
        ⟨cfg.sha.computeBatchHash hashed, startId entries, endId entries, entries.length, true,
          some txHash, some confirmed, none⟩
      if submitOnly opts then pure (result false)
      else do
        Task.request (.waitReceipt txHash) (fun r => r)
        pure (result true))
      fun err => pure (.failed [] [] entries.length err)

/-- There is no receipt as long as the transaction is in no block. -/
def checkTx (txHash : TxHash) (attempt : ℕ) : Io TxCheck :=
  tryCatch (do
    let receipt ← Task.request (.getReceipt txHash attempt) id
    match receipt with
    | none => pure ⟨false, true⟩
    | some r =>
      if r.status then do
        let currentBlock ← Task.request (.getBlockNumber attempt) id
        let confirmed := decide (r.blockNumber + cfg.confirmationBlocks ≤ currentBlock)
        pure ⟨confirmed, !confirmed⟩
      else pure ⟨false, false⟩)
    fun _ => pure ⟨false, true⟩

end EthereumAnchor

end HybridLog
