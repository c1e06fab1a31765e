import HybridLog.Storage.Storage

/-!
# Publisher and subscriber

The submit handler writes the entries of a message to a storage without waiting for the chain and
hands a transaction that is not confirmed to the confirm queue, whose handler polls the chain and
updates the row. Both acknowledge their message however they end.
-/

namespace HybridLog

open Js Async

/-! ### Publisher -/

def noSubmitQueue : JsError := "Error: No submit queue for strategy"

def noConfirmQueue : JsError := "Error: No confirm queue for strategy"

def publishConfirm (msg : ConfirmMessage) : Io Unit :=
  if msg.strategy.hasQueue then Task.request (.publishConfirm msg) id else throw noConfirmQueue

/-- `publishLog`, for any name of a strategy. -/
def publishLog (entry : LogEntry) (mode : StorageMode) (db : Db) : Io Unit :=
  match mode with
  | .other _ => throw noSubmitQueue
  | .strategy .databaseOnly => throw "Error: publishLog must not be called for db_only strategy"
  | .strategy s => do
    let enqueuedAt ← now
    Task.request (.publishSubmit ⟨.entry (toDTO entry), s, db, entry.id, none, enqueuedAt⟩)
      fun r => r

/-! ### Replies -/

/-- `replyResult` drops the exception of a publication that fails. -/
def replyResult (replyTo : JsString) (msg : ResultMessage) : Io Unit :=
  tryCatch (Task.request (.publishReply replyTo msg) id) fun _ => pure ()

/-- The queue a reply is asked for in. An empty name asks for none. -/
def replyQueue (replyTo : Option JsString) : Option JsString :=
  replyTo.filter fun queue => queue ≠ []

/-- A reply, if one is asked for. -/
def replyIfAsked (replyTo : Option JsString) (msg : ResultMessage) : Io Unit :=
  match replyQueue replyTo with
  | none => pure ()
  | some queue => replyResult queue msg

/-! ### Submit queues -/

/-- `{ waitForConfirmation: false }` -/
def submitOnlyOpts : WriteOpts := ⟨some false⟩

/-- What a submit handler goes on with after the write. -/
structure Submitted where
  txId : Option TxHash
  confirmed : Bool
  logId : JsString

/-- The property of a storage that does not exist is read. -/
def nullStorage : JsError := "TypeError: Cannot read properties of null"

variable (cfg : ServerConfig)

/-- The write of a submit handler. -/
def submitWrite (storage : Option Storage) (body : SubmitBody) : Io Submitted :=
  match storage, body with
  | none, _ => throw nullStorage
  | some st, .entries dtos =>
    match st.writeBatch? cfg with
    | none => throw "Error: Storage does not support writeBatch"
    | some writeBatch => do
      let result ← writeBatch (SubmitBody.entries dtos).read (some submitOnlyOpts)
      pure ⟨result.txId, result.confirmed.getD true, result.batchHash⟩
  | some st, .entry dto => do
    let result ← st.writeLog cfg (dtoToEntry dto.parsed) (some submitOnlyOpts)
    pure ⟨result.txId, result.confirmed.getD true, result.logId⟩

/-- The message that hands a transaction over. -/
def confirmMessage (strategy : LogStrategy) (raw : SubmitMessage) (logId : JsString)
    (txHash : TxHash) : ConfirmMessage where
  logId := logId
  txHash := txHash
  strategy := strategy
  chain := strategy.chainFor
  db := raw.db
  dbTable := if strategy.isBatch then strategy.batchedTableFor else strategy.anchoredTableFor
  batchesTable := if strategy.isBatch then some strategy.batchesTableFor else none
  correlationId := raw.correlationId
  replyTo := raw.replyTo
  enqueuedAt := raw.enqueuedAt

/-- The handler of the submit queue of `strategy`. -/
def submitHandler (strategy : LogStrategy) (raw : SubmitMessage) : Io Unit :=
  Task.finallyDo
    (tryCatch (do
      let written ← submitWrite cfg (pickStorage cfg (some (.strategy strategy)) raw.db) raw.body
      match written.txId, written.confirmed with
      | some txHash, false => publishConfirm (confirmMessage strategy raw written.logId txHash)
      | txHash, _ => replyIfAsked raw.replyTo ⟨raw.correlationId, true, txHash, none⟩)
      fun err => replyIfAsked raw.replyTo ⟨raw.correlationId, false, none, some err⟩)
    ack

/-- A message for the private chain, to try statements on. -/
def askingMessage : SubmitMessage where
  body := .entry (toDTO (.create [0x61] .epoch infoLevel [] (ofString "hello") none))
  strategy := .privateChain
  db := .postgres
  correlationId := [0x63]
  replyTo := some [0x71]
  enqueuedAt := 0

/-! ### Confirm queues -/

/-- `checkTx` of the anchor of a chain. -/
def checkTx (chain : Chain) (txHash : TxHash) (attempt : ℕ) : Io TxCheck :=
  match chain with
  | .exonum => ExonumAnchor.checkTx txHash attempt
  | .ethereum => EthereumAnchor.checkTx cfg txHash attempt

/-- The loop of the confirm handler, with `left` polls left and `last` the result of the one
before. -/
def pollFrom (chain : Chain) (txHash : TxHash) (last : TxCheck) : ℕ → ℕ → Io TxCheck
  | 0, _ => pure last
  | left + 1, attempt => do
    let r ← checkTx cfg chain txHash attempt
    if r.confirmed || !r.pending then pure r
    else pollFrom chain txHash r left (attempt + 1)

/-- `confirmed ? 'confirmed' : pending ? 'pending' : 'failed'` -/
def TxCheck.status (r : TxCheck) : AnchorStatus :=
  if r.confirmed then .confirmed else if r.pending then .pending else .failed

/-- The update of the row a confirm message names. -/
def confirmUpdate (strategy : LogStrategy) (raw : ConfirmMessage) (r : TxCheck) : Io Unit :=
  if strategy.isHybrid then
    if raw.db = .mongo ∧ cfg.mongo = .notInstalled then throw "Error: MongoDB not available"
    else do
      let anchoredAt ← anchoredNow (some r.confirmed)
      match strategy.isBatch, raw.batchesTable with
      | true, some table =>
        updateBatchAnchorStatus raw.db raw.logId r.status (some raw.txHash) anchoredAt table
      | _, _ =>
        updateAnchorStatus raw.db raw.logId r.status (some raw.txHash) anchoredAt raw.dbTable
  else pure ()

/-- The handler of the confirm queue of `strategy`. -/
def confirmHandler (strategy : LogStrategy) (raw : ConfirmMessage) : Io Unit :=
  Task.finallyDo
    (tryCatch (do
      let r ← pollFrom cfg raw.chain raw.txHash ⟨false, true⟩ 60 0
      confirmUpdate cfg strategy raw r
      replyIfAsked raw.replyTo ⟨raw.correlationId, r.confirmed, some raw.txHash, none⟩)
      fun err => replyIfAsked raw.replyTo ⟨raw.correlationId, false, none, some err⟩)
    ack

/-- `subscribe` runs a handler, and drops the message if the handler throws. -/
def consume (handler : Io Unit) : Io Unit := tryCatch handler fun _ => nack

end HybridLog
