import HybridLog.Queue.Subscriber

/-!
# `POST /log`

Depending on the mode of the request, an entry is written at once, handed to a batch writer, or
published to a submit queue.
-/

namespace HybridLog

open Js Async

/-- A `writeMode` other than these is treated as `sync`. -/
inductive WriteMode
  | sync
  | async
  | batch
deriving DecidableEq

/-- The body of a request whose `level`, `source` and `message` are strings. -/
structure PostRequest where
  level : JsString
  source : JsString
  message : JsString
  metadata : Option JsonValue
  storageMode : Option StorageMode
  writeMode : WriteMode
  db : Db

def PostRequest.entry (req : PostRequest) (id : JsString) (timestamp : JsDate) : LogEntry :=
  .create id timestamp req.level req.source req.message req.metadata

variable (cfg : ServerConfig)

/-! ### Batch writers -/

/-- `maxSize` of the batch writers of the server. -/
def batchSize : ℕ := 10

/-- The storage of the batch writer cached under a key. -/
def WriterKey.storage (key : WriterKey) : Option Storage := pickStorage cfg (some key.strategy) key.db

def WriterKey.opts (key : WriterKey) : Option WriteOpts :=
  if key.strategy.isChainStrategy then some submitOnlyOpts else none

/-- `onFlush`, which a writer has if the broker is connected and its strategy uses a chain. -/
def onFlush (key : WriterKey) (result : BatchWriteResult) : Io Unit :=
  match result.txId with
  | none => pure ()
  | some txHash =>
    if result.confirmed = some true then pure ()
    else match key.strategy with
      | .other _ => throw noConfirmQueue
      | .strategy s => do
        let enqueuedAt ← now
        publishConfirm {
          logId := result.batchHash
          txHash := txHash
          strategy := s
          chain := s.chainFor
          db := key.db
          dbTable := if s.isBatch then s.batchedTableFor else s.anchoredTableFor
          batchesTable := if s.isBatch then some s.batchesTableFor else none
          correlationId := result.batchHash
          replyTo := none
          enqueuedAt := enqueuedAt }

def WriterKey.hasOnFlush (key : WriterKey) : Bool := cfg.mqReady && key.strategy.isChainStrategy

/-- The promises of a batch and how they are settled. -/
def settlements (pending : List PendingEntry) (answer : Except JsError Answer) :
    List (ℕ × Outcome) :=
  (pending.map PendingEntry.promise).zip (outcomes pending answer)

/-- The part of `flush` after a batch has been taken out of the buffer. -/
def flushBatch (key : WriterKey) (pending : List PendingEntry) : Io Unit :=
  tryCatch (
    match key.storage cfg with
    | none => throw nullStorage
    | some st => match st.writeBatch? cfg with
      | some writeBatch => do
        let result ← writeBatch (pending.map PendingEntry.entry) key.opts
        settlePromises (settlements pending (.ok (.batch result)))
        if key.hasOnFlush cfg then onFlush key result else pure ()
      | none => do
        let results ← promiseAll (pending.map fun p => st.writeLog cfg p.entry key.opts)
        settlePromises (settlements pending (.ok (.logs results))))
    fun err => settlePromises (settlements pending (.error err))

/-- `write` of a batch writer: the entry is buffered, and if that fills the buffer a flush is left
running. The caller waits for its promise. -/
def batchWrite (key : WriterKey) (entry : LogEntry) : Io WriteResult := do
  let (promise, batch) ← Task.request (.buffer key entry) fun r => .ok r
  if batch = [] then pure () else Async.Task.spawn (Prog.detach (flushBatch cfg key batch).run)
  Task.request (.await promise) fun
    | .resolved r => .ok r
    | .rejected err => .error err

/-! ### The endpoint -/

/-- `new SyncWriter(storage).write(entry)` -/
def syncWrite (storage : Option Storage) (entry : LogEntry) : Io WriteResult :=
  match storage with
  | none => throw nullStorage
  | some st => st.writeLog cfg entry none

/-- The key of the batch writer of a request. -/
def PostRequest.writerKey (req : PostRequest) : WriterKey :=
  ⟨req.storageMode.getD (.strategy .databaseOnly), req.db⟩

/-- The mode of a request that is to be published to a queue. -/
def PostRequest.queuedMode? (req : PostRequest) : Option StorageMode :=
  if req.writeMode = .async ∧ cfg.mqReady then
    req.storageMode.filter fun m => m.truthy && m.isChainStrategy
  else none

/-- `!!result.txId && result.confirmed === false` -/
def isPendingChain (r : WriteResult) : Bool := r.txId.isSome && r.confirmed = some false

def postLog (req : PostRequest) (entry : LogEntry) : Io Unit :=
  tryCatch (
    if req.db = .mongo ∧ cfg.mongo = .notInstalled then respond .unavailable
    else match req.queuedMode? cfg with
      | some mode => do
        publishLog entry mode req.db
        respond .queued
      | none =>
        if req.writeMode = .batch then do
          let result ← batchWrite cfg req.writerKey entry
          respond (.result (isPendingChain result) result)
        else do
          let result ← syncWrite cfg (pickStorage cfg req.storageMode req.db) entry
          respond (.result false result))
    fun err => respond (.error err)

end HybridLog
