import HybridLog.Async.Guard
import HybridLog.Chain.Ethereum
import HybridLog.Chain.Exonum
import HybridLog.Database.Operations
import HybridLog.Modes.BatchWriter
import HybridLog.Queue.Messages

/-!
# Requests of the server

Everything the programs of the server do to something shared: the databases, the two chains, the
broker, the batch writers, the clock and the HTTP response. A request that may fail is answered
with an exception or a value.
-/

namespace HybridLog

open Js Async

/-- A transaction for one of the chains. -/
inductive ChainTx
  | exonum (tx : ExonumTx)
  | ethereum (tx : EthereumTx)

/-- The field `type` of an answer of the Exonum explorer. -/
inductive ExplorerType
  | committed
  | inPool
  | other
deriving DecidableEq

/-- The key under which a batch writer is cached. -/
structure WriterKey where
  strategy : StorageMode
  db : Db
deriving DecidableEq

/-- What `POST /log` answers. The echo of the entry is left out. -/
inductive Reply
  | unavailable
  | queued
  | result (pendingChain : Bool) (r : WriteResult)
  | error (err : JsError)

inductive Req
  | insert (db : Db) (table : LogTable) (row : LogRow)
  | insertBatchRecord (db : Db) (table : Side) (row : BatchRow)
  /-- The transaction of `linkBatchLeaves` of PostgreSQL. -/
  | linkLeaves (table : Side) (ids : List JsString) (merkleRoot : JsString)
  /-- One `updateOne` of `linkBatchLeaves` of MongoDB. -/
  | linkLeaf (table : Side) (id merkleRoot : JsString) (index : ℕ)
  | updateAnchorStatus (db : Db) (table : LogTable) (id : JsString) (status : AnchorStatus)
    (txHash : Option TxHash) (anchoredAt : Option ℕ)
  | updateBatchAnchorStatus (db : Db) (table : Side) (merkleRoot : JsString)
    (status : AnchorStatus) (txHash : Option TxHash) (anchoredAt : Option ℕ)
  | submit (tx : ChainTx)
  /-- The requests for the state of a transaction carry the number of the poll they belong to. -/
  | getTransaction (txHash : TxHash) (attempt : ℕ)
  | getReceipt (txHash : TxHash) (attempt : ℕ)
  | getBlockNumber (attempt : ℕ)
  /-- `tx.wait`, with the hash of the receipt. It fails where there is no receipt to read the hash
  from, as there may be for 0 confirmations. -/
  | waitReceipt (txHash : TxHash)
  | publishSubmit (msg : SubmitMessage)
  | publishConfirm (msg : ConfirmMessage)
  | publishReply (replyTo : JsString) (msg : ResultMessage)
  | ack
  | nack
  /-- `Date.now()` -/
  | now
  /-- `write` of a batch writer, up to its first `await`. -/
  | buffer (key : WriterKey) (entry : LogEntry)
  | settle (settled : List (ℕ × Outcome))
  | await (promise : ℕ)
  | respond (reply : Reply)

/-- The answers to a request. -/
def Req.Answer : Req → Type
  | .insert .. | .insertBatchRecord .. | .linkLeaves .. | .linkLeaf .. | .updateAnchorStatus ..
  | .updateBatchAnchorStatus .. | .waitReceipt .. | .publishSubmit .. | .publishConfirm ..
  | .publishReply .. => Except JsError Unit
  | .submit .. => Except JsError TxHash
  | .getTransaction .. => Except JsError ExplorerType
  | .getReceipt .. => Except JsError (Option Receipt)
  | .getBlockNumber .. => Except JsError ℕ
  | .ack | .nack | .settle .. | .respond .. => Unit
  | .now => ℕ
  | .buffer .. => ℕ × List PendingEntry
  | .await .. => Outcome

/-- Answers of a run, which may depend on the requests before. -/
abbrev Oracle := List Req → (e : Req) → e.Answer

/-- An asynchronous function of the server. -/
abbrev Io (α : Type) := Task Req Req.Answer JsError α

/-! ### The adapters -/

def insertOffchain (db : Db) (log : LogEntry) : Io Unit :=
  Task.request (.insert db .offchain (offchainRow db log)) id

def insertAnchored (db : Db) (log : LogEntry) (contentHash : JsString) (table : LogTable) :
    Io Unit :=
  Task.request (.insert db table (anchoredRow db log contentHash table)) id

def insertBatched (db : Db) (log : LogEntry) (contentHash : JsString) (table : LogTable) :
    Io Unit :=
  Task.request (.insert db table (batchedRow db log contentHash)) id

def insertBatchRecord (db : Db) (row : BatchRow) (table : Side) : Io Unit :=
  Task.request (.insertBatchRecord db table row) id

/-- The loop of `linkBatchLeaves` of MongoDB, from leaf `i` on. -/
def linkEach (table : Side) (merkleRoot : JsString) : ℕ → List JsString → Io Unit
  | _, [] => pure ()
  | i, id :: ids => do
    Task.request (.linkLeaf table id merkleRoot i) (fun r => r)
    linkEach table merkleRoot (i + 1) ids

def linkBatchLeaves (db : Db) (ids : List JsString) (merkleRoot : JsString) (table : Side) :
    Io Unit :=
  match db with
  | .postgres => Task.request (.linkLeaves table ids merkleRoot) id
  | .mongo => linkEach table merkleRoot 0 ids

def updateAnchorStatus (db : Db) (id : JsString) (status : AnchorStatus) (txHash : Option TxHash)
    (anchoredAt : Option ℕ) (table : LogTable) : Io Unit :=
  Task.request (.updateAnchorStatus db table id status txHash anchoredAt) fun r => r

def updateBatchAnchorStatus (db : Db) (merkleRoot : JsString) (status : AnchorStatus)
    (txHash : Option TxHash) (anchoredAt : Option ℕ) (table : Side) : Io Unit :=
  Task.request (.updateBatchAnchorStatus db table merkleRoot status txHash anchoredAt) id

/-! ### Clock, broker and client -/

def now : Io ℕ := Task.request .now .ok

def ack : Io Unit := Task.request .ack .ok

def nack : Io Unit := Task.request .nack .ok

def settlePromises (settled : List (ℕ × Outcome)) : Io Unit := Task.request (.settle settled) .ok

def respond (reply : Reply) : Io Unit := Task.request (.respond reply) .ok

/-! ### Neighbours that answer -/

/-- What has become of a transaction. -/
inductive Fate
  /-- In a block, with enough confirmations. -/
  | included
  /-- In a block, without effect. -/
  | reverted
  /-- Unknown to the node, and not in its pool. -/
  | unknown
deriving DecidableEq

/-- The hash of a transaction, to try statements on. -/
def includedHash : TxHash := "e3b0c44298fc1c149afbf4c8996fb92427ae41e4649b934ca495991b7852b855"

/-- Neighbours that do what they are asked if they can, for a transaction that has its fate. -/
def decidedAnswer (fate : Fate) : (e : Req) → e.Answer
  | .insert .. | .insertBatchRecord .. | .linkLeaves .. | .linkLeaf ..
  | .updateBatchAnchorStatus .. | .publishSubmit .. | .publishConfirm .. | .publishReply .. =>
    Except.ok ()
  | .updateAnchorStatus db table _ _ _ _ =>
    if db.hasStatus table then Except.ok ()
    else Except.error "error: column \"anchor_status\" does not exist"
  | .submit _ => Except.ok includedHash
  | .getTransaction .. =>
    if fate = .unknown then Except.error "AxiosError: Request failed with status code 404"
    else Except.ok ExplorerType.committed
  | .getReceipt .. =>
    Except.ok (if fate = .unknown then none else some ⟨decide (fate = .included), 1⟩)
  | .getBlockNumber _ => Except.ok 4
  | .waitReceipt _ => if fate = .included then Except.ok () else Except.error "Error: reverted"
  | .ack | .nack | .settle .. | .respond .. => ()
  | .now => (0 : ℕ)
  | .buffer .. => ((0, []) : ℕ × List PendingEntry)
  | .await _ => Outcome.rejected "Error: no batch"

end HybridLog
