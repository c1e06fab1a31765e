import HybridLog.Database.Rows

/-!
# Results of storages

What `writeLog` and `writeBatch` of a storage resolve to, and the options they are called with.
Latencies are left out.
-/

namespace HybridLog

open Js

/-- The text of an exception. -/
abbrev JsError := String

structure WriteResult where
  logId : JsString
  success : Bool
  txId : Option TxHash
  confirmed : Option Bool
  error : Option JsError
deriving DecidableEq

structure BatchWriteResult where
  batchHash : JsString
  startId : JsString
  endId : JsString
  count : ℕ
  success : Bool
  txId : Option TxHash
  confirmed : Option Bool
  error : Option JsError
deriving DecidableEq

structure WriteOpts where
  waitForConfirmation : Option Bool
deriving DecidableEq

/-- `{ logId, success: false, error: String(err) }` -/
def WriteResult.failed (logId : JsString) (err : JsError) : WriteResult :=
  ⟨logId, false, none, none, some err⟩

/-- The result of a batch write that failed. -/
def BatchWriteResult.failed (startId endId : JsString) (count : ℕ) (err : JsError) :
    BatchWriteResult :=
  ⟨[], startId, endId, count, false, none, none, some err⟩

/-- What a member of a batch is told of the write of the batch. -/
def BatchWriteResult.forEntry (r : BatchWriteResult) (e : LogEntry) : WriteResult :=
  ⟨e.id, r.success, r.txId, r.confirmed, r.error⟩

end HybridLog
