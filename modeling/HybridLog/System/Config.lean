import HybridLog.System.Requests

/-!
# Configuration of the server
-/

namespace HybridLog

open Js Async

/-- How the start of the server found MongoDB. If only its initialisation failed, requests for it
are let through to storages that do not exist. -/
inductive MongoStartup
  | connected
  | failed
  | notInstalled
deriving DecidableEq

structure ServerConfig where
  sha : Sha256
  /-- The key the server signs Exonum transactions with. -/
  exonumAuthor : Address
  /-- The account of the server's wallet. -/
  ethereumSender : Bytes
  /-- For 0, `tx.wait` does not wait, and gives no receipt of a transaction that is in no block. -/
  confirmationBlocks : ℕ
  mqReady : Bool
  mongo : MongoStartup

/-- A server with all its neighbours connected, to try statements on. -/
def connectedConfig : ServerConfig where
  sha := lengthSha
  exonumAuthor := []
  ethereumSender := []
  confirmationBlocks := 3
  mqReady := true
  mongo := .connected

/-- `opts?.waitForConfirmation === false` -/
def submitOnly (opts : Option WriteOpts) : Bool :=
  opts.bind WriteOpts.waitForConfirmation = some false

/-- The answer of `checkTx`. -/
structure TxCheck where
  confirmed : Bool
  pending : Bool

/-! ### Batches -/

def startId (entries : List LogEntry) : JsString := (entries.head?.map LogEntry.id).getD []

def endId (entries : List LogEntry) : JsString := (entries.getLast?.map LogEntry.id).getD []

/-- The number of entries that are counted under a level name. -/
def levelCount (entries : List LogEntry) (name : String) : ℕ :=
  (entries.filter fun e => toUpperCase e.level = Js.ofString name).length

/-- The last of the level names that occurs in the batch. -/
def maxSeverity (entries : List LogEntry) : JsString :=
  Js.ofString <| ["DEBUG", "INFO", "WARN", "ERROR", "CRITICAL"].foldl
    (fun max s => if 0 < levelCount entries s then s else max) "DEBUG"

/-- `batch:n:start..end` -/
def batchPreview (entries : List LogEntry) : JsString :=
  Js.ofString ("batch:" ++ toString entries.length ++ ":") ++ (startId entries).take 8 ++
    Js.ofString ".." ++ (endId entries).take 8

/-- `if (!e.dataHash) e.dataHash = HashService.computeLogHash(e)` -/
def LogEntry.withHash (sha : Sha256) (e : LogEntry) : LogEntry :=
  { e with dataHash := sha.leafHash e }

lemma leafHash_ne_nil (sha : Sha256) (e : LogEntry) : sha.leafHash e ≠ [] := by
  rw [Sha256.leafHash]
  split
  · exact (Sha256.isDigest_computeLogHash e).ne_nil
  · next h => exact h

/-- The hash that is put into an entry is the one it enters a batch with. -/
@[simp] lemma leafHash_withHash (sha : Sha256) (e : LogEntry) :
    sha.leafHash (e.withHash sha) = sha.leafHash e := by
  rw [Sha256.leafHash, if_neg]
  · rfl
  · exact leafHash_ne_nil sha e

@[simp] lemma withHash_withHash (sha : Sha256) (e : LogEntry) :
    (e.withHash sha).withHash sha = e.withHash sha := by
  rw [LogEntry.withHash, leafHash_withHash]
  rfl

@[simp] lemma computeBatchHash_withHash (sha : Sha256) (es : List LogEntry) :
    sha.computeBatchHash (es.map (LogEntry.withHash sha)) = sha.computeBatchHash es := by
  simp only [Sha256.computeBatchHash, List.map_map, Function.comp_def, leafHash_withHash]

end HybridLog
