import HybridLog.Chain.Ethereum
import HybridLog.Ledger.Append

/-!
# The contracts `LogStore`, `HashStore` and `BatchStore`

The contracts differ in the arguments of `write` and in the record they keep. That a key has a
record shows in the timestamp of the record; the order of the keys, their number and the history of
each account are kept beside the records.
-/

namespace HybridLog

/-! ### One contract -/

/-- What the contracts differ in. -/
structure StoreContract (A R : Type) where
  /-- The argument that names the record. -/
  key : A → Bytes
  /-- The record of a call, with the length and the hash of the history of its sender. -/
  record : BlockContext → A → ℕ → Bytes → R
  /-- What a mapping holds where nothing has been written. -/
  blank : R
  timestamp : R → ℕ
  historyLen : R → ℕ
  historyHash : R → Bytes
  timestamp_blank : timestamp blank = 0
  timestamp_record : ∀ ctx w len hash, timestamp (record ctx w len hash) = ctx.timestamp
  historyLen_record : ∀ ctx w len hash, historyLen (record ctx w len hash) = len
  historyHash_record : ∀ ctx w len hash, historyHash (record ctx w len hash) = hash

/-- The storage of a contract with records of type `R`. -/
structure ContractStore (R : Type) where
  records : Bytes → R
  ordered : List Bytes
  count : ℕ
  submitterHistoryHash : Bytes → Bytes
  submitterHistoryLen : Bytes → ℕ

namespace ContractStore

open LogStore

variable {A R : Type} (c : StoreContract A R)

def deployed : ContractStore R where
  records _ := c.blank
  ordered := []
  count := 0
  submitterHistoryHash _ := zeroBytes32
  submitterHistoryLen _ := 0

/-- `exists` -/
def recordExists (s : ContractStore R) (key : Bytes) : Prop := c.timestamp (s.records key) ≠ 0

instance (s : ContractStore R) (key : Bytes) : Decidable (s.recordExists c key) :=
  inferInstanceAs (Decidable (_ ≠ _))

/-- A call of `getRecord` that reverts has no result. -/
def getRecord (s : ContractStore R) (key : Bytes) : Option R :=
  if s.recordExists c key then some (s.records key) else none

/-- A call of `write` that reverts has no result. -/
def write (sha : Sha256) (s : ContractStore R) (ctx : BlockContext) (w : A) :
    Option (ContractStore R) :=
  if s.recordExists c (c.key w) then none
  else
    let newHistory := sha.digest (s.submitterHistoryHash ctx.sender ++ c.key w)
    let newLen := s.submitterHistoryLen ctx.sender + 1
    some {
      records := Function.update s.records (c.key w) (c.record ctx w newLen newHistory)
      ordered := s.ordered ++ [c.key w]
      count := s.count + 1
      submitterHistoryHash := Function.update s.submitterHistoryHash ctx.sender newHistory
      submitterHistoryLen := Function.update s.submitterHistoryLen ctx.sender newLen }

end ContractStore

/-- A contract with a storage of type `S`, of which `view` shows the variables. -/
structure OnChainStore (S A R : Type) where
  contract : StoreContract A R
  deployed : S
  write : Sha256 → S → BlockContext → A → Option S
  view : S → ContractStore R
  view_deployed : view deployed = .deployed contract
  view_write : ∀ sha s ctx w,
    (write sha s ctx w).map view = (view s).write contract sha ctx w

/-! ### `LogStore` -/

def LogStore.contract : StoreContract StoreWrite StoreRecord where
  key := StoreWrite.contentHash
  record ctx w newLen newHistory := {
    level := w.level
    source := w.source
    messagePreview := truncate w.messagePreview 256
    historyLen := newLen
    historyHash := newHistory
    message := w.message
    metadataJson := w.metadataJson
    timestamp := ctx.timestamp
    blockNumber := ctx.number
    submitter := ctx.sender }
  blank := ⟨0, zeroBytes32, [], 0, zeroBytes32, [], [], 0, 0, List.replicate 20 0⟩
  timestamp := StoreRecord.timestamp
  historyLen := StoreRecord.historyLen
  historyHash := StoreRecord.historyHash
  timestamp_blank := rfl
  timestamp_record _ _ _ _ := rfl
  historyLen_record _ _ _ _ := rfl
  historyHash_record _ _ _ _ := rfl

def LogStore.view (s : LogStore) : ContractStore StoreRecord :=
  ⟨s.logs, s.logsOrdered, s.logCount, s.submitterHistoryHash, s.submitterHistoryLen⟩

lemma LogStore.view_write (sha : Sha256) (s : LogStore) (ctx : BlockContext) (w : StoreWrite) :
    (s.write sha ctx w).map LogStore.view = s.view.write LogStore.contract sha ctx w := by
  rw [LogStore.write, ContractStore.write]
  by_cases h : s.recordExists w.contentHash
  · rw [if_pos h]
    exact (if_pos h).symm
  · rw [if_neg h]
    exact (if_neg h).symm

def logStore : OnChainStore LogStore StoreWrite StoreRecord where
  contract := LogStore.contract
  deployed := .deployed
  write := LogStore.write
  view := LogStore.view
  view_deployed := rfl
  view_write := LogStore.view_write

/-! ### `HashStore` -/

structure HashStoreRecord where
  level : ℕ
  messagePreview : Bytes
  historyLen : ℕ
  historyHash : Bytes
  timestamp : ℕ
  blockNumber : ℕ
  submitter : Bytes

/-- The arguments of `write` of `HashStore`. -/
structure HashStoreWrite where
  contentHash : Bytes
  level : ℕ
  messagePreview : Bytes

/-- Hashes, in their order, and the histories of the submitters. -/
abbrev HashStore := ContractStore HashStoreRecord

def HashStore.contract : StoreContract HashStoreWrite HashStoreRecord where
  key := HashStoreWrite.contentHash
  record ctx w newLen newHistory := {
    level := w.level
    messagePreview := LogStore.truncate w.messagePreview 256
    historyLen := newLen
    historyHash := newHistory
    timestamp := ctx.timestamp
    blockNumber := ctx.number
    submitter := ctx.sender }
  blank := ⟨0, [], 0, LogStore.zeroBytes32, 0, 0, List.replicate 20 0⟩
  timestamp := HashStoreRecord.timestamp
  historyLen := HashStoreRecord.historyLen
  historyHash := HashStoreRecord.historyHash
  timestamp_blank := rfl
  timestamp_record _ _ _ _ := rfl
  historyLen_record _ _ _ _ := rfl
  historyHash_record _ _ _ _ := rfl

def HashStore.write (sha : Sha256) (s : HashStore) (ctx : BlockContext) (w : HashStoreWrite) :
    Option HashStore := ContractStore.write HashStore.contract sha s ctx w

def hashStore : OnChainStore HashStore HashStoreWrite HashStoreRecord where
  contract := HashStore.contract
  deployed := .deployed HashStore.contract
  write := HashStore.write
  view s := s
  view_deployed := rfl
  view_write _ _ _ _ := Option.map_id'

/-! ### `BatchStore` -/

structure BatchStoreRecord where
  historyLen : ℕ
  historyHash : Bytes
  startId : Bytes
  endId : Bytes
  count : ℕ
  debugCount : ℕ
  infoCount : ℕ
  warnCount : ℕ
  errorCount : ℕ
  criticalCount : ℕ
  maxSeverity : ℕ
  timestamp : ℕ
  blockNumber : ℕ
  submitter : Bytes

/-- The arguments of `write` of `BatchStore`. -/
structure BatchStoreWrite where
  merkleRoot : Bytes
  startId : Bytes
  endId : Bytes
  count : ℕ
  debugCount : ℕ
  infoCount : ℕ
  warnCount : ℕ
  errorCount : ℕ
  criticalCount : ℕ
  maxSeverity : ℕ

/-- Batches, in their order, and the histories of the submitters. -/
abbrev BatchStore := ContractStore BatchStoreRecord

def BatchStore.contract : StoreContract BatchStoreWrite BatchStoreRecord where
  key := BatchStoreWrite.merkleRoot
  record ctx w newLen newHistory := {
    historyLen := newLen
    historyHash := newHistory
    startId := w.startId
    endId := w.endId
    count := w.count
    debugCount := w.debugCount
    infoCount := w.infoCount
    warnCount := w.warnCount
    errorCount := w.errorCount
    criticalCount := w.criticalCount
    maxSeverity := w.maxSeverity
    timestamp := ctx.timestamp
    blockNumber := ctx.number
    submitter := ctx.sender }
  blank := ⟨0, LogStore.zeroBytes32, [], [], 0, 0, 0, 0, 0, 0, 0, 0, 0, List.replicate 20 0⟩
  timestamp := BatchStoreRecord.timestamp
  historyLen := BatchStoreRecord.historyLen
  historyHash := BatchStoreRecord.historyHash
  timestamp_blank := rfl
  timestamp_record _ _ _ _ := rfl
  historyLen_record _ _ _ _ := rfl
  historyHash_record _ _ _ _ := rfl

def BatchStore.write (sha : Sha256) (s : BatchStore) (ctx : BlockContext) (w : BatchStoreWrite) :
    Option BatchStore := ContractStore.write BatchStore.contract sha s ctx w

def batchStore : OnChainStore BatchStore BatchStoreWrite BatchStoreRecord where
  contract := BatchStore.contract
  deployed := .deployed BatchStore.contract
  write := BatchStore.write
  view s := s
  view_deployed := rfl
  view_write _ _ _ _ := Option.map_id'

end HybridLog
