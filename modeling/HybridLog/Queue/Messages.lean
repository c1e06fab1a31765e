import HybridLog.Core.LogStorage

/-!
# Strategies and queue messages

Each strategy that uses a chain has a submit queue and a confirm queue. A message travels as JSON
text, so a number of the metadata that is not finite arrives as `null`.
-/

namespace HybridLog

open Js

/-! ### Strategies -/

inductive LogStrategy
  | databaseOnly
  | privateChain
  | publicChain
  | hybridPrivate
  | hybridPrivateBatch
  | hybridPublic
  | hybridPublicBatch
deriving DecidableEq

inductive Chain
  | exonum
  | ethereum
deriving DecidableEq

namespace LogStrategy

/-- `strategy.includes('public')` -/
def isPublic : LogStrategy → Bool
  | publicChain | hybridPublic | hybridPublicBatch => true
  | _ => false

/-- `strategy.startsWith('hybrid')` -/
def isHybrid : LogStrategy → Bool
  | databaseOnly | privateChain | publicChain => false
  | _ => true

/-- `strategy.endsWith('_batch')` -/
def isBatch : LogStrategy → Bool
  | hybridPrivateBatch | hybridPublicBatch => true
  | _ => false

/-- A strategy is a key of `SUBMIT_QUEUES` and `CONFIRM_QUEUES` unless it is `database_only`. -/
def hasQueue (s : LogStrategy) : Bool := s ≠ databaseOnly

def chainFor (s : LogStrategy) : Chain := if s.isPublic then .ethereum else .exonum

def side (s : LogStrategy) : Side := if s.isPublic then .pub else .priv

def anchoredTableFor (s : LogStrategy) : LogTable := .anchored s.side

def batchedTableFor (s : LogStrategy) : LogTable := .batched s.side

/-- The suffix of the table of `batchesTableFor`. -/
def batchesTableFor (s : LogStrategy) : Side := s.side

end LogStrategy

/-- What a request names as its `storageMode`. -/
inductive StorageMode
  | strategy (s : LogStrategy)
  | other (name : JsString)
deriving DecidableEq

def StorageMode.isChainStrategy (m : StorageMode) : Bool := m ≠ .strategy .databaseOnly

/-- The mode is not the empty string. -/
def StorageMode.truthy : StorageMode → Bool
  | .strategy _ => true
  | .other name => name ≠ []

/-! ### Messages -/

structure EntryDTO where
  id : JsString
  /-- The milliseconds of a valid date. -/
  timestampMs : JsDate
  level : JsString
  source : JsString
  message : JsString
  metadata : JsonValue
  dataHash : JsString
deriving DecidableEq

def toDTO (entry : LogEntry) : EntryDTO where
  id := entry.id
  timestampMs := entry.timestamp
  level := entry.level
  source := entry.source
  message := entry.message
  metadata := metadataOrEmpty (some entry.metadata)
  dataHash := entry.dataHash

def finiteValue (m : JsonValue) : JsonValue :=
  ⟨m.val.finite, distinct_finite m.distinct, doubles_finite m.doubles⟩

/-- What is left of an entry after its text has been written and parsed. -/
def EntryDTO.parsed (dto : EntryDTO) : EntryDTO := { dto with metadata := finiteValue dto.metadata }

def dtoToEntry (dto : EntryDTO) : LogEntry where
  id := dto.id
  timestamp := dto.timestampMs
  level := dto.level
  source := dto.source
  message := dto.message
  metadata := metadataOrEmpty (some dto.metadata)
  dataHash := dto.dataHash

/-- An entry on the other side of a queue. -/
def LogEntry.queued (e : LogEntry) : LogEntry := dtoToEntry (toDTO e).parsed

/-- The content of a `SubmitMessage` or of a `BatchSubmitMessage`. -/
inductive SubmitBody
  | entry (entry : EntryDTO)
  | entries (entries : List EntryDTO)
deriving DecidableEq

structure SubmitMessage where
  body : SubmitBody
  strategy : LogStrategy
  db : Db
  correlationId : JsString
  replyTo : Option JsString
  enqueuedAt : ℕ
deriving DecidableEq

structure ConfirmMessage where
  logId : JsString
  txHash : TxHash
  strategy : LogStrategy
  chain : Chain
  db : Db
  dbTable : LogTable
  batchesTable : Option Side
  correlationId : JsString
  replyTo : Option JsString
  enqueuedAt : ℕ
deriving DecidableEq

/-- Latencies are left out. -/
structure ResultMessage where
  correlationId : JsString
  success : Bool
  txHash : Option TxHash
  error : Option JsError

/-- The entries a message carries, as its handler reads them. -/
def SubmitBody.read : SubmitBody → List LogEntry
  | .entry dto => [dtoToEntry dto.parsed]
  | .entries dtos => dtos.map fun dto => dtoToEntry dto.parsed

end HybridLog
