import HybridLog.Anchor.Texts
import HybridLog.Chain.Deployment
import HybridLog.Js.Parse
import Mathlib.Logic.Relation

/-!
# The registries of an anchor

An anchor remembers the hash and the object of what it has written, by id. Objects are shared with
whoever hands them over: a later call may change the hash and the mark of an object that an earlier
one has registered. A read takes the registered object, and asks the chain only if there is none.
-/

namespace HybridLog

open Js

/-! ### Objects and registries -/

/-- An entry as an object. Its text is read-only; hash and mark are assigned to. -/
structure EntryObject where
  entry : LogEntry
  blockchainConfirmed : Bool

structure Registry where
  objects : ℕ → EntryObject
  hashRegistry : JsString → Option JsString
  entryRegistry : JsString → Option ℕ

namespace Registry

variable (r : Registry)

/-- The maps of an anchor that has just been made. -/
def fresh (objects : ℕ → EntryObject) : Registry := ⟨objects, fun _ => none, fun _ => none⟩

def assign (ref : ℕ) (o : EntryObject) : Registry :=
  { r with objects := Function.update r.objects ref o }

/-- `if (!entry.dataHash) entry.dataHash = computeLogHash(entry)` -/
def hash (sha : Sha256) (ref : ℕ) : Registry :=
  r.assign ref ⟨(r.objects ref).entry.withHash sha, (r.objects ref).blockchainConfirmed⟩

/-- `entry.blockchainConfirmed = confirmed` -/
def mark (confirmed : Bool) (ref : ℕ) : Registry :=
  r.assign ref ⟨(r.objects ref).entry, confirmed⟩

def setHash (id hash : JsString) : Registry :=
  { r with hashRegistry := Function.update r.hashRegistry id (some hash) }

def setEntry (id : JsString) (ref : ℕ) : Registry :=
  { r with entryRegistry := Function.update r.entryRegistry id (some ref) }

def entries (refs : List ℕ) : List LogEntry := refs.map fun ref => (r.objects ref).entry

def hashAll (sha : Sha256) (refs : List ℕ) : Registry := refs.foldl (fun r ref => r.hash sha ref) r

def markAll (confirmed : Bool) (refs : List ℕ) : Registry :=
  refs.foldl (fun r ref => r.mark confirmed ref) r

def setHashes (hash : JsString) (refs : List ℕ) : Registry :=
  refs.foldl (fun r ref => r.setHash (r.objects ref).entry.id hash) r

end Registry

/-! ### What the anchors differ in -/

/-- What `readLog` makes of a record. -/
structure Found where
  level : JsString
  source : JsString
  message : JsString
  metadata : JsonValue

/-- An anchor bound to a chain, in one of its modes. -/
structure AnchorClient where
  Node : Type
  Tx : Type
  mode : AnchorMode
  genesis : Node
  /-- Anybody submits a transaction, or the chain goes on. -/
  Happens : Node → Node → Prop
  submit : Node → Tx → TxHash → Option Node
  /-- What waiting for a transaction finds. -/
  Included : Node → TxHash → Prop
  /-- The service or contract of the anchor has a record under the key. -/
  Recorded : Node → Bytes → Prop
  /-- The transaction for an entry and for a batch; making it may throw. -/
  logTx : LogEntry → ℕ → Except JsError Tx
  batchTx : List LogEntry → ℕ → Except JsError Tx
  /-- The key under which a transaction leaves a record. -/
  writes : Tx → Option Bytes
  lookup : Node → JsString → Option Found
  happens_of_submit : ∀ {n n' tx h}, submit n tx h = some n' → Happens n n'
  recorded_of_happens : ∀ {n n' key}, Happens n n' → Recorded n key → Recorded n' key
  recorded_of_included : ∀ {m m' n tx h key}, Relation.ReflTransGen Happens genesis m →
    submit m tx h = some m' → Relation.ReflTransGen Happens m' n → Included n h →
    writes tx = some key → Recorded n key

/-- What a call is answered: the time, the submission, and the wait. -/
structure Answers where
  ms : ℕ
  sent : Except JsError TxHash
  waited : Except JsError Bool

namespace AnchorClient

variable (A : AnchorClient) (sha : Sha256)

/-- `writeLog`, for the object `ref`. -/
def writeLog (ref : ℕ) (opts : Option WriteOpts) (a : Answers) (r : Registry) :
    WriteResult × Registry :=
  let r := r.hash sha ref
  let entry := (r.objects ref).entry
  let r := (r.setHash entry.id entry.dataHash).setEntry entry.id ref
  match A.logTx entry a.ms with
  | .error err => (.failed entry.id err, r)
  | .ok _ =>
    match a.sent with
    | .error err => (.failed entry.id err, r)
    | .ok txHash =>
      if submitOnly opts then (⟨entry.id, true, some txHash, some false, none⟩, r.mark false ref)
      else
        match a.waited with
        | .error err => (.failed entry.id err, r)
        | .ok confirmed =>
          (⟨entry.id, true, some txHash, some confirmed, none⟩, r.mark confirmed ref)

/-- `writeBatch`, for the objects `refs`. It registers hashes only. -/
def writeBatch (refs : List ℕ) (opts : Option WriteOpts) (a : Answers) (r : Registry) :
    BatchWriteResult × Registry :=
  if refs = [] then (.failed [] [] 0 "Empty batch", r)
  else
    let r := r.hashAll sha refs
    let entries := r.entries refs
    let batchHash := sha.computeBatchHash entries
    match A.batchTx entries a.ms with
    | .error err => (.failed [] [] refs.length err, r)
    | .ok _ =>
      match a.sent with
      | .error err => (.failed [] [] refs.length err, r)
      | .ok txHash =>
        let r := r.setHashes batchHash refs
        let result (confirmed : Bool) : BatchWriteResult :=
          ⟨batchHash, startId entries, endId entries, refs.length, true, some txHash,
            some confirmed, none⟩
        if submitOnly opts then (result false, r.markAll false refs)
        else
          match a.waited with
          | .error err => (.failed [] [] refs.length err, r)
          | .ok confirmed => (result confirmed, r.markAll confirmed refs)

/-- `readLog` at the time `time`, of a node that answers or does not. -/
def readLog (n : A.Node) (answers : Bool) (time : JsDate) (r : Registry) (id : JsString) :
    Option EntryObject :=
  match r.entryRegistry id with
  | some ref => some (r.objects ref)
  | none =>
    if A.mode ≠ .full then none
    else
      match r.hashRegistry id with
      | none => none
      | some hash =>
        if hash = [] ∨ answers = false then none
        else (A.lookup n hash).map fun found =>
          ⟨⟨id, time, found.level, found.source, found.message, found.metadata, hash⟩, true⟩

end AnchorClient

/-! ### The Exonum anchor -/

/-- The level of a text, `INFO` for a text that names none. -/
def levelOrInfo (level : JsString) : JsString :=
  if levelNames.contains level then level else infoLevel

namespace ExonumAnchor

variable (cfg : ServerConfig) (objectHash : ObjectHash) (mode : AnchorMode)

inductive Happens (n n' : Exonum) : Prop
  | submit {tx : ExonumTx} {h : TxHash} (hn : n.submit tx h = some n')
  | commit {h : TxHash} (hn : n.commit objectHash h = some n')

/-- The record of the log service, as `readLog` reads it. Metadata that are no JSON make it
throw. -/
def lookup (n : Exonum) (hash : JsString) : Option Found := do
  let key ← parseHash (chars hash)
  let record ← n.logs.records.lookup key
  let metadata ← if record.metadataJson = [] then some emptyObject
    else jsonParse (jsText record.metadataJson)
  return ⟨levelOrInfo (jsText record.level), jsText record.source, jsText record.message,
    metadataOrEmpty (some metadata)⟩

variable {objectHash} {n n' : Exonum}

lemma le_of_happens (h : Happens objectHash n n') : Exonum.Le n n' := by
  cases h with
  | submit hn => exact (Exonum.le_of_submit hn).1
  | commit hn => exact Exonum.le_commit hn

lemma ok_of_happens (hok : n.Ok) (h : Happens objectHash n n') : n'.Ok := by
  cases h with
  | submit hn => exact hok.submit hn
  | commit hn => exact hok.commit hn

lemma le_of_run (h : Relation.ReflTransGen (Happens objectHash) n n') : Exonum.Le n n' := by
  induction h with
  | refl => exact .refl n
  | tail _ hstep ih => exact ih.trans (le_of_happens hstep)

lemma ok_of_run (hok : n.Ok) (h : Relation.ReflTransGen (Happens objectHash) n n') : n'.Ok := by
  induction h with
  | refl => exact hok
  | tail _ hstep ih => exact ok_of_happens ih hstep

variable (objectHash)

/-- `new ExonumAnchor(mode)` -/
def client : AnchorClient where
  Node := Exonum
  Tx := Bytes
  mode := mode
  genesis := .empty
  Happens := Happens objectHash
  submit n args h := n.submit ⟨mode.service, args, cfg.exonumAuthor⟩ h
  Included n h := h ∈ n.committed
  Recorded n key := key ∈ n.keys mode.service
  logTx entry ms := .ok (logArgs mode entry (seedAt ms))
  batchTx entries ms := .ok (batchArgs cfg.sha mode entries (seedAt ms))
  writes args := ExonumTx.key? ⟨mode.service, args, cfg.exonumAuthor⟩
  lookup := lookup
  happens_of_submit h := .submit h
  recorded_of_happens h hkey := (le_of_happens h).keys _ hkey
  recorded_of_included {m m' n tx h key} hm hsubmit hn hincluded hwrites := by
    have hok := ok_of_run Exonum.Ok.empty (hm.trans (.head (.submit hsubmit) hn))
    obtain ⟨tx', htx', hkeys⟩ := hok.executed h hincluded
    have htx := (le_of_run hn).txs h _ (Exonum.le_of_submit hsubmit).2
    rw [htx] at htx'
    cases htx'
    exact hkeys key hwrites

end ExonumAnchor

/-! ### The Ethereum anchor -/

namespace EthereumAnchor

/-- The call of `write` of `HashStore` for a batch. -/
def hashBatchCall (sha : Sha256) (entries : List LogEntry) : Except JsError HashStoreWrite := do
  return {
    contentHash := ← toBytes32 (sha.computeBatchHash entries)
    level := levelUint8 (maxSeverity entries)
    messagePreview := ← strictUtf8 (ofString ("batch:" ++ toString entries.length)) }

/-- An argument of type `uint32`. -/
def uint32 (n : ℕ) : Except JsError ℕ :=
  if n < 2 ^ 32 then .ok n else .error "TypeError: value out-of-bounds"

/-- The call of `write` of `BatchStore`. -/
def batchStoreCall (sha : Sha256) (entries : List LogEntry) : Except JsError BatchStoreWrite := do
  return {
    merkleRoot := ← toBytes32 (sha.computeBatchHash entries)
    startId := ← strictUtf8 (startId entries)
    endId := ← strictUtf8 (endId entries)
    count := ← uint32 entries.length
    debugCount := ← uint32 (levelCount entries "DEBUG")
    infoCount := ← uint32 (levelCount entries "INFO")
    warnCount := ← uint32 (levelCount entries "WARN")
    errorCount := ← uint32 (levelCount entries "ERROR")
    criticalCount := ← uint32 (levelCount entries "CRITICAL")
    maxSeverity := levelUint8 (maxSeverity entries) }

/-- `BatchStore` has no function `write` of three arguments. -/
def batchStoreLogCall (_entry : LogEntry) : Except JsError BatchStoreWrite :=
  .error "TypeError: no matching fragment"

/-- What `readLog` makes of the first event `LogWritten` of a hash. There is one exactly if there is
a record, and its level is that of the record. -/
def lookup (c : ContractChain LogStore StoreWrite) (hash : JsString) : Option Found :=
  match toBytes32 hash with
  | .error _ => none
  | .ok key =>
    if c.store.recordExists key then
      some ⟨levelOrInfo (levelNames.getD (c.store.logs key).level infoLevel), ofString "ethereum",
        [], emptyObject⟩
    else none

/-- The anchor bound to a contract. -/
def clientOf {S A R : Type} (cfg : ServerConfig) (mode : AnchorMode) (m : OnChainStore S A R)
    (logCall : LogEntry → Except JsError A) (batchCall : List LogEntry → Except JsError A)
    (lookup : ContractChain S A → JsString → Option Found) : AnchorClient where
  Node := ContractChain S A
  Tx := A
  mode := mode
  genesis := .genesis m
  Happens := ContractChain.Happens m cfg.sha
  submit c call h := c.send ⟨call, cfg.ethereumSender⟩ h
  Included c h := c.Succeeded h
  Recorded c key := c.Exists m key
  logTx entry _ := logCall entry
  batchTx entries _ := batchCall entries
  writes call := some (m.contract.key call)
  lookup := lookup
  happens_of_submit h := .send h
  recorded_of_happens h hkey := (ContractChain.le_of_happens h).records _ hkey
  recorded_of_included {n n' c call h key} hn hsend hc hsucceeded hwrites := by
    cases hwrites
    have hok := ContractChain.ok_of_run (hn.trans (.head (.send hsend) hc))
    obtain ⟨tx, htx, hex⟩ := hok.executed h hsucceeded
    have htx' := (ContractChain.le_of_run hc).txs h _ (ContractChain.lookup_of_send hsend)
    rw [htx'] at htx
    cases htx
    exact hex

variable (cfg : ServerConfig)

/-- `new EthereumAnchor(mode)` -/
def client : AnchorMode → AnchorClient
  | .full => clientOf cfg .full logStore logCall (batchCall cfg.sha) lookup
  | .hashOnly => clientOf cfg .hashOnly hashStore hashCall (hashBatchCall cfg.sha) fun _ _ => none
  | .batch => clientOf cfg .batch batchStore batchStoreLogCall (batchStoreCall cfg.sha)
      fun _ _ => none

end EthereumAnchor

end HybridLog
