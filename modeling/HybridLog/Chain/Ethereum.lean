import HybridLog.Core.LogStorage
import Mathlib.Logic.Function.Basic

/-!
# The Ethereum chain and the contract `LogStore`

A record is never overwritten: `write` reverts if the key has a record, which shows in its
timestamp. A mined transaction has a receipt, with status 1 if its call did not revert.
-/

namespace HybridLog

/-! ### The contract -/

structure StoreRecord where
  level : ℕ
  source : Bytes
  messagePreview : Bytes
  historyLen : ℕ
  historyHash : Bytes
  message : Bytes
  metadataJson : Bytes
  timestamp : ℕ
  blockNumber : ℕ
  submitter : Bytes

structure LogStore where
  logs : Bytes → StoreRecord
  logsOrdered : List Bytes
  logCount : ℕ
  submitterHistoryHash : Bytes → Bytes
  submitterHistoryLen : Bytes → ℕ

/-- The arguments of `write`. -/
structure StoreWrite where
  contentHash : Bytes
  level : ℕ
  source : Bytes
  messagePreview : Bytes
  message : Bytes
  metadataJson : Bytes
deriving DecidableEq

/-- What a call can see of the block it is in and of its sender. -/
structure BlockContext where
  sender : Bytes
  timestamp : ℕ
  number : ℕ

namespace LogStore

def zeroBytes32 : Bytes := List.replicate 32 0

/-- The contract as it is deployed: a mapping holds zero values. -/
def deployed : LogStore where
  logs _ := ⟨0, zeroBytes32, [], 0, zeroBytes32, [], [], 0, 0, List.replicate 20 0⟩
  logsOrdered := []
  logCount := 0
  submitterHistoryHash _ := zeroBytes32
  submitterHistoryLen _ := 0

/-- `exists` -/
def recordExists (s : LogStore) (contentHash : Bytes) : Prop := (s.logs contentHash).timestamp ≠ 0

instance (s : LogStore) (contentHash : Bytes) : Decidable (s.recordExists contentHash) :=
  inferInstanceAs (Decidable (_ ≠ _))

def truncate (s : Bytes) (maxBytes : ℕ) : Bytes := s.take maxBytes

/-- A call that reverts has no result. -/
def write (sha : Sha256) (s : LogStore) (ctx : BlockContext) (w : StoreWrite) :
    Option LogStore :=
  if s.recordExists w.contentHash then none
  else
    let newHistory := sha.digest (s.submitterHistoryHash ctx.sender ++ w.contentHash)
    let newLen := s.submitterHistoryLen ctx.sender + 1
    some {
      logs := Function.update s.logs w.contentHash {
        level := w.level
        source := w.source
        messagePreview := truncate w.messagePreview 256
        historyLen := newLen
        historyHash := newHistory
        message := w.message
        metadataJson := w.metadataJson
        timestamp := ctx.timestamp
        blockNumber := ctx.number
        submitter := ctx.sender }
      logsOrdered := s.logsOrdered ++ [w.contentHash]
      logCount := s.logCount + 1
      submitterHistoryHash := Function.update s.submitterHistoryHash ctx.sender newHistory
      submitterHistoryLen := Function.update s.submitterHistoryLen ctx.sender newLen }

variable {sha : Sha256} {s s' : LogStore} {ctx : BlockContext} {w : StoreWrite}

/-- What a write that does not revert leaves. -/
lemma write_eq_some (h : s.write sha ctx w = some s') :
    ¬s.recordExists w.contentHash ∧ (∀ k ≠ w.contentHash, s'.logs k = s.logs k) ∧
      (s'.logs w.contentHash).timestamp = ctx.timestamp ∧
      (s'.logs w.contentHash).message = w.message ∧
      (s'.logs w.contentHash).metadataJson = w.metadataJson ∧
      s'.logsOrdered = s.logsOrdered ++ [w.contentHash] := by
  rw [write] at h
  split at h
  · cases h
  · next hnew =>
    rw [← Option.some.inj h]
    refine ⟨hnew, fun k hk => Function.update_of_ne hk _ _, ?_, ?_, ?_, rfl⟩ <;>
      simp only [Function.update_self]

/-- The records are listed. -/
def Listed (s : LogStore) : Prop := ∀ k, s.recordExists k → k ∈ s.logsOrdered

lemma Listed.write (hs : s.Listed) (h : s.write sha ctx w = some s') : s'.Listed := by
  obtain ⟨-, hother, -, -, -, hordered⟩ := write_eq_some h
  intro k hk
  rw [hordered, List.mem_append, List.mem_singleton]
  by_cases heq : k = w.contentHash
  · exact .inr heq
  · rw [recordExists, hother k heq] at hk
    exact .inl (hs k hk)

/-- Records that exist stay as they are. -/
lemma write_keeps (h : s.write sha ctx w = some s') {k : Bytes} (hk : s.recordExists k) :
    s'.logs k = s.logs k := by
  obtain ⟨hnew, hother, _⟩ := write_eq_some h
  exact hother k fun heq => hnew (heq ▸ hk)

end LogStore

/-! ### The chain -/

structure Receipt where
  /-- Status 1. -/
  status : Bool
  blockNumber : ℕ

/-- A transaction that calls `write`. -/
structure EthereumTx where
  call : StoreWrite
  sender : Bytes
deriving DecidableEq

structure Ethereum where
  store : LogStore
  /-- The transactions sent so far. -/
  txs : List (TxHash × EthereumTx)
  receipts : List (TxHash × Receipt)
  blockNumber : ℕ
  blockTimestamp : ℕ

namespace Ethereum

/-- A chain with the contract deployed in its first block. -/
def genesis : Ethereum := ⟨.deployed, [], [], 0, 1⟩

/-- Every transaction that is sent has a nonce of its own, and so a hash of its own. -/
def send (c : Ethereum) (tx : EthereumTx) (h : TxHash) : Option Ethereum :=
  match c.txs.lookup h with
  | none => some { c with txs := c.txs ++ [(h, tx)] }
  | some _ => none

/-- The next block begins. -/
def nextBlock (c : Ethereum) (timestamp : ℕ) : Option Ethereum :=
  if c.blockTimestamp < timestamp then
    some { c with blockNumber := c.blockNumber + 1, blockTimestamp := timestamp }
  else none

/-- The transaction `h` is included in the current block. Its status is 0 if its call reverts,
but may be 0 for other reasons. -/
def mine (sha : Sha256) (c : Ethereum) (h : TxHash) (status : Bool) : Option Ethereum :=
  match c.txs.lookup h, c.receipts.lookup h with
  | some tx, none =>
    let receipts := c.receipts ++ [(h, ⟨status, c.blockNumber⟩)]
    if status then
      (c.store.write sha ⟨tx.sender, c.blockTimestamp, c.blockNumber⟩ tx.call).map fun store =>
        { c with store := store, receipts := receipts }
    else some { c with receipts := receipts }
  | _, _ => none

/-! ### What the chain keeps -/

/-- Records, transactions and receipts stay. -/
structure Le (c c' : Ethereum) : Prop where
  logs : ∀ k, c.store.recordExists k → c'.store.logs k = c.store.logs k
  txs : ∀ h tx, c.txs.lookup h = some tx → c'.txs.lookup h = some tx
  receipts : ∀ h r, c.receipts.lookup h = some r → c'.receipts.lookup h = some r

lemma Le.refl (c : Ethereum) : Le c c := ⟨fun _ _ => rfl, fun _ _ h => h, fun _ _ h => h⟩

lemma Le.recordExists {c c' : Ethereum} (h : Le c c') {k : Bytes} (hk : c.store.recordExists k) :
    c'.store.recordExists k := by
  rw [LogStore.recordExists, h.logs k hk]
  exact hk

lemma Le.trans {a b c : Ethereum} (h : Le a b) (h' : Le b c) : Le a c :=
  ⟨fun k hk => (h'.logs k (h.recordExists hk)).trans (h.logs k hk),
    fun i tx hi => h'.txs i tx (h.txs i tx hi), fun i r hi => h'.receipts i r (h.receipts i r hi)⟩

variable {sha : Sha256} {c c' : Ethereum} {tx : EthereumTx} {h : TxHash}

lemma lookup_append_of_some {α : Type} {l : List (TxHash × α)} {i : TxHash} {a : α}
    (hi : l.lookup i = some a) (l' : List (TxHash × α)) : (l ++ l').lookup i = some a := by
  rw [List.lookup_append, hi, Option.some_or]

lemma le_of_send (hc : c.send tx h = some c') : Le c c' ∧ c'.txs.lookup h = some tx := by
  rw [send] at hc
  split at hc
  · next hl =>
    cases hc
    refine ⟨{ Le.refl c with txs := fun i t hi => lookup_append_of_some hi _ }, ?_⟩
    simp [List.lookup_append, hl]
  · cases hc

lemma le_of_nextBlock {timestamp : ℕ} (hc : c.nextBlock timestamp = some c') : Le c c' := by
  rw [nextBlock] at hc
  split at hc
  · cases hc
    exact ⟨fun _ _ => rfl, fun _ _ h => h, fun _ _ h => h⟩
  · cases hc

/-- A transaction is mined once, and takes effect exactly if its status is 1. -/
lemma mine_eq_some {status : Bool} (hc : c.mine sha h status = some c') :
    ∃ tx, c.txs.lookup h = some tx ∧ c.receipts.lookup h = none ∧ c'.txs = c.txs ∧
      c'.receipts = c.receipts ++ [(h, ⟨status, c.blockNumber⟩)] ∧
      c'.blockTimestamp = c.blockTimestamp ∧
      if status then c.store.write sha ⟨tx.sender, c.blockTimestamp, c.blockNumber⟩ tx.call =
        some c'.store else c'.store = c.store := by
  rw [mine] at hc
  split at hc
  · next tx htx hr =>
    refine ⟨tx, htx, hr, ?_⟩
    split at hc
    · next hs =>
      obtain ⟨store, hw, rfl⟩ := Option.map_eq_some_iff.mp hc
      simp [hs, hw]
    · next hs =>
      cases hc
      simp [hs]
  · cases hc

lemma le_of_mine {status : Bool} (hc : c.mine sha h status = some c') : Le c c' := by
  obtain ⟨tx, htx, hr, htxs, hreceipts, _, hstore⟩ := mine_eq_some hc
  refine ⟨fun k hk => ?_, fun i t hi => htxs ▸ hi, fun i r hi => ?_⟩
  · split at hstore
    · exact LogStore.write_keeps hstore hk
    · rw [hstore]
  · rw [hreceipts]
    exact lookup_append_of_some hi _

/-- A transaction with status 1 has left its record, and nothing has changed the record since. The
records are listed. -/
structure Ok (c : Ethereum) : Prop where
  timestamp : 0 < c.blockTimestamp
  listed : c.store.Listed
  executed : ∀ h r, c.receipts.lookup h = some r → r.status = true →
    ∃ tx, c.txs.lookup h = some tx ∧ c.store.recordExists tx.call.contentHash ∧
      (c.store.logs tx.call.contentHash).message = tx.call.message ∧
      (c.store.logs tx.call.contentHash).metadataJson = tx.call.metadataJson

lemma Ok.genesis : Ok genesis where
  timestamp := by decide
  listed _ hk := absurd rfl hk
  executed h r hr := by cases hr

/-- Growth alone keeps what earlier receipts say. -/
lemma Ok.executed_le (hok : Ok c) (hle : Le c c') {r : Receipt}
    (hr : c.receipts.lookup h = some r) (hs : r.status = true) :
    ∃ tx, c'.txs.lookup h = some tx ∧ c'.store.recordExists tx.call.contentHash ∧
      (c'.store.logs tx.call.contentHash).message = tx.call.message ∧
      (c'.store.logs tx.call.contentHash).metadataJson = tx.call.metadataJson := by
  obtain ⟨tx, htx, hex, hmessage, hmeta⟩ := hok.executed h r hr hs
  refine ⟨tx, hle.txs h tx htx, hle.recordExists hex, ?_, ?_⟩
  · rw [hle.logs _ hex, hmessage]
  · rw [hle.logs _ hex, hmeta]

lemma Ok.send (hok : Ok c) (hc : c.send tx h = some c') : Ok c' := by
  have hle := (le_of_send hc).1
  have hsame : c'.receipts = c.receipts ∧ c'.blockTimestamp = c.blockTimestamp ∧
      c'.store = c.store := by
    rw [Ethereum.send] at hc
    split at hc
    · cases hc
      exact ⟨rfl, rfl, rfl⟩
    · cases hc
  obtain ⟨hreceipts, htime, hstore⟩ := hsame
  exact ⟨htime ▸ hok.timestamp, hstore ▸ hok.listed,
    fun i r hr hs => hok.executed_le hle (hreceipts ▸ hr) hs⟩

lemma Ok.nextBlock {timestamp : ℕ} (hok : Ok c) (hc : c.nextBlock timestamp = some c') :
    Ok c' := by
  have hle := le_of_nextBlock hc
  have hpos := hok.timestamp
  rw [Ethereum.nextBlock] at hc
  split at hc
  · next hlt =>
    cases hc
    exact ⟨hpos.trans hlt, hok.listed, fun i r hr hs => hok.executed_le hle hr hs⟩
  · cases hc

lemma Ok.mine {status : Bool} (hok : Ok c) (hc : c.mine sha h status = some c') : Ok c' := by
  have hle := le_of_mine hc
  obtain ⟨tx, htx, hnone, htxs, hreceipts, htime, hstore⟩ := mine_eq_some hc
  have hlisted : c'.store.Listed := by
    split at hstore
    · exact hok.listed.write hstore
    · rw [hstore]
      exact hok.listed
  refine ⟨htime ▸ hok.timestamp, hlisted, fun i r hr hs => ?_⟩
  cases hold : c.receipts.lookup i with
  | some r' =>
    have heq : r' = r := by
      rw [hle.receipts i r' hold] at hr
      exact Option.some.inj hr
    exact hok.executed_le hle hold (heq ▸ hs)
  | none =>
    rw [hreceipts, List.lookup_append, hold, Option.none_or, List.lookup_cons] at hr
    split at hr
    · next hih =>
      obtain rfl := eq_of_beq hih
      obtain rfl := Option.some.inj hr
      rw [if_pos (by simpa using hs)] at hstore
      obtain ⟨_, _, hts, hmessage, hmeta, _⟩ := LogStore.write_eq_some hstore
      refine ⟨tx, hle.txs i tx htx, ?_, hmessage, hmeta⟩
      rw [LogStore.recordExists, hts]
      exact hok.timestamp.ne'
    · cases hr

end Ethereum

end HybridLog
