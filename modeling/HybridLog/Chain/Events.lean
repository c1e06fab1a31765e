import HybridLog.Chain.Deployment
import HybridLog.Chain.Histories

/-!
# Events of the contracts

A call of `write` that does not revert emits one event at its end; a call that reverts emits none.
So the events of a chain, in their order, are the ledger of its contract, and the block a record
names has the event, and with it the transaction, the record comes from.
-/

namespace HybridLog

open Ledger

/-! ### What the contracts emit -/

/-- `event LogWritten` -/
structure LogWritten where
  contentHash : Bytes
  submitter : Bytes
  level : ℕ
  source : Bytes

/-- `event HashWritten` -/
structure HashWritten where
  contentHash : Bytes
  submitter : Bytes
  level : ℕ

/-- `event BatchWritten` -/
structure BatchWritten where
  merkleRoot : Bytes
  submitter : Bytes
  count : ℕ
  maxSeverity : ℕ

/-- The event of a contract, and what a record tells of the transaction that has emitted it. -/
structure StoreEvents {A R : Type} (c : StoreContract A R) (E : Type) where
  /-- The event of a call, with the sender of the call. -/
  emit : Bytes → A → E
  /-- The first argument. -/
  key : E → Bytes
  /-- The second argument. -/
  submitter : E → Bytes
  recordBlock : R → ℕ
  recordSubmitter : R → Bytes
  key_emit : ∀ sender w, key (emit sender w) = c.key w
  submitter_emit : ∀ sender w, submitter (emit sender w) = sender
  recordBlock_record : ∀ ctx w len hash, recordBlock (c.record ctx w len hash) = ctx.number
  recordSubmitter_record : ∀ ctx w len hash,
    recordSubmitter (c.record ctx w len hash) = ctx.sender

def LogStore.events : StoreEvents LogStore.contract LogWritten where
  emit sender w := ⟨w.contentHash, sender, w.level, w.source⟩
  key := LogWritten.contentHash
  submitter := LogWritten.submitter
  recordBlock := StoreRecord.blockNumber
  recordSubmitter := StoreRecord.submitter
  key_emit _ _ := rfl
  submitter_emit _ _ := rfl
  recordBlock_record _ _ _ _ := rfl
  recordSubmitter_record _ _ _ _ := rfl

def HashStore.events : StoreEvents HashStore.contract HashWritten where
  emit sender w := ⟨w.contentHash, sender, w.level⟩
  key := HashWritten.contentHash
  submitter := HashWritten.submitter
  recordBlock := HashStoreRecord.blockNumber
  recordSubmitter := HashStoreRecord.submitter
  key_emit _ _ := rfl
  submitter_emit _ _ := rfl
  recordBlock_record _ _ _ _ := rfl
  recordSubmitter_record _ _ _ _ := rfl

def BatchStore.events : StoreEvents BatchStore.contract BatchWritten where
  emit sender w := ⟨w.merkleRoot, sender, w.count, w.maxSeverity⟩
  key := BatchWritten.merkleRoot
  submitter := BatchWritten.submitter
  recordBlock := BatchStoreRecord.blockNumber
  recordSubmitter := BatchStoreRecord.submitter
  key_emit _ _ := rfl
  submitter_emit _ _ := rfl
  recordBlock_record _ _ _ _ := rfl
  recordSubmitter_record _ _ _ _ := rfl

/-! ### Events on a chain -/

/-- An event with its place on the chain. -/
structure EventLog (E : Type) where
  args : E
  transactionHash : TxHash
  blockNumber : ℕ

/-- A transaction whose call has not reverted. -/
structure MinedTx (A : Type) where
  hash : TxHash
  tx : ContractTx A
  blockNumber : ℕ

namespace ContractChain

variable {S A R E : Type} {m : OnChainStore S A R} (ev : StoreEvents m.contract E) {sha : Sha256}

/-- The transactions that have been mined and have not reverted, in their order. -/
def minedTxs (c : ContractChain S A) : List (MinedTx A) :=
  c.receipts.filterMap fun (h, r) =>
    if r.status then (c.txs.lookup h).map fun tx => ⟨h, tx, r.blockNumber⟩ else none

/-- Their events. -/
def eventLogs (c : ContractChain S A) : List (EventLog E) :=
  c.minedTxs.map fun t => ⟨ev.emit t.tx.sender t.tx.call, t.hash, t.blockNumber⟩

/-- `contract.queryFilter(filter, fromBlock, toBlock)` -/
def queryFilter (c : ContractChain S A) (fromBlock toBlock : ℕ) : List (EventLog E) :=
  (c.eventLogs ev).filter fun e => fromBlock ≤ e.blockNumber ∧ e.blockNumber ≤ toBlock

/-- The transaction that `openModal` shows for a record. -/
def modalTransaction (c : ContractChain S A) (hash : Bytes) (rec : R) : Option TxHash :=
  let blockNum := ev.recordBlock rec
  let logs := c.queryFilter ev blockNum blockNum
  (logs.find? fun l => ev.key l.args = hash).map EventLog.transactionHash

variable {c c' : ContractChain S A} {calls : List (StoreCall A)} {h : TxHash}

lemma mem_minedTxs {t : MinedTx A} : t ∈ c.minedTxs ↔
    (t.hash, ⟨true, t.blockNumber⟩) ∈ c.receipts ∧ c.txs.lookup t.hash = some t.tx := by
  rw [minedTxs, List.mem_filterMap]
  constructor
  · rintro ⟨⟨h, ⟨status, block⟩⟩, hr, ht⟩
    dsimp only at ht
    split at ht
    · next hstatus =>
      obtain ⟨tx, htx, rfl⟩ := Option.map_eq_some_iff.mp ht
      subst hstatus
      exact ⟨hr, htx⟩
    · cases ht
  · rintro ⟨hr, htx⟩
    exact ⟨_, hr, by simp [htx]⟩

/-! ### The events are the ledger -/

/-- The call of a mined transaction, with its sender and its block. -/
def MinedTx.executed (t : MinedTx A) : Bytes × ℕ × A := (t.tx.sender, t.blockNumber, t.tx.call)

/-- The mined transactions are the calls the contract has accepted. -/
structure Evident (m : OnChainStore S A R) (sha : Sha256) (c : ContractChain S A)
    (calls : List (StoreCall A)) : Prop where
  holds : (m.view c.store).Holds m.contract sha (calls.map m.contract.entry)
  nodup : (calls.map fun x => m.contract.key x.2).Nodup
  mined : c.minedTxs.map MinedTx.executed = calls.map fun x => (x.1.sender, x.1.number, x.2)
  known : ∀ p ∈ c.receipts, (c.txs.lookup p.1).isSome = true
  once : (c.receipts.map Prod.fst).Nodup
  timestamp : 0 < c.blockTimestamp

lemma Evident.genesis : Evident m sha (genesis m) [] where
  holds := m.holds_deployed sha
  nodup := List.nodup_nil
  mined := rfl
  known _ hp := by cases hp
  once := List.nodup_nil
  timestamp := Nat.one_pos

/-- A transaction that is sent emits nothing yet. -/
lemma Evident.send {tx : ContractTx A} (hev : Evident m sha c calls)
    (hc : c.send tx h = some c') : Evident m sha c' calls := by
  rw [ContractChain.send] at hc
  split at hc
  swap
  · cases hc
  cases hc
  have hlookup {p : TxHash × Receipt} (hp : p ∈ c.receipts) :
      (c.txs ++ [(h, tx)]).lookup p.1 = c.txs.lookup p.1 := by
    obtain ⟨tx', htx⟩ := Option.isSome_iff_exists.mp (hev.known p hp)
    rw [Ethereum.lookup_append_of_some htx, htx]
  constructor
  · exact hev.holds
  · exact hev.nodup
  · rw [← hev.mined]
    refine congrArg _ (List.filterMap_congr fun p hp => ?_)
    dsimp only
    rw [hlookup hp]
  · intro p hp
    dsimp only
    rw [hlookup hp]
    exact hev.known p hp
  · exact hev.once
  · exact hev.timestamp

/-- A transaction that is mined adds its call and its event, or neither if it reverts. -/
lemma Evident.mine {status : Bool} (hev : Evident m sha c calls)
    (hc : c.mine m sha h status = some c') : ∃ more, Evident m sha c' (calls ++ more) := by
  rw [ContractChain.mine] at hc
  split at hc
  swap
  · cases hc
  next tx htx hnone =>
  have hknown {b : Bool} : ∀ p ∈ c.receipts ++ [(h, (⟨b, c.blockNumber⟩ : Receipt))],
      (c.txs.lookup p.1).isSome = true := by
    intro p hp
    rcases List.mem_append.mp hp with hp | hp
    · exact hev.known p hp
    · cases List.mem_singleton.mp hp
      rw [htx]
      rfl
  have honce {b : Bool} :
      ((c.receipts ++ [(h, (⟨b, c.blockNumber⟩ : Receipt))]).map Prod.fst).Nodup := by
    rw [List.map_append, List.map_singleton, ← List.concat_eq_append]
    refine List.Nodup.concat (fun hmem => ?_) hev.once
    obtain ⟨p, hp, hph⟩ := List.mem_map.mp hmem
    have hne := List.lookup_eq_none_iff.mp hnone p hp
    simp [hph] at hne
  split at hc
  · next hstatus =>
    subst hstatus
    obtain ⟨store, hw, rfl⟩ := Option.map_eq_some_iff.mp hc
    have hview := m.view_write sha c.store ⟨tx.sender, c.blockTimestamp, c.blockNumber⟩ tx.call
    rw [hw] at hview
    have hnew : m.contract.key tx.call ∉ calls.map fun x => m.contract.key x.2 := by
      rw [← OnChainStore.keys_entries, ← hev.holds.exists_iff]
      intro hex
      rw [ContractStore.write, if_pos hex] at hview
      cases hview
    refine ⟨[(⟨tx.sender, c.blockTimestamp, c.blockNumber⟩, tx.call)], ?_, ?_, ?_, hknown, honce,
      hev.timestamp⟩
    · rw [List.map_append]
      exact hev.holds.write hev.timestamp hview.symm
    · rw [List.map_append, List.map_singleton, ← List.concat_eq_append]
      exact List.Nodup.concat hnew hev.nodup
    · rw [List.map_append, ← hev.mined]
      simp [minedTxs, htx, MinedTx.executed]
  · next hstatus =>
    cases hc
    refine ⟨[], ?_⟩
    rw [List.append_nil]
    refine ⟨hev.holds, hev.nodup, ?_, hknown, honce, hev.timestamp⟩
    rw [← hev.mined]
    simp [minedTxs, hstatus]

lemma Evident.happens (hev : Evident m sha c calls) (hc : Happens m sha c c') :
    ∃ more, Evident m sha c' (calls ++ more) := by
  cases hc with
  | send hc => exact ⟨[], by simpa using hev.send hc⟩
  | nextBlock hc =>
    rw [nextBlock] at hc
    split at hc
    · next hlt =>
      cases hc
      refine ⟨[], ?_⟩
      rw [List.append_nil]
      exact ⟨hev.holds, hev.nodup, hev.mined, hev.known, hev.once, hev.timestamp.trans hlt⟩
    · cases hc
  | mine hc => exact hev.mine hc

lemma Evident.run (hev : Evident m sha c calls)
    (hc : Relation.ReflTransGen (Happens m sha) c c') :
    ∃ more, Evident m sha c' (calls ++ more) := by
  induction hc with
  | refl => exact ⟨[], by simpa using hev⟩
  | tail _ hstep ih =>
    obtain ⟨more, hmore⟩ := ih
    obtain ⟨last, hlast⟩ := hmore.happens hstep
    exact ⟨more ++ last, by rwa [List.append_assoc] at hlast⟩

namespace Evident

variable (hev : Evident m sha c calls)
include hev

lemma mined_keys : (c.minedTxs.map fun t => m.contract.key t.tx.call) =
    calls.map fun x => m.contract.key x.2 := by
  have heq := congrArg (List.map fun p => m.contract.key p.2.2) hev.mined
  rwa [List.map_map, List.map_map] at heq

lemma event_keys :
    ((c.eventLogs ev).map fun e => ev.key e.args) = (m.view c.store).ordered := by
  rw [hev.holds.ordered, OnChainStore.keys_entries, ← hev.mined_keys, eventLogs, List.map_map]
  exact List.map_congr_left fun t _ => ev.key_emit _ _

lemma mined_unique {t t' : MinedTx A} (ht : t ∈ c.minedTxs) (ht' : t' ∈ c.minedTxs)
    (hkey : m.contract.key t.tx.call = m.contract.key t'.tx.call) : t = t' :=
  List.inj_on_of_nodup_map (hev.mined_keys ▸ hev.nodup) ht ht' hkey

lemma exists_mined {x : StoreCall A} (hx : x ∈ calls) :
    ∃ t ∈ c.minedTxs, t.tx.sender = x.1.sender ∧ t.blockNumber = x.1.number ∧ t.tx.call = x.2 := by
  have hmem : (x.1.sender, x.1.number, x.2) ∈ c.minedTxs.map MinedTx.executed := by
    rw [hev.mined]
    exact List.mem_map_of_mem hx
  obtain ⟨t, ht, heq⟩ := List.mem_map.mp hmem
  simp only [MinedTx.executed, Prod.mk.injEq] at heq
  exact ⟨t, ht, heq⟩

/-- The event of a transaction is the only one for its key in its block. -/
lemma find_event {t : MinedTx A} (ht : t ∈ c.minedTxs) :
    ((c.queryFilter ev t.blockNumber t.blockNumber).find?
      fun l => ev.key l.args = m.contract.key t.tx.call).map EventLog.transactionHash =
        some t.hash := by
  have hmem : ⟨ev.emit t.tx.sender t.tx.call, t.hash, t.blockNumber⟩ ∈
      c.queryFilter ev t.blockNumber t.blockNumber :=
    List.mem_filter.mpr ⟨List.mem_map_of_mem ht, by simp⟩
  cases hfind : (c.queryFilter ev t.blockNumber t.blockNumber).find?
      fun l => ev.key l.args = m.contract.key t.tx.call with
  | none =>
    have hne := List.find?_eq_none.mp hfind _ hmem
    simp [ev.key_emit] at hne
  | some e =>
    have he := List.mem_of_mem_filter (List.mem_of_find?_eq_some hfind)
    have hkey := List.find?_some hfind
    obtain ⟨t', ht', rfl⟩ := List.mem_map.mp he
    simp only [ev.key_emit, decide_eq_true_eq] at hkey
    rw [hev.mined_unique ht' ht hkey]
    rfl

lemma lookup_receipt {r : Receipt} (hr : (h, r) ∈ c.receipts) : c.receipts.lookup h = some r := by
  obtain ⟨l, l', heq⟩ := List.append_of_mem hr
  have honce := hev.once
  rw [heq, List.map_append, List.map_cons, List.nodup_append'] at honce
  refine List.lookup_eq_some_iff.mpr ⟨l, l', heq, fun p hp => ?_⟩
  have hne : p.1 ≠ h := fun hph =>
    honce.2.2 (List.mem_map_of_mem hp) (hph ▸ List.mem_cons_self ..)
  simpa using hne.symm

/-- A record is that of an accepted call, with the calls before it. -/
lemma call_of_record {key : Bytes} {rec : R}
    (hrec : (m.view c.store).getRecord m.contract key = some rec) :
    ∃ pre x post, calls = pre ++ x :: post ∧ m.contract.key x.2 = key ∧
      rec = m.contract.recordOf sha (pre.map m.contract.entry) (m.contract.entry x) := by
  rw [ContractStore.getRecord] at hrec
  split at hrec
  swap
  · cases hrec
  next hex =>
  cases hrec
  rw [hev.holds.exists_iff, OnChainStore.keys_entries] at hex
  obtain ⟨x, hx, rfl⟩ := List.mem_map.mp hex
  obtain ⟨pre, post, rfl⟩ := List.append_of_mem hx
  exact ⟨pre, x, post, rfl, rfl, hev.holds.record _ (m.contract.entry x)
    (post.map m.contract.entry) (by simp)⟩

lemma record_of_call {pre post : List (StoreCall A)} {x : StoreCall A}
    (hcalls : calls = pre ++ x :: post) :
    (m.view c.store).getRecord m.contract (m.contract.key x.2) =
      some (m.contract.recordOf sha (pre.map m.contract.entry) (m.contract.entry x)) := by
  subst hcalls
  have hex : (m.view c.store).recordExists m.contract (m.contract.key x.2) := by
    rw [hev.holds.exists_iff, OnChainStore.keys_entries]
    simp
  rw [ContractStore.getRecord, if_pos hex]
  exact congrArg some (hev.holds.record _ (m.contract.entry x) (post.map m.contract.entry)
    (by simp))

end Evident

end ContractChain

/-! ### What the explorer reads off the events -/

open ContractChain

variable {S A R E : Type}

/-- A record that is kept under `hash` leads to its transaction. -/
structure RecordTells (m : OnChainStore S A R) (ev : StoreEvents m.contract E)
    (c : ContractChain S A) (hash : Bytes) (rec : R) (h : TxHash) (tx : ContractTx A) : Prop where
  kept : (m.view c.store).getRecord m.contract hash = some rec
  shown : c.modalTransaction ev hash rec = some h
  sent : c.txs.lookup h = some tx
  key : m.contract.key tx.call = hash
  sender : tx.sender = ev.recordSubmitter rec
  mined : c.receipts.lookup h = some ⟨true, ev.recordBlock rec⟩
  /-- The record is what the transaction has written. -/
  written : ∃ ctx len history, rec = m.contract.record ctx tx.call len history
  /-- No other transaction for the hash has succeeded. -/
  unique : ∀ h' tx', c.txs.lookup h' = some tx' → c.Succeeded h' →
    m.contract.key tx'.call = hash → h' = h

/-- The events of a contract are its ledger, whatever happens on the chain: they come in the order
of the keys, and whoever has read a record finds its transaction, now and at any later time. -/
structure EventsTell (m : OnChainStore S A R) (ev : StoreEvents m.contract E) (sha : Sha256) :
    Prop where
  ordered : ∀ c, Relation.ReflTransGen (Happens m sha) (genesis m) c →
    ((c.eventLogs ev).map fun e => ev.key e.args) = (m.view c.store).ordered
  records : ∀ c c' hash rec, Relation.ReflTransGen (Happens m sha) (genesis m) c →
    Relation.ReflTransGen (Happens m sha) c c' →
    (m.view c.store).getRecord m.contract hash = some rec →
      ∃ h tx, RecordTells m ev c' hash rec h tx

variable {m : OnChainStore S A R} {ev : StoreEvents m.contract E} {sha : Sha256}
  {c : ContractChain S A} {calls : List (StoreCall A)}

lemma ContractChain.Evident.recordTells (hev : Evident m sha c calls)
    {pre post : List (StoreCall A)} {x : StoreCall A} (hcalls : calls = pre ++ x :: post) :
    ∃ h tx, RecordTells m ev c (m.contract.key x.2)
      (m.contract.recordOf sha (pre.map m.contract.entry) (m.contract.entry x)) h tx := by
  have hx : x ∈ calls := by simp [hcalls]
  obtain ⟨t, ht, hsender, hblock, hcall⟩ := hev.exists_mined hx
  obtain ⟨hr, htx⟩ := mem_minedTxs.mp ht
  have hrecordBlock : ev.recordBlock (m.contract.recordOf sha (pre.map m.contract.entry)
      (m.contract.entry x)) = t.blockNumber := (ev.recordBlock_record ..).trans hblock.symm
  refine ⟨t.hash, t.tx, ?_⟩
  constructor
  · exact hev.record_of_call hcalls
  · rw [modalTransaction, hrecordBlock, ← hcall]
    exact hev.find_event ev ht
  · exact htx
  · rw [hcall]
  · exact hsender.trans (ev.recordSubmitter_record ..).symm
  · rw [hrecordBlock]
    exact hev.lookup_receipt hr
  · rw [hcall]
    exact ⟨x.1, _, _, rfl⟩
  · rintro h' tx' htx' ⟨r', hr', hstatus⟩ hkey
    have ht' : ⟨h', tx', r'.blockNumber⟩ ∈ c.minedTxs := by
      obtain ⟨l, l', heq, _⟩ := List.lookup_eq_some_iff.mp hr'
      refine mem_minedTxs.mpr ⟨?_, htx'⟩
      rw [heq, ← hstatus]
      exact List.mem_append_right _ (List.mem_cons_self ..)
    exact congrArg MinedTx.hash (hev.mined_unique ht' ht (hkey.trans (by rw [hcall])))

lemma eventsTell (m : OnChainStore S A R) (ev : StoreEvents m.contract E) (sha : Sha256) :
    EventsTell m ev sha := by
  constructor
  · intro c hc
    obtain ⟨calls, hev⟩ := Evident.genesis.run hc
    exact hev.event_keys ev
  · intro c c' hash rec hc hc' hrec
    obtain ⟨calls, hev⟩ := Evident.genesis.run hc
    obtain ⟨pre, x, post, hcalls, rfl, rfl⟩ := hev.call_of_record hrec
    obtain ⟨more, hev'⟩ := hev.run hc'
    have hcalls' : [] ++ calls ++ more = pre ++ x :: (post ++ more) := by simp [hcalls]
    exact hev'.recordTells hcalls'

/-- The events of the three contracts are their ledgers, and lead from records to transactions. -/
theorem events_tell (sha : Sha256) : EventsTell logStore LogStore.events sha ∧
    EventsTell hashStore HashStore.events sha ∧ EventsTell batchStore BatchStore.events sha :=
  ⟨eventsTell logStore LogStore.events sha, eventsTell hashStore HashStore.events sha,
    eventsTell batchStore BatchStore.events sha⟩

end HybridLog
