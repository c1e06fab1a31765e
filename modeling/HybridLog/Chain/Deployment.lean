import HybridLog.Chain.Stores
import Mathlib.Logic.Relation

/-!
# A chain with one contract

Transactions call `write` of the contract that is deployed. As on every chain of this kind, a mined
transaction has a receipt, with status 1 if its call did not revert.
-/

namespace HybridLog

/-- A transaction that calls `write` of a contract with arguments of type `A`. -/
structure ContractTx (A : Type) where
  call : A
  sender : Bytes

structure ContractChain (S A : Type) where
  store : S
  /-- The transactions sent so far. -/
  txs : List (TxHash × ContractTx A)
  receipts : List (TxHash × Receipt)
  blockNumber : ℕ
  blockTimestamp : ℕ

namespace ContractChain

variable {S A R : Type} (m : OnChainStore S A R) (sha : Sha256)

/-- The contract is deployed in the first block. -/
def genesis : ContractChain S A := ⟨m.deployed, [], [], 0, 1⟩

/-- Every transaction that is sent has a hash of its own. -/
def send (c : ContractChain S A) (tx : ContractTx A) (h : TxHash) : Option (ContractChain S A) :=
  match c.txs.lookup h with
  | none => some { c with txs := c.txs ++ [(h, tx)] }
  | some _ => none

def nextBlock (c : ContractChain S A) (timestamp : ℕ) : Option (ContractChain S A) :=
  if c.blockTimestamp < timestamp then
    some { c with blockNumber := c.blockNumber + 1, blockTimestamp := timestamp }
  else none

/-- The transaction `h` is included in the current block, with status 0 if its call reverts. -/
def mine (c : ContractChain S A) (h : TxHash) (status : Bool) : Option (ContractChain S A) :=
  match c.txs.lookup h, c.receipts.lookup h with
  | some tx, none =>
    let receipts := c.receipts ++ [(h, ⟨status, c.blockNumber⟩)]
    if status then
      (m.write sha c.store ⟨tx.sender, c.blockTimestamp, c.blockNumber⟩ tx.call).map fun store =>
        { c with store := store, receipts := receipts }
    else some { c with receipts := receipts }
  | _, _ => none

/-- Anybody sends a transaction, or the chain goes on. -/
inductive Happens (c c' : ContractChain S A) : Prop
  | send {tx : ContractTx A} {h : TxHash} (hc : c.send tx h = some c')
  | nextBlock {timestamp : ℕ} (hc : c.nextBlock timestamp = some c')
  | mine {h : TxHash} {status : Bool} (hc : c.mine m sha h status = some c')

/-- `exists` of the contract. -/
def Exists (c : ContractChain S A) (key : Bytes) : Prop :=
  (m.view c.store).recordExists m.contract key

/-- The transaction has a receipt with status 1. -/
def Succeeded (c : ContractChain S A) (h : TxHash) : Prop :=
  ∃ r, c.receipts.lookup h = some r ∧ r.status = true

/-! ### What the chain keeps -/

variable {m sha} {c c' : ContractChain S A} {h : TxHash}

/-- A write leaves a record under its key, at the time of its block, and the records there are. -/
lemma exists_of_write {s s' : S} {ctx : BlockContext} {w : A}
    (hw : m.write sha s ctx w = some s') :
    ((m.view s').recordExists m.contract (m.contract.key w) ↔ ctx.timestamp ≠ 0) ∧
      ∀ key, (m.view s).recordExists m.contract key →
        (m.view s').recordExists m.contract key := by
  have hview := m.view_write sha s ctx w
  rw [hw, Option.map_some, ContractStore.write] at hview
  split at hview
  · cases hview
  next hnew =>
  rw [Option.some.inj hview]
  constructor
  · simp only [ContractStore.recordExists, Function.update_self, m.contract.timestamp_record]
  · intro key hkey
    have hne : key ≠ m.contract.key w := fun heq => hnew (heq ▸ hkey)
    simp only [ContractStore.recordExists, Function.update_of_ne hne]
    exact hkey

/-- Records, transactions and receipts stay. -/
structure Le (m : OnChainStore S A R) (c c' : ContractChain S A) : Prop where
  records : ∀ key, c.Exists m key → c'.Exists m key
  txs : ∀ h tx, c.txs.lookup h = some tx → c'.txs.lookup h = some tx
  receipts : ∀ h r, c.receipts.lookup h = some r → c'.receipts.lookup h = some r

lemma Le.refl (c : ContractChain S A) : Le m c c :=
  ⟨fun _ h => h, fun _ _ h => h, fun _ _ h => h⟩

lemma Le.trans {a b d : ContractChain S A} (h : Le m a b) (h' : Le m b d) : Le m a d :=
  ⟨fun key hk => h'.records key (h.records key hk), fun i tx hi => h'.txs i tx (h.txs i tx hi),
    fun i r hi => h'.receipts i r (h.receipts i r hi)⟩

lemma le_of_happens (hc : Happens m sha c c') : Le m c c' := by
  cases hc with
  | send hc =>
    rw [send] at hc
    split at hc
    · cases hc
      exact { Le.refl c with txs := fun _ _ hi => Ethereum.lookup_append_of_some hi _ }
    · cases hc
  | nextBlock hc =>
    rw [nextBlock] at hc
    split at hc
    · cases hc
      exact ⟨fun _ h => h, fun _ _ h => h, fun _ _ h => h⟩
    · cases hc
  | mine hc =>
    rw [mine] at hc
    split at hc
    · split at hc
      · obtain ⟨store, hw, rfl⟩ := Option.map_eq_some_iff.mp hc
        exact ⟨(exists_of_write hw).2, fun _ _ h => h,
          fun _ _ hi => Ethereum.lookup_append_of_some hi _⟩
      · cases hc
        exact { Le.refl c with receipts := fun _ _ hi => Ethereum.lookup_append_of_some hi _ }
    · cases hc

/-- A transaction with status 1 has left its record. -/
structure Ok (m : OnChainStore S A R) (c : ContractChain S A) : Prop where
  timestamp : 0 < c.blockTimestamp
  executed : ∀ h, c.Succeeded h →
    ∃ tx, c.txs.lookup h = some tx ∧ c.Exists m (m.contract.key tx.call)

lemma Ok.genesis : Ok m (genesis m) := by
  constructor
  · show 0 < 1
    exact Nat.one_pos
  · rintro h ⟨r, hr, -⟩
    cases hr

lemma Ok.happens (hok : Ok m c) (hc : Happens m sha c c') : Ok m c' := by
  have hle := le_of_happens hc
  have hkept {i : TxHash} (hi : c.Succeeded i) :
      ∃ tx, c'.txs.lookup i = some tx ∧ c'.Exists m (m.contract.key tx.call) := by
    obtain ⟨tx, htx, hex⟩ := hok.executed i hi
    exact ⟨tx, hle.txs i tx htx, hle.records _ hex⟩
  cases hc with
  | send hc =>
    rw [send] at hc
    split at hc
    · cases hc
      exact ⟨hok.timestamp, fun i hi => hkept hi⟩
    · cases hc
  | nextBlock hc =>
    rw [nextBlock] at hc
    split at hc
    · next hlt =>
      cases hc
      exact ⟨hok.timestamp.trans hlt, fun i hi => hkept hi⟩
    · cases hc
  | @mine j status hc =>
    rw [mine] at hc
    split at hc
    swap
    · cases hc
    next tx htx hnone =>
    have hnew {store : S} {i : TxHash} (hi : Succeeded { c with
        store := store, receipts := c.receipts ++ [(j, ⟨status, c.blockNumber⟩)] } i) :
        c.Succeeded i ∨ i = j ∧ status = true := by
      obtain ⟨r, hr, hs⟩ := hi
      cases hold : c.receipts.lookup i with
      | some r' =>
        rw [Ethereum.lookup_append_of_some hold] at hr
        exact .inl ⟨r, Option.some.inj hr ▸ hold, hs⟩
      | none =>
        rw [List.lookup_append, hold, Option.none_or, List.lookup_cons] at hr
        split at hr
        · next hij =>
          cases hr
          exact .inr ⟨eq_of_beq hij, hs⟩
        · cases hr
    split at hc
    · obtain ⟨store, hw, rfl⟩ := Option.map_eq_some_iff.mp hc
      refine ⟨hok.timestamp, fun i hi => ?_⟩
      rcases hnew hi with hi | ⟨rfl, -⟩
      · exact hkept hi
      · exact ⟨tx, htx, (exists_of_write hw).1.mpr hok.timestamp.ne'⟩
    · next hs =>
      cases hc
      refine ⟨hok.timestamp, fun i hi => ?_⟩
      rcases hnew hi with hi | ⟨-, hs'⟩
      · exact hkept hi
      · exact absurd hs' hs

/-! ### Runs of the chain -/

lemma le_of_run (hc : Relation.ReflTransGen (Happens m sha) c c') : Le m c c' := by
  induction hc with
  | refl => exact .refl c
  | tail _ hstep ih => exact ih.trans (le_of_happens hstep)

lemma ok_of_run (hc : Relation.ReflTransGen (Happens m sha) (genesis m) c) : Ok m c := by
  induction hc with
  | refl => exact .genesis
  | tail _ hstep ih => exact ih.happens hstep


lemma lookup_of_send {tx : ContractTx A} (hc : c.send tx h = some c') :
    c'.txs.lookup h = some tx := by
  rw [send] at hc
  split at hc
  · next hl =>
    cases hc
    simp [List.lookup_append, hl]
  · cases hc

lemma succeeded_of_mine (hc : c.mine m sha h true = some c') : c'.Succeeded h := by
  rw [mine] at hc
  split at hc
  · next tx htx hnone =>
    obtain ⟨store, -, rfl⟩ := Option.map_eq_some_iff.mp ((if_pos rfl).symm.trans hc)
    refine ⟨⟨true, c.blockNumber⟩, ?_, rfl⟩
    simp [List.lookup_append, hnone]
  · cases hc

end ContractChain

end HybridLog
