import HybridLog.Chain.Histories
import HybridLog.Chain.Services

/-!
# The two chains mirror each other

A contract and its service are called with the same hashes in the same order, the hash being spelled
in hexadecimal for the service. Both keep a ledger, of entries with the same keys and of accounts
that correspond, so they agree on what is a duplicate, on the order and on the histories.
-/

namespace HybridLog

open Ledger
open List (Forall₂)

/-- The bytes of a text. -/
def textBytes (s : List Char) : Bytes := s.flatMap String.utf8EncodeChar

section Mirror

variable {S A R A' R' : Type}

/-- A call of a contract and a call of a service at the same time. -/
abbrev PairedCall (A A' : Type) := StoreCall A × (ExecutionContext × A')

/-- The calls of a pair write the same: the text for the service spells the hash for the contract,
in letters of any case, and the other arguments correspond. -/
structure PairedCall.Same (m : OnChainStore S A R) (sv : Service A' R') (same : A → A' → Prop)
    (x : PairedCall A A') : Prop where
  timestamp : 0 < x.1.1.timestamp
  length : (m.contract.key x.1.2).length = 32
  spelling : (sv.contentHash x.2.2).map Char.toLower = hexEncode (m.contract.key x.1.2)
  transaction : x.2.1.transactionHash.isSome
  args : same x.1.2 x.2.2

/-- The same is written on both chains, by callers in one-to-one correspondence. -/
structure Mirrored (m : OnChainStore S A R) (sv : Service A' R') (same : A → A' → Prop)
    (calls : List (PairedCall A A')) : Prop where
  each : ∀ x ∈ calls, x.Same m sv same
  callers : ∀ x ∈ calls, ∀ y ∈ calls,
    (x.1.1.sender = y.1.1.sender ↔ x.2.1.caller = y.2.1.caller)

/-- A contract and a service tell the same. -/
structure Agree (m : OnChainStore S A R) (sv : Service A' R') (sha : Sha256)
    (objectHash : ObjectHash) (same : R → R' → Prop) (calls : List (PairedCall A A')) : Prop where
  /-- Each call is accepted by both or by none, which is when its hash has a record. -/
  decisions : ∀ pre x post, calls = pre ++ x :: post →
    ((m.call sha (m.after sha (pre.map Prod.fst)) x.1).isSome ↔
      (sv.call objectHash (sv.after objectHash (pre.map Prod.snd)) x.2).isSome) ∧
    (m.call sha (m.after sha (pre.map Prod.fst)) x.1 = none ↔
      m.contract.key x.1.2 ∈ (m.view (m.after sha (pre.map Prod.fst))).ordered) ∧
    (m.call sha (m.after sha (pre.map Prod.fst)) x.1 = none →
      sv.write objectHash (sv.after objectHash (pre.map Prod.snd)) x.2.1 x.2.2 =
        .error (.service .duplicateRecord))
  ordered : (m.view (m.after sha (calls.map Prod.fst))).ordered =
    (sv.after objectHash (calls.map Prod.snd)).ordered
  /-- The records under a key have the same history length and correspond. -/
  records : ∀ k, Option.Rel
    (fun r r' => m.contract.historyLen r = sv.historyLen r' ∧ same r r')
    ((m.view (m.after sha (calls.map Prod.fst))).getRecord m.contract k)
    ((sv.after objectHash (calls.map Prod.snd)).get k)

variable {m : OnChainStore S A R} {sv : Service A' R'} {sha : Sha256} {objectHash : ObjectHash}
  {sameArgs : A → A' → Prop} {sameRecord : R → R' → Prop} {calls pre post : List (PairedCall A A')}
  {x : PairedCall A A'}

/-- Entries that one pair of calls offers. -/
def Paired (m : OnChainStore S A R) (sv : Service A' R') (calls : List (PairedCall A A'))
    (e : Entry Bytes Bytes (StoreCall A)) (e' : Entry Bytes Address (TxHash × A')) : Prop :=
  e.key = e'.key ∧ ∃ x ∈ calls, m.contract.entry x.1 = e ∧ sv.entry x.2 = some e'

lemma PairedCall.Same.entry (h : x.Same m sv sameArgs) :
    ∃ txHash, sv.entry x.2 = some ⟨m.contract.key x.1.2, x.2.1.caller, txHash, x.2.2⟩ := by
  obtain ⟨txHash, htx⟩ := Option.isSome_iff_exists.mp h.transaction
  rw [Service.entry, htx, parseHash_spelling h.length h.spelling]
  exact ⟨txHash, rfl⟩

lemma Mirrored.initial (h : Mirrored m sv sameArgs (pre ++ post)) : Mirrored m sv sameArgs pre :=
  ⟨fun x hx => h.each x (List.mem_append_left _ hx),
    fun x hx y hy => h.callers x (List.mem_append_left _ hx) y (List.mem_append_left _ hy)⟩

lemma Mirrored.stamped (h : Mirrored m sv sameArgs calls) :
    OnChainStore.Stamped (calls.map Prod.fst) := by
  intro y hy
  obtain ⟨x, hx, rfl⟩ := List.mem_map.mp hy
  exact (h.each x hx).timestamp

/-- The ledgers of the two chains. -/
lemma Mirrored.ledgers (h : Mirrored m sv sameArgs calls) (sha : Sha256)
    (objectHash : ObjectHash) :
    Forall₂ (Paired m sv calls) ((m.accepted sha (calls.map Prod.fst)).map m.contract.entry)
      (sv.entries objectHash (calls.map Prod.snd)) := by
  have hpaired : ∀ x ∈ calls, ∃ e e', some (m.contract.entry x.1) = some e ∧
      sv.entry x.2 = some e' ∧ Paired m sv calls e e' := by
    intro x hx
    obtain ⟨txHash, hentry⟩ := (h.each x hx).entry
    exact ⟨_, _, rfl, hentry, rfl, x, hx, rfl, hentry⟩
  have hoffered := filterMap_forall₂ (fun y => some (m.contract.entry y)) sv.entry hpaired
  have hvalid : ∀ y ∈ calls.map Prod.snd, True := fun _ _ => trivial
  have hstore := (m.keepsLedger sha).accepted (m.holds_deployed sha) h.stamped
  have hservice := (sv.keepsLedger objectHash).accepted Service.holds_empty hvalid
  rw [List.nil_append] at hstore hservice
  rw [OnChainStore.accepted, Service.entries, Service.accepted, ← List.filterMap_eq_map', ← hstore,
    ← hservice]
  exact submitAll_forall₂ (fun hp => hp.1) .nil hoffered

lemma Mirrored.ordered (h : Mirrored m sv sameArgs calls) (sha : Sha256)
    (objectHash : ObjectHash) :
    (m.view (m.after sha (calls.map Prod.fst))).ordered =
      (sv.after objectHash (calls.map Prod.snd)).ordered := by
  rw [(OnChainStore.holds_after m sha h.stamped).ordered,
    (Service.holds_after sv objectHash _).ordered]
  exact keys_eq_of_forall₂ (fun hp => hp.1) (h.ledgers sha objectHash)

/-- The histories of callers that correspond are equally long. -/
lemma Mirrored.history (h : Mirrored m sv sameArgs calls) (hx : x ∈ calls)
    {l : List (Entry Bytes Bytes (StoreCall A))} {l' : List (Entry Bytes Address (TxHash × A'))}
    (hl : Forall₂ (Paired m sv calls) l l') :
    (history l x.1.1.sender).length = (history l' x.2.1.caller).length := by
  refine length_history_eq ?_ hl
  rintro e e' ⟨-, y, hy, rfl, he'⟩
  rw [(Service.entry_eq_some he').2.2.1]
  exact h.callers y hy x hx

/-- Where a call stands among the others, both chains decide alike. -/
lemma Mirrored.decisions (h : Mirrored m sv sameArgs (pre ++ x :: post)) :
    ((m.call sha (m.after sha (pre.map Prod.fst)) x.1).isSome ↔
      (sv.call objectHash (sv.after objectHash (pre.map Prod.snd)) x.2).isSome) ∧
    (m.call sha (m.after sha (pre.map Prod.fst)) x.1 = none ↔
      m.contract.key x.1.2 ∈ (m.view (m.after sha (pre.map Prod.fst))).ordered) ∧
    (m.call sha (m.after sha (pre.map Prod.fst)) x.1 = none →
      sv.write objectHash (sv.after objectHash (pre.map Prod.snd)) x.2.1 x.2.2 =
        .error (.service .duplicateRecord)) := by
  have hx := h.each x (by simp)
  obtain ⟨txHash, hentry⟩ := hx.entry
  have hstore : (m.call sha (m.after sha (pre.map Prod.fst)) x.1).isSome ↔
      m.contract.key x.1.2 ∉ (m.view (m.after sha (pre.map Prod.fst))).ordered := by
    rw [OnChainStore.isSome_call, (OnChainStore.holds_after m sha h.initial.stamped).exists_iff,
      (OnChainStore.holds_after m sha h.initial.stamped).ordered]
  have hkeys : (sv.after objectHash (pre.map Prod.snd)).keys =
      (m.view (m.after sha (pre.map Prod.fst))).ordered := by
    rw [h.initial.ordered sha objectHash, (Service.holds_after sv objectHash _).keys,
      (Service.holds_after sv objectHash _).ordered]
  refine ⟨?_, ?_, ?_⟩
  · rw [hstore, Service.isSome_call, hkeys, hentry]
    constructor
    · exact fun hnew => ⟨_, rfl, hnew⟩
    · rintro ⟨e, he, hnew⟩
      cases he
      exact hnew
  · rw [← Option.not_isSome_iff_eq_none, hstore, not_not]
  · intro hnone
    have hknown : m.contract.key x.1.2 ∈ (m.view (m.after sha (pre.map Prod.fst))).ordered := by
      by_contra hnew
      have hsome := hstore.mpr hnew
      rw [hnone] at hsome
      cases hsome
    obtain ⟨tx, htx⟩ := Option.isSome_iff_exists.mp hx.transaction
    rw [Service.write, htx]
    dsimp only
    rw [ServiceSchema.write, parseHash_spelling hx.length hx.spelling]
    dsimp only
    rw [if_pos (hkeys ▸ hknown)]
    rfl

/-- The records under a key were written by calls of one pair. -/
lemma Mirrored.records (h : Mirrored m sv sameArgs calls)
    (hsame : ∀ w arg, sameArgs w arg → ∀ ctx tx key len hash len' hash',
      sameRecord (m.contract.record ctx w len hash) (sv.record arg tx key len' hash')) (k : Bytes) :
    Option.Rel (fun r r' => m.contract.historyLen r = sv.historyLen r' ∧ sameRecord r r')
      ((m.view (m.after sha (calls.map Prod.fst))).getRecord m.contract k)
      ((sv.after objectHash (calls.map Prod.snd)).get k) := by
  have hstore := OnChainStore.holds_after m sha h.stamped
  have hservice := Service.holds_after sv objectHash (calls.map Prod.snd)
  have hledgers := h.ledgers sha objectHash
  by_cases hk : k ∈ keys ((m.accepted sha (calls.map Prod.fst)).map m.contract.entry)
  · obtain ⟨e, he, rfl⟩ := List.mem_map.mp hk
    obtain ⟨before, after, hsplit⟩ := List.append_of_mem he
    obtain ⟨before', e', after', hsplit', hbefore, hkey, x, hx, rfl, he'⟩ :=
      exists_of_forall₂_append hledgers hsplit
    rw [ContractStore.getRecord, if_pos ((hstore.exists_iff _).mpr hk),
      hstore.record _ _ _ hsplit, hkey, hservice.record _ _ _ hsplit']
    obtain ⟨-, -, haccount, harg⟩ := Service.entry_eq_some he'
    refine .some ⟨?_, ?_⟩
    · rw [StoreContract.recordOf, m.contract.historyLen_record, Service.recordOf,
        sv.historyLen_record, Service.transactions, List.length_append, List.length_map,
        List.length_singleton, haccount]
      exact congrArg (· + 1) (h.history hx hbefore)
    · rw [StoreContract.recordOf, Service.recordOf, harg]
      exact hsame _ _ (h.each x hx).args ..
  · have hnone : (sv.after objectHash (calls.map Prod.snd)).get k = none := by
      rw [← Option.not_isSome_iff_eq_none, hservice.isSome_get,
        ← keys_eq_of_forall₂ (fun hp => hp.1) hledgers]
      exact hk
    rw [ContractStore.getRecord, if_neg ((hstore.exists_iff k).not.mpr hk), hnone]
    exact .none

lemma Mirrored.agree (h : Mirrored m sv sameArgs calls)
    (hsame : ∀ w arg, sameArgs w arg → ∀ ctx tx key len hash len' hash',
      sameRecord (m.contract.record ctx w len hash) (sv.record arg tx key len' hash')) :
    Agree m sv sha objectHash sameRecord calls := by
  constructor
  · rintro pre x post rfl
    exact h.decisions
  · exact h.ordered sha objectHash
  · exact h.records hsame

end Mirror

/-! ### The three pairs -/

/-- The texts of a log, for the contract in bytes. -/
structure StoreWrite.Same (w : StoreWrite) (arg : WriteLog) : Prop where
  message : w.message = textBytes arg.message
  metadataJson : w.metadataJson = textBytes arg.metadataJson

structure StoreRecord.Same (r : StoreRecord) (r' : LogRecord) : Prop where
  message : r.message = textBytes r'.message
  metadataJson : r.metadataJson = textBytes r'.metadataJson

structure BatchStoreWrite.Same (w : BatchStoreWrite) (arg : WriteBatch) : Prop where
  startId : w.startId = textBytes arg.startId
  endId : w.endId = textBytes arg.endId
  count : w.count = arg.count
  debugCount : w.debugCount = arg.debugCount
  infoCount : w.infoCount = arg.infoCount
  warnCount : w.warnCount = arg.warnCount
  errorCount : w.errorCount = arg.errorCount
  criticalCount : w.criticalCount = arg.criticalCount

structure BatchStoreRecord.Same (r : BatchStoreRecord) (r' : BatchRecord) : Prop where
  startId : r.startId = textBytes r'.startId
  endId : r.endId = textBytes r'.endId
  count : r.count = r'.count
  debugCount : r.debugCount = r'.debugCount
  infoCount : r.infoCount = r'.infoCount
  warnCount : r.warnCount = r'.warnCount
  errorCount : r.errorCount = r'.errorCount
  criticalCount : r.criticalCount = r'.criticalCount

/-- The contracts on the one chain and the services on the other cannot be told apart by the same
writes: not by what they accept, not by the order, not by the lengths of the histories, and not by
the messages and metadata of logs or the ids and counts of batches. -/
theorem chains_mirror (sha : Sha256) (objectHash : ObjectHash) :
    (∀ calls, Mirrored logStore logService StoreWrite.Same calls →
      Agree logStore logService sha objectHash StoreRecord.Same calls) ∧
    (∀ calls, Mirrored hashStore hashService (fun _ _ => True) calls →
      Agree hashStore hashService sha objectHash (fun _ _ => True) calls) ∧
    ∀ calls, Mirrored batchStore batchService BatchStoreWrite.Same calls →
      Agree batchStore batchService sha objectHash BatchStoreRecord.Same calls := by
  refine ⟨?_, ?_, ?_⟩
  · intro calls h
    apply h.agree
    exact fun w arg hsame _ _ _ _ _ _ _ => ⟨hsame.message, hsame.metadataJson⟩
  · intro calls h
    apply h.agree
    exact fun _ _ _ _ _ _ _ _ _ _ => trivial
  · intro calls h
    apply h.agree
    exact fun w arg hsame _ _ _ _ _ _ _ => ⟨hsame.startId, hsame.endId, hsame.count,
      hsame.debugCount, hsame.infoCount, hsame.warnCount, hsame.errorCount, hsame.criticalCount⟩

/-- The hash of 32 bytes `ab`, spelled in small and in capital letters. -/
def spelledTwice : List (PairedCall StoreWrite WriteLog) :=
  let key : Bytes := List.replicate 32 0xab
  [(⟨⟨[1], 1, 1⟩, ⟨key, 0, [], [], [0x6d], []⟩⟩,
      ⟨⟨[7], some "t"⟩, ⟨hexEncode key, [], [], [], 0, ['m'], []⟩⟩),
    (⟨⟨[1], 2, 2⟩, ⟨key, 0, [], [], [0x6e], []⟩⟩,
      ⟨⟨[7], some "u"⟩, ⟨(hexEncode key).map Char.toUpper, [], [], [], 0, ['n'], []⟩⟩)]

lemma mirrored_spelledTwice : Mirrored logStore logService StoreWrite.Same spelledTwice := by
  constructor
  · intro x hx
    simp only [spelledTwice, List.mem_cons, List.not_mem_nil, or_false] at hx
    rcases hx with rfl | rfl
    · exact ⟨by decide, by decide, by decide +kernel, rfl, by decide, rfl⟩
    · exact ⟨by decide, by decide, by decide +kernel, rfl, by decide, rfl⟩
  · intro x hx y hy
    simp only [spelledTwice, List.mem_cons, List.not_mem_nil, or_false] at hx hy
    rcases hx with rfl | rfl <;> rcases hy with rfl | rfl <;> exact ⟨fun _ => rfl, fun _ => rfl⟩

theorem spelledTwice_agree (sha : Sha256) (objectHash : ObjectHash) :
    Agree logStore logService sha objectHash StoreRecord.Same spelledTwice :=
  (chains_mirror sha objectHash).1 spelledTwice mirrored_spelledTwice

end HybridLog
