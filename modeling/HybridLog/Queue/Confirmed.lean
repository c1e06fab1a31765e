import HybridLog.Queue.Settled
import HybridLog.Storage.Keys
import HybridLog.System.Columns
import HybridLog.System.Origins

/-!
# Confirmed rows

A row that is marked as confirmed should have its record on the chain. A transaction can be in a
block without effect, so what has been sent matters: `confirmed_rows_anchored` follows each status
back to a transaction whose effect is a record under the hash of the row.
-/

namespace HybridLog

open Js Async

/-! ### Records -/

/-- A store has a record under a key. -/
def State.Holds (s : State) : RecordStore → Bytes → Prop
  | .service service, key => key ∈ s.exonum.keys service
  | .contract, key => s.ethereum.store.recordExists key

/-- The store that the rows of a storage are anchored in has a record under a hash in
hexadecimal. -/
def State.Anchored (s : State) (mode : HybridMode) (hash : JsString) : Prop :=
  ∃ key, toHex key = hash ∧ s.Holds mode.anchor.store key

/-- What is marked as confirmed is anchored: rows by their content hash, batches by their root. -/
structure ConfirmedAnchored (s : State) : Prop where
  logs : ∀ db mode, ∀ row ∈ (s.dbs db).logs mode.logTable, row.anchorStatus = some .confirmed →
    s.Anchored mode row.contentHash
  batches : ∀ db side, ∀ row ∈ (s.dbs db).batches side, row.anchorStatus = .confirmed →
    s.Anchored (.batched side) row.merkleRoot

variable {cfg : ServerConfig} {objectHash : ObjectHash}

/-! ### The chains of a run -/

lemma Effect.chains {s s' : State} {e : Req} {r : e.Answer} (h : Effect s e r s')
    (hexonum : s.exonum.Ok) (hethereum : s.ethereum.Ok) : s'.exonum.Ok ∧ s'.ethereum.Ok := by
  cases h with
  | submitExonum h => exact ⟨hexonum.submit h, hethereum⟩
  | submitEthereum h => exact ⟨hexonum, hethereum.send h⟩
  | _ => exact ⟨hexonum, hethereum⟩

lemma State.accept_chains {x : External} {s s' : State}
    {ps : List (Tag × Prog Req Req.Answer Unit)} (h : s.accept cfg objectHash x = some (s', ps))
    (hexonum : s.exonum.Ok) (hethereum : s.ethereum.Ok) : s'.exonum.Ok ∧ s'.ethereum.Ok := by
  cases x with
  | chain x =>
    obtain ⟨s₁, hs, heq⟩ := Option.map_eq_some_iff.mp h
    cases heq
    cases x with
    | commit txHash =>
      obtain ⟨n, hn, rfl⟩ := Option.map_eq_some_iff.mp hs
      exact ⟨hexonum.commit hn, hethereum⟩
    | nextBlock timestamp =>
      obtain ⟨c, hc, rfl⟩ := Option.map_eq_some_iff.mp hs
      exact ⟨hexonum, hethereum.nextBlock hc⟩
    | mine txHash status =>
      obtain ⟨c, hc, rfl⟩ := Option.map_eq_some_iff.mp hs
      exact ⟨hexonum, hethereum.mine hc⟩
  | _ =>
    simp only [State.accept] at h
    split at h
    · cases h
      exact ⟨hexonum, hethereum⟩
    · cases h

theorem chains_ok {c : RedeliveryConfig} (h : Reach (atLeastOnce cfg objectHash) .start c) :
    c.world.state.exonum.Ok ∧ c.world.state.ethereum.Ok := by
  induction h with
  | refl => exact ⟨.empty, .genesis⟩
  | tail _ hstep ih =>
    cases hstep with
    | call hs =>
      rcases State.apply_eq_some hs with ⟨-, rfl⟩ | ⟨-, -, hs⟩
      · rename_i t _ _ _ _
        cases t <;> exact ih
      · exact (State.answer_effect hs).chains ih.1 ih.2
    | fork | left | right | done => exact ih
    | ext hs =>
      rcases atLeastOnce_accept cfg objectHash hs with ⟨y, rfl, hy⟩ | ⟨seq, msg, rfl, hr, rfl⟩
      · exact State.accept_chains hy ih.1 ih.2
      · obtain ⟨-, rfl⟩ := requeue_eq_some hr
        exact ih

/-- A call of the contract that the chain calls confirmed has left its record. -/
lemma record_of_seen {c : RedeliveryConfig} (h : Reach (atLeastOnce cfg objectHash) .start c)
    {t t' : Tag} {tx : EthereumTx} {txHash : TxHash}
    (hs : Did t (.submit (.ethereum tx)) (Except.ok txHash) c.world.trace)
    (hseen : SeenConfirmed t' c.world.trace txHash .ethereum) :
    c.world.state.ethereum.store.recordExists tx.call.contentHash ∧
      (c.world.state.ethereum.store.logs tx.call.contentHash).message = tx.call.message ∧
      (c.world.state.ethereum.store.logs tx.call.contentHash).metadataJson =
        tx.call.metadataJson := by
  have hmarked := (atLeastOnce_faithful cfg objectHash).marked h hs
  have hexecuted {r : Receipt}
      (hr : c.world.state.ethereum.receipts.lookup txHash = some r) (hstatus : r.status = true) :
      c.world.state.ethereum.store.recordExists tx.call.contentHash ∧
        (c.world.state.ethereum.store.logs tx.call.contentHash).message = tx.call.message ∧
        (c.world.state.ethereum.store.logs tx.call.contentHash).metadataJson =
          tx.call.metadataJson := by
    obtain ⟨tx', htx', hrecord⟩ := (chains_ok h).2.executed txHash r hr hstatus
    obtain rfl : tx = tx' := Option.some.inj (hmarked.symm.trans htx')
    exact hrecord
  cases hseen with
  | waited hw =>
    obtain ⟨r, hr, hstatus⟩ := (atLeastOnce_faithful cfg objectHash).marked h hw
    exact hexecuted hr hstatus
  | receipt hr hstatus =>
    obtain ⟨r', hr', heq⟩ := (atLeastOnce_faithful cfg objectHash).marked h hr
    exact hexecuted hr' (heq.trans hstatus)

/-- A transaction that the chain calls confirmed has left its record. -/
lemma holds_of_seen {c : RedeliveryConfig} (h : Reach (atLeastOnce cfg objectHash) .start c)
    {t t' : Tag} {tx : ChainTx} {txHash : TxHash} {key : Bytes}
    (hs : Did t (.submit tx) (Except.ok txHash) c.world.trace)
    (hseen : SeenConfirmed t' c.world.trace txHash tx.chain) (hkey : tx.key? = some key) :
    c.world.state.Holds tx.store key := by
  cases tx with
  | exonum tx =>
    have hmarked := (atLeastOnce_faithful cfg objectHash).marked h hs
    cases hseen with
    | committed hc =>
      obtain ⟨tx', htx', hkeys⟩ := (chains_ok h).1.executed txHash
        ((atLeastOnce_faithful cfg objectHash).marked h hc)
      obtain rfl : tx = tx' := Option.some.inj (hmarked.symm.trans htx')
      exact hkeys key hkey
  | ethereum tx =>
    cases hkey
    exact (record_of_seen h hs hseen).1

/-! ### Transactions behind a message -/

lemma AnchorOutcome.sent {T X : Type} {t : T} {tr : Trace Req Req.Answer T X} {chain : Chain}
    {payload : Payload} {opts : Option WriteOpts} {success : Bool} {txHash : TxHash}
    {confirmed : Option Bool}
    (h : AnchorOutcome chain payload opts t tr success (some txHash) confirmed) :
    ∃ tx, payload tx ∧ Did t (.submit tx) (Except.ok txHash) tr := by
  cases h with
  | submitted h hs _ => exact ⟨_, h, hs⟩
  | confirmed h hs _ _ => exact ⟨_, h, hs⟩
  | givenUp h hs _ _ _ => exact ⟨_, h, hs⟩

/-- A storage that has been told not to wait confirms nothing. -/
lemma AnchorOutcome.seen {T X : Type} {t : T} {tr : Trace Req Req.Answer T X} {chain : Chain}
    {payload : Payload} {opts : Option WriteOpts} {success : Bool} {txId : Option TxHash}
    {confirmed : Option Bool} (h : AnchorOutcome chain payload opts t tr success txId confirmed)
    (hstatus : statusOf confirmed success = .confirmed) : submitOnly opts = false ∧
      ∃ tx txHash, payload tx ∧ Did t (.submit tx) (Except.ok txHash) tr ∧
        SeenConfirmed t tr txHash chain := by
  cases h with
  | confirmed h hs ho hc => exact ⟨ho, _, _, h, hs, hc⟩
  | unsent | refused | submitted | givenUp | lost => cases hstatus

/-- A transaction for one row was sent, after the row had been inserted. -/
def LogSent (cfg : ServerConfig) (tr : RedeliveryTrace) (db : Db) (mode : HybridMode)
    (id : JsString) (txHash : TxHash) : Prop :=
  ∃ t entry tx, entry.Fresh ∧ entry.id = id ∧
    Did t (.insert db mode.logTable (HybridStorage.logRow cfg db mode entry)) (Except.ok ()) tr ∧
    mode.anchor.logPayload cfg entry tx ∧ Did t (.submit tx) (Except.ok txHash) tr

/-- A transaction for a batch was sent. -/
def BatchSent (cfg : ServerConfig) (tr : RedeliveryTrace) (side : Side) (root : JsString)
    (txHash : TxHash) : Prop :=
  ∃ (t : Tag) (entries : List LogEntry) (tx : ChainTx), (∀ e ∈ entries, e.Fresh) ∧
    entries.length ≤ batchSize ∧ cfg.sha.computeBatchHash entries = root ∧
    (HybridMode.batched side).anchor.batchPayload cfg entries tx ∧
    Did t (.submit tx) (Except.ok txHash) tr

lemma LogSent.later {tr tr' : RedeliveryTrace} {db : Db} {mode : HybridMode} {id : JsString}
    {txHash : TxHash} (h : LogSent cfg tr db mode id txHash) (htr : tr <+: tr') :
    LogSent cfg tr' db mode id txHash := by
  obtain ⟨t, entry, tx, hfresh, hid, hi, hp, hs⟩ := h
  exact ⟨t, entry, tx, hfresh, hid, hi.later htr, hp, hs.later htr⟩

lemma BatchSent.later {tr tr' : RedeliveryTrace} {side : Side} {root : JsString} {txHash : TxHash}
    (h : BatchSent cfg tr side root txHash) (htr : tr <+: tr') :
    BatchSent cfg tr' side root txHash := by
  obtain ⟨t, entries, tx, hfresh, hlen, hroot, hp, hs⟩ := h
  exact ⟨t, entries, tx, hfresh, hlen, hroot, hp, hs.later htr⟩

section Storages

variable {t : Tag} {tr : RedeliveryTrace} {opts : Option WriteOpts} {db : Db} {mode : HybridMode}
  {txHash : TxHash}

lemma Storage.LogResult.logSent {entry : LogEntry} {r : WriteResult}
    (h : Storage.LogResult cfg opts entry t tr (.hybrid db mode.anchor mode) r)
    (hfresh : entry.Fresh) (htx : r.txId = some txHash) :
    r.logId = entry.id ∧ LogSent cfg tr db mode entry.id txHash := by
  cases h with
  | hybrid h => cases h with
    | written hi ho _ =>
      cases htx
      obtain ⟨tx, hp, hs⟩ := ho.sent
      exact ⟨rfl, t, entry, tx, hfresh, rfl, hi, hp, hs⟩
    | notInserted _ | notUpdated _ _ _ => cases htx

lemma Storage.BatchResult.batchSent {side : Side} {entries : List LogEntry} {r : BatchWriteResult}
    (h : Storage.BatchResult cfg opts entries t tr
      (.hybrid db (HybridMode.batched side).anchor (.batched side)) r)
    (hfresh : ∀ e ∈ entries, e.Fresh) (hlen : entries.length ≤ batchSize)
    (htx : r.txId = some txHash) : BatchSent cfg tr side r.batchHash txHash := by
  cases h with
  | hybrid h => cases h with
    | written _ _ ho _ =>
      cases htx
      obtain ⟨tx, hp, hs⟩ := ho.sent
      exact ⟨t, entries, tx, hfresh, hlen, rfl, hp, hs⟩
    | empty | notInserted _ _ | notRecorded _ _ | notLinked _ _ | notUpdated _ _ _ => cases htx

end Storages

/-- A message about a transaction of a strategy. -/
structure ConfirmMessage.Of (msg : ConfirmMessage) (s : LogStrategy) (db : Db) : Prop where
  strategy : msg.strategy = s
  chain : msg.chain = s.chainFor
  db : msg.db = db
  dbTable : msg.dbTable = if s.isBatch then s.batchedTableFor else s.anchoredTableFor
  batchesTable : msg.batchesTable = if s.isBatch then some s.batchesTableFor else none

/-- What a message to a confirm queue of a hybrid strategy tells. -/
inductive Sent (cfg : ServerConfig) (tr : RedeliveryTrace) (msg : ConfirmMessage) : Prop
  | log {mode : HybridMode} (h : LogSent cfg tr msg.db mode msg.logId msg.txHash)
    (hchain : msg.chain = mode.anchor.chain) (htable : msg.dbTable = mode.logTable)
    (hbatch : ∀ s, mode = .batched s → msg.UpdatesBatch msg.strategy s) : Sent cfg tr msg
  | batch {side : Side} (h : BatchSent cfg tr side msg.logId msg.txHash)
    (hchain : msg.chain = (HybridMode.batched side).anchor.chain)
    (hbatch : msg.UpdatesBatch msg.strategy side) : Sent cfg tr msg

lemma Sent.later {tr tr' : RedeliveryTrace} {msg : ConfirmMessage} (h : Sent cfg tr msg)
    (htr : tr <+: tr') : Sent cfg tr' msg := by
  cases h with
  | log h hchain htable hbatch => exact .log (h.later htr) hchain htable hbatch
  | batch h hchain hbatch => exact .batch (h.later htr) hchain hbatch

/-- The message of a storage for batches names the table of the batches. -/
lemma Wired.updatesBatch {msg : ConfirmMessage} {s : LogStrategy} {db db' : Db} {anchor : Anchor}
    {side : Side} (hwired : Wired cfg s db db' anchor (.batched side)) (hmsg : msg.Of s db) :
    msg.UpdatesBatch msg.strategy side := by
  have hlog := hwired.logTable
  have hbatches := hwired.batchesTable
  rw [ConfirmMessage.UpdatesBatch, hmsg.strategy, hmsg.batchesTable, ← hbatches]
  cases hbatch : s.isBatch with
  | false =>
    rw [hbatch] at hlog
    cases hlog
  | true => exact ⟨rfl, rfl⟩

/-- The message of a storage is about the row the storage has written. -/
lemma Sent.ofLog {tr : RedeliveryTrace} {msg : ConfirmMessage} {s : LogStrategy} {db : Db}
    {mode : HybridMode} (hwired : Wired cfg s db db mode.anchor mode) (hmsg : msg.Of s db)
    (h : LogSent cfg tr db mode msg.logId msg.txHash) : Sent cfg tr msg := by
  rw [← hmsg.db] at h
  apply Sent.log h
  · rw [hmsg.chain, hwired.chain]
  · rw [hmsg.dbTable, hwired.logTable]
  · rintro side rfl
    exact hwired.updatesBatch hmsg

lemma Sent.ofBatch {tr : RedeliveryTrace} {msg : ConfirmMessage} {s : LogStrategy} {db : Db}
    {side : Side} (hwired : Wired cfg s db db (HybridMode.batched side).anchor (.batched side))
    (hmsg : msg.Of s db) (h : BatchSent cfg tr side msg.logId msg.txHash) : Sent cfg tr msg := by
  apply Sent.batch h
  · rw [hmsg.chain, hwired.chain]
  · exact hwired.updatesBatch hmsg

/-- A hybrid strategy and its storage. -/
lemma exists_wired {s : LogStrategy} {db : Db} {st : Storage}
    (h : pickStorage cfg (some (.strategy s)) db = some st) (hs : s.isHybrid = true) :
    ∃ mode, st = .hybrid db mode.anchor mode ∧ Wired cfg s db db mode.anchor mode := by
  obtain ⟨db', anchor, mode, rfl⟩ := pickStorage_of_isHybrid h hs
  obtain ⟨rfl, rfl⟩ := pickStorage_anchor h
  exact ⟨mode, rfl, pickStorage_hybrid cfg h⟩

/-- What a flush hands over. -/
lemma FlushResult.sent {key : WriterKey} {batch : List PendingEntry} {t : Tag} {s : LogStrategy}
    {r : BatchWriteResult} {txHash : TxHash} {enqueuedAt : ℕ} {tr : RedeliveryTrace}
    (h : FlushResult cfg key batch t tr (.batch r)) (hkey : key.strategy = .strategy s)
    (htx : r.txId = some txHash) (hfresh : FreshBatch batch) (hs : s.isHybrid = true) :
    Sent cfg tr (flushMessage key s r txHash enqueuedAt) := by
  cases h with
  | batch hst h =>
    rw [WriterKey.storage, hkey] at hst
    obtain ⟨mode, rfl, hwired⟩ := exists_wired hst hs
    have hentries : ∀ e ∈ batch.map PendingEntry.entry, e.Fresh := by
      intro e he
      obtain ⟨p, hp, rfl⟩ := List.mem_map.mp he
      exact hfresh.fresh p hp
    have hlen : (batch.map PendingEntry.entry).length ≤ batchSize := by
      rw [List.length_map]
      exact hfresh.length
    cases mode with
    | anchored side => cases h
    | batched side =>
      apply Sent.ofBatch hwired ⟨rfl, rfl, rfl, rfl, rfl⟩
      exact h.batchSent hentries hlen htx

/-- What the handler of a submit message hands over. -/
lemma HandsOver.sent {msg : SubmitMessage} {t : Tag} {tr : RedeliveryTrace} {logId : JsString}
    {txHash : TxHash} (h : HandsOver cfg msg.strategy msg t tr logId txHash) (hfresh : msg.Fresh)
    (hs : msg.strategy.isHybrid = true) :
    Sent cfg tr (confirmMessage msg.strategy msg logId txHash) := by
  obtain ⟨e, he, hbody⟩ := hfresh
  obtain ⟨hwritten⟩ := h
  rw [hbody] at hwritten
  generalize hw : (⟨some txHash, false, logId⟩ : Submitted) = w at hwritten
  cases hwritten with
  | @entry st _ r hst h =>
    obtain ⟨mode, rfl, hwired⟩ := exists_wired hst hs
    obtain ⟨htx, -, hid⟩ := Submitted.mk.inj hw
    obtain ⟨hlog, hsent⟩ := h.logSent he.queued htx.symm
    apply Sent.ofLog hwired ⟨rfl, rfl, rfl, rfl, rfl⟩
    show LogSent cfg tr msg.db mode logId txHash
    rw [hid, hlog]
    exact hsent

/-- Whatever is handed over for a hybrid strategy has been sent. -/
lemma ServerStep.sent {t : Tag} {msg : ConfirmMessage} {tr : RedeliveryTrace}
    (h : ServerStep .server cfg t (.publishConfirm msg) tr) (hfresh : t.Fresh)
    (hs : msg.strategy.isHybrid = true) (hevents : ∀ ev ∈ tr, FreshEvent ev) : Sent cfg tr msg := by
  cases h.own (by simp [Req.OfStorage]) with
  | flushed hf hkey hres htx => exact FlushResult.sent hres hkey htx (hf.fresh hevents) hs
  | handOver hover => exact HandsOver.sent hover hfresh hs

/-! ### Who confirms -/

/-- The request has a log written to the batch service, and waits for the transaction. -/
def PostRequest.AwaitsBatchService (cfg : ServerConfig) (req : PostRequest) (db : Db) : Prop :=
  req.writeMode ≠ .batch ∧ req.queuedMode? cfg = none ∧
    pickStorage cfg req.storageMode req.db = some (.hybrid db (.exonum .batch) (.batched .priv))

instance (req : PostRequest) (db : Db) : Decidable (req.AwaitsBatchService cfg db) :=
  inferInstanceAs (Decidable (_ ∧ _ ∧ _))

/-- What stands behind a row that is marked as confirmed. -/
def LogConfirmed (cfg : ServerConfig) (tr : RedeliveryTrace) (db : Db) (table : LogTable)
    (id : JsString) : Prop :=
  ∃ (mode : HybridMode) (t : Tag) (txHash : TxHash), table = mode.logTable ∧
    LogSent cfg tr db mode id txHash ∧ SeenConfirmed t tr txHash mode.anchor.chain ∧
    (mode = .batched .priv → ∃ req id timestamp,
      .ext (.server (.post req id timestamp)) ∈ tr ∧ req.AwaitsBatchService cfg db)

/-- What stands behind the record of a batch that is marked as confirmed, unless the record is that
of a log. -/
def BatchConfirmed (cfg : ServerConfig) (tr : RedeliveryTrace) (side : Side) (root : JsString) :
    Prop :=
  root.length = 36 ∨ ∃ (t : Tag) (txHash : TxHash), BatchSent cfg tr side root txHash ∧
    SeenConfirmed t tr txHash (HybridMode.batched side).anchor.chain

/-- The writers of hybrid storages do not wait. -/
lemma WriterKey.submitOnly_opts {key : WriterKey} {db : Db} {anchor : Anchor} {mode : HybridMode}
    (h : key.storage cfg = some (.hybrid db anchor mode)) : submitOnly key.opts = true := by
  have hchain : key.strategy.isChainStrategy = true := by
    rw [StorageMode.isChainStrategy, decide_eq_true_iff]
    intro hoff
    rw [WriterKey.storage, hoff] at h
    cases (pickStorage_ofDb cfg h).1
  rw [WriterKey.opts, if_pos hchain]
  rfl

section Confirms

variable {t : Tag} {tr : RedeliveryTrace} {db : Db} {table : LogTable} {side : Side}
  {id root : JsString} {st : AnchorStatus} {txHash : Option TxHash} {anchoredAt : Option ℕ}

/-- A storage confirms a row only if it has waited for the transaction. -/
lemma Storage.LogStep.confirms {opts : Option WriteOpts} {entry : LogEntry} {storage : Storage}
    (h : Storage.LogStep cfg opts entry t storage
      (.updateAnchorStatus db table id st txHash anchoredAt) tr) (hst : st = .confirmed) :
    submitOnly opts = false ∧ ∃ anchor mode, storage = .hybrid db anchor mode ∧
      table = mode.logTable ∧ id = entry.id ∧ (entry.Fresh → anchor = mode.anchor →
        ∃ txHash, LogSent cfg tr db mode id txHash ∧ SeenConfirmed t tr txHash anchor.chain) := by
  cases h with
  | chain h => cases h with
    | looks h => exact h.elim
  | hybrid h => cases h with
    | anchor _ h => cases h with
      | looks h => exact h.elim
    | update hi ho =>
      obtain ⟨hopts, tx, txHash, hp, hs, hseen⟩ := ho.seen hst
      refine ⟨hopts, _, _, rfl, rfl, rfl, ?_⟩
      rintro hfresh rfl
      exact ⟨txHash, ⟨t, entry, tx, hfresh, rfl, hi, hp, hs⟩, hseen⟩

/-- The record of a batch is not a log. -/
lemma Storage.BatchStep.no_log {opts : Option WriteOpts} {entries : List LogEntry}
    {storage : Storage} (h : Storage.BatchStep cfg opts entries t storage
      (.updateAnchorStatus db table id st txHash anchoredAt) tr) : False := by
  cases h with
  | chain h => cases h with
    | looks h => exact h
  | @hybrid db' _ _ _ _ h => cases h with
    | link _ h => cases db' with
      | postgres => cases h
      | mongo =>
        obtain ⟨_, _, _, heq⟩ := h
        cases heq
    | anchor _ h => cases h with
      | looks h => exact h

/-- Flushes confirm no row. -/
lemma FlushStep.not_confirms {key : WriterKey} {batch : List PendingEntry}
    (h : FlushStep cfg key batch t (.updateAnchorStatus db table id st txHash anchoredAt) tr) :
    st ≠ .confirmed := by
  intro hst
  cases h with
  | batch _ h => exact h.no_log
  | log hkey _ _ h =>
    obtain ⟨hopts, anchor, mode, rfl, -⟩ := h.confirms hst
    rw [WriterKey.submitOnly_opts hkey] at hopts
    cases hopts

/-- A storage confirms a batch only if it has waited for the transaction. -/
lemma Storage.BatchStep.confirms {opts : Option WriteOpts} {entries : List LogEntry}
    {storage : Storage} (h : Storage.BatchStep cfg opts entries t storage
      (.updateBatchAnchorStatus db side root st txHash anchoredAt) tr) (hst : st = .confirmed) :
    submitOnly opts = false ∧ ∃ anchor mode, storage = .hybrid db anchor mode := by
  cases h with
  | chain h => cases h with
    | looks h => exact h.elim
  | @hybrid db' _ _ _ _ h => cases h with
    | link _ h => cases db' with
      | postgres => cases h
      | mongo =>
        obtain ⟨_, _, _, heq⟩ := h
        cases heq
    | anchor _ h => cases h with
      | looks h => exact h.elim
    | update _ ho => exact ⟨(ho.seen hst).1, _, _, rfl⟩

/-- A log is not the record of a batch. -/
lemma Storage.LogStep.no_batch {opts : Option WriteOpts} {entry : LogEntry} {storage : Storage}
    (h : Storage.LogStep cfg opts entry t storage
      (.updateBatchAnchorStatus db side root st txHash anchoredAt) tr) : False := by
  cases h with
  | chain h => cases h with
    | looks h => exact h
  | hybrid h => cases h with
    | anchor _ h => cases h with
      | looks h => exact h

lemma FlushStep.not_confirms_batch {key : WriterKey} {batch : List PendingEntry}
    (h : FlushStep cfg key batch t (.updateBatchAnchorStatus db side root st txHash anchoredAt) tr) :
    st ≠ .confirmed := by
  intro hst
  cases h with
  | batch hkey h =>
    obtain ⟨hopts, anchor, mode, rfl⟩ := h.confirms hst
    rw [WriterKey.submitOnly_opts hkey] at hopts
    cases hopts
  | log _ _ _ h => exact h.no_batch

/-- The handlers of submit messages confirm nothing. -/
lemma WriteStep.not_confirms {storage : Option Storage} {body : SubmitBody}
    (h : WriteStep cfg storage t body (.updateAnchorStatus db table id st txHash anchoredAt) tr) :
    st ≠ .confirmed := by
  intro hst
  cases h with
  | entry _ h => cases (h.confirms hst).1
  | entries _ h => exact h.no_log

lemma WriteStep.not_confirms_batch {storage : Option Storage} {body : SubmitBody}
    (h : WriteStep cfg storage t body
      (.updateBatchAnchorStatus db side root st txHash anchoredAt) tr) : st ≠ .confirmed := by
  intro hst
  cases h with
  | entry _ h => exact h.no_batch
  | entries _ h => cases (h.confirms hst).1

end Confirms

section Confirmed

variable {c : RedeliveryConfig} {t : Tag} {tr : RedeliveryTrace} {db : Db} {table : LogTable}
  {side : Side} {id root : JsString} {st : AnchorStatus} {txHash : Option TxHash}
  {anchoredAt : Option ℕ}

lemma TxCheck.confirmed_of_status {r : TxCheck} (h : r.status = .confirmed) :
    r.confirmed = true := by
  rw [TxCheck.status] at h
  split at h
  · assumption
  · split at h <;> cases h

/-- What the broker delivers to the handler of a hybrid strategy has been sent. -/
lemma sent_of_delivered (h : Reach (atLeastOnce cfg objectHash) .start c)
    (hposts : FromPosts c.world.state c.world.trace) {seq : ℕ} {msg : ConfirmMessage}
    (hx : .ext (.server (.deliverConfirm seq msg)) ∈ c.world.trace)
    (hs : msg.strategy.isHybrid = true) : Sent cfg c.world.trace msg := by
  obtain ⟨t, pre, post, heq, -⟩ := (delivers h).delivered seq msg hx
  have hstep := atLeastOnce_guarded h pre t _ _ post heq
  have hpre : pre <+: c.world.trace := ⟨_, heq.symm⟩
  apply Sent.later _ hpre
  apply hstep.sent (hstep.begun.later hpre |>.fresh hposts) hs
  exact fun ev hev => hposts.events ev (hpre.subset hev)

/-- Who marks a row as confirmed knows a transaction about it that is confirmed. -/
lemma ServerStep.confirmsLog (h : Reach (atLeastOnce cfg objectHash) .start c)
    (hposts : FromPosts c.world.state c.world.trace) (htr : tr <+: c.world.trace)
    (hstep : ServerStep .server cfg t (.updateAnchorStatus db table id st txHash anchoredAt) tr)
    (hst : st = .confirmed) : LogConfirmed cfg c.world.trace db table id := by
  have hbegun := hstep.begun.later htr
  have hfresh := hbegun.fresh hposts
  replace hstep := hstep.step
  cases t with
  | post req entry => cases hstep with
    | flush _ _ _ h => exact absurd hst h.not_confirms
    | @write storage _ _ hm hm' hst' h =>
      obtain ⟨-, anchor, mode, rfl, rfl, rfl, hsent⟩ := h.confirms hst
      obtain ⟨rfl, rfl⟩ := pickStorage_anchor hst'
      obtain ⟨txHash, hsent, hseen⟩ := hsent hfresh rfl
      refine ⟨mode, _, txHash, rfl, hsent.later htr, hseen.later htr, ?_⟩
      rintro rfl
      cases hbegun with
      | post hx => exact ⟨req, _, _, hx, hm', hm, hst'⟩
  | flush key batch => exact absurd hst (FlushStep.not_confirms hstep)
  | submit seq msg => cases hstep with
    | write h => exact absurd hst h.not_confirms
  | confirm seq msg => cases hstep with
    | update hu => cases hu with
      | looks h => exact h.elim
      | @log r _ _ hs hp hb =>
        have hseen := (hp.seenConfirmed (TxCheck.confirmed_of_status hst)).later htr
        cases hbegun with
        | confirm hx => cases sent_of_delivered h hposts hx hs with
          | @log mode hsent hchain htable hbatch =>
            rw [hchain] at hseen
            refine ⟨mode, _, _, htable, hsent, hseen, ?_⟩
            rintro rfl
            exact absurd ⟨_, hbatch _ rfl⟩ hb
          | batch _ _ hbatch => exact absurd ⟨_, hbatch⟩ hb

/-- Who marks the record of a batch as confirmed knows a transaction about it that is confirmed. -/
lemma ServerStep.confirmsBatch (h : Reach (atLeastOnce cfg objectHash) .start c)
    (hposts : FromPosts c.world.state c.world.trace) (htr : tr <+: c.world.trace)
    (hstep : ServerStep .server cfg t
      (.updateBatchAnchorStatus db side root st txHash anchoredAt) tr)
    (hst : st = .confirmed) : BatchConfirmed cfg c.world.trace side root := by
  have hbegun := hstep.begun.later htr
  replace hstep := hstep.step
  cases t with
  | post req entry => cases hstep with
    | flush _ _ _ h => exact absurd hst h.not_confirms_batch
    | write _ _ _ h => exact h.no_batch.elim
  | flush key batch => exact absurd hst (FlushStep.not_confirms_batch hstep)
  | submit seq msg => cases hstep with
    | write h => exact absurd hst h.not_confirms_batch
  | confirm seq msg => cases hstep with
    | update hu => cases hu with
      | looks h => exact h.elim
      | batch hs hp hb =>
        have hseen := (hp.seenConfirmed (TxCheck.confirmed_of_status hst)).later htr
        cases hbegun with
        | confirm hx => cases sent_of_delivered h hposts hx hs with
          | log hsent _ _ _ =>
            obtain ⟨_, entry, _, hfresh, hid, -⟩ := hsent
            exact .inl (hid ▸ hfresh.id)
          | batch hsent hchain hbatch =>
            obtain rfl := Option.some.inj (hb.2.symm.trans hbatch.2)
            rw [hchain] at hseen
            exact .inr ⟨_, _, hsent, hseen⟩

end Confirmed

/-! ### Rows and their insertion -/

section Rows

variable {c : RedeliveryConfig} {db : Db} {table : LogTable} {side : Side}

/-- The event inserts the row, up to the columns that updates change. -/
def Inserting (db : Db) (table : LogTable) (row : LogRow)
    (ev : Event Req Req.Answer Tag Delivery) : Prop :=
  ∃ t row₀, ev = .call t (.insert db table row₀) (Except.ok ()) ∧ row.core = row₀.core

/-- Every row has been inserted. -/
lemma inserted_of_mem (h : Reach (atLeastOnce cfg objectHash) .start c) {row : LogRow}
    (hrow : row ∈ (c.world.state.dbs db).logs table) : ∃ t row₀,
      Did t (.insert db table row₀) (Except.ok ()) c.world.trace ∧ row.core = row₀.core := by
  have htraced : ∃ ev ∈ c.world.trace, Inserting db table row ev := by
    refine traced_of_mem (fun dbs => (dbs db).logs table) (Inserting db table) rfl ?_ h hrow
    intro c₁ c₂ t e r s row _ heffect _ hrow
    have hold (hmem : row.core ∈ ((c₁.world.state.dbs db).logs table).map LogRow.core) :
        ∃ old ∈ (c₁.world.state.dbs db).logs table,
          ∀ ev, Inserting db table old ev → Inserting db table row ev := by
      obtain ⟨old, hold, hcore⟩ := List.mem_map.mp hmem
      exact ⟨old, hold, fun ev ⟨t, row₀, hev, heq⟩ => ⟨t, row₀, hev, hcore.symm.trans heq⟩⟩
    have hmem := List.mem_map_of_mem (f := LogRow.core) hrow
    rcases heffect.core db table with hsame | ⟨new, heq, -, hnew⟩
    · exact .inl (hold (hsame ▸ hmem))
    · rw [hnew] at hmem
      rcases List.mem_append.mp hmem with hmem | hmem
      · exact .inl (hold hmem)
      · cases heq
        exact .inr ⟨t, new, rfl, List.mem_singleton.mp hmem⟩
  obtain ⟨ev, hev, t, row₀, rfl, hcore⟩ := htraced
  exact ⟨t, row₀, hev, hcore⟩

/-- A log is inserted with the columns of its storage, or without a status. -/
lemma ServerStep.not_inserted_confirmed {t : Tag} {row : LogRow} {tr : RedeliveryTrace}
    (h : ServerStep .server cfg t (.insert db table row) tr) :
    row.anchorStatus ≠ some .confirmed := by
  intro hst
  rcases h.insertsPending with hnone | hpending
  · rw [hnone] at hst
    cases hst
  · rw [hpending] at hst
    cases hst

/-- Behind a row that is marked as confirmed stands what `LogConfirmed` says. -/
lemma logConfirmed_of_mem (h : Reach (atLeastOnce cfg objectHash) .start c)
    (hown : Undisturbed c.world.trace) {row : LogRow}
    (hrow : row ∈ (c.world.state.dbs db).logs table) (hst : row.anchorStatus = some .confirmed) :
    db.hasStatus table = true ∧ LogConfirmed cfg c.world.trace db table row.id := by
  induction h generalizing row with
  | refl => cases hrow
  | @tail c₁ c₂ hreach hstep ih =>
    have hlater {row' : LogRow} (hmem : row' ∈ (c₁.world.state.dbs db).logs table)
        (hid : row'.id = row.id) (hstatus : row'.anchorStatus = row.anchorStatus) :
        db.hasStatus table = true ∧ LogConfirmed cfg c₂.world.trace db table row.id := by
      obtain ⟨hcol, mode, t, txHash, htable, hsent, hseen, hbatch⟩ :=
        ih (hown.mono hstep.trace_le) hmem (hstatus.trans hst)
      rw [hid] at hsent
      refine ⟨hcol, mode, t, txHash, htable, hsent.later hstep.trace_le,
        hseen.later hstep.trace_le, fun hmode => ?_⟩
      obtain ⟨req, id, timestamp, hx, hawaits⟩ := hbatch hmode
      exact ⟨req, id, timestamp, hstep.trace_le.subset hx, hawaits⟩
    rcases step_dbs hstep with hsame | ⟨t, e, r, s, heffect, hdbs, htrace⟩
    · exact hlater (hsame ▸ hrow) rfl rfl
    · have hreach' := hreach.tail hstep
      have hguard := atLeastOnce_guarded hreach' _ t e r [] htrace
      rw [hdbs] at hrow
      rcases heffect.logColumns hrow with ⟨old, hold, hid, hcols⟩ | heq |
        ⟨st, txHash, anchoredAt, heq, hcol, hcols⟩
      · exact hlater hold hid (congrArg Prod.fst hcols)
      · cases heq
        exact absurd hst hguard.not_inserted_confirmed
      · cases heq
        have hconfirmed : some st = some AnchorStatus.confirmed :=
          (congrArg Prod.fst hcols).symm.trans hst
        exact ⟨hcol, hguard.confirmsLog hreach' (from_posts hreach' hown) hstep.trace_le
          (Option.some.inj hconfirmed)⟩

/-! ### Records of batches -/

lemma Storage.BatchStep.isDigest_root {opts : Option WriteOpts} {entries : List LogEntry}
    {storage : Storage} {t : Tag} {row : BatchRow} {tr : RedeliveryTrace}
    (h : Storage.BatchStep cfg opts entries t storage (.insertBatchRecord db side row) tr)
    (hfresh : ∀ e ∈ entries, e.Fresh) : IsDigest row.merkleRoot := by
  cases h with
  | chain h => cases h with
    | looks h => exact h.elim
  | @hybrid db' _ _ _ _ h => cases h with
    | record _ =>
      show IsDigest (cfg.sha.computeBatchHash (entries.map (LogEntry.withHash cfg.sha)))
      rw [computeBatchHash_withHash]
      exact HybridLog.isDigest_root hfresh
    | link _ h => cases db' with
      | postgres => cases h
      | mongo =>
        obtain ⟨_, _, _, heq⟩ := h
        cases heq
    | anchor _ h => cases h with
      | looks h => exact h.elim

lemma Storage.LogStep.no_record {opts : Option WriteOpts} {entry : LogEntry} {storage : Storage}
    {t : Tag} {row : BatchRow} {tr : RedeliveryTrace}
    (h : Storage.LogStep cfg opts entry t storage (.insertBatchRecord db side row) tr) : False := by
  cases h with
  | chain h => cases h with
    | looks h => exact h
  | hybrid h => cases h with
    | anchor _ h => cases h with
      | looks h => exact h

lemma FlushStep.isDigest_root {key : WriterKey} {batch : List PendingEntry} {t : Tag}
    {row : BatchRow} {tr : RedeliveryTrace}
    (h : FlushStep cfg key batch t (.insertBatchRecord db side row) tr)
    (hfresh : FreshBatch batch) : IsDigest row.merkleRoot := by
  cases h with
  | batch _ h =>
    apply h.isDigest_root
    intro e he
    obtain ⟨p, hp, rfl⟩ := List.mem_map.mp he
    exact hfresh.fresh p hp
  | log _ _ _ h => exact h.no_record.elim

/-- A record of a batch is inserted under a digest. -/
lemma ServerStep.isDigest_root {t : Tag} {row : BatchRow} {tr : RedeliveryTrace}
    (h : ServerStep .server cfg t (.insertBatchRecord db side row) tr) (hfresh : t.Fresh)
    (hbuffered : ∀ key entry promise batch,
      Did t (.buffer key entry) (promise, batch) tr → FreshBatch batch) :
    IsDigest row.merkleRoot := by
  obtain ⟨-, h⟩ := h
  cases t with
  | post req entry => cases h with
    | flush _ hb _ h => exact FlushStep.isDigest_root h (hbuffered _ _ _ _ hb)
    | write _ _ _ h => exact h.no_record.elim
  | flush key batch => exact FlushStep.isDigest_root h hfresh
  | submit seq msg => cases h with
    | write h =>
      obtain ⟨e, -, hbody⟩ := hfresh
      rw [hbody] at h
      cases h with
      | entry _ h => exact h.no_record.elim
  | confirm seq msg => cases h with
    | update h => cases h with
      | looks h => exact h.elim

/-- The roots of a run are digests. -/
lemma isDigest_of_mem (h : Reach (atLeastOnce cfg objectHash) .start c)
    (hown : Undisturbed c.world.trace) {row : BatchRow}
    (hrow : row ∈ (c.world.state.dbs db).batches side) : IsDigest row.merkleRoot := by
  induction h generalizing row with
  | refl => cases hrow
  | @tail c₁ c₂ hreach hstep ih =>
    replace ih := @ih (hown.mono hstep.trace_le)
    rcases step_dbs hstep with hsame | ⟨t, e, r, s, heffect, hdbs, htrace⟩
    · exact ih (hsame ▸ hrow)
    · have hposts := from_posts hreach (hown.mono hstep.trace_le)
      have hguard := atLeastOnce_guarded (hreach.tail hstep) _ t e r [] htrace
      rw [hdbs] at hrow
      rcases heffect.batchColumns hrow with hold | heq |
        ⟨st, txHash, anchoredAt, -, ⟨old, hold, hroot⟩, -⟩
      · exact ih hold
      · cases heq
        exact hguard.isDigest_root (hguard.begun.fresh hposts) fun _ _ _ _ hd =>
          hposts.events _ hd
      · rw [← hroot]
        exact ih hold

/-- Behind the record of a batch that is marked as confirmed stands what `BatchConfirmed` says. -/
lemma batchConfirmed_of_mem (h : Reach (atLeastOnce cfg objectHash) .start c)
    (hown : Undisturbed c.world.trace) {row : BatchRow}
    (hrow : row ∈ (c.world.state.dbs db).batches side) (hst : row.anchorStatus = .confirmed) :
    BatchConfirmed cfg c.world.trace side row.merkleRoot := by
  induction h generalizing row with
  | refl => cases hrow
  | @tail c₁ c₂ hreach hstep ih =>
    have hlater (hmem : row ∈ (c₁.world.state.dbs db).batches side) :
        BatchConfirmed cfg c₂.world.trace side row.merkleRoot := by
      rcases ih (hown.mono hstep.trace_le) hmem hst with hid | ⟨t, txHash, hsent, hseen⟩
      · exact .inl hid
      · exact .inr ⟨t, txHash, hsent.later hstep.trace_le, hseen.later hstep.trace_le⟩
    rcases step_dbs hstep with hsame | ⟨t, e, r, s, heffect, hdbs, htrace⟩
    · exact hlater (hsame ▸ hrow)
    · have hreach' := hreach.tail hstep
      have hguard := atLeastOnce_guarded hreach' _ t e r [] htrace
      rw [hdbs] at hrow
      rcases heffect.batchColumns hrow with hold | heq | ⟨st, txHash, anchoredAt, heq, -, hcols⟩
      · exact hlater hold
      · cases heq
        have hpending := hguard.insertsPending
        rw [Req.InsertsPending, hst] at hpending
        cases hpending
      · cases heq
        exact hguard.confirmsBatch hreach' (from_posts hreach' hown) hstep.trace_le
          ((congrArg Prod.fst hcols).symm.trans hst)

/-! ### Confirmed means anchored -/

/-- A confirmed transaction that writes a hash has anchored it. -/
lemma anchored_of_seen (h : Reach (atLeastOnce cfg objectHash) .start c) {t t' : Tag}
    {tx : ChainTx} {txHash : TxHash} {mode : HybridMode} {hash : JsString}
    (hs : Did t (.submit tx) (Except.ok txHash) c.world.trace)
    (hseen : SeenConfirmed t' c.world.trace txHash mode.anchor.chain)
    (hrecords : tx.Records mode.anchor hash) (hdigest : IsDigest hash) :
    c.world.state.Anchored mode hash := by
  rw [← hrecords.chain] at hseen
  refine ⟨bufferFromHex hash, hdigest.toHex_bufferFromHex, ?_⟩
  rw [← hrecords.store]
  exact holds_of_seen h hs hseen hrecords.key

/-- In a run of the server whose entries come from requests, none of which has a log written to the
batch service at once and marked in MongoDB, whatever is marked as confirmed is anchored. -/
theorem confirmed_rows_anchored (h : Reach (atLeastOnce cfg objectHash) .start c)
    (hown : Undisturbed c.world.trace)
    (hposts : ∀ req id timestamp, .ext (.server (.post req id timestamp)) ∈ c.world.trace →
      ¬req.AwaitsBatchService cfg .mongo) : ConfirmedAnchored c.world.state := by
  constructor
  · intro db mode row hrow hst
    obtain ⟨hcol, mode', t, txHash, htable, hsent, hseen, hbatch⟩ :=
      logConfirmed_of_mem h hown hrow hst
    obtain rfl : mode = mode' := by
      cases mode <;> cases mode' <;> cases htable <;> rfl
    have hmode : mode ≠ .batched .priv := by
      rintro rfl
      obtain ⟨req, id, timestamp, hx, hawaits⟩ := hbatch rfl
      cases db with
      | postgres => cases hcol
      | mongo => exact hposts req id timestamp hx hawaits
    obtain ⟨t', entry, tx, hfresh, hid, hi, hp, hs⟩ := hsent
    obtain ⟨t₀, row₀, hi₀, hcore⟩ := inserted_of_mem h hrow
    have hid₀ : row₀.id = (HybridStorage.logRow cfg db mode entry).id :=
      (LogRow.core_eq hcore).1.symm.trans hid.symm
    obtain ⟨-, rfl⟩ := (atLeastOnce_faithful cfg objectHash).insert_unique h hi₀ hi hid₀
    have hhash : row.contentHash = cfg.sha.leafHash entry := (LogRow.core_eq hcore).2
    rw [hhash]
    exact anchored_of_seen h hs hseen (records_of_logPayload hmode hfresh hp)
      (hfresh.isDigest cfg.sha)
  · intro db side row hrow hst
    have hdigest := isDigest_of_mem h hown hrow
    rcases batchConfirmed_of_mem h hown hrow hst with hid | ⟨t, txHash, hsent, hseen⟩
    · have hlen := hdigest.length
      omega
    · obtain ⟨t', entries, tx, hfresh, hlen, hroot, hp, hs⟩ := hsent
      rw [← hroot] at hdigest ⊢
      have hlen' : entries.length < 2 ^ 32 := hlen.trans_lt (by decide)
      exact anchored_of_seen h hs hseen (records_of_batchPayload hfresh hlen' hp) hdigest

end Rows

/-- A request for a strategy that waits for its transaction, to try statements on. -/
def awaitingRequest (s : LogStrategy) (db : Db) : PostRequest where
  level := infoLevel
  source := []
  message := ofString "hello"
  metadata := none
  storageMode := some (.strategy s)
  writeMode := .sync
  db := db

/-- The transaction of the request is included before its storage looks. -/
def awaitedRun (s : LogStrategy) (db : Db) : Option RedeliveryConfig :=
  (Config.start State.start).play (atLeastOnce connectedConfig fun _ => [])
    ([.ext (.server (.post (awaitingRequest s db) (List.replicate 36 0x61) .epoch))] ++
      List.replicate 3 (.act 0 State.prompt) ++ [.ext (.server (.chain (.commit "t")))] ++
      List.replicate 4 (.act 0 State.prompt))

/-- Somebody else publishes to a submit queue. -/
def enqueues : Event Req Req.Answer Tag Delivery → Bool
  | .ext (.server (.enqueue _)) => true
  | _ => false

/-- A log is written to the batch service and marked in MongoDB. -/
def awaitsBatchService (cfg : ServerConfig) : Event Req Req.Answer Tag Delivery → Bool
  | .ext (.server (.post req _ _)) => req.AwaitsBatchService cfg .mongo
  | _ => false

lemma undisturbed_of_all {tr : RedeliveryTrace} (h : ∀ ev ∈ tr, enqueues ev = false) :
    Undisturbed tr := fun _ hmsg => Bool.noConfusion (h _ hmsg)

theorem awaited_row_anchored : ∃ h : (awaitedRun .hybridPrivate .postgres).isSome,
    ∃ row ∈ (((awaitedRun .hybridPrivate .postgres).get h).world.state.dbs .postgres).logs
      (.anchored .priv), row.anchorStatus = some .confirmed ∧
        ((awaitedRun .hybridPrivate .postgres).get h).world.state.Anchored (.anchored .priv)
          row.contentHash := by
  refine ⟨rfl, ?_⟩
  have hreach := Run.of_play
    (Option.some_get (x := awaitedRun .hybridPrivate .postgres) rfl).symm
  have hanchored := (confirmed_rows_anchored hreach (undisturbed_of_all (by decide)) (by
    intro req id timestamp hx hawaits
    have hall : ∀ ev ∈ ((awaitedRun .hybridPrivate .postgres).get rfl).world.trace,
        awaitsBatchService connectedConfig ev = false := by decide
    exact of_decide_eq_false (hall _ hx) hawaits)).logs .postgres (.anchored .priv)
  obtain ⟨row, hrow, hst⟩ : ∃ row ∈ (((awaitedRun .hybridPrivate .postgres).get
      rfl).world.state.dbs .postgres).logs (.anchored .priv),
      row.anchorStatus = some .confirmed := by decide
  exact ⟨row, hrow, hst, hanchored row hrow hst⟩

/-- What the batch service is sent for the log of the request. -/
def awaitedMessage : WriteHashData where
  contentHash := connectedConfig.sha.leafHash
    ((awaitingRequest .hybridPrivateBatch .mongo).entry (List.replicate 36 0x61) .epoch)
  level := infoLevel
  messagePreview := (ofString "hello").take 256
  seed := 0

def awaitedTx : ExonumTx := ⟨.batch, encodeWriteHash awaitedMessage, []⟩

/-- The batch service makes nothing of it. -/
lemma execute_awaitedTx (n : Exonum) : n.execute (fun _ => []) "t" awaitedTx = n := by
  have hslots : EncodableSlots awaitedMessage.slots := by decide +kernel
  have hnone : WriteBatch.decode awaitedTx.args = none :=
    decode_encodeWriteHash_batch hslots (by decide)
  rw [Exonum.execute]
  simp only [awaitedTx] at hnone ⊢
  simp only [hnone]

theorem single_log_unanchored : ¬∀ c : RedeliveryConfig,
    Reach (atLeastOnce connectedConfig fun _ => []) .start c → Undisturbed c.world.trace →
      ConfirmedAnchored c.world.state := by
  intro hall
  have hreach := Run.of_play
    (Option.some_get (x := awaitedRun .hybridPrivateBatch .mongo) rfl).symm
  obtain ⟨row, hrow, hst⟩ : ∃ row ∈ (((awaitedRun .hybridPrivateBatch .mongo).get
      rfl).world.state.dbs .mongo).logs (.batched .priv),
      row.anchorStatus = some .confirmed := by decide
  obtain ⟨key, -, hkey⟩ := (hall _ hreach (undisturbed_of_all (by decide))).logs .mongo
    (.batched .priv) row hrow hst
  have hnone : ((awaitedRun .hybridPrivateBatch .mongo).get rfl).world.state.exonum.keys .batch =
      [] := by
    show (Exonum.execute (fun _ => []) ⟨.empty, .empty, .empty, [("t", awaitedTx)], []⟩ "t"
      awaitedTx).batches.keys = []
    rw [execute_awaitedTx]
    rfl
  have hmem : key ∈ ((awaitedRun .hybridPrivateBatch .mongo).get rfl).world.state.exonum.keys
      .batch := hkey
  rw [hnone] at hmem
  cases hmem

end HybridLog
