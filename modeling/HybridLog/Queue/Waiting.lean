import HybridLog.Async.Debt
import HybridLog.Queue.Handovers

/-!
# Rows that wait

A row that is pending and knows its transaction waits for somebody to look at the chain again. It is
attended to while a confirm message names it, and between messages by the program that is to publish
the message or that handles it. A program that leaves a row waiting therefore owes it a message, and
the handler of the message owes it another status.
-/

namespace HybridLog

open Js Async

/-! ### What waits, and for whom -/

/-- The status of a log in a table of logs that are anchored one by one. -/
def LogTable.anchoredKey (db : Db) (id : JsString) : LogTable → Option StatusKey
  | .anchored s => some (.log db s id)
  | _ => none

/-- The anchored log or the batch a confirm message names. -/
def ConfirmMessage.names (msg : ConfirmMessage) : Option StatusKey :=
  if msg.strategy.isHybrid then
    match msg.strategy.isBatch, msg.batchesTable with
    | true, some table => some (.batch msg.db table msg.logId)
    | _, _ => msg.dbTable.anchoredKey msg.db msg.logId
  else none

/-- A row is pending and knows its transaction. The rows are those of logs that are anchored by
themselves and the records of batches; a leaf has the status of its batch. -/
def State.Awaits (s : State) : StatusKey → Prop
  | .log db side id => ∃ r ∈ (s.dbs db).logs (.anchored side),
      r.id = id ∧ r.anchorStatus = some .pending ∧ r.anchorTxHash.isSome
  | .batch db side root => ∃ r ∈ (s.dbs db).batches side,
      r.merkleRoot = root ∧ r.anchorStatus = .pending ∧ r.anchorTxHash.isSome

/-- What waits without a message that names it. -/
def State.unattended (s : State) : Set StatusKey :=
  {k | s.Awaits k ∧ ∀ m ∈ s.confirmQueue, m.2.names ≠ some k}

/-- The row a request leaves waiting. -/
def Req.suspends : Req → Option StatusKey
  | .insert db table row =>
    if row.anchorStatus = some .pending ∧ row.anchorTxHash.isSome then
      table.anchoredKey db row.id
    else none
  | .insertBatchRecord db table row =>
    if row.anchorStatus = .pending ∧ row.anchorTxHash.isSome then
      some (.batch db table row.merkleRoot)
    else none
  | .updateAnchorStatus db table id .pending (some _) _ => table.anchoredKey db id
  | .updateBatchAnchorStatus db table root .pending (some _) _ => some (.batch db table root)
  | _ => none

/-- The row a request attends to: it writes the status, or publishes a message. -/
def Req.attends : Req → Option StatusKey
  | .updateAnchorStatus db table id _ _ _ => table.anchoredKey db id
  | .updateBatchAnchorStatus db table root _ _ _ => some (.batch db table root)
  | .publishConfirm msg => msg.names
  | _ => none

/-- Programs that write entries which no queue has carried. -/
def Tag.direct : Tag → Bool
  | .post .. | .flush .. => true
  | _ => false

/-- An answer that leaves no row to nobody: the broker takes the message that names a row, a
confirm handler writes a status other than pending, and entries that are written one by one without
a queue are not left waiting. -/
structure Kept (t : Tag) (e : Req) (r : e.Answer) : Prop where
  taken : ∀ msg, e = .publishConfirm msg → msg.names ≠ none → e.succeeds r = true
  settled : ∀ seq msg k, t = .confirm seq msg → e.attends = some k →
    e.succeeds r = true ∧ e.suspends = none
  waited : ∀ db side id, t.direct = true → e.suspends = some (.log db side id) →
    e.succeeds r = false

lemma Req.suspends_insert {db : Db} {table : LogTable} {row : LogRow}
    (h : row.anchorTxHash = none) : (Req.insert db table row).suspends = none := by
  simp [Req.suspends, h]

lemma Req.suspends_insertBatchRecord {db : Db} {table : Side} {row : BatchRow}
    (h : row.anchorTxHash = none) : (Req.insertBatchRecord db table row).suspends = none := by
  simp [Req.suspends, h]

/-- An update that leaves a log waiting. -/
lemma Req.suspends_updateAnchorStatus {db : Db} {table : LogTable} {id : JsString}
    {status : AnchorStatus} {txHash : Option TxHash} {anchoredAt : Option ℕ} {key : StatusKey}
    (h : (Req.updateAnchorStatus db table id status txHash anchoredAt).suspends = some key) :
    status = .pending ∧ txHash.isSome = true ∧ ∃ side, table = .anchored side ∧
      key = .log db side id := by
  cases status with
  | pending => cases txHash with
    | some txHash => cases table with
      | anchored side =>
        cases h
        exact ⟨rfl, rfl, side, rfl, rfl⟩
      | offchain | batched _ => cases h
    | none => cases h
  | confirmed | failed => cases h

lemma Req.suspends_updateBatchAnchorStatus {db : Db} {table : Side} {root : JsString}
    {status : AnchorStatus} {txHash : Option TxHash} {anchoredAt : Option ℕ} {key : StatusKey}
    (h : (Req.updateBatchAnchorStatus db table root status txHash anchoredAt).suspends = some key) :
    status = .pending ∧ txHash.isSome = true ∧ key = .batch db table root := by
  cases status with
  | pending => cases txHash with
    | some txHash =>
      cases h
      exact ⟨rfl, rfl, rfl⟩
    | none => cases h
  | confirmed | failed => cases h

def waitLedger (X : Type) : Ledger Req Req.Answer Tag X StatusKey where
  allowed ev := ∀ t e r, ev = .call t e r → Kept t e r
  creates e r := {k | e.succeeds r = true ∧ e.suspends = some k}
  meets e r := {k | e.succeeds r = true ∧ e.attends = some k}

/-! ### Storages -/

section Owed

variable {X : Type} {t : Tag}

lemma calm_of_none {e : Req} (h : e.suspends = none) : (waitLedger X).Calm t e := by
  intro r _
  ext k
  simp [waitLedger, h]

lemma Req.Looks.suspends {e : Req} (h : e.Looks) : e.suspends = none := by
  cases e with
  | getTransaction _ _ | getReceipt _ _ | getBlockNumber _ | waitReceipt _ | now => rfl
  | _ => exact h.elim

lemma AnchorStep.suspends {payload : Payload} {e : Req} {tr : Trace Req Req.Answer Tag X}
    (h : AnchorStep payload t e tr) : e.suspends = none := by
  cases h with
  | looks h => exact h.suspends
  | submit _ => rfl

lemma LinkReq.suspends {s : Side} {ids : List JsString} {root : JsString} {db : Db} {e : Req}
    (h : HybridStorage.LinkReq s ids root db e) : e.suspends = none := by
  cases db with
  | postgres =>
    cases h
    rfl
  | mongo =>
    obtain ⟨_, _, _, rfl⟩ := h
    rfl

/-- A row is left pending with its transaction only if the transaction is not confirmed. -/
lemma AnchorOutcome.waiting {chain : Chain} {payload : Payload} {opts : Option WriteOpts}
    {tr : Trace Req Req.Answer Tag X} {success : Bool} {txId : Option TxHash}
    {confirmed : Option Bool} (h : AnchorOutcome chain payload opts t tr success txId confirmed)
    (htx : txId.isSome = true) (hst : statusOf confirmed success = .pending) :
    confirmed = some false := by
  cases h with
  | unsent | refused | lost => cases htx
  | confirmed => cases hst
  | submitted | givenUp => rfl

variable (cfg : ServerConfig)

/-- A task that creates nothing, begun with no obligation. -/
lemma owes_of_calm {α : Type} {P : Guard Req Req.Answer Tag X}
    {Q : α → Trace Req Req.Answer Tag X → Prop} {Er : JsError → Trace Req Req.Answer Tag X → Prop}
    {p : Io α} {tr : Trace Req Req.Answer Tag X} (h : FollowsTask P t Q Er p tr)
    (hcalm : ∀ e tr', P t e tr' → (waitLedger X).Calm t e) :
    OwesTask (waitLedger X) t (fun a O' => (∃ tr', Q a tr') ∧ O' = ∅)
      (fun err O' => (∃ tr', Er err tr') ∧ O' = ∅) p ∅ := by
  apply OwesTask.weaken (OwesTask.of_calm h hcalm ∅)
  · exact fun a O' h' => ⟨h'.1, Set.subset_empty_iff.mp h'.2⟩
  · exact fun err O' h' => ⟨h'.1, Set.subset_empty_iff.mp h'.2⟩

/-- A request that creates nothing, made with no obligation. -/
lemma owes_request {α : Type} {e : Req} {k : e.Answer → Except JsError α}
    (h : e.suspends = none) :
    OwesTask (waitLedger X) t (fun _ O' => O' = ∅) (fun _ O' => O' = ∅) (Task.request e k) ∅ := by
  apply OwesTask.request
  intro r hr
  have hnone : (∅ \ (waitLedger X).meets e r) ∪ (waitLedger X).creates e r = ∅ := by
    rw [calm_of_none h r hr, Set.empty_sdiff, Set.empty_union]
  cases k r with
  | ok a => exact hnone
  | error err => exact hnone

/-- What is left of a write: at most the row of the key, and only if its transaction is not
confirmed. -/
def AtMost (k : StatusKey) (txId : Option TxHash) (confirmed : Option Bool)
    (O : Set StatusKey) : Prop :=
  ∀ k' ∈ O, k' = k ∧ txId.isSome = true ∧ confirmed = some false

lemma atMost_empty (k : StatusKey) (txId : Option TxHash) (confirmed : Option Bool) :
    AtMost k txId confirmed ∅ := fun _ h => h.elim

/-- The leaves of a batch do not wait. -/
lemma insertLeaves_owes (db : Db) (entries : List LogEntry) (table : LogTable) :
    OwesTask (waitLedger X) t (fun _ O' => O' = ∅) (fun _ O' => O' = ∅)
      (promiseAll (entries.map fun e => insertBatched db e e.dataHash table)) ∅ := by
  have hleaves := insertLeaves_inserts (X := X) (t := t) db entries table
  apply OwesTask.weaken (owes_of_calm hleaves _)
  · exact fun _ _ h => h.2
  · exact fun _ _ h => h.2
  · rintro _ _ ⟨log, hash, rfl⟩
    exact calm_of_none (Req.suspends_insert rfl)

/-- The update of a status leaves at most the row of `key` waiting. -/
lemma updateStatus_owes (key : StatusKey) {e : Req} {k : e.Answer → Except JsError Unit}
    {txId : Option TxHash} {confirmed : Option Bool}
    (hk : ∀ r, e.succeeds r = true ∧ k r = .ok () ∨ e.succeeds r = false ∧ ∃ err, k r = .error err)
    (he : ∀ key', e.suspends = some key' →
      key' = key ∧ txId.isSome = true ∧ confirmed = some false) :
    OwesTask (waitLedger X) t (fun _ O' => AtMost key txId confirmed O') (fun _ O' => O' = ∅)
      (Task.request e k) ∅ := by
  apply OwesTask.request
  intro r _
  rw [Set.empty_sdiff, Set.empty_union]
  rcases hk r with ⟨hs, hok⟩ | ⟨hs, err, herr⟩
  · rw [hok]
    exact fun key' hkey' => he key' hkey'.2
  · rw [herr]
    apply Set.eq_empty_of_forall_notMem
    rintro key' ⟨hs', -⟩
    rw [hs] at hs'
    cases hs'

lemma HybridStorage.writeLog_owes (db : Db) (anchor : Anchor) (mode : HybridMode)
    (entry : LogEntry) (opts : Option WriteOpts) :
    OwesTask (waitLedger X) t
      (fun r O' => AtMost (mode.statusKey db r.logId) r.txId r.confirmed O')
      (fun _ _ => False) (HybridStorage.writeLog cfg db anchor mode entry opts) ∅ := by
  have hfailed (err : JsError) (O : Set StatusKey) (hO : O = ∅) :
      OwesTask (waitLedger X) t
        (fun r O' => AtMost (mode.statusKey db r.logId) r.txId r.confirmed O')
        (fun _ _ => False) (pure (.failed entry.id err) : Io WriteResult) O := by
    subst hO
    exact OwesTask.pure (atMost_empty _ _ _)
  apply OwesTask.tryCatch
  apply OwesTask.bind
  apply OwesTask.weaken (owes_request (Req.suspends_insert rfl))
  swap
  · exact hfailed
  rintro _ _ rfl
  apply OwesTask.bind
  apply OwesTask.weaken (owes_of_calm
    (anchor.writeLog_follows cfg opts t (entry.withHash cfg.sha) [])
    fun _ _ h => calm_of_none h.suspends)
  swap
  · rintro _ _ ⟨⟨_, h⟩, -⟩
    exact h.elim
  rintro r _ ⟨⟨tr, -, hout⟩, rfl⟩
  apply OwesTask.bind
  apply OwesTask.weaken (owes_of_calm (anchoredNow_follows r.confirmed t [])
    fun _ _ h => calm_of_none h.suspends)
  swap
  · rintro _ _ ⟨⟨_, h⟩, -⟩
    exact h.elim
  rintro anchoredAt _ ⟨-, rfl⟩
  apply OwesTask.bind
  apply OwesTask.weaken (updateStatus_owes (mode.statusKey db entry.id) _ _)
  · exact fun _ O' h => OwesTask.pure h
  · exact hfailed
  · intro u
    cases u with
    | ok u => exact .inl ⟨rfl, rfl⟩
    | error err => exact .inr ⟨rfl, err, rfl⟩
  · intro key' hkey'
    obtain ⟨hst, htx, side, htable, rfl⟩ := Req.suspends_updateAnchorStatus hkey'
    refine ⟨?_, htx, hout.waiting htx hst⟩
    cases mode with
    | anchored s =>
      cases htable
      rfl
    | batched s => cases htable

lemma HybridStorage.writeBatch_owes (db : Db) (anchor : Anchor) (s : Side)
    (entries : List LogEntry) (opts : Option WriteOpts) :
    OwesTask (waitLedger X) t (fun r O' => AtMost (.batch db s r.batchHash) r.txId r.confirmed O')
      (fun _ _ => False) (HybridStorage.writeBatch cfg db anchor (.batched s) entries opts) ∅ := by
  have hfailed (startId endId : JsString) (n : ℕ) (err : JsError) (O : Set StatusKey)
      (hO : O = ∅) : OwesTask (waitLedger X) t
        (fun r O' => AtMost (.batch db s r.batchHash) r.txId r.confirmed O')
        (fun _ _ => False) (pure (.failed startId endId n err) : Io BatchWriteResult) O := by
    subst hO
    exact OwesTask.pure (atMost_empty _ _ _)
  rw [writeBatch]
  split
  · exact hfailed _ _ _ _ _ rfl
  next hne =>
  have hne' : entries.map (LogEntry.withHash cfg.sha) ≠ [] := by simpa using hne
  apply OwesTask.tryCatch
  apply OwesTask.bind
  apply OwesTask.weaken (insertLeaves_owes db _ _)
  swap
  · exact fun err => hfailed _ _ _ err
  rintro _ _ rfl
  apply OwesTask.bind
  apply OwesTask.weaken (owes_request (Req.suspends_insertBatchRecord rfl))
  swap
  · exact fun err => hfailed _ _ _ err
  rintro _ _ rfl
  apply OwesTask.bind
  apply OwesTask.weaken (owes_of_calm (linkBatchLeaves_follows db t [])
    fun _ _ h => calm_of_none (LinkReq.suspends h))
  swap
  · exact fun err O' h => hfailed _ _ _ err O' h.2
  rintro _ _ ⟨-, rfl⟩
  apply OwesTask.bind
  apply OwesTask.weaken (owes_of_calm (anchor.writeBatch_follows cfg opts t hne' [])
    fun _ _ h => calm_of_none h.suspends)
  swap
  · rintro _ _ ⟨⟨_, h⟩, -⟩
    exact h.elim
  rintro r _ ⟨⟨tr, hout, -⟩, rfl⟩
  apply OwesTask.bind
  apply OwesTask.weaken (owes_of_calm (anchoredNow_follows r.confirmed t [])
    fun _ _ h => calm_of_none h.suspends)
  swap
  · rintro _ _ ⟨⟨_, h⟩, -⟩
    exact h.elim
  rintro anchoredAt _ ⟨-, rfl⟩
  apply OwesTask.bind
  apply OwesTask.weaken (updateStatus_owes
    (.batch db s (cfg.sha.computeBatchHash (entries.map (LogEntry.withHash cfg.sha)))) _ _)
  · exact fun _ O' h => OwesTask.pure h
  · exact fun err => hfailed _ _ _ err
  · intro u
    cases u with
    | ok u => exact .inl ⟨rfl, rfl⟩
    | error err => exact .inr ⟨rfl, err, rfl⟩
  · intro key' hkey'
    obtain ⟨hst, htx, rfl⟩ := Req.suspends_updateBatchAnchorStatus hkey'
    exact ⟨rfl, htx, hout.waiting htx hst⟩

/-- What a storage may leave waiting: the row it has written, if it is a hybrid one. -/
def Storage.AtMost (st : Storage) (logId : JsString) (txId : Option TxHash)
    (confirmed : Option Bool) (O : Set StatusKey) : Prop :=
  ∀ key ∈ O, ∃ db anchor mode, st = .hybrid db anchor mode ∧ key = mode.statusKey db logId ∧
    txId.isSome = true ∧ confirmed = some false

lemma Storage.atMost_empty (st : Storage) (logId : JsString) (txId : Option TxHash)
    (confirmed : Option Bool) : st.AtMost logId txId confirmed ∅ := fun _ h => h.elim

lemma Storage.writeLog_owes (st : Storage) (entry : LogEntry) (opts : Option WriteOpts) :
    OwesTask (waitLedger X) t (fun r O' => st.AtMost r.logId r.txId r.confirmed O')
      (fun _ _ => False) (st.writeLog cfg entry opts) ∅ := by
  cases st with
  | hybrid db anchor mode =>
    apply OwesTask.weaken (HybridStorage.writeLog_owes cfg db anchor mode entry opts)
    · exact fun r O' h key hkey => ⟨db, anchor, mode, rfl, h key hkey⟩
    · exact fun _ _ h => h
  | offchain db =>
    apply OwesTask.weaken (owes_of_calm (Storage.writeLog_follows cfg opts entry (.offchain db) t [])
      _)
    · rintro _ _ ⟨-, rfl⟩
      exact atMost_empty _ _ _ _
    · rintro _ _ ⟨⟨_, h⟩, -⟩
      exact h
    · rintro _ _ ⟨⟩
      exact calm_of_none (Req.suspends_insert rfl)
  | chain anchor =>
    apply OwesTask.weaken (owes_of_calm (Storage.writeLog_follows cfg opts entry (.chain anchor) t [])
      _)
    · rintro _ _ ⟨-, rfl⟩
      exact atMost_empty _ _ _ _
    · rintro _ _ ⟨⟨_, h⟩, -⟩
      exact h
    · intro _ _ h
      cases h with
      | chain h => exact calm_of_none h.suspends

lemma Storage.writeBatch_owes {st : Storage}
    {write : List LogEntry → Option WriteOpts → Io BatchWriteResult}
    (hwrite : st.writeBatch? cfg = some write) (entries : List LogEntry)
    (opts : Option WriteOpts) :
    OwesTask (waitLedger X) t (fun r O' => st.AtMost r.batchHash r.txId r.confirmed O')
      (fun _ _ => False) (write entries opts) ∅ := by
  cases st with
  | offchain db => cases hwrite
  | chain anchor =>
    apply OwesTask.weaken (owes_of_calm (Storage.writeBatch_follows cfg opts entries t [] hwrite) _)
    · rintro _ _ ⟨-, rfl⟩
      exact atMost_empty _ _ _ _
    · rintro _ _ ⟨⟨_, h⟩, -⟩
      exact h
    · intro _ _ h
      cases h with
      | chain h => exact calm_of_none h.suspends
  | hybrid db anchor mode => cases mode with
    | anchored s => cases hwrite
    | batched s =>
      cases hwrite
      apply OwesTask.weaken (HybridStorage.writeBatch_owes cfg db anchor s entries opts)
      · exact fun r O' h key hkey => ⟨db, anchor, .batched s, rfl, h key hkey⟩
      · exact fun _ _ h => h

/-! ### Messages -/

variable {cfg}

/-- The message of a storage names the row the storage has written. -/
lemma Wired.names {s : LogStrategy} {db db' : Db} {anchor : Anchor} {mode : HybridMode}
    (h : Wired cfg s db db' anchor mode) {msg : ConfirmMessage} (hs : msg.strategy = s)
    (hdb : msg.db = db)
    (htable : msg.dbTable = if s.isBatch then s.batchedTableFor else s.anchoredTableFor)
    (hbatches : msg.batchesTable = if s.isBatch then some s.batchesTableFor else none) :
    msg.names = some (mode.statusKey db' msg.logId) := by
  have hlog := h.logTable
  have hside := h.batchesTable
  rw [ConfirmMessage.names, hs, if_pos h.isHybrid, hdb, ← h.adapter, hbatches]
  cases hbatch : s.isBatch with
  | false =>
    show msg.dbTable.anchoredKey db' msg.logId = _
    rw [htable, ← hlog]
    cases mode with
    | anchored sd => rfl
    | batched sd =>
      rw [hbatch] at hlog
      cases hlog
  | true =>
    rw [if_pos hbatch] at hlog
    cases mode with
    | anchored sd => cases hlog
    | batched sd =>
      cases hlog
      rfl

lemma Storage.AtMost.names {s : LogStrategy} {db : Db} {st : Storage} {logId : JsString}
    {txId : Option TxHash} {confirmed : Option Bool} {O : Set StatusKey}
    (h : st.AtMost logId txId confirmed O)
    (hst : pickStorage cfg (some (.strategy s)) db = some st) {msg : ConfirmMessage}
    (hs : msg.strategy = s) (hdb : msg.db = db)
    (htable : msg.dbTable = if s.isBatch then s.batchedTableFor else s.anchoredTableFor)
    (hbatches : msg.batchesTable = if s.isBatch then some s.batchesTableFor else none)
    (hid : msg.logId = logId) : ∀ key ∈ O, msg.names = some key := by
  intro key hkey
  obtain ⟨db', anchor, mode, rfl, rfl, -⟩ := h key hkey
  rw [(pickStorage_hybrid cfg hst).names hs hdb htable hbatches, hid]

/-! ### Programs -/

/-- A program that ends with no obligation, whichever way it ends. -/
abbrev Discharges (t : Tag) {α : Type} (p : Io α) (O : Set StatusKey) : Prop :=
  OwesTask (waitLedger X) t (fun _ O' => O' = ∅) (fun _ O' => O' = ∅) p O

lemma discharges_bind {α β : Type} {p : Io α} {f : α → Io β} {O : Set StatusKey}
    (hp : Discharges (X := X) t p O) (hf : ∀ a, Discharges (X := X) t (f a) ∅) :
    Discharges (X := X) t (p >>= f) O := by
  apply OwesTask.bind
  apply OwesTask.weaken hp
  · rintro a _ rfl
    exact hf a
  · exact fun _ _ h => h

lemma discharges_tryCatch {α : Type} {p : Io α} {f : JsError → Io α} {O : Set StatusKey}
    (hp : Discharges (X := X) t p O) (hf : ∀ err, Discharges (X := X) t (f err) ∅) :
    Discharges (X := X) t (tryCatch p f) O := by
  apply OwesTask.tryCatch
  apply OwesTask.weaken hp
  · exact fun _ _ h => h
  · rintro err _ rfl
    exact hf err

/-- The message goes out for all that is owed. -/
lemma publishConfirm_owes {msg : ConfirmMessage} {O : Set StatusKey}
    (h : ∀ key ∈ O, msg.names = some key) : Discharges (X := X) t (publishConfirm msg) O := by
  have hnone (hnames : msg.names = none) : O = ∅ := by
    apply Set.eq_empty_of_forall_notMem
    intro key hkey
    rw [h key hkey] at hnames
    cases hnames
  rw [publishConfirm]
  split
  · apply OwesTask.request
    intro r hr
    rw [calm_of_none rfl r hr, Set.union_empty]
    cases r with
    | ok u =>
      apply Set.sdiff_eq_empty.mpr
      exact fun key hkey => ⟨rfl, h key hkey⟩
    | error err =>
      have hempty : O = ∅ := by
        apply hnone
        by_contra hnames
        cases (hr t _ _ rfl).taken msg rfl hnames
      show O \ _ = ∅
      rw [hempty, Set.empty_sdiff]
  · next hqueue =>
    apply OwesTask.throw
    apply hnone
    rw [ConfirmMessage.names, if_neg]
    intro hhybrid
    cases hs : msg.strategy with
    | databaseOnly =>
      rw [hs] at hhybrid
      cases hhybrid
    | _ =>
      rw [hs] at hqueue
      exact hqueue rfl

lemma replyIfAsked_owes (replyTo : Option JsString) (msg : ResultMessage) :
    Discharges (X := X) t (replyIfAsked replyTo msg) ∅ := by
  rw [replyIfAsked]
  cases replyQueue replyTo with
  | none => exact OwesTask.pure rfl
  | some queue => exact discharges_tryCatch (owes_request rfl) fun _ => OwesTask.pure rfl

variable (cfg)

lemma submitWrite_owes (strategy : LogStrategy) (raw : SubmitMessage) :
    OwesTask (waitLedger X) t
      (fun w O' => ∀ key ∈ O', ∃ txHash, w.txId = some txHash ∧ w.confirmed = false ∧
        (confirmMessage strategy raw w.logId txHash).names = some key)
      (fun _ O' => O' = ∅) (submitWrite cfg (raw.storage cfg strategy) raw.body) ∅ := by
  unfold submitWrite
  split
  · exact OwesTask.throw rfl
  · next st dtos hst _ =>
    split
    · exact OwesTask.throw rfl
    next write hwrite =>
    apply OwesTask.bind
    apply OwesTask.weaken (Storage.writeBatch_owes cfg hwrite _ (some submitOnlyOpts))
    · intro r O' h
      apply OwesTask.pure
      intro key hkey
      obtain ⟨_, _, _, _, _, htx, hc⟩ := h key hkey
      obtain ⟨txHash, htxHash⟩ := Option.isSome_iff_exists.mp htx
      refine ⟨txHash, htxHash, by rw [hc]; rfl, ?_⟩
      exact h.names hst rfl rfl rfl rfl rfl key hkey
    · exact fun _ _ h => h.elim
  · next st dto hst _ =>
    apply OwesTask.bind
    apply OwesTask.weaken (Storage.writeLog_owes cfg st _ (some submitOnlyOpts))
    · intro r O' h
      apply OwesTask.pure
      intro key hkey
      obtain ⟨_, _, _, _, _, htx, hc⟩ := h key hkey
      obtain ⟨txHash, htxHash⟩ := Option.isSome_iff_exists.mp htx
      refine ⟨txHash, htxHash, by rw [hc]; rfl, ?_⟩
      exact h.names hst rfl rfl rfl rfl rfl key hkey
    · exact fun _ _ h => h.elim

lemma submitHandler_owes (strategy : LogStrategy) (raw : SubmitMessage) :
    Discharges (X := X) t (submitHandler cfg strategy raw) ∅ := by
  refine OwesTask.finallyDo (OwesTask.weaken (?body : Discharges (X := X) t _ ∅) ?_ ?_)
  case body =>
    refine discharges_tryCatch ?_ fun _ => replyIfAsked_owes _ _
    apply OwesTask.bind
    apply OwesTask.weaken (submitWrite_owes cfg strategy raw)
    · rintro ⟨txId, confirmed, logId⟩ O' h
      -- without a transaction to be confirmed nothing is owed
      have hempty (hdone : txId = none ∨ confirmed = true) : O' = ∅ := by
        apply Set.eq_empty_of_forall_notMem
        intro key hkey
        obtain ⟨txHash, htx, hc, -⟩ := h key hkey
        rcases hdone with rfl | rfl
        · cases htx
        · cases hc
      cases txId with
      | none =>
        obtain rfl := hempty (.inl rfl)
        exact replyIfAsked_owes _ _
      | some txHash => cases confirmed with
        | true =>
          obtain rfl := hempty (.inr rfl)
          exact replyIfAsked_owes _ _
        | false =>
          apply publishConfirm_owes
          intro key hkey
          obtain ⟨txHash', htx, -, hnames⟩ := h key hkey
          cases htx
          exact hnames
    · exact fun _ _ h => h
  · rintro _ _ rfl
    exact owes_request rfl
  · rintro _ _ rfl
    exact owes_request rfl

lemma onFlush_owes {key : WriterKey} {st : Storage} {r : BatchWriteResult} {O : Set StatusKey}
    (hst : key.storage cfg = some st) (h : st.AtMost r.batchHash r.txId r.confirmed O) :
    Discharges (X := X) t (onFlush key r) O := by
  have hempty (hdone : r.txId = none ∨ r.confirmed = some true) : O = ∅ := by
    apply Set.eq_empty_of_forall_notMem
    intro k hk
    obtain ⟨_, _, _, _, _, htx, hc⟩ := h k hk
    rcases hdone with hnone | htrue
    · rw [hnone] at htx
      cases htx
    · rw [htrue] at hc
      cases hc
  rw [onFlush]
  split
  · next hnone => exact OwesTask.pure (hempty (.inl hnone))
  next txHash htx =>
  split
  · next hc => exact OwesTask.pure (hempty (.inr hc))
  rw [WriterKey.storage] at hst
  split
  · next name hname =>
    apply OwesTask.throw
    apply Set.eq_empty_of_forall_notMem
    intro k hk
    obtain ⟨_, _, _, hhybrid, -⟩ := h k hk
    rw [hname, hhybrid] at hst
    cases (pickStorage_ofDb cfg hst).1
  next s hs =>
  rw [hs] at hst
  apply OwesTask.bind
  have hnow : FollowsTask LookStep t (fun _ _ => True) (fun _ _ => False) now
      ([] : Trace Req Req.Answer Tag X) :=
    FollowsTask.request (fun _ _ => trivial) fun _ _ _ _ => trivial
  apply OwesTask.weaken (OwesTask.of_calm hnow (fun _ _ h => calm_of_none h.suspends) O)
  · rintro enqueuedAt O' ⟨-, hO'⟩
    apply publishConfirm_owes
    exact fun k hk => h.names hst rfl rfl rfl rfl rfl k (hO' hk)
  · rintro _ _ ⟨⟨_, h⟩, -⟩
    exact h.elim

variable {cfg} in
/-- Without a queue, no request of the write of a log leaves a row waiting. -/
lemma Storage.LogStep.calm {opts : Option WriteOpts} {entry : LogEntry} {st : Storage} {e : Req}
    {tr : Trace Req Req.Answer Tag X} (ht : t.direct = true)
    (h : Storage.LogStep cfg opts entry t st e tr) : (waitLedger X).Calm t e := by
  cases h with
  | offchain => exact calm_of_none (Req.suspends_insert rfl)
  | chain h => exact calm_of_none h.suspends
  | hybrid h => cases h with
    | insert => exact calm_of_none (Req.suspends_insert rfl)
    | anchor _ h => exact calm_of_none h.suspends
    | update _ _ _ =>
      intro r hr
      apply Set.eq_empty_of_forall_notMem
      rintro key ⟨hs, hkey⟩
      obtain ⟨-, -, side, -, rfl⟩ := Req.suspends_updateAnchorStatus hkey
      rw [(hr t _ r rfl).waited _ side _ ht hkey] at hs
      cases hs

/-- A batch writer of a strategy without a chain has no batch to hand over. -/
lemma Storage.AtMost.hasOnFlush {key : WriterKey} {st : Storage} {logId : JsString}
    {txId : Option TxHash} {confirmed : Option Bool} {O : Set StatusKey}
    (h : st.AtMost logId txId confirmed O) (hst : key.storage cfg = some st)
    (hmq : cfg.mqReady = true) (hnot : key.hasOnFlush cfg = false) : O = ∅ := by
  apply Set.eq_empty_of_forall_notMem
  intro k hk
  obtain ⟨_, _, _, rfl, -⟩ := h k hk
  have hdb : key.strategy = .strategy .databaseOnly := by
    simpa [WriterKey.hasOnFlush, hmq, StorageMode.isChainStrategy] using hnot
  rw [WriterKey.storage, hdb] at hst
  cases (pickStorage_ofDb cfg hst).1

lemma flushBatch_owes (ht : t.direct = true) (hmq : cfg.mqReady = true) (key : WriterKey)
    (pending : List PendingEntry) : Discharges (X := X) t (flushBatch cfg key pending) ∅ := by
  have hsettle (settled : List (ℕ × Outcome)) :
      Discharges (X := X) t (settlePromises settled) ∅ := owes_request rfl
  have hsettled (settled : List (ℕ × Outcome)) :
      FollowsTask (fun _ e _ => (waitLedger X).Calm t e) t (fun _ _ => True) (fun _ _ => False)
        (settlePromises settled) ([] : Trace Req Req.Answer Tag X) :=
    FollowsTask.request (fun _ _ => calm_of_none rfl) fun _ _ _ _ => trivial
  refine discharges_tryCatch ?_ fun _ => hsettle _
  split
  · exact OwesTask.throw rfl
  next st hst =>
  split
  · next write hwrite =>
    apply OwesTask.bind
    apply OwesTask.weaken (Storage.writeBatch_owes cfg hwrite _ key.opts)
    · intro r O' h
      apply OwesTask.bind
      apply OwesTask.weaken (OwesTask.of_calm (hsettled _) (fun _ _ h => h) O')
      · rintro _ O'' ⟨-, hO''⟩
        have h'' : st.AtMost r.batchHash r.txId r.confirmed O'' := fun k hk => h k (hO'' hk)
        split
        · exact onFlush_owes cfg hst h''
        · next hnot => exact OwesTask.pure (h''.hasOnFlush cfg hst hmq (by simpa using hnot))
      · rintro _ _ ⟨⟨_, h⟩, -⟩
        exact h.elim
    · exact fun _ _ h => h.elim
  · have hall : FollowsTask (fun t e tr => ∃ p ∈ pending,
        Storage.LogStep cfg key.opts p.entry t st e tr) t
        (fun rs _ => List.Forall₂ (fun _ _ => True) pending rs) (fun _ _ => ∃ p ∈ pending, False)
        (promiseAll (pending.map fun p => st.writeLog cfg p.entry key.opts))
        ([] : Trace Req Req.Answer Tag X) := by
      refine @FollowsTask.promiseAll _ _ _ _ _ _ _ _ _ (fun _ _ _ => True) (fun _ _ _ => False)
        _ [] (fun _ _ _ _ _ _ => trivial) (fun _ _ _ _ _ h => h) pending fun p hp => ?_
      apply FollowsTask.weaken (FollowsTask.allow
        (st.writeLog_follows cfg key.opts p.entry t []) fun _ _ _ h => ⟨p, hp, h⟩)
      · exact fun _ _ _ _ => trivial
      · exact fun _ _ _ h => h
    apply OwesTask.bind
    apply OwesTask.weaken (owes_of_calm hall _)
    · rintro rs _ ⟨-, rfl⟩
      exact hsettle _
    · exact fun _ _ h => h.2
    · rintro e tr ⟨p, -, h⟩
      exact h.calm ht

lemma batchWrite_owes (ht : t.direct = true) (hmq : cfg.mqReady = true) (key : WriterKey)
    (entry : LogEntry) : Discharges (X := X) t (batchWrite cfg key entry) ∅ := by
  refine discharges_bind (owes_request rfl) ?_
  rintro ⟨promise, batch⟩
  dsimp only
  split
  · exact owes_request rfl
  · refine discharges_bind ?_ fun _ => owes_request rfl
    apply OwesTask.spawn
    · exact OwesTask.detach (flushBatch_owes cfg ht hmq key batch)
    · rfl

lemma postLog_owes (ht : t.direct = true) (hmq : cfg.mqReady = true) (req : PostRequest)
    (entry : LogEntry) : Discharges (X := X) t (postLog cfg req entry) ∅ := by
  have hrespond (reply : Reply) : Discharges (X := X) t (respond reply) ∅ := owes_request rfl
  refine discharges_tryCatch ?_ fun _ => hrespond _
  split
  · exact hrespond _
  split
  · next mode hmode =>
    refine discharges_bind ?_ fun _ => hrespond _
    cases mode with
    | other name => exact OwesTask.throw rfl
    | strategy s =>
      simp only [publishLog]
      split
      · exact OwesTask.throw rfl
      · exact OwesTask.throw rfl
      · exact discharges_bind (owes_request rfl) fun _ => owes_request rfl
  split
  · exact discharges_bind (batchWrite_owes cfg ht hmq req.writerKey entry) fun _ => hrespond _
  · refine discharges_bind ?_ fun _ => hrespond _
    unfold syncWrite
    split
    · exact OwesTask.throw rfl
    · next st hst =>
      apply OwesTask.weaken (owes_of_calm (st.writeLog_follows cfg none entry t [])
        fun _ _ h => h.calm ht)
      · exact fun _ _ h => h.2
      · exact fun _ _ h => h.2

/-- A confirm handler writes the status of the row it owes one. -/
lemma settle_owes {seq : ℕ} {raw : ConfirmMessage} {e : Req} {k : e.Answer → Except JsError Unit}
    {O : Set StatusKey} (hnone : e.attends = none → e.suspends = none)
    (h : ∀ key ∈ O, e.attends = some key) :
    Discharges (X := X) (.confirm seq raw) (Task.request e k) O := by
  have hdone (r : e.Answer) (hr : (waitLedger X).allowed (.call (.confirm seq raw) e r)) :
      (O \ (waitLedger X).meets e r) ∪ (waitLedger X).creates e r = ∅ := by
    cases hattends : e.attends with
    | none =>
      have hempty : O = ∅ := by
        apply Set.eq_empty_of_forall_notMem
        intro key hkey
        rw [h key hkey] at hattends
        cases hattends
      rw [hempty, Set.empty_sdiff, Set.empty_union]
      exact calm_of_none (hnone hattends) r hr
    | some key =>
      obtain ⟨hs, hsuspends⟩ := (hr _ e r rfl).settled seq raw key rfl hattends
      rw [calm_of_none hsuspends r hr, Set.union_empty, Set.sdiff_eq_empty]
      exact fun key' hkey' => ⟨hs, h key' hkey'⟩
  apply OwesTask.request
  intro r hr
  cases k r with
  | ok u => exact hdone r hr
  | error err => exact hdone r hr

lemma confirmUpdate_owes {seq : ℕ} {raw : ConfirmMessage} (r : TxCheck) {O : Set StatusKey}
    (hdb : raw.db = .mongo ∧ cfg.mongo = .notInstalled → O = ∅)
    (h : ∀ key ∈ O, raw.names = some key) :
    Discharges (X := X) (.confirm seq raw) (confirmUpdate cfg raw.strategy raw r) O := by
  rw [confirmUpdate]
  split
  swap
  · next hs =>
    apply OwesTask.pure
    apply Set.eq_empty_of_forall_notMem
    intro key hkey
    have hkey' := h key hkey
    rw [ConfirmMessage.names, if_neg hs] at hkey'
    cases hkey'
  next hs =>
  split
  · next hmongo => exact OwesTask.throw (hdb hmongo)
  apply OwesTask.bind
  apply OwesTask.weaken (OwesTask.of_calm (anchoredNow_follows (some r.confirmed) _ [])
    (fun _ _ h => calm_of_none h.suspends) O)
  swap
  · rintro _ _ ⟨⟨_, h⟩, -⟩
    exact h.elim
  rintro anchoredAt O' ⟨-, hO'⟩
  split
  · next table hbatch htable =>
    apply settle_owes
    · intro hnone
      cases hnone
    · intro key hkey
      rw [← h key (hO' hkey), ConfirmMessage.names, if_pos hs, hbatch, htable]
      rfl
  · next hnot =>
    apply settle_owes
    · intro hnone
      by_contra hsome
      obtain ⟨key, hkey⟩ := Option.ne_none_iff_exists'.mp hsome
      obtain ⟨-, -, side, htable, -⟩ := Req.suspends_updateAnchorStatus hkey
      rw [Req.attends, htable] at hnone
      cases hnone
    · intro key hkey
      rw [← h key (hO' hkey), ConfirmMessage.names, if_pos hs]
      split
      · next table hbatch htable => exact absurd htable (hnot table hbatch)
      · rfl

lemma confirmHandler_owes (seq : ℕ) (raw : ConfirmMessage) {O : Set StatusKey}
    (hdb : raw.db = .mongo ∧ cfg.mongo = .notInstalled → O = ∅)
    (h : ∀ key ∈ O, raw.names = some key) :
    Discharges (X := X) (.confirm seq raw) (confirmHandler cfg raw.strategy raw) O := by
  refine OwesTask.finallyDo (OwesTask.weaken (?body : Discharges (X := X) _ _ O) ?_ ?_)
  case body =>
    refine discharges_tryCatch ?_ fun _ => replyIfAsked_owes _ _
    apply OwesTask.bind
    apply OwesTask.weaken (OwesTask.of_calm
      (pollFrom_follows cfg raw.txHash _ raw.chain 60 0 _ [] rfl nofun)
      (fun _ _ h => calm_of_none h.suspends) O)
    · rintro r O' ⟨-, hO'⟩
      refine discharges_bind ?_ fun _ => replyIfAsked_owes _ _
      apply confirmUpdate_owes cfg r
      · exact fun hmongo => Set.subset_eq_empty hO' (hdb hmongo)
      · exact fun key hkey => h key (hO' hkey)
    · rintro _ _ ⟨⟨_, h⟩, -⟩
      exact h.elim
  · rintro _ _ rfl
    exact owes_request rfl
  · rintro _ _ rfl
    exact owes_request rfl

end Owed

end HybridLog
