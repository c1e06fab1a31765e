import HybridLog.Async.Dues
import HybridLog.System.Redelivery

/-!
# Handing a row over

The status of a row is written by the program that inserts it, once, and if that leaves it pending,
the row is handed over to a confirm queue, once. The right to do either is a token: a program gets
it with the insertion and with the update, and gives it away with the update and with the message.
-/

namespace HybridLog

open Js Async

/-- The columns for the status of one row, of a log or of the record of a batch. A leaf that is
written on its own is handed over under its id, as if that were the root of a batch. -/
inductive StatusKey
  | log (db : Db) (side : Side) (id : JsString)
  | batch (db : Db) (side : Side) (root : JsString)
deriving DecidableEq

def LogTable.statusKey (db : Db) (id : JsString) : LogTable → Option StatusKey
  | .offchain => none
  | .anchored s => some (.log db s id)
  | .batched s => some (.batch db s id)

def HybridMode.statusKey (db : Db) (id : JsString) : HybridMode → StatusKey
  | .anchored s => .log db s id
  | .batched s => .batch db s id

@[simp] lemma statusKey_logTable (db : Db) (id : JsString) (mode : HybridMode) :
    mode.logTable.statusKey db id = some (mode.statusKey db id) := by cases mode <;> rfl

/-- The row whose status the handler of a confirm message writes. -/
def ConfirmMessage.statusKey (msg : ConfirmMessage) : Option StatusKey :=
  if msg.strategy.isHybrid then
    match msg.strategy.isBatch, msg.batchesTable with
    | true, some table => some (.batch msg.db table msg.logId)
    | _, _ => msg.dbTable.statusKey msg.db msg.logId
  else none

inductive Token
  | write (k : StatusKey)
  | handOver (k : StatusKey)
deriving DecidableEq

/-- Programs other than the handlers of confirm messages. -/
def Tag.writes : Tag → Bool
  | .confirm .. => false
  | _ => true

/-- The token a program gets with the success of a request. -/
def Req.gives (t : Tag) : Req → Option Token
  | .insert db table row =>
    if row.anchorStatus = none then none else (table.statusKey db row.id).map .write
  | .insertBatchRecord db table row => some (.write (.batch db table row.merkleRoot))
  | .updateAnchorStatus db table id .pending _ _ =>
    if t.writes then (table.statusKey db id).map .handOver else none
  | .updateBatchAnchorStatus db table root .pending _ _ =>
    if t.writes then some (.handOver (.batch db table root)) else none
  | _ => none

/-- The token a program gives away with the success of a request. -/
def Req.takes (t : Tag) : Req → Option Token
  | .updateAnchorStatus db table id _ _ _ =>
    if t.writes then (table.statusKey db id).map .write else none
  | .updateBatchAnchorStatus db table root _ _ _ =>
    if t.writes then some (.write (.batch db table root)) else none
  | .publishConfirm msg => msg.statusKey.map .handOver
  | _ => none

def Req.succeeds : (e : Req) → e.Answer → Bool
  | .insert .., Except.ok () | .insertBatchRecord .., Except.ok ()
  | .updateAnchorStatus .., Except.ok () | .updateBatchAnchorStatus .., Except.ok ()
  | .publishConfirm _, Except.ok () => true
  | _, _ => false

def tokens (o : Option Token) : Multiset Token := ↑o.toList

@[simp] lemma tokens_none : tokens none = 0 := rfl

@[simp] lemma tokens_some (k : Token) : tokens (some k) = {k} := rfl

/-- A table without a column for the status takes no update of it. -/
def StatusTaken {X : Type} : Event Req Req.Answer Tag X → Prop
  | .call _ (.updateAnchorStatus db table _ _ _ _) (Except.ok ()) => db.hasStatus table = true
  | _ => True

def statusTariff (X : Type) : Tariff Req Req.Answer Tag X Token where
  allowed := StatusTaken
  gain t e r := if e.succeeds r then tokens (e.gives t) else 0
  cost t e r := if e.succeeds r then tokens (e.takes t) else 0
  left := ⊤

/-! ### Storages -/

section Tokens

variable {X : Type} {t : Tag}

/-- A request that neither gives nor takes a token. -/
lemma statusTariff_free {e : Req} (hg : e.gives t = none) (ht : e.takes t = none) :
    (statusTariff X).Free t e := by
  intro r
  simp only [statusTariff, hg, ht, tokens_none, ite_self, and_self]

lemma Req.Looks.free {e : Req} (h : e.Looks) : (statusTariff X).Free t e := by
  apply statusTariff_free
  · cases e with
    | getTransaction _ _ | getReceipt _ _ | getBlockNumber _ | waitReceipt _ | now => rfl
    | _ => exact h.elim
  · cases e with
    | getTransaction _ _ | getReceipt _ _ | getBlockNumber _ | waitReceipt _ | now => rfl
    | _ => exact h.elim

lemma AnchorStep.free {payload : Payload} {e : Req} {tr : Trace Req Req.Answer Tag X}
    (h : AnchorStep payload t e tr) : (statusTariff X).Free t e := by
  cases h with
  | looks h => exact h.free
  | submit _ => exact statusTariff_free rfl rfl

/-- The status of a row is left pending where its transaction is not known to be confirmed. -/
lemma AnchorOutcome.pending {chain : Chain} {payload : Payload} {opts : Option WriteOpts}
    {tr : Trace Req Req.Answer Tag X} {success : Bool} {txId : Option TxHash}
    {confirmed : Option Bool} (h : AnchorOutcome chain payload opts t tr success txId confirmed)
    (htx : txId.isSome) (hc : confirmed ≠ some true) : statusOf confirmed success = .pending := by
  cases h with
  | unsent | refused | lost => cases htx
  | confirmed => exact absurd rfl hc
  | submitted | givenUp => rfl

variable (cfg : ServerConfig)

/-- A failed request neither gives nor takes. -/
lemma statusTariff_failed {e : Req} {r : e.Answer} (h : e.succeeds r = false) (m : Multiset Token) :
    m + (statusTariff X).gain t e r = (statusTariff X).cost t e r + m := by
  simp [statusTariff, h]

lemma statusTariff_done {e : Req} {r : e.Answer} (h : e.succeeds r = true) :
    (statusTariff X).gain t e r = tokens (e.gives t) ∧
      (statusTariff X).cost t e r = tokens (e.takes t) := by
  simp [statusTariff, h]

lemma anchoredNow_tokens (confirmed : Option Bool) (m : Multiset Token) :
    PaysTask (statusTariff X) t (fun _ m' => m' = m) (fun _ _ => False) (anchoredNow confirmed)
      m := by
  apply PaysTask.weaken (PaysTask.of_free (anchoredNow_follows confirmed t [])
    (fun _ _ h => h.free) m)
  · exact fun _ _ h => h.2
  · rintro _ _ ⟨⟨_, h⟩, _⟩
    exact h

/-- After the write of a storage the program may hand over what is not confirmed. -/
def MayHandOver (k : StatusKey) (txId : Option TxHash) (confirmed : Option Bool)
    (m : Multiset Token) : Prop :=
  txId.isSome → confirmed ≠ some true → .handOver k ∈ m

/-- The insertion gives the right to write the status, where the table has one. -/
lemma insertAnchored_tokens (db : Db) (log : LogEntry) (contentHash : JsString) (mode : HybridMode)
    (m : Multiset Token) :
    PaysTask (statusTariff X) t
      (fun _ m' => db.hasStatus mode.logTable = true → .write (mode.statusKey db log.id) ∈ m')
      (fun _ _ => True) (insertAnchored db log contentHash mode.logTable) m := by
  apply PaysTask.request
  intro r _
  cases r with
  | error err => exact ⟨m, statusTariff_failed rfl m, trivial⟩
  | ok u =>
    refine ⟨m + tokens (Req.gives t
      (.insert db mode.logTable (anchoredRow db log contentHash mode.logTable))),
      (zero_add _).symm, fun hstatus => Multiset.mem_add.mpr (.inr ?_)⟩
    cases db with
    | postgres => cases mode with
      | anchored s => exact Multiset.mem_singleton_self _
      | batched s => cases hstatus
    | mongo => cases mode with
      | anchored s => exact Multiset.mem_singleton_self _
      | batched s => exact Multiset.mem_singleton_self _

/-- The status of a row is written; if it stays pending, the row may be handed over. -/
lemma updateStatus_tokens (key : StatusKey) {e : Req} {k : e.Answer → Except JsError Unit}
    {m : Multiset Token} (htakes : e.takes t = some (.write key))
    (hmem : ∀ r, StatusTaken (X := X) (.call t e r) → e.succeeds r = true → .write key ∈ m)
    (hk : ∀ r, e.succeeds r = false → ∃ err, k r = .error err) :
    PaysTask (statusTariff X) t (fun _ m' => ∀ tok, e.gives t = some tok → tok ∈ m')
      (fun _ _ => True) (Task.request e k) m := by
  apply PaysTask.request
  intro r hr
  cases hs : e.succeeds r with
  | false =>
    obtain ⟨err, herr⟩ := hk r hs
    refine ⟨m, statusTariff_failed hs m, ?_⟩
    rw [herr]
    trivial
  | true =>
    obtain ⟨hg, hc⟩ := statusTariff_done (X := X) (t := t) hs
    obtain ⟨m', rfl⟩ := Multiset.exists_cons_of_mem (hmem r hr hs)
    refine ⟨m' + tokens (e.gives t), ?_, ?_⟩
    · rw [hg, hc, htakes, tokens_some, ← Multiset.singleton_add, add_assoc]
    · cases k r with
      | error err => trivial
      | ok u =>
        intro tok htok
        rw [htok, Multiset.mem_add]
        exact .inr (Multiset.mem_singleton_self tok)

lemma HybridStorage.writeLog_tokens (ht : t.writes = true) (db : Db) (anchor : Anchor)
    (mode : HybridMode) (entry : LogEntry) (opts : Option WriteOpts) (m : Multiset Token) :
    PaysTask (statusTariff X) t
      (fun r m' => MayHandOver (mode.statusKey db r.logId) r.txId r.confirmed m')
      (fun _ _ => False) (HybridStorage.writeLog cfg db anchor mode entry opts) m := by
  have hfailed (err : JsError) (m' : Multiset Token) :
      PaysTask (statusTariff X) t
        (fun r m' => MayHandOver (mode.statusKey db r.logId) r.txId r.confirmed m')
        (fun _ _ => False) (pure (.failed entry.id err) : Io WriteResult) m' :=
    PaysTask.pure nofun
  apply PaysTask.tryCatch
  apply PaysTask.bind
  apply PaysTask.weaken (insertAnchored_tokens db _ _ mode m)
  swap
  · exact fun err m' _ => hfailed err m'
  intro _ m₁ hwrite
  apply PaysTask.bind
  apply PaysTask.weaken (PaysTask.of_free
    (anchor.writeLog_follows cfg opts t (entry.withHash cfg.sha) []) (fun _ _ h => h.free) m₁)
  swap
  · rintro err m' ⟨⟨_, h⟩, _⟩
    exact h.elim
  rintro r m₂ ⟨⟨tr, -, hout⟩, rfl⟩
  apply PaysTask.bind
  apply PaysTask.weaken (anchoredNow_tokens r.confirmed m₂)
  swap
  · exact fun err m' h => h.elim
  rintro anchoredAt m₃ rfl
  apply PaysTask.bind
  apply PaysTask.weaken (updateStatus_tokens (mode.statusKey db entry.id) _ _ _)
  · intro _ m₄ hgives
    apply PaysTask.pure
    intro htx hc
    apply hgives
    rw [hout.pending htx hc]
    simp [Req.gives, ht]
  · exact fun err m' _ => hfailed err m'
  · simp [Req.takes, ht]
  · intro r' hallowed hs
    cases r' with
    | ok u => exact hwrite hallowed
    | error err => cases hs
  · intro r' hs
    cases r' with
    | ok u => cases hs
    | error err => exact ⟨err, rfl⟩

lemma LinkReq.free {s : Side} {ids : List JsString} {root : JsString} {db : Db} {e : Req}
    (h : HybridStorage.LinkReq s ids root db e) : (statusTariff X).Free t e := by
  cases db with
  | postgres =>
    cases h
    exact statusTariff_free rfl rfl
  | mongo =>
    obtain ⟨_, _, _, rfl⟩ := h
    exact statusTariff_free rfl rfl

/-- The leaves of a batch are inserted, and nothing else is done. -/
lemma insertLeaves_inserts (db : Db) (entries : List LogEntry) (table : LogTable) :
    FollowsTask (fun _ e _ => ∃ log hash, e = .insert db table (batchedRow db log hash))
      t (fun as _ => List.Forall₂ (fun _ _ => True) entries as) (fun _ _ => ∃ _ ∈ entries, True)
      (promiseAll (entries.map fun e => insertBatched db e e.dataHash table))
      ([] : Trace Req Req.Answer Tag X) := by
  refine @FollowsTask.promiseAll _ _ _ _ _ _ _ _ _ (fun _ _ _ => True) (fun _ _ _ => True)
    _ [] (fun _ _ _ _ _ _ => trivial) (fun _ _ _ _ _ _ => trivial) entries fun e _ => ?_
  apply FollowsTask.request
  · exact fun _ _ => ⟨e, e.dataHash, rfl⟩
  intro r _ _ _
  cases r with
  | ok u => trivial
  | error err => trivial

/-- The leaves of a batch have no status. -/
lemma insertLeaves_tokens (db : Db) (entries : List LogEntry) (table : LogTable)
    (m : Multiset Token) :
    PaysTask (statusTariff X) t (fun _ m' => m' = m) (fun _ _ => True)
      (promiseAll (entries.map fun e => insertBatched db e e.dataHash table)) m := by
  apply PaysTask.weaken (PaysTask.of_free (insertLeaves_inserts db entries table) _ m)
  · exact fun _ _ h => h.2
  · exact fun _ _ _ => trivial
  · rintro _ _ ⟨log, hash, rfl⟩
    exact statusTariff_free rfl rfl

lemma insertBatchRecord_tokens (db : Db) (row : BatchRow) (table : Side) (m : Multiset Token) :
    PaysTask (statusTariff X) t (fun _ m' => .write (.batch db table row.merkleRoot) ∈ m')
      (fun _ _ => True) (insertBatchRecord db row table) m := by
  apply PaysTask.request
  intro r _
  cases r with
  | error err => exact ⟨m, statusTariff_failed rfl m, trivial⟩
  | ok u =>
    exact ⟨m + tokens (Req.gives t (.insertBatchRecord db table row)), (zero_add _).symm,
      Multiset.mem_add.mpr (.inr (Multiset.mem_singleton_self _))⟩

lemma HybridStorage.writeBatch_tokens (ht : t.writes = true) (db : Db) (anchor : Anchor) (s : Side)
    (entries : List LogEntry) (opts : Option WriteOpts) (m : Multiset Token) :
    PaysTask (statusTariff X) t
      (fun r m' => MayHandOver (.batch db s r.batchHash) r.txId r.confirmed m')
      (fun _ _ => False) (HybridStorage.writeBatch cfg db anchor (.batched s) entries opts) m := by
  have hfailed (startId endId : JsString) (n : ℕ) (err : JsError) (m' : Multiset Token) :
      PaysTask (statusTariff X) t
        (fun r m' => MayHandOver (.batch db s r.batchHash) r.txId r.confirmed m')
        (fun _ _ => False) (pure (.failed startId endId n err) : Io BatchWriteResult) m' :=
    PaysTask.pure nofun
  rw [writeBatch]
  split
  · exact hfailed _ _ _ _ _
  next hne =>
  apply PaysTask.tryCatch
  apply PaysTask.bind
  apply PaysTask.weaken (insertLeaves_tokens db _ _ m)
  swap
  · exact fun err m' _ => hfailed _ _ _ _ _
  rintro _ m₁ rfl
  apply PaysTask.bind
  apply PaysTask.weaken (insertBatchRecord_tokens db _ s m₁)
  swap
  · exact fun err m' _ => hfailed _ _ _ _ _
  intro _ m₂ hwrite
  apply PaysTask.bind
  apply PaysTask.weaken (PaysTask.of_free (linkBatchLeaves_follows db t [])
    (fun _ _ h => LinkReq.free h) m₂)
  swap
  · exact fun err m' _ => hfailed _ _ _ _ _
  rintro _ m₃ ⟨-, rfl⟩
  have hne' : entries.map (LogEntry.withHash cfg.sha) ≠ [] := by simpa using hne
  apply PaysTask.bind
  apply PaysTask.weaken (PaysTask.of_free (anchor.writeBatch_follows cfg opts t hne' [])
    (fun _ _ h => h.free) m₃)
  swap
  · rintro err m' ⟨⟨_, h⟩, _⟩
    exact h.elim
  rintro r m₄ ⟨⟨tr, hout, -⟩, rfl⟩
  apply PaysTask.bind
  apply PaysTask.weaken (anchoredNow_tokens r.confirmed m₄)
  swap
  · exact fun err m' h => h.elim
  rintro anchoredAt m₅ rfl
  apply PaysTask.bind
  apply PaysTask.weaken (updateStatus_tokens
    (.batch db s (cfg.sha.computeBatchHash (entries.map (LogEntry.withHash cfg.sha)))) _ _ _)
  · intro _ m₆ hgives
    apply PaysTask.pure
    intro htx hc
    apply hgives
    dsimp only at htx hc
    rw [hout.pending htx hc]
    simp [Req.gives, ht, HybridMode.batchesTable]
  · exact fun err m' _ => hfailed _ _ _ _ _
  · simp [Req.takes, ht, HybridMode.batchesTable]
  · exact fun r' _ _ => hwrite
  · intro r' hs
    cases r' with
    | ok u => cases hs
    | error err => exact ⟨err, rfl⟩

/-- What a storage leaves the program with: for a row of a hybrid storage, the right to hand it
over. -/
def Storage.MayHandOver (st : Storage) (logId : JsString) (txId : Option TxHash)
    (confirmed : Option Bool) (m : Multiset Token) : Prop :=
  ∀ db anchor mode, st = .hybrid db anchor mode →
    HybridLog.MayHandOver (mode.statusKey db logId) txId confirmed m

lemma Storage.writeLog_tokens (ht : t.writes = true) (st : Storage) (entry : LogEntry)
    (opts : Option WriteOpts) (m : Multiset Token) :
    PaysTask (statusTariff X) t (fun r m' => st.MayHandOver r.logId r.txId r.confirmed m')
      (fun _ _ => False) (st.writeLog cfg entry opts) m := by
  cases st with
  | hybrid db anchor mode =>
    apply PaysTask.weaken (HybridStorage.writeLog_tokens cfg ht db anchor mode entry opts m)
    · rintro r m' h _ _ _ heq
      cases heq
      exact h
    · exact fun _ _ h => h
  | offchain db =>
    apply PaysTask.weaken (PaysTask.of_free
      (Storage.writeLog_follows cfg opts entry (.offchain db) t []) _ m)
    · exact fun _ _ _ _ _ _ heq => nomatch heq
    · rintro _ _ ⟨⟨_, h⟩, _⟩
      exact h
    · intro _ _ h
      cases h
      exact statusTariff_free rfl rfl
  | chain anchor =>
    apply PaysTask.weaken (PaysTask.of_free
      (Storage.writeLog_follows cfg opts entry (.chain anchor) t []) _ m)
    · exact fun _ _ _ _ _ _ heq => nomatch heq
    · rintro _ _ ⟨⟨_, h⟩, _⟩
      exact h
    · intro _ _ h
      cases h with
      | chain h => exact h.free

lemma Storage.writeBatch_tokens (ht : t.writes = true) {st : Storage}
    {write : List LogEntry → Option WriteOpts → Io BatchWriteResult}
    (hwrite : st.writeBatch? cfg = some write) (entries : List LogEntry) (opts : Option WriteOpts)
    (m : Multiset Token) :
    PaysTask (statusTariff X) t (fun r m' => st.MayHandOver r.batchHash r.txId r.confirmed m')
      (fun _ _ => False) (write entries opts) m := by
  cases st with
  | offchain db => cases hwrite
  | chain anchor =>
    apply PaysTask.weaken (PaysTask.of_free
      (Storage.writeBatch_follows cfg opts entries t [] hwrite) _ m)
    · exact fun _ _ _ _ _ _ heq => nomatch heq
    · rintro _ _ ⟨⟨_, h⟩, _⟩
      exact h
    · intro _ _ h
      cases h with
      | chain h => exact h.free
  | hybrid db anchor mode => cases mode with
    | anchored s => cases hwrite
    | batched s =>
      cases hwrite
      apply PaysTask.weaken (HybridStorage.writeBatch_tokens cfg ht db anchor s entries opts m)
      · rintro r m' h _ _ _ heq
        cases heq
        exact h
      · exact fun _ _ h => h

/-! ### Messages -/

variable {cfg}

/-- The row a message names is the row its storage has written. -/
lemma Wired.statusKey {s : LogStrategy} {db db' : Db} {anchor : Anchor} {mode : HybridMode}
    (h : Wired cfg s db db' anchor mode) {msg : ConfirmMessage} (hs : msg.strategy = s)
    (hdb : msg.db = db)
    (htable : msg.dbTable = if s.isBatch then s.batchedTableFor else s.anchoredTableFor)
    (hbatches : msg.batchesTable = if s.isBatch then some s.batchesTableFor else none) :
    msg.statusKey = some (mode.statusKey db' msg.logId) := by
  have hlog := h.logTable
  rw [ConfirmMessage.statusKey, hs, if_pos h.isHybrid, hdb, ← h.adapter, hbatches]
  cases hbatch : s.isBatch with
  | false =>
    show msg.dbTable.statusKey db' msg.logId = _
    rw [htable, ← hlog, statusKey_logTable]
  | true =>
    rw [if_pos hbatch] at hlog
    cases mode with
    | anchored sd => cases hlog
    | batched sd =>
      cases hlog
      rfl

/-- The storage of a hybrid strategy is a hybrid one. -/
lemma pickStorage_of_isHybrid {s : LogStrategy} {db : Db} {st : Storage}
    (h : pickStorage cfg (some (.strategy s)) db = some st) (hs : s.isHybrid = true) :
    ∃ db' anchor mode, st = .hybrid db' anchor mode := by
  cases s with
  | databaseOnly | privateChain | publicChain => cases hs
  | hybridPrivate | hybridPrivateBatch | hybridPublic | hybridPublicBatch =>
    exact ⟨_, _, _, (pickStorage_ofDb cfg h).1.symm⟩

/-- A storage that leaves the right to hand a row over leaves what its message takes. -/
lemma Storage.MayHandOver.message {s : LogStrategy} {db : Db} {st : Storage} {logId : JsString}
    {txId : Option TxHash} {confirmed : Option Bool} {m : Multiset Token}
    (h : st.MayHandOver logId txId confirmed m)
    (hst : pickStorage cfg (some (.strategy s)) db = some st) (htx : txId.isSome)
    (hc : confirmed ≠ some true) {msg : ConfirmMessage} (hs : msg.strategy = s)
    (hdb : msg.db = db)
    (htable : msg.dbTable = if s.isBatch then s.batchedTableFor else s.anchoredTableFor)
    (hbatches : msg.batchesTable = if s.isBatch then some s.batchesTableFor else none)
    (hid : msg.logId = logId) : ∃ m', m = tokens ((Req.publishConfirm msg).takes t) + m' := by
  cases hybrid : s.isHybrid with
  | false =>
    refine ⟨m, ?_⟩
    simp [Req.takes, ConfirmMessage.statusKey, hs, hybrid]
  | true =>
    obtain ⟨db', anchor, mode, rfl⟩ := pickStorage_of_isHybrid hst hybrid
    have hkey := (pickStorage_hybrid cfg hst).statusKey hs hdb htable hbatches
    obtain ⟨m', rfl⟩ := Multiset.exists_cons_of_mem (h db' anchor mode rfl htx hc)
    refine ⟨m', ?_⟩
    rw [Req.takes, hkey, hid]
    exact (Multiset.singleton_add _ _).symm

/-! ### Programs -/

section Programs

/-- A program that may leave what it wants. -/
abbrev Affords (t : Tag) {α : Type} (p : Io α) (m : Multiset Token) : Prop :=
  PaysTask (statusTariff X) t (fun _ _ => True) (fun _ _ => True) p m

lemma affords_request {α : Type} {e : Req} {k : e.Answer → Except JsError α} {m : Multiset Token}
    (h : ∃ m', m = tokens (e.takes t) + m') : Affords (X := X) t (Task.request e k) m := by
  apply PaysTask.request
  intro r _
  cases hs : e.succeeds r with
  | false =>
    refine ⟨m, statusTariff_failed hs m, ?_⟩
    split <;> trivial
  | true =>
    obtain ⟨hg, hc⟩ := statusTariff_done (X := X) (t := t) hs
    obtain ⟨m', rfl⟩ := h
    refine ⟨m' + tokens (e.gives t), by rw [hg, hc, add_assoc], ?_⟩
    split <;> trivial

/-- A request that takes nothing. -/
lemma affords_plain {α : Type} {e : Req} {k : e.Answer → Except JsError α} {m : Multiset Token}
    (h : e.takes t = none) : Affords (X := X) t (Task.request e k) m :=
  affords_request ⟨m, by rw [h, tokens_none, zero_add]⟩

lemma affords_bind {α β : Type} {p : Io α} {f : α → Io β} {m : Multiset Token}
    (hp : Affords (X := X) t p m) (hf : ∀ a m', Affords (X := X) t (f a) m') :
    Affords (X := X) t (p >>= f) m := by
  apply PaysTask.bind
  apply PaysTask.weaken hp
  · exact fun a m' _ => hf a m'
  · exact fun _ _ _ => trivial

lemma affords_tryCatch {α : Type} {p : Io α} {f : JsError → Io α} {m : Multiset Token}
    (hp : Affords (X := X) t p m) (hf : ∀ err m', Affords (X := X) t (f err) m') :
    Affords (X := X) t (tryCatch p f) m := by
  apply PaysTask.tryCatch
  apply PaysTask.weaken hp
  · exact fun _ _ _ => trivial
  · exact fun err m' _ => hf err m'

lemma publishConfirm_tokens {msg : ConfirmMessage} {m : Multiset Token}
    (h : ∃ m', m = tokens ((Req.publishConfirm msg).takes t) + m') :
    Affords (X := X) t (publishConfirm msg) m := by
  rw [publishConfirm]
  split
  · exact affords_request h
  · exact PaysTask.throw trivial

lemma replyIfAsked_tokens (replyTo : Option JsString) (msg : ResultMessage) (m : Multiset Token) :
    Affords (X := X) t (replyIfAsked replyTo msg) m := by
  rw [replyIfAsked]
  cases replyQueue replyTo with
  | none => exact PaysTask.pure trivial
  | some queue => exact affords_tryCatch (affords_plain rfl) fun _ _ => PaysTask.pure trivial

variable (cfg)

lemma submitWrite_tokens (ht : t.writes = true) (strategy : LogStrategy) (raw : SubmitMessage)
    (m : Multiset Token) :
    PaysTask (statusTariff X) t
      (fun w m' => ∀ txHash, w.txId = some txHash → w.confirmed = false → ∃ m'',
        m' = tokens ((Req.publishConfirm (confirmMessage strategy raw w.logId txHash)).takes t) + m'')
      (fun _ _ => True) (submitWrite cfg (raw.storage cfg strategy) raw.body) m := by
  unfold submitWrite
  split
  · exact PaysTask.throw trivial
  · next st dtos hst _ =>
    split
    · exact PaysTask.throw trivial
    next write hwrite =>
    apply PaysTask.bind
    apply PaysTask.weaken (Storage.writeBatch_tokens cfg ht hwrite _ (some submitOnlyOpts) m)
    · intro r m' h
      apply PaysTask.pure
      intro txHash htx hc
      refine h.message hst (Option.isSome_of_eq_some htx) ?_ rfl rfl rfl rfl rfl
      intro hr
      simp [hr] at hc
    · exact fun _ _ _ => trivial
  · next st dto hst _ =>
    apply PaysTask.bind
    apply PaysTask.weaken (Storage.writeLog_tokens cfg ht st _ (some submitOnlyOpts) m)
    · intro r m' h
      apply PaysTask.pure
      intro txHash htx hc
      refine h.message hst (Option.isSome_of_eq_some htx) ?_ rfl rfl rfl rfl rfl
      intro hr
      simp [hr] at hc
    · exact fun _ _ _ => trivial

lemma submitHandler_tokens (ht : t.writes = true) (strategy : LogStrategy) (raw : SubmitMessage)
    (m : Multiset Token) : Affords (X := X) t (submitHandler cfg strategy raw) m := by
  refine PaysTask.finallyDo (PaysTask.weaken (?body : Affords (X := X) t _ m) ?_ ?_)
  case body =>
    apply affords_tryCatch
    · apply PaysTask.bind
      apply PaysTask.weaken (submitWrite_tokens cfg ht strategy raw m)
      · rintro ⟨txId, confirmed, logId⟩ m' h
        cases txId with
        | none => exact replyIfAsked_tokens _ _ _
        | some txHash => cases confirmed with
          | true => exact replyIfAsked_tokens _ _ _
          | false => exact publishConfirm_tokens (h txHash rfl rfl)
      · exact fun _ _ _ => trivial
    · exact fun _ _ => replyIfAsked_tokens _ _ _
  · exact fun _ _ _ => affords_plain rfl
  · exact fun _ _ _ => affords_plain rfl

lemma onFlush_tokens {key : WriterKey} {st : Storage} {r : BatchWriteResult} {m : Multiset Token}
    (hst : key.storage cfg = some st) (h : st.MayHandOver r.batchHash r.txId r.confirmed m) :
    Affords (X := X) t (onFlush key r) m := by
  rw [onFlush]
  split
  · exact PaysTask.pure trivial
  next txHash htx =>
  split
  · exact PaysTask.pure trivial
  next hc =>
  split
  · exact PaysTask.throw trivial
  next s hs =>
  rw [WriterKey.storage, hs] at hst
  have hnow : FollowsTask LookStep t (fun _ _ => True) (fun _ _ => False) now
      ([] : Trace Req Req.Answer Tag X) :=
    FollowsTask.request (fun _ _ => trivial) fun _ _ _ _ => trivial
  apply PaysTask.bind
  apply PaysTask.weaken (PaysTask.of_free hnow (fun _ _ h => h.free) m)
  · rintro enqueuedAt m' ⟨-, rfl⟩
    apply publishConfirm_tokens
    exact h.message hst (Option.isSome_of_eq_some htx) hc rfl rfl rfl rfl rfl
  · exact fun _ _ _ => trivial

lemma flushBatch_tokens (ht : t.writes = true) (key : WriterKey) (pending : List PendingEntry) :
    Affords (X := X) t (flushBatch cfg key pending) 0 := by
  have hsettle (settled : List (ℕ × Outcome)) (m' : Multiset Token) :
      Affords (X := X) t (settlePromises settled) m' := affords_plain rfl
  have hsettled (settled : List (ℕ × Outcome)) :
      FollowsTask (fun _ e _ => (statusTariff X).Free t e) t (fun _ _ => True) (fun _ _ => False)
        (settlePromises settled) ([] : Trace Req Req.Answer Tag X) :=
    FollowsTask.request (fun _ _ => statusTariff_free rfl rfl) fun _ _ _ _ => trivial
  apply affords_tryCatch
  · split
    · exact PaysTask.throw trivial
    next st hst =>
    split
    · next write hwrite =>
      apply PaysTask.bind
      apply PaysTask.weaken (Storage.writeBatch_tokens cfg ht hwrite _ key.opts 0)
      · intro r m' h
        apply PaysTask.bind
        apply PaysTask.weaken (PaysTask.of_free (hsettled _) (fun _ _ h => h) m')
        · rintro _ m'' ⟨-, rfl⟩
          split
          · exact onFlush_tokens cfg hst h
          · exact PaysTask.pure trivial
        · exact fun _ _ _ => trivial
      · exact fun _ _ _ => trivial
    · apply PaysTask.bind
      apply PaysTask.weaken (PaysTask.promiseAll pending _)
      · exact fun _ m' _ => hsettle _ m'
      · exact fun _ _ _ => trivial
      · intro p _
        apply PaysTask.weaken (Storage.writeLog_tokens cfg ht st p.entry key.opts 0)
        · exact fun _ _ _ => AddSubmonoid.mem_top _
        · exact fun _ _ h => h
  · exact fun _ m' => hsettle _ m'

lemma batchWrite_tokens (ht : t.writes = true) (key : WriterKey) (entry : LogEntry)
    (m : Multiset Token) : Affords (X := X) t (batchWrite cfg key entry) m := by
  apply affords_bind (affords_plain rfl)
  rintro ⟨promise, batch⟩ m'
  dsimp only
  split
  · exact affords_plain rfl
  · apply affords_bind
    · refine PaysTask.spawn ?_ trivial
      apply PaysTask.detach
      apply PaysTask.weaken (flushBatch_tokens cfg ht key batch)
      · exact fun _ _ _ => AddSubmonoid.mem_top _
      · exact fun _ _ _ => AddSubmonoid.mem_top _
    · exact fun _ _ => affords_plain rfl

lemma postLog_tokens (ht : t.writes = true) (req : PostRequest) (entry : LogEntry)
    (m : Multiset Token) : Affords (X := X) t (postLog cfg req entry) m := by
  have hrespond (reply : Reply) (m' : Multiset Token) : Affords (X := X) t (respond reply) m' :=
    affords_plain rfl
  apply affords_tryCatch
  · split
    · exact hrespond _ m
    split
    · next mode hmode =>
      apply affords_bind
      · cases mode with
        | other name => exact PaysTask.throw trivial
        | strategy s =>
          simp only [publishLog]
          split
          · exact PaysTask.throw trivial
          · exact PaysTask.throw trivial
          · exact affords_bind (affords_plain rfl) fun _ _ => affords_plain rfl
      · exact fun _ m' => hrespond _ m'
    split
    · apply affords_bind (batchWrite_tokens cfg ht req.writerKey entry m)
      exact fun _ m' => hrespond _ m'
    · apply affords_bind
      · unfold syncWrite
        split
        · exact PaysTask.throw trivial
        · next st hst =>
          apply PaysTask.weaken (Storage.writeLog_tokens cfg ht st entry none m)
          · exact fun _ _ _ => trivial
          · exact fun _ _ _ => trivial
      · exact fun _ m' => hrespond _ m'
  · exact fun _ m' => hrespond _ m'

/-- The handler of a confirm message needs no tokens. -/
lemma confirmHandler_tokens (seq : ℕ) (strategy : LogStrategy) (raw msg : ConfirmMessage)
    (m : Multiset Token) :
    Affords (X := X) (.confirm seq msg) (confirmHandler cfg strategy raw) m := by
  have hfree (e : Req) (tr : Trace Req Req.Answer Tag X)
      (h : ConfirmStep cfg strategy raw (.confirm seq msg) e tr) :
      (statusTariff X).Free (.confirm seq msg) e := by
    cases h with
    | update h => cases h with
      | looks h => exact h.free
      | @batch r _ _ _ _ _ _ => cases hr : r.status <;> exact statusTariff_free rfl rfl
      | @log r _ _ _ _ _ => cases hr : r.status <;> exact statusTariff_free rfl rfl
    | reply _ _ _ | ack _ => exact statusTariff_free rfl rfl
  apply PaysTask.weaken (PaysTask.of_free
    (confirmHandler_follows cfg strategy raw (Tag.confirm seq msg) []) hfree m)
  · exact fun _ _ _ => trivial
  · exact fun _ _ _ => trivial

lemma affords_detach {t : Tag} {α : Type} {p : Io α} {m : Multiset Token}
    (h : Affords (X := X) t p m) :
    Pays (statusTariff X) t (fun _ m' => m' ∈ (statusTariff X).left) p.run.detach m := by
  apply PaysTask.detach
  apply PaysTask.weaken h
  · exact fun _ _ _ => AddSubmonoid.mem_top _
  · exact fun _ _ _ => AddSubmonoid.mem_top _

lemma consume_tokens {t : Tag} {p : Io Unit} {m : Multiset Token} (h : Affords (X := X) t p m) :
    Pays (statusTariff X) t (fun _ m' => m' ∈ (statusTariff X).left) (consume p).run.detach m :=
  affords_detach (affords_tryCatch h fun _ _ => affords_plain rfl)

lemma accept_tokens (objectHash : ObjectHash) {x : External} {s s' : State}
    {ps : List (Tag × Prog Req Req.Answer Unit)}
    (h : s.accept cfg objectHash x = some (s', ps)) : PoolPays (statusTariff X) ps 0 := by
  cases x with
  | post req id timestamp =>
    simp only [State.accept] at h
    split at h
    · cases h
      exact .single (affords_detach (postLog_tokens cfg rfl req _ 0))
    · cases h
  | enqueue msg =>
    simp only [State.accept] at h
    split at h
    · cases h
      exact .nil
    · cases h
  | expire key batch =>
    simp only [State.accept] at h
    split at h
    · cases h
      split
      · exact .nil
      · exact .single (affords_detach (flushBatch_tokens cfg rfl key batch))
    · cases h
  | deliverSubmit seq msg =>
    simp only [State.accept] at h
    split at h
    · cases h
      exact .single (consume_tokens (submitHandler_tokens cfg rfl msg.strategy msg 0))
    · cases h
  | deliverConfirm seq msg =>
    simp only [State.accept] at h
    split at h
    · cases h
      exact .single (consume_tokens (confirmHandler_tokens cfg seq msg.strategy msg msg 0))
    · cases h
  | chain x =>
    obtain ⟨s₁, _, heq⟩ := Option.map_eq_some_iff.mp h
    cases heq
    exact .nil

end Programs

end Tokens

/-! ### Runs -/

/-- The tokens given, and those taken, by what has happened. -/
def given (tr : RedeliveryTrace) : Multiset Token :=
  (tr.map ((statusTariff Delivery).charged fun _ => 0)).sum

def taken (tr : RedeliveryTrace) : Multiset Token :=
  (tr.map (statusTariff Delivery).paid).sum

variable {cfg : ServerConfig} {objectHash : ObjectHash}

/-- The status of a row is updated only where its table has the column. -/
lemma statusTaken {c : RedeliveryConfig} (h : Reach (atLeastOnce cfg objectHash) .start c) :
    ∀ ev ∈ c.world.trace, StatusTaken ev := by
  induction h with
  | refl =>
    intro ev hev
    cases hev
  | tail _ hstep ih =>
    cases hstep with
    | @call w l l' t e k r s hs =>
      intro ev hev
      rcases List.mem_append.mp hev with hev | hev
      · exact ih ev hev
      · cases List.mem_singleton.mp hev
        rcases State.apply_eq_some hs with ⟨he, -⟩ | ⟨-, -, hs⟩
        · rcases he with rfl | rfl <;> trivial
        · cases State.answer_effect hs with
          | status h => exact h
          | idle hidle =>
            cases e with
            | updateAnchorStatus _ _ _ _ _ _ =>
              cases r with
              | ok u => exact hidle.elim
              | error err => trivial
            | _ => trivial
          | _ => trivial
    | fork => exact ih
    | left => exact ih
    | right => exact ih
    | done => exact ih
    | ext hs =>
      intro ev hev
      rcases List.mem_append.mp hev with hev | hev
      · exact ih ev hev
      · cases List.mem_singleton.mp hev
        trivial

/-- Nobody gives away what nobody was given. -/
theorem taken_le_given {c : RedeliveryConfig} (h : Reach (atLeastOnce cfg objectHash) .start c) :
    taken c.world.trace ≤ given c.world.trace := by
  have hext (x : Delivery) (s s' : State) (ps : List (Tag × Prog Req Req.Answer Unit))
      (hx : (atLeastOnce cfg objectHash).accept x s = some (s', ps)) :
      PoolPays (statusTariff Delivery) ps 0 := by
    rcases atLeastOnce_accept cfg objectHash hx with ⟨y, rfl, hy⟩ | ⟨seq, msg, rfl, -, rfl⟩
    · exact accept_tokens cfg objectHash hy
    · exact .nil
  obtain ⟨dues, left, -, -, hsum⟩ := Reach.balanced hext h (statusTaken h)
  rw [given, taken, hsum, add_assoc]
  exact Multiset.le_add_right _ _

end HybridLog
