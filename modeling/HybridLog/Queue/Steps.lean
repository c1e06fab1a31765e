import HybridLog.Queue.Subscriber
import HybridLog.Storage.Writes

/-!
# What the handlers do

The requests of the handlers of submit and confirm queues, what they have seen before each of them,
and how they end.
-/

namespace HybridLog

open Js Async

variable {T X : Type}

/-! ### Writing the entries of a message -/

section Write

variable (cfg : ServerConfig) (storage : Option Storage)

/-- The requests of the storage of a submit handler. -/
inductive WriteStep (t : T) : SubmitBody → Req → Trace Req Req.Answer T X → Prop
  | entry {st : Storage} {dto : EntryDTO} {e : Req} {tr : Trace Req Req.Answer T X}
    (hst : storage = some st)
    (h : Storage.LogStep cfg (some submitOnlyOpts) (dtoToEntry dto.parsed) t st e tr) :
    WriteStep t (.entry dto) e tr
  | entries {st : Storage} {dtos : List EntryDTO} {e : Req} {tr : Trace Req Req.Answer T X}
    (hst : storage = some st)
    (h : Storage.BatchStep cfg (some submitOnlyOpts) (SubmitBody.entries dtos).read t st e tr) :
    WriteStep t (.entries dtos) e tr

/-- What a submit handler goes on with, by the result of its storage. -/
inductive Written (t : T) (tr : Trace Req Req.Answer T X) : SubmitBody → Submitted → Prop
  | entry {st : Storage} {dto : EntryDTO} {r : WriteResult} (hst : storage = some st)
    (h : Storage.LogResult cfg (some submitOnlyOpts) (dtoToEntry dto.parsed) t tr st r) :
    Written t tr (.entry dto) ⟨r.txId, r.confirmed.getD true, r.logId⟩
  | entries {st : Storage} {dtos : List EntryDTO} {r : BatchWriteResult} (hst : storage = some st)
    (h : Storage.BatchResult cfg (some submitOnlyOpts) (SubmitBody.entries dtos).read t tr st r) :
    Written t tr (.entries dtos) ⟨r.txId, r.confirmed.getD true, r.batchHash⟩

/-- There is no storage to write to, or none that takes a batch. -/
inductive NotWritten : SubmitBody → Prop
  | noStorage {body : SubmitBody} (hst : storage = none) : NotWritten body
  | noBatch {st : Storage} {dtos : List EntryDTO} (hst : storage = some st)
    (h : st.writeBatch? cfg = none) : NotWritten (.entries dtos)

variable {cfg storage}

lemma Written.later {t : T} {tr tr' : Trace Req Req.Answer T X} {body : SubmitBody} {w : Submitted}
    (h : Written cfg storage t tr body w) (htr : tr <+: tr') : Written cfg storage t tr' body w := by
  cases h with
  | entry hst h => exact .entry hst (h.later htr)
  | entries hst h => exact .entries hst (h.later htr)

lemma WriteStep.ofStorage {t : T} {tr : Trace Req Req.Answer T X} {body : SubmitBody} {e : Req}
    (h : WriteStep cfg storage t body e tr) : e.OfStorage := by
  cases h with
  | entry _ h => exact h.ofStorage
  | entries _ h => exact h.ofStorage

variable (cfg storage)

lemma submitWrite_follows (body : SubmitBody) (t : T) (tr : Trace Req Req.Answer T X) :
    FollowsTask (fun t e tr => WriteStep cfg storage t body e tr) t
      (fun w tr' => Written cfg storage t tr' body w) (fun _ _ => NotWritten cfg storage body)
      (submitWrite cfg storage body) tr := by
  cases storage with
  | none => exact FollowsTask.throw fun _ _ => .noStorage rfl
  | some st => cases body with
    | entry dto =>
      apply FollowsTask.bind
      apply FollowsTask.weaken (FollowsTask.allow
        (st.writeLog_follows cfg (some submitOnlyOpts) (dtoToEntry dto.parsed) t tr) _)
      · intro r tr' _ h
        exact FollowsTask.pure fun _ htr => .entry rfl (h.later htr)
      · exact fun _ _ _ h => h.elim
      · exact fun _ _ _ h => .entry rfl h
    | entries dtos =>
      simp only [submitWrite]
      split
      · next hwrite => exact FollowsTask.throw fun _ _ => .noBatch rfl hwrite
      · next write hwrite =>
        apply FollowsTask.bind
        apply FollowsTask.weaken (FollowsTask.allow
          (Storage.writeBatch_follows cfg (some submitOnlyOpts) _ t tr hwrite) _)
        · intro r tr' _ h
          exact FollowsTask.pure fun _ htr => .entries rfl (h.later htr)
        · exact fun _ _ _ h => h.elim
        · exact fun _ _ _ h => .entries rfl h

end Write

/-! ### Submit handlers -/

section Submit

variable (cfg : ServerConfig) (strategy : LogStrategy) (raw : SubmitMessage)

/-- The storage of a submit handler. -/
abbrev SubmitMessage.storage : Option Storage := pickStorage cfg (some (.strategy strategy)) raw.db

/-- The handler of a message hands over a transaction: what has been written says which. -/
structure HandsOver (t : T) (tr : Trace Req Req.Answer T X) (logId : JsString) (txHash : TxHash) :
    Prop where
  written : Written cfg (raw.storage cfg strategy) t tr raw.body ⟨some txHash, false, logId⟩

/-- How the `try` block of a submit handler ends: with the transaction handed over, with what it
replies, or with an exception. -/
inductive SubmitEnd (t : T) (tr : Trace Req Req.Answer T X) : Prop
  | handedOver {logId : JsString} {txHash : TxHash}
    (h : HandsOver cfg strategy raw t tr logId txHash)
    (hp : Did t (.publishConfirm (confirmMessage strategy raw logId txHash)) (Except.ok ()) tr)
  | replied {w : Submitted} (h : Written cfg (raw.storage cfg strategy) t tr raw.body w)
    (hw : w.txId = none ∨ w.confirmed = true)
  | notHandedOver {logId : JsString} {txHash : TxHash}
    (h : HandsOver cfg strategy raw t tr logId txHash)
    (hp : strategy.hasQueue = false ∨ ∃ err,
      Did t (.publishConfirm (confirmMessage strategy raw logId txHash)) (Except.error err) tr)
  | notWritten (h : NotWritten cfg (raw.storage cfg strategy) raw.body)

/-- The requests of a submit handler. -/
inductive SubmitStep (t : T) : Req → Trace Req Req.Answer T X → Prop
  | write {e : Req} {tr : Trace Req Req.Answer T X}
    (h : WriteStep cfg (raw.storage cfg strategy) t raw.body e tr) : SubmitStep t e tr
  | handOver {logId : JsString} {txHash : TxHash} {tr : Trace Req Req.Answer T X}
    (h : HandsOver cfg strategy raw t tr logId txHash) :
    SubmitStep t (.publishConfirm (confirmMessage strategy raw logId txHash)) tr
  | reply {queue : JsString} {msg : ResultMessage} {tr : Trace Req Req.Answer T X}
    (hq : replyQueue raw.replyTo = some queue) (hid : msg.correlationId = raw.correlationId)
    (h : SubmitEnd cfg strategy raw t tr) : SubmitStep t (.publishReply queue msg) tr
  | ack {tr : Trace Req Req.Answer T X} (h : SubmitEnd cfg strategy raw t tr) :
    SubmitStep t .ack tr

variable {cfg strategy raw} {t : T} {tr tr' : Trace Req Req.Answer T X}

lemma HandsOver.later {logId : JsString} {txHash : TxHash}
    (h : HandsOver cfg strategy raw t tr logId txHash) (htr : tr <+: tr') :
    HandsOver cfg strategy raw t tr' logId txHash := ⟨h.written.later htr⟩

lemma SubmitEnd.later (h : SubmitEnd cfg strategy raw t tr) (htr : tr <+: tr') :
    SubmitEnd cfg strategy raw t tr' := by
  cases h with
  | handedOver h hp => exact .handedOver (h.later htr) (hp.later htr)
  | replied h hw => exact .replied (h.later htr) hw
  | notHandedOver h hp =>
    exact .notHandedOver (h.later htr) (hp.imp_right fun ⟨err, hp⟩ => ⟨err, hp.later htr⟩)
  | notWritten h => exact .notWritten h

/-- A reply keeps to any guard that allows it, and lets no exception through. -/
lemma replyIfAsked_follows {P : Guard Req Req.Answer T X} {Q : Trace Req Req.Answer T X → Prop}
    {Er : JsError → Trace Req Req.Answer T X → Prop}
    {replyTo : Option JsString} {msg : ResultMessage}
    (hQ : ∀ tr tr', tr <+: tr' → Q tr → Q tr')
    (hP : ∀ queue tr', replyQueue replyTo = some queue → tr <+: tr' → P t (.publishReply queue msg) tr')
    (h : Q tr) :
    FollowsTask P t (fun _ => Q) Er (replyIfAsked replyTo msg) tr := by
  rw [replyIfAsked]
  cases hq : replyQueue replyTo with
  | none => exact FollowsTask.pure fun tr' htr => hQ tr tr' htr h
  | some queue =>
    apply FollowsTask.tryCatch
    apply FollowsTask.request
    · exact fun tr' htr => hP queue tr' hq htr
    intro r tr' htr _
    cases r with
    | ok u => exact hQ tr tr' htr h
    | error err => exact FollowsTask.pure fun tr'' htr' => hQ tr tr'' (htr.trans htr') h

variable (cfg strategy raw t tr)

lemma submitHandler_follows :
    FollowsTask (fun t e tr => SubmitStep cfg strategy raw t e tr) t
      (fun _ tr' => SubmitEnd cfg strategy raw t tr') (fun _ _ => False)
      (submitHandler cfg strategy raw) tr := by
  -- whatever is replied, the end of the handler stays what it is
  have hreply {Er : JsError → Trace Req Req.Answer T X → Prop} {success : Bool}
      {txHash : Option TxHash} {err : Option JsError} {tr₁ : Trace Req Req.Answer T X}
      (hend : SubmitEnd cfg strategy raw t tr₁) :
      FollowsTask (fun t e tr => SubmitStep cfg strategy raw t e tr) t
        (fun _ tr' => SubmitEnd cfg strategy raw t tr') Er
        (replyIfAsked raw.replyTo ⟨raw.correlationId, success, txHash, err⟩) tr₁ := by
    apply replyIfAsked_follows (fun _ _ htr h => h.later htr) _ hend
    intro queue tr₂ hqueue htr
    exact .reply hqueue rfl (hend.later htr)
  refine FollowsTask.finallyDo (FollowsTask.weaken
    (?body : FollowsTask (fun t e tr => SubmitStep cfg strategy raw t e tr) t
      (fun _ tr' => SubmitEnd cfg strategy raw t tr') (fun _ _ => False) _ tr) ?_ ?_)
  case body =>
    apply FollowsTask.tryCatch
    apply FollowsTask.bind
    apply FollowsTask.weaken (FollowsTask.allow
      (submitWrite_follows cfg (raw.storage cfg strategy) raw.body t tr) _)
    · rintro ⟨txId, confirmed, logId⟩ tr₁ _ h
      cases txId with
      | none => exact hreply (.replied h (.inl rfl))
      | some txHash => cases confirmed with
        | true => exact hreply (.replied h (.inr rfl))
        | false =>
          have hover : HandsOver cfg strategy raw t tr₁ logId txHash := ⟨h⟩
          simp only [publishConfirm]
          split
          · apply FollowsTask.request
            · exact fun tr₂ htr => .handOver (hover.later htr)
            intro r tr₂ htr hp
            cases r with
            | ok u => exact .handedOver (hover.later htr) hp
            | error err => exact hreply (.notHandedOver (hover.later htr) (.inr ⟨err, hp⟩))
          · next hqueue =>
            have hnone : strategy.hasQueue = false := by simpa [confirmMessage] using hqueue
            apply FollowsTask.throw
            intro tr₂ htr
            exact hreply (.notHandedOver (hover.later htr) (.inl hnone))
    · intro err tr₁ _ h
      exact hreply (.notWritten h)
    · exact fun _ _ _ h => .write h
  · intro _ tr₁ _ h
    apply FollowsTask.request
    · exact fun tr₂ htr => .ack (h.later htr)
    · exact fun _ tr₂ htr _ => h.later htr
  · exact fun _ _ _ h => h.elim

end Submit

/-! ### Polls -/

section Poll

variable (cfg : ServerConfig) (txHash : TxHash) (t : T) (tr : Trace Req Req.Answer T X)

/-- What `checkTx` has seen at poll `n`, and what it makes of it. -/
inductive Checked (n : ℕ) : Chain → TxCheck → Prop
  | exonum {r : Except JsError ExplorerType} (h : Did t (.getTransaction txHash n) r tr) :
    Checked n .exonum (checkOf r)
  | noReceipt {r : Except JsError (Option Receipt)} (h : Did t (.getReceipt txHash n) r tr)
    (hr : ∀ receipt, r ≠ .ok (some receipt)) : Checked n .ethereum ⟨false, true⟩
  | reverted {receipt : Receipt} (h : Did t (.getReceipt txHash n) (Except.ok (some receipt)) tr)
    (hr : receipt.status = false) : Checked n .ethereum ⟨false, false⟩
  | noBlock {receipt : Receipt} {err : JsError}
    (h : Did t (.getReceipt txHash n) (Except.ok (some receipt)) tr) (hr : receipt.status = true)
    (hb : Did t (.getBlockNumber n) (Except.error err) tr) : Checked n .ethereum ⟨false, true⟩
  | block {receipt : Receipt} {current : ℕ}
    (h : Did t (.getReceipt txHash n) (Except.ok (some receipt)) tr) (hr : receipt.status = true)
    (hb : Did t (.getBlockNumber n) (Except.ok current) tr) :
    Checked n .ethereum ⟨decide (receipt.blockNumber + cfg.confirmationBlocks ≤ current),
      !decide (receipt.blockNumber + cfg.confirmationBlocks ≤ current)⟩

/-- What the loop of a confirm handler ends with: the first poll that decides, or the last one. -/
structure Polled (chain : Chain) (r : TxCheck) : Prop where
  checked : ∃ n, Checked cfg txHash t tr n chain r ∧ (r.confirmed ∨ r.pending = false ∨ n = 59)

variable {cfg txHash t tr} {tr' : Trace Req Req.Answer T X} {chain : Chain} {r : TxCheck}

lemma Checked.of_did {X' : Type} {tr' : Trace Req Req.Answer T X'} {n : ℕ}
    (h : Checked cfg txHash t tr n chain r) (htr : ∀ t e r, Did t e r tr → Did t e r tr') :
    Checked cfg txHash t tr' n chain r := by
  cases h with
  | exonum h => exact .exonum (htr _ _ _ h)
  | noReceipt h hr => exact .noReceipt (htr _ _ _ h) hr
  | reverted h hr => exact .reverted (htr _ _ _ h) hr
  | noBlock h hr hb => exact .noBlock (htr _ _ _ h) hr (htr _ _ _ hb)
  | block h hr hb => exact .block (htr _ _ _ h) hr (htr _ _ _ hb)

lemma Checked.later {n : ℕ} (h : Checked cfg txHash t tr n chain r) (htr : tr <+: tr') :
    Checked cfg txHash t tr' n chain r :=
  h.of_did fun _ _ _ hd => hd.later htr

lemma Polled.later (h : Polled cfg txHash t tr chain r) (htr : tr <+: tr') :
    Polled cfg txHash t tr' chain r := by
  obtain ⟨n, hn, hend⟩ := h
  exact ⟨n, hn.later htr, hend⟩

/-- What is told to be confirmed is so by the chain. -/
lemma Polled.seenConfirmed (h : Polled cfg txHash t tr chain r) (hr : r.confirmed = true) :
    SeenConfirmed t tr txHash chain := by
  obtain ⟨n, hn, -⟩ := h
  cases hn with
  | @exonum a h =>
    cases a with
    | error err => cases hr
    | ok type => cases type with
      | committed => exact .committed h
      | inPool | other => cases hr
  | noReceipt | reverted | noBlock => cases hr
  | block h hstatus _ => exact .receipt h hstatus

variable (cfg txHash t tr chain)

lemma checkTx_follows (n : ℕ) :
    FollowsTask LookStep t (fun r tr' => Checked cfg txHash t tr' n chain r) (fun _ _ => False)
      (checkTx cfg chain txHash n) tr := by
  cases chain with
  | exonum =>
    apply FollowsTask.weaken (ExonumAnchor.checkTx_follows t txHash n tr)
    · rintro r tr' _ ⟨a, h, rfl⟩
      exact .exonum h
    · exact fun _ _ _ h => h
  | ethereum =>
    apply FollowsTask.tryCatch
    apply FollowsTask.bind
    apply FollowsTask.request
    · exact fun _ _ => trivial
    intro a tr₁ _ h
    rcases a with err | _ | receipt
    · exact FollowsTask.pure fun _ htr => .noReceipt (Did.later h htr) nofun
    · exact FollowsTask.pure fun _ htr => .noReceipt (Did.later h htr) nofun
    cases hs : receipt.status with
    | false =>
      simp only [id, hs, Bool.false_eq_true, if_false]
      exact FollowsTask.pure fun _ htr => .reverted (Did.later h htr) hs
    | true =>
      simp only [id, hs, if_true]
      apply FollowsTask.bind
      apply FollowsTask.request
      · exact fun _ _ => trivial
      intro b tr₂ htr₂ hb
      have h₂ : Did t _ _ tr₂ := Did.later h htr₂
      cases b with
      | error err =>
        exact FollowsTask.pure fun _ htr => .noBlock (h₂.later htr) hs (Did.later hb htr)
      | ok current =>
        exact FollowsTask.pure fun _ htr => .block (h₂.later htr) hs (Did.later hb htr)

/-- The loop from poll `n` on, given what the poll before has told. -/
lemma pollFrom_follows : ∀ (left n : ℕ) (last : TxCheck) (tr : Trace Req Req.Answer T X),
    n + left = 60 → (left = 0 → Checked cfg txHash t tr 59 chain last) →
    FollowsTask LookStep t (fun r tr' => Polled cfg txHash t tr' chain r) (fun _ _ => False)
      (pollFrom cfg chain txHash last left n) tr
  | 0, _, _, _, _, hlast =>
    FollowsTask.pure fun _ htr => ⟨59, (hlast rfl).later htr, .inr (.inr rfl)⟩
  | left + 1, n, last, tr, hsum, _ => by
    apply FollowsTask.bind
    apply FollowsTask.weaken (checkTx_follows cfg txHash t tr chain n)
    · intro r tr₁ _ h
      split
      · next hr =>
        refine FollowsTask.pure fun _ htr => ⟨n, h.later htr, ?_⟩
        simp only [Bool.or_eq_true, Bool.not_eq_true'] at hr
        exact hr.imp_right .inl
      · apply pollFrom_follows left (n + 1) r tr₁ (by omega)
        intro hleft
        obtain rfl : n = 59 := by omega
        exact h
    · exact fun _ _ _ h => h

end Poll

/-! ### Confirm handlers -/

section Confirm

variable (cfg : ServerConfig) (strategy : LogStrategy) (raw : ConfirmMessage)

/-- The confirm handler updates the record of a batch, not a row. -/
def ConfirmMessage.UpdatesBatch (table : Side) : Prop :=
  strategy.isBatch = true ∧ raw.batchesTable = some table

/-- The confirm handler updates a row. -/
def ConfirmMessage.UpdatesLog : Prop := ¬∃ table, raw.UpdatesBatch strategy table

/-- How the polls and the update of a confirm handler end. -/
inductive ConfirmEnd (t : T) (tr : Trace Req Req.Answer T X) : Prop
  | chainOnly {r : TxCheck} (hp : Polled cfg raw.txHash t tr raw.chain r)
    (hs : strategy.isHybrid = false)
  | batch {r : TxCheck} {table : Side} {anchoredAt : Option ℕ}
    (hp : Polled cfg raw.txHash t tr raw.chain r) (hb : raw.UpdatesBatch strategy table)
    (hu : Did t (.updateBatchAnchorStatus raw.db table raw.logId r.status (some raw.txHash)
      anchoredAt) (Except.ok ()) tr)
  | log {r : TxCheck} {anchoredAt : Option ℕ} (hp : Polled cfg raw.txHash t tr raw.chain r)
    (hb : raw.UpdatesLog strategy)
    (hu : Did t (.updateAnchorStatus raw.db raw.dbTable raw.logId r.status (some raw.txHash)
      anchoredAt) (Except.ok ()) tr)
  | noDb (h : raw.db = .mongo ∧ cfg.mongo = .notInstalled)
  | batchFailed {r : TxCheck} {table : Side} {anchoredAt : Option ℕ} {err : JsError}
    (hb : raw.UpdatesBatch strategy table)
    (hu : Did t (.updateBatchAnchorStatus raw.db table raw.logId r.status (some raw.txHash)
      anchoredAt) (Except.error err) tr)
  | logFailed {r : TxCheck} {anchoredAt : Option ℕ} {err : JsError}
    (hb : raw.UpdatesLog strategy)
    (hu : Did t (.updateAnchorStatus raw.db raw.dbTable raw.logId r.status (some raw.txHash)
      anchoredAt) (Except.error err) tr)

/-- The polls and the update of a confirm handler. -/
inductive UpdateStep (t : T) : Req → Trace Req Req.Answer T X → Prop
  | looks {e : Req} {tr : Trace Req Req.Answer T X} (h : e.Looks) : UpdateStep t e tr
  | batch {r : TxCheck} {table : Side} {anchoredAt : Option ℕ} {tr : Trace Req Req.Answer T X}
    (hs : strategy.isHybrid = true) (hp : Polled cfg raw.txHash t tr raw.chain r)
    (hb : raw.UpdatesBatch strategy table)
    (ha : anchoredAt.isSome = true ↔ some r.confirmed = some true) :
    UpdateStep t (.updateBatchAnchorStatus raw.db table raw.logId r.status (some raw.txHash)
      anchoredAt) tr
  | log {r : TxCheck} {anchoredAt : Option ℕ} {tr : Trace Req Req.Answer T X}
    (hs : strategy.isHybrid = true) (hp : Polled cfg raw.txHash t tr raw.chain r)
    (hb : raw.UpdatesLog strategy)
    (ha : anchoredAt.isSome = true ↔ some r.confirmed = some true) :
    UpdateStep t (.updateAnchorStatus raw.db raw.dbTable raw.logId r.status (some raw.txHash)
      anchoredAt) tr

/-- The requests of a confirm handler. -/
inductive ConfirmStep (t : T) : Req → Trace Req Req.Answer T X → Prop
  | update {e : Req} {tr : Trace Req Req.Answer T X} (h : UpdateStep cfg strategy raw t e tr) :
    ConfirmStep t e tr
  | reply {queue : JsString} {msg : ResultMessage} {tr : Trace Req Req.Answer T X}
    (hq : replyQueue raw.replyTo = some queue) (hid : msg.correlationId = raw.correlationId)
    (h : ConfirmEnd cfg strategy raw t tr) : ConfirmStep t (.publishReply queue msg) tr
  | ack {tr : Trace Req Req.Answer T X} (h : ConfirmEnd cfg strategy raw t tr) :
    ConfirmStep t .ack tr

variable {cfg strategy raw} {t : T} {tr tr' : Trace Req Req.Answer T X}

lemma ConfirmEnd.later (h : ConfirmEnd cfg strategy raw t tr) (htr : tr <+: tr') :
    ConfirmEnd cfg strategy raw t tr' := by
  cases h with
  | chainOnly hp hs => exact .chainOnly (hp.later htr) hs
  | batch hp hb hu => exact .batch (hp.later htr) hb (hu.later htr)
  | log hp hb hu => exact .log (hp.later htr) hb (hu.later htr)
  | noDb h => exact .noDb h
  | batchFailed hb hu => exact .batchFailed hb (hu.later htr)
  | logFailed hb hu => exact .logFailed hb (hu.later htr)

lemma UpdateStep.ofStorage {e : Req} (h : UpdateStep cfg strategy raw t e tr) : e.OfStorage := by
  cases h with
  | looks h => exact .of_looks h
  | batch _ _ _ _ | log _ _ _ _ => trivial

variable (cfg strategy raw t tr)

lemma confirmUpdate_follows {r : TxCheck} (hp : Polled cfg raw.txHash t tr raw.chain r) :
    FollowsTask (fun t e tr => UpdateStep cfg strategy raw t e tr) t
      (fun _ tr' => ConfirmEnd cfg strategy raw t tr')
      (fun _ tr' => ConfirmEnd cfg strategy raw t tr') (confirmUpdate cfg strategy raw r) tr := by
  rw [confirmUpdate]
  split
  swap
  · next hs =>
    exact FollowsTask.pure fun _ htr => .chainOnly (hp.later htr) (by simpa using hs)
  next hs =>
  split
  · next hdb => exact FollowsTask.throw fun _ _ => .noDb hdb
  apply FollowsTask.bind
  apply FollowsTask.weaken (FollowsTask.allow (anchoredNow_follows (some r.confirmed) t tr) _)
  · intro anchoredAt tr₁ htr₁ ha
    replace hp := hp.later htr₁
    split
    · next table hbatch htable =>
      apply FollowsTask.request
      · exact fun _ htr => .batch hs (hp.later htr) ⟨hbatch, htable⟩ ha
      intro u tr₂ htr hu
      cases u with
      | ok u => exact .batch (hp.later htr) ⟨hbatch, htable⟩ hu
      | error err => exact .batchFailed ⟨hbatch, htable⟩ hu
    · next hnot =>
      have hlog : raw.UpdatesLog strategy := by
        rintro ⟨table, hbatch, htable⟩
        exact hnot table hbatch htable
      apply FollowsTask.request
      · exact fun _ htr => .log hs (hp.later htr) hlog ha
      intro u tr₂ htr hu
      cases u with
      | ok u => exact .log (hp.later htr) hlog hu
      | error err => exact .logFailed hlog hu
  · exact fun _ _ _ h => h.elim
  · exact fun _ _ _ h => .looks h

lemma confirmHandler_follows :
    FollowsTask (fun t e tr => ConfirmStep cfg strategy raw t e tr) t
      (fun _ tr' => ConfirmEnd cfg strategy raw t tr') (fun _ _ => False)
      (confirmHandler cfg strategy raw) tr := by
  have hreply {Er : JsError → Trace Req Req.Answer T X → Prop} {success : Bool}
      {txHash : Option TxHash} {err : Option JsError} {tr₁ : Trace Req Req.Answer T X}
      (hend : ConfirmEnd cfg strategy raw t tr₁) :
      FollowsTask (fun t e tr => ConfirmStep cfg strategy raw t e tr) t
        (fun _ tr' => ConfirmEnd cfg strategy raw t tr') Er
        (replyIfAsked raw.replyTo ⟨raw.correlationId, success, txHash, err⟩) tr₁ := by
    apply replyIfAsked_follows (fun _ _ htr h => h.later htr) _ hend
    intro queue tr₂ hqueue htr
    exact .reply hqueue rfl (hend.later htr)
  have hbody : FollowsTask (fun t e tr => ConfirmStep cfg strategy raw t e tr) t
      (fun _ tr' => ConfirmEnd cfg strategy raw t tr') (fun _ _ => False)
      (tryCatch (do
        let r ← pollFrom cfg raw.chain raw.txHash ⟨false, true⟩ 60 0
        confirmUpdate cfg strategy raw r
        replyIfAsked raw.replyTo ⟨raw.correlationId, r.confirmed, some raw.txHash, none⟩)
        fun err => replyIfAsked raw.replyTo ⟨raw.correlationId, false, none, some err⟩) tr := by
    apply FollowsTask.tryCatch
    apply FollowsTask.bind
    apply FollowsTask.weaken (FollowsTask.allow
      (pollFrom_follows cfg raw.txHash t raw.chain 60 0 _ tr rfl nofun) _)
    · intro r tr₁ _ hp
      apply FollowsTask.bind
      apply FollowsTask.weaken (FollowsTask.allow
        (confirmUpdate_follows cfg strategy raw t tr₁ hp) _)
      · exact fun _ _ _ hend => hreply hend
      · exact fun _ _ _ hend => hreply hend
      · exact fun _ _ _ h => .update h
    · exact fun _ _ _ h => h.elim
    · exact fun _ _ _ h => .update (.looks h)
  apply FollowsTask.finallyDo
  apply FollowsTask.weaken hbody
  · intro _ tr₁ _ h
    apply FollowsTask.request
    · exact fun tr₂ htr => .ack (h.later htr)
    · exact fun _ tr₂ htr _ => h.later htr
  · exact fun _ _ _ h => h.elim

end Confirm

/-- `subscribe` has nothing to do for a handler that does not throw. -/
lemma consume_follows {P : Guard Req Req.Answer T X} {t : T}
    {Q : Unit → Trace Req Req.Answer T X → Prop} {p : Io Unit} {tr : Trace Req Req.Answer T X}
    (h : FollowsTask P t Q (fun _ _ => False) p tr) :
    FollowsTask P t Q (fun _ _ => False) (consume p) tr := by
  apply FollowsTask.tryCatch
  apply FollowsTask.weaken h
  · exact fun _ _ _ h => h
  · exact fun _ _ _ h => h.elim

end HybridLog
