import HybridLog.Queue.Subscriber
import HybridLog.Storage.Writes

/-!
# Writes that do not wait for the chain

The storage of a submit handler hands its transaction to the chain and returns. Whether the write
has come through is told by the answers to its own requests: by none of them being refused and by
there being something to send.
-/

namespace HybridLog

open Js Async

/-- A request of a storage that changes something and is answered with an exception. -/
inductive Refused : (Σ e : Req, e.Answer) → Prop
  | insert {db : Db} {table : LogTable} {row : LogRow} {err : JsError} :
    Refused ⟨.insert db table row, Except.error err⟩
  | insertBatchRecord {db : Db} {table : Side} {row : BatchRow} {err : JsError} :
    Refused ⟨.insertBatchRecord db table row, Except.error err⟩
  | linkLeaves {table : Side} {ids : List JsString} {root : JsString} {err : JsError} :
    Refused ⟨.linkLeaves table ids root, Except.error err⟩
  | linkLeaf {table : Side} {id root : JsString} {i : ℕ} {err : JsError} :
    Refused ⟨.linkLeaf table id root i, Except.error err⟩
  | updateAnchorStatus {db : Db} {table : LogTable} {id : JsString} {status : AnchorStatus}
    {txHash : Option TxHash} {anchoredAt : Option ℕ} {err : JsError} :
    Refused ⟨.updateAnchorStatus db table id status txHash anchoredAt, Except.error err⟩
  | updateBatchAnchorStatus {db : Db} {table : Side} {root : JsString} {status : AnchorStatus}
    {txHash : Option TxHash} {anchoredAt : Option ℕ} {err : JsError} :
    Refused ⟨.updateBatchAnchorStatus db table root status txHash anchoredAt, Except.error err⟩
  | submit {tx : ChainTx} {err : JsError} : Refused ⟨.submit tx, Except.error err⟩

lemma Refused.ofStorage {d : Σ e : Req, e.Answer} (h : Refused d) : d.1.OfStorage := by
  cases h <;> trivial

/-! ### Own requests -/

/-- None of the requests was refused. -/
def Clean (own : Deeds Req Req.Answer) : Prop := ∀ d ∈ own, ¬ Refused d

/-- A transaction was submitted and not accepted. -/
def SubmitRefused (own : Deeds Req Req.Answer) : Prop :=
  ∃ tx err, (⟨.submit tx, Except.error err⟩ : Σ e : Req, e.Answer) ∈ own

variable {own own' : Deeds Req Req.Answer} {d : Σ e : Req, e.Answer}

@[simp] lemma clean_zero : Clean 0 := by
  intro d hd
  cases Multiset.notMem_zero d hd

@[simp] lemma clean_cons : Clean (d ::ₘ own) ↔ ¬ Refused d ∧ Clean own := by
  simp only [Clean, Multiset.forall_mem_cons]

@[simp] lemma clean_add : Clean (own + own') ↔ Clean own ∧ Clean own' := by
  simp only [Clean, Multiset.mem_add, or_imp, forall_and]

lemma clean_sum {β : Type} {xs : List β} {owns : List (Deeds Req Req.Answer)}
    (h : List.Forall₂ (fun _ own => Clean own) xs owns) : Clean owns.sum := by
  induction h with
  | nil => simp
  | cons hx _ ih =>
    rw [List.sum_cons, clean_add]
    exact ⟨hx, ih⟩

lemma SubmitRefused.not_clean (h : SubmitRefused own) : ¬ Clean own := by
  obtain ⟨tx, err, hmem⟩ := h
  intro hclean
  exact hclean _ hmem .submit

lemma SubmitRefused.cons (h : SubmitRefused own) : SubmitRefused (d ::ₘ own) := by
  obtain ⟨tx, err, hmem⟩ := h
  exact ⟨tx, err, Multiset.mem_cons_of_mem hmem⟩

lemma not_refused_ok {e : Req} {r : e.Answer} (h : ¬ e.OfStorage ∨ e.Looks) :
    ¬ Refused ⟨e, r⟩ := by
  intro hr
  rcases h with h | h
  · exact h hr.ofStorage
  · cases hr <;> exact h

/-! ### Anchors -/

/-- How the write of an anchor ends that does not wait: `success`, `txId` and `confirmed`. -/
inductive AnchorEnd (sendable : Prop) (own : Deeds Req Req.Answer) :
    Bool → Option TxHash → Option Bool → Prop
  | submitted {txHash : TxHash} (h : sendable) (hc : Clean own) :
    AnchorEnd sendable own true (some txHash) (some false)
  | unsent (h : ¬ sendable) (hc : Clean own) : AnchorEnd sendable own false none none
  | refused (h : SubmitRefused own) : AnchorEnd sendable own false none none

section AnchorEnd

variable {α : Type} {sendable : Prop} {Q : α → Deeds Req Req.Answer → Prop}
  {Er : JsError → Deeds Req Req.Answer → Prop}

/-- A transaction is submitted, and that is all that is asked for. -/
lemma submitAndReturn_emits {tx : ChainTx} {result : TxHash → α} {wait : TxHash → Io α}
    (h : sendable) (hc : Clean own)
    (hQ : ∀ txHash own', AnchorEnd sendable own' true (some txHash) (some false) →
      Q (result txHash) own')
    (hEr : ∀ err own', AnchorEnd sendable own' false none none → Er err own') :
    EmitsTask Q Er (Task.request (.submit tx) id >>= fun txHash =>
      if submitOnly (some submitOnlyOpts) = true then pure (result txHash) else wait txHash)
      own := by
  apply EmitsTask.bind
  apply EmitsTask.request
  intro r
  cases r with
  | ok txHash =>
    apply hQ txHash
    apply AnchorEnd.submitted h
    rw [clean_cons]
    refine ⟨?_, hc⟩
    intro hr
    cases hr
  | error err =>
    apply hEr err
    exact .refused ⟨tx, err, Multiset.mem_cons_self _ _⟩

end AnchorEnd

namespace Anchor

variable (cfg : ServerConfig) (anchor : Anchor)

lemma writeLog_emits (entry : LogEntry) (hc : Clean own) :
    EmitsTask (fun r own' => AnchorEnd (∃ tx, anchor.logPayload cfg entry tx) own' r.success r.txId
      r.confirmed) (fun _ _ => False) (anchor.writeLog cfg entry (some submitOnlyOpts)) own := by
  cases anchor with
  | exonum mode =>
    have hsend (ms : ℕ) : ∃ tx, (Anchor.exonum mode).logPayload cfg entry tx := ⟨_, ms, rfl⟩
    apply EmitsTask.tryCatch
    apply EmitsTask.bind
    apply EmitsTask.request
    intro ms
    apply submitAndReturn_emits (hsend ms)
    · rw [clean_cons]
      exact ⟨not_refused_ok (.inr trivial), hc⟩
    · exact fun _ _ h => h
    · exact fun _ _ h => h
  | ethereum =>
    have hsend (call : StoreWrite)
        (hcall : EthereumAnchor.logCall (entry.withHash cfg.sha) = .ok call) :
        ∃ tx, Anchor.ethereum.logPayload cfg entry tx :=
      ⟨_, map_call_eq_ok.mpr ⟨call, hcall, rfl⟩⟩
    apply EmitsTask.tryCatch
    apply EmitsTask.bind
    apply EmitsTask.ofExcept
    · intro call hcall
      apply submitAndReturn_emits (hsend call hcall) hc
      · exact fun _ _ h => h
      · exact fun _ _ h => h
    · intro err hcall
      apply AnchorEnd.unsent _ hc
      rintro ⟨tx, htx⟩
      obtain ⟨call, hok, -⟩ := map_call_eq_ok.mp htx
      rw [hok] at hcall
      cases hcall

lemma writeBatch_emits {entries : List LogEntry} (hne : entries ≠ []) (hc : Clean own) :
    EmitsTask (fun r own' => AnchorEnd (∃ tx, anchor.batchPayload cfg entries tx) own' r.success
      r.txId r.confirmed) (fun _ _ => False)
      (anchor.writeBatch cfg entries (some submitOnlyOpts)) own := by
  cases anchor with
  | exonum mode =>
    have hsend (ms : ℕ) : ∃ tx, (Anchor.exonum mode).batchPayload cfg entries tx := ⟨_, ms, rfl⟩
    rw [writeBatch, ExonumAnchor.writeBatch, if_neg hne]
    apply EmitsTask.tryCatch
    apply EmitsTask.bind
    apply EmitsTask.request
    intro ms
    apply submitAndReturn_emits (hsend ms)
    · rw [clean_cons]
      exact ⟨not_refused_ok (.inr trivial), hc⟩
    · exact fun _ _ h => h
    · exact fun _ _ h => h
  | ethereum =>
    have hsend (call : StoreWrite) (hcall :
        EthereumAnchor.batchCall cfg.sha (entries.map (LogEntry.withHash cfg.sha)) = .ok call) :
        ∃ tx, Anchor.ethereum.batchPayload cfg entries tx :=
      ⟨_, map_call_eq_ok.mpr ⟨call, hcall, rfl⟩⟩
    rw [writeBatch, EthereumAnchor.writeBatch, if_neg hne]
    apply EmitsTask.tryCatch
    apply EmitsTask.bind
    apply EmitsTask.ofExcept
    · intro call hcall
      apply submitAndReturn_emits (hsend call hcall) hc
      · exact fun _ _ h => h
      · exact fun _ _ h => h
    · intro err hcall
      apply AnchorEnd.unsent _ hc
      rintro ⟨tx, htx⟩
      obtain ⟨call, hok, -⟩ := map_call_eq_ok.mp htx
      rw [hok] at hcall
      cases hcall

end Anchor

/-! ### Storages -/

/-- How the write of a storage ends that does not wait, given what it takes for there to be
something to send: `success`, `txId` and `confirmed`. -/
inductive WriteEnd (sendable : Prop) (own : Deeds Req Req.Answer) :
    Bool → Option TxHash → Option Bool → Prop
  | submitted {txHash : TxHash} (h : sendable) (hc : Clean own) :
    WriteEnd sendable own true (some txHash) (some false)
  | stored (h : sendable) (hc : Clean own) : WriteEnd sendable own true none none
  | failed {success : Bool} (h : ¬ (sendable ∧ Clean own))
    (hs : success = true → SubmitRefused own) : WriteEnd sendable own success none none

lemma WriteEnd.unsuccessful {sendable : Prop} (h : ¬ (sendable ∧ Clean own)) :
    WriteEnd sendable own false none none := by
  apply WriteEnd.failed h
  intro hs
  cases hs

/-- A request that is answered with an exception where it is refused. -/
lemma EmitsTask.step {e : Req} {k : e.Answer → Except JsError Unit} (hc : Clean own)
    (hok : ∀ r, k r = .ok () → ¬ Refused ⟨e, r⟩)
    (herr : ∀ r err, k r = .error err → Refused ⟨e, r⟩) :
    EmitsTask (fun _ own' => Clean own') (fun _ own' => ¬ Clean own') (Task.request e k) own := by
  apply EmitsTask.request
  intro r
  cases hr : k r with
  | ok u => exact clean_cons.mpr ⟨hok r hr, hc⟩
  | error err => exact fun h => (clean_cons.mp h).1 (herr r err hr)

lemma insert_emits (db : Db) (table : LogTable) (row : LogRow) (hc : Clean own) :
    EmitsTask (fun _ own' => Clean own') (fun _ own' => ¬ Clean own')
      (Task.request (.insert db table row) id) own := by
  apply EmitsTask.step hc
  · intro r hr h
    cases h
    cases hr
  · intro r err hr
    cases hr
    exact .insert

lemma linkEach_emits (table : Side) (root : JsString) (ids : List JsString) (i : ℕ)
    (hc : Clean own) :
    EmitsTask (fun _ own' => Clean own') (fun _ own' => ¬ Clean own')
      (linkEach table root i ids) own := by
  induction ids generalizing i own with
  | nil => exact hc
  | cons id ids ih =>
    apply EmitsTask.bind
    apply EmitsTask.weaken (EmitsTask.step hc _ _)
    · exact fun _ own' hc' => ih (i + 1) hc'
    · exact fun _ _ h => h
    · intro r hr h
      cases h
      cases hr
    · intro r err hr
      cases hr
      exact .linkLeaf

lemma linkBatchLeaves_emits (db : Db) (table : Side) (root : JsString) (ids : List JsString)
    (hc : Clean own) :
    EmitsTask (fun _ own' => Clean own') (fun _ own' => ¬ Clean own')
      (linkBatchLeaves db ids root table) own := by
  cases db with
  | postgres =>
    apply EmitsTask.step hc
    · intro r hr h
      cases h
      cases hr
    · intro r err hr
      cases hr
      exact .linkLeaves
  | mongo => exact linkEach_emits table root ids 0 hc

namespace HybridStorage

variable (cfg : ServerConfig) (db : Db) (anchor : Anchor)

lemma writeLog_emits (mode : HybridMode) (entry : LogEntry) :
    EmitsTask (fun r own => WriteEnd True own r.success r.txId r.confirmed) (fun _ _ => False)
      (writeLog cfg db anchor mode entry (some submitOnlyOpts)) 0 := by
  apply EmitsTask.tryCatch
  apply EmitsTask.bind
  apply EmitsTask.weaken (insert_emits db mode.logTable _ clean_zero)
  swap
  · exact fun err own hc => .unsuccessful (fun h => hc h.2)
  intro _ own hc
  apply EmitsTask.bind
  apply EmitsTask.weaken (anchor.writeLog_emits cfg (entry.withHash cfg.sha) hc)
  swap
  · exact fun _ _ h => h.elim
  rintro ⟨logId, success, txId, confirmed, err⟩ own hend
  have hconfirmed : confirmed ≠ some true := by
    cases hend <;> simp
  apply EmitsTask.bind
  rw [anchoredNow, if_neg hconfirmed]
  apply EmitsTask.pure
  apply EmitsTask.bind
  apply EmitsTask.request
  intro u
  cases u with
  | error err' => exact .unsuccessful (fun h => (clean_cons.mp h.2).1 .updateAnchorStatus)
  | ok u =>
    have hupdated : ¬ Refused ⟨.updateAnchorStatus db mode.logTable entry.id
        (statusOf confirmed success) txId none, (Except.ok u : Except JsError Unit)⟩ := by
      intro h
      cases h
    cases hend with
    | submitted _ hc => exact .submitted trivial (clean_cons.mpr ⟨hupdated, hc⟩)
    | unsent _ hc => exact .stored trivial (clean_cons.mpr ⟨hupdated, hc⟩)
    | refused h => exact .failed (fun h' => h.cons.not_clean h'.2) fun _ => h.cons

/-- The leaves of a batch are inserted all at once. -/
lemma insertLeaves_emits (table : LogTable) (entries : List LogEntry) :
    EmitsTask (fun _ own => Clean own) (fun _ own => ¬ Clean own)
      (promiseAll (entries.map fun e => insertBatched db e e.dataHash table)) 0 := by
  have hall : EmitsTask
      (fun _ own => ∃ owns, List.Forall₂ (fun _ own => Clean own) entries owns ∧ own = owns.sum)
      (fun _ own => ¬ Clean own)
      (promiseAll (entries.map fun e => insertBatched db e e.dataHash table)) 0 := by
    apply EmitsTask.promiseAll
    · exact fun own more h h' => h (clean_add.mp h').1
    · exact fun e _ => insert_emits db table _ clean_zero
  apply EmitsTask.weaken hall
  · rintro _ own ⟨owns, howns, rfl⟩
    exact clean_sum howns
  · exact fun _ _ h => h

lemma writeBatch_emits (mode : HybridMode) (entries : List LogEntry) :
    EmitsTask (fun r own => WriteEnd (entries ≠ [] ∧ ∃ tx, anchor.batchPayload cfg entries tx) own
      r.success r.txId r.confirmed) (fun _ _ => False)
      (writeBatch cfg db anchor mode entries (some submitOnlyOpts)) 0 := by
  rw [writeBatch]
  split
  · next hnil => exact .unsuccessful (fun h => h.1.1 hnil)
  next hne =>
  have hne' : entries.map (LogEntry.withHash cfg.sha) ≠ [] := by simpa using hne
  have hfailed {err : JsError} {own : Deeds Req Req.Answer} (hc : ¬ Clean own) :
      EmitsTask (fun r own => WriteEnd (entries ≠ [] ∧ ∃ tx, anchor.batchPayload cfg entries tx)
        own r.success r.txId r.confirmed) (fun _ _ => False)
        (pure (.failed (startId entries) (endId entries) entries.length err) : Io BatchWriteResult)
        own := .unsuccessful (fun h => hc h.2)
  apply EmitsTask.tryCatch
  apply EmitsTask.bind
  apply EmitsTask.weaken (insertLeaves_emits db mode.logTable _)
  swap
  · exact fun _ _ hc => hfailed hc
  intro _ own hc
  apply EmitsTask.bind
  apply EmitsTask.weaken (EmitsTask.step hc _ _)
  rotate_left
  · exact fun _ _ hc => hfailed hc
  · intro r hr h
    cases h
    cases hr
  · intro r err hr
    cases hr
    exact .insertBatchRecord
  intro _ own hc
  apply EmitsTask.bind
  apply EmitsTask.weaken (linkBatchLeaves_emits db mode.batchesTable _ _ hc)
  swap
  · exact fun _ _ hc => hfailed hc
  intro _ own hc
  apply EmitsTask.bind
  apply EmitsTask.weaken (anchor.writeBatch_emits cfg hne' hc)
  swap
  · exact fun _ _ h => h.elim
  rintro ⟨batchHash, start, stop, count, success, txId, confirmed, err⟩ own hend
  rw [Anchor.batchPayload_withHash] at hend
  have hconfirmed : confirmed ≠ some true := by
    cases hend <;> simp
  apply EmitsTask.bind
  rw [anchoredNow, if_neg hconfirmed]
  apply EmitsTask.pure
  apply EmitsTask.bind
  apply EmitsTask.request
  intro u
  cases u with
  | error err' => exact hfailed fun h => (clean_cons.mp h).1 .updateBatchAnchorStatus
  | ok u =>
    have hupdated {root : JsString} : ¬ Refused ⟨.updateBatchAnchorStatus db mode.batchesTable root
        (statusOf confirmed success) txId none, (Except.ok u : Except JsError Unit)⟩ := by
      intro h
      cases h
    cases hend with
    | submitted h hc => exact .submitted ⟨hne, h⟩ (clean_cons.mpr ⟨hupdated, hc⟩)
    | unsent h _ => exact .unsuccessful (fun h' => h h'.1.2)
    | refused h => exact .unsuccessful (fun h' => h.cons.not_clean h'.2)

end HybridStorage

namespace Storage

variable (cfg : ServerConfig) (st : Storage)

/-- A log can be sent, where the result of the write depends on it: a hybrid storage keeps the row
of a log whatever becomes of its hash. -/
def LogSendable (entry : LogEntry) : Storage → Prop
  | .chain anchor => ∃ tx, anchor.logPayload cfg entry tx
  | .offchain _ | .hybrid _ _ _ => True

/-- A batch can be sent. -/
def BatchSendable (entries : List LogEntry) : Storage → Prop
  | .chain anchor | .hybrid _ anchor _ =>
    entries ≠ [] ∧ ∃ tx, anchor.batchPayload cfg entries tx
  | .offchain _ => True

lemma writeLog_emits (entry : LogEntry) :
    EmitsTask (fun r own => WriteEnd (st.LogSendable cfg entry) own r.success r.txId r.confirmed)
      (fun _ _ => False) (st.writeLog cfg entry (some submitOnlyOpts)) 0 := by
  cases st with
  | offchain db =>
    apply EmitsTask.tryCatch
    apply EmitsTask.bind
    apply EmitsTask.weaken (insert_emits db .offchain _ clean_zero)
    · exact fun _ _ hc => .stored trivial hc
    · exact fun _ _ hc => .unsuccessful (fun h => hc h.2)
  | chain anchor =>
    apply EmitsTask.weaken (anchor.writeLog_emits cfg entry clean_zero)
    · rintro ⟨logId, success, txId, confirmed, err⟩ own h
      cases h with
      | submitted h hc => exact .submitted h hc
      | unsent h _ => exact .unsuccessful (fun h' => h h'.1)
      | refused h => exact .unsuccessful (fun h' => h.not_clean h'.2)
    · exact fun _ _ h => h
  | hybrid db anchor mode => exact HybridStorage.writeLog_emits cfg db anchor mode entry

lemma writeBatch_emits {write : List LogEntry → Option WriteOpts → Io BatchWriteResult}
    (hwrite : st.writeBatch? cfg = some write) (entries : List LogEntry) :
    EmitsTask (fun r own => WriteEnd (st.BatchSendable cfg entries) own r.success r.txId
      r.confirmed) (fun _ _ => False) (write entries (some submitOnlyOpts)) 0 := by
  cases st with
  | offchain db => cases hwrite
  | chain anchor =>
    cases hwrite
    by_cases hne : entries = []
    · subst hne
      have hempty : WriteEnd ((Storage.chain anchor).BatchSendable cfg []) 0 false none none :=
        .unsuccessful (fun h => h.1.1 rfl)
      cases anchor with
      | exonum mode => exact hempty
      | ethereum => exact hempty
    · apply EmitsTask.weaken (anchor.writeBatch_emits cfg hne clean_zero)
      · rintro ⟨batchHash, start, stop, count, success, txId, confirmed, err⟩ own h
        cases h with
        | submitted h hc => exact .submitted ⟨hne, h⟩ hc
        | unsent h _ => exact .unsuccessful (fun h' => h h'.1.2)
        | refused h => exact .unsuccessful (fun h' => h.not_clean h'.2)
      · exact fun _ _ h => h
  | hybrid db anchor mode => cases mode with
    | anchored s => cases hwrite
    | batched s =>
      cases hwrite
      exact HybridStorage.writeBatch_emits cfg db anchor (.batched s) entries

end Storage

end HybridLog
