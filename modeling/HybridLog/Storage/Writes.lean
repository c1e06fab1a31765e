import HybridLog.Storage.Hybrid

/-!
# What any storage does

The requests and results of the writes of a storage, whichever kind it is.
-/

namespace HybridLog

open Js Async

variable {T X : Type}

/-- The requests of storages. -/
def Req.OfStorage : Req → Prop
  | .insert .. | .insertBatchRecord .. | .linkLeaves .. | .linkLeaf .. | .updateAnchorStatus ..
  | .updateBatchAnchorStatus .. | .submit .. | .getTransaction .. | .getReceipt ..
  | .getBlockNumber .. | .waitReceipt .. | .now => True
  | _ => False

lemma Req.OfStorage.of_looks {e : Req} (h : e.Looks) : e.OfStorage := by
  cases e with
  | getTransaction _ _ | getReceipt _ _ | getBlockNumber _ | waitReceipt _ | now => trivial
  | _ => exact h.elim

lemma AnchorStep.ofStorage {payload : Payload} {t : T} {e : Req} {tr : Trace Req Req.Answer T X}
    (h : AnchorStep payload t e tr) : e.OfStorage := by
  cases h with
  | looks h => exact .of_looks h
  | submit _ => trivial

lemma LinkReq.ofStorage {s : Side} {ids : List JsString} {root : JsString} {db : Db} {e : Req}
    (h : HybridStorage.LinkReq s ids root db e) : e.OfStorage := by
  cases db with
  | postgres =>
    cases h
    trivial
  | mongo =>
    obtain ⟨_, _, _, rfl⟩ := h
    trivial

namespace Storage

variable (cfg : ServerConfig) (opts : Option WriteOpts)

/-! ### Single logs -/

section Log

variable (entry : LogEntry)

/-- The requests of `writeLog`. -/
inductive LogStep (t : T) : Storage → Req → Trace Req Req.Answer T X → Prop
  | offchain {db : Db} {tr : Trace Req Req.Answer T X} :
    LogStep t (.offchain db) (.insert db .offchain (offchainRow db (entry.withHash cfg.sha))) tr
  | chain {anchor : Anchor} {e : Req} {tr : Trace Req Req.Answer T X}
    (h : AnchorStep (anchor.logPayload cfg entry) t e tr) : LogStep t (.chain anchor) e tr
  | hybrid {db : Db} {anchor : Anchor} {mode : HybridMode} {e : Req}
    {tr : Trace Req Req.Answer T X}
    (h : HybridStorage.LogStep cfg db anchor mode entry opts t e tr) :
    LogStep t (.hybrid db anchor mode) e tr

/-- How `writeLog` ends. -/
inductive LogResult (t : T) (tr : Trace Req Req.Answer T X) : Storage → WriteResult → Prop
  | inserted {db : Db}
    (h : Did t (.insert db .offchain (offchainRow db (entry.withHash cfg.sha))) (Except.ok ()) tr) :
    LogResult t tr (.offchain db) ⟨entry.id, true, none, none, none⟩
  | notInserted {db : Db} {err : JsError}
    (h : Did t (.insert db .offchain (offchainRow db (entry.withHash cfg.sha))) (Except.error err)
      tr) : LogResult t tr (.offchain db) (.failed entry.id err)
  | chain {anchor : Anchor} {r : WriteResult} (hid : r.logId = entry.id)
    (h : AnchorOutcome anchor.chain (anchor.logPayload cfg entry) opts t tr r.success r.txId
      r.confirmed) : LogResult t tr (.chain anchor) r
  | hybrid {db : Db} {anchor : Anchor} {mode : HybridMode} {r : WriteResult}
    (h : HybridStorage.LogResult cfg db anchor mode entry opts t tr r) :
    LogResult t tr (.hybrid db anchor mode) r

variable {cfg opts entry} {st : Storage} {t : T} {tr tr' : Trace Req Req.Answer T X}

lemma LogResult.later {r : WriteResult} (h : LogResult cfg opts entry t tr st r)
    (htr : tr <+: tr') : LogResult cfg opts entry t tr' st r := by
  cases h with
  | inserted h => exact .inserted (h.later htr)
  | notInserted h => exact .notInserted (h.later htr)
  | chain hid h => exact .chain hid (h.later htr)
  | hybrid h => exact .hybrid (h.later cfg _ _ _ _ _ htr)

lemma LogStep.ofStorage {e : Req} (h : LogStep cfg opts entry t st e tr) : e.OfStorage := by
  cases h with
  | offchain => trivial
  | chain h => exact h.ofStorage
  | hybrid h => cases h with
    | insert => trivial
    | anchor _ h => exact h.ofStorage
    | update _ _ => trivial

variable (cfg opts entry st t tr)

lemma writeLog_follows :
    FollowsTask (fun t e tr => LogStep cfg opts entry t st e tr) t
      (fun r tr' => LogResult cfg opts entry t tr' st r) (fun _ _ => False)
      (st.writeLog cfg entry opts) tr := by
  cases st with
  | offchain db =>
    apply FollowsTask.tryCatch
    apply FollowsTask.bind
    apply FollowsTask.request
    · intro tr' _
      exact .offchain
    intro r tr' _ h
    cases r with
    | ok u => exact FollowsTask.pure fun _ htr => .inserted (Did.later h htr)
    | error err => exact FollowsTask.pure fun _ htr => .notInserted (Did.later h htr)
  | chain anchor =>
    apply FollowsTask.weaken (FollowsTask.allow (anchor.writeLog_follows cfg opts t entry tr) _)
    · rintro r tr' _ ⟨hid, h⟩
      exact .chain hid h
    · exact fun _ _ _ h => h
    · exact fun _ _ _ h => .chain h
  | hybrid db anchor mode =>
    apply FollowsTask.weaken (FollowsTask.allow
      (HybridStorage.writeLog_follows cfg db anchor mode entry opts t tr) _)
    · exact fun _ _ _ h => .hybrid h
    · exact fun _ _ _ h => h
    · exact fun _ _ _ h => .hybrid h

end Log

/-! ### Batches -/

section Batch

variable (entries : List LogEntry)

/-- The requests of `writeBatch`. -/
inductive BatchStep (t : T) : Storage → Req → Trace Req Req.Answer T X → Prop
  | chain {anchor : Anchor} {e : Req} {tr : Trace Req Req.Answer T X}
    (h : AnchorStep (anchor.batchPayload cfg entries) t e tr) : BatchStep t (.chain anchor) e tr
  | hybrid {db : Db} {anchor : Anchor} {s : Side} {e : Req} {tr : Trace Req Req.Answer T X}
    (h : HybridStorage.BatchStep cfg db anchor s entries opts t e tr) :
    BatchStep t (.hybrid db anchor (.batched s)) e tr

/-- How `writeBatch` ends. -/
inductive BatchResult (t : T) (tr : Trace Req Req.Answer T X) :
    Storage → BatchWriteResult → Prop
  | empty {anchor : Anchor} (h : entries = []) :
    BatchResult t tr (.chain anchor) (.failed [] [] 0 "Empty batch")
  | chain {anchor : Anchor} {r : BatchWriteResult} (hne : entries ≠ [])
    (h : AnchorOutcome anchor.chain (anchor.batchPayload cfg entries) opts t tr r.success r.txId
      r.confirmed) (hroot : r.success = true → r.batchHash = cfg.sha.computeBatchHash entries) :
    BatchResult t tr (.chain anchor) r
  | hybrid {db : Db} {anchor : Anchor} {s : Side} {r : BatchWriteResult}
    (h : HybridStorage.BatchResult cfg db anchor s entries opts t tr r) :
    BatchResult t tr (.hybrid db anchor (.batched s)) r

variable {cfg opts entries} {st : Storage} {t : T} {tr tr' : Trace Req Req.Answer T X}

lemma BatchResult.later {r : BatchWriteResult} (h : BatchResult cfg opts entries t tr st r)
    (htr : tr <+: tr') : BatchResult cfg opts entries t tr' st r := by
  cases h with
  | empty h => exact .empty h
  | chain hne h hroot => exact .chain hne (h.later htr) hroot
  | hybrid h => exact .hybrid (h.later cfg _ _ _ _ _ htr)

lemma BatchStep.ofStorage {e : Req} (h : BatchStep cfg opts entries t st e tr) : e.OfStorage := by
  cases h with
  | chain h => exact h.ofStorage
  | hybrid h => cases h with
    | insert _ | record _ | update _ _ => trivial
    | link _ h => exact LinkReq.ofStorage h
    | anchor _ h => exact h.ofStorage

variable (cfg opts entries t tr)

lemma writeBatch_follows
    {write : List LogEntry → Option WriteOpts → Io BatchWriteResult}
    (hwrite : st.writeBatch? cfg = some write) :
    FollowsTask (fun t e tr => BatchStep cfg opts entries t st e tr) t
      (fun r tr' => BatchResult cfg opts entries t tr' st r) (fun _ _ => False)
      (write entries opts) tr := by
  cases st with
  | offchain db => cases hwrite
  | chain anchor =>
    cases hwrite
    by_cases hne : entries = []
    · subst hne
      cases anchor with
      | exonum mode => exact FollowsTask.pure fun _ _ => .empty rfl
      | ethereum => exact FollowsTask.pure fun _ _ => .empty rfl
    · apply FollowsTask.weaken (FollowsTask.allow (anchor.writeBatch_follows cfg opts t hne tr) _)
      · rintro r tr' _ ⟨h, hroot⟩
        exact .chain hne h fun hr => (hroot hr).trans (computeBatchHash_withHash cfg.sha entries)
      · exact fun _ _ _ h => h
      · exact fun _ _ _ h => .chain h
  | hybrid db anchor mode => cases mode with
    | anchored s => cases hwrite
    | batched s =>
      cases hwrite
      apply FollowsTask.weaken (FollowsTask.allow
        (HybridStorage.writeBatch_follows cfg db anchor s entries opts t tr) _)
      · exact fun _ _ _ h => .hybrid h
      · exact fun _ _ _ h => h
      · exact fun _ _ _ h => .hybrid h

end Batch

end Storage

end HybridLog
