import HybridLog.Async.Tally
import HybridLog.Storage.Steps

/-!
# What hybrid storages do

A hybrid storage writes to its database before it goes to its chain: each request to the chain is
made with the rows answered for, and the status of a row is written with the outcome of its anchor
seen.
-/

namespace HybridLog

open Js Async

variable {T X : Type} (cfg : ServerConfig)

namespace Anchor

/-- The hash an anchor sends is the one the storage has put into the entry. -/
lemma logPayload_withHash (anchor : Anchor) (entry : LogEntry) :
    anchor.logPayload cfg (entry.withHash cfg.sha) = anchor.logPayload cfg entry := by
  have htx (ms : ℕ) : anchor.logTx cfg (entry.withHash cfg.sha) ms = anchor.logTx cfg entry ms := by
    cases anchor with
    | exonum mode => simp only [logTx, withHash_withHash]
    | ethereum => simp only [logTx, withHash_withHash]
  funext tx
  simp only [logPayload, htx]

lemma batchPayload_withHash (anchor : Anchor) (entries : List LogEntry) :
    anchor.batchPayload cfg (entries.map (LogEntry.withHash cfg.sha)) =
      anchor.batchPayload cfg entries := by
  have htx (ms : ℕ) : anchor.batchTx cfg (entries.map (LogEntry.withHash cfg.sha)) ms =
      anchor.batchTx cfg entries ms := by
    cases anchor with
    | exonum mode => simp only [batchTx, List.map_map, Function.comp_def, withHash_withHash]
    | ethereum => simp only [batchTx, List.map_map, Function.comp_def, withHash_withHash]
  funext tx
  simp only [batchPayload, htx]

end Anchor

lemma anchoredNow_follows (confirmed : Option Bool) (t : T) (tr : Trace Req Req.Answer T X) :
    FollowsTask LookStep t
      (fun anchoredAt _ => anchoredAt.isSome = true ↔ confirmed = some true) (fun _ _ => False)
      (anchoredNow confirmed) tr := by
  rw [anchoredNow]
  split
  · next h =>
    exact FollowsTask.bind (FollowsTask.request (fun _ _ => trivial) fun _ _ _ _ =>
      FollowsTask.pure fun _ _ => iff_of_true rfl h)
  · next h => exact FollowsTask.pure fun _ _ => iff_of_false (by simp) h

namespace HybridStorage

variable (db : Db) (anchor : Anchor) (mode : HybridMode)

/-! ### Single logs -/

section Log

variable (entry : LogEntry) (opts : Option WriteOpts)

/-- The row of an entry that is anchored on its own. -/
def logRow : LogRow :=
  anchoredRow db (entry.withHash cfg.sha) (entry.withHash cfg.sha).dataHash mode.logTable

/-- The requests of `writeLog`. -/
inductive LogStep : Guard Req Req.Answer T X
  | insert {t : T} {tr : Trace Req Req.Answer T X} :
    LogStep t (.insert db mode.logTable (logRow cfg db mode entry)) tr
  | anchor {t : T} {e : Req} {tr : Trace Req Req.Answer T X}
    (hi : Did t (.insert db mode.logTable (logRow cfg db mode entry)) (Except.ok ()) tr)
    (h : AnchorStep (anchor.logPayload cfg entry) t e tr) : LogStep t e tr
  | update {t : T} {tr : Trace Req Req.Answer T X} {success : Bool} {txId : Option TxHash}
    {confirmed : Option Bool} {anchoredAt : Option ℕ}
    (hi : Did t (.insert db mode.logTable (logRow cfg db mode entry)) (Except.ok ()) tr)
    (h : AnchorOutcome anchor.chain (anchor.logPayload cfg entry) opts t tr success txId
      confirmed) (ha : anchoredAt.isSome = true ↔ confirmed = some true) :
    LogStep t (.updateAnchorStatus db mode.logTable entry.id (statusOf confirmed success) txId
      anchoredAt) tr

/-- How `writeLog` ends. -/
inductive LogResult (t : T) (tr : Trace Req Req.Answer T X) : WriteResult → Prop
  | written {success : Bool} {txId : Option TxHash} {confirmed : Option Bool}
    {anchoredAt : Option ℕ}
    (hi : Did t (.insert db mode.logTable (logRow cfg db mode entry)) (Except.ok ()) tr)
    (h : AnchorOutcome anchor.chain (anchor.logPayload cfg entry) opts t tr success txId confirmed)
    (hu : Did t (.updateAnchorStatus db mode.logTable entry.id (statusOf confirmed success) txId
      anchoredAt) (Except.ok ()) tr) :
    LogResult t tr ⟨entry.id, true, txId, confirmed, none⟩
  | notInserted {err : JsError}
    (hi : Did t (.insert db mode.logTable (logRow cfg db mode entry)) (Except.error err) tr) :
    LogResult t tr (.failed entry.id err)
  | notUpdated {success : Bool} {txId : Option TxHash} {confirmed : Option Bool}
    {anchoredAt : Option ℕ} {err : JsError}
    (hi : Did t (.insert db mode.logTable (logRow cfg db mode entry)) (Except.ok ()) tr)
    (h : AnchorOutcome anchor.chain (anchor.logPayload cfg entry) opts t tr success txId confirmed)
    (hu : Did t (.updateAnchorStatus db mode.logTable entry.id (statusOf confirmed success) txId
      anchoredAt) (Except.error err) tr) :
    LogResult t tr (.failed entry.id err)

lemma LogResult.later {t : T} {tr tr' : Trace Req Req.Answer T X} {r : WriteResult}
    (h : LogResult cfg db anchor mode entry opts t tr r) (htr : tr <+: tr') :
    LogResult cfg db anchor mode entry opts t tr' r := by
  cases h with
  | written hi h hu => exact .written (hi.later htr) (h.later htr) (hu.later htr)
  | notInserted hi => exact .notInserted (hi.later htr)
  | notUpdated hi h hu => exact .notUpdated (hi.later htr) (h.later htr) (hu.later htr)

lemma writeLog_follows (t : T) (tr : Trace Req Req.Answer T X) :
    FollowsTask (LogStep cfg db anchor mode entry opts) t
      (fun r tr' => LogResult cfg db anchor mode entry opts t tr' r) (fun _ _ => False)
      (writeLog cfg db anchor mode entry opts) tr := by
  refine FollowsTask.tryCatch (FollowsTask.bind (FollowsTask.request (fun _ _ => .insert) ?_))
  intro r tr₁ _ hi
  match r with
  | .error err => exact FollowsTask.pure fun _ htr => .notInserted (Did.later hi htr)
  | .ok () =>
  refine FollowsTask.bind (FollowsTask.weaken
    ((anchor.writeLog_follows cfg opts t (entry.withHash cfg.sha) tr₁).allow fun e tr htr h => ?_)
    ?_ (fun _ _ _ h => h.elim))
  · rw [Anchor.logPayload_withHash] at h
    exact .anchor (Did.later hi htr) h
  rintro r tr₂ htr₂ ⟨-, ho⟩
  rw [Anchor.logPayload_withHash] at ho
  have hi₂ : Did t _ _ tr₂ := Did.later hi htr₂
  refine FollowsTask.bind (FollowsTask.weaken
    ((anchoredNow_follows r.confirmed t tr₂).allow fun e tr htr h =>
      .anchor (hi₂.later htr) (.looks h)) ?_ (fun _ _ _ h => h.elim))
  intro anchoredAt tr₃ htr₃ ha
  refine FollowsTask.bind (FollowsTask.request (fun tr htr =>
    .update (hi₂.later (htr₃.trans htr)) (ho.later (htr₃.trans htr)) ha) ?_)
  intro u tr₄ htr₄ hu
  have hi₄ : Did t _ _ tr₄ := hi₂.later (htr₃.trans htr₄)
  have ho₄ := ho.later (htr₃.trans htr₄)
  match u with
  | .ok () =>
    exact FollowsTask.pure fun _ htr =>
      .written (hi₄.later htr) (ho₄.later htr) (Did.later hu htr)
  | .error err =>
    exact FollowsTask.pure fun _ htr =>
      .notUpdated (hi₄.later htr) (ho₄.later htr) (Did.later hu htr)

end Log

/-! ### Links -/

section Links

variable (s : Side) (ids : List JsString) (root : JsString)

/-- The requests of `linkBatchLeaves`. -/
def LinkReq : Db → Req → Prop
  | .postgres, e => e = .linkLeaves s ids root
  | .mongo, e => ∃ i id, ids[i]? = some id ∧ e = .linkLeaf s id root i

/-- All leaves are linked. -/
def Linked (t : T) (tr : Trace Req Req.Answer T X) : Db → Prop
  | .postgres => Did t (.linkLeaves s ids root) (Except.ok ()) tr
  | .mongo => ∀ i id, ids[i]? = some id → Did t (.linkLeaf s id root i) (Except.ok ()) tr

/-- A request of `linkBatchLeaves` was answered with an exception. -/
def LinkFailed (t : T) (tr : Trace Req Req.Answer T X) (err : JsError) : Db → Prop
  | .postgres => Did t (.linkLeaves s ids root) (Except.error err) tr
  | .mongo => ∃ i id, ids[i]? = some id ∧ Did t (.linkLeaf s id root i) (Except.error err) tr

variable {s ids root} {t : T} {tr tr' : Trace Req Req.Answer T X}

lemma Linked.later (db : Db) (h : Linked s ids root t tr db) (htr : tr <+: tr') :
    Linked s ids root t tr' db := by
  cases db with
  | postgres => exact Did.later h htr
  | mongo => exact fun i id hid => (h i id hid).later htr

lemma LinkFailed.later (db : Db) {err : JsError} (h : LinkFailed s ids root t tr err db)
    (htr : tr <+: tr') : LinkFailed s ids root t tr' err db := by
  cases db with
  | postgres => exact Did.later h htr
  | mongo =>
    obtain ⟨i, id, hid, h⟩ := h
    exact ⟨i, id, hid, h.later htr⟩

/-- The loop of MongoDB, from leaf `i` on. -/
lemma linkEach_follows (t : T) : ∀ (i : ℕ) (rest : List JsString) (tr : Trace Req Req.Answer T X),
    (∀ j id, rest[j]? = some id → ids[i + j]? = some id) →
    FollowsTask (fun _ e _ => LinkReq s ids root .mongo e) t
      (fun _ tr' => ∀ j id, rest[j]? = some id →
        Did t (.linkLeaf s id root (i + j)) (Except.ok ()) tr')
      (fun err tr' => LinkFailed s ids root t tr' err .mongo) (linkEach s root i rest) tr
  | _, [], _, _ => FollowsTask.pure fun _ _ => by simp
  | i, id :: rest, tr, hrest => by
    have hid : ids[i]? = some id := hrest 0 id rfl
    refine FollowsTask.bind (FollowsTask.request (fun _ _ => ⟨i, id, hid, rfl⟩) ?_)
    intro r tr₁ _ hlink
    match r with
    | .error err => exact ⟨i, id, hid, hlink⟩
    | .ok () =>
    refine FollowsTask.weaken (linkEach_follows t (i + 1) rest tr₁ fun j id' hj => ?_)
      (fun _ tr₂ htr₂ h => ?_) (fun _ _ _ h => h)
    · have hnext := hrest (j + 1) id' (by simpa using hj)
      rwa [show i + (j + 1) = i + 1 + j by omega] at hnext
    · intro j id' hj
      match j with
      | 0 =>
        obtain rfl : id = id' := by simpa using hj
        exact Did.later hlink htr₂
      | j + 1 =>
        have hdone := h j id' (by simpa using hj)
        rwa [show i + 1 + j = i + (j + 1) by omega] at hdone

lemma linkBatchLeaves_follows (db : Db) (t : T) (tr : Trace Req Req.Answer T X) :
    FollowsTask (fun _ e _ => LinkReq s ids root db e) t
      (fun _ tr' => Linked s ids root t tr' db)
      (fun err tr' => LinkFailed s ids root t tr' err db) (linkBatchLeaves db ids root s) tr := by
  cases db with
  | postgres =>
    refine FollowsTask.request (fun _ _ => rfl) fun r tr' _ h => ?_
    match r with
    | .ok () => exact h
    | .error err => exact h
  | mongo =>
    have hids : ∀ j id, ids[j]? = some id → ids[0 + j]? = some id := by simp
    refine FollowsTask.weaken (linkEach_follows t 0 ids tr hids) (fun _ _ _ h i id hid => ?_)
      (fun _ _ _ h => h)
    have hdone := h i id hid
    rwa [Nat.zero_add] at hdone

end Links

/-! ### Batches -/

section Batch

variable (s : Side) (entries : List LogEntry) (opts : Option WriteOpts)

/-- The row of an entry of a batch. -/
def leafRow (entry : LogEntry) : LogRow :=
  batchedRow db (entry.withHash cfg.sha) (entry.withHash cfg.sha).dataHash

/-- The record of the batch. -/
def recordRow : BatchRow := batchRow cfg (entries.map (LogEntry.withHash cfg.sha))

/-- The insertion of the leaf of an entry. -/
def leafDeed (entry : LogEntry) : Σ e : Req, e.Answer :=
  ⟨.insert db (.batched s) (leafRow cfg db entry), (Except.ok () : Except JsError Unit)⟩

/-- The leaf of each entry is inserted, by an insertion of its own. -/
def Leaves (t : T) (tr : Trace Req Req.Answer T X) : Prop :=
  Deeds.events X t (entries.map (leafDeed cfg db s) : Deeds Req Req.Answer) ≤
    (tr : Multiset (Event Req Req.Answer T X))

lemma Leaves.later {t : T} {tr tr' : Trace Req Req.Answer T X}
    (h : Leaves cfg db s entries t tr) (htr : tr <+: tr') : Leaves cfg db s entries t tr' :=
  h.trans (Multiset.coe_le.mpr htr.sublist.subperm)

lemma Leaves.did {t : T} {tr : Trace Req Req.Answer T X} (h : Leaves cfg db s entries t tr)
    {e : LogEntry} (he : e ∈ entries) :
    Did t (.insert db (.batched s) (leafRow cfg db e)) (Except.ok ()) tr :=
  Multiset.mem_coe.mp (Multiset.mem_of_le h
    (Multiset.mem_map.mpr ⟨leafDeed cfg db s e, by simpa using ⟨e, he, rfl⟩, rfl⟩))

/-- The record of the batch is inserted, after its leaves. -/
structure Recorded (t : T) (tr : Trace Req Req.Answer T X) : Prop where
  leaves : Leaves cfg db s entries t tr
  record : Did t (.insertBatchRecord db s (recordRow cfg entries)) (Except.ok ()) tr

lemma Recorded.later {t : T} {tr tr' : Trace Req Req.Answer T X}
    (h : Recorded cfg db s entries t tr) (htr : tr <+: tr') : Recorded cfg db s entries t tr' :=
  ⟨h.leaves.later cfg db s entries htr, h.record.later htr⟩

/-- The database holds the batch. -/
structure Stored (t : T) (tr : Trace Req Req.Answer T X) : Prop where
  recorded : Recorded cfg db s entries t tr
  linked : Linked s (entries.map LogEntry.id) (cfg.sha.computeBatchHash entries) t tr db

lemma Stored.later {t : T} {tr tr' : Trace Req Req.Answer T X}
    (h : Stored cfg db s entries t tr) (htr : tr <+: tr') : Stored cfg db s entries t tr' :=
  ⟨h.recorded.later cfg db s entries htr, h.linked.later db htr⟩

/-- The requests of `writeBatch`. -/
inductive BatchStep : Guard Req Req.Answer T X
  | insert {t : T} {e : LogEntry} {tr : Trace Req Req.Answer T X} (he : e ∈ entries) :
    BatchStep t (.insert db (.batched s) (leafRow cfg db e)) tr
  | record {t : T} {tr : Trace Req Req.Answer T X} (hl : Leaves cfg db s entries t tr) :
    BatchStep t (.insertBatchRecord db s (recordRow cfg entries)) tr
  | link {t : T} {e : Req} {tr : Trace Req Req.Answer T X} (hr : Recorded cfg db s entries t tr)
    (h : LinkReq s (entries.map LogEntry.id) (cfg.sha.computeBatchHash entries) db e) :
    BatchStep t e tr
  | anchor {t : T} {e : Req} {tr : Trace Req Req.Answer T X} (hs : Stored cfg db s entries t tr)
    (h : AnchorStep (anchor.batchPayload cfg entries) t e tr) : BatchStep t e tr
  | update {t : T} {tr : Trace Req Req.Answer T X} {success : Bool} {txId : Option TxHash}
    {confirmed : Option Bool} {anchoredAt : Option ℕ} (hs : Stored cfg db s entries t tr)
    (h : AnchorOutcome anchor.chain (anchor.batchPayload cfg entries) opts t tr success txId
      confirmed) (ha : anchoredAt.isSome = true ↔ confirmed = some true) :
    BatchStep t (.updateBatchAnchorStatus db s (cfg.sha.computeBatchHash entries)
      (statusOf confirmed success) txId anchoredAt) tr

/-- How `writeBatch` ends. -/
inductive BatchResult (t : T) (tr : Trace Req Req.Answer T X) : BatchWriteResult → Prop
  | empty (h : entries = []) : BatchResult t tr (.failed [] [] 0 "Empty batch")
  | written {success : Bool} {txId : Option TxHash} {confirmed : Option Bool}
    {anchoredAt : Option ℕ} (hne : entries ≠ []) (hs : Stored cfg db s entries t tr)
    (h : AnchorOutcome anchor.chain (anchor.batchPayload cfg entries) opts t tr success txId
      confirmed)
    (hu : Did t (.updateBatchAnchorStatus db s (cfg.sha.computeBatchHash entries)
      (statusOf confirmed success) txId anchoredAt) (Except.ok ()) tr) :
    BatchResult t tr ⟨cfg.sha.computeBatchHash entries, startId entries, endId entries,
      entries.length, success, txId, confirmed, none⟩
  | notInserted {e : LogEntry} {err : JsError} (he : e ∈ entries)
    (hi : Did t (.insert db (.batched s) (leafRow cfg db e)) (Except.error err) tr) :
    BatchResult t tr (.failed (startId entries) (endId entries) entries.length err)
  | notRecorded {err : JsError} (hl : Leaves cfg db s entries t tr)
    (hr : Did t (.insertBatchRecord db s (recordRow cfg entries)) (Except.error err) tr) :
    BatchResult t tr (.failed (startId entries) (endId entries) entries.length err)
  | notLinked {err : JsError} (hr : Recorded cfg db s entries t tr)
    (hk : LinkFailed s (entries.map LogEntry.id) (cfg.sha.computeBatchHash entries) t tr err db) :
    BatchResult t tr (.failed (startId entries) (endId entries) entries.length err)
  | notUpdated {success : Bool} {txId : Option TxHash} {confirmed : Option Bool}
    {anchoredAt : Option ℕ} {err : JsError} (hs : Stored cfg db s entries t tr)
    (h : AnchorOutcome anchor.chain (anchor.batchPayload cfg entries) opts t tr success txId
      confirmed)
    (hu : Did t (.updateBatchAnchorStatus db s (cfg.sha.computeBatchHash entries)
      (statusOf confirmed success) txId anchoredAt) (Except.error err) tr) :
    BatchResult t tr (.failed (startId entries) (endId entries) entries.length err)

lemma BatchResult.later {t : T} {tr tr' : Trace Req Req.Answer T X} {r : BatchWriteResult}
    (h : BatchResult cfg db anchor s entries opts t tr r) (htr : tr <+: tr') :
    BatchResult cfg db anchor s entries opts t tr' r := by
  cases h with
  | empty h => exact .empty h
  | written hne hs h hu =>
    exact .written hne (hs.later cfg db s entries htr) (h.later htr) (hu.later htr)
  | notInserted he hi => exact .notInserted he (hi.later htr)
  | notRecorded hl hr => exact .notRecorded (hl.later cfg db s entries htr) (hr.later htr)
  | notLinked hr hk => exact .notLinked (hr.later cfg db s entries htr) (hk.later db htr)
  | notUpdated hs h hu =>
    exact .notUpdated (hs.later cfg db s entries htr) (h.later htr) (hu.later htr)

lemma insertLeaves_follows (t : T) (tr : Trace Req Req.Answer T X) :
    FollowsTask (BatchStep cfg db anchor s entries opts) t
      (fun _ tr' => Leaves cfg db s entries t tr')
      (fun err tr' => ∃ e ∈ entries,
        Did t (.insert db (.batched s) (leafRow cfg db e)) (Except.error err) tr')
      (promiseAll ((entries.map (LogEntry.withHash cfg.sha)).map fun e =>
        insertBatched db e e.dataHash (.batched s))) tr := by
  rw [List.map_map]
  have hmembers : FollowsTask (BatchStep cfg db anchor s entries opts) t
      (fun as tr' => List.Forall₂ (fun _ _ => True) entries as)
      (fun err tr' => ∃ e ∈ entries,
        Did t (.insert db (.batched s) (leafRow cfg db e)) (Except.error err) tr')
      (promiseAll (entries.map fun e => insertBatched db (e.withHash cfg.sha)
        (e.withHash cfg.sha).dataHash (.batched s))) tr := by
    refine @FollowsTask.promiseAll _ _ _ _ _ _ _ _ _ (fun _ _ _ => True)
      (fun e err tr' => Did t (.insert db (.batched s) (leafRow cfg db e)) (Except.error err) tr')
      _ tr (fun _ _ _ _ _ _ => trivial) (fun _ _ _ _ htr h => h.later htr) entries fun e he => ?_
    refine FollowsTask.request (fun _ _ => .insert he) fun r tr' _ h => ?_
    match r with
    | .ok () => trivial
    | .error err => exact h
  have hown : EmitsTask (fun _ own => ∃ owns, List.Forall₂ (fun e own => {leafDeed cfg db s e} ≤ own)
      entries owns ∧ own = owns.sum) (fun _ _ => True)
      (promiseAll (entries.map fun e => insertBatched db (e.withHash cfg.sha)
        (e.withHash cfg.sha).dataHash (.batched s))) 0 := by
    apply EmitsTask.promiseAll fun _ _ h => h
    intro e _ r
    cases r with
    | ok u => exact le_rfl
    | error err => trivial
  apply FollowsTask.weaken (hmembers.tally hown)
  · rintro _ tr' - ⟨-, own, ⟨owns, howns, rfl⟩, hown⟩
    exact (Deeds.events_mono (Deeds.le_sum howns)).trans hown
  · exact fun _ _ _ h => h

/-- `writeBatch` returns, with a result that tells what it has done. -/
lemma writeBatch_follows (t : T) (tr : Trace Req Req.Answer T X) :
    FollowsTask (BatchStep cfg db anchor s entries opts) t
      (fun r tr' => BatchResult cfg db anchor s entries opts t tr' r) (fun _ _ => False)
      (writeBatch cfg db anchor (.batched s) entries opts) tr := by
  rw [writeBatch]
  split
  · next hnil => exact FollowsTask.pure fun _ _ => .empty hnil
  next hne =>
  have hids : (entries.map (LogEntry.withHash cfg.sha)).map LogEntry.id = entries.map LogEntry.id :=
    List.map_map
  simp only [computeBatchHash_withHash, hids]
  refine FollowsTask.tryCatch (FollowsTask.bind
    ((insertLeaves_follows cfg db anchor s entries opts t tr).weaken ?_ ?_))
  swap
  · rintro err tr' - ⟨e, he, hi⟩
    exact FollowsTask.pure fun _ htr => .notInserted he (hi.later htr)
  intro _ tr₁ _ hl
  refine FollowsTask.bind (FollowsTask.request
    (fun _ htr => .record (hl.later cfg db s entries htr)) ?_)
  intro r tr₂ htr₂ hr
  replace hl := hl.later cfg db s entries htr₂
  match r with
  | .error err =>
    exact FollowsTask.pure fun _ htr => .notRecorded (hl.later cfg db s entries htr) (Did.later hr htr)
  | .ok () =>
  have hrec : Recorded cfg db s entries t tr₂ := ⟨hl, hr⟩
  refine FollowsTask.bind (FollowsTask.weaken
    ((linkBatchLeaves_follows db t tr₂).allow fun e tr htr h =>
      .link (hrec.later cfg db s entries htr) h) ?_ ?_)
  swap
  · intro err tr₃ htr₃ hk
    exact FollowsTask.pure fun _ htr =>
      .notLinked (hrec.later cfg db s entries (htr₃.trans htr)) (hk.later db htr)
  intro _ tr₃ htr₃ hk
  have hs : Stored cfg db s entries t tr₃ := ⟨hrec.later cfg db s entries htr₃, hk⟩
  have hne' : entries.map (LogEntry.withHash cfg.sha) ≠ [] := by simpa using hne
  refine FollowsTask.bind (FollowsTask.weaken
    ((anchor.writeBatch_follows cfg opts t hne' tr₃).allow fun e tr htr h => ?_)
    ?_ (fun _ _ _ h => h.elim))
  · rw [Anchor.batchPayload_withHash] at h
    exact .anchor (hs.later cfg db s entries htr) h
  rintro r tr₄ htr₄ ⟨ho, -⟩
  rw [Anchor.batchPayload_withHash] at ho
  replace hs := hs.later cfg db s entries htr₄
  refine FollowsTask.bind (FollowsTask.weaken
    ((anchoredNow_follows r.confirmed t tr₄).allow fun e tr htr h =>
      .anchor (hs.later cfg db s entries htr) (.looks h)) ?_ (fun _ _ _ h => h.elim))
  intro anchoredAt tr₅ htr₅ ha
  refine FollowsTask.bind (FollowsTask.request (fun tr htr =>
    .update (hs.later cfg db s entries (htr₅.trans htr)) (ho.later (htr₅.trans htr)) ha) ?_)
  intro u tr₆ htr₆ hu
  replace hs := hs.later cfg db s entries (htr₅.trans htr₆)
  replace ho := ho.later (htr₅.trans htr₆)
  match u with
  | .ok () =>
    exact FollowsTask.pure fun _ htr =>
      .written hne (hs.later cfg db s entries htr) (ho.later htr) (Did.later hu htr)
  | .error err =>
    exact FollowsTask.pure fun _ htr =>
      .notUpdated (hs.later cfg db s entries htr) (ho.later htr) (Did.later hu htr)

end Batch

end HybridStorage

end HybridLog
