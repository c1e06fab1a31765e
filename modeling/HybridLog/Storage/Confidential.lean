import HybridLog.Storage.Steps

/-!
# What a hybrid storage tells its chain

Two writes that agree on the content hash, the ids, levels and sources, the number of entries and
the first 256 characters of each message look the same on the private chain. On the public chain
this is so for batches; for a single log the whole message and its metadata are arguments of the
call.
-/

namespace HybridLog

open Js

/-! ### Inputs that look the same -/

/-- The entries may differ in the rest of their messages and in their metadata. -/
structure SameOutline (e e' : LogEntry) : Prop where
  id : e.id = e'.id
  level : e.level = e'.level
  source : e.source = e'.source
  preview : e.message.take 256 = e'.message.take 256

section Batches

variable {es es' : List LogEntry}

lemma map_eq_of_forall₂ {β : Type} {f : LogEntry → β} (h : List.Forall₂ SameOutline es es')
    (hf : ∀ e e', SameOutline e e' → f e = f e') : es.map f = es'.map f := by
  induction h with
  | nil => rfl
  | cons h _ ih => rw [List.map_cons, List.map_cons, hf _ _ h, ih]

lemma startId_congr (h : List.Forall₂ SameOutline es es') : startId es = startId es' := by
  rw [startId, startId, ← List.head?_map, ← List.head?_map,
    map_eq_of_forall₂ h fun _ _ hs => hs.id]

lemma endId_congr (h : List.Forall₂ SameOutline es es') : endId es = endId es' := by
  rw [endId, endId, ← List.getLast?_map, ← List.getLast?_map,
    map_eq_of_forall₂ h fun _ _ hs => hs.id]

lemma headSource_congr (h : List.Forall₂ SameOutline es es') :
    (es.head?.map LogEntry.source).getD [] = (es'.head?.map LogEntry.source).getD [] := by
  rw [← List.head?_map, ← List.head?_map, map_eq_of_forall₂ h fun _ _ hs => hs.source]

lemma levelCount_congr (h : List.Forall₂ SameOutline es es') (name : String) :
    levelCount es name = levelCount es' name := by
  have hcount (l : List LogEntry) : levelCount l name =
      ((l.map LogEntry.level).filter fun s => toUpperCase s = Js.ofString name).length := by
    rw [levelCount, List.filter_map, List.length_map]
    rfl
  rw [hcount, hcount, map_eq_of_forall₂ h fun _ _ hs => hs.level]

lemma maxSeverity_congr (h : List.Forall₂ SameOutline es es') :
    maxSeverity es = maxSeverity es' := by
  simp only [maxSeverity, levelCount_congr h]

lemma batchPreview_congr (h : List.Forall₂ SameOutline es es') :
    batchPreview es = batchPreview es' := by
  rw [batchPreview, batchPreview, h.length_eq, startId_congr h, endId_congr h]

end Batches

/-! ### Hashes -/

lemma SameOutline.withHash {sha : Sha256} {e e' : LogEntry} (h : SameOutline e e') :
    SameOutline (e.withHash sha) (e'.withHash sha) := ⟨h.id, h.level, h.source, h.preview⟩

lemma forall₂_withHash {sha : Sha256} {es es' : List LogEntry}
    (h : List.Forall₂ SameOutline es es') :
    List.Forall₂ SameOutline (es.map (LogEntry.withHash sha)) (es'.map (LogEntry.withHash sha)) := by
  induction h with
  | nil => exact .nil
  | cons h _ ih => exact .cons h.withHash ih

/-! ### Two writes -/

/-- The transaction for a log shows no more than its outline and its content hash. -/
def LogBodyHidden (cfg : ServerConfig) (anchor : Anchor) : Prop :=
  ∀ (e e' : LogEntry) (ms : ℕ), SameOutline e e' → cfg.sha.leafHash e = cfg.sha.leafHash e' →
    anchor.logTx cfg e ms = anchor.logTx cfg e' ms

/-- The transaction for a batch shows no more than the outlines and the Merkle root. -/
def BatchBodyHidden (cfg : ServerConfig) (anchor : Anchor) : Prop :=
  ∀ (es es' : List LogEntry) (ms : ℕ), List.Forall₂ SameOutline es es' →
    cfg.sha.computeBatchHash es = cfg.sha.computeBatchHash es' →
      anchor.batchTx cfg es ms = anchor.batchTx cfg es' ms

variable (cfg : ServerConfig)

lemma exonum_logBodyHidden {mode : AnchorMode} (h : mode ≠ .full) :
    LogBodyHidden cfg (.exonum mode) := by
  intro e e' ms hs hhash
  cases mode with
  | full => exact absurd rfl h
  | hashOnly | batch =>
    simp only [Anchor.logTx, ExonumAnchor.logArgs, LogEntry.withHash, hhash, hs.level, hs.preview]

lemma batchBodyHidden (anchor : Anchor) : BatchBodyHidden cfg anchor := by
  intro es es' ms hs hroot
  have hw := @forall₂_withHash cfg.sha _ _ hs
  cases anchor with
  | exonum mode => cases mode with
    | full | hashOnly | batch =>
      simp only [Anchor.batchTx, ExonumAnchor.batchArgs, computeBatchHash_withHash, hroot,
        startId_congr hw, endId_congr hw, hw.length_eq, levelCount_congr hw, maxSeverity_congr hw,
        headSource_congr hw, batchPreview_congr hw]
  | ethereum =>
    simp only [Anchor.batchTx, EthereumAnchor.batchCall, computeBatchHash_withHash, hroot,
      hw.length_eq, maxSeverity_congr hw, headSource_congr hw, batchPreview_congr hw]

/-! ### The public chain -/

/-- An entry whose content hash is given. -/
def bodyEntry (metadata : JsonValue) : LogEntry where
  id := []
  timestamp := .epoch
  level := infoLevel
  source := []
  message := []
  metadata := metadata
  dataHash := List.replicate 64 0x30

/-- `{"key":"secret"}` -/
def secretObject : JsonValue :=
  ⟨.obj [(ofString "key", .str (ofString "secret"))],
    ⟨List.nodup_singleton _, trivial, trivial⟩, trivial, trivial⟩

lemma bodyEntry_withHash (metadata : JsonValue) :
    (bodyEntry metadata).withHash cfg.sha = bodyEntry metadata := rfl

/-- Two logs that differ in their metadata only are not sent alike. -/
lemma ethereum_logBody_shown : ¬LogBodyHidden cfg .ethereum := by
  intro h
  have hsame := h (bodyEntry emptyObject) (bodyEntry secretObject) 0 ⟨rfl, rfl, rfl, rfl⟩ rfl
  rw [Anchor.logTx, Anchor.logTx, bodyEntry_withHash, bodyEntry_withHash] at hsame
  have hjson (call : Except JsError StoreWrite) (c : StoreWrite) (hc : call = .ok c) :
      call.map (fun call => ChainTx.ethereum ⟨call, cfg.ethereumSender⟩) =
        .ok (.ethereum ⟨c, cfg.ethereumSender⟩) := by
    rw [hc]
    rfl
  rw [hjson (EthereumAnchor.logCall (bodyEntry emptyObject)) _ rfl,
    hjson (EthereumAnchor.logCall (bodyEntry secretObject)) _ rfl] at hsame
  simp only [Except.ok.injEq, ChainTx.ethereum.injEq, EthereumTx.mk.injEq, StoreWrite.mk.injEq]
    at hsame
  exact absurd hsame.1.2.2.2.2.2 (by decide)

/-- A hybrid storage keeps the body of its logs off the chain exactly if the chain is the private
one; batches always do. -/
theorem body_hidden_iff {s : LogStrategy} {db db' : Db} {anchor : Anchor} {mode : HybridMode}
    (h : pickStorage cfg (some (.strategy s)) db = some (.hybrid db' anchor mode)) :
    (LogBodyHidden cfg anchor ↔ s.isPublic = false) ∧ BatchBodyHidden cfg anchor := by
  refine ⟨?_, batchBodyHidden cfg anchor⟩
  have hpick (st : Storage) (hst : pickStorage.ofDb cfg db st = some (.hybrid db' anchor mode)) :
      st = .hybrid db' anchor mode := by
    rw [pickStorage.ofDb] at hst
    split at hst
    · cases hst
    · exact Option.some.inj hst
  cases s with
  | databaseOnly => cases hpick _ h
  | privateChain | publicChain => cases h
  | hybridPublic | hybridPublicBatch =>
    cases hpick _ h
    simpa [LogStrategy.isPublic] using ethereum_logBody_shown cfg
  | hybridPrivate | hybridPrivateBatch =>
    cases hpick _ h
    simpa [LogStrategy.isPublic] using exonum_logBodyHidden cfg (by decide)

theorem private_body_hidden :
    (LogBodyHidden connectedConfig (.exonum .hashOnly) ↔
        LogStrategy.hybridPrivate.isPublic = false) ∧
      BatchBodyHidden connectedConfig (.exonum .hashOnly) :=
  @body_hidden_iff connectedConfig .hybridPrivate .mongo .mongo _ (.anchored .priv) rfl

/-- Through `hybrid_public` two logs that differ in their metadata are told apart on the chain. -/
theorem public_body_shown :
    ¬∀ (cfg : ServerConfig) (s : LogStrategy) (db db' : Db) (anchor : Anchor) (mode : HybridMode),
      pickStorage cfg (some (.strategy s)) db = some (.hybrid db' anchor mode) →
        LogBodyHidden cfg anchor ∧ BatchBodyHidden cfg anchor :=
  fun h => ethereum_logBody_shown connectedConfig
    (h connectedConfig .hybridPublic .postgres .postgres .ethereum (.anchored .pub) rfl).1

end HybridLog
