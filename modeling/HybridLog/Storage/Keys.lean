import HybridLog.Anchor.Language
import HybridLog.Storage.Steps
import HybridLog.System.Origins

/-!
# The keys of anchors

What an anchor sends for a fresh entry, or for a batch of them, is a write under the hash of the
entry or under the root of the batch. The exception is a log that is sent to the batch service on
its own.
-/

namespace HybridLog

open Js Async

/-! ### Stores of records -/

/-- What keeps records: a service of the Exonum chain, or the contract. -/
inductive RecordStore
  | service (service : ExonumService)
  | contract
deriving DecidableEq

namespace ChainTx

def chain : ChainTx → Chain
  | .exonum _ => .exonum
  | .ethereum _ => .ethereum

/-- Where a transaction writes. -/
def store : ChainTx → RecordStore
  | .exonum tx => .service tx.service
  | .ethereum _ => .contract

/-- The key a transaction writes, if its arguments are in order. -/
def key? : ChainTx → Option Bytes
  | .exonum tx => tx.key?
  | .ethereum tx => some tx.call.contentHash

end ChainTx

def Anchor.store : Anchor → RecordStore
  | .exonum mode => .service mode.service
  | .ethereum => .contract

/-- The transaction writes a record under a hash in hexadecimal. -/
structure ChainTx.Records (tx : ChainTx) (anchor : Anchor) (hash : JsString) : Prop where
  chain : tx.chain = anchor.chain
  store : tx.store = anchor.store
  key : tx.key? = some (bufferFromHex hash)

/-! ### Transactions of the Exonum anchor -/

/-- A service that reads the arguments as a write of the hash finds it as the key. -/
lemma key_of_understands {service : ExonumService} {args : Bytes} {hash : JsString}
    (h : service.Understands args hash) (hdigest : IsDigest hash) (author : Address) :
    (ChainTx.exonum ⟨service, args, author⟩).key? = some (bufferFromHex hash) := by
  have hparse := parseHash_digest hdigest
  cases service with
  | log | hash | batch =>
    obtain ⟨arg, harg, heq⟩ := h
    simp [ChainTx.key?, ExonumTx.key?, harg, heq, hparse]

/-- A text of at most 2^51 code units is no problem. -/
lemma size_text {s : JsString} (h : s.length < 2 ^ 51) : (utf8 s).length < 2 ^ 53 := by
  have hle := length_utf8_le s
  omega

/-- The message about one log. -/
lemma encodable_hash {hash level preview : JsString} {seed : ℕ} (hhash : IsDigest hash)
    (hlevel : Small level) (hpreview : preview.length ≤ 256) (hseed : seed < 2 ^ 31) :
    EncodableSlots (WriteHashData.mk hash level preview seed).slots := by
  have hlen := hhash.length
  intro x hx
  simp only [WriteHashData.slots, List.mem_cons, List.not_mem_nil, or_false] at hx
  rcases hx with rfl | rfl | rfl | rfl
  · exact ⟨by norm_num, by norm_num, size_text (by omega)⟩
  · exact ⟨by norm_num, by norm_num, hlevel.trans (by norm_num)⟩
  · exact ⟨by norm_num, by norm_num, size_text (by omega)⟩
  · exact ⟨by norm_num, by norm_num, hseed.trans (by norm_num)⟩

/-- The highest level of a batch is one of the five. -/
lemma length_maxSeverity (entries : List LogEntry) : (maxSeverity entries).length ≤ 8 := by
  simp only [maxSeverity, List.foldl]
  split_ifs <;> decide

/-- The root of a batch of fresh entries. -/
lemma isDigest_root {sha : Sha256} {entries : List LogEntry} (h : ∀ e ∈ entries, e.Fresh) :
    IsDigest (sha.computeBatchHash entries) := by
  apply Sha256.isDigest_rootOf
  intro b hb
  obtain ⟨e, he, rfl⟩ := List.mem_map.mp hb
  exact ((h e he).isDigest sha).length_buffer

lemma length_startId {entries : List LogEntry} (h : ∀ e ∈ entries, e.id.length = 36) :
    (startId entries).length ≤ 36 := by
  cases entries with
  | nil => decide
  | cons e es => exact (h e (.head _)).le

lemma length_endId {entries : List LogEntry} (h : ∀ e ∈ entries, e.id.length = 36) :
    (endId entries).length ≤ 36 := by
  rw [endId]
  cases hlast : entries.getLast? with
  | none => decide
  | some e => exact (h e (List.mem_of_getLast? hlast)).le

/-- The message about a batch. -/
lemma encodable_batch {sha : Sha256} {entries : List LogEntry} {seed : ℕ}
    (hids : ∀ e ∈ entries, e.id.length = 36) (hroot : IsDigest (sha.computeBatchHash entries))
    (hlen : entries.length < 2 ^ 32) (hseed : seed < 2 ^ 31) :
    EncodableSlots (WriteBatchData.mk (sha.computeBatchHash entries) seed (startId entries)
      (endId entries) entries.length (levelCount entries "DEBUG") (levelCount entries "INFO")
      (levelCount entries "WARN") (levelCount entries "ERROR") (levelCount entries "CRITICAL")
      (maxSeverity entries)).slots := by
  replace hroot := hroot.length
  have hstart := length_startId hids
  have hend := length_endId hids
  have hmax := length_maxSeverity entries
  have hcount (name : String) : levelCount entries name < 2 ^ 53 :=
    (levelCount_le entries name).trans_lt (hlen.trans (by norm_num))
  intro x hx
  simp only [WriteBatchData.slots, List.mem_cons, List.not_mem_nil, or_false] at hx
  rcases hx with rfl | rfl | rfl | rfl | rfl | rfl | rfl | rfl | rfl | rfl | rfl
  · exact ⟨by norm_num, by norm_num, size_text (by omega)⟩
  · exact ⟨by norm_num, by norm_num, hseed.trans (by norm_num)⟩
  · exact ⟨by norm_num, by norm_num, size_text (by omega)⟩
  · exact ⟨by norm_num, by norm_num, size_text (by omega)⟩
  · exact ⟨by norm_num, by norm_num, hlen.trans (by norm_num)⟩
  · exact ⟨by norm_num, by norm_num, hcount _⟩
  · exact ⟨by norm_num, by norm_num, hcount _⟩
  · exact ⟨by norm_num, by norm_num, hcount _⟩
  · exact ⟨by norm_num, by norm_num, hcount _⟩
  · exact ⟨by norm_num, by norm_num, hcount _⟩
  · exact ⟨by norm_num, by norm_num, size_text (by omega)⟩

/-! ### Calls of the contract -/

namespace EthereumAnchor

lemma withoutHexMark_toHex (bs : Bytes) : withoutHexMark (toHex bs) = toHex bs := by
  unfold withoutHexMark
  split
  · next rest heq =>
    have hx : (0x78 : UInt16) ∈ toHex bs := by simp [heq]
    exact absurd (isSome_of_mem_toHex hx) (by decide)
  · rfl

lemma toBytes32_digest {hash : JsString} (h : IsDigest hash) :
    toBytes32 hash = .ok (bufferFromHex hash) := by
  have hlen := h.length
  obtain ⟨b, -, rfl⟩ := h
  simp only [toBytes32, withoutHexMark_toHex, hlen, Nat.sub_self, List.replicate_zero,
    List.nil_append]
  rw [← hlen, List.take_length, hexBytes_toHex, bufferFromHex_toHex]

/-- An encoded call is about the bytes of the hash. -/
lemma contentHash_encodeCall {hash preview message metadata : JsString} {level : ℕ}
    {source : Bytes} {call : StoreWrite} (h : IsDigest hash)
    (hcall : encodeCall [.text (hashText hash), .number level, .text (sourceText source),
      .text preview, .text message, .text metadata] = .ok call) :
    call.contentHash = bufferFromHex hash := by
  rw [encodeCall_eq, toBytes32_digest h] at hcall
  cases hpreview : strictUtf8 preview with
  | error err => simp [hpreview, bind, Except.bind] at hcall
  | ok previewBytes =>
    cases hmessage : strictUtf8 message with
    | error err => simp [hpreview, hmessage, bind, Except.bind] at hcall
    | ok messageBytes =>
      cases hmeta : strictUtf8 metadata with
      | error err => simp [hpreview, hmessage, hmeta, bind, Except.bind] at hcall
      | ok metaBytes =>
        simp only [hpreview, hmessage, hmeta, bind, Except.bind, pure, Except.pure] at hcall
        rw [← Except.ok.inj hcall]

lemma contentHash_logCall {entry : LogEntry} {call : StoreWrite} (h : IsDigest entry.dataHash)
    (hcall : logCall entry = .ok call) : call.contentHash = bufferFromHex entry.dataHash := by
  rw [logCall_eq, logCallArgs] at hcall
  cases hsource : sourceBytes32 entry.source with
  | error err =>
    rw [hsource] at hcall
    cases hcall
  | ok source =>
    rw [hsource] at hcall
    exact contentHash_encodeCall h hcall

lemma contentHash_batchCall {sha : Sha256} {entries : List LogEntry} {call : StoreWrite}
    (h : IsDigest (sha.computeBatchHash entries)) (hcall : batchCall sha entries = .ok call) :
    call.contentHash = bufferFromHex (sha.computeBatchHash entries) := by
  rw [batchCall_eq, batchCallArgs] at hcall
  cases hsource : sourceBytes32 ((entries.head?.map LogEntry.source).getD []) with
  | error err =>
    rw [hsource] at hcall
    cases hcall
  | ok source =>
    rw [hsource] at hcall
    exact contentHash_encodeCall h hcall

end EthereumAnchor

/-! ### Anchors of hybrid storages -/

/-- The anchor of the storages of one kind. -/
def HybridMode.anchor : HybridMode → Anchor
  | .anchored .priv => .exonum .hashOnly
  | .batched .priv => .exonum .batch
  | .anchored .pub | .batched .pub => .ethereum

lemma pickStorage_anchor {cfg : ServerConfig} {m : Option StorageMode} {db db' : Db}
    {anchor : Anchor} {mode : HybridMode}
    (h : pickStorage cfg m db = some (.hybrid db' anchor mode)) :
    db' = db ∧ anchor = mode.anchor := by
  unfold pickStorage at h
  split at h
  · cases h
  · cases h
  all_goals
    obtain ⟨heq, -⟩ := pickStorage_ofDb cfg h
    cases heq
  all_goals exact ⟨rfl, rfl⟩

variable {cfg : ServerConfig} {tx : ChainTx}

/-- What is sent for a fresh entry, unless it goes to the batch service. -/
lemma records_of_logPayload {mode : HybridMode} {entry : LogEntry} (hmode : mode ≠ .batched .priv)
    (hfresh : entry.Fresh) (h : mode.anchor.logPayload cfg entry tx) :
    tx.Records mode.anchor (cfg.sha.leafHash entry) := by
  have hdigest := hfresh.isDigest cfg.sha
  obtain ⟨ms, htx⟩ := h
  have hcontract (hanchor : mode.anchor = .ethereum) :
      tx.Records mode.anchor (cfg.sha.leafHash entry) := by
    rw [hanchor] at htx ⊢
    rw [Anchor.logTx] at htx
    cases hcall : EthereumAnchor.logCall (entry.withHash cfg.sha) with
    | error err =>
      rw [hcall] at htx
      cases htx
    | ok call =>
      rw [hcall] at htx
      cases htx
      refine ⟨rfl, rfl, ?_⟩
      rw [ChainTx.key?, EthereumAnchor.contentHash_logCall hdigest hcall]
      rfl
  cases mode with
  | anchored s => cases s with
    | priv =>
      cases htx
      refine ⟨rfl, rfl, key_of_understands ?_ hdigest _⟩
      apply understands_encodeWriteHash
      exact encodable_hash hdigest hfresh.level (List.length_take_le _ _) (seedAt_lt ms)
    | pub => exact hcontract rfl
  | batched s => cases s with
    | priv => exact absurd rfl hmode
    | pub => exact hcontract rfl

/-- What is sent for a batch of fresh entries. -/
lemma records_of_batchPayload {s : Side} {entries : List LogEntry}
    (hfresh : ∀ e ∈ entries, e.Fresh) (hlen : entries.length < 2 ^ 32)
    (h : (HybridMode.batched s).anchor.batchPayload cfg entries tx) :
    tx.Records (HybridMode.batched s).anchor (cfg.sha.computeBatchHash entries) := by
  have hdigest : IsDigest (cfg.sha.computeBatchHash entries) := isDigest_root hfresh
  rw [← computeBatchHash_withHash] at hdigest ⊢
  obtain ⟨ms, htx⟩ := h
  cases s with
  | priv =>
    cases htx
    refine ⟨rfl, rfl, key_of_understands ?_ hdigest _⟩
    have hids : ∀ e ∈ entries.map (LogEntry.withHash cfg.sha), e.id.length = 36 := by
      intro e he
      obtain ⟨e', he', rfl⟩ := List.mem_map.mp he
      exact (hfresh e' he').id
    have hlen' : (entries.map (LogEntry.withHash cfg.sha)).length < 2 ^ 32 := by
      rwa [List.length_map]
    have hcounts (name : String) :
        levelCount (entries.map (LogEntry.withHash cfg.sha)) name < 2 ^ 32 :=
      (levelCount_le _ name).trans_lt hlen'
    apply understands_encodeWriteBatch (encodable_batch hids hdigest hlen' (seedAt_lt ms))
    simp only [WriteBatchData.counts, List.forall_mem_cons]
    exact ⟨hlen', hcounts _, hcounts _, hcounts _, hcounts _, hcounts _, by simp⟩
  | pub =>
    rw [HybridMode.anchor, Anchor.batchTx] at htx
    cases hcall : EthereumAnchor.batchCall cfg.sha (entries.map (LogEntry.withHash cfg.sha)) with
    | error err =>
      rw [hcall] at htx
      cases htx
    | ok call =>
      rw [hcall] at htx
      cases htx
      refine ⟨rfl, rfl, ?_⟩
      rw [ChainTx.key?, EthereumAnchor.contentHash_batchCall hdigest hcall]

end HybridLog
