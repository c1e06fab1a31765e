import HybridLog.Anchor.Envelope
import HybridLog.Anchor.EthereumAnchor
import HybridLog.Anchor.ExonumAnchor
import HybridLog.Async.Exec

/-!
# The language of a service

An anchor is bound to a service or a contract when it is made, and chooses how to encode a write
when it writes. Batches are always encoded for the service they go to; single logs are not by an
anchor of mode `batch`, which has no message for them.
-/

namespace HybridLog

open Js Async Protobuf

/-! ### Messages of a service -/

/-- The service reads the arguments as a write of the hash. -/
def ExonumService.Understands (service : ExonumService) (args : Bytes) (hash : JsString) : Prop :=
  match service with
  | .log => ∃ arg, WriteLog.decode args = some arg ∧ arg.contentHash = chars hash
  | .hash => ∃ arg, WriteHash.decode args = some arg ∧ arg.contentHash = chars hash
  | .batch => ∃ arg, WriteBatch.decode args = some arg ∧ arg.contentHash = chars hash

lemma seedAt_lt (ms : ℕ) : ExonumAnchor.seedAt ms < 2 ^ 31 := Nat.mod_lt _ (by norm_num)

lemma understands_encodeWriteLog {d : WriteLogData} (h : EncodableSlots d.slots) :
    ExonumService.log.Understands (encodeWriteLog d) d.contentHash :=
  ⟨_, decode_encodeWriteLog h, rfl⟩

lemma understands_encodeWriteHash {d : WriteHashData} (h : EncodableSlots d.slots) :
    ExonumService.hash.Understands (encodeWriteHash d) d.contentHash :=
  ⟨_, decode_encodeWriteHash h, rfl⟩

lemma understands_encodeWriteBatch {d : WriteBatchData} (h : EncodableSlots d.slots)
    (hcounts : ∀ n ∈ d.counts, n < 2 ^ 32) :
    ExonumService.batch.Understands (encodeWriteBatch d) d.contentHash :=
  ⟨_, decode_encodeWriteBatch h hcounts, rfl⟩

/-- The message of a hash without level and seed is that of a batch which starts with the preview
and counts nothing. -/
def WriteHashData.asBatch (d : WriteHashData) : WriteBatchData :=
  ⟨d.contentHash, 0, d.messagePreview, [], 0, 0, 0, 0, 0, 0, []⟩

lemma encodeWriteHash_eq_asBatch {d : WriteHashData} (hlevel : d.level = []) (hseed : d.seed = 0) :
    encodeWriteHash d = encodeWriteBatch d.asBatch := by
  rw [encodeWriteHash, encodeWriteBatch]
  congr 1
  simp [WriteHashData.fields, WriteBatchData.fields, WriteHashData.asBatch, hlevel, hseed]

/-- The batch service reads the message of a hash only if its second and fourth field, which have
other types there, are left out. -/
theorem batch_understands_encodeWriteHash_iff {d : WriteHashData} (h : EncodableSlots d.slots) :
    ExonumService.batch.Understands (encodeWriteHash d) d.contentHash ↔
      d.level = [] ∧ d.seed = 0 := by
  constructor
  · rintro ⟨arg, harg, -⟩
    have hlevel : d.level = [] := by
      by_contra hlevel
      rw [decode_encodeWriteHash_batch h hlevel] at harg
      cases harg
    refine ⟨hlevel, ?_⟩
    by_contra hseed
    rw [decode_encodeWriteHash_batch_seed h hlevel hseed] at harg
    cases harg
  · rintro ⟨hlevel, hseed⟩
    rw [encodeWriteHash_eq_asBatch hlevel hseed]
    refine understands_encodeWriteBatch (d := d.asBatch) ?_ ?_
    · intro x hx
      simp only [WriteBatchData.slots, WriteHashData.asBatch, List.mem_cons, List.not_mem_nil,
        or_false] at hx
      have hhash := h (1, .required d.contentHash) (.head _)
      have hpreview := h (3, .text d.messagePreview) (by simp [WriteHashData.slots])
      rcases hx with rfl | rfl | rfl | rfl | rfl | rfl | rfl | rfl | rfl | rfl | rfl
      · exact hhash
      · simp [Slot.size]
      · exact hpreview
      all_goals simp [Slot.size, utf8, chars]
    · simp [WriteBatchData.counts, WriteHashData.asBatch]

/-! ### What the Exonum anchor submits -/

/-- The transaction of a request. -/
def Req.tx? : Req → Option ChainTx
  | .submit tx => some tx
  | _ => none

/-- The transactions a program submits. -/
def submitted {α : Type} (answer : Oracle) (p : Io α) : List ChainTx :=
  (Task.exec answer p []).1.filterMap Req.tx?

/-- The time a program is told that asks for it first. -/
def Oracle.time (answer : Oracle) : ℕ := answer [] .now

/-- Everything a program submits is a call of the service that it understands as a write of the
hash. -/
def Speaks {α : Type} (answer : Oracle) (p : Io α) (service : ExonumService) (hash : JsString) :
    Prop :=
  ∀ tx ∈ submitted answer p, ∃ call, tx = .exonum call ∧ call.service = service ∧
    service.Understands call.args hash

lemma speaks_iff {α : Type} {answer : Oracle} {p : Io α} {service : ExonumService}
    {args author : Bytes} {hash : JsString}
    (h : submitted answer p = [.exonum ⟨service, args, author⟩]) :
    Speaks answer p service hash ↔ service.Understands args hash := by
  rw [Speaks, h, List.forall_mem_singleton]
  constructor
  · rintro ⟨call, heq, -, hcall⟩
    cases heq
    exact hcall
  · exact fun hargs => ⟨_, rfl, rfl, hargs⟩

section Exec

variable (answer : Oracle) (done : List Req)

lemma now_exec : Task.exec answer now done = (done ++ [.now], .ok (answer done .now)) := rfl

lemma submitTxBytes_exec (cfg : ServerConfig) (mode : AnchorMode) (args : Bytes) :
    Task.exec answer (ExonumAnchor.submitTxBytes cfg mode args) done =
      (done ++ [.submit (.exonum ⟨mode.service, args, cfg.exonumAuthor⟩)],
        answer done (.submit (.exonum ⟨mode.service, args, cfg.exonumAuthor⟩))) := rfl

lemma getTransaction_exec (txHash : TxHash) (n : ℕ) :
    Task.exec answer (Task.request (.getTransaction txHash n) id : Io ExplorerType) done =
      (done ++ [.getTransaction txHash n], answer done (.getTransaction txHash n)) := rfl

end Exec

section Submitted

variable {answer : Oracle} {cfg : ServerConfig} {mode : AnchorMode} {entry : LogEntry}
  {entries : List LogEntry} {opts : Option WriteOpts}

lemma ExonumAnchor.exec_checkTx (answer : Oracle) (txHash : TxHash) (attempt : ℕ) (done : List Req) :
    ∃ r, Task.exec answer (checkTx txHash attempt) done =
      (done ++ [.getTransaction txHash attempt], .ok r) := by
  rw [checkTx, Task.exec_tryCatch, Task.exec_bind, getTransaction_exec]
  cases (answer done (.getTransaction txHash attempt) : Except JsError ExplorerType) with
  | error err => exact ⟨_, rfl⟩
  | ok type => cases type <;> exact ⟨_, rfl⟩

/-- Waiting submits nothing and throws nothing. -/
lemma ExonumAnchor.exec_waitFrom (answer : Oracle) (txHash : TxHash) (left attempt : ℕ)
    (done : List Req) :
    ∃ polls confirmed, Task.exec answer (waitFrom txHash left attempt) done =
      (done ++ polls, .ok confirmed) ∧ polls.filterMap Req.tx? = [] := by
  induction left generalizing attempt done with
  | zero => exact ⟨[], false, by rw [waitFrom, Task.exec_pure, List.append_nil], rfl⟩
  | succ left ih =>
    obtain ⟨r, hr⟩ := exec_checkTx answer txHash attempt done
    rw [waitFrom, Task.exec_bind, hr]
    dsimp only
    by_cases hconfirmed : r.confirmed = true
    · rw [if_pos hconfirmed]
      exact ⟨[.getTransaction txHash attempt], true, rfl, rfl⟩
    · rw [if_neg hconfirmed]
      by_cases hpending : r.pending = true
      · rw [if_pos hpending]
        obtain ⟨polls, confirmed, hexec, hpolls⟩ :=
          ih (attempt + 1) (done ++ [.getTransaction txHash attempt])
        refine ⟨.getTransaction txHash attempt :: polls, confirmed, ?_, hpolls⟩
        rw [hexec, List.append_assoc]
        rfl
      · rw [if_neg hpending]
        exact ⟨[.getTransaction txHash attempt], false, rfl, rfl⟩

/-- The anchor submits one transaction for a log, with the seed of the time. -/
lemma ExonumAnchor.submitted_writeLog :
    submitted answer (writeLog cfg mode entry opts) = [.exonum ⟨mode.service,
      logArgs mode (entry.withHash cfg.sha) (seedAt answer.time), cfg.exonumAuthor⟩] := by
  unfold Oracle.time
  simp only [submitted, writeLog, Task.exec_tryCatch, Task.exec_bind, now_exec,
    submitTxBytes_exec, List.nil_append]
  cases (answer [.now] (.submit (.exonum ⟨mode.service, logArgs mode (entry.withHash cfg.sha)
      (seedAt (answer [] .now)), cfg.exonumAuthor⟩)) : Except JsError TxHash) with
  | error err => rfl
  | ok txHash =>
    dsimp only
    by_cases hopts : submitOnly opts = true
    · rw [if_pos hopts]
      rfl
    · rw [if_neg hopts, Task.exec_bind, waitForConfirmation]
      obtain ⟨polls, confirmed, hexec, hpolls⟩ := exec_waitFrom answer txHash 30 0
        ([.now] ++ [.submit (.exonum ⟨mode.service, logArgs mode (entry.withHash cfg.sha)
          (seedAt (answer [] .now)), cfg.exonumAuthor⟩)])
      rw [hexec]
      dsimp only
      rw [Task.exec_pure]
      dsimp only
      rw [List.filterMap_append, hpolls]
      rfl

/-- The anchor submits one transaction for a batch that is not empty. -/
lemma ExonumAnchor.submitted_writeBatch (hne : entries ≠ []) :
    submitted answer (writeBatch cfg mode entries opts) = [.exonum ⟨mode.service,
      batchArgs cfg.sha mode (entries.map (LogEntry.withHash cfg.sha)) (seedAt answer.time),
      cfg.exonumAuthor⟩] := by
  unfold Oracle.time
  simp only [submitted, writeBatch, if_neg hne, Task.exec_tryCatch, Task.exec_bind, now_exec,
    submitTxBytes_exec, List.nil_append]
  cases (answer [.now] (.submit (.exonum ⟨mode.service, batchArgs cfg.sha mode
      (entries.map (LogEntry.withHash cfg.sha)) (seedAt (answer [] .now)), cfg.exonumAuthor⟩)) :
      Except JsError TxHash) with
  | error err => rfl
  | ok txHash =>
    dsimp only
    by_cases hopts : submitOnly opts = true
    · rw [if_pos hopts]
      rfl
    · rw [if_neg hopts, Task.exec_bind, waitForConfirmation]
      obtain ⟨polls, confirmed, hexec, hpolls⟩ := exec_waitFrom answer txHash 30 0
        ([.now] ++ [.submit (.exonum ⟨mode.service, batchArgs cfg.sha mode
          (entries.map (LogEntry.withHash cfg.sha)) (seedAt (answer [] .now)),
          cfg.exonumAuthor⟩)])
      rw [hexec]
      dsimp only
      rw [Task.exec_pure]
      dsimp only
      rw [List.filterMap_append, hpolls]
      rfl

end Submitted

/-! ### What the Exonum anchor says -/

section Understands

variable {sha : Sha256} {mode : AnchorMode} {entry : LogEntry} {entries : List LogEntry}
  {seed : ℕ}

/-- Single logs are understood by the service of the anchor, except by the batch service. -/
theorem ExonumAnchor.logArgs_understood_iff (hseed : seed < 2 ^ 31)
    (h : SafeLength (logArgs mode entry seed)) :
    mode.service.Understands (logArgs mode entry seed) entry.dataHash ↔
      mode ≠ .batch ∨ entry.level = [] ∧ seed = 0 := by
  cases mode with
  | full =>
    constructor
    · exact fun _ => .inl (by decide)
    · exact fun _ => understands_encodeWriteLog (WriteLogData.encodable hseed h)
  | hashOnly =>
    constructor
    · exact fun _ => .inl (by decide)
    · exact fun _ => understands_encodeWriteHash (WriteHashData.encodable hseed h)
  | batch =>
    simp only [ne_eq, not_true_eq_false, false_or]
    exact batch_understands_encodeWriteHash_iff (WriteHashData.encodable hseed h)

lemma levelCount_le (entries : List LogEntry) (name : String) :
    levelCount entries name ≤ entries.length := List.length_filter_le ..

/-- Batches are understood by the service of the anchor. -/
theorem ExonumAnchor.batchArgs_understood (hseed : seed < 2 ^ 31)
    (hlen : entries.length < 2 ^ 32) (h : SafeLength (batchArgs sha mode entries seed)) :
    mode.service.Understands (batchArgs sha mode entries seed) (sha.computeBatchHash entries) := by
  cases mode with
  | full => exact understands_encodeWriteLog (WriteLogData.encodable hseed h)
  | hashOnly => exact understands_encodeWriteHash (WriteHashData.encodable hseed h)
  | batch =>
    have hcounts : ∀ name, levelCount entries name < 2 ^ 32 :=
      fun name => (levelCount_le entries name).trans_lt hlen
    have hall : ∀ n ∈ [entries.length, levelCount entries "DEBUG", levelCount entries "INFO",
        levelCount entries "WARN", levelCount entries "ERROR", levelCount entries "CRITICAL"],
        n < 2 ^ 32 := by
      simp only [List.forall_mem_cons]
      exact ⟨hlen, hcounts _, hcounts _, hcounts _, hcounts _, hcounts _, by simp⟩
    exact understands_encodeWriteBatch (WriteBatchData.encodable hseed hall h) hall

end Understands

/-! ### Calls of a contract -/

/-- The types of the parameters of `write`. -/
inductive AbiType
  | bytes32
  | uint (bits : ℕ)
  | string

/-- An argument, before it is encoded. -/
inductive AbiArg
  | text (s : JsString)
  | number (n : ℕ)

/-- A `bytes32` is given by 64 hexadecimal digits after `0x`. -/
def AbiType.Admits : AbiType → AbiArg → Prop
  | .bytes32, .text s => ∃ digits, s = 0x30 :: 0x78 :: digits ∧ digits.length = 64 ∧
      ∀ c ∈ digits, (hexValue? c).isSome
  | .uint bits, .number n => n < 2 ^ bits
  | .string, .text _ => True
  | _, _ => False

/-- The signature of `write` in the ABI of the contract that the constructor selects. -/
def AnchorMode.signature : AnchorMode → List AbiType
  | .full => [.bytes32, .uint 8, .bytes32, .string, .string, .string]
  | .hashOnly => [.bytes32, .uint 8, .string]
  | .batch => [.bytes32, .string, .string, .uint 32, .uint 32, .uint 32, .uint 32, .uint 32,
      .uint 32, .uint 8]

namespace EthereumAnchor

/-- `hash.replace(/^0x/, '').padStart(64, '0')`, of which 64 digits are kept. -/
def paddedHex (hash : JsString) : JsString :=
  (List.replicate (64 - (withoutHexMark hash).length) 0x30 ++ withoutHexMark hash).take 64

/-- What `toBytes32` returns, before anything is encoded. -/
def hashText (hash : JsString) : JsString := 0x30 :: 0x78 :: paddedHex hash

/-- What `sourceBytes32` returns. -/
def sourceText (bytes : Bytes) : JsString := 0x30 :: 0x78 :: toHex bytes

/-- The arguments `writeLog` calls `write` with. A source that does not fit throws before. -/
def logCallArgs (mode : AnchorMode) (entry : LogEntry) : Except JsError (List AbiArg) :=
  match mode with
  | .full => do
    let source ← sourceBytes32 entry.source
    return [.text (hashText entry.dataHash), .number (levelUint8 entry.level),
      .text (sourceText source), .text (entry.message.take 256), .text entry.message,
      .text (metadataOrEmpty (some entry.metadata)).val.text]
  | .hashOnly | .batch =>
    return [.text (hashText entry.dataHash), .number (levelUint8 entry.level),
      .text (entry.message.take 256)]

/-- The arguments `writeBatch` calls `write` with. -/
def batchCallArgs (sha : Sha256) (mode : AnchorMode) (entries : List LogEntry) :
    Except JsError (List AbiArg) :=
  match mode with
  | .batch =>
    return [.text (hashText (sha.computeBatchHash entries)), .text (startId entries),
      .text (endId entries), .number entries.length, .number (levelCount entries "DEBUG"),
      .number (levelCount entries "INFO"), .number (levelCount entries "WARN"),
      .number (levelCount entries "ERROR"), .number (levelCount entries "CRITICAL"),
      .number (levelUint8 (maxSeverity entries))]
  | .full => do
    let source ← sourceBytes32 ((entries.head?.map LogEntry.source).getD [])
    return [.text (hashText (sha.computeBatchHash entries)),
      .number (levelUint8 (maxSeverity entries)), .text (sourceText source),
      .text (ofString ("batch:" ++ toString entries.length)), .text (batchPreview entries),
      .text (ofString "\x7b\x7d")]
  | .hashOnly =>
    return [.text (hashText (sha.computeBatchHash entries)),
      .number (levelUint8 (maxSeverity entries)),
      .text (ofString ("batch:" ++ toString entries.length))]

/-- The call is one of the contract, if there is a call. -/
def Matches (mode : AnchorMode) (call : Except JsError (List AbiArg)) : Prop :=
  ∀ args, call = .ok args → List.Forall₂ AbiType.Admits mode.signature args

/-! ### The calls of the contract `LogStore` -/

/-- The encoder on a `bytes32`. -/
def encodeBytes32 : JsString → Except JsError Bytes
  | 0x30 :: 0x78 :: digits => match hexBytes? digits with
    | some bs => .ok bs
    | none => .error "TypeError: invalid BytesLike value"
  | _ => .error "TypeError: invalid BytesLike value"

/-- The encoder on a call of `write` of `LogStore`. -/
def encodeCall : List AbiArg → Except JsError StoreWrite
  | [.text hash, .number level, .text source, .text preview, .text message, .text metadata] => do
    let source ← encodeBytes32 source
    return {
      contentHash := ← encodeBytes32 hash
      level := level
      source := source
      messagePreview := ← strictUtf8 preview
      message := ← strictUtf8 message
      metadataJson := ← strictUtf8 metadata }
  | _ => .error "TypeError: no matching fragment"

lemma hexBytes_toHex (bs : Bytes) : hexBytes? (toHex bs) = some bs := by
  induction bs with
  | nil => rfl
  | cons b bs ih =>
    have hb := b.toNat_lt
    have hval : b.toNat / 16 * 16 + b.toNat % 16 = b.toNat := by omega
    rw [toHex] at ih
    rw [toHex, List.flatMap_cons, hexByte, List.cons_append, List.cons_append, List.nil_append,
      hexBytes?, hexValue?_hexUnit (by omega), hexValue?_hexUnit (by omega), ih]
    simp only [hval, UInt8.ofNat_toNat]

lemma encodeBytes32_sourceText (bs : Bytes) : encodeBytes32 (sourceText bs) = .ok bs := by
  rw [sourceText, encodeBytes32, hexBytes_toHex]

lemma encodeBytes32_hashText (hash : JsString) : encodeBytes32 (hashText hash) = toBytes32 hash := rfl

lemma encodeCall_eq (hash preview message metadata : JsString) (level : ℕ) (source : Bytes) :
    encodeCall [.text (hashText hash), .number level, .text (sourceText source), .text preview,
      .text message, .text metadata] = (do
        return {
          contentHash := ← toBytes32 hash
          level := level
          source := source
          messagePreview := ← strictUtf8 preview
          message := ← strictUtf8 message
          metadataJson := ← strictUtf8 metadata }) := by
  rw [encodeCall, encodeBytes32_sourceText, encodeBytes32_hashText]
  rfl

/-- What the anchor of the server sends for a log is the call of mode `full`, encoded. -/
theorem logCall_eq (entry : LogEntry) :
    logCall entry = logCallArgs .full entry >>= encodeCall := by
  rw [logCall, logCallArgs]
  cases sourceBytes32 entry.source with
  | error err => rfl
  | ok source => exact (encodeCall_eq ..).symm

theorem batchCall_eq (sha : Sha256) (entries : List LogEntry) :
    batchCall sha entries = batchCallArgs sha .full entries >>= encodeCall := by
  rw [batchCall, batchCallArgs]
  cases sourceBytes32 ((entries.head?.map LogEntry.source).getD []) with
  | error err => rfl
  | ok source => exact (encodeCall_eq ..).symm

/-! ### Matching the signature -/

/-- The digits of a hash that are kept are hexadecimal. -/
def HexDigits (hash : JsString) : Prop := ∀ c ∈ (withoutHexMark hash).take 64, (hexValue? c).isSome

instance (hash : JsString) : Decidable (HexDigits hash) :=
  inferInstanceAs (Decidable (∀ c ∈ _, _))

lemma length_paddedHex (hash : JsString) : (paddedHex hash).length = 64 := by
  rw [paddedHex, List.length_take, List.length_append, List.length_replicate]
  omega

lemma paddedHex_digits (hash : JsString) :
    (∀ c ∈ paddedHex hash, (hexValue? c).isSome) ↔ HexDigits hash := by
  have hzero : (hexValue? 0x30).isSome := by decide
  rw [paddedHex, HexDigits, List.take_append, List.length_replicate]
  by_cases hlen : (withoutHexMark hash).length ≤ 64
  · have hleft : 64 - (64 - (withoutHexMark hash).length) = (withoutHexMark hash).length := by omega
    rw [hleft, List.take_length, List.take_of_length_le hlen]
    constructor
    · exact fun h c hc => h c (List.mem_append_right _ hc)
    · intro h c hc
      rcases List.mem_append.mp hc with hc | hc
      · rw [List.eq_of_mem_replicate (List.mem_of_mem_take hc)]
        exact hzero
      · exact h c hc
  · have hnone : 64 - (withoutHexMark hash).length = 0 := by omega
    simp only [hnone, List.replicate_zero, List.take_nil, List.nil_append, Nat.sub_zero]

lemma admits_hashText (hash : JsString) :
    AbiType.bytes32.Admits (.text (hashText hash)) ↔ HexDigits hash := by
  rw [← paddedHex_digits]
  constructor
  · rintro ⟨digits, heq, -, h⟩
    have hdigits : paddedHex hash = digits := (List.cons.inj (List.cons.inj heq).2).2
    rw [hdigits]
    exact h
  · exact fun h => ⟨_, rfl, length_paddedHex hash, h⟩

lemma isSome_of_mem_toHex {bs : Bytes} {c : UInt16} (hc : c ∈ toHex bs) : (hexValue? c).isSome := by
  obtain ⟨b, -, hc⟩ := List.mem_flatMap.mp hc
  have hb := b.toNat_lt
  rcases List.mem_pair.mp hc with rfl | rfl
  · rw [hexValue?_hexUnit (by omega)]
    rfl
  · rw [hexValue?_hexUnit (by omega)]
    rfl

lemma mem_of_mem_withoutHexMark {s : JsString} {c : UInt16} (hc : c ∈ withoutHexMark s) : c ∈ s := by
  unfold withoutHexMark at hc
  split at hc
  · exact List.mem_cons_of_mem _ (List.mem_cons_of_mem _ hc)
  · exact hc

lemma hexDigits_toHex (bs : Bytes) : HexDigits (toHex bs) := fun _ hc =>
  isSome_of_mem_toHex (mem_of_mem_withoutHexMark (List.mem_of_mem_take hc))

lemma hexDigits_computeBatchHash (sha : Sha256) (entries : List LogEntry) :
    HexDigits (sha.computeBatchHash entries) := by
  rw [Sha256.computeBatchHash, Sha256.rootOf]
  split
  · exact hexDigits_toHex _
  · exact hexDigits_toHex _

lemma length_sourceBytes32 {source : JsString} {bytes : Bytes}
    (h : sourceBytes32 source = .ok bytes) : bytes.length = 32 := by
  rw [sourceBytes32] at h
  cases hs : strictUtf8 (source.take 31) with
  | error err =>
    rw [hs] at h
    cases h
  | ok bs =>
    rw [hs] at h
    by_cases hlen : 31 < bs.length
    · simp [hlen, bind, Except.bind, throw, throwThe, MonadExceptOf.throw] at h
    · simp only [bind, Except.bind, hlen, if_false, pure, Except.pure, Except.ok.injEq] at h
      rw [← h, List.length_append, List.length_replicate]
      omega

lemma admits_sourceText {source : JsString} {bytes : Bytes} (h : sourceBytes32 source = .ok bytes) :
    AbiType.bytes32.Admits (.text (sourceText bytes)) := by
  refine ⟨toHex bytes, rfl, ?_, fun c hc => isSome_of_mem_toHex hc⟩
  rw [toHex_length, length_sourceBytes32 h]

lemma levelUint8_lt (level : JsString) : levelUint8 level < 2 ^ 8 := by
  rw [levelUint8, levelToInt]
  split
  · next i hi =>
    have hlt : i < levelNames.length := List.findIdx?_eq_some_iff_getElem.mp hi |>.1
    have hlen : levelNames.length = 5 := by decide
    rw [Int.toNat_natCast]
    omega
  · decide

lemma logCallArgs_full {entry : LogEntry} {source : Bytes}
    (h : sourceBytes32 entry.source = .ok source) : logCallArgs .full entry =
      .ok [.text (hashText entry.dataHash), .number (levelUint8 entry.level),
        .text (sourceText source), .text (entry.message.take 256), .text entry.message,
        .text (metadataOrEmpty (some entry.metadata)).val.text] := by
  rw [logCallArgs, h]
  rfl

/-- A single log is not a call of the contract for batches, and is one of the others if its hash is
in hexadecimal, or if there is no call because of its source. -/
theorem logCall_matches_iff (mode : AnchorMode) (entry : LogEntry) :
    Matches mode (logCallArgs mode entry) ↔ mode ≠ .batch ∧ (HexDigits entry.dataHash ∨
      mode = .full ∧ ∃ err, sourceBytes32 entry.source = .error err) := by
  cases mode with
  | batch =>
    constructor
    · intro h
      have hlen := (h _ rfl).length_eq
      cases hlen
    · exact fun h => absurd rfl h.1
  | hashOnly =>
    simp only [ne_eq, reduceCtorEq, not_false_eq_true, true_and, false_and, or_false]
    constructor
    · intro h
      cases h _ rfl with
      | cons hhash _ => exact (admits_hashText _).mp hhash
    · rintro h args hargs
      cases hargs
      exact .cons ((admits_hashText _).mpr h)
        (.cons (levelUint8_lt _) (.cons trivial .nil))
  | full =>
    simp only [ne_eq, reduceCtorEq, not_false_eq_true, true_and]
    cases hsource : sourceBytes32 entry.source with
    | error err =>
      constructor
      · exact fun _ => .inr ⟨err, rfl⟩
      · intro _ args hargs
        rw [logCallArgs, hsource] at hargs
        cases hargs
    | ok source =>
      constructor
      · intro h
        cases h _ (logCallArgs_full hsource) with
        | cons hhash _ => exact .inl ((admits_hashText _).mp hhash)
      · rintro (h | ⟨err, herr⟩) args hargs
        · rw [logCallArgs_full hsource] at hargs
          cases hargs
          exact .cons ((admits_hashText _).mpr h) (.cons (levelUint8_lt _)
            (.cons (admits_sourceText hsource) (.cons trivial (.cons trivial (.cons trivial .nil)))))
        · cases herr

/-- Batches are calls of the contract of the anchor. -/
theorem batchCall_matches (sha : Sha256) (mode : AnchorMode) {entries : List LogEntry}
    (hlen : entries.length < 2 ^ 32) : Matches mode (batchCallArgs sha mode entries) := by
  have hhash := (admits_hashText _).mpr (hexDigits_computeBatchHash sha entries)
  have hcount (name : String) : levelCount entries name < 2 ^ 32 :=
    (levelCount_le entries name).trans_lt hlen
  intro args hargs
  cases mode with
  | batch =>
    cases hargs
    exact .cons hhash (.cons trivial (.cons trivial (.cons hlen (.cons (hcount _) (.cons (hcount _)
      (.cons (hcount _) (.cons (hcount _) (.cons (hcount _) (.cons (levelUint8_lt _) .nil)))))))))
  | hashOnly =>
    cases hargs
    exact .cons hhash (.cons (levelUint8_lt _) (.cons trivial .nil))
  | full =>
    rw [batchCallArgs] at hargs
    cases hsource : sourceBytes32 ((entries.head?.map LogEntry.source).getD []) with
    | error err =>
      rw [hsource] at hargs
      cases hargs
    | ok source =>
      rw [hsource] at hargs
      cases hargs
      exact .cons hhash (.cons (levelUint8_lt _) (.cons (admits_sourceText hsource)
        (.cons trivial (.cons trivial (.cons trivial .nil)))))

end EthereumAnchor

/-! ### Speaking the language -/

/-- The anchors of a mode write a log and a batch in the language of their service: what is submitted
to Exonum is understood by the service of the configuration as a write of the hash, and what the
contract is called with matches its signature. -/
structure AnchorsSpeak (cfg : ServerConfig) (answer : Oracle) (mode : AnchorMode) (entry : LogEntry)
    (entries : List LogEntry) (opts : Option WriteOpts) : Prop where
  exonumLog : Speaks answer (ExonumAnchor.writeLog cfg mode entry opts) mode.service
    (cfg.sha.leafHash entry)
  exonumBatch : Speaks answer (ExonumAnchor.writeBatch cfg mode entries opts) mode.service
    (cfg.sha.computeBatchHash entries)
  ethereumLog : EthereumAnchor.Matches mode
    (EthereumAnchor.logCallArgs mode (entry.withHash cfg.sha))
  ethereumBatch : EthereumAnchor.Matches mode (EthereumAnchor.batchCallArgs cfg.sha mode
    (entries.map (LogEntry.withHash cfg.sha)))

/-- The arguments of the transactions are buffers. -/
structure BuffersExist (cfg : ServerConfig) (answer : Oracle) (mode : AnchorMode) (entry : LogEntry)
    (entries : List LogEntry) : Prop where
  log : SafeLength (ExonumAnchor.logArgs mode (entry.withHash cfg.sha)
    (ExonumAnchor.seedAt answer.time))
  batch : SafeLength (ExonumAnchor.batchArgs cfg.sha mode
    (entries.map (LogEntry.withHash cfg.sha)) (ExonumAnchor.seedAt answer.time))

section Speaking

variable {cfg : ServerConfig} {answer : Oracle} {mode : AnchorMode} {entry : LogEntry}
  {entries : List LogEntry} {opts : Option WriteOpts}

/-- The Exonum anchor is understood when it writes a log, except in mode `batch`, where only a log
without level at a moment whose seed is zero is. -/
theorem exonumLog_iff (h : BuffersExist cfg answer mode entry entries) :
    Speaks answer (ExonumAnchor.writeLog cfg mode entry opts) mode.service
      (cfg.sha.leafHash entry) ↔
      mode ≠ .batch ∨ entry.level = [] ∧ ExonumAnchor.seedAt answer.time = 0 := by
  rw [speaks_iff ExonumAnchor.submitted_writeLog]
  exact ExonumAnchor.logArgs_understood_iff (seedAt_lt _) h.log

theorem exonumBatch_speaks (h : BuffersExist cfg answer mode entry entries) (hne : entries ≠ [])
    (hlen : entries.length < 2 ^ 32) :
    Speaks answer (ExonumAnchor.writeBatch cfg mode entries opts) mode.service
      (cfg.sha.computeBatchHash entries) := by
  rw [speaks_iff (ExonumAnchor.submitted_writeBatch hne), ← computeBatchHash_withHash]
  exact ExonumAnchor.batchArgs_understood (seedAt_lt _) (by simpa using hlen) h.batch

end Speaking

/-- The anchors speak the language of their service exactly where no log is written by an anchor of
mode `batch` and the hash of the log is in hexadecimal, which matters only if a contract is called. -/
theorem anchors_speak_iff (cfg : ServerConfig) (answer : Oracle) (mode : AnchorMode)
    (entry : LogEntry) (entries : List LogEntry) (opts : Option WriteOpts) (hne : entries ≠ [])
    (hlen : entries.length < 2 ^ 32) (h : BuffersExist cfg answer mode entry entries) :
    AnchorsSpeak cfg answer mode entry entries opts ↔
      mode ≠ .batch ∧ (EthereumAnchor.HexDigits (cfg.sha.leafHash entry) ∨
        mode = .full ∧ ∃ err, EthereumAnchor.sourceBytes32 entry.source = .error err) := by
  have hlog := EthereumAnchor.logCall_matches_iff mode (entry.withHash cfg.sha)
  constructor
  · intro hspeak
    exact hlog.mp hspeak.ethereumLog
  · intro hcond
    constructor
    · exact (exonumLog_iff h).mpr (.inl hcond.1)
    · exact exonumBatch_speaks h hne hlen
    · exact hlog.mpr hcond
    · exact EthereumAnchor.batchCall_matches _ _ (by simpa using hlen)

/-- A log with a level. -/
def startedEntry : LogEntry :=
  ⟨ofString "a", .epoch, ofString "INFO", ofString "api", ofString "started", emptyObject, []⟩

/-- A log that an anchor of mode `batch` writes reaches the batch service as something else. -/
theorem batch_anchor_misspoken :
    ¬AnchorsSpeak connectedConfig (fun _ => decidedAnswer .included) .batch startedEntry
      [startedEntry] none := by
  intro h
  have hslots : EncodableSlots (WriteHashData.mk
      (startedEntry.withHash connectedConfig.sha).dataHash (ofString "INFO")
      ((ofString "started").take 256) 0).slots := by decide +kernel
  have hlog := (speaks_iff ExonumAnchor.submitted_writeLog).mp h.exonumLog
  have hlevel := ((batch_understands_encodeWriteHash_iff hslots).mp hlog).1
  exact absurd hlevel (by decide)

/-- The messages about the log and about the batch of this log. -/
lemma buffersExist_startedEntry : BuffersExist connectedConfig (fun _ => decidedAnswer .included)
    .hashOnly startedEntry [startedEntry] := by
  constructor
  · rw [ExonumAnchor.logArgs, encodeWriteHash, WriteHashData.fields_eq]
    exact safeLength_of_encodable (by decide +kernel) (by decide +kernel)
  · rw [ExonumAnchor.batchArgs, encodeWriteHash, WriteHashData.fields_eq]
    exact safeLength_of_encodable (by decide +kernel) (by decide +kernel)

lemma hexDigits_startedEntry :
    EthereumAnchor.HexDigits (connectedConfig.sha.leafHash startedEntry) := by
  have hfresh : startedEntry.dataHash = [] := rfl
  rw [Sha256.leafHash, if_pos hfresh]
  exact EthereumAnchor.hexDigits_toHex _

/-- The same log is written in the language of a service for hashes. -/
theorem hash_anchor_speaks :
    AnchorsSpeak connectedConfig (fun _ => decidedAnswer .included) .hashOnly startedEntry
      [startedEntry] none :=
  (anchors_speak_iff connectedConfig _ .hashOnly startedEntry [startedEntry] none (by simp)
    (by decide) buffersExist_startedEntry).mpr ⟨by decide, .inl hexDigits_startedEntry⟩

end HybridLog
