import HybridLog.Anchor.Encoding

/-!
# The envelope of a transaction

The arguments of a service are put into a call, the call into a message of the node, and the message
is signed. What is written on the way, from the numbers up, is read back as it was.
-/

namespace HybridLog

open Js Protobuf

/-! ### Writing an envelope -/

def encodeAnyTx (instanceId methodId : ℕ) (args : Bytes) : Bytes :=
  let callInfoParts := (1, .varint instanceId) :: if methodId ≠ 0 then [(2, .varint methodId)] else []
  concatFields [(1, .bytes (concatFields callInfoParts)), (2, .bytes args)]

def encodeCoreMessage (anyTxBytes : Bytes) : Bytes := pbField (1, .bytes anyTxBytes)

def encodeSignedMessage (payload : Bytes) (pubkeyHex : JsString) (sig : Bytes) : Bytes :=
  let author := pbField (1, .bytes (bufferFromHex pubkeyHex))
  let signature := pbField (1, .bytes sig)
  concatFields [(1, .bytes payload), (2, .bytes author), (3, .bytes signature)]

/-! ### Reading it -/

structure CallInfo where
  instanceId : ℕ
  methodId : ℕ

structure AnyTx where
  callInfo : Option CallInfo
  arguments : Bytes

/-- A message of the node, of the kind `any_tx`. -/
structure CoreMessage where
  anyTx : Option AnyTx

/-- A key and a signature have one field, `data`. -/
structure SignedMessage where
  payload : Bytes
  author : Option Bytes
  signature : Option Bytes

def CallInfo.decode (bs : Bytes) : Option CallInfo := do
  let fs ← fields bs
  return ⟨← getUint 32 1 fs, ← getUint 32 2 fs⟩

def AnyTx.decode (bs : Bytes) : Option AnyTx := do
  let fs ← fields bs
  return ⟨← getMessage CallInfo.decode 1 fs, ← getBytes 2 fs⟩

def CoreMessage.decode (bs : Bytes) : Option CoreMessage := do
  let fs ← fields bs
  return ⟨← getMessage AnyTx.decode 1 fs⟩

/-- The field `data` of a key or of a signature. -/
def decodeData (bs : Bytes) : Option Bytes := (fields bs).bind (getBytes 1)

def SignedMessage.decode (bs : Bytes) : Option SignedMessage := do
  let fs ← fields bs
  return ⟨← getBytes 1 fs, ← getMessage decodeData 2 fs, ← getMessage decodeData 3 fs⟩

/-! ### Sizes -/

lemma length_le_pbField (num : ℕ) (buf : Bytes) : buf.length ≤ (pbField (num, .bytes buf)).length := by
  rw [pbField, List.length_append]
  exact Nat.le_add_left _ _

lemma length_pbField_le {fs : List Field} {f : Field} (h : f ∈ fs) :
    (pbField f).length ≤ (concatFields fs).length := by
  obtain ⟨pre, post, rfl⟩ := List.append_of_mem h
  rw [concatFields, List.flatMap_append, List.flatMap_cons, List.length_append, List.length_append]
  omega

/-- What is inside a buffer is no longer than the buffer. -/
lemma SafeLength.part {fs : List Field} {num : ℕ} {buf : Bytes} (h : SafeLength (concatFields fs))
    (hmem : (num, .bytes buf) ∈ fs) : SafeLength buf :=
  ((length_le_pbField num buf).trans (length_pbField_le hmem)).trans_lt h

lemma encodable_bytes {num : ℕ} {buf : Bytes} (hpos : 0 < num) (hnum : num < 2 ^ 28)
    (h : SafeLength buf) : Encodable (num, .bytes buf) :=
  ⟨⟨hpos, hnum.trans (by norm_num), h.trans (by norm_num)⟩, hnum⟩

lemma encodable_varint {num n : ℕ} (hpos : 0 < num) (hnum : num < 2 ^ 28) (h : n < 2 ^ 63) :
    Encodable (num, .varint n) :=
  ⟨⟨hpos, hnum.trans (by norm_num), h⟩, hnum⟩

/-- The texts of a message that fits into a buffer are written in order. -/
lemma encodableSlots_of_fits {slots : List (ℕ × Slot)}
    (hnum : ∀ x ∈ slots, 0 < x.1 ∧ x.1 < 2 ^ 28)
    (hnumber : ∀ num n, (num, Slot.number n) ∈ slots → n < 2 ^ 53)
    (h : SafeLength (concatFields (slotFields slots))) : EncodableSlots slots := by
  rintro ⟨num, v⟩ hx
  obtain ⟨hpos, hlt⟩ := hnum _ hx
  refine ⟨hpos, hlt, ?_⟩
  cases v with
  | required s => exact h.part (List.mem_flatMap.mpr ⟨_, hx, List.mem_singleton.mpr rfl⟩)
  | text s =>
    by_cases hs : s = []
    · rw [hs]
      norm_num [Slot.size, utf8, chars]
    · have hmem : (num, .bytes (utf8 s)) ∈ slotFields slots := by
        refine List.mem_flatMap.mpr ⟨_, hx, ?_⟩
        rw [Slot.fields, optString, if_neg hs]
        exact List.mem_singleton.mpr rfl
      exact h.part hmem
  | number n => exact hnumber num n hx

/-- The length of a message, as it is computed from its fields. -/
lemma safeLength_of_encodable {slots : List (ℕ × Slot)} (h : EncodableSlots slots)
    (hlen : ((slotFields slots).flatMap encodeField).length < 2 ^ 53) :
    SafeLength (concatFields (slotFields slots)) := by
  rw [SafeLength, flatMap_congr_of_encodable h.encodable]
  exact hlen

/-! ### Round trips of the envelope -/

section Envelope

variable {instanceId methodId : ℕ} {args payload sig bs : Bytes} {pubkeyHex : JsString}

lemma decode_callInfo (hinstance : instanceId < 2 ^ 32) (hmethod : methodId < 2 ^ 32) :
    CallInfo.decode (concatFields
      ((1, .varint instanceId) :: if methodId ≠ 0 then [(2, .varint methodId)] else [])) =
      some ⟨instanceId, methodId⟩ := by
  have hfirst : Encodable (1, .varint instanceId) :=
    encodable_varint (by norm_num) (by norm_num) (by omega)
  have hsecond : Encodable (2, .varint methodId) :=
    encodable_varint (by norm_num) (by norm_num) (by omega)
  by_cases h : methodId = 0
  · rw [if_neg (not_not.mpr h), CallInfo.decode, fields_concatFields (by simpa using hfirst)]
    simpa [getUint, lastValue, values, asUint, h] using hinstance
  · rw [if_pos h, CallInfo.decode, fields_concatFields (by simp [hfirst, hsecond])]
    simpa [getUint, lastValue, values, asUint] using And.intro hinstance hmethod

/-- The length of a part of what is written. -/
lemma SafeLength.anyTx (h : SafeLength (encodeAnyTx instanceId methodId args)) :
    ∀ f ∈ ([(1, .bytes (concatFields ((1, .varint instanceId) ::
        if methodId ≠ 0 then [(2, .varint methodId)] else []))), (2, .bytes args)] : List Field),
      Encodable f := by
  intro f hf
  rcases List.mem_pair.mp hf with rfl | rfl
  · exact encodable_bytes (by norm_num) (by norm_num) (h.part (List.mem_pair.mpr (.inl rfl)))
  · exact encodable_bytes (by norm_num) (by norm_num) (h.part (List.mem_pair.mpr (.inr rfl)))

/-- A call is read with its arguments. -/
theorem decode_encodeAnyTx (hinstance : instanceId < 2 ^ 32) (hmethod : methodId < 2 ^ 32)
    (h : SafeLength (encodeAnyTx instanceId methodId args)) :
    AnyTx.decode (encodeAnyTx instanceId methodId args) =
      some ⟨some ⟨instanceId, methodId⟩, args⟩ := by
  rw [AnyTx.decode, encodeAnyTx, fields_concatFields h.anyTx]
  simp only [Option.bind_eq_bind, Option.bind_some, Option.pure_def, getMessage, getBytes,
    lastValue, values, asBytes, if_true, OfNat.ofNat_ne_one, OfNat.one_ne_ofNat, if_false,
    Option.map_some, List.cons_ne_nil, List.flatten_cons, List.flatten_nil, List.append_nil,
    decode_callInfo hinstance hmethod]
  rfl

/-- A field with a buffer is read on its own. -/
lemma fields_pbField {num : ℕ} (h : Encodable (num, .bytes bs)) :
    fields (pbField (num, .bytes bs)) = some [(num, .bytes bs)] := by
  have hconcat : pbField (num, .bytes bs) = concatFields [(num, .bytes bs)] := by
    rw [concatFields, List.flatMap_singleton]
  rw [hconcat]
  exact fields_concatFields fun f hf => List.mem_singleton.mp hf ▸ h

lemma SafeLength.inner {num : ℕ} (h : SafeLength (pbField (num, .bytes bs))) : SafeLength bs :=
  (length_le_pbField num bs).trans_lt h

theorem decode_encodeCoreMessage (hinstance : instanceId < 2 ^ 32) (hmethod : methodId < 2 ^ 32)
    (h : SafeLength (encodeCoreMessage (encodeAnyTx instanceId methodId args))) :
    CoreMessage.decode (encodeCoreMessage (encodeAnyTx instanceId methodId args)) =
      some ⟨some ⟨some ⟨instanceId, methodId⟩, args⟩⟩ := by
  rw [CoreMessage.decode, encodeCoreMessage,
    fields_pbField (encodable_bytes (by norm_num) (by norm_num) h.inner)]
  simp only [Option.bind_eq_bind, Option.bind_some, Option.pure_def, getMessage, values, asBytes,
    if_true, if_false, Option.map_some, List.cons_ne_nil, List.flatten_cons, List.flatten_nil,
    List.append_nil, decode_encodeAnyTx hinstance hmethod h.inner]

lemma decodeData_pbField (h : SafeLength bs) : decodeData (pbField (1, .bytes bs)) = some bs := by
  rw [decodeData, fields_pbField (encodable_bytes (by norm_num) (by norm_num) h)]
  rfl

/-- A signed message is read with its payload, key and signature. -/
theorem decode_encodeSignedMessage (h : SafeLength (encodeSignedMessage payload pubkeyHex sig)) :
    SignedMessage.decode (encodeSignedMessage payload pubkeyHex sig) =
      some ⟨payload, some (bufferFromHex pubkeyHex), some sig⟩ := by
  have hpayload : SafeLength payload := h.part (.head _)
  have hauthor : SafeLength (pbField (1, .bytes (bufferFromHex pubkeyHex))) :=
    h.part (.tail _ (.head _))
  have hsignature : SafeLength (pbField (1, .bytes sig)) := h.part (.tail _ (.tail _ (.head _)))
  rw [SignedMessage.decode, encodeSignedMessage, fields_concatFields (by
    intro f hf
    simp only [List.mem_cons, List.not_mem_nil, or_false] at hf
    rcases hf with rfl | rfl | rfl
    · exact encodable_bytes (by norm_num) (by norm_num) hpayload
    · exact encodable_bytes (by norm_num) (by norm_num) hauthor
    · exact encodable_bytes (by norm_num) (by norm_num) hsignature)]
  simp only [Option.bind_eq_bind, Option.bind_some, Option.pure_def, getMessage, getBytes,
    lastValue, values, asBytes, if_true, OfNat.ofNat_ne_one, OfNat.one_ne_ofNat, if_false,
    Nat.reduceEqDiff, Option.map_some, List.cons_ne_nil, List.flatten_cons, List.flatten_nil,
    List.append_nil, decodeData_pbField hauthor.inner, decodeData_pbField hsignature.inner]
  rfl

end Envelope

/-! ### Round trips of the arguments -/

/-- The JavaScript string of a text. -/
def jsText (s : List Char) : JsString := s.flatMap utf16Encode

def WriteLog.data (arg : WriteLog) : WriteLogData where
  contentHash := jsText arg.contentHash
  level := jsText arg.level
  source := jsText arg.source
  messagePreview := jsText arg.messagePreview
  seed := arg.seed
  message := jsText arg.message
  metadataJson := jsText arg.metadataJson

def WriteHash.data (arg : WriteHash) : WriteHashData where
  contentHash := jsText arg.contentHash
  level := jsText arg.level
  messagePreview := jsText arg.messagePreview
  seed := arg.seed

def WriteBatch.data (arg : WriteBatch) : WriteBatchData where
  contentHash := jsText arg.contentHash
  seed := arg.seed
  startId := jsText arg.startId
  endId := jsText arg.endId
  count := arg.count
  debugCount := arg.debugCount
  infoCount := arg.infoCount
  warnCount := arg.warnCount
  errorCount := arg.errorCount
  criticalCount := arg.criticalCount
  maxSeverity := jsText arg.maxSeverity

def WriteLogData.texts (d : WriteLogData) : List JsString :=
  [d.contentHash, d.level, d.source, d.messagePreview, d.message, d.metadataJson]

def WriteHashData.texts (d : WriteHashData) : List JsString :=
  [d.contentHash, d.level, d.messagePreview]

def WriteBatchData.texts (d : WriteBatchData) : List JsString :=
  [d.contentHash, d.startId, d.endId, d.maxSeverity]

lemma WriteLogData.encodable {d : WriteLogData} (hseed : d.seed < 2 ^ 31)
    (h : SafeLength (encodeWriteLog d)) : EncodableSlots d.slots := by
  apply encodableSlots_of_fits
  · simp [WriteLogData.slots]
  · intro num n hn
    simp only [WriteLogData.slots, List.mem_cons, List.not_mem_nil, Prod.mk.injEq, reduceCtorEq,
      and_false, false_or, or_false, Slot.number.injEq] at hn
    rw [hn.2]
    exact hseed.trans (by norm_num)
  · rw [← d.fields_eq]
    exact h

lemma WriteHashData.encodable {d : WriteHashData} (hseed : d.seed < 2 ^ 31)
    (h : SafeLength (encodeWriteHash d)) : EncodableSlots d.slots := by
  apply encodableSlots_of_fits
  · simp [WriteHashData.slots]
  · intro num n hn
    simp only [WriteHashData.slots, List.mem_cons, List.not_mem_nil, Prod.mk.injEq, reduceCtorEq,
      and_false, false_or, or_false, Slot.number.injEq] at hn
    rw [hn.2]
    exact hseed.trans (by norm_num)
  · rw [← d.fields_eq]
    exact h

lemma WriteBatchData.encodable {d : WriteBatchData} (hseed : d.seed < 2 ^ 31)
    (hcounts : ∀ n ∈ d.counts, n < 2 ^ 32) (h : SafeLength (encodeWriteBatch d)) :
    EncodableSlots d.slots := by
  apply encodableSlots_of_fits
  · simp [WriteBatchData.slots]
  · intro num n hn
    have hmem : n = d.seed ∨ n ∈ d.counts := by
      simp only [WriteBatchData.slots, List.mem_cons, List.not_mem_nil, Prod.mk.injEq,
        reduceCtorEq, and_false, false_or, or_false, Slot.number.injEq] at hn
      simp only [WriteBatchData.counts, List.mem_cons, List.not_mem_nil, or_false]
      tauto
    rcases hmem with rfl | hmem
    · exact hseed.trans (by norm_num)
    · exact (hcounts n hmem).trans (by norm_num)
  · rw [← d.fields_eq]
    exact h

/-- The buffer that is sent for a transaction. -/
def encodeTransaction (instanceId methodId : ℕ) (args : Bytes) (pubkeyHex : JsString)
    (sig : Bytes) : Bytes :=
  encodeSignedMessage (encodeCoreMessage (encodeAnyTx instanceId methodId args)) pubkeyHex sig

/-- What is written is read back as it was: every number, the arguments of every service, fields
that are left out included, and the call, the payload, the key and the signature of an envelope. -/
theorem encodings_round_trip :
    (∀ n < 2 ^ 53, ∀ rest, readVarint (varint n ++ rest) = some (n, rest)) ∧
    (∀ d : WriteLogData, (∀ s ∈ d.texts, wellFormed s = true) → d.seed < 2 ^ 31 →
      SafeLength (encodeWriteLog d) →
      (WriteLog.decode (encodeWriteLog d)).map WriteLog.data = some d) ∧
    (∀ d : WriteHashData, (∀ s ∈ d.texts, wellFormed s = true) → d.seed < 2 ^ 31 →
      SafeLength (encodeWriteHash d) →
      (WriteHash.decode (encodeWriteHash d)).map WriteHash.data = some d) ∧
    (∀ d : WriteBatchData, (∀ s ∈ d.texts, wellFormed s = true) → d.seed < 2 ^ 31 →
      (∀ n ∈ d.counts, n < 2 ^ 32) → SafeLength (encodeWriteBatch d) →
      (WriteBatch.decode (encodeWriteBatch d)).map WriteBatch.data = some d) ∧
    ∀ instanceId methodId args pubkeyHex sig, instanceId < 2 ^ 32 → methodId < 2 ^ 32 →
      SafeLength (encodeTransaction instanceId methodId args pubkeyHex sig) →
      ∃ m, SignedMessage.decode (encodeTransaction instanceId methodId args pubkeyHex sig) =
          some m ∧ m.author = some (bufferFromHex pubkeyHex) ∧ m.signature = some sig ∧
        CoreMessage.decode m.payload = some ⟨some ⟨some ⟨instanceId, methodId⟩, args⟩⟩ := by
  have utf16 {s : JsString} (h : wellFormed s = true) : jsText (chars s) = s := utf16Encode_chars s h
  refine ⟨?_, ?_, ?_, ?_, ?_⟩
  · intro n hn rest
    have hn' : n < 2 ^ 63 := hn.trans (by norm_num)
    rw [varint_eq hn', readVarint_varint hn']
  · intro d htexts hseed h
    simp only [WriteLogData.texts, List.forall_mem_cons] at htexts
    obtain ⟨hhash, hlevel, hsource, hpreview, hmessage, hmetadata, -⟩ := htexts
    rw [decode_encodeWriteLog (d.encodable hseed h), Option.map_some, WriteLog.data]
    simp only [utf16 hhash, utf16 hlevel, utf16 hsource, utf16 hpreview, utf16 hmessage,
      utf16 hmetadata]
  · intro d htexts hseed h
    simp only [WriteHashData.texts, List.forall_mem_cons] at htexts
    obtain ⟨hhash, hlevel, hpreview, -⟩ := htexts
    rw [decode_encodeWriteHash (d.encodable hseed h), Option.map_some, WriteHash.data]
    simp only [utf16 hhash, utf16 hlevel, utf16 hpreview]
  · intro d htexts hseed hcounts h
    simp only [WriteBatchData.texts, List.forall_mem_cons] at htexts
    obtain ⟨hhash, hstart, hend, hseverity, -⟩ := htexts
    rw [decode_encodeWriteBatch (d.encodable hseed hcounts h) hcounts, Option.map_some,
      WriteBatch.data]
    simp only [utf16 hhash, utf16 hstart, utf16 hend, utf16 hseverity]
  · intro instanceId methodId args pubkeyHex sig hinstance hmethod h
    refine ⟨_, decode_encodeSignedMessage h, rfl, rfl, ?_⟩
    exact decode_encodeCoreMessage hinstance hmethod (h.part (.head _))

/-- A batch with one error, most fields of which are left out. -/
def oneError : WriteBatchData :=
  ⟨[0x61, 0x62], 300, [0x78], [0x78], 1, 0, 0, 0, 1, 0, [0xe9]⟩

lemma safeLength_oneError : SafeLength (encodeWriteBatch oneError) := by
  have h : EncodableSlots oneError.slots := by decide +kernel
  rw [encodeWriteBatch, oneError.fields_eq]
  exact safeLength_of_encodable h (by decide +kernel)

theorem oneError_round_trip :
    (WriteBatch.decode (encodeWriteBatch oneError)).map WriteBatch.data = some oneError :=
  encodings_round_trip.2.2.2.1 oneError (by decide) (by decide) (by decide) safeLength_oneError

end HybridLog
