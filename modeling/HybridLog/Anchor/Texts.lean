import HybridLog.Anchor.Envelope
import HybridLog.Chain.Stores
import HybridLog.Storage.Storage

/-!
# Texts on the chains

The source and the preview of a message are cut before they are stored, by the anchors in UTF-16
code units and by the contracts and services in bytes or characters. A cut can fall inside a
character, and a text of few units can have many bytes.
-/

namespace Js

/-! ### The parts of a text -/

lemma chars_append_of_wellFormed (s s' : JsString) (h : wellFormed s = true) :
    chars (s ++ s') = chars s ++ chars s' := by
  induction s using wellFormed.induct with
  | case1 => rfl
  | case2 c =>
    have hc : isHigh c = false := by
      have hsurrogate : isSurrogate c = false := by simpa [wellFormed] using h
      exact (Bool.or_eq_false_iff.mp hsurrogate).1
    rw [List.singleton_append, chars_cons hc]
    rfl
  | case3 c d rest hcd ih =>
    simp only [wellFormed, hcd, if_true] at h
    simp only [List.cons_append, chars, hcd, if_true, ih h]
  | case4 c d rest hcd ih =>
    simp only [wellFormed, hcd, Bool.false_eq_true, if_false, Bool.and_eq_true] at h
    have hrec := ih h.2
    rw [List.cons_append] at hrec
    simp only [List.cons_append, chars, hcd, Bool.false_eq_true, if_false, hrec]

lemma utf8_append (s s' : JsString) (h : wellFormed s = true) :
    utf8 (s ++ s') = utf8 s ++ utf8 s' := by
  rw [utf8, chars_append_of_wellFormed s s' h, List.flatMap_append]
  rfl

lemma length_chars_le (s : JsString) : (chars s).length ≤ s.length := by
  induction s using chars.induct with
  | case1 => exact le_rfl
  | case2 c => exact le_rfl
  | case3 c d rest hcd ih =>
    simp only [chars, hcd, if_true, List.length_cons]
    exact Nat.succ_le_succ (ih.trans (Nat.le_succ _))
  | case4 c d rest hcd ih =>
    simp only [chars, hcd, Bool.false_eq_true, if_false, List.length_cons] at ih ⊢
    exact Nat.succ_le_succ ih

/-- A text of few bytes has few units. -/
lemma take_of_utf8_le {s : JsString} {n : ℕ} (h : (utf8 s).length ≤ n) : s.take n = s :=
  List.take_of_length_le ((length_le_utf8 s).trans h)

end Js

namespace HybridLog

open Js

/-! ### Sources -/

/-- The bytes are those of the beginning of a source, up to the end of a character and padded with
zeros, and of all of it if it fits. -/
structure HoldsSource (source : JsString) (bytes : Bytes) : Prop where
  text : ∃ t rest, source = t ++ rest ∧ wellFormed t = true ∧ (utf8 t).length ≤ 31 ∧
    utf8 t <+: utf8 source ∧ bytes = utf8 t ++ List.replicate (32 - (utf8 t).length) 0 ∧
    ((utf8 source).length ≤ 31 → t = source)
  length : bytes.length = 32

namespace EthereumAnchor

/-- The first 31 units of the source do not end inside a character and have no more than 31
bytes. -/
def SourceFits (source : JsString) : Prop :=
  wellFormed (source.take 31) = true ∧ (utf8 (source.take 31)).length ≤ 31

instance (source : JsString) : Decidable (SourceFits source) :=
  inferInstanceAs (Decidable (_ ∧ _))

lemma sourceBytes32_of_fits {source : JsString} (h : SourceFits source) :
    sourceBytes32 source = .ok (utf8 (source.take 31) ++
      List.replicate (32 - (utf8 (source.take 31)).length) 0) := by
  rw [sourceBytes32, strictUtf8, if_pos h.1]
  simp only [bind, Except.bind, if_neg (not_lt.mpr h.2)]
  rfl

lemma fits_of_sourceBytes32 {source : JsString} {bytes : Bytes}
    (h : sourceBytes32 source = .ok bytes) : SourceFits source := by
  rw [sourceBytes32, strictUtf8] at h
  by_cases hwell : wellFormed (source.take 31) = true
  · rw [if_pos hwell] at h
    refine ⟨hwell, ?_⟩
    by_contra hlong
    simp only [bind, Except.bind, if_pos (not_le.mp hlong)] at h
    cases h
  · rw [if_neg hwell] at h
    cases h

lemma holdsSource {source : JsString} (h : SourceFits source) :
    HoldsSource source (utf8 (source.take 31) ++
      List.replicate (32 - (utf8 (source.take 31)).length) 0) := by
  have hsplit : source = source.take 31 ++ source.drop 31 := (List.take_append_drop 31 source).symm
  constructor
  · refine ⟨source.take 31, source.drop 31, hsplit, h.1, h.2, ?_, rfl, take_of_utf8_le⟩
    refine ⟨utf8 (source.drop 31), ?_⟩
    rw [← utf8_append _ _ h.1, ← hsplit]
  · have hlen := h.2
    rw [List.length_append, List.length_replicate]
    omega

/-- A source is anchored as it should be exactly if its first 31 units are well formed and have no
more than 31 bytes; otherwise the anchor throws. -/
theorem source_anchored_iff (source : JsString) :
    (∃ bytes, sourceBytes32 source = .ok bytes ∧ HoldsSource source bytes) ↔
      SourceFits source := by
  constructor
  · rintro ⟨bytes, h, -⟩
    exact fits_of_sourceBytes32 h
  · intro h
    exact ⟨_, sourceBytes32_of_fits h, holdsSource h⟩

/-- Sixteen letters of two bytes each. -/
def accentedSource : JsString := List.replicate 16 0xe9

/-- A source of 16 characters is not anchored. -/
theorem accented_source_throws :
    ¬∀ source : JsString, wellFormed source = true → (chars source).length ≤ 31 →
      ∃ bytes, sourceBytes32 source = .ok bytes ∧ HoldsSource source bytes := by
  intro h
  obtain ⟨bytes, hbytes, -⟩ := h accentedSource (by decide) (by decide)
  have hlong := (fits_of_sourceBytes32 hbytes).2
  exact absurd hlong (by decide)

end EthereumAnchor

/-! ### Previews -/

namespace EthereumAnchor

/-- The call of `write` for an entry in the mode `hash-only`. -/
def hashCall (entry : LogEntry) : Except JsError HashStoreWrite := do
  return {
    contentHash := ← toBytes32 entry.dataHash
    level := levelUint8 entry.level
    messagePreview := ← strictUtf8 (entry.message.take 256) }

end EthereumAnchor

/-- The bytes are those of the beginning of a message, up to the end of a character. -/
def Readable (message : JsString) (preview : Bytes) : Prop :=
  ∃ t rest, message = t ++ rest ∧ wellFormed t = true ∧ preview = utf8 t

/-- A character of the message ends where its first `n` bytes do. -/
def EndsAt (message : JsString) (n : ℕ) : Prop :=
  ∃ t rest, message = t ++ rest ∧ wellFormed t = true ∧ (utf8 t).length = n

variable {message : JsString} {preview : Bytes}

/-- A preview of bytes is readable if it ends with a character. -/
lemma readable_take_iff {n : ℕ} :
    Readable message ((utf8 message).take n) ↔ EndsAt message (min n (utf8 message).length) := by
  constructor
  · rintro ⟨t, rest, hsplit, hwell, ht⟩
    refine ⟨t, rest, hsplit, hwell, ?_⟩
    rw [← ht, List.length_take]
  · rintro ⟨t, rest, rfl, hwell, hlen⟩
    refine ⟨t, rest, rfl, hwell, ?_⟩
    have hprefix : utf8 t <+: utf8 (t ++ rest) := ⟨utf8 rest, (utf8_append t rest hwell).symm⟩
    rw [List.take_eq_take_min, ← hlen]
    exact (List.prefix_iff_eq_take.mp hprefix).symm

/-- Cutting a message to 256 units first changes nothing about its first 256 bytes. -/
lemma truncate_take (h : wellFormed (message.take 256) = true) :
    LogStore.truncate (utf8 (message.take 256)) 256 = (utf8 message).take 256 := by
  have hsplit := List.take_append_drop 256 message
  rw [LogStore.truncate]
  by_cases hlong : message.length ≤ 256
  · rw [List.take_of_length_le hlong]
  · have hlen : (message.take 256).length = 256 := List.length_take_of_le (not_le.mp hlong).le
    have hbytes : 256 ≤ (utf8 (message.take 256)).length := hlen.symm.le.trans (length_le_utf8 _)
    conv_rhs => rw [← hsplit, utf8_append _ _ h, List.take_append_of_le_length hbytes]

/-- The characters of a cut message are no more than the service keeps. -/
lemma take_chars (message : JsString) :
    (chars (message.take 256)).take 256 = chars (message.take 256) := by
  apply List.take_of_length_le
  exact (length_chars_le _).trans (List.length_take_le 256 message)

lemma wellFormed_of_strictUtf8 {s : JsString} {bytes : Bytes}
    (h : EthereumAnchor.strictUtf8 s = .ok bytes) : wellFormed s = true ∧ bytes = utf8 s := by
  rw [EthereumAnchor.strictUtf8] at h
  split at h
  · next hwell => exact ⟨hwell, (Except.ok.inj h).symm⟩
  · cases h

lemma logCall_preview {entry : LogEntry} {w : StoreWrite}
    (h : EthereumAnchor.logCall entry = .ok w) : wellFormed (entry.message.take 256) = true ∧
      w.messagePreview = utf8 (entry.message.take 256) := by
  rw [EthereumAnchor.logCall] at h
  cases hsource : EthereumAnchor.sourceBytes32 entry.source with
  | error err => simp [hsource, bind, Except.bind] at h
  | ok source =>
    cases hhash : EthereumAnchor.toBytes32 entry.dataHash with
    | error err => simp [hsource, hhash, bind, Except.bind] at h
    | ok hash =>
      cases hpreview : EthereumAnchor.strictUtf8 (entry.message.take 256) with
      | error err => simp [hsource, hhash, hpreview, bind, Except.bind] at h
      | ok bytes =>
        obtain ⟨hwell, rfl⟩ := wellFormed_of_strictUtf8 hpreview
        refine ⟨hwell, ?_⟩
        simp only [hsource, hhash, hpreview, bind, Except.bind] at h
        split at h
        · cases h
        · split at h
          · cases h
          · rw [← Except.ok.inj h]

lemma hashCall_preview {entry : LogEntry} {w : HashStoreWrite}
    (h : EthereumAnchor.hashCall entry = .ok w) : wellFormed (entry.message.take 256) = true ∧
      w.messagePreview = utf8 (entry.message.take 256) := by
  rw [EthereumAnchor.hashCall] at h
  cases hhash : EthereumAnchor.toBytes32 entry.dataHash with
  | error err => simp [hhash, bind, Except.bind] at h
  | ok hash =>
    cases hpreview : EthereumAnchor.strictUtf8 (entry.message.take 256) with
    | error err => simp [hhash, hpreview, bind, Except.bind] at h
    | ok bytes =>
      obtain ⟨hwell, rfl⟩ := wellFormed_of_strictUtf8 hpreview
      simp only [hhash, hpreview, bind, Except.bind] at h
      exact ⟨hwell, by rw [← Except.ok.inj h]⟩

/-! ### Previews in the records -/

/-- A preview of a contract: the first 256 bytes of the message, whose end may be inside a
character. -/
structure ContractPreview (message : JsString) (preview : Bytes) : Prop where
  bytes : preview = (utf8 message).take 256
  readable : Readable message preview ↔ EndsAt message (min 256 (utf8 message).length)
  whole : (utf8 message).length ≤ 256 → preview = utf8 message

/-- A preview of a service: the characters of the first 256 units of the message. -/
structure ServicePreview (message : JsString) (preview : List Char) : Prop where
  units : preview = chars (message.take 256)
  readable : Readable message (preview.flatMap String.utf8EncodeChar)
  whole : (utf8 message).length ≤ 256 → preview.flatMap String.utf8EncodeChar = utf8 message

lemma contractPreview (h : wellFormed (message.take 256) = true) :
    ContractPreview message (LogStore.truncate (utf8 (message.take 256)) 256) := by
  rw [truncate_take h]
  constructor
  · rfl
  · exact readable_take_iff
  · exact List.take_of_length_le

lemma servicePreview (h : wellFormed (message.take 256) = true) :
    ServicePreview message ((chars (message.take 256)).take 256) := by
  rw [take_chars]
  constructor
  · rfl
  · exact ⟨message.take 256, message.drop 256, (List.take_append_drop 256 message).symm, h, rfl⟩
  · intro hlen
    show utf8 (message.take 256) = utf8 message
    rw [take_of_utf8_le hlen]

/-- The record of an entry in each contract and each service that keeps previews, where a call
does not revert and arguments are written. For a message that is cut inside a surrogate pair the
services are left out. -/
structure PreviewsOf (entry : LogEntry) : Prop where
  logStore : ∀ sha s ctx w s', EthereumAnchor.logCall entry = .ok w →
    LogStore.write sha s ctx w = some s' →
    ContractPreview entry.message (s'.logs w.contentHash).messagePreview
  hashStore : ∀ sha s ctx w s', EthereumAnchor.hashCall entry = .ok w →
    HashStore.write sha s ctx w = some s' →
    ContractPreview entry.message (s'.records w.contentHash).messagePreview
  logService : ∀ seed tx key len hash, seed < 2 ^ 31 →
    wellFormed (entry.message.take 256) = true →
    SafeLength (ExonumAnchor.logArgs .full entry seed) →
    ∃ arg, WriteLog.decode (ExonumAnchor.logArgs .full entry seed) = some arg ∧
      ServicePreview entry.message (arg.record tx key len hash).messagePreview
  hashService : ∀ seed tx key len hash, seed < 2 ^ 31 →
    wellFormed (entry.message.take 256) = true →
    SafeLength (ExonumAnchor.logArgs .hashOnly entry seed) →
    ∃ arg, WriteHash.decode (ExonumAnchor.logArgs .hashOnly entry seed) = some arg ∧
      ServicePreview entry.message (arg.record tx key len hash).messagePreview

/-- What previews say on the chains. The contracts cut bytes, by design also inside a character;
the services keep characters. -/
theorem previews_recorded (entry : LogEntry) : PreviewsOf entry := by
  constructor
  · intro sha s ctx w s' hcall hwrite
    obtain ⟨hwell, hpreview⟩ := logCall_preview hcall
    rw [LogStore.write] at hwrite
    split at hwrite
    · cases hwrite
    · cases hwrite
      simp only [Function.update_self, hpreview]
      exact contractPreview hwell
  · intro sha s ctx w s' hcall hwrite
    obtain ⟨hwell, hpreview⟩ := hashCall_preview hcall
    rw [HashStore.write, ContractStore.write] at hwrite
    split at hwrite
    · cases hwrite
    · cases hwrite
      simp only [HashStore.contract, Function.update_self, hpreview]
      exact contractPreview hwell
  · intro seed tx key len hash hseed hwell hsafe
    refine ⟨_, decode_encodeWriteLog (WriteLogData.encodable hseed hsafe), ?_⟩
    exact servicePreview hwell
  · intro seed tx key len hash hseed hwell hsafe
    refine ⟨_, decode_encodeWriteHash (WriteHashData.encodable hseed hsafe), ?_⟩
    exact servicePreview hwell

/-- A hundred euro signs, of three bytes each. -/
def euroEntry : LogEntry := .create [] .epoch [] [] (List.replicate 100 0x20ac) none

lemma utf8_euros (n : ℕ) : (utf8 (List.replicate n 0x20ac)).length = 3 * n := by
  induction n with
  | zero => rfl
  | succ n ih =>
    have hone : wellFormed [0x20ac] = true := by decide
    have hthree : (utf8 [0x20ac]).length = 3 := by decide
    rw [List.replicate_succ, ← List.singleton_append, utf8_append _ _ hone, List.length_append, ih,
      hthree]
    omega

/-- No euro sign ends with the 256th byte. -/
lemma euros_end (n : ℕ) : ¬EndsAt (List.replicate n 0x20ac) 256 := by
  rintro ⟨t, rest, hsplit, -, hlen⟩
  have ht : t = List.replicate t.length 0x20ac :=
    (List.prefix_replicate_iff.mp ⟨rest, hsplit.symm⟩).2
  rw [ht, utf8_euros] at hlen
  omega

def euroContext : BlockContext := ⟨[], 1, 1⟩

/-- The preview of the euro signs in the log store ends inside one of them. -/
theorem euro_preview_cut : wellFormed euroEntry.message = true ∧
    ∃ w s', EthereumAnchor.logCall euroEntry = .ok w ∧
      LogStore.deployed.write lengthSha euroContext w = some s' ∧
      ¬Readable euroEntry.message (s'.logs w.contentHash).messagePreview := by
  refine ⟨by decide, ?_⟩
  cases hcall : EthereumAnchor.logCall euroEntry with
  | error err =>
    have hok : (EthereumAnchor.logCall euroEntry).isOk = true := by decide +kernel
    rw [hcall] at hok
    cases hok
  | ok w =>
    have hnew : ¬LogStore.deployed.recordExists w.contentHash := fun h => h rfl
    obtain ⟨hwell, hpreview⟩ := logCall_preview hcall
    refine ⟨w, _, rfl, if_neg hnew, ?_⟩
    simp only [Function.update_self, hpreview]
    intro h
    rw [truncate_take hwell] at h
    have hend := readable_take_iff.mp h
    have hlength : (utf8 euroEntry.message).length = 300 := utf8_euros 100
    rw [hlength] at hend
    exact euros_end 100 hend

end HybridLog
