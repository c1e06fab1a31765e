import HybridLog.Chain.Exonum

/-!
# Messages of the Exonum anchor

The anchor writes the arguments of the three services by hand. A field whose value is empty or
zero is left out, which the services read as the same value.
-/

namespace HybridLog

open Js Protobuf

/-! ### `varint` and `pbField` -/

/-- `n & 0x7f`, which is computed on the low 32 bits. -/
def lowBits (n : ℕ) : BitVec 32 := BitVec.ofNat 32 n &&& 0x7f

def varint (n : ℕ) : Bytes :=
  if 127 < n then UInt8.ofNat (lowBits n ||| 0x80).toNat :: varint (n / 128)
  else [UInt8.ofNat (lowBits n).toNat]
termination_by n

/-- `(num << 3) | wtype` -/
def fieldTag (num wtype : ℕ) : ℕ := (BitVec.ofNat 32 num <<< 3 ||| BitVec.ofNat 32 wtype).toNat

/-- A field with a number or with a buffer. No others are written. -/
def pbField : Field → Bytes
  | (num, .varint n) => varint (fieldTag num 0) ++ varint n
  | (num, .bytes buf) => varint (fieldTag num 2) ++ varint buf.length ++ buf
  | _ => []

lemma lowBits_toNat (n : ℕ) : (lowBits n).toNat = n % 128 := by
  have h : n % 2 ^ 32 % 128 = n % 128 := Nat.mod_mod_of_dvd n (by norm_num)
  rw [lowBits, BitVec.toNat_and, BitVec.toNat_ofNat, ← h]
  exact Nat.and_two_pow_sub_one_eq_mod _ 7

lemma markedBits_toNat (n : ℕ) : (lowBits n ||| 0x80).toNat = n % 128 + 128 := by
  have h := Nat.two_pow_add_eq_or_of_lt (i := 7) (Nat.mod_lt n (by norm_num)) 1
  rw [BitVec.toNat_or, lowBits_toNat, Nat.or_comm, Nat.add_comm]
  exact h.symm

lemma fieldTag_eq {num wtype : ℕ} (hnum : num < 2 ^ 28) (hw : wtype < 8) :
    fieldTag num wtype = num * 8 + wtype := by
  have h := Nat.two_pow_add_eq_or_of_lt (i := 3) hw num
  have hnum' : (num % 2 ^ 32) <<< 3 % 2 ^ 32 = 2 ^ 3 * num := by
    rw [Nat.shiftLeft_eq]
    omega
  have hw' : wtype % 2 ^ 32 = wtype := by omega
  rw [fieldTag, BitVec.toNat_or, BitVec.toNat_shiftLeft, BitVec.toNat_ofNat, BitVec.toNat_ofNat,
    hnum', hw', ← h, Nat.mul_comm]

lemma varint_eq_varintDigits {k n : ℕ} (hn : n < 128 ^ (k + 1)) : varint n = varintDigits k n := by
  induction k generalizing n with
  | zero =>
    rw [varint, if_neg (by omega), lowBits_toNat, varintDigits, Nat.mod_eq_of_lt (by omega)]
  | succ k ih =>
    rw [varint, varintDigits]
    by_cases h : n ≤ 127
    · rw [if_neg (by omega), if_pos h, lowBits_toNat, Nat.mod_eq_of_lt (by omega)]
    · have hdiv : n / 128 < 128 ^ (k + 1) := by
        rw [pow_succ] at hn
        omega
      rw [if_pos (by omega), if_neg h, markedBits_toNat, ih hdiv]

/-- The bit operators see 32 bits of a number, the division sees all of them. -/
lemma varint_eq {n : ℕ} (hn : n < 2 ^ 63) : varint n = Protobuf.varint n :=
  varint_eq_varintDigits (by norm_num at hn ⊢; exact hn)

/-- Fields that `pbField` writes in order: sizes are safe integers. -/
def Encodable (f : Field) : Prop := Writable f ∧ f.1 < 2 ^ 28

lemma pbField_eq {f : Field} (h : Encodable f) : pbField f = encodeField f := by
  match f, h with
  | (num, .varint n), ⟨⟨_, _, hn⟩, hnum⟩ =>
    rw [pbField, encodeField, varintField, varint_eq hn, fieldTag_eq hnum (by omega),
      varint_eq (by omega), Nat.add_zero]
  | (num, .bytes buf), ⟨⟨_, _, hlen⟩, hnum⟩ =>
    rw [pbField, encodeField, bytesField, varint_eq hlen, fieldTag_eq hnum (by omega),
      varint_eq (by omega)]

/-! ### Fields -/

/-- A field of characters, left out if there are none. -/
def optString (num : ℕ) (s : JsString) : List Field :=
  if s = [] then [] else [(num, .bytes (utf8 s))]

/-- A field with a number, left out if it is zero. -/
def optNumber (num n : ℕ) : List Field := if n = 0 then [] else [(num, .varint n)]

@[simp] lemma optString_nil (num : ℕ) : optString num [] = [] := rfl

@[simp] lemma optNumber_zero (num : ℕ) : optNumber num 0 = [] := rfl

/-- `Buffer.concat(parts)` -/
def concatFields (fs : List Field) : Bytes := fs.flatMap pbField

/-- A text whose length is no concern of the encoding. -/
def Small (s : JsString) : Prop := (utf8 s).length < 2 ^ 32

instance (s : JsString) : Decidable (Small s) := inferInstanceAs (Decidable (_ < _))

/-- The length of a buffer is a safe integer. -/
def SafeLength (bs : Bytes) : Prop := bs.length < 2 ^ 53

/-- What a message holds under one of its numbers. -/
inductive Slot
  | required (s : JsString)
  | text (s : JsString)
  | number (n : ℕ)

namespace Slot

def fields (num : ℕ) : Slot → List Field
  | required s => [(num, .bytes (utf8 s))]
  | text s => optString num s
  | number n => optNumber num n

def size : Slot → ℕ
  | required s | text s => (utf8 s).length
  | number n => n

end Slot

/-- The fields of a message. -/
def slotFields (slots : List (ℕ × Slot)) : List Field := slots.flatMap fun x => x.2.fields x.1

/-- Messages that are written in order. -/
def EncodableSlots (slots : List (ℕ × Slot)) : Prop :=
  ∀ x ∈ slots, 0 < x.1 ∧ x.1 < 2 ^ 28 ∧ x.2.size < 2 ^ 53

instance (slots : List (ℕ × Slot)) : Decidable (EncodableSlots slots) :=
  inferInstanceAs (Decidable (∀ x ∈ slots, _))

section Slots

variable {slots : List (ℕ × Slot)} {num k n bits : ℕ} {s : JsString} {v : Slot}

lemma Slot.encodable (hpos : 0 < num) (hnum : num < 2 ^ 28) (hsize : v.size < 2 ^ 53) :
    ∀ f ∈ v.fields num, Encodable f := by
  have hnum' : num < 2 ^ 29 := by omega
  intro f hf
  cases v with
  | required s =>
    rw [List.mem_singleton.mp hf]
    exact ⟨⟨hpos, hnum', hsize.trans (by norm_num)⟩, hnum⟩
  | text s =>
    rw [Slot.fields, optString] at hf
    split at hf
    · cases hf
    · rw [List.mem_singleton.mp hf]
      exact ⟨⟨hpos, hnum', hsize.trans (by norm_num)⟩, hnum⟩
  | number n =>
    rw [Slot.fields, optNumber] at hf
    split at hf
    · cases hf
    · rw [List.mem_singleton.mp hf]
      exact ⟨⟨hpos, hnum', hsize.trans (by norm_num)⟩, hnum⟩

lemma EncodableSlots.encodable (h : EncodableSlots slots) : ∀ f ∈ slotFields slots, Encodable f := by
  intro f hf
  obtain ⟨x, hx, hf⟩ := List.mem_flatMap.mp hf
  obtain ⟨hpos, hnum, hsize⟩ := h x hx
  exact Slot.encodable hpos hnum hsize f hf

lemma flatMap_congr_of_encodable {fs : List Field} (h : ∀ f ∈ fs, Encodable f) :
    concatFields fs = fs.flatMap encodeField :=
  List.flatMap_congr fun f hf => pbField_eq (h f hf)

/-- A message is read as the fields it was written from. -/
theorem fields_concatFields {fs : List Field} (h : ∀ f ∈ fs, Encodable f) :
    Protobuf.fields (concatFields fs) = some fs := by
  rw [flatMap_congr_of_encodable h]
  exact fields_flatMap fun f hf => (h f hf).1

/-! ### Reading fields back -/

variable {α : Type} {read : Value → Option α}

lemma values_append (fs gs : List Field) : values read num (fs ++ gs) =
    (values read num fs).bind fun as => (values read num gs).map (as ++ ·) := by
  induction fs with
  | nil =>
    rw [List.nil_append, values, Option.bind_some]
    cases values read num gs <;> rfl
  | cons f fs ih =>
    obtain ⟨j, v⟩ := f
    rw [List.cons_append, values, values, ih]
    split
    · cases read v with
      | none => rfl
      | some a =>
        cases values read num fs with
        | none => rfl
        | some as => cases values read num gs <;> rfl
    · rfl

lemma values_eq_nil {fs : List Field} (h : ∀ f ∈ fs, f.1 ≠ num) : values read num fs = some [] := by
  induction fs with
  | nil => rfl
  | cons f fs ih =>
    rw [values, if_neg (h f (by simp))]
    exact ih fun g hg => h g (by simp [hg])

lemma Slot.num_of_mem {f : Field} (hf : f ∈ v.fields k) : f.1 = k := by
  cases v with
  | required s => rw [List.mem_singleton.mp hf]
  | text s =>
    rw [Slot.fields, optString] at hf
    split at hf
    · cases hf
    · rw [List.mem_singleton.mp hf]
  | number n =>
    rw [Slot.fields, optNumber] at hf
    split at hf
    · cases hf
    · rw [List.mem_singleton.mp hf]

/-- Where every number occurs once, what is read under a number is what its slot wrote. -/
lemma values_slotFields (hnodup : (slots.map Prod.fst).Nodup) (hmem : (num, v) ∈ slots) :
    values read num (slotFields slots) = values read num (v.fields num) := by
  induction slots with
  | nil => cases hmem
  | cons x slots ih =>
    obtain ⟨hnew, hnodup⟩ := List.nodup_cons.mp hnodup
    rw [slotFields, List.flatMap_cons, values_append]
    rcases List.mem_cons.mp hmem with rfl | hmem
    · have hnone : values read num (slotFields slots) = some [] := by
        apply values_eq_nil
        intro f hf
        obtain ⟨y, hy, hf⟩ := List.mem_flatMap.mp hf
        rintro rfl
        rw [Slot.num_of_mem hf] at hnew
        exact hnew (List.mem_map_of_mem hy)
      rw [slotFields] at hnone
      rw [hnone]
      cases values read num (v.fields num) with
      | none => rfl
      | some vs => simp
    · have hnone : values read num (x.2.fields x.1) = some [] := by
        apply values_eq_nil
        intro f hf
        rw [Slot.num_of_mem hf]
        rintro rfl
        exact hnew (List.mem_map.mpr ⟨_, hmem, rfl⟩)
      rw [hnone, ← ih hnodup hmem, slotFields]
      cases values read num (slots.flatMap fun x => x.2.fields x.1) <;> rfl

lemma getString_required (hnodup : (slots.map Prod.fst).Nodup)
    (hmem : (num, Slot.required s) ∈ slots) : getString num (slotFields slots) = some (chars s) := by
  rw [getString, lastValue, values_slotFields hnodup hmem, Slot.fields, values, if_pos rfl,
    asString_utf8]
  rfl

lemma getString_text (hnodup : (slots.map Prod.fst).Nodup) (hmem : (num, Slot.text s) ∈ slots) :
    getString num (slotFields slots) = some (chars s) := by
  rw [getString, lastValue, values_slotFields hnodup hmem, Slot.fields, optString]
  split
  · next h =>
    rw [h]
    rfl
  · rw [values, if_pos rfl, asString_utf8]
    rfl

lemma getUint_number (hnodup : (slots.map Prod.fst).Nodup) (hmem : (num, Slot.number n) ∈ slots)
    (hn : n < 2 ^ bits) : getUint bits num (slotFields slots) = some n := by
  rw [getUint, lastValue, values_slotFields hnodup hmem, Slot.fields, optNumber]
  split
  · next h =>
    rw [h]
    rfl
  · rw [values, if_pos rfl, asUint, Nat.mod_eq_of_lt hn]
    rfl

/-- A step of a reader that succeeds. -/
lemma bind_of_eq_some {α β : Type} {o : Option α} {a : α} {f : α → Option β} {b : Option β}
    (h : o = some a) (h' : f a = b) : o >>= f = b := by
  rw [h]
  exact h'

end Slots

/-! ### `encodeWriteLog` -/

structure WriteLogData where
  contentHash : JsString
  level : JsString
  source : JsString
  messagePreview : JsString
  seed : ℕ
  message : JsString
  metadataJson : JsString

def WriteLogData.fields (d : WriteLogData) : List Field :=
  (1, .bytes (utf8 d.contentHash)) :: (optString 2 d.level ++ optString 3 d.source ++
    optString 4 d.messagePreview ++ optNumber 5 d.seed ++ optString 6 d.message ++
    optString 7 d.metadataJson)

def encodeWriteLog (d : WriteLogData) : Bytes := concatFields d.fields

def WriteLogData.slots (d : WriteLogData) : List (ℕ × Slot) :=
  [(1, .required d.contentHash), (2, .text d.level), (3, .text d.source),
    (4, .text d.messagePreview), (5, .number d.seed), (6, .text d.message),
    (7, .text d.metadataJson)]

lemma WriteLogData.fields_eq (d : WriteLogData) : d.fields = slotFields d.slots := by
  simp [WriteLogData.fields, WriteLogData.slots, slotFields, Slot.fields]

/-- The log service reads what the anchor has written. -/
theorem decode_encodeWriteLog {d : WriteLogData} (h : EncodableSlots d.slots) :
    WriteLog.decode (encodeWriteLog d) = some ⟨chars d.contentHash, chars d.level, chars d.source,
      chars d.messagePreview, d.seed, chars d.message, chars d.metadataJson⟩ := by
  have hnodup : (d.slots.map Prod.fst).Nodup := by simp [WriteLogData.slots]
  have hseed : d.seed < 2 ^ 64 :=
    (h (5, .number d.seed) (by simp [WriteLogData.slots])).2.2.trans (by norm_num)
  have text {num : ℕ} {s : JsString} (hmem : (num, Slot.text s) ∈ d.slots) :=
    getString_text hnodup hmem
  rw [WriteLog.decode, encodeWriteLog, d.fields_eq]
  refine bind_of_eq_some (fields_concatFields h.encodable) ?_
  refine bind_of_eq_some (getString_required (s := d.contentHash) hnodup (.head _)) ?_
  refine bind_of_eq_some (text (s := d.level) (by simp [WriteLogData.slots])) ?_
  refine bind_of_eq_some (text (s := d.source) (by simp [WriteLogData.slots])) ?_
  refine bind_of_eq_some (text (s := d.messagePreview) (by simp [WriteLogData.slots])) ?_
  refine bind_of_eq_some
    (getUint_number (n := d.seed) hnodup (by simp [WriteLogData.slots]) hseed) ?_
  refine bind_of_eq_some (text (s := d.message) (by simp [WriteLogData.slots])) ?_
  exact bind_of_eq_some (text (s := d.metadataJson) (by simp [WriteLogData.slots])) rfl

/-! ### `encodeWriteHash` -/

structure WriteHashData where
  contentHash : JsString
  level : JsString
  messagePreview : JsString
  seed : ℕ

def WriteHashData.fields (d : WriteHashData) : List Field :=
  (1, .bytes (utf8 d.contentHash)) :: (optString 2 d.level ++ optString 3 d.messagePreview ++
    optNumber 4 d.seed)

def encodeWriteHash (d : WriteHashData) : Bytes := concatFields d.fields

def WriteHashData.slots (d : WriteHashData) : List (ℕ × Slot) :=
  [(1, .required d.contentHash), (2, .text d.level), (3, .text d.messagePreview),
    (4, .number d.seed)]

lemma WriteHashData.fields_eq (d : WriteHashData) : d.fields = slotFields d.slots := by
  simp [WriteHashData.fields, WriteHashData.slots, slotFields, Slot.fields]

/-- The hash service reads what the anchor has written. -/
theorem decode_encodeWriteHash {d : WriteHashData} (h : EncodableSlots d.slots) :
    WriteHash.decode (encodeWriteHash d) =
      some ⟨chars d.contentHash, chars d.level, chars d.messagePreview, d.seed⟩ := by
  have hnodup : (d.slots.map Prod.fst).Nodup := by simp [WriteHashData.slots]
  have hseed : d.seed < 2 ^ 64 :=
    (h (4, .number d.seed) (by simp [WriteHashData.slots])).2.2.trans (by norm_num)
  have text {num : ℕ} {s : JsString} (hmem : (num, Slot.text s) ∈ d.slots) :=
    getString_text hnodup hmem
  rw [WriteHash.decode, encodeWriteHash, d.fields_eq]
  refine bind_of_eq_some (fields_concatFields h.encodable) ?_
  refine bind_of_eq_some (getString_required (s := d.contentHash) hnodup (.head _)) ?_
  refine bind_of_eq_some (text (s := d.level) (by simp [WriteHashData.slots])) ?_
  refine bind_of_eq_some (text (s := d.messagePreview) (by simp [WriteHashData.slots])) ?_
  exact bind_of_eq_some
    (getUint_number (n := d.seed) hnodup (by simp [WriteHashData.slots]) hseed) rfl

/-- The batch service cannot read arguments of the hash service that carry a level: it expects a
number in the field. -/
theorem decode_encodeWriteHash_batch {d : WriteHashData} (h : EncodableSlots d.slots)
    (hlevel : d.level ≠ []) : WriteBatch.decode (encodeWriteHash d) = none := by
  have hnodup : (d.slots.map Prod.fst).Nodup := by simp [WriteHashData.slots]
  have hclash : getUint 64 2 (slotFields d.slots) = none := by
    rw [← d.fields_eq]
    exact lastValue_eq_none (v := .bytes (utf8 d.level))
      (by simp [WriteHashData.fields, optString, hlevel]) rfl
  rw [WriteBatch.decode, encodeWriteHash, d.fields_eq]
  refine bind_of_eq_some (fields_concatFields h.encodable) ?_
  refine bind_of_eq_some (getString_required (s := d.contentHash) hnodup (.head _)) ?_
  rw [hclash]
  rfl

/-- Without a level it still cannot if there is a seed: it expects a text in that field. -/
theorem decode_encodeWriteHash_batch_seed {d : WriteHashData} (h : EncodableSlots d.slots)
    (hlevel : d.level = []) (hseed : d.seed ≠ 0) : WriteBatch.decode (encodeWriteHash d) = none := by
  have hnodup : (d.slots.map Prod.fst).Nodup := by simp [WriteHashData.slots]
  have hclash : getString 4 (slotFields d.slots) = none := by
    rw [← d.fields_eq]
    exact lastValue_eq_none (v := .varint d.seed)
      (by simp [WriteHashData.fields, optNumber, hseed]) rfl
  have hnone : getUint 64 2 (slotFields d.slots) = some 0 := by
    have hvalues : values (asUint 64) 2 (slotFields d.slots) = _ :=
      values_slotFields hnodup (by simp [WriteHashData.slots] : (2, Slot.text d.level) ∈ d.slots)
    rw [getUint, lastValue, hvalues, Slot.fields, optString, if_pos hlevel]
    rfl
  have hstart : getString 3 (slotFields d.slots) = some (chars d.messagePreview) :=
    getString_text hnodup (by simp [WriteHashData.slots])
  rw [WriteBatch.decode, encodeWriteHash, d.fields_eq]
  refine bind_of_eq_some (fields_concatFields h.encodable) ?_
  refine bind_of_eq_some (getString_required (s := d.contentHash) hnodup (.head _)) ?_
  refine bind_of_eq_some hnone ?_
  refine bind_of_eq_some hstart ?_
  rw [hclash]
  rfl

/-! ### `encodeWriteBatch` -/

structure WriteBatchData where
  contentHash : JsString
  seed : ℕ
  startId : JsString
  endId : JsString
  count : ℕ
  debugCount : ℕ
  infoCount : ℕ
  warnCount : ℕ
  errorCount : ℕ
  criticalCount : ℕ
  maxSeverity : JsString

def WriteBatchData.fields (d : WriteBatchData) : List Field :=
  (1, .bytes (utf8 d.contentHash)) :: (optNumber 2 d.seed ++ optString 3 d.startId ++
    optString 4 d.endId ++ optNumber 5 d.count ++ optNumber 6 d.debugCount ++
    optNumber 7 d.infoCount ++ optNumber 8 d.warnCount ++ optNumber 9 d.errorCount ++
    optNumber 10 d.criticalCount ++ optString 11 d.maxSeverity)

def encodeWriteBatch (d : WriteBatchData) : Bytes := concatFields d.fields

/-- The counts of a batch, of 32 bits each for the service. -/
def WriteBatchData.counts (d : WriteBatchData) : List ℕ :=
  [d.count, d.debugCount, d.infoCount, d.warnCount, d.errorCount, d.criticalCount]

def WriteBatchData.slots (d : WriteBatchData) : List (ℕ × Slot) :=
  [(1, .required d.contentHash), (2, .number d.seed), (3, .text d.startId), (4, .text d.endId),
    (5, .number d.count), (6, .number d.debugCount), (7, .number d.infoCount),
    (8, .number d.warnCount), (9, .number d.errorCount), (10, .number d.criticalCount),
    (11, .text d.maxSeverity)]

lemma WriteBatchData.fields_eq (d : WriteBatchData) : d.fields = slotFields d.slots := by
  simp [WriteBatchData.fields, WriteBatchData.slots, slotFields, Slot.fields]

/-- The batch service reads what the anchor has written. -/
theorem decode_encodeWriteBatch {d : WriteBatchData} (h : EncodableSlots d.slots)
    (hcounts : ∀ n ∈ d.counts, n < 2 ^ 32) :
    WriteBatch.decode (encodeWriteBatch d) = some ⟨chars d.contentHash, d.seed, chars d.startId,
      chars d.endId, d.count, d.debugCount, d.infoCount, d.warnCount, d.errorCount,
      d.criticalCount, chars d.maxSeverity⟩ := by
  have hnodup : (d.slots.map Prod.fst).Nodup := by simp [WriteBatchData.slots]
  have hseed : d.seed < 2 ^ 64 :=
    (h (2, .number d.seed) (by simp [WriteBatchData.slots])).2.2.trans (by norm_num)
  have text {num : ℕ} {s : JsString} (hmem : (num, Slot.text s) ∈ d.slots) :=
    getString_text hnodup hmem
  have count {num n : ℕ} (hn : n ∈ d.counts) (hmem : (num, Slot.number n) ∈ d.slots) :=
    getUint_number hnodup hmem (hcounts n hn)
  rw [WriteBatch.decode, encodeWriteBatch, d.fields_eq]
  refine bind_of_eq_some (fields_concatFields h.encodable) ?_
  refine bind_of_eq_some (getString_required (s := d.contentHash) hnodup (.head _)) ?_
  refine bind_of_eq_some
    (getUint_number (n := d.seed) hnodup (by simp [WriteBatchData.slots]) hseed) ?_
  refine bind_of_eq_some (text (s := d.startId) (by simp [WriteBatchData.slots])) ?_
  refine bind_of_eq_some (text (s := d.endId) (by simp [WriteBatchData.slots])) ?_
  refine bind_of_eq_some (count (n := d.count) (.head _) (by simp [WriteBatchData.slots])) ?_
  refine bind_of_eq_some (count (n := d.debugCount) (by simp [WriteBatchData.counts])
    (by simp [WriteBatchData.slots])) ?_
  refine bind_of_eq_some (count (n := d.infoCount) (by simp [WriteBatchData.counts])
    (by simp [WriteBatchData.slots])) ?_
  refine bind_of_eq_some (count (n := d.warnCount) (by simp [WriteBatchData.counts])
    (by simp [WriteBatchData.slots])) ?_
  refine bind_of_eq_some (count (n := d.errorCount) (by simp [WriteBatchData.counts])
    (by simp [WriteBatchData.slots])) ?_
  refine bind_of_eq_some (count (n := d.criticalCount) (by simp [WriteBatchData.counts])
    (by simp [WriteBatchData.slots])) ?_
  exact bind_of_eq_some (text (s := d.maxSeverity) (by simp [WriteBatchData.slots])) rfl

end HybridLog
