import HybridLog.Js.Text
import Mathlib.Tactic.NormNum
import Mathlib.Data.List.Flatten

/-!
# Protocol buffers on the wire

A message is a sequence of fields, each a number and a value of one of four wire types. A reader
first splits the bytes into fields and then looks up the fields it knows: a field that occurs more
than once counts with its last value, one that is missing has a default, and one that occurs under
another wire type makes the whole message invalid. Groups are not read.
-/

namespace Protobuf

abbrev Bytes := List UInt8

/-! ### Numbers in base 128 -/

/-- At most `k + 1` digits of `n`, the lowest first; all but the last have the top bit set. -/
def varintDigits : ℕ → ℕ → Bytes
  | 0, n => [UInt8.ofNat n]
  | k + 1, n =>
    if n ≤ 127 then [UInt8.ofNat n] else UInt8.ofNat (n % 128 + 128) :: varintDigits k (n / 128)

/-- A number below `128 ^ 9` as a varint. -/
def varint (n : ℕ) : Bytes := varintDigits 8 n

/-- Read a varint of at most `k` bytes. -/
def readDigits : ℕ → Bytes → Option (ℕ × Bytes)
  | 0, _ | _, [] => none
  | k + 1, b :: bs =>
    if b.toNat < 128 then some (b.toNat, bs)
    else (readDigits k bs).map fun (n, rest) => (b.toNat - 128 + 128 * n, rest)

/-- Read a varint of at most ten bytes as a number of 64 bits. -/
def readVarint (bs : Bytes) : Option (ℕ × Bytes) :=
  (readDigits 10 bs).map fun (n, rest) => (n % 2 ^ 64, rest)

lemma toNat_ofNat_of_lt {n : ℕ} (h : n < 256) : (UInt8.ofNat n).toNat = n := by
  rw [UInt8.toNat_ofNat']
  omega

lemma readDigits_varintDigits (rest : Bytes) : ∀ {k m n : ℕ}, k < m → n < 128 ^ (k + 1) →
    readDigits m (varintDigits k n ++ rest) = some (n, rest)
  | 0, m + 1, n, _, hn => by
    rw [varintDigits, List.singleton_append, readDigits,
      toNat_ofNat_of_lt (by omega), if_pos (by simpa using hn)]
  | k + 1, m + 1, n, hm, hn => by
    rw [varintDigits]
    split
    · next h =>
      rw [List.singleton_append, readDigits, toNat_ofNat_of_lt (by omega), if_pos (by omega)]
    · next h =>
      have hdiv : n / 128 < 128 ^ (k + 1) := by
        rw [pow_succ] at hn
        omega
      rw [List.cons_append, readDigits, toNat_ofNat_of_lt (by omega), if_neg (by omega),
        readDigits_varintDigits rest (by omega) hdiv, Option.map_some]
      simp only [Nat.add_sub_cancel, Nat.mod_add_div]

/-- What `varint` writes is read back. -/
theorem readVarint_varint {n : ℕ} (hn : n < 2 ^ 63) (rest : Bytes) :
    readVarint (varint n ++ rest) = some (n, rest) := by
  have hlt : n < 128 ^ (8 + 1) := by norm_num at hn ⊢; exact hn
  rw [readVarint, varint, readDigits_varintDigits rest (by omega) hlt, Option.map_some]
  simp only [Nat.mod_eq_of_lt (by omega : n < 2 ^ 64)]

/-! ### Fields -/

inductive Value
  | varint (n : ℕ)
  | fixed64 (bs : Bytes)
  | bytes (bs : Bytes)
  | fixed32 (bs : Bytes)
deriving DecidableEq

/-- A field of a message: its number and its value. -/
abbrev Field := ℕ × Value

/-- The first `n` bytes, if there are as many. -/
def readBytes (n : ℕ) (bs : Bytes) : Option (Bytes × Bytes) :=
  if n ≤ bs.length then some (bs.take n, bs.drop n) else none

/-- The value after a tag of the given wire type. -/
def readValue (wireType : ℕ) (bs : Bytes) : Option (Value × Bytes) :=
  match wireType with
  | 0 => (readVarint bs).map fun (n, rest) => (.varint n, rest)
  | 1 => (readBytes 8 bs).map fun (v, rest) => (.fixed64 v, rest)
  | 2 => (readVarint bs).bind fun (n, rest) =>
    (readBytes n rest).map fun (v, rest) => (.bytes v, rest)
  | 5 => (readBytes 4 bs).map fun (v, rest) => (.fixed32 v, rest)
  | _ => none

/-- The tag is a number of 32 bits: the field's number and three bits for its wire type. -/
def readField (bs : Bytes) : Option (Field × Bytes) :=
  (readVarint bs).bind fun (tag, rest) =>
    if tag % 2 ^ 32 / 8 = 0 then none
    else (readValue (tag % 8) rest).map fun (v, rest) => ((tag % 2 ^ 32 / 8, v), rest)

/-- At most `k` fields. -/
def readFields : ℕ → Bytes → Option (List Field)
  | _, [] => some []
  | 0, _ :: _ => none
  | k + 1, bs => (readField bs).bind fun (f, rest) => (readFields k rest).map (f :: ·)

/-- The fields of a message. Each takes a byte at least. -/
def fields (bs : Bytes) : Option (List Field) := readFields bs.length bs

/-! ### Writing fields -/

/-- A field with a number, as it is written. -/
def varintField (num n : ℕ) : Bytes := varint (num * 8) ++ varint n

/-- A field with a sequence of bytes. -/
def bytesField (num : ℕ) (bs : Bytes) : Bytes := varint (num * 8 + 2) ++ varint bs.length ++ bs

/-- The bytes of a field, for the two wire types that are written. -/
def encodeField : Field → Bytes
  | (num, .varint n) => varintField num n
  | (num, .bytes bs) => bytesField num bs
  | _ => []

/-- Fields that are written as they are. -/
def Writable : Field → Prop
  | (num, .varint n) => 0 < num ∧ num < 2 ^ 29 ∧ n < 2 ^ 63
  | (num, .bytes bs) => 0 < num ∧ num < 2 ^ 29 ∧ bs.length < 2 ^ 63
  | _ => False

lemma readBytes_append (v rest : Bytes) : readBytes v.length (v ++ rest) = some (v, rest) := by
  rw [readBytes, if_pos (by simp), List.take_left, List.drop_left]

lemma readField_tag {num wireType : ℕ} {v : Value} {bs rest : Bytes} (hpos : 0 < num)
    (hnum : num < 2 ^ 29) (hw : wireType < 8) (h : readValue wireType bs = some (v, rest)) :
    readField (varint (num * 8 + wireType) ++ bs) = some ((num, v), rest) := by
  have hdiv : (num * 8 + wireType) % 2 ^ 32 / 8 = num := by omega
  have hmod : (num * 8 + wireType) % 8 = wireType := by omega
  rw [readField, readVarint_varint (by omega), Option.bind_some]
  simp only [hdiv, hmod, h, if_neg (by omega : ¬num = 0), Option.map_some]

/-- What is written of a field is read back. -/
theorem readField_encodeField {f : Field} (h : Writable f) (rest : Bytes) :
    readField (encodeField f ++ rest) = some (f, rest) := by
  match f, h with
  | (num, .varint n), ⟨hpos, hnum, hn⟩ =>
    rw [encodeField, varintField, List.append_assoc]
    refine @readField_tag num 0 _ _ _ hpos hnum (by omega) ?_
    rw [readValue, readVarint_varint hn, Option.map_some]
  | (num, .bytes bs), ⟨hpos, hnum, hlen⟩ =>
    rw [encodeField, bytesField, List.append_assoc, List.append_assoc]
    refine readField_tag hpos hnum (by omega) ?_
    rw [readValue, readVarint_varint hlen, Option.bind_some]
    simp only [readBytes_append, Option.map_some]

lemma varintDigits_ne_nil (k n : ℕ) : varintDigits k n ≠ [] := by
  cases k with
  | zero => simp [varintDigits]
  | succ k =>
    rw [varintDigits]
    split <;> simp

lemma encodeField_ne_nil {f : Field} (h : Writable f) : encodeField f ≠ [] := by
  match f, h with
  | (num, .varint n), _ => simp [encodeField, varintField, varint, varintDigits_ne_nil]
  | (num, .bytes bs), _ => simp [encodeField, bytesField, varint, varintDigits_ne_nil]

lemma readFields_flatMap : ∀ {fs : List Field} {k : ℕ}, (∀ f ∈ fs, Writable f) →
    (fs.flatMap encodeField).length ≤ k → readFields k (fs.flatMap encodeField) = some fs
  | [], k, _, _ => by cases k <;> rfl
  | f :: fs, k, h, hk => by
    have hf : Writable f := h f (List.mem_cons_self ..)
    obtain ⟨b, bs, hb⟩ := List.exists_cons_of_ne_nil (encodeField_ne_nil hf)
    rw [List.flatMap_cons, List.length_append] at hk
    have hpos : 0 < (encodeField f).length := by simp [hb]
    obtain ⟨k, rfl⟩ : ∃ k', k = k' + 1 := ⟨k - 1, by omega⟩
    have hne : f :: fs ≠ [] := by simp
    have hstep : readFields (k + 1) (encodeField f ++ fs.flatMap encodeField) =
        (readField (encodeField f ++ fs.flatMap encodeField)).bind fun (g, rest) =>
          (readFields k rest).map (g :: ·) := by
      rw [hb, List.cons_append, readFields]
      simp
    rw [List.flatMap_cons, hstep, readField_encodeField hf, Option.bind_some]
    simp only [readFields_flatMap (fun g hg => h g (List.mem_cons_of_mem _ hg))
      (by omega : (fs.flatMap encodeField).length ≤ k), Option.map_some]

/-- A message is read as the fields it was written from. -/
theorem fields_flatMap {fs : List Field} (h : ∀ f ∈ fs, Writable f) :
    fields (fs.flatMap encodeField) = some fs :=
  readFields_flatMap h le_rfl

/-! ### Looking up a field -/

/-- The characters of a sequence of bytes, if it is UTF-8. -/
def readUtf8 (bs : Bytes) : Option (List Char) := bs.toByteArray.utf8Decode?.map Array.toList

lemma readUtf8_utf8 (s : Js.JsString) : readUtf8 (Js.utf8 s) = some (Js.chars s) := by
  have h : (Js.utf8 s).toByteArray = (Js.chars s).utf8Encode := rfl
  rw [readUtf8, h, List.utf8Decode?_utf8Encode, Option.map_some]

/-- The values of field `num`, read by `read`; `none` if one of them cannot be read. -/
def values {α : Type} (read : Value → Option α) (num : ℕ) : List Field → Option (List α)
  | [] => some []
  | (k, v) :: fs =>
    if k = num then (read v).bind fun a => (values read num fs).map (a :: ·)
    else values read num fs

/-- The last value of a field, or its default. -/
def lastValue {α : Type} (default : α) (read : Value → Option α) (num : ℕ) (fs : List Field) :
    Option α :=
  (values read num fs).map fun vs => vs.getLastD default

def asString : Value → Option (List Char)
  | .bytes bs => readUtf8 bs
  | _ => none

def asUint (bits : ℕ) : Value → Option ℕ
  | .varint n => some (n % 2 ^ bits)
  | _ => none

def asBytes : Value → Option Bytes
  | .bytes bs => some bs
  | _ => none

/-- A field of type `bytes`. -/
def getBytes (num : ℕ) (fs : List Field) : Option Bytes := lastValue [] asBytes num fs

/-- A field that holds a message, if it occurs. Several occurrences are one message, whose bytes
they are one after the other. -/
def getMessage {M : Type} (decode : Bytes → Option M) (num : ℕ) (fs : List Field) :
    Option (Option M) :=
  (values asBytes num fs).bind fun vs =>
    if vs = [] then some none else (decode vs.flatten).map some

/-- A field of type `string`. -/
def getString (num : ℕ) (fs : List Field) : Option (List Char) := lastValue [] asString num fs

/-- A field of type `uint32` or `uint64`. -/
def getUint (bits num : ℕ) (fs : List Field) : Option ℕ := lastValue 0 (asUint bits) num fs

lemma asString_utf8 (s : Js.JsString) : asString (.bytes (Js.utf8 s)) = some (Js.chars s) :=
  readUtf8_utf8 s

/-- A field under a wire type it cannot have makes the message invalid. -/
lemma lastValue_eq_none {α : Type} {default : α} {read : Value → Option α} {num : ℕ} {v : Value}
    {fs : List Field} (hmem : (num, v) ∈ fs) (hv : read v = none) :
    lastValue default read num fs = none := by
  rw [lastValue, Option.map_eq_none_iff]
  induction fs with
  | nil => cases hmem
  | cons f fs ih =>
    obtain ⟨k, w⟩ := f
    rw [values]
    rcases List.mem_cons.mp hmem with heq | hmem
    · obtain ⟨rfl, rfl⟩ := Prod.mk.inj heq
      rw [if_pos rfl, hv, Option.bind_none]
    · split
      · rw [ih hmem]
        cases read w <;> rfl
      · exact ih hmem

end Protobuf
