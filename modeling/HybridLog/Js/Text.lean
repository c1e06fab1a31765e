import Mathlib.Data.List.Sort
import Mathlib.Data.List.Basic

/-!
# JavaScript strings

A string is a list of UTF-16 code units, and nothing forces its surrogates to come in pairs.
Encoding to UTF-8 reads a lone surrogate as U+FFFD, so it forgets something exactly on strings
that are not well formed.
-/

namespace Js

abbrev JsString := List UInt16

/-! ### Surrogates -/

def isHigh (c : UInt16) : Bool := 0xd800 ≤ c.toNat && c.toNat < 0xdc00

def isLow (c : UInt16) : Bool := 0xdc00 ≤ c.toNat && c.toNat < 0xe000

def isSurrogate (c : UInt16) : Bool := isHigh c || isLow c

/-- Every surrogate is one half of a pair. -/
def wellFormed : JsString → Bool
  | [] => true
  | [c] => !isSurrogate c
  | c :: d :: rest =>
    if isHigh c && isLow d then wellFormed rest else !isSurrogate c && wellFormed (d :: rest)

/-- The code units of one character. -/
def utf16Encode (c : Char) : JsString :=
  if c.toNat < 0x10000 then [UInt16.ofNat c.toNat]
  else [UInt16.ofNat (0xd800 + (c.toNat - 0x10000) / 0x400),
    UInt16.ofNat (0xdc00 + (c.toNat - 0x10000) % 0x400)]

/-- A string literal. -/
def ofString (s : String) : JsString := s.toList.flatMap utf16Encode

/-! ### Characters and bytes -/

def unitChar (c : UInt16) : Char :=
  if isSurrogate c then '\uFFFD' else Char.ofNat c.toNat

def pairChar (c d : UInt16) : Char :=
  Char.ofNat (0x10000 + (c.toNat - 0xd800) * 0x400 + (d.toNat - 0xdc00))

/-- The characters of a string. -/
def chars : JsString → List Char
  | [] => []
  | [c] => [unitChar c]
  | c :: d :: rest =>
    if isHigh c && isLow d then pairChar c d :: chars rest else unitChar c :: chars (d :: rest)

/-- The bytes of a string in UTF-8. -/
def utf8 (s : JsString) : List UInt8 := (chars s).flatMap String.utf8EncodeChar

/-! ### Well-formed strings are determined by their bytes -/

lemma isSurrogate_eq_false {c : UInt16} :
    isSurrogate c = false ↔ c.toNat < 0xd800 ∨ 0xe000 ≤ c.toNat := by
  simp only [isSurrogate, isHigh, isLow, Bool.or_eq_false_iff, Bool.and_eq_false_iff,
    decide_eq_false_iff_not]
  omega

lemma toNat_ofNat_char {n : ℕ} (h : n.isValidChar) : (Char.ofNat n).toNat = n := by
  unfold Char.ofNat
  rw [dif_pos h]
  rfl

lemma utf16Encode_unitChar {c : UInt16} (h : isSurrogate c = false) :
    utf16Encode (unitChar c) = [c] := by
  have hc := c.toNat_lt
  rw [isSurrogate_eq_false] at h
  have hval : (Char.ofNat c.toNat).toNat = c.toNat :=
    toNat_ofNat_char (by simp only [Nat.isValidChar]; omega)
  rw [unitChar, if_neg (by rw [Bool.not_eq_true, isSurrogate_eq_false]; exact h), utf16Encode,
    hval, if_pos (by omega)]
  simp

lemma utf16Encode_pairChar {c d : UInt16} (hc : isHigh c = true) (hd : isLow d = true) :
    utf16Encode (pairChar c d) = [c, d] := by
  simp only [isHigh, isLow, Bool.and_eq_true, decide_eq_true_eq] at hc hd
  have hval : (pairChar c d).toNat = 0x10000 + (c.toNat - 0xd800) * 0x400 + (d.toNat - 0xdc00) :=
    toNat_ofNat_char (by simp only [Nat.isValidChar]; omega)
  have hsub : 0x10000 + (c.toNat - 0xd800) * 0x400 + (d.toNat - 0xdc00) - 0x10000
      = (c.toNat - 0xd800) * 0x400 + (d.toNat - 0xdc00) := by omega
  have hhigh : 0xd800 + ((c.toNat - 0xd800) * 0x400 + (d.toNat - 0xdc00)) / 0x400 = c.toNat := by
    omega
  have hlow : 0xdc00 + ((c.toNat - 0xd800) * 0x400 + (d.toNat - 0xdc00)) % 0x400 = d.toNat := by
    omega
  rw [utf16Encode, hval, if_neg (by omega), hsub, hhigh, hlow]
  simp

/-- Reading a well-formed string as characters loses nothing. -/
lemma utf16Encode_chars (s : JsString) (h : wellFormed s = true) :
    (chars s).flatMap utf16Encode = s := by
  induction s using chars.induct with
  | case1 => rfl
  | case2 c =>
    simp only [wellFormed, Bool.not_eq_true'] at h
    simp [chars, utf16Encode_unitChar h]
  | case3 c d rest hcd ih =>
    simp only [wellFormed, hcd, if_true] at h
    rw [Bool.and_eq_true] at hcd
    simp [chars, hcd, utf16Encode_pairChar hcd.1 hcd.2, ih h]
  | case4 c d rest hcd ih =>
    simp only [wellFormed, hcd, Bool.false_eq_true, if_false, Bool.and_eq_true,
      Bool.not_eq_true'] at h
    simp [chars, hcd, utf16Encode_unitChar h.1, ih h.2]

lemma utf8Encode_injective {l l' : List Char}
    (h : l.flatMap String.utf8EncodeChar = l'.flatMap String.utf8EncodeChar) : l = l' := by
  have hbytes : l.utf8Encode = l'.utf8Encode := congrArg List.toByteArray h
  have hdec : some l.toArray = some l'.toArray := by
    rw [← List.utf8Decode?_utf8Encode, ← List.utf8Decode?_utf8Encode, hbytes]
  exact congrArg Array.toList (Option.some.inj hdec)

theorem utf8_injective {s s' : JsString} (hs : wellFormed s = true) (hs' : wellFormed s' = true)
    (h : utf8 s = utf8 s') : s = s' := by
  rw [← utf16Encode_chars s hs, ← utf16Encode_chars s' hs', utf8Encode_injective h]

lemma wellFormed_append (s s' : JsString) (h : wellFormed s = true) :
    wellFormed (s ++ s') = wellFormed s' := by
  induction s using wellFormed.induct with
  | case1 => rfl
  | case2 c =>
    have hc : isSurrogate c = false := by simpa [wellFormed] using h
    have hh : isHigh c = false := by
      rw [isSurrogate, Bool.or_eq_false_iff] at hc
      exact hc.1
    cases s' with
    | nil => simp [wellFormed, hc]
    | cons d rest => simp [wellFormed, hc, hh]
  | case3 c d rest hcd ih =>
    simp only [wellFormed, hcd, if_true] at h
    simp [wellFormed, hcd, ih h]
  | case4 c d rest hcd ih =>
    simp only [wellFormed, hcd, Bool.false_eq_true, if_false, Bool.and_eq_true] at h
    have hrec := ih h.2
    rw [List.cons_append] at hrec
    simp only [List.cons_append, wellFormed, hcd, Bool.false_eq_true, if_false, h.1,
      Bool.true_and, hrec]

/-- A pair of surrogates is one character outside ASCII. -/
lemma two_le_pairChar {c d : UInt16} (h : (isHigh c && isLow d) = true) :
    2 ≤ (String.utf8EncodeChar (pairChar c d)).length := by
  simp only [isHigh, isLow, Bool.and_eq_true, decide_eq_true_eq] at h
  have hval : (pairChar c d).toNat = 0x10000 + (c.toNat - 0xd800) * 0x400 + (d.toNat - 0xdc00) :=
    toNat_ofNat_char (by simp only [Nat.isValidChar]; omega)
  have hne : (pairChar c d).utf8Size ≠ 1 := by
    rw [Ne, Char.utf8Size_eq_one_iff, UInt32.le_iff_toNat_le]
    have h127 : (127 : UInt32).toNat = 127 := rfl
    have hnat : (pairChar c d).val.toNat = (pairChar c d).toNat := rfl
    omega
  have hpos := Char.utf8Size_pos (pairChar c d)
  rw [String.length_utf8EncodeChar]
  omega

/-- A character takes at most four bytes. -/
lemma length_utf8_le (s : JsString) : (utf8 s).length ≤ 4 * s.length := by
  have hfour (c : Char) : (String.utf8EncodeChar c).length ≤ 4 := by
    rw [String.length_utf8EncodeChar]
    exact Char.utf8Size_le_four c
  induction s using chars.induct with
  | case1 => exact Nat.le_refl 0
  | case2 c =>
    have := hfour (unitChar c)
    simpa only [utf8, chars, List.flatMap_cons, List.flatMap_nil, List.append_nil,
      List.length_singleton, Nat.mul_one] using this
  | case3 c d rest hcd ih =>
    have := hfour (pairChar c d)
    simp only [utf8, chars, hcd, if_true, List.flatMap_cons, List.length_append,
      List.length_cons] at ih ⊢
    omega
  | case4 c d rest hcd ih =>
    have := hfour (unitChar c)
    simp only [utf8, chars, hcd, Bool.false_eq_true, if_false, List.flatMap_cons,
      List.length_append, List.length_cons] at ih ⊢
    omega

/-- UTF-8 is at least as long as UTF-16 in code units. -/
lemma length_le_utf8 (s : JsString) : s.length ≤ (utf8 s).length := by
  have hone (c : Char) : 1 ≤ (String.utf8EncodeChar c).length := by
    rw [String.length_utf8EncodeChar]
    exact Char.utf8Size_pos c
  induction s using chars.induct with
  | case1 => simp
  | case2 c =>
    have := hone (unitChar c)
    simpa only [utf8, chars, List.flatMap_cons, List.flatMap_nil, List.append_nil,
      List.length_singleton] using this
  | case3 c d rest hcd ih =>
    have := two_le_pairChar hcd
    simp only [utf8, chars, hcd, if_true, List.flatMap_cons, List.length_append,
      List.length_cons] at ih ⊢
    omega
  | case4 c d rest hcd ih =>
    have := hone (unitChar c)
    simp only [utf8, chars, hcd, Bool.false_eq_true, if_false, List.flatMap_cons,
      List.length_append, List.length_cons] at ih ⊢
    omega

/-! ### Strings of given characters -/

lemma chars_cons {c : UInt16} (hc : isHigh c = false) (s : JsString) :
    chars (c :: s) = unitChar c :: chars s := by
  cases s with
  | nil => rfl
  | cons d s => simp [chars, hc]

lemma chars_append_singleton {d : UInt16} (hd : isLow d = false) (s : JsString) :
    chars (s ++ [d]) = chars s ++ [unitChar d] := by
  induction s using chars.induct with
  | case1 => rfl
  | case2 c => simp [chars, hd]
  | case3 c c' rest h ih => simp [chars, h, ih]
  | case4 c c' rest h ih => simpa [chars, h] using ih

/-- The two halves of a character outside the basic plane. -/
lemma toNat_utf16Encode {c : Char} (h : 0x10000 ≤ c.toNat) :
    (UInt16.ofNat (0xd800 + (c.toNat - 0x10000) / 0x400)).toNat
        = 0xd800 + (c.toNat - 0x10000) / 0x400 ∧
      (UInt16.ofNat (0xdc00 + (c.toNat - 0x10000) % 0x400)).toNat
        = 0xdc00 + (c.toNat - 0x10000) % 0x400 := by
  have hvalid : c.toNat < 0xd800 ∨ 0xdfff < c.toNat ∧ c.toNat < 0x110000 := c.valid
  constructor <;> exact UInt16.toNat_ofNat_of_lt' (by unfold UInt16.size; omega)

lemma chars_utf16Encode_append (c : Char) (s : JsString) :
    chars (utf16Encode c ++ s) = c :: chars s := by
  have hvalid : c.toNat < 0xd800 ∨ 0xdfff < c.toNat ∧ c.toNat < 0x110000 := c.valid
  rw [utf16Encode]
  split
  · rename_i h
    have hnat : (UInt16.ofNat c.toNat).toNat = c.toNat := UInt16.toNat_ofNat_of_lt' h
    have hsur : isSurrogate (UInt16.ofNat c.toNat) = false := by
      rw [isSurrogate_eq_false, hnat]
      omega
    rw [List.cons_append, List.nil_append, chars_cons (Bool.or_eq_false_iff.mp hsur).1, unitChar,
      if_neg (by rw [hsur]; exact Bool.false_ne_true), hnat, Char.ofNat_toNat]
  · rename_i h
    obtain ⟨hhigh, hlow⟩ := toNat_utf16Encode (Nat.le_of_not_lt h)
    have hpair : (isHigh (UInt16.ofNat (0xd800 + (c.toNat - 0x10000) / 0x400))
        && isLow (UInt16.ofNat (0xdc00 + (c.toNat - 0x10000) % 0x400))) = true := by
      simp only [isHigh, isLow, hhigh, hlow, Bool.and_eq_true, decide_eq_true_eq]
      omega
    have hnat : 0x10000 + (0xd800 + (c.toNat - 0x10000) / 0x400 - 0xd800) * 0x400
        + (0xdc00 + (c.toNat - 0x10000) % 0x400 - 0xdc00) = c.toNat := by omega
    rw [List.cons_append, List.cons_append, List.nil_append, chars, if_pos hpair, pairChar, hhigh,
      hlow, hnat, Char.ofNat_toNat]

/-- Every text is that of some string. -/
lemma chars_flatMap_utf16Encode (t : List Char) : chars (t.flatMap utf16Encode) = t := by
  induction t with
  | nil => rfl
  | cons c t ih => rw [List.flatMap_cons, chars_utf16Encode_append, ih]

/-! ### Replacing lone surrogates -/

/-- `toWellFormed`: what is left of a string that is encoded to UTF-8. -/
def toWellFormed (s : JsString) : JsString := (chars s).flatMap utf16Encode

lemma toWellFormed_eq_self {s : JsString} (h : wellFormed s = true) : toWellFormed s = s :=
  utf16Encode_chars s h

lemma wellFormed_utf16Encode (c : Char) : wellFormed (utf16Encode c) = true := by
  have hvalid : c.toNat < 0xd800 ∨ 0xdfff < c.toNat ∧ c.toNat < 0x110000 := c.valid
  rw [utf16Encode]
  split
  · rename_i h
    have hnat : (UInt16.ofNat c.toNat).toNat = c.toNat := UInt16.toNat_ofNat_of_lt' h
    rw [wellFormed, Bool.not_eq_true', isSurrogate_eq_false, hnat]
    omega
  · rename_i h
    obtain ⟨hhigh, hlow⟩ := toNat_utf16Encode (Nat.le_of_not_lt h)
    simp only [wellFormed, isHigh, isLow, hhigh, hlow]
    rw [if_pos]
    simp only [Bool.and_eq_true, decide_eq_true_eq]
    omega

lemma wellFormed_toWellFormed_str (s : JsString) : wellFormed (toWellFormed s) = true := by
  rw [toWellFormed]
  induction chars s with
  | nil => rfl
  | cons c t ih => rw [List.flatMap_cons, wellFormed_append _ _ (wellFormed_utf16Encode c), ih]

lemma toWellFormed_eq_iff {s : JsString} : toWellFormed s = s ↔ wellFormed s = true :=
  ⟨fun h => h ▸ wellFormed_toWellFormed_str s, toWellFormed_eq_self⟩

end Js
