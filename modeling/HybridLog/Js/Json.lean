import HybridLog.Js.Number

/-!
# JSON

`Json.text` is `JSON.stringify`: strings are quoted with lone surrogates escaped, so a text is
always well formed, and a number that is not finite is written as `null`. `parseValue` reads a
text back, which shows that nothing else is lost.
-/

namespace Js

/-- A JSON value. The members of an object are listed in the order of its own properties. -/
inductive Json
  | null
  | bool (b : Bool)
  | num (n : JsNumber)
  | str (s : JsString)
  | arr (xs : List Json)
  | obj (ms : List (JsString × Json))

mutual

def Json.decEq : (j j' : Json) → Decidable (j = j')
  | .null, .null => isTrue rfl
  | .bool b, .bool b' => decidable_of_iff (b = b') (by simp)
  | .num n, .num n' => decidable_of_iff (n = n') (by simp)
  | .str s, .str s' => decidable_of_iff (s = s') (by simp)
  | .arr xs, .arr ys =>
    have := elemsDecEq xs ys
    decidable_of_iff (xs = ys) (by simp)
  | .obj ms, .obj ns =>
    have := membersDecEq ms ns
    decidable_of_iff (ms = ns) (by simp)
  | .null, .bool _ | .null, .num _ | .null, .str _ | .null, .arr _ | .null, .obj _
  | .bool _, .null | .bool _, .num _ | .bool _, .str _ | .bool _, .arr _ | .bool _, .obj _
  | .num _, .null | .num _, .bool _ | .num _, .str _ | .num _, .arr _ | .num _, .obj _
  | .str _, .null | .str _, .bool _ | .str _, .num _ | .str _, .arr _ | .str _, .obj _
  | .arr _, .null | .arr _, .bool _ | .arr _, .num _ | .arr _, .str _ | .arr _, .obj _
  | .obj _, .null | .obj _, .bool _ | .obj _, .num _ | .obj _, .str _ | .obj _, .arr _ =>
    isFalse nofun

def elemsDecEq : (xs ys : List Json) → Decidable (xs = ys)
  | [], [] => isTrue rfl
  | x :: xs, y :: ys =>
    have := Json.decEq x y
    have := elemsDecEq xs ys
    decidable_of_iff (x = y ∧ xs = ys) (by simp)
  | [], _ :: _ | _ :: _, [] => isFalse nofun

def membersDecEq : (ms ns : List (JsString × Json)) → Decidable (ms = ns)
  | [], [] => isTrue rfl
  | (k, v) :: ms, (k', v') :: ns =>
    have := Json.decEq v v'
    have := membersDecEq ms ns
    decidable_of_iff ((k = k' ∧ v = v') ∧ ms = ns) (by simp)
  | [], _ :: _ | _ :: _, [] => isFalse nofun

end

instance : DecidableEq Json := Json.decEq

/-! ### Quoting -/

def hexUnit (n : ℕ) : UInt16 := if n < 10 then UInt16.ofNat (0x30 + n) else UInt16.ofNat (0x57 + n)

def unicodeEscape (c : UInt16) : JsString :=
  [0x5c, 0x75, hexUnit (c.toNat / 4096), hexUnit (c.toNat / 256 % 16),
    hexUnit (c.toNat / 16 % 16), hexUnit (c.toNat % 16)]

/-- The escapes of one letter: the unit that is escaped and the letter. -/
def shortEscapes : List (UInt16 × UInt16) :=
  [(0x08, 0x62), (0x09, 0x74), (0x0a, 0x6e), (0x0c, 0x66), (0x0d, 0x72), (0x22, 0x22),
    (0x5c, 0x5c)]

/-- One code unit inside a quoted string, if it is not half of a surrogate pair. -/
def quoteUnit (c : UInt16) : JsString :=
  match shortEscapes.lookup c with
  | some e => [0x5c, e]
  | none => if c.toNat < 0x20 || isSurrogate c then unicodeEscape c else [c]

def quoteUnits : JsString → JsString
  | [] => []
  | [c] => quoteUnit c
  | c :: d :: rest =>
    if isHigh c && isLow d then c :: d :: quoteUnits rest else quoteUnit c ++ quoteUnits (d :: rest)

def quote (s : JsString) : JsString := 0x22 :: quoteUnits s ++ [0x22]

/-! ### Text -/

def JsNumber.text (n : JsNumber) : JsString :=
  match n.literal? with
  | some l => l.text
  | none => [0x6e, 0x75, 0x6c, 0x6c]

mutual

/-- `JSON.stringify`. -/
def Json.text : Json → JsString
  | .null => [0x6e, 0x75, 0x6c, 0x6c]
  | .bool true => [0x74, 0x72, 0x75, 0x65]
  | .bool false => [0x66, 0x61, 0x6c, 0x73, 0x65]
  | .num n => n.text
  | .str s => quote s
  | .arr xs => 0x5b :: (elemsText xs ++ [0x5d])
  | .obj ms => 0x7b :: (membersText ms ++ [0x7d])

def elemsText : List Json → JsString
  | [] => []
  | [x] => x.text
  | x :: y :: ys => x.text ++ 0x2c :: elemsText (y :: ys)

def membersText : List (JsString × Json) → JsString
  | [] => []
  | [(k, v)] => quote k ++ 0x3a :: v.text
  | (k, v) :: m :: ms => quote k ++ 0x3a :: (v.text ++ 0x2c :: membersText (m :: ms))

end

mutual

/-- The value a text stands for: numbers that are not finite have become `null`. -/
def Json.finite : Json → Json
  | .num (.inf _) => .null
  | .arr xs => .arr (finiteElems xs)
  | .obj ms => .obj (finiteMembers ms)
  | j => j

def finiteElems : List Json → List Json
  | [] => []
  | x :: xs => x.finite :: finiteElems xs

def finiteMembers : List (JsString × Json) → List (JsString × Json)
  | [] => []
  | (k, v) :: ms => (k, v.finite) :: finiteMembers ms

end

/-! ### Reading a text -/

def hexValue? (c : UInt16) : Option ℕ :=
  if 0x30 ≤ c.toNat ∧ c.toNat < 0x3a then some (c.toNat - 0x30)
  else if 0x61 ≤ c.toNat ∧ c.toNat < 0x67 then some (c.toNat - 0x57)
  else if 0x41 ≤ c.toNat ∧ c.toNat < 0x47 then some (c.toNat - 0x37)
  else none

def readHex (a b c d : UInt16) : Option UInt16 := do
  let a ← hexValue? a
  let b ← hexValue? b
  let c ← hexValue? c
  let d ← hexValue? d
  return UInt16.ofNat (a * 4096 + b * 256 + c * 16 + d)

/-- The unit that an escape of one letter stands for. -/
def readShort (e : UInt16) : Option UInt16 :=
  if e = 0x2f then some 0x2f else (shortEscapes.find? fun p => p.2 = e).map Prod.fst

/-- A quoted string after its opening quote. -/
def readChars : JsString → Option (JsString × JsString)
  | [] => none
  | c :: rest =>
    if c = 0x22 then some ([], rest)
    else if c = 0x5c then match rest with
      | [] => none
      | e :: rest =>
        if e = 0x75 then match rest with
          | a :: b :: c :: d :: rest =>
            (readHex a b c d).bind fun u => (readChars rest).map fun p => (u :: p.1, p.2)
          | _ => none
        else (readShort e).bind fun u => (readChars rest).map fun p => (u :: p.1, p.2)
    else if c.toNat < 0x20 then none
    else (readChars rest).map fun p => (c :: p.1, p.2)

def isSpace (c : UInt16) : Bool := c = 0x20 || c = 0x09 || c = 0x0a || c = 0x0d

def skipSpace (s : JsString) : JsString := s.dropWhile isSpace

/-- Read the keyword `word`, which stands for `j`. -/
def readWord (word : JsString) (j : Json) (s : JsString) : Option (Json × JsString) :=
  if word.isPrefixOf s then some (j, s.drop word.length) else none

mutual

def parseValue : ℕ → JsString → Option (Json × JsString)
  | 0, _ => none
  | n + 1, s => match skipSpace s with
    | [] => none
    | c :: rest =>
      if c = 0x22 then (readChars rest).map fun p => (.str p.1, p.2)
      else if c = 0x5b then match skipSpace rest with
        | [] => none
        | d :: rest' =>
          if d = 0x5d then some (.arr [], rest')
          else (parseElems n (d :: rest')).map fun p => (.arr p.1, p.2)
      else if c = 0x7b then match skipSpace rest with
        | [] => none
        | d :: rest' =>
          if d = 0x7d then some (.obj [], rest')
          else (parseMembers n (d :: rest')).map fun p => (.obj p.1, p.2)
      else if c = 0x6e then readWord [0x6e, 0x75, 0x6c, 0x6c] .null (c :: rest)
      else if c = 0x74 then readWord [0x74, 0x72, 0x75, 0x65] (.bool true) (c :: rest)
      else if c = 0x66 then readWord [0x66, 0x61, 0x6c, 0x73, 0x65] (.bool false) (c :: rest)
      else (readLiteral (c :: rest)).map fun p => (.num p.1.value, p.2)

def parseElems : ℕ → JsString → Option (List Json × JsString)
  | 0, _ => none
  | n + 1, s => (parseValue n s).bind fun (x, s) => match skipSpace s with
    | [] => none
    | c :: rest =>
      if c = 0x2c then (parseElems n rest).map fun p => (x :: p.1, p.2)
      else if c = 0x5d then some ([x], rest)
      else none

def parseMembers : ℕ → JsString → Option (List (JsString × Json) × JsString)
  | 0, _ => none
  | n + 1, s => match skipSpace s with
    | [] => none
    | c :: rest =>
      if c = 0x22 then (readChars rest).bind fun (k, s) => match skipSpace s with
        | [] => none
        | c :: rest =>
          if c = 0x3a then (parseValue n rest).bind fun (v, s) => match skipSpace s with
            | [] => none
            | c :: rest =>
              if c = 0x2c then (parseMembers n rest).map fun p => ((k, v) :: p.1, p.2)
              else if c = 0x7d then some ([(k, v)], rest)
              else none
          else none
      else none

end

/-! ### Reading back a quoted string -/

lemma hexValue?_hexUnit {n : ℕ} (h : n < 16) : hexValue? (hexUnit n) = some n := by
  have hall : ∀ m : Fin 16, hexValue? (hexUnit m) = some m.val := by decide
  exact hall ⟨n, h⟩

lemma readHex_unicodeEscape (c : UInt16) :
    readHex (hexUnit (c.toNat / 4096)) (hexUnit (c.toNat / 256 % 16))
      (hexUnit (c.toNat / 16 % 16)) (hexUnit (c.toNat % 16)) = some c := by
  have hc := c.toNat_lt
  have hval : c.toNat / 4096 * 4096 + c.toNat / 256 % 16 * 256 + c.toNat / 16 % 16 * 16
      + c.toNat % 16 = c.toNat := by omega
  simp only [readHex, hexValue?_hexUnit (show c.toNat / 4096 < 16 by omega),
    hexValue?_hexUnit (show c.toNat / 256 % 16 < 16 by omega),
    hexValue?_hexUnit (show c.toNat / 16 % 16 < 16 by omega),
    hexValue?_hexUnit (show c.toNat % 16 < 16 by omega), Option.bind_eq_bind, Option.bind_some,
    Option.pure_def, hval, UInt16.ofNat_toNat]

lemma readChars_plain {c : UInt16} (h : shortEscapes.lookup c = none) (hc : 0x20 ≤ c.toNat)
    (rest : JsString) :
    readChars (c :: rest) = (readChars rest).map fun p => (c :: p.1, p.2) := by
  have h22 : c ≠ 0x22 := by rintro rfl; revert h; decide
  have h5c : c ≠ 0x5c := by rintro rfl; revert h; decide
  rw [readChars.eq_def]
  simp only [if_neg h22, if_neg h5c, if_neg (show ¬c.toNat < 0x20 by omega)]

lemma readChars_end (rest : JsString) : readChars (0x22 :: rest) = some ([], rest) := by
  rw [readChars.eq_def]
  simp only [if_true]

lemma readChars_short {c e : UInt16} (h75 : e ≠ 0x75) (h : readShort e = some c)
    (rest : JsString) :
    readChars (0x5c :: e :: rest) = (readChars rest).map fun p => (c :: p.1, p.2) := by
  have h22 : (0x5c : UInt16) ≠ 0x22 := by decide
  rw [readChars.eq_def]
  simp only [if_neg h22, if_true, if_neg h75, h, Option.bind_some]

lemma readChars_unicode (c : UInt16) (rest : JsString) :
    readChars (unicodeEscape c ++ rest) = (readChars rest).map fun p => (c :: p.1, p.2) := by
  have h22 : (0x5c : UInt16) ≠ 0x22 := by decide
  rw [unicodeEscape, readChars.eq_def]
  simp only [List.cons_append, List.nil_append, if_neg h22, if_true, readHex_unicodeEscape,
    Option.bind_some]

/-- The short escapes are read back, and none of their letters begins a `\u` escape. -/
lemma readShort_lookup {c e : UInt16} (h : shortEscapes.lookup c = some e) :
    e ≠ 0x75 ∧ readShort e = some c := by
  have hall : shortEscapes.all (fun p => p.2 ≠ 0x75 ∧ readShort p.2 = some p.1) = true := by decide
  have hmem : (c, e) ∈ shortEscapes := by
    obtain ⟨l, l', hl, _⟩ := List.lookup_eq_some_iff.mp h
    rw [hl]
    simp
  simpa using List.all_eq_true.mp hall _ hmem

lemma readChars_quoteUnit (c : UInt16) (rest : JsString) :
    readChars (quoteUnit c ++ rest) = (readChars rest).map fun p => (c :: p.1, p.2) := by
  rw [quoteUnit]
  split
  · next e he =>
    obtain ⟨h75, hread⟩ := readShort_lookup he
    exact readChars_short h75 hread rest
  · next he =>
    split
    · exact readChars_unicode c rest
    · next hc =>
      simp only [Bool.or_eq_true, decide_eq_true_eq, not_or, not_lt] at hc
      exact readChars_plain he hc.1 rest

/-- Surrogates have no short escape. -/
lemma lookup_surrogate {c : UInt16} (h : isSurrogate c = true) :
    shortEscapes.lookup c = none ∧ 0x20 ≤ c.toNat := by
  have hge : 0xd800 ≤ c.toNat := by
    by_contra hlt
    rw [isSurrogate_eq_false.mpr (.inl (by omega))] at h
    exact absurd h (by decide)
  refine ⟨List.lookup_eq_none_iff.mpr fun p hp => ?_, by omega⟩
  have hall : shortEscapes.all (fun p => p.1.toNat < 0xd800) = true := by decide
  have hlt : p.1.toNat < 0xd800 := by simpa using List.all_eq_true.mp hall p hp
  rw [bne_iff_ne]
  rintro rfl
  omega

lemma readChars_quoteUnits (s rest : JsString) :
    readChars (quoteUnits s ++ 0x22 :: rest) = some (s, rest) := by
  induction s using quoteUnits.induct with
  | case1 => exact readChars_end rest
  | case2 c => rw [quoteUnits, readChars_quoteUnit, readChars_end, Option.map_some]
  | case3 c d tail hcd ih =>
    have hpair := hcd
    rw [Bool.and_eq_true] at hpair
    have hc := lookup_surrogate (c := c) (by simp [isSurrogate, hpair.1])
    have hd := lookup_surrogate (c := d) (by simp [isSurrogate, hpair.2])
    rw [quoteUnits, if_pos hcd, List.cons_append, List.cons_append, readChars_plain hc.1 hc.2,
      readChars_plain hd.1 hd.2, ih]
    rfl
  | case4 c d tail hcd ih =>
    rw [quoteUnits, if_neg hcd, List.append_assoc, readChars_quoteUnit, ih, Option.map_some]

/-! ### Reading back a value -/

lemma skipSpace_cons {c : UInt16} (h : isSpace c = false) (rest : JsString) :
    skipSpace (c :: rest) = c :: rest := by
  simp [skipSpace, h]

lemma readWord_append (word : JsString) (j : Json) (rest : JsString) :
    readWord word j (word ++ rest) = some (j, rest) := by
  simp [readWord]

/-- What a number begins with. -/
def startsNumber (c : UInt16) : Prop := c = 0x2d ∨ ∃ d, c = digitUnit d

lemma startsNumber.ne {c : UInt16} (h : startsNumber c) :
    isSpace c = false ∧ c ≠ 0x22 ∧ c ≠ 0x5b ∧ c ≠ 0x5d ∧ c ≠ 0x7b ∧ c ≠ 0x6e ∧ c ≠ 0x74 ∧
      c ≠ 0x66 := by
  rcases h with rfl | ⟨d, rfl⟩
  · decide
  · revert d
    decide

lemma Literal.text_head {l : Literal} (h : l.Proper) :
    ∃ c rest, l.text = c :: rest ∧ startsNumber c := by
  obtain ⟨neg, int, frac, exp⟩ := l
  obtain ⟨hne, _⟩ := h
  cases neg with
  | true => exact ⟨_, _, rfl, .inl rfl⟩
  | false => cases int with
    | nil => exact absurd rfl hne
    | cons d ds => exact ⟨_, _, rfl, .inr ⟨d, rfl⟩⟩

lemma JsNumber.literal?_proper {n : JsNumber} {l : Literal} (h : n.literal? = some l) :
    l.Proper ∧ l.value = n := by
  cases n with
  | zero =>
    cases h
    exact ⟨⟨by simp, fun _ => rfl⟩, rfl⟩
  | fin d =>
    cases h
    exact ⟨d.literal_proper, d.value_literal⟩
  | inf neg => cases h

/-- Every text begins with a unit that is neither white space nor a closing bracket. -/
lemma Json.text_head (j : Json) : ∃ c rest, j.text = c :: rest ∧ isSpace c = false ∧ c ≠ 0x5d := by
  cases j with
  | null => exact ⟨_, _, rfl, by decide, by decide⟩
  | bool b => cases b <;> exact ⟨_, _, rfl, by decide, by decide⟩
  | str s => exact ⟨_, _, rfl, by decide, by decide⟩
  | arr xs => exact ⟨_, _, rfl, by decide, by decide⟩
  | obj ms => exact ⟨_, _, rfl, by decide, by decide⟩
  | num n =>
    rw [Json.text, JsNumber.text]
    cases hl : n.literal? with
    | none => exact ⟨_, _, rfl, by decide, by decide⟩
    | some l =>
      obtain ⟨c, rest, htext, hc⟩ := Literal.text_head (JsNumber.literal?_proper hl).1
      exact ⟨c, rest, htext, hc.ne.1, hc.ne.2.2.2.1⟩

lemma Json.text_length_pos (j : Json) : 0 < j.text.length := by
  obtain ⟨c, rest, h, _⟩ := j.text_head
  simp [h]

lemma elemsText_head (x : Json) (xs : List Json) :
    ∃ c rest, elemsText (x :: xs) = c :: rest ∧ isSpace c = false ∧ c ≠ 0x5d := by
  obtain ⟨c, rest, h, hc⟩ := x.text_head
  cases xs with
  | nil => exact ⟨c, rest, h, hc⟩
  | cons y ys => exact ⟨c, _, by rw [elemsText, h]; rfl, hc⟩

lemma membersText_head (m : JsString × Json) (ms : List (JsString × Json)) :
    ∃ rest, membersText (m :: ms) = 0x22 :: rest := by
  obtain ⟨k, v⟩ := m
  cases ms with
  | nil => exact ⟨_, rfl⟩
  | cons m ms => exact ⟨_, rfl⟩

lemma endsNumber_cons {c : UInt16} (h : c = 0x2c ∨ c = 0x5d ∨ c = 0x7d) (rest : JsString) :
    endsNumber (c :: rest) := by
  rintro d ⟨⟩
  rcases h with rfl | rfl | rfl <;> decide

lemma parseValue_num {n : ℕ} (x : JsNumber) {rest : JsString} (h : endsNumber rest) :
    parseValue (n + 1) (x.text ++ rest) = some ((Json.num x).finite, rest) := by
  rw [JsNumber.text]
  cases hl : x.literal? with
  | none =>
    cases x with
    | inf neg => exact readWord_append [0x6e, 0x75, 0x6c, 0x6c] .null rest
    | zero => cases hl
    | fin d => cases hl
  | some l =>
    obtain ⟨hproper, hvalue⟩ := JsNumber.literal?_proper hl
    have hfinite : (Json.num x).finite = .num x := by cases x <;> first | rfl | cases hl
    have hread := readLiteral_append hproper h
    obtain ⟨c, tail, htext, hc⟩ := Literal.text_head hproper
    obtain ⟨hs, h22, h5b, _, h7b, h6e, h74, h66⟩ := hc.ne
    rw [htext, List.cons_append] at hread
    simp only [htext, List.cons_append, parseValue, skipSpace_cons hs,
      if_neg h22, if_neg h5b, if_neg h7b, if_neg h6e,
      if_neg h74, if_neg h66, hread, Option.map_some, hvalue, hfinite]

mutual

/-- Reading a text gives back the value up to its numbers that are not finite. -/
theorem parseValue_text : ∀ (j : Json) (n : ℕ) (rest : JsString), j.text.length ≤ n →
    endsNumber rest → parseValue n (j.text ++ rest) = some (j.finite, rest)
  | j, 0, _, hn, _ => absurd j.text_length_pos (by omega)
  | .null, n + 1, rest, _, _ => readWord_append [0x6e, 0x75, 0x6c, 0x6c] .null rest
  | .bool true, n + 1, rest, _, _ => readWord_append [0x74, 0x72, 0x75, 0x65] (.bool true) rest
  | .bool false, n + 1, rest, _, _ =>
    readWord_append [0x66, 0x61, 0x6c, 0x73, 0x65] (.bool false) rest
  | .num x, n + 1, rest, _, h => parseValue_num x h
  | .str s, n + 1, rest, _, _ => by
    have hs : isSpace 0x22 = false := by decide
    simp only [Json.text, quote, List.cons_append, List.append_assoc, List.nil_append, parseValue,
      skipSpace_cons hs, if_true, readChars_quoteUnits, Option.map_some, Json.finite]
  | .arr [], n + 1, rest, _, _ => by
    have hs : isSpace 0x5b = false := by decide
    have hs' : isSpace 0x5d = false := by decide
    have h22 : (0x5b : UInt16) ≠ 0x22 := by decide
    simp only [Json.text, elemsText, List.nil_append, List.cons_append, parseValue,
      skipSpace_cons hs, skipSpace_cons hs', if_neg h22, if_true, Json.finite, finiteElems]
  | .arr (x :: xs), n + 1, rest, hn, _ => by
    have hs : isSpace 0x5b = false := by decide
    have h22 : (0x5b : UInt16) ≠ 0x22 := by decide
    obtain ⟨c, tail, htext, hc, h5d⟩ := elemsText_head x xs
    simp only [Json.text, List.length_cons, List.length_append, List.length_nil] at hn
    have hrec := parseElems_text x xs n rest (by omega)
    rw [htext, List.cons_append] at hrec
    simp only [Json.text, htext, List.cons_append, List.append_assoc, List.nil_append, parseValue,
      skipSpace_cons hs, skipSpace_cons hc, if_neg h22, if_true, if_neg h5d, hrec,
      Option.map_some, Json.finite]
  | .obj [], n + 1, rest, _, _ => by
    have hs : isSpace 0x7b = false := by decide
    have hs' : isSpace 0x7d = false := by decide
    have h22 : (0x7b : UInt16) ≠ 0x22 := by decide
    have h5b : (0x7b : UInt16) ≠ 0x5b := by decide
    simp only [Json.text, membersText, List.nil_append, List.cons_append, parseValue,
      skipSpace_cons hs, skipSpace_cons hs', if_neg h22, if_neg h5b, if_true, Json.finite,
      finiteMembers]
  | .obj (m :: ms), n + 1, rest, hn, _ => by
    have hs : isSpace 0x7b = false := by decide
    have hs' : isSpace 0x22 = false := by decide
    have h22 : (0x7b : UInt16) ≠ 0x22 := by decide
    have h5b : (0x7b : UInt16) ≠ 0x5b := by decide
    have h7d : (0x22 : UInt16) ≠ 0x7d := by decide
    obtain ⟨tail, htext⟩ := membersText_head m ms
    simp only [Json.text, List.length_cons, List.length_append, List.length_nil] at hn
    have hrec := parseMembers_text m ms n rest (by omega)
    rw [htext, List.cons_append] at hrec
    simp only [Json.text, htext, List.cons_append, List.append_assoc, List.nil_append, parseValue,
      skipSpace_cons hs, skipSpace_cons hs', if_neg h22, if_neg h5b, if_true, if_neg h7d, hrec,
      Option.map_some, Json.finite]

theorem parseElems_text : ∀ (x : Json) (xs : List Json) (n : ℕ) (rest : JsString),
    (elemsText (x :: xs)).length < n →
      parseElems n (elemsText (x :: xs) ++ 0x5d :: rest) = some (finiteElems (x :: xs), rest)
  | _, _, 0, _, hn => absurd hn (by omega)
  | x, [], n + 1, rest, hn => by
    have hs : isSpace 0x5d = false := by decide
    have h2c : (0x5d : UInt16) ≠ 0x2c := by decide
    have hx := parseValue_text x n (0x5d :: rest) (by simp only [elemsText] at hn; omega)
      (endsNumber_cons (by simp) rest)
    simp only [elemsText, parseElems, hx, Option.bind_some, skipSpace_cons hs, if_neg h2c, if_true,
      finiteElems]
  | x, y :: ys, n + 1, rest, hn => by
    have hs : isSpace 0x2c = false := by decide
    simp only [elemsText, List.length_append, List.length_cons] at hn
    have hx := parseValue_text x n (0x2c :: (elemsText (y :: ys) ++ 0x5d :: rest)) (by omega)
      (endsNumber_cons (by simp) _)
    have hpos := x.text_length_pos
    have hrec := parseElems_text y ys n rest (by omega)
    simp only [elemsText, List.append_assoc, List.cons_append, parseElems, hx, Option.bind_some,
      skipSpace_cons hs, if_true, hrec, Option.map_some, finiteElems]

theorem parseMembers_text : ∀ (m : JsString × Json) (ms : List (JsString × Json)) (n : ℕ)
    (rest : JsString), (membersText (m :: ms)).length < n →
      parseMembers n (membersText (m :: ms) ++ 0x7d :: rest) =
        some (finiteMembers (m :: ms), rest)
  | _, _, 0, _, hn => absurd hn (by omega)
  | (k, v), [], n + 1, rest, hn => by
    have hs : isSpace 0x22 = false := by decide
    have hs' : isSpace 0x3a = false := by decide
    have hs'' : isSpace 0x7d = false := by decide
    have h2c : (0x7d : UInt16) ≠ 0x2c := by decide
    simp only [membersText, List.length_append, List.length_cons] at hn
    have hv := parseValue_text v n (0x7d :: rest) (by omega) (endsNumber_cons (by simp) rest)
    simp only [membersText, quote, List.cons_append, List.append_assoc, List.nil_append,
      parseMembers, skipSpace_cons hs, if_true, readChars_quoteUnits, Option.bind_some,
      skipSpace_cons hs', hv, skipSpace_cons hs'', if_neg h2c, finiteMembers]
  | (k, v), m :: ms, n + 1, rest, hn => by
    have hs : isSpace 0x22 = false := by decide
    have hs' : isSpace 0x3a = false := by decide
    have hs'' : isSpace 0x2c = false := by decide
    simp only [membersText, List.length_append, List.length_cons] at hn
    have hv := parseValue_text v n (0x2c :: (membersText (m :: ms) ++ 0x7d :: rest)) (by omega)
      (endsNumber_cons (by simp) _)
    have hrec := parseMembers_text m ms n rest (by omega)
    simp only [membersText, quote, List.cons_append, List.append_assoc, List.nil_append,
      parseMembers, skipSpace_cons hs, if_true, readChars_quoteUnits, Option.bind_some,
      skipSpace_cons hs', hv, skipSpace_cons hs'', hrec, Option.map_some, finiteMembers]

end

/-! ### What a text determines -/

mutual

lemma Json.text_finite : ∀ j : Json, j.finite.text = j.text
  | .null | .bool _ | .str _ | .num .zero | .num (.fin _) | .num (.inf _) => rfl
  | .arr xs => by rw [Json.finite, Json.text, Json.text, elemsText_finite xs]
  | .obj ms => by rw [Json.finite, Json.text, Json.text, membersText_finite ms]

lemma elemsText_finite : ∀ xs : List Json, elemsText (finiteElems xs) = elemsText xs
  | [] => rfl
  | [x] => x.text_finite
  | x :: y :: ys => by
    have ih := elemsText_finite (y :: ys)
    simp only [finiteElems] at ih
    simp only [finiteElems, elemsText, x.text_finite, ih]

lemma membersText_finite : ∀ ms : List (JsString × Json),
    membersText (finiteMembers ms) = membersText ms
  | [] => rfl
  | [(k, v)] => by simp only [finiteMembers, membersText, v.text_finite]
  | (k, v) :: (k', v') :: ms => by
    have ih := membersText_finite ((k', v') :: ms)
    simp only [finiteMembers] at ih
    simp only [finiteMembers, membersText, v.text_finite, ih]

end

/-- Two values have the same text exactly if they are the same up to numbers that are not
finite. -/
theorem Json.text_eq_iff {j j' : Json} : j.text = j'.text ↔ j.finite = j'.finite := by
  refine ⟨fun h => ?_, fun h => by rw [← j.text_finite, ← j'.text_finite, h]⟩
  have hend : endsNumber [] := by simp [endsNumber]
  have hj := parseValue_text j _ [] le_rfl hend
  rw [h, parseValue_text j' _ [] le_rfl hend] at hj
  exact congrArg Prod.fst (Option.some.inj hj).symm

lemma wellFormed_cons {c : UInt16} (h : isSurrogate c = false) (s : JsString) :
    wellFormed (c :: s) = wellFormed s :=
  wellFormed_append [c] s (by simp [wellFormed, h])

lemma wellFormed_of_forall : ∀ {s : JsString}, (∀ c ∈ s, isSurrogate c = false) →
    wellFormed s = true
  | [], _ => rfl
  | c :: rest, h => by
    rw [wellFormed_cons (h c (by simp))]
    exact wellFormed_of_forall fun d hd => h d (by simp [hd])

lemma hexUnit_not_surrogate {n : ℕ} (h : n < 16) : isSurrogate (hexUnit n) = false := by
  have hall : ∀ m : Fin 16, isSurrogate (hexUnit m) = false := by decide
  exact hall ⟨n, h⟩

lemma quoteUnit_wellFormed (c : UInt16) : wellFormed (quoteUnit c) = true := by
  have hc := c.toNat_lt
  rw [quoteUnit]
  split
  · next e he =>
    have hall : shortEscapes.all (fun p => wellFormed [0x5c, p.2]) = true := by decide
    obtain ⟨l, l', hl, _⟩ := List.lookup_eq_some_iff.mp he
    exact List.all_eq_true.mp hall (c, e) (by rw [hl]; simp)
  split
  · refine wellFormed_of_forall fun d hd => ?_
    simp only [unicodeEscape, List.mem_cons, List.not_mem_nil, or_false] at hd
    rcases hd with rfl | rfl | rfl | rfl | rfl | rfl
    · decide
    · decide
    all_goals exact hexUnit_not_surrogate (by omega)
  · next h =>
    simp only [Bool.or_eq_true, decide_eq_true_eq, not_or, Bool.not_eq_true] at h
    simp [wellFormed, h.2]

lemma quoteUnits_wellFormed (s : JsString) : wellFormed (quoteUnits s) = true := by
  induction s using quoteUnits.induct with
  | case1 => rfl
  | case2 c => exact quoteUnit_wellFormed c
  | case3 c d rest hcd ih => simpa only [quoteUnits, hcd, if_true, wellFormed] using ih
  | case4 c d rest hcd ih =>
    rw [quoteUnits, if_neg hcd, wellFormed_append _ _ (quoteUnit_wellFormed c), ih]

lemma quote_wellFormed (s : JsString) : wellFormed (quote s) = true := by
  rw [quote, List.cons_append, wellFormed_cons (by decide),
    wellFormed_append _ _ (quoteUnits_wellFormed s)]
  decide

lemma digitUnit_not_surrogate (d : Fin 10) : isSurrogate (digitUnit d) = false := by
  revert d
  decide

lemma digitUnits_not_surrogate {ds : List (Fin 10)} {c : UInt16} (h : c ∈ ds.map digitUnit) :
    isSurrogate c = false := by
  obtain ⟨d, _, rfl⟩ := List.mem_map.mp h
  exact digitUnit_not_surrogate d

lemma Literal.text_not_surrogate (l : Literal) : ∀ c ∈ l.text, isSurrogate c = false := by
  have hfrac : ∀ c ∈ fracText l.frac, isSurrogate c = false := by
    intro c hc
    rw [fracText] at hc
    split at hc
    · simp at hc
    · rcases List.mem_cons.mp hc with rfl | hc
      · decide
      · exact digitUnits_not_surrogate hc
  have hexp : ∀ c ∈ expText l.exp, isSurrogate c = false := by
    intro c hc
    rw [expText] at hc
    split at hc
    · simp at hc
    split at hc
    all_goals
      simp only [List.mem_cons] at hc
      rcases hc with rfl | rfl | hc
      · decide
      · decide
      · exact digitUnits_not_surrogate hc
  intro c hc
  simp only [Literal.text, List.mem_append] at hc
  rcases hc with ((hc | hc) | hc) | hc
  · split at hc
    · obtain rfl := List.mem_singleton.mp hc
      decide
    · simp at hc
  · exact digitUnits_not_surrogate hc
  · exact hfrac c hc
  · exact hexp c hc

lemma JsNumber.text_wellFormed (n : JsNumber) : wellFormed n.text = true := by
  rw [JsNumber.text]
  split
  · next l _ => exact wellFormed_of_forall l.text_not_surrogate
  · decide

mutual

lemma Json.text_wellFormed : ∀ j : Json, wellFormed j.text = true
  | .null | .bool true | .bool false => by decide
  | .num n => n.text_wellFormed
  | .str s => quote_wellFormed s
  | .arr xs => by
    rw [Json.text, wellFormed_cons (by decide), wellFormed_append _ _ (elemsText_wellFormed xs)]
    decide
  | .obj ms => by
    rw [Json.text, wellFormed_cons (by decide), wellFormed_append _ _ (membersText_wellFormed ms)]
    decide

lemma elemsText_wellFormed : ∀ xs : List Json, wellFormed (elemsText xs) = true
  | [] => rfl
  | [x] => x.text_wellFormed
  | x :: y :: ys => by
    rw [elemsText, wellFormed_append _ _ x.text_wellFormed, wellFormed_cons (by decide),
      elemsText_wellFormed (y :: ys)]

lemma membersText_wellFormed : ∀ ms : List (JsString × Json), wellFormed (membersText ms) = true
  | [] => rfl
  | [(k, v)] => by
    rw [membersText, wellFormed_append _ _ (quote_wellFormed k), wellFormed_cons (by decide),
      v.text_wellFormed]
  | (k, v) :: m :: ms => by
    rw [membersText, wellFormed_append _ _ (quote_wellFormed k), wellFormed_cons (by decide),
      wellFormed_append _ _ v.text_wellFormed, wellFormed_cons (by decide),
      membersText_wellFormed (m :: ms)]

end

/-- Two values have the same bytes exactly if they are the same up to numbers that are not
finite. -/
theorem Json.utf8_text_eq_iff {j j' : Json} :
    utf8 j.text = utf8 j'.text ↔ j.finite = j'.finite := by
  rw [← Json.text_eq_iff]
  exact ⟨utf8_injective j.text_wellFormed j'.text_wellFormed, congrArg utf8⟩

end Js
