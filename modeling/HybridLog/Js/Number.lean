import HybridLog.Js.Text
import Mathlib.Data.Nat.Digits.Lemmas
import Mathlib.Data.List.DropRight

/-!
# Numbers and their decimal text

A finite number is given by the shortest decimal that denotes it, which is what `Number::toString`
prints: the digits `d₁ … dₖ`, neither the first nor the last of them zero, and the place `n` of the
point in `0.d₁…dₖ × 10ⁿ`. The two zeros print alike and are one value here. There may be more digits
than a double needs.
-/

namespace Js

/-- There are digits. -/
instance neZeroTen : NeZero 10 := ⟨by decide⟩

/-- A finite number other than zero. -/
structure Decimal where
  neg : Bool
  digits : List (Fin 10)
  point : ℤ
  ne_nil : digits ≠ []
  head_ne : digits.head ne_nil ≠ 0
  last_ne : digits.getLast ne_nil ≠ 0
deriving DecidableEq

inductive JsNumber
  | zero
  | fin (d : Decimal)
  | inf (neg : Bool)
deriving DecidableEq

/-! ### Digits -/

def digitUnit (d : Fin 10) : UInt16 := UInt16.ofNat (0x30 + d)

def digit? (c : UInt16) : Option (Fin 10) :=
  if h : 0x30 ≤ c.toNat ∧ c.toNat < 0x3a then some ⟨c.toNat - 0x30, by omega⟩ else none

/-- The longest run of digits at the start of a text. -/
def takeDigits : JsString → List (Fin 10) × JsString
  | [] => ([], [])
  | c :: rest => match digit? c with
    | some d => (d :: (takeDigits rest).1, (takeDigits rest).2)
    | none => ([], c :: rest)

/-- The decimal digits of a natural number, the most significant one first. -/
def natDigits (n : ℕ) : List (Fin 10) := (Nat.digits 10 n).reverse.map (Fin.ofNat 10)

def digitsValue (ds : List (Fin 10)) : ℕ := Nat.ofDigits 10 (ds.reverse.map Fin.val)

@[simp] lemma digit?_digitUnit (d : Fin 10) : digit? (digitUnit d) = some d := by
  revert d
  decide

/-- A text that does not go on with a digit. -/
def endsDigits (rest : JsString) : Prop := ∀ c ∈ rest.head?, digit? c = none

lemma takeDigits_append (ds : List (Fin 10)) {rest : JsString} (h : endsDigits rest) :
    takeDigits (ds.map digitUnit ++ rest) = (ds, rest) := by
  induction ds with
  | nil => cases rest with
    | nil => rfl
    | cons c rest => simp [takeDigits, h c rfl]
  | cons d ds ih => simp [takeDigits, ih]

lemma digitsValue_natDigits (n : ℕ) : digitsValue (natDigits n) = n := by
  have hval : ((Nat.digits 10 n).map (Fin.ofNat 10)).map Fin.val = Nat.digits 10 n := by
    rw [List.map_map]
    refine (List.map_congr_left fun d hd => ?_).trans (List.map_id _)
    exact Nat.mod_eq_of_lt (Nat.digits_lt_base (by decide) hd)
  rw [digitsValue, natDigits, ← List.map_reverse, List.reverse_reverse, hval, Nat.ofDigits_digits]

lemma natDigits_ne_nil {n : ℕ} (h : n ≠ 0) : natDigits n ≠ [] := by
  simpa [natDigits, Nat.digits_eq_nil_iff_eq_zero] using h

/-! ### Number literals -/

/-- A number literal `int.frac e exp`; an exponent of zero and an empty fraction are not written. -/
structure Literal where
  neg : Bool
  int : List (Fin 10)
  frac : List (Fin 10)
  exp : ℤ

/-- The exponent part of a literal. -/
def expText (e : ℤ) : JsString :=
  if e = 0 then []
  else if e < 0 then 0x65 :: 0x2d :: (natDigits e.natAbs).map digitUnit
  else 0x65 :: 0x2b :: (natDigits e.natAbs).map digitUnit

def fracText (frac : List (Fin 10)) : JsString :=
  if frac = [] then [] else 0x2e :: frac.map digitUnit

def Literal.text (l : Literal) : JsString :=
  (if l.neg then [0x2d] else []) ++ l.int.map digitUnit ++ fracText l.frac ++ expText l.exp

/-- The number `0.ds × 10ⁿ`. -/
def ofDigits (neg : Bool) : List (Fin 10) → ℤ → JsNumber
  | [], _ => .zero
  | d :: ds, n =>
    if h : d = 0 then ofDigits neg ds (n - 1)
    else
      have hne : (d :: ds).rdropWhile (· = 0) ≠ [] := by
        rw [Ne, List.rdropWhile_eq_nil_iff]
        exact fun hall => h (by simpa using hall d (by simp))
      .fin {
        neg := neg
        digits := (d :: ds).rdropWhile (· = 0)
        point := n
        ne_nil := hne
        head_ne := by
          rw [(List.rdropWhile_prefix (fun x : Fin 10 => decide (x = 0)) (d :: ds)).head hne]
          exact h
        last_ne := by simpa using List.rdropWhile_last_not (fun x : Fin 10 => decide (x = 0)) _ hne }

def Literal.value (l : Literal) : JsNumber :=
  ofDigits l.neg (l.int ++ l.frac) (l.int.length + l.exp)

/-- `Number::toString` of a finite number other than zero. -/
def Decimal.literal (d : Decimal) : Literal :=
  let k : ℤ := d.digits.length
  let n := d.point
  if k ≤ n ∧ n ≤ 21 then ⟨d.neg, d.digits ++ List.replicate (n - k).toNat 0, [], 0⟩
  else if 0 < n ∧ n ≤ 21 then ⟨d.neg, d.digits.take n.toNat, d.digits.drop n.toNat, 0⟩
  else if -6 < n ∧ n ≤ 0 then ⟨d.neg, [0], List.replicate (-n).toNat 0 ++ d.digits, 0⟩
  else ⟨d.neg, d.digits.take 1, d.digits.drop 1, n - 1⟩

/-- The literal of a finite number. -/
def JsNumber.literal? : JsNumber → Option Literal
  | .zero => some ⟨false, [0], [], 0⟩
  | .fin d => some d.literal
  | .inf _ => none

/-! ### A literal denotes the number it was printed for -/

lemma ofDigits_zeros (neg : Bool) (ds : List (Fin 10)) (m : ℕ) (n : ℤ) :
    ofDigits neg (List.replicate m 0 ++ ds) n = ofDigits neg ds (n - m) := by
  induction m generalizing n with
  | zero => simp
  | succ m ih =>
    rw [List.replicate_succ, List.cons_append, ofDigits, dif_pos rfl, ih]
    congr 1
    push_cast
    ring

lemma rdropWhile_zeros {ds : List (Fin 10)} (hne : ds ≠ []) (h : ds.getLast hne ≠ 0) (m : ℕ) :
    (ds ++ List.replicate m 0).rdropWhile (· = 0) = ds := by
  induction m with
  | zero =>
    rw [List.replicate_zero, List.append_nil, List.rdropWhile_eq_self_iff]
    exact fun _ => by simpa using h
  | succ m ih =>
    rw [List.replicate_succ', ← List.append_assoc, List.rdropWhile_concat_pos _ _ _ (by simp), ih]

lemma ofDigits_digits (d : Decimal) (m : ℕ) :
    ofDigits d.neg (d.digits ++ List.replicate m 0) d.point = .fin d := by
  obtain ⟨neg, digits, point, ne_nil, head_ne, last_ne⟩ := d
  cases digits with
  | nil => exact absurd rfl ne_nil
  | cons c cs =>
    have hdrop := rdropWhile_zeros ne_nil last_ne m
    simp only [List.cons_append] at hdrop ⊢
    have hc : c ≠ 0 := head_ne
    rw [ofDigits, dif_neg hc]
    simp only [hdrop]

lemma Decimal.value_literal (d : Decimal) : d.literal.value = .fin d := by
  have hlen : 0 < d.digits.length := List.length_pos_iff.mpr d.ne_nil
  have hplain := ofDigits_digits d 0
  simp only [List.replicate_zero, List.append_nil] at hplain
  simp only [Decimal.literal]
  split
  · next h =>
    have hpoint : ((d.digits.length + (d.point - d.digits.length).toNat : ℕ) : ℤ) + 0 = d.point := by
      omega
    simpa only [Literal.value, List.append_nil, List.length_append, List.length_replicate, hpoint]
      using ofDigits_digits d _
  split
  · next h =>
    have hpoint : (((d.digits.take d.point.toNat).length : ℕ) : ℤ) + 0 = d.point := by
      rw [List.length_take]
      omega
    rw [Literal.value, hpoint, List.take_append_drop, hplain]
  split
  · next h =>
    have hpoint : ((([0] : List (Fin 10)).length : ℕ) : ℤ) + 0 - ((1 + (-d.point).toNat : ℕ) : ℤ)
        = d.point := by
      simp only [List.length_singleton]
      omega
    have hzeros : [0] ++ (List.replicate (-d.point).toNat 0 ++ d.digits)
        = List.replicate (1 + (-d.point).toNat) 0 ++ d.digits := by
      rw [Nat.add_comm, List.replicate_succ]
      simp
    rw [Literal.value, hzeros, ofDigits_zeros, hpoint, hplain]
  · have hpoint : (((d.digits.take 1).length : ℕ) : ℤ) + (d.point - 1) = d.point := by
      rw [List.length_take]
      omega
    rw [Literal.value, hpoint, List.take_append_drop, hplain]

/-- A literal as it is printed: some digits before the point, a leading zero only alone. -/
structure Literal.Proper (l : Literal) : Prop where
  int_ne : l.int ≠ []
  leading : l.int.head int_ne = 0 → l.int = [0]

lemma Decimal.literal_proper (d : Decimal) : d.literal.Proper := by
  obtain ⟨neg, digits, point, ne_nil, head_ne, last_ne⟩ := d
  cases digits with
  | nil => exact absurd rfl ne_nil
  | cons c cs =>
    have hc : c ≠ 0 := head_ne
    simp only [Decimal.literal]
    split
    · exact ⟨by simp, fun h => absurd h hc⟩
    split
    · next h =>
      obtain ⟨m, hm⟩ : ∃ m, point.toNat = m + 1 := ⟨point.toNat - 1, by omega⟩
      rw [hm]
      exact ⟨by simp, fun h => absurd h hc⟩
    split
    · exact ⟨by simp, fun _ => rfl⟩
    · exact ⟨by simp, fun h => absurd h hc⟩

/-! ### Reading a literal -/

/-- The digits before the point. -/
def readInt (s : JsString) : Option (List (Fin 10) × JsString) :=
  match takeDigits s with
  | ([], _) => none
  | (d :: ds, rest) => if d = 0 then some ([0], s.tail) else some (d :: ds, rest)

/-- One or more digits. -/
def readDigits (s : JsString) : Option (List (Fin 10) × JsString) :=
  match takeDigits s with
  | ([], _) => none
  | (d :: ds, rest) => some (d :: ds, rest)

def readFrac : JsString → Option (List (Fin 10) × JsString)
  | [] => some ([], [])
  | c :: rest => if c = 0x2e then readDigits rest else some ([], c :: rest)

/-- The digits of an exponent, after its sign. -/
def readExpDigits (neg : Bool) (s : JsString) : Option (ℤ × JsString) :=
  (readDigits s).map fun (ds, rest) =>
    (if neg then -(digitsValue ds : ℤ) else digitsValue ds, rest)

def readExp : JsString → Option (ℤ × JsString)
  | [] => some (0, [])
  | c :: rest =>
    if c = 0x65 ∨ c = 0x45 then match rest with
      | [] => none
      | d :: rest' =>
        if d = 0x2d then readExpDigits true rest'
        else if d = 0x2b then readExpDigits false rest'
        else readExpDigits false (d :: rest')
    else some (0, c :: rest)

def readUnsigned (neg : Bool) (s : JsString) : Option (Literal × JsString) := do
  let (int, s) ← readInt s
  let (frac, s) ← readFrac s
  let (exp, s) ← readExp s
  return (⟨neg, int, frac, exp⟩, s)

def readLiteral : JsString → Option (Literal × JsString)
  | [] => none
  | c :: rest => if c = 0x2d then readUnsigned true rest else readUnsigned false (c :: rest)

/-- A text that cannot be the rest of a number literal. -/
def endsNumber (rest : JsString) : Prop :=
  ∀ c ∈ rest.head?, digit? c = none ∧ c ≠ 0x2e ∧ c ≠ 0x65 ∧ c ≠ 0x45

lemma endsNumber.endsDigits {rest : JsString} (h : endsNumber rest) : endsDigits rest :=
  fun c hc => (h c hc).1

lemma readDigits_append {ds : List (Fin 10)} {rest : JsString} (hne : ds ≠ [])
    (h : endsDigits rest) : readDigits (ds.map digitUnit ++ rest) = some (ds, rest) := by
  rw [readDigits, takeDigits_append ds h]
  cases ds with
  | nil => exact absurd rfl hne
  | cons d ds => rfl

lemma readExp_append (e : ℤ) {rest : JsString} (h : endsNumber rest) :
    readExp (expText e ++ rest) = some (e, rest) := by
  have hdigits (he : e ≠ 0) (neg : Bool) :
      readExpDigits neg ((natDigits e.natAbs).map digitUnit ++ rest) =
        some (if neg then -(e.natAbs : ℤ) else e.natAbs, rest) := by
    rw [readExpDigits, readDigits_append (natDigits_ne_nil (Int.natAbs_ne_zero.mpr he))
      h.endsDigits]
    simp [digitsValue_natDigits]
  rw [expText]
  split
  · next he =>
    subst he
    cases rest with
    | nil => rfl
    | cons c rest =>
      obtain ⟨_, _, h65, h45⟩ := h c rfl
      simp [readExp, h65, h45]
  split
  · next he hneg =>
    simp only [List.cons_append, readExp, true_or, if_true, hdigits he]
    simp only [Option.some.injEq, Prod.mk.injEq, and_true]
    omega
  · next he hpos =>
    have h2 : (0x2b : UInt16) ≠ 0x2d := by decide
    simp only [List.cons_append, readExp, true_or, if_true, if_neg h2, hdigits he]
    simp only [Bool.false_eq_true, if_false, Option.some.injEq, Prod.mk.injEq, and_true]
    omega

lemma expText_endsFrac (e : ℤ) {rest : JsString} (h : endsNumber rest) :
    ∀ c ∈ (expText e ++ rest).head?, digit? c = none ∧ c ≠ 0x2e := by
  rw [expText]
  split
  · exact fun c hc => ⟨(h c hc).1, (h c hc).2.1⟩
  split
  · rintro c ⟨⟩
    decide
  · rintro c ⟨⟩
    decide

lemma readFrac_append (frac : List (Fin 10)) {rest : JsString}
    (h : ∀ c ∈ rest.head?, digit? c = none ∧ c ≠ 0x2e) :
    readFrac (fracText frac ++ rest) = some (frac, rest) := by
  rw [fracText]
  split
  · next hf =>
    subst hf
    cases rest with
    | nil => rfl
    | cons c rest => simp [readFrac, (h c rfl).2]
  · next hf =>
    rw [List.cons_append, readFrac, if_pos rfl]
    exact readDigits_append hf fun c hc => (h c hc).1

lemma fracText_endsDigits (frac : List (Fin 10)) {rest : JsString} (h : endsDigits rest) :
    endsDigits (fracText frac ++ rest) := by
  rw [fracText]
  split
  · exact h
  · rintro c ⟨⟩
    decide

lemma readInt_append {int : List (Fin 10)} {rest : JsString} (hne : int ≠ [])
    (hlead : int.head hne = 0 → int = [0]) (h : endsDigits rest) :
    readInt (int.map digitUnit ++ rest) = some (int, rest) := by
  rw [readInt, takeDigits_append int h]
  cases int with
  | nil => exact absurd rfl hne
  | cons d ds =>
    simp only
    split
    · next hd =>
      rw [hlead hd]
      simp
    · rfl

lemma digitUnit_ne_minus (d : Fin 10) : digitUnit d ≠ 0x2d := by
  revert d
  decide

/-- Reading back a printed literal. -/
lemma readLiteral_append {l : Literal} (hl : l.Proper) {rest : JsString} (h : endsNumber rest) :
    readLiteral (l.text ++ rest) = some (l, rest) := by
  obtain ⟨neg, int, frac, exp⟩ := l
  obtain ⟨hne, hlead⟩ := hl
  have hexp : endsDigits (expText exp ++ rest) := fun c hc => (expText_endsFrac exp h c hc).1
  have hunsigned (neg : Bool) :
      readUnsigned neg (int.map digitUnit ++ (fracText frac ++ (expText exp ++ rest)))
        = some (⟨neg, int, frac, exp⟩, rest) := by
    rw [readUnsigned, readInt_append hne hlead (fracText_endsDigits frac hexp)]
    simp [readFrac_append frac (expText_endsFrac exp h), readExp_append exp h]
  cases neg with
  | true => simpa [Literal.text, readLiteral] using hunsigned true
  | false =>
    cases int with
    | nil => exact absurd rfl hne
    | cons d ds => simpa [Literal.text, readLiteral, digitUnit_ne_minus] using hunsigned false

end Js
