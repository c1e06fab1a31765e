import HybridLog.Js.Number

/-!
# Rounding to a double

Numbers of the language are doubles. A literal is read as the double nearest to it, and the double
is printed as the shortest decimal that is read as it. `Decimal.round` is both steps at once: the
decimal that stands for the double.
-/

namespace Js

/-! ### Fractions -/

/-- A numerator and a denominator. -/
abbrev Fraction := ℕ × ℕ

/-- The fraction times a power of `b`. -/
def scale (b : ℕ) (e : ℤ) (q : Fraction) : Fraction :=
  if 0 ≤ e then (q.1 * b ^ e.toNat, q.2) else (q.1, q.2 * b ^ (-e).toNat)

/-- The integer nearest to a fraction; of two the even one. -/
def roundEven (q : Fraction) : ℕ :=
  let n := q.1 / q.2
  let r := q.1 % q.2
  if 2 * r < q.2 ∨ 2 * r = q.2 ∧ n % 2 = 0 then n else n + 1

/-- The greatest `e` such that a fraction is at least `2 ^ e`. -/
def binaryExponent (q : Fraction) : ℤ :=
  let e : ℤ := (Nat.log2 q.1 : ℤ) - Nat.log2 q.2
  let q' := scale 2 (-e) q
  if q'.2 ≤ q'.1 then e else e - 1

/-- The number of digits before the point, less the zeros after it. -/
def decimalPoint (q : Fraction) : ℤ := (natDigits (q.1 * 10 ^ 400 / q.2)).length - 400

/-! ### Doubles -/

/-- The positive number `mantissa * 2 ^ exponent`, where the mantissa has 53 bits, or fewer if the
exponent is -1074. -/
structure Double where
  mantissa : ℕ
  exponent : ℤ
deriving DecidableEq

inductive Nearest
  | zero
  | double (x : Double)
  | inf
deriving DecidableEq

/-- The double nearest to a fraction. -/
def nearestTo (q : Fraction) : Nearest :=
  let e := max (binaryExponent q - 52) (-1074)
  let m := roundEven (scale 2 (-e) q)
  let x : Double := if m = 2 ^ 53 then ⟨2 ^ 52, e + 1⟩ else ⟨m, e⟩
  if m = 0 then .zero else if 971 < x.exponent then .inf else .double x

namespace Decimal

variable (d : Decimal)

/-- The number without its sign. -/
def fraction : Fraction := scale 10 (d.point - d.digits.length) (digitsValue d.digits, 1)

/-- The double nearest to the number, without the sign. -/
def nearest : Nearest :=
  if 310 < d.point then .inf
  else if d.point < -330 then .zero
  else nearestTo d.fraction

/-- An integer of at most `2 ^ 53`; all of these are doubles. -/
def IsSafe : Prop :=
  d.digits.length ≤ d.point ∧ d.point ≤ 16 ∧
    digitsValue (d.digits ++ List.replicate (d.point.toNat - d.digits.length) 0) ≤ 2 ^ 53

instance : Decidable d.IsSafe := inferInstanceAs (Decidable (_ ∧ _))

end Decimal

/-- The number `n * 10 ^ e`, unless it is zero. -/
def decimal? (n : ℕ) (e : ℤ) : Option Decimal :=
  match ofDigits false (natDigits n) ((natDigits n).length + e) with
  | .fin d => some d
  | _ => none

/-- The decimals with `k` digits on both sides of a fraction, the nearer one first. -/
def neighbours (q : Fraction) (k : ℕ) : List Decimal :=
  let e : ℤ := decimalPoint q - k
  let q' := scale 10 (-e) q
  let near := roundEven q'
  [near, 2 * (q'.1 / q'.2) + 1 - near].filterMap (decimal? · e)

/-- The shortest decimal that is read as the double; 17 digits are always enough. -/
def Double.shortest (x : Double) : Option Decimal :=
  ((List.range 17).flatMap fun k => neighbours (scale 2 x.exponent (x.mantissa, 1)) (k + 1)).find?
    fun d => d.nearest = .double x

/-! ### Rounding -/

/-- The decimal with the sign of a number; the number itself if there is none. -/
def Decimal.signed (d : Decimal) : Option Decimal → JsNumber
  | some c => .fin { c with neg := d.neg }
  | none => .fin d

/-- The number that stands for a double, with the sign of another number. -/
def Nearest.number (d : Decimal) : Nearest → JsNumber
  | .zero => .zero
  | .inf => .inf d.neg
  | .double x => d.signed x.shortest

/-- The double that a number is read as. -/
def Decimal.round (d : Decimal) : JsNumber := if d.IsSafe then .fin d else d.nearest.number d

def JsNumber.rounded : JsNumber → JsNumber
  | .fin d => d.round
  | n => n

section Round

variable {d : Decimal} {x : Double}

lemma Decimal.nearest_neg (d : Decimal) (neg : Bool) :
    Decimal.nearest { d with neg := neg } = d.nearest := by
  simp only [Decimal.nearest, Decimal.fraction]

lemma Double.nearest_shortest (h : x.shortest = some d) : d.nearest = .double x := by
  simpa using List.find?_some h

lemma Decimal.round_of_safe (h : d.IsSafe) : d.round = .fin d := if_pos h

lemma Decimal.round_of_not_safe (h : ¬d.IsSafe) : d.round = d.nearest.number d := if_neg h

/-- The shortest decimal of a double is read as the double. -/
lemma Double.round_shortest (h : x.shortest = some d) (neg : Bool) :
    Decimal.round { d with neg := neg } = .fin { d with neg := neg } := by
  by_cases hsafe : Decimal.IsSafe { d with neg := neg }
  · exact Decimal.round_of_safe hsafe
  · rw [Decimal.round_of_not_safe hsafe, d.nearest_neg neg, Double.nearest_shortest h,
      Nearest.number, h, Decimal.signed]

end Round

/-- A double is read as itself. -/
theorem JsNumber.rounded_rounded (n : JsNumber) : n.rounded.rounded = n.rounded := by
  cases n with
  | zero | inf => rfl
  | fin d =>
    show d.round.rounded = d.round
    by_cases hsafe : d.IsSafe
    · rw [Decimal.round_of_safe hsafe]
      exact Decimal.round_of_safe hsafe
    · have hround := Decimal.round_of_not_safe hsafe
      cases hn : d.nearest with
      | zero | inf =>
        rw [hround, hn]
        rfl
      | double x =>
        rw [hn, Nearest.number] at hround
        cases hs : x.shortest with
        | none =>
          rw [hs, Decimal.signed] at hround
          rw [hround]
          exact hround
        | some c =>
          rw [hs, Decimal.signed] at hround
          rw [hround]
          exact Double.round_shortest hs d.neg

end Js
