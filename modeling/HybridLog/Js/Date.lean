import HybridLog.Js.Number

/-!
# Dates

A date is a number of milliseconds since the epoch, at most 8.64 · 10¹⁵ of them in either
direction. `toISOString` prints it in UTC, with a signed year of six digits where four do not do.
-/

namespace Js

/-- A valid time value. -/
structure JsDate where
  ms : ℤ
  inRange : -8640000000000000 ≤ ms ∧ ms ≤ 8640000000000000
deriving DecidableEq

/-- `new Date(0)` -/
def JsDate.epoch : JsDate := ⟨0, by decide⟩

/-- A date of the proleptic Gregorian calendar. -/
structure CivilDate where
  year : ℤ
  month : ℤ
  day : ℤ

/-- The year and the day of the year at day `e` of an era of 400 years. Years begin on March 1st, so
that a leap day is the last day of its year, of its four years and of its era. -/
def yearDay (e : ℤ) : ℤ × ℤ :=
  let century := min 3 (e / 36524)
  let dayOfCentury := e - 36524 * century
  let quad := dayOfCentury / 1461
  let dayOfQuad := dayOfCentury - 1461 * quad
  let year := min 3 (dayOfQuad / 365)
  (100 * century + 4 * quad + year, dayOfQuad - 365 * year)

/-- The date on day `day` of year `year` of an era. -/
def civil (era year day : ℤ) : CivilDate :=
  let mp := (5 * day + 2) / 153
  let month := if mp < 10 then mp + 3 else mp - 9
  ⟨400 * era + year + if month ≤ 2 then 1 else 0, month, day - (153 * mp + 2) / 5 + 1⟩

/-- The date that is `z` days after the epoch. -/
def civilOfDays (z : ℤ) : CivilDate :=
  let yd := yearDay ((z + 719468) % 146097)
  civil ((z + 719468) / 146097) yd.1 yd.2

/-- The days from the epoch to a date. -/
def daysOfCivil (c : CivilDate) : ℤ :=
  let year := if c.month ≤ 2 then c.year - 1 else c.year
  let mp := if c.month ≤ 2 then c.month + 9 else c.month - 3
  let yoe := year % 400
  146097 * (year / 400) + (365 * yoe + yoe / 4 - yoe / 100) + (153 * mp + 2) / 5 + c.day - 719469

/-- The last `w` decimal digits of `n`. -/
def padDigits : ℕ → ℕ → JsString
  | 0, _ => []
  | w + 1, n => padDigits w (n / 10) ++ [digitUnit (Fin.ofNat 10 n)]

def yearText (y : ℤ) : JsString :=
  if 0 ≤ y ∧ y ≤ 9999 then padDigits 4 y.toNat
  else (if y < 0 then 0x2d else 0x2b) :: padDigits 6 y.natAbs

/-- The part of `toISOString` after the year. -/
def dayText (month day ms : ℕ) : JsString :=
  0x2d :: padDigits 2 month ++ 0x2d :: padDigits 2 day ++
    0x54 :: padDigits 2 (ms / 3600000) ++ 0x3a :: padDigits 2 (ms / 60000 % 60) ++
    0x3a :: padDigits 2 (ms / 1000 % 60) ++ 0x2e :: padDigits 3 (ms % 1000) ++ [0x5a]

def JsDate.toISOString (t : JsDate) : JsString :=
  let c := civilOfDays (t.ms / 86400000)
  yearText c.year ++ dayText c.month.toNat c.day.toNat (t.ms % 86400000).toNat

/-! ### The text determines the date -/

/-- Days from the start of an era to the start of a year in it. -/
lemma yearDay_spec {e : ℤ} (h : 0 ≤ e ∧ e ≤ 146096) :
    (0 ≤ (yearDay e).1 ∧ (yearDay e).1 ≤ 399) ∧ (0 ≤ (yearDay e).2 ∧ (yearDay e).2 ≤ 365) ∧
      365 * (yearDay e).1 + (yearDay e).1 / 4 - (yearDay e).1 / 100 + (yearDay e).2 = e := by
  simp only [yearDay]
  obtain ⟨hc, hdc⟩ : (0 ≤ min 3 (e / 36524) ∧ min 3 (e / 36524) ≤ 3) ∧
      0 ≤ e - 36524 * min 3 (e / 36524) ∧ e - 36524 * min 3 (e / 36524) ≤ 36524 := by omega
  generalize min 3 (e / 36524) = c at *
  generalize hf : e - 36524 * c = f at *
  obtain ⟨hq, hdq⟩ : (0 ≤ f / 1461 ∧ f / 1461 ≤ 24) ∧
      0 ≤ f - 1461 * (f / 1461) ∧ f - 1461 * (f / 1461) ≤ 1460 := by omega
  generalize f / 1461 = q at *
  generalize hg : f - 1461 * q = g at *
  obtain ⟨hr, hdr⟩ : (0 ≤ min 3 (g / 365) ∧ min 3 (g / 365) ≤ 3) ∧
      0 ≤ g - 365 * min 3 (g / 365) ∧ g - 365 * min 3 (g / 365) ≤ 365 := by omega
  generalize min 3 (g / 365) = r at *
  have h4 : (100 * c + 4 * q + r) / 4 = 25 * c + q := by omega
  have h100 : (100 * c + 4 * q + r) / 100 = c := by omega
  rw [h4, h100]
  omega

lemma month_spec {d : ℤ} (h : 0 ≤ d ∧ d ≤ 365) :
    (0 ≤ (5 * d + 2) / 153 ∧ (5 * d + 2) / 153 ≤ 11) ∧
      1 ≤ d - (153 * ((5 * d + 2) / 153) + 2) / 5 + 1 ∧
      d - (153 * ((5 * d + 2) / 153) + 2) / 5 + 1 ≤ 31 := by
  omega

lemma era_spec (z : ℤ) : 0 ≤ (z + 719468) % 146097 ∧ (z + 719468) % 146097 ≤ 146096 := by
  omega

lemma civil_bounds (era year : ℤ) {d : ℤ} (h : 0 ≤ d ∧ d ≤ 365) :
    1 ≤ (civil era year d).month ∧ (civil era year d).month ≤ 12 ∧
      1 ≤ (civil era year d).day ∧ (civil era year d).day ≤ 31 := by
  obtain ⟨hm, hday⟩ := month_spec h
  simp only [civil]
  split <;> omega

lemma daysOfCivil_civil (era : ℤ) {y d : ℤ} (hy : 0 ≤ y ∧ y ≤ 399) (hd : 0 ≤ d ∧ d ≤ 365) :
    daysOfCivil (civil era y d) =
      146097 * era + (365 * y + y / 4 - y / 100 + d) - 719468 := by
  obtain ⟨hm, -⟩ := month_spec hd
  have hdiv : (400 * era + y) / 400 = era := by omega
  have hmod : (400 * era + y) % 400 = y := by omega
  by_cases hlt : (5 * d + 2) / 153 < 10
  · have h2 : ¬(5 * d + 2) / 153 + 3 ≤ 2 := by omega
    simp only [daysOfCivil, civil, if_pos hlt, if_neg h2, add_zero, hdiv, hmod,
      add_sub_cancel_right]
    omega
  · have h2 : (5 * d + 2) / 153 - 9 ≤ 2 := by omega
    simp only [daysOfCivil, civil, if_neg hlt, if_pos h2, add_sub_cancel_right, hdiv, hmod,
      sub_add_cancel]
    omega

lemma civilOfDays_bounds (z : ℤ) :
    1 ≤ (civilOfDays z).month ∧ (civilOfDays z).month ≤ 12 ∧ 1 ≤ (civilOfDays z).day ∧
      (civilOfDays z).day ≤ 31 :=
  civil_bounds _ _ (yearDay_spec (era_spec z)).2.1

lemma daysOfCivil_civilOfDays (z : ℤ) : daysOfCivil (civilOfDays z) = z := by
  obtain ⟨hy, hd, hsum⟩ := yearDay_spec (era_spec z)
  rw [civilOfDays, daysOfCivil_civil _ hy hd, hsum]
  omega

lemma civilOfDays_injective {z z' : ℤ} (h : civilOfDays z = civilOfDays z') : z = z' := by
  rw [← daysOfCivil_civilOfDays z, h, daysOfCivil_civilOfDays]

@[simp] lemma padDigits_length : ∀ w n : ℕ, (padDigits w n).length = w
  | 0, _ => rfl
  | w + 1, n => by simp [padDigits, padDigits_length w]

lemma digitUnit_injective {d d' : Fin 10} (h : digitUnit d = digitUnit d') : d = d' :=
  Option.some.inj (by rw [← digit?_digitUnit d, h, digit?_digitUnit])

lemma padDigits_injective : ∀ (w : ℕ) {n m : ℕ}, n < 10 ^ w → m < 10 ^ w →
    padDigits w n = padDigits w m → n = m
  | 0, n, m, hn, hm, _ => by omega
  | w + 1, n, m, hn, hm, h => by
    rw [pow_succ] at hn hm
    obtain ⟨hhigh, hlow⟩ := List.append_inj h (by simp)
    have hdiv := padDigits_injective w (by omega) (by omega) hhigh
    have hmod := congrArg Fin.val (digitUnit_injective (List.singleton_inj.mp hlow))
    simp only [Fin.ofNat] at hmod
    omega

lemma yearText_injective {y y' : ℤ} (hy : y.natAbs < 1000000) (hy' : y'.natAbs < 1000000)
    (h : yearText y = yearText y') : y = y' := by
  have hlen := congrArg List.length h
  by_cases hc : 0 ≤ y ∧ y ≤ 9999 <;> by_cases hc' : 0 ≤ y' ∧ y' ≤ 9999
  · simp only [yearText, if_pos hc, if_pos hc'] at h
    have := padDigits_injective 4 (by omega) (by omega) h
    omega
  · simp [yearText, if_pos hc, if_neg hc'] at hlen
  · simp [yearText, if_neg hc, if_pos hc'] at hlen
  · simp only [yearText, if_neg hc, if_neg hc', List.cons.injEq] at h
    have := padDigits_injective 6 (by omega) (by omega) h.2
    have hsign := h.1
    split_ifs at hsign
    · omega
    · exact absurd hsign (by decide)
    · exact absurd hsign (by decide)
    · omega

lemma dayText_injective {m d t m' d' t' : ℕ} (hm : m < 100) (hd : d < 100) (ht : t < 86400000)
    (hm' : m' < 100) (hd' : d' < 100) (ht' : t' < 86400000)
    (h : dayText m d t = dayText m' d' t') : m = m' ∧ d = d' ∧ t = t' := by
  simp only [dayText, List.cons_append, List.append_assoc, List.cons.injEq, true_and] at h
  obtain ⟨h1, h⟩ := List.append_inj h (by simp)
  obtain ⟨h2, h⟩ := List.append_inj (List.cons.inj h).2 (by simp)
  obtain ⟨h3, h⟩ := List.append_inj (List.cons.inj h).2 (by simp)
  obtain ⟨h4, h⟩ := List.append_inj (List.cons.inj h).2 (by simp)
  obtain ⟨h5, h⟩ := List.append_inj (List.cons.inj h).2 (by simp)
  obtain ⟨h6, _⟩ := List.append_inj (List.cons.inj h).2 (by simp)
  have e1 := padDigits_injective 2 (by omega) (by omega) h1
  have e2 := padDigits_injective 2 (by omega) (by omega) h2
  have e3 := padDigits_injective 2 (by omega) (by omega) h3
  have e4 := padDigits_injective 2 (by omega) (by omega) h4
  have e5 := padDigits_injective 2 (by omega) (by omega) h5
  have e6 := padDigits_injective 3 (by omega) (by omega) h6
  exact ⟨e1, e2, by omega⟩

lemma dayText_length (m d t : ℕ) : (dayText m d t).length = 20 := by
  simp [dayText]

lemma civilOfDays_year (z : ℤ) (h : -100000000 ≤ z ∧ z ≤ 100000000) :
    (civilOfDays z).year.natAbs < 1000000 := by
  obtain ⟨hy, -, -⟩ := yearDay_spec (era_spec z)
  simp only [civilOfDays, civil]
  split <;> split <;> omega

/-- Different dates are printed differently. -/
theorem JsDate.toISOString_injective {t t' : JsDate} (h : t.toISOString = t'.toISOString) :
    t = t' := by
  obtain ⟨ms, hms⟩ := t
  obtain ⟨ms', hms'⟩ := t'
  simp only [JsDate.toISOString] at h
  obtain ⟨hyear, hday⟩ := List.append_inj' h (by rw [dayText_length, dayText_length])
  have hb := civilOfDays_bounds (ms / 86400000)
  have hb' := civilOfDays_bounds (ms' / 86400000)
  obtain ⟨hm, hd, ht⟩ := dayText_injective (by omega) (by omega) (by omega) (by omega) (by omega)
    (by omega) hday
  have hy := yearText_injective (civilOfDays_year _ (by omega)) (civilOfDays_year _ (by omega))
    hyear
  have hcivil : civilOfDays (ms / 86400000) = civilOfDays (ms' / 86400000) := by
    generalize civilOfDays (ms / 86400000) = c at *
    generalize civilOfDays (ms' / 86400000) = c' at *
    obtain ⟨y, m, d⟩ := c
    obtain ⟨y', m', d'⟩ := c'
    simp only at *
    rw [CivilDate.mk.injEq]
    omega
  have hz := civilOfDays_injective hcivil
  simp only [JsDate.mk.injEq]
  omega

lemma JsDate.toISOString_length (t : JsDate) : 24 ≤ t.toISOString.length := by
  have hyear (y : ℤ) : 4 ≤ (yearText y).length := by
    rw [yearText]
    split <;> simp
  have := hyear (civilOfDays (t.ms / 86400000)).year
  simp only [JsDate.toISOString, List.length_append, dayText_length]
  omega

end Js
