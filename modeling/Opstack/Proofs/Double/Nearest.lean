import Mathlib.Data.Int.Log
import Opstack.Double.Rounding
import Opstack.Proofs.Double.Magnitude
import Opstack.Proofs.Text.Numerals

/-!
# Rounding to the nearest double

A number in the interval of a double, halfway to its two neighbours, has that double as the nearest
one.

* `Double.log2Ratio_eq_log`: the exponent is found as the logarithm of the fraction.
* `Double.roundEven_eq`: a whole number within one half is the rounded one, and an even one also at
  a distance of one half.
* `ReadBack.Contains` is the interval, and `Double.roundsTo_of_contains` what it is in units of the
  mantissa.
* `Double.nearestMagnitude_of_contains`: the fractions in the interval of a double are rounded to
  it.  The one case that is not at the exponent of the double is below a power of two, where the
  fraction has a smaller exponent and is rounded up across it.
* `Double.ofDecimal_of_contains`: the same of decimals.
-/

set_option autoImplicit false

namespace Opstack
namespace Double

/-! ## The exponent -/

section

variable {num den : Nat}

theorem log2_bounds {n : Nat} (h : n ≠ 0) :
    (2 : ℚ) ^ (n.log2 : Int) ≤ n ∧ (n : ℚ) < 2 ^ ((n.log2 : Int) + 1) := by
  constructor
  · rw [zpow_natCast]
    exact_mod_cast Nat.log2_self_le h
  · rw [← Nat.cast_succ, zpow_natCast]
    exact_mod_cast Nat.lt_log2_self

/-- The comparison that decides between the two candidates. -/
theorem le_mul_pow_iff (num : Nat) (hden : den ≠ 0) (k : Int) :
    den * 2 ^ k.toNat ≤ num * 2 ^ (-k).toNat ↔ (2 : ℚ) ^ k ≤ num / den := by
  have hdenpos : (0 : ℚ) < den := Nat.cast_pos.mpr (Nat.pos_of_ne_zero hden)
  have hpos : (0 : ℚ) < ((2 ^ (-k).toNat : Nat) : ℚ) := Nat.cast_pos.mpr (Nat.two_pow_pos _)
  have hk := pow_toNat_div two_ne_zero k
  rw [Nat.cast_ofNat] at hk
  rw [← hk, div_le_div_iff₀ hpos hdenpos, ← Nat.cast_mul, ← Nat.cast_mul, Nat.cast_le,
    Nat.mul_comm den]

/-- **The exponent of a fraction is its logarithm.** -/
theorem log2Ratio_eq_log (hnum : num ≠ 0) (hden : den ≠ 0) :
    log2Ratio num den = Int.log 2 ((num : ℚ) / den) := by
  have hnumpos : (0 : ℚ) < num := Nat.cast_pos.mpr (Nat.pos_of_ne_zero hnum)
  have hdenpos : (0 : ℚ) < den := Nat.cast_pos.mpr (Nat.pos_of_ne_zero hden)
  have hpos : (0 : ℚ) < num / den := div_pos hnumpos hdenpos
  obtain ⟨hnumlow, hnumhigh⟩ := log2_bounds hnum
  obtain ⟨hdenlow, hdenhigh⟩ := log2_bounds hden
  have hlow : (2 : ℚ) ^ ((num.log2 : Int) - den.log2 - 1) ≤ num / den := by
    rw [Int.sub_sub, zpow_sub₀ two_ne_zero]
    gcongr
  have hhigh : (num / den : ℚ) < 2 ^ ((num.log2 : Int) - den.log2 + 1) := by
    rw [show (num.log2 : Int) - den.log2 + 1 = num.log2 + 1 - den.log2 by omega,
      zpow_sub₀ two_ne_zero]
    gcongr
  have hle : ∀ k : Int, (2 : ℚ) ^ k ≤ num / den ↔ k ≤ Int.log 2 ((num : ℚ) / den) := fun k =>
    Int.zpow_le_iff_le_log (by decide) hpos
  have hlt : ∀ k : Int, (num / den : ℚ) < 2 ^ k ↔ Int.log 2 ((num : ℚ) / den) < k := fun k =>
    Int.lt_zpow_iff_log_lt (by decide) hpos
  rw [hle] at hlow
  rw [hlt] at hhigh
  have hchoice := le_mul_pow_iff num hden ((num.log2 : Int) - den.log2)
  rw [hle] at hchoice
  simp only [log2Ratio, Nat.pow_eq]
  by_cases h : den * 2 ^ ((num.log2 : Int) - den.log2).toNat ≤
      num * 2 ^ (-((num.log2 : Int) - den.log2)).toNat
  · rw [if_pos h]
    have := hchoice.mp h
    omega
  · rw [if_neg h]
    have := mt hchoice.mpr h
    omega

/-! ## The mantissa -/

/-- The whole number is nearest to the rational one, and even if another is as near. -/
def RoundsTo (x : ℚ) (q : Nat) : Prop :=
  (q - 1 / 2 ≤ x ∧ x ≤ q + 1 / 2) ∧ (q % 2 = 1 → q - 1 / 2 < x ∧ x < q + 1 / 2)

/-- In whole numbers: twice the numerator lies within one denominator of `2 * q` of them. -/
theorem roundEven_eq_of_le {q : Nat} (hden : 0 < den) (hlow : 2 * q * den ≤ 2 * num + den)
    (hhigh : 2 * num ≤ 2 * q * den + den)
    (hodd : q % 2 = 1 → 2 * q * den < 2 * num + den ∧ 2 * num < 2 * q * den + den) :
    roundEven num den = q := by
  have hsplit : den * (num / den) + num % den = num := Nat.div_add_mod num den
  have hrest : num % den < den := Nat.mod_lt _ hden
  rw [roundEven]
  generalize num / den = quotient at hsplit ⊢
  generalize num % den = rest at hsplit hrest ⊢
  subst hsplit
  have hq : q = quotient ∨ q = quotient + 1 := by
    rcases Nat.lt_trichotomy q quotient with hlt | heq | hgt
    · nlinarith [Nat.mul_le_mul_right den (Nat.succ_le_of_lt hlt)]
    · exact .inl heq
    · rcases Nat.eq_or_lt_of_le (Nat.succ_le_of_lt hgt) with heq | hlt
      · exact .inr heq.symm
      · nlinarith [Nat.mul_le_mul_right den (Nat.succ_le_of_lt hlt)]
  rcases hq with rfl | rfl
  · rw [if_pos]
    rcases Nat.mod_two_eq_zero_or_one q with heven | hqodd
    · have : 2 * rest ≤ den := by nlinarith
      omega
    · left
      nlinarith [(hodd hqodd).2]
  · rw [if_neg]
    rcases Nat.mod_two_eq_zero_or_one (quotient + 1) with heven | hqodd
    · have : den ≤ 2 * rest := by nlinarith
      omega
    · have : den < 2 * rest := by nlinarith [(hodd hqodd).1]
      omega

/-- **Rounding a quotient gives the nearest whole number.** -/
theorem roundEven_eq {q : Nat} (hden : den ≠ 0) (h : RoundsTo (num / den) q) :
    roundEven num den = q := by
  have hdenpos : (0 : ℚ) < den := Nat.cast_pos.mpr (Nat.pos_of_ne_zero hden)
  obtain ⟨⟨hlow, hhigh⟩, hodd⟩ := h
  rw [le_div_iff₀ hdenpos] at hlow
  rw [div_le_iff₀ hdenpos] at hhigh
  rw [lt_div_iff₀ hdenpos, div_lt_iff₀ hdenpos] at hodd
  have hlow' : (2 * q * den : ℚ) ≤ 2 * num + den := by linarith
  have hhigh' : (2 * num : ℚ) ≤ 2 * q * den + den := by linarith
  have hodd' : q % 2 = 1 →
      (2 * q * den : ℚ) < 2 * num + den ∧ (2 * num : ℚ) < 2 * q * den + den := fun hq =>
    ⟨by linarith [(hodd hq).1], by linarith [(hodd hq).2]⟩
  refine roundEven_eq_of_le (Nat.pos_of_ne_zero hden) ?_ ?_ ?_
  · exact_mod_cast hlow'
  · exact_mod_cast hhigh'
  · exact_mod_cast hodd'

end

/-! ## The interval of a double -/

namespace ReadBack

/-- The number lies in the interval. -/
def Contains (r : ReadBack) (x : ℚ) : Prop :=
  if r.closed then r.low * 2 ^ r.unit ≤ x ∧ x ≤ r.high * 2 ^ r.unit
  else r.low * 2 ^ r.unit < x ∧ x < r.high * 2 ^ r.unit

end ReadBack

section

variable {d : Double} {x : ℚ}

/-- Ends of the interval, in units of the mantissa. -/
theorem mul_two_zpow_unit (d : Double) (q : ℚ) :
    q * 2 ^ d.readBack.unit = q / 4 * 2 ^ d.exponent := by
  have hunit : d.readBack.unit = d.exponent - 2 := rfl
  rw [hunit, zpow_sub₀ two_ne_zero]
  ring

/-- The interval of a double, in units of its mantissa, is what rounds to the mantissa. -/
theorem roundsTo_of_contains (hm : d.mantissa ≠ 0) (h : d.readBack.Contains x) :
    RoundsTo (x / 2 ^ d.exponent) d.mantissa := by
  have hpos : (0 : ℚ) < 2 ^ d.exponent := by positivity
  have hlow : ((4 * d.mantissa - 2 : Nat) : ℚ) ≤ d.readBack.low := by
    rw [Nat.cast_le]
    simp only [readBack]
    split <;> omega
  rw [Nat.cast_sub (by omega), Nat.cast_mul] at hlow
  push_cast at hlow
  have hhigh : (d.readBack.high : ℚ) = 4 * d.mantissa + 2 := by
    simp only [readBack]
    push_cast
    rfl
  have hclosed : d.readBack.closed = (d.mantissa % 2 == 0) := rfl
  rw [ReadBack.Contains, mul_two_zpow_unit, mul_two_zpow_unit, hclosed] at h
  by_cases heven : d.mantissa % 2 = 0
  · rw [if_pos (beq_iff_eq.mpr heven), ← le_div_iff₀ hpos, ← div_le_iff₀ hpos] at h
    exact ⟨⟨by linarith, by linarith⟩, fun hodd => by omega⟩
  · rw [if_neg (mt beq_iff_eq.mp heven), ← lt_div_iff₀ hpos, ← div_lt_iff₀ hpos] at h
    exact ⟨⟨by linarith, by linarith⟩, fun _ => ⟨by linarith, by linarith⟩⟩

/-- Below a power of two the interval ends where the smaller spacing has its half. -/
theorem le_of_contains_of_fraction_eq_zero (hfraction : d.fraction = 0)
    (hfield : 1 < d.exponentField) (h : d.readBack.Contains x) :
    d.mantissa - 1 / 4 ≤ x / 2 ^ d.exponent := by
  have hpos : (0 : ℚ) < 2 ^ d.exponent := by positivity
  have hmantissa : d.mantissa ≠ 0 := by
    rcases d.mantissa_cases with ⟨hzero, -, -⟩ | ⟨-, hm, -⟩ <;> omega
  have hlow : (d.readBack.low : ℚ) = 4 * d.mantissa - 1 := by
    have : d.readBack.low = 4 * d.mantissa - 1 := if_pos ⟨hfraction, hfield⟩
    rw [this, Nat.cast_sub (by omega)]
    push_cast
    rfl
  have hle : d.readBack.low * 2 ^ d.readBack.unit ≤ x := by
    rw [ReadBack.Contains] at h
    split at h
    · exact h.1
    · exact h.1.le
  rw [mul_two_zpow_unit, ← le_div_iff₀ hpos] at hle
  linarith

theorem two_zpow_le_of_contains (hm : d.mantissa ≠ 0) (h : d.readBack.Contains x) :
    (2 : ℚ) ^ (-1075 : Int) ≤ x := by
  have hpos : (0 : ℚ) < 2 ^ d.exponent := by positivity
  have hone : (1 : ℚ) ≤ d.mantissa := by exact_mod_cast Nat.one_le_iff_ne_zero.mpr hm
  have hhalf : (1 : ℚ) / 2 ≤ x / 2 ^ d.exponent :=
    le_trans (by linarith) (roundsTo_of_contains hm h).1.1
  rw [le_div_iff₀ hpos] at hhalf
  calc (2 : ℚ) ^ (-1075 : Int) = 1 / 2 * 2 ^ (-1074 : Int) := by
        rw [show (-1075 : Int) = -1074 - 1 by omega, zpow_sub_one₀ two_ne_zero]
        ring
    _ ≤ 1 / 2 * 2 ^ d.exponent := by
      gcongr
      · norm_num
      · exact d.le_exponent
    _ ≤ x := hhalf

theorem div_lt_of_contains (hm : d.mantissa ≠ 0) (h : d.readBack.Contains x) :
    x / 2 ^ d.exponent < 2 ^ 53 := by
  have hmantissa : (d.mantissa : ℚ) + 1 ≤ 2 ^ 53 := by exact_mod_cast d.mantissa_lt
  exact lt_of_le_of_lt (roundsTo_of_contains hm h).1.2 (by linarith)

theorem lt_two_zpow_of_contains (hfinite : d.IsFinite) (hm : d.mantissa ≠ 0)
    (h : d.readBack.Contains x) : x < (2 : ℚ) ^ (1024 : Int) := by
  have hpos : (0 : ℚ) < 2 ^ d.exponent := by positivity
  have hlt := div_lt_of_contains hm h
  rw [div_lt_iff₀ hpos] at hlt
  calc x < 2 ^ 53 * 2 ^ d.exponent := hlt
    _ ≤ 2 ^ 53 * 2 ^ (971 : Int) := by
      gcongr
      · norm_num
      · exact exponent_le_of_isFinite hfinite
    _ = 2 ^ (1024 : Int) := by
      rw [show (1024 : Int) = 53 + 971 by omega, zpow_add₀ two_ne_zero, zpow_ofNat 2 53]

end

/-! ## The nearest double -/

section

variable {d : Double} {num den : Nat}

/-- The bits of a fraction, by the exponent of its unit and the mantissa that it rounds to. -/
theorem nearestMagnitude_eq {e : Int} {q : Nat} (hnum : num ≠ 0) (hden : den ≠ 0)
    (he : max (Int.log 2 ((num : ℚ) / den) - 52) (-1074) = e)
    (hq : RoundsTo (num / den / 2 ^ e) q) :
    nearestMagnitude num den = min ((e + 1074).toNat * 2 ^ 52 + q) infinityBits := by
  have hscaled : ((num * 2 ^ (-e).toNat : Nat) : ℚ) / ((den * 2 ^ e.toNat : Nat) : ℚ) =
      num / den / 2 ^ e := by
    have hpow := pow_toNat_div two_ne_zero e
    rw [Nat.cast_ofNat] at hpow
    have hne : ((2 ^ (-e).toNat : Nat) : ℚ) ≠ 0 := Nat.cast_ne_zero.mpr (Nat.two_pow_pos _).ne'
    rw [← hpow, Nat.cast_mul, Nat.cast_mul]
    field_simp
  have hround : roundEven (num * 2 ^ (-e).toNat) (den * 2 ^ e.toNat) = q := by
    refine roundEven_eq (Nat.mul_ne_zero hden (Nat.two_pow_pos _).ne') ?_
    rwa [hscaled]
  simp only [nearestMagnitude, if_neg hnum, Nat.pow_eq]
  rw [log2Ratio_eq_log hnum hden, he, hround]

/-- The logarithm of a number, by that of the number in units of a mantissa. -/
theorem le_log_iff {x : ℚ} (hx : 0 < x) (e k : Int) :
    k ≤ Int.log 2 x ↔ (2 : ℚ) ^ (k - e) ≤ x / 2 ^ e := by
  have hpos : (0 : ℚ) < 2 ^ e := by positivity
  rw [← Int.zpow_le_iff_le_log (by decide) hx, zpow_sub₀ two_ne_zero,
    div_le_div_iff_of_pos_right hpos, Nat.cast_ofNat]

/-- The one double whose interval reaches below its own exponent is a power of two. -/
theorem mantissa_eq_of_contains_of_lt {x : ℚ} (hexponent : -1074 < d.exponent)
    (h : d.readBack.Contains x) (hlt : x / 2 ^ d.exponent < 2 ^ 52) :
    d.mantissa = 2 ^ 52 ∧ (2 : ℚ) ^ 52 - 1 / 4 ≤ x / 2 ^ d.exponent := by
  have hlead := le_mantissa_of_lt_exponent hexponent
  have hrounds := roundsTo_of_contains (by omega) h
  have hmantissa : d.mantissa = 2 ^ 52 := by
    have hless : (d.mantissa : ℚ) < (2 ^ 52 + 1 : Nat) := by
      push_cast
      linarith [hrounds.1.1]
    have := Nat.cast_lt.mp hless
    omega
  have hquarter := le_of_contains_of_fraction_eq_zero (d := d)
    (by rcases d.mantissa_cases with ⟨-, -, he⟩ | ⟨-, hm, -⟩ <;> omega)
    (by rcases d.mantissa_cases with ⟨-, -, he⟩ | ⟨-, -, he⟩ <;> omega) h
  rw [hmantissa] at hquarter
  exact ⟨hmantissa, by exact_mod_cast hquarter⟩

/-- **A fraction in the interval of a finite double is rounded to it.** -/
theorem nearestMagnitude_of_contains (hfinite : d.IsFinite) (hm : d.mantissa ≠ 0)
    (hden : den ≠ 0) (h : d.readBack.Contains (num / den)) :
    nearestMagnitude num den = d.magnitude := by
  have hpos : (0 : ℚ) < num / den :=
    lt_of_lt_of_le (by positivity) (two_zpow_le_of_contains hm h)
  have hnum : num ≠ 0 := by
    rintro rfl
    simp at hpos
  have hmagnitude := d.magnitude_eq
  have hleast := d.le_exponent
  have hbits : d.magnitude < infinityBits := hfinite
  have hbelow : Int.log 2 ((num : ℚ) / den) < d.exponent + 53 := by
    rw [← not_le, le_log_iff hpos d.exponent, not_le, add_sub_cancel_left]
    exact div_lt_of_contains hm h
  by_cases hsame : d.exponent = -1074 ∨ (2 : ℚ) ^ 52 ≤ num / den / 2 ^ d.exponent
  · have he : max (Int.log 2 ((num : ℚ) / den) - 52) (-1074) = d.exponent := by
      rcases hsame with heq | hge
      · omega
      · have : d.exponent + 52 ≤ Int.log 2 ((num : ℚ) / den) := by
          rw [le_log_iff hpos d.exponent, add_sub_cancel_left]
          exact hge
        omega
    rw [nearestMagnitude_eq hnum hden he (roundsTo_of_contains hm h)]
    omega
  · -- Just below a power of two: the fraction has the exponent below and rounds up.
    obtain ⟨hexponent, hlt⟩ := not_or.mp hsame
    rw [not_le] at hlt
    obtain ⟨hmantissa, hquarter⟩ := mantissa_eq_of_contains_of_lt (by omega) h hlt
    have he : max (Int.log 2 ((num : ℚ) / den) - 52) (-1074) = d.exponent - 1 := by
      have hge : d.exponent + 51 ≤ Int.log 2 ((num : ℚ) / den) := by
        rw [le_log_iff hpos d.exponent, add_sub_cancel_left]
        exact le_trans (by norm_num) hquarter
      have hle : Int.log 2 ((num : ℚ) / den) < d.exponent + 52 := by
        rw [← not_le, le_log_iff hpos d.exponent, not_le, add_sub_cancel_left]
        exact hlt
      omega
    have hdouble : (num / den / 2 ^ (d.exponent - 1) : ℚ) = 2 * (num / den / 2 ^ d.exponent) := by
      rw [zpow_sub₀ two_ne_zero]
      field_simp
    have hq : RoundsTo (num / den / 2 ^ (d.exponent - 1)) (2 ^ 53) := by
      rw [hdouble]
      push_cast
      exact ⟨⟨by linarith, by linarith⟩, fun hodd => by omega⟩
    rw [nearestMagnitude_eq hnum hden he hq]
    omega

/-- Where decimals are not looked at, they are beyond all finite doubles. -/
theorem two_pow_le_ten_pow : 2 ^ 1075 ≤ 10 ^ 330 := by decide +kernel

/-- A decimal in the interval of a finite double is rounded to it: it is neither too large nor too
small to be looked at. -/
theorem ofDecimal_of_contains {digits : Nat} {exponent : Int} (hfinite : d.IsFinite)
    (hm : d.mantissa ≠ 0) (h : d.readBack.Contains (digits * 10 ^ exponent)) :
    ofDecimal d.isNegative digits exponent = d := by
  have hlow := two_zpow_le_of_contains hm h
  have hhigh := lt_two_zpow_of_contains hfinite hm h
  have hdigits : digits ≠ 0 := by
    rintro rfl
    rw [Nat.cast_zero, zero_mul] at hlow
    exact absurd hlow (not_le.mpr (by positivity))
  have hless : (digits : ℚ) < 10 ^ ((Text.digits digits).length : Int) := by
    rw [zpow_natCast]
    exact_mod_cast Text.lt_pow_length_digits digits
  have hmore : (10 : ℚ) ^ (((Text.digits digits).length : Int) - 1) ≤ digits := by
    have hlength := Text.length_digits_pos digits
    rw [← Nat.cast_pred hlength, zpow_natCast]
    exact_mod_cast Text.pow_length_digits_le hdigits
  have hnotSmall : ¬ (((Text.digits digits).length : Int) + exponent < -330) := fun hsmall => by
    refine absurd hlow (not_le.mpr ?_)
    calc (digits * 10 ^ exponent : ℚ)
        < 10 ^ ((Text.digits digits).length : Int) * 10 ^ exponent := by gcongr
      _ = 10 ^ (((Text.digits digits).length : Int) + exponent) :=
        (zpow_add₀ (by decide) ..).symm
      _ ≤ 10 ^ (-330 : Int) := by
        gcongr
        · decide
      _ ≤ 2 ^ (-1075 : Int) := by
        rw [zpow_neg, zpow_neg, zpow_ofNat, zpow_ofNat]
        gcongr
        exact_mod_cast two_pow_le_ten_pow
  have hnotLarge : ¬ (330 < ((Text.digits digits).length : Int) + exponent) := fun hlarge => by
    refine absurd hhigh (not_lt.mpr ?_)
    calc (2 : ℚ) ^ (1024 : Int) ≤ 2 ^ (1075 : Int) := by
          gcongr <;> decide
      _ ≤ 10 ^ (330 : Int) := by
        rw [zpow_ofNat, zpow_ofNat]
        exact_mod_cast two_pow_le_ten_pow
      _ ≤ 10 ^ (((Text.digits digits).length : Int) - 1 + exponent) := by
        gcongr
        · decide
        · omega
      _ = 10 ^ (((Text.digits digits).length : Int) - 1) * 10 ^ exponent := zpow_add₀ (by decide) ..
      _ ≤ digits * 10 ^ exponent := by gcongr
  have hquotient : ((digits * 10 ^ exponent.toNat : Nat) : ℚ) / ((10 ^ (-exponent).toNat : Nat) : ℚ)
      = digits * 10 ^ exponent := by
    have hpow := pow_toNat_div (b := 10) (by decide) exponent
    rw [Nat.cast_mul, mul_div_assoc, hpow, Nat.cast_ofNat]
  simp only [ofDecimal, nearest, Nat.pow_eq]
  rw [if_neg (not_or.mpr ⟨hdigits, hnotSmall⟩), if_neg hnotLarge,
    nearestMagnitude_of_contains hfinite hm (Nat.pow_pos (by decide)).ne' (by rwa [hquotient]),
    ofMagnitude_magnitude]

end

end Double
end Opstack
