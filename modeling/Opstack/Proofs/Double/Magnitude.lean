import Mathlib.Algebra.Order.Field.Power
import Mathlib.Algebra.Order.Ring.Cast
import Mathlib.Data.Nat.Cast.Field
import Mathlib.Data.Rat.Floor
import Mathlib.Tactic.FieldSimp
import Mathlib.Tactic.Linarith
import Mathlib.Tactic.Positivity
import Mathlib.Tactic.Ring
import Opstack.Double.Shortest

/-!
# The values of doubles

The bits of a finite double below its sign are `(exponent + 1074) · 2 ^ 52 + mantissa`, both with
and without the leading bit of the mantissa (`Double.magnitude_eq`), and its absolute value is the
rational number `mantissa · 2 ^ exponent` (`Double.absValue`).

Powers with an integer exponent are kept as a quotient of two powers of natural numbers where
things are computed; `pow_toNat_div` takes them back.
-/

set_option autoImplicit false

namespace Opstack

/-- A power with an integer exponent, of which one of the two parts is one. -/
theorem pow_toNat_div {b : Nat} (hb : b ≠ 0) (a : Int) :
    ((b ^ a.toNat : Nat) : ℚ) / ((b ^ (-a).toNat : Nat) : ℚ) = (b : ℚ) ^ a := by
  obtain ⟨n, rfl | rfl⟩ := a.eq_nat_or_neg
  · simp
  · have hb' : (b : ℚ) ≠ 0 := Nat.cast_ne_zero.mpr hb
    simp

namespace Double

/-! ## The bits -/

variable (d : Double)

/-- The double is neither a NaN nor infinite. -/
def IsFinite : Prop := d.magnitude < infinityBits

instance : Decidable d.IsFinite := inferInstanceAs (Decidable (d.magnitude < infinityBits))

theorem isFinite_iff : d.IsFinite ↔ d.isNaN = false ∧ d.isInfinite = false := by
  rw [IsFinite, isNaN, isInfinite, decide_eq_false_iff_not, beq_eq_false_iff_ne]
  omega

/-- The sign and the bits below it are all the bits. -/
theorem ofMagnitude_magnitude : ofMagnitude d.isNegative d.magnitude = d := by
  obtain ⟨bits⟩ := d
  have hlt := bits.toNat_lt
  have hbits : (if 2 ^ 63 ≤ bits.toNat then 2 ^ 63 else 0) + bits.toNat % 2 ^ 63 = bits.toNat := by
    split <;> omega
  simp only [ofMagnitude, isNegative, magnitude, decide_eq_true_eq]
  exact congrArg Double.mk ((congrArg UInt64.ofNat hbits).trans UInt64.ofNat_toNat)

/-- A subnormal double has the least exponent, any other one the leading bit of the mantissa. -/
theorem mantissa_cases :
    (d.exponentField = 0 ∧ d.mantissa = d.fraction ∧ d.exponent = -1074) ∨
      (0 < d.exponentField ∧ d.mantissa = d.fraction + 2 ^ 52 ∧
        d.exponent = d.exponentField - 1075) := by
  rw [mantissa, exponent]
  by_cases h : d.exponentField = 0
  · exact .inl ⟨h, if_pos h, by rw [h]; rfl⟩
  · exact .inr ⟨Nat.pos_of_ne_zero h, if_neg h, by rw [Nat.max_eq_left (Nat.pos_of_ne_zero h)]⟩

theorem fraction_lt : d.fraction < 2 ^ 52 := Nat.mod_lt _ (by decide)

theorem magnitude_split : d.magnitude = d.exponentField * 2 ^ 52 + d.fraction :=
  (Nat.div_add_mod' _ _).symm

/-- **The bits below the sign, by mantissa and exponent.** -/
theorem magnitude_eq : (d.magnitude : Int) = (d.exponent + 1074) * 2 ^ 52 + d.mantissa := by
  rcases d.mantissa_cases with ⟨hf, hm, he⟩ | ⟨hf, hm, he⟩ <;>
    rw [magnitude_split, hm, he] <;> omega

theorem mantissa_lt : d.mantissa < 2 ^ 53 := by
  have := d.fraction_lt
  rcases d.mantissa_cases with ⟨-, hm, -⟩ | ⟨-, hm, -⟩ <;> omega

theorem le_exponent : -1074 ≤ d.exponent := by
  rcases d.mantissa_cases with ⟨-, -, he⟩ | ⟨hf, -, he⟩ <;> omega

theorem le_mantissa_of_lt_exponent {d : Double} (h : -1074 < d.exponent) :
    2 ^ 52 ≤ d.mantissa := by
  rcases d.mantissa_cases with ⟨-, -, he⟩ | ⟨-, hm, -⟩ <;> omega

theorem exponent_le_of_isFinite {d : Double} (h : d.IsFinite) : d.exponent ≤ 971 := by
  have hsplit := d.magnitude_split
  have hbits : d.magnitude < 0x7ff0000000000000 := h
  rcases d.mantissa_cases with ⟨-, -, he⟩ | ⟨-, -, he⟩ <;> omega

theorem mantissa_eq_zero_iff : d.mantissa = 0 ↔ d.magnitude = 0 := by
  have hsplit := d.magnitude_split
  rcases d.mantissa_cases with ⟨hf, hm, -⟩ | ⟨hf, hm, -⟩ <;> omega

/-! ## The absolute value -/

/-- The absolute value of a finite double. -/
def absValue : ℚ := d.mantissa * 2 ^ d.exponent

theorem absValue_eq_div :
    d.absValue = ((d.mantissa * 2 ^ d.exponent.toNat : Nat) : ℚ) /
      ((2 ^ (-d.exponent).toNat : Nat) : ℚ) := by
  have h := pow_toNat_div two_ne_zero d.exponent
  rw [absValue, Nat.cast_mul, mul_div_assoc, h, Nat.cast_ofNat]

theorem isWhole_iff_dvd : d.isWhole = true ↔ 2 ^ (-d.exponent).toNat ∣ d.mantissa := by
  rw [isWhole, beq_iff_eq]
  exact (Nat.dvd_iff_mod_eq_zero ..).symm

/-- The whole part of a whole number is all of it. -/
theorem wholePart_of_isWhole {d : Double} (h : d.isWhole = true) :
    (d.wholePart : ℚ) = d.absValue := by
  rw [absValue_eq_div]
  exact Nat.cast_div (((isWhole_iff_dvd d).mp h).mul_right _)
    (Nat.cast_ne_zero.mpr (Nat.two_pow_pos _).ne')

end Double
end Opstack
