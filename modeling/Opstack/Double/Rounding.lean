import Opstack.Double.Basic
import Opstack.Text.Numeral

/-!
# The nearest double

`nearest negative num den` is the double nearest to the fraction `± num / den`, with ties to the
even mantissa; fractions beyond the largest finite double become infinite.  The fraction is scaled
by a power of two until its whole part has the fifty-three bits of a mantissa (fewer, at the least
exponent) and then rounded once, in exact arithmetic.

* `roundEven` rounds one quotient of natural numbers;
* `nearest` is the double nearest to a fraction;
* `ofDecimal` is the double nearest to a decimal `± digits · 10 ^ exponent`;
* `ofInt` is the double nearest to an integer.
-/

set_option autoImplicit false

namespace Opstack
namespace Double

/-- The whole number nearest to `num / den`, the even one of two that are equally near. -/
def roundEven (num den : Nat) : Nat :=
  let q := num / den
  let r := num % den
  if 2 * r < den ∨ (2 * r = den ∧ q % 2 = 0) then q else q + 1

/-- The whole number `k` with `2 ^ k ≤ num / den < 2 ^ (k + 1)`, for positive arguments. -/
def log2Ratio (num den : Nat) : Int :=
  let k : Int := (num.log2 : Int) - den.log2
  if den * Nat.pow 2 k.toNat ≤ num * Nat.pow 2 (-k).toNat then k else k - 1

/-- The bits below the sign of the double nearest to `num / den`.

The unit `2 ^ e` of the mantissa leaves fifty-three bits for it, but is never below the least
one.  A mantissa of `q` units has the bits `(e + 1074) · 2 ^ 52 + q` both with and without its
leading bit, and a mantissa that rounds up to the next power of two carries into the exponent
field, as it should. -/
def nearestMagnitude (num den : Nat) : Nat :=
  if num = 0 then 0
  else
    let e := max (log2Ratio num den - 52) (-1074)
    let q := roundEven (num * Nat.pow 2 (-e).toNat) (den * Nat.pow 2 e.toNat)
    min ((e + 1074).toNat * Nat.pow 2 52 + q) infinityBits

/-- The double nearest to `± num / den`, for a positive denominator. -/
def nearest (negative : Bool) (num den : Nat) : Double :=
  ofMagnitude negative (nearestMagnitude num den)

/-- The double nearest to an integer. -/
def ofInt (n : Int) : Double := nearest (decide (n < 0)) n.natAbs 1

/-- The double nearest to `± digits · 10 ^ exponent`.

A decimal of `n` digits lies between `10 ^ (n - 1 + exponent)` and `10 ^ (n + exponent)`, so the
two ends of the range are decided before any large power is formed. -/
def ofDecimal (negative : Bool) (digits : Nat) (exponent : Int) : Double :=
  let top : Int := ((Text.digits digits).length : Int) + exponent
  if digits = 0 ∨ top < -330 then zero negative
  else if 330 < top then infinity negative
  else nearest negative (digits * Nat.pow 10 exponent.toNat) (Nat.pow 10 (-exponent).toNat)

end Double
end Opstack
