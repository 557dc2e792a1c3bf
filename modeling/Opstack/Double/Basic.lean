/-!
# Doubles

A double is a pattern of sixty-four bits in the binary64 format: a sign, an exponent field of
eleven bits and a fraction of fifty-two.

* `Double.mantissa` and `Double.exponent` give the finite double `± mantissa · 2 ^ exponent`.
* `Double.lt`, `Double.le` and `Double.eq` compare by value: a NaN is unordered and the two zeros
  are equal.
* `Double.add`, `Double.sub`, `Double.mul` and `Double.div` are the correctly rounded operations
  of the format.
* `Double.truncate` drops the fraction and clamps to the signed integers of sixty-four bits.

All but the four operations is exact arithmetic on `Nat` and `Int`.
-/

set_option autoImplicit false

namespace Opstack

/-- A number in the binary64 format, as its bits. -/
structure Double where
  /-- Sign, exponent field and fraction, from the highest bit to the lowest. -/
  bits : UInt64
deriving DecidableEq, Inhabited

namespace Double

/-! ## The three fields -/

/-- The bits of the positive infinity. -/
def infinityBits : Nat := 0x7ff0000000000000

/-- The bits without the sign.  They are ordered as the absolute values are. -/
def magnitude (d : Double) : Nat := d.bits.toNat % Nat.pow 2 63

/-- The sign bit is set. -/
def isNegative (d : Double) : Bool := Nat.pow 2 63 ≤ d.bits.toNat

/-- The eleven bits of the exponent field. -/
def exponentField (d : Double) : Nat := d.magnitude / Nat.pow 2 52

/-- The fifty-two bits of the fraction. -/
def fraction (d : Double) : Nat := d.magnitude % Nat.pow 2 52

/-- The exponent field is full and the fraction is not empty. -/
def isNaN (d : Double) : Bool := infinityBits < d.magnitude

/-- The double is one of the two infinities. -/
def isInfinite (d : Double) : Bool := d.magnitude == infinityBits

/-- The double with these bits below the sign. -/
def ofMagnitude (negative : Bool) (magnitude : Nat) : Double :=
  ⟨UInt64.ofNat ((if negative then Nat.pow 2 63 else 0) + magnitude)⟩

/-- A NaN. -/
def nan : Double := ⟨0x7ff8000000000000⟩

/-- The infinity of a sign. -/
def infinity (negative : Bool) : Double := ofMagnitude negative infinityBits

/-- The zero of a sign. -/
def zero (negative : Bool) : Double := ofMagnitude negative 0

/-! ## The value of a finite double -/

/-- The mantissa `m` of the finite double `± m · 2 ^ e`; subnormals lack the leading bit. -/
def mantissa (d : Double) : Nat :=
  if d.exponentField = 0 then d.fraction else d.fraction + Nat.pow 2 52

/-- The exponent `e` of the finite double `± m · 2 ^ e`; subnormals share the least one. -/
def exponent (d : Double) : Int := (max d.exponentField 1 : Nat) - 1075

/-- The absolute value of a finite double without its fraction. -/
def wholePart (d : Double) : Nat :=
  d.mantissa * Nat.pow 2 d.exponent.toNat / Nat.pow 2 (-d.exponent).toNat

/-- The finite double is a whole number. -/
def isWhole (d : Double) : Bool := d.mantissa % Nat.pow 2 (-d.exponent).toNat == 0

/-! ## Order -/

/-- An integer that orders the doubles other than NaN by value, with one image for both zeros. -/
def rank (d : Double) : Int := if d.isNegative then -(d.magnitude : Int) else d.magnitude

/-- The first double is less than the second; never true of a NaN. -/
def lt (a b : Double) : Bool := !a.isNaN && !b.isNaN && decide (a.rank < b.rank)

/-- The first double is at most the second; never true of a NaN. -/
def le (a b : Double) : Bool := !a.isNaN && !b.isNaN && decide (a.rank ≤ b.rank)

/-- The doubles have the same value; never true of a NaN. -/
def eq (a b : Double) : Bool := !a.isNaN && !b.isNaN && decide (a.rank = b.rank)

/-! ## Arithmetic -/

/-- The rounded sum. -/
def add (a b : Double) : Double := ⟨(Float.ofBits a.bits + Float.ofBits b.bits).toBits⟩

/-- The rounded difference. -/
def sub (a b : Double) : Double := ⟨(Float.ofBits a.bits - Float.ofBits b.bits).toBits⟩

/-- The rounded product. -/
def mul (a b : Double) : Double := ⟨(Float.ofBits a.bits * Float.ofBits b.bits).toBits⟩

/-- The rounded quotient. -/
def div (a b : Double) : Double := ⟨(Float.ofBits a.bits / Float.ofBits b.bits).toBits⟩

/-- The double is one of the two zeros. -/
def isZero (d : Double) : Bool := d.magnitude == 0

/-- The integer nearest to zero on the way from the double to zero, clamped to the signed integers
of sixty-four bits; a NaN becomes zero. -/
def truncate (d : Double) : Int64 :=
  if d.isNaN then 0
  else if d.isNegative then
    if d.isInfinite || Nat.pow 2 63 ≤ d.wholePart then Int64.minValue else Int64.ofInt (-d.wholePart)
  else
    if d.isInfinite || Nat.pow 2 63 ≤ d.wholePart then Int64.maxValue else Int64.ofNat d.wholePart

end Double
end Opstack
