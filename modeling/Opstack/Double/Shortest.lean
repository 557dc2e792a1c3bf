import Opstack.Double.Basic

/-!
# The shortest decimal of a double

A decimal reads back as the double nearest to it, so it names the double exactly when it lies in
the interval halfway to the two neighbours; the ends belong to the interval when the mantissa is
even.  `shortest` looks for the coarsest grid of multiples of a power of ten that has a point in
the interval, and takes the point nearest to the double, the larger one of two that are equally
near.  On each grid only the two points on either side of the double matter.

The interval is kept in units of a quarter of the spacing above the double, where the double and
both ends are whole numbers.
-/

set_option autoImplicit false

namespace Opstack
namespace Double

/-- The number `digits · 10 ^ exponent`. -/
structure Decimal where
  /-- The digits, as one number. -/
  digits : Nat
  /-- The power of ten that they count. -/
  exponent : Int
deriving DecidableEq

/-- The decimals that read back as one double, in units of `2 ^ unit`. -/
structure ReadBack where
  /-- The power of two of the unit. -/
  unit : Int
  /-- The double itself. -/
  centre : Nat
  /-- Halfway to the neighbour below. -/
  low : Nat
  /-- Halfway to the neighbour above. -/
  high : Nat
  /-- The two ends belong to the interval. -/
  closed : Bool
deriving DecidableEq

/-- The interval of a finite double other than zero.  Below a power of two the spacing is half of
that above, except at the least exponent. -/
def readBack (d : Double) : ReadBack :=
  let m := d.mantissa
  { unit := d.exponent - 2
    centre := 4 * m
    low := if d.fraction = 0 ∧ 1 < d.exponentField then 4 * m - 1 else 4 * m - 2
    high := 4 * m + 2
    closed := m % 2 == 0 }

namespace ReadBack

/-- One unit, in multiples of `10 ^ p`: the numerator of the ratio. -/
def unitNum (r : ReadBack) (p : Int) : Nat :=
  Nat.pow 2 r.unit.toNat * Nat.pow 10 (-p).toNat

/-- One unit, in multiples of `10 ^ p`: the denominator of the ratio. -/
def unitDen (r : ReadBack) (p : Int) : Nat :=
  Nat.pow 2 (-r.unit).toNat * Nat.pow 10 p.toNat

/-- The point `k · 10 ^ p` lies in the interval. -/
def holds (r : ReadBack) (p : Int) (k : Nat) : Bool :=
  let point := k * r.unitDen p
  let low := r.low * r.unitNum p
  let high := r.high * r.unitNum p
  if r.closed then decide (low ≤ point ∧ point ≤ high) else decide (low < point ∧ point < high)

/-- The point of the grid of multiples of `10 ^ p` that is in the interval and nearest to the
centre. -/
def pick (r : ReadBack) (p : Int) : Option Nat :=
  let centre := r.centre * r.unitNum p
  let below := centre / r.unitDen p
  let rest := centre % r.unitDen p
  match r.holds p below, r.holds p (below + 1) with
  | true, true => if 2 * rest < r.unitDen p then some below else some (below + 1)
  | true, false => some below
  | false, true => some (below + 1)
  | false, false => none

/-- Looks at ever finer grids, from `10 ^ p` on; the last one holds the centre itself. -/
def search (r : ReadBack) : Nat → Int → Decimal
  | 0, p => ⟨r.centre * r.unitNum p / r.unitDen p, p⟩
  | n + 1, p =>
    match r.pick p with
    | some k => ⟨k, p⟩
    | none => r.search n (p - 1)

/-- A power of ten above the whole interval. -/
def coarsest (r : ReadBack) : Int := ((r.centre.log2 : Int) + r.unit + 2) * 30103 / 100000 + 2

/-- A power of ten on whose grid the centre lies: the unit itself is a multiple of it. -/
def finest (r : ReadBack) : Int := min r.unit 0

end ReadBack

/-- The shortest decimal that reads back as the finite double, without its sign. -/
def shortest (d : Double) : Decimal :=
  if d.mantissa = 0 then ⟨0, 0⟩
  else
    let r := d.readBack
    r.search (r.coarsest - r.finest).toNat r.coarsest

end Double
end Opstack
