import Opstack.Double.Rounding
import Opstack.Double.Shortest
import Opstack.Text.Numeral

/-!
# Doubles as text

`Double.text` writes a double and `Double.ofText?` reads one.

* A whole number below `10 ^ 16` is written exactly, with one zero after the point.
* Any other finite double is written as the shortest decimal that reads back, with all its places
  and never with an exponent.
* `NaN`, `Infinity` and `-Infinity` stand for the rest.

Reading takes an optional sign, then digits with an optional point among or around them and an
optional exponent, or one of the words `inf`, `infinity` and `nan` in any mixture of cases.
-/

set_option autoImplicit false

namespace Opstack
namespace Double

/-! ## Writing -/

/-- A decimal with all its places: no exponent, and no point after a whole number. -/
def Decimal.positional (x : Decimal) : List Char :=
  let ds := Text.digits x.digits
  if 0 ≤ x.exponent then ds ++ List.replicate x.exponent.toNat '0'
  else
    let places := (-x.exponent).toNat
    if places < ds.length then
      ds.take (ds.length - places) ++ '.' :: ds.drop (ds.length - places)
    else '0' :: '.' :: List.replicate (places - ds.length) '0' ++ ds

/-- The whole numbers from here on are written without a fractional digit. -/
def wholeTextLimit : Nat := Nat.pow 10 16

/-- The absolute value of a finite double as text. -/
def finiteText (d : Double) : List Char :=
  if d.isWhole ∧ d.wholePart < wholeTextLimit then Text.digits d.wholePart ++ ['.', '0']
  else d.shortest.positional

/-- The sign of a negative double. -/
def signText (d : Double) : List Char := if d.isNegative then ['-'] else []

/-- The text of a double. -/
def text (d : Double) : String :=
  if d.isNaN then "NaN"
  else if d.isInfinite then String.ofList (d.signText ++ "Infinity".toList)
  else String.ofList (d.signText ++ d.finiteText)

/-! ## Reading -/

/-- An optional sign and what follows it. -/
def splitSign : List Char → Bool × List Char
  | '-' :: cs => (true, cs)
  | '+' :: cs => (false, cs)
  | cs => (false, cs)

/-- What follows the digits of a numeral: nothing, or the letter `e` and a signed numeral. -/
def readExponent? : List Char → Option Int
  | [] => some 0
  | c :: cs => if c = 'e' ∨ c = 'E' then Text.readInt? cs else none

/-- Digits with an optional point, at least one digit in all, and an optional exponent. -/
def readDecimal? (negative : Bool) (cs : List Char) : Option Double :=
  let whole := cs.takeWhile Char.isDigit
  let (places, rest) : List Char × List Char :=
    match cs.dropWhile Char.isDigit with
    | '.' :: tail => (tail.takeWhile Char.isDigit, tail.dropWhile Char.isDigit)
    | tail => ([], tail)
  let digits := whole ++ places
  if digits.isEmpty then none
  else
    (readExponent? rest).map fun exponent =>
      ofDecimal negative (Text.natOfDigits digits) (exponent - places.length)

/-- One of the words for the doubles that are not finite, in any mixture of cases. -/
def readWord? (negative : Bool) (cs : List Char) : Option Double :=
  let word := cs.map Char.toLower
  if word = "inf".toList ∨ word = "infinity".toList then some (infinity negative)
  else if word = "nan".toList then some nan
  else none

/-- The double that a text names. -/
def ofText? (s : String) : Option Double :=
  let (negative, cs) := splitSign s.toList
  match readWord? negative cs with
  | some d => some d
  | none => readDecimal? negative cs

end Double
end Opstack
