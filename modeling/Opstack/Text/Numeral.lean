/-!
# Numerals

Whole numbers as text, in decimal.  Only the ten ASCII digits count; there is no digit separator
and no white space around a numeral.

* `natText` and `intText` write a number without leading zeros.
* `natOfDigits` is the value of a digit list, `readNat?` reads an unsigned numeral and `readInt64?`
  a signed one that must fit in sixty-four bits.
-/

set_option autoImplicit false

namespace Opstack
namespace Text

/-! ## Writing -/

/-- The digits of a number, most significant first. -/
def digits (n : Nat) : List Char := Nat.toDigits 10 n

/-- The numeral of a natural number. -/
def natText (n : Nat) : String := String.ofList (digits n)

/-- The numeral of an integer; only negative numbers have a sign. -/
def intText (n : Int) : String :=
  if n < 0 then String.ofList ('-' :: digits n.natAbs) else natText n.natAbs

/-! ## Reading -/

/-- The value of a list of decimal digits, most significant first. -/
def natOfDigits (ds : List Char) : Nat :=
  ds.foldl (fun n d => n * 10 + (d.toNat - '0'.toNat)) 0

/-- The value of one or more ASCII digits. -/
def readNat? (cs : List Char) : Option Nat :=
  if cs.isEmpty || !cs.all Char.isDigit then none else some (natOfDigits cs)

/-- The value of an optional sign and one or more ASCII digits. -/
def readInt? : List Char → Option Int
  | '-' :: cs => (readNat? cs).map fun n => -(n : Int)
  | '+' :: cs => (readNat? cs).map fun n => (n : Int)
  | cs => (readNat? cs).map fun n => (n : Int)

/-- The number that a signed numeral names, if it fits in sixty-four bits. -/
def readInt64? (s : String) : Option Int64 :=
  match readInt? s.toList with
  | some n =>
    if Int64.minValue.toInt ≤ n ∧ n ≤ Int64.maxValue.toInt then some (Int64.ofInt n) else none
  | none => none

end Text
end Opstack
