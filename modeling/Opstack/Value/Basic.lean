import Opstack.Double.Text

/-!
# Values

A value is what the operand stack, a slot, a field, a cell and a variable hold: nothing, a signed
integer of sixty-four bits, a double, a truth value, a text or a reference to an object of the
heap.

* `Value.text` is the value as it is written to the output.
* `Value.typeName` is the word for the kind of a value in error messages.
* `Value.same` is the equality that programs can test.  It is not equality in the logic: a NaN
  differs from itself and the two zeros are the same.
-/

set_option autoImplicit false

namespace Opstack

/-- The number by which the heap knows an object. -/
abbrev ObjectId := Nat

/-- A value of a program. -/
inductive Value
  /-- The absence of a value. -/
  | null
  /-- A signed integer of sixty-four bits. -/
  | int (n : Int64)
  /-- A double. -/
  | double (d : Double)
  /-- A truth value. -/
  | bool (b : Bool)
  /-- A text. -/
  | str (s : String)
  /-- A reference to an object of the heap. -/
  | ref (object : ObjectId)
deriving DecidableEq, Inhabited

namespace Value

/-- The value as text. -/
def text : Value → String
  | .null => "null"
  | .int n => Text.intText n.toInt
  | .double d => d.text
  | .bool b => if b then "true" else "false"
  | .str s => s
  | .ref object => Text.natText object

/-- The word for the kind of the value. -/
def typeName : Value → String
  | .null => "null"
  | .int _ => "int"
  | .double _ => "double"
  | .bool _ => "bool"
  | .str _ => "string"
  | .ref _ => "object"

/-- The value is `null`. -/
def isNull : Value → Bool
  | .null => true
  | _ => false

/-- The truth value, of a value that is one. -/
def asBool? : Value → Option Bool
  | .bool b => some b
  | _ => none

/-- The integer, of a value that is one. -/
def asInt? : Value → Option Int64
  | .int n => some n
  | _ => none

/-- The object, of a value that refers to one. -/
def asRef? : Value → Option ObjectId
  | .ref object => some object
  | _ => none

/-- The equality of programs: values of different kinds differ, doubles are compared by value. -/
def same : Value → Value → Bool
  | .null, .null => true
  | .int a, .int b => a == b
  | .double a, .double b => a.eq b
  | .bool a, .bool b => a == b
  | .str a, .str b => a == b
  | .ref a, .ref b => a == b
  | _, _ => false

end Value
end Opstack
