import Opstack.Failure

/-!
# Operations on values

What the machine computes from one or two operands without looking anywhere else.  Integers wrap
around at sixty-four bits and are divided toward zero.  An operation looks at the kinds of its
operands when it is executed: `null` is refused first, and kinds that do not go together second,
naming the operand that breaks the pair.

* `Value.add`, `Value.sub`, `Value.mul`, `Value.div`: arithmetic, and concatenation of texts;
* `Value.less?`, `Value.lessEq?`: the order of integers, of doubles and of texts by code point;
* `Value.logical?`: conjunction and disjunction;
* `Value.charAt`: one character of a text;
* `Value.toInt`, `Value.toDouble`, `Value.toText`: conversions;
* `Value.binary` and `Value.unary` choose among them by opcode.
-/

set_option autoImplicit false

namespace Opstack
namespace Value

/-- Two operands that do not go together.  The second is at fault if the first could have been
part of some pair. -/
def mismatch (op : BinaryOp) (a b : Value) : Fault :=
  match a with
  | .int _ | .double _ | .str _ => .typeMismatch (.binary op) b.typeName
  | _ => .typeMismatch (.binary op) a.typeName

/-! ## Arithmetic -/

/-- The sum of two numbers of one kind, or two texts one after the other. -/
def add : Value → Value → Except Fault Value
  | .null, _ => .error (.nullOperand (.binary .add))
  | _, .null => .error (.nullOperand (.binary .add))
  | .int a, .int b => .ok (.int (a + b))
  | .double a, .double b => .ok (.double (a.add b))
  | .str a, .str b => .ok (.str (a ++ b))
  | a, b => .error (mismatch .add a b)

/-- The difference of two numbers of one kind. -/
def sub : Value → Value → Except Fault Value
  | .null, _ => .error (.nullOperand (.binary .sub))
  | _, .null => .error (.nullOperand (.binary .sub))
  | .int a, .int b => .ok (.int (a - b))
  | .double a, .double b => .ok (.double (a.sub b))
  | a, b => .error (mismatch .sub a b)

/-- The product of two numbers of one kind. -/
def mul : Value → Value → Except Fault Value
  | .null, _ => .error (.nullOperand (.binary .mul))
  | _, .null => .error (.nullOperand (.binary .mul))
  | .int a, .int b => .ok (.int (a * b))
  | .double a, .double b => .ok (.double (a.mul b))
  | a, b => .error (mismatch .mul a b)

/-- The quotient of two numbers of one kind; a divisor of zero, also of the double zero, is an
error. -/
def div : Value → Value → Except Fault Value
  | .null, _ => .error (.nullOperand (.binary .div))
  | _, .null => .error (.nullOperand (.binary .div))
  | .int a, .int b => if b = 0 then .error .divisionByZero else .ok (.int (a / b))
  | .double a, .double b =>
    if b.isZero then .error .divisionByZero else .ok (.double (a.div b))
  | a, b => .error (mismatch .div a b)

/-! ## Order and logic -/

/-- The first value is less than the second. -/
def less? : Value → Value → Except Fault Bool
  | .null, _ => .error (.nullOperand (.binary .cmplt))
  | _, .null => .error (.nullOperand (.binary .cmplt))
  | .int a, .int b => .ok (decide (a < b))
  | .double a, .double b => .ok (a.lt b)
  | .str a, .str b => .ok (decide (a < b))
  | a, b => .error (mismatch .cmplt a b)

/-- The first value is less than the second or equal to it. -/
def lessEq? : Value → Value → Except Fault Bool
  | .null, _ => .error (.nullOperand (.binary .cmple))
  | _, .null => .error (.nullOperand (.binary .cmple))
  | .int a, .int b => .ok (decide (a ≤ b))
  | .double a, .double b => .ok (a.le b)
  | .str a, .str b => .ok (!decide (b < a))
  | a, b => .error (mismatch .cmple a b)

/-- The conjunction of two truth values for `AND`, their disjunction for any other opcode. -/
def logical? (op : Opcode) (a b : Value) : Except Fault Bool :=
  match a.asBool?, b.asBool? with
  | some a, some b => .ok (if op = .binary .and then a && b else a || b)
  | _, _ => .error (.nonBoolean op)

/-- The opposite truth value. -/
def negate (v : Value) : Except Fault Value :=
  match v.asBool? with
  | some b => .ok (.bool !b)
  | none => .error (.nonBoolean (.unary .not))

/-! ## Texts -/

/-- The character of a text at an index that may be negative. -/
def charAt? (s : String) (index : Int64) : Option Char :=
  if index < 0 then none else s.toList[index.toInt.toNat]?

/-- The text of one character that stands at an index of a text. -/
def charAt : Value → Value → Except Fault Value
  | .null, _ => .error (.nullOperand (.binary .getc))
  | _, .null => .error (.nullOperand (.binary .getc))
  | .str s, .int index =>
    match charAt? s index with
    | some c => .ok (.str (String.ofList [c]))
    | none => .error (.indexOutOfBounds index s.length)
  | a, b => .error (mismatch .getc a b)

/-! ## Conversions -/

/-- Reads an integer from a text, or truncates a double. -/
def toInt : Value → Except Fault Value
  | .null => .error (.nullOperand (.unary .toint))
  | .str s =>
    match Text.readInt64? s with
    | some n => .ok (.int n)
    | none => .error (.invalidConversion "int" s)
  | .double d => .ok (.int d.truncate)
  | v => .error (.typeMismatch (.unary .toint) v.typeName)

/-- Reads a double from a text, or takes the one nearest to an integer. -/
def toDouble : Value → Except Fault Value
  | .null => .error (.nullOperand (.unary .todbl))
  | .str s =>
    match Double.ofText? s with
    | some d => .ok (.double d)
    | none => .error (.invalidConversion "double" s)
  | .int n => .ok (.double (Double.ofInt n.toInt))
  | v => .error (.typeMismatch (.unary .todbl) v.typeName)

/-- Writes a number as a text. -/
def toText : Value → Except Fault Value
  | .null => .error (.nullOperand (.unary .tostr))
  | .int n => .ok (.str (Value.int n).text)
  | .double d => .ok (.str (Value.double d).text)
  | v => .error (.typeMismatch (.unary .tostr) v.typeName)

/-! ## Choice by opcode -/

/-- What a binary operation makes of its operands, the earlier one first. -/
def binary : BinaryOp → Value → Value → Except Fault Value
  | .add, a, b => a.add b
  | .sub, a, b => a.sub b
  | .mul, a, b => a.mul b
  | .div, a, b => a.div b
  | .cmplt, a, b => (a.less? b).map .bool
  | .cmple, a, b => (a.lessEq? b).map .bool
  | .cmpeq, a, b => .ok (.bool (a.same b))
  | .cmpne, a, b => .ok (.bool (!a.same b))
  | .and, a, b => (a.logical? (.binary .and) b).map .bool
  | .or, a, b => (a.logical? (.binary .or) b).map .bool
  | .getc, a, b => a.charAt b

/-- What a unary operation makes of its operand. -/
def unary : UnaryOp → Value → Except Fault Value
  | .not, v => v.negate
  | .toint, v => v.toInt
  | .todbl, v => v.toDouble
  | .tostr, v => v.toText

end Value
end Opstack
