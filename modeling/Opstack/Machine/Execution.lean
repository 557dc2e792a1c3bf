import Opstack.Console
import Opstack.Frame
import Opstack.Heap
import Opstack.Value.Operations

/-!
# Executions

An execution is one thread of control: its operand stack and its call stack, both with the top
first.  This module holds what single instructions do to them.  Instructions that work on the heap
or the console get it and hand it back.

Every operation first takes what it needs from the stacks and fails with a fault if something is
missing or of the wrong kind.
-/

set_option autoImplicit false

namespace Opstack

/-- One thread of control. -/
structure Execution where
  /-- The number of the thread, unless the execution was started by a call from outside. -/
  thread : Option ThreadId
  /-- The call from outside that it belongs to. -/
  call : Nat
  /-- The operands, the topmost first. -/
  operands : List Value
  /-- The activations, the innermost first. -/
  frames : List Frame

/-! ## Operands of instructions -/

namespace Instr

/-- The literal that the instruction carries. -/
def literalArg (i : Instr) : Except Fault Value :=
  match i.arg with
  | some (.literal v) => .ok v
  | _ => .error .malformedInstruction

/-- The slot that the instruction names. -/
def slotArg (i : Instr) : Except Fault Nat :=
  match i.arg with
  | some (.slot n) => .ok n
  | _ => .error .malformedInstruction

/-- The instruction that a jump names. -/
def targetArg (i : Instr) : Except Fault Nat :=
  match i.arg with
  | some (.target n) => .ok n
  | _ => .error .malformedInstruction

/-- The routine or field that the instruction names. -/
def nameArg (i : Instr) : Except Fault String :=
  match i.arg with
  | some (.name s) => .ok s
  | _ => .error .malformedInstruction

end Instr

namespace Value

/-- The object that an operand refers to. -/
def asObject (op : Opcode) : Value → Except Fault ObjectId
  | .ref o => .ok o
  | .null => .error (.nullReference op)
  | v => .error (.typeMismatch op v.typeName)

/-- The index that an operand is. -/
def asIndex (op : Opcode) : Value → Except Fault Int64
  | .int n => .ok n
  | .null => .error (.nullReference op)
  | v => .error (.typeMismatch op v.typeName)

/-- The number that an operand is. -/
def asNumber (op : Opcode) : Value → Except Fault Int64
  | .int n => .ok n
  | .null => .error (.nullOperand op)
  | v => .error (.typeMismatch op v.typeName)

/-- The text that an operand is. -/
def asText (op : Opcode) : Value → Except Fault String
  | .str s => .ok s
  | .null => .error (.nullOperand op)
  | v => .error (.typeMismatch op v.typeName)

end Value

namespace Execution

/-! ## Stacks -/

/-- Pushes an operand. -/
def push (x : Execution) (v : Value) : Execution := { x with operands := v :: x.operands }

/-- Takes the topmost operand off. -/
def pop : Execution → Except Fault (Value × Execution)
  | ⟨thread, call, v :: rest, frames⟩ => .ok (v, ⟨thread, call, rest, frames⟩)
  | ⟨_, _, [], _⟩ => .error .stackUnderflow

/-- Pushes the topmost operand again. -/
def dup (x : Execution) : Except Fault Execution :=
  match x.operands with
  | v :: _ => .ok (x.push v)
  | [] => .error .stackUnderflow

/-- Pushes the value of a slot. -/
def load (x : Execution) (slot : Nat) : Except Fault Execution :=
  match x.frames with
  | f :: _ => do
    let v ← f.load slot
    return x.push v
  | [] => .error .stackUnderflow

/-- Moves the topmost operand into a slot below a limit. -/
def store (x : Execution) (slot limit : Nat) : Except Fault Execution :=
  match x with
  | ⟨thread, call, v :: rest, f :: fs⟩ => do
    let f ← f.store slot v limit
    return ⟨thread, call, rest, f :: fs⟩
  | _ => .error .stackUnderflow

/-- Replaces the topmost operand. -/
def unary (x : Execution) (op : UnaryOp) : Except Fault Execution := do
  let (v, x) ← x.pop
  let result ← Value.unary op v
  return x.push result

/-- Replaces the two topmost operands, of which the topmost is the second. -/
def binary (x : Execution) (op : BinaryOp) : Except Fault Execution := do
  let (b, x) ← x.pop
  let (a, x) ← x.pop
  let result ← Value.binary op a b
  return x.push result

/-! ## Control -/

/-- Continues at an instruction of the same routine. -/
def jump (x : Execution) (target : Nat) : Except Fault Execution :=
  match x with
  | ⟨thread, call, operands, f :: fs⟩ =>
    .ok ⟨thread, call, operands, { f with pc := target } :: fs⟩
  | ⟨_, _, _, []⟩ => .error .stackUnderflow

/-- Takes a truth value off and continues at an instruction of the same routine if it is false. -/
def jumpUnless (x : Execution) (target : Nat) : Except Fault Execution := do
  let (condition, x) ← x.pop
  match condition.asBool? with
  | some true => return x
  | some false => x.jump target
  | none => .error (.nonBoolean .jmpf)

/-- Enters a routine, unless the call stack is full. -/
def enter (x : Execution) (routine : Routine) (limit : Nat) : Except Fault Execution :=
  if limit ≤ x.frames.length then .error (.callDepthExceeded limit)
  else .ok { x with frames := { routine } :: x.frames }

/-- Leaves the innermost routine. -/
def leave (x : Execution) : Execution := { x with frames := x.frames.tail }

/-! ## Heap -/

/-- Replaces a text or array by its length. -/
def pushLength (x : Execution) (h : Heap) : Except Fault Execution := do
  let (v, x) ← x.pop
  match v with
  | .null => .error (.nullOperand .len)
  | .str s => return x.push (.int (Int64.ofNat s.length))
  | .ref o => do
    let n ← h.arrayLength o
    return x.push (.int (Int64.ofNat n))
  | v => .error (.typeMismatch .len v.typeName)

/-- Pushes a new record. -/
def newRecord (x : Execution) (h : Heap) : Execution × Heap :=
  let (o, h) := h.allocRecord
  (x.push (.ref o), h)

/-- Takes a value and a record off and sets a field of the record. -/
def setField (x : Execution) (h : Heap) (i : Instr) : Except Fault Execution × Heap :=
  let operands : Except Fault (Value × ObjectId × String × Execution) := do
    let (v, x) ← x.pop
    let (r, x) ← x.pop
    let o ← r.asObject .setf
    let field ← i.nameArg
    return (v, o, field, x)
  match operands with
  | .error e => (.error e, h)
  | .ok (v, o, field, x) =>
    match h.setField o field v with
    | (.error e, h) => (.error e, h)
    | (.ok (), h) => (.ok x, h)

/-- Replaces a record by the value of a field. -/
def getField (x : Execution) (h : Heap) (i : Instr) : Except Fault Execution := do
  let (r, x) ← x.pop
  let o ← r.asObject .getf
  let field ← i.nameArg
  let v ← h.getField o field
  return x.push v

/-- Replaces a length by a new array. -/
def newArray (x : Execution) (h : Heap) : Except Fault Execution × Heap :=
  let operands : Except Fault (Int64 × Execution) := do
    let (v, x) ← x.pop
    let length ← v.asNumber .alloca
    return (length, x)
  match operands with
  | .error e => (.error e, h)
  | .ok (length, x) =>
    match h.allocArray length with
    | (.error e, h) => (.error e, h)
    | (.ok o, h) => (.ok (x.push (.ref o)), h)

/-- Takes a value, an index and an array off and sets a cell of the array. -/
def setIndex (x : Execution) (h : Heap) : Except Fault Execution × Heap :=
  let operands : Except Fault (Value × ObjectId × Int64 × Execution) := do
    let (v, x) ← x.pop
    let (n, x) ← x.pop
    let (r, x) ← x.pop
    let o ← r.asObject .seti
    let index ← n.asIndex .seti
    return (v, o, index, x)
  match operands with
  | .error e => (.error e, h)
  | .ok (v, o, index, x) =>
    match h.setIndex o index v with
    | (.error e, h) => (.error e, h)
    | (.ok (), h) => (.ok x, h)

/-- Replaces an array and an index by the value of a cell. -/
def getIndex (x : Execution) (h : Heap) : Except Fault Execution := do
  let (n, x) ← x.pop
  let (r, x) ← x.pop
  let o ← r.asObject .geti
  let index ← n.asIndex .geti
  let v ← h.getIndex o index
  return x.push v

/-! ## Console -/

/-- Writes the topmost operand. -/
def write (x : Execution) (c : Console) : Except Fault Execution × Console :=
  match x.pop with
  | .error e => (.error e, c)
  | .ok (v, x) =>
    match c.write v.text with
    | (.error reason, c) => (.error (.io reason), c)
    | (.ok (), c) => (.ok x, c)

/-- Pushes the next line of the input, or `null` at its end. -/
def read (x : Execution) (c : Console) : Except Fault Execution × Console :=
  match c.readLine with
  | (.error reason, c) => (.error (.io reason), c)
  | (.ok (some line), c) => (.ok (x.push (.str line)), c)
  | (.ok none, c) => (.ok (x.push .null), c)

end Execution
end Opstack
