/-!
# Opcodes

The operations of the machine.  Those that replace the one or two topmost operands by a value
computed from them alone are grouped by how many they take (`UnaryOp`, `BinaryOp`); every other
opcode stands for itself.  `Opcode.mnemonic` is the word for an opcode in listings and messages.
-/

set_option autoImplicit false

namespace Opstack

/-- Operations that replace the two topmost operands by one value. -/
inductive BinaryOp
  /-- Sum of numbers, or concatenation of texts. -/
  | add
  /-- Difference. -/
  | sub
  /-- Product. -/
  | mul
  /-- Quotient, toward zero on integers. -/
  | div
  /-- Less than. -/
  | cmplt
  /-- Less than or equal. -/
  | cmple
  /-- Equal. -/
  | cmpeq
  /-- Different. -/
  | cmpne
  /-- Both are true. -/
  | and
  /-- At least one is true. -/
  | or
  /-- The character of a text at an index. -/
  | getc
deriving DecidableEq

/-- Operations that replace the topmost operand by one value. -/
inductive UnaryOp
  /-- The opposite truth value. -/
  | not
  /-- Conversion to an integer. -/
  | toint
  /-- Conversion to a double. -/
  | todbl
  /-- Conversion to a text. -/
  | tostr
deriving DecidableEq

/-- The operations of the machine. -/
inductive Opcode
  /-- Push a literal. -/
  | push
  /-- Drop the topmost operand. -/
  | pop
  /-- Push the value of a slot. -/
  | load
  /-- Move the topmost operand into a slot. -/
  | store
  /-- Combine the two topmost operands. -/
  | binary (op : BinaryOp)
  /-- Transform the topmost operand. -/
  | unary (op : UnaryOp)
  /-- Continue at an instruction of the same routine. -/
  | jmp
  /-- Continue there if the topmost operand is false. -/
  | jmpf
  /-- Enter a routine. -/
  | call
  /-- Leave the routine. -/
  | ret
  /-- Write the topmost operand to the output. -/
  | write
  /-- Read a line of the input. -/
  | read
  /-- The length of a text or an array. -/
  | len
  /-- Allocate a record. -/
  | allocs
  /-- Set a field of a record. -/
  | setf
  /-- Get a field of a record. -/
  | getf
  /-- Allocate an array. -/
  | alloca
  /-- Set a cell of an array. -/
  | seti
  /-- Get a cell of an array. -/
  | geti
  /-- Start a thread that runs a routine. -/
  | thread
  /-- Wait for the result of a thread. -/
  | wait
  /-- Push a copy of the topmost operand. -/
  | dup
  /-- Do nothing. -/
  | nop
deriving DecidableEq

/-- The word for a binary operation. -/
def BinaryOp.mnemonic : BinaryOp → String
  | .add => "ADD"
  | .sub => "SUB"
  | .mul => "MUL"
  | .div => "DIV"
  | .cmplt => "CMPLT"
  | .cmple => "CMPLE"
  | .cmpeq => "CMPEQ"
  | .cmpne => "CMPNE"
  | .and => "AND"
  | .or => "OR"
  | .getc => "GETC"

/-- The word for a unary operation. -/
def UnaryOp.mnemonic : UnaryOp → String
  | .not => "NOT"
  | .toint => "TOINT"
  | .todbl => "TODBL"
  | .tostr => "TOSTR"

namespace Opcode

/-- The word for an opcode. -/
def mnemonic : Opcode → String
  | .push => "PUSH"
  | .pop => "POP"
  | .load => "LOAD"
  | .store => "STORE"
  | .binary op => op.mnemonic
  | .unary op => op.mnemonic
  | .jmp => "JMP"
  | .jmpf => "JMPF"
  | .call => "CALL"
  | .ret => "RET"
  | .write => "WRITE"
  | .read => "READ"
  | .len => "LEN"
  | .allocs => "ALLOCS"
  | .setf => "SETF"
  | .getf => "GETF"
  | .alloca => "ALLOCA"
  | .seti => "SETI"
  | .geti => "GETI"
  | .thread => "THREAD"
  | .wait => "WAIT"
  | .dup => "DUP"
  | .nop => "NOP"

/-- Every opcode once, in the order of their families. -/
def all : List Opcode :=
  [.push, .pop, .load, .store] ++
    [BinaryOp.add, .sub, .mul, .div, .cmplt, .cmple, .cmpeq, .cmpne, .and, .or, .getc].map
      .binary ++
    [UnaryOp.not, .toint, .todbl, .tostr].map .unary ++
    [.jmp, .jmpf, .call, .ret, .write, .read, .len, .allocs, .setf, .getf, .alloca, .seti, .geti,
      .thread, .wait, .dup, .nop]

/-- The opcode that a mnemonic names. -/
def ofMnemonic? (word : String) : Option Opcode := all.find? fun op => op.mnemonic == word

/-- The opcode continues at an instruction named by its operand. -/
def isJump : Opcode → Bool
  | .jmp | .jmpf => true
  | _ => false

end Opcode
end Opstack
