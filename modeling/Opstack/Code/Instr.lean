import Opstack.Value.Basic
import Opstack.Code.Opcode
import Opstack.Text.Quoted

/-!
# Instructions

An instruction is an opcode with at most one operand and possibly a comment.  Nothing ties the
operand to the opcode here: whether a `LOAD` names a slot is found out when it is executed.
`Instr.text` is the instruction as it stands in listings and error messages.
-/

set_option autoImplicit false

namespace Opstack

/-- The operand of an instruction. -/
inductive Operand
  /-- A value to push. -/
  | literal (v : Value)
  /-- A slot of the frame. -/
  | slot (n : Nat)
  /-- The index of the instruction to continue at. -/
  | target (n : Nat)
  /-- A target that is not known yet. -/
  | unpatched
  /-- The name of a routine or a field. -/
  | name (s : String)
deriving DecidableEq

/-- The operand as text; only literal texts are quoted. -/
def Operand.text : Operand → String
  | .literal (.str s) => Text.quoted s
  | .literal v => v.text
  | .slot n => Text.natText n
  | .target n => Text.natText n
  | .unpatched => "-1"
  | .name s => s

/-- An instruction. -/
structure Instr where
  /-- What to do. -/
  op : Opcode
  /-- What to do it with. -/
  arg : Option Operand := none
  /-- A remark for the reader of a listing. -/
  comment : Option String := none
deriving DecidableEq

namespace Instr

/-- The instruction as text. -/
def text (i : Instr) : String :=
  i.op.mnemonic ++ "(" ++ (i.arg.map Operand.text).getD "" ++ ")" ++
    (i.comment.map fun c => "  // " ++ c).getD ""

/-- Where a jump continues, if it is patched. -/
def target? (i : Instr) : Option Nat :=
  match i.arg with
  | some (.target n) => if i.op.isJump then some n else none
  | _ => none

/-! ## The instructions that the compiler writes -/

/-- An instruction without operand. -/
def plain (op : Opcode) : Instr := { op }

/-- The instruction `PUSH` with a literal. -/
def push (v : Value) : Instr := { op := .push, arg := some (.literal v) }

/-- The instruction `LOAD` from a slot. -/
def load (slot : Nat) : Instr := { op := .load, arg := some (.slot slot) }

/-- The instruction `STORE` to a slot. -/
def store (slot : Nat) : Instr := { op := .store, arg := some (.slot slot) }

/-- The instruction `JMP` to an instruction. -/
def jmp (target : Nat) : Instr := { op := .jmp, arg := some (.target target) }

/-- The instruction `JMPF` to an instruction. -/
def jmpf (target : Nat) : Instr := { op := .jmpf, arg := some (.target target) }

/-- The instruction `CALL` of a routine. -/
def call (routine : String) : Instr := { op := .call, arg := some (.name routine) }

/-- The instruction `GETF` for a field. -/
def getf (field : String) : Instr := { op := .getf, arg := some (.name field) }

/-- The instruction `SETF` for a field. -/
def setf (field : String) : Instr := { op := .setf, arg := some (.name field) }

/-- The instruction with a comment. -/
def withComment (i : Instr) (comment : String) : Instr := { i with comment := some comment }

end Instr
end Opstack
