import Opstack.Code.Instr

/-!
# Routines

A routine is a named list of instructions whose jumps all stay inside it.  `Routine.ofCode` is the
only check: it accepts a list exactly when every `JMP` and `JMPF` has a target below the length of
the list, and otherwise says what is wrong with the first jump that has none.

`Routine.listing` is the routine as text, one numbered instruction a line.
-/

set_option autoImplicit false

namespace Opstack

/-- What is wrong with a jump of a routine. -/
inductive JumpError
  /-- The jump has no target. -/
  | unpatched (routine : String) (index : Nat)
  /-- The target is not an instruction of the routine. -/
  | outOfRange (routine : String) (index target : Nat)
deriving DecidableEq

/-- The wording of a jump error. -/
def JumpError.message : JumpError → String
  | .unpatched routine index => s!"Unpatched jump in '{routine}' at {index}"
  | .outOfRange routine index target =>
    s!"Jump in '{routine}' at {index} targets {target}, past the end of the unit"

/-- A named list of instructions. -/
structure Routine where
  /-- The name by which it is called. -/
  name : String
  /-- Its instructions. -/
  code : Array Instr
deriving DecidableEq

namespace Routine

/-- What is wrong with one instruction of a routine of the given length, if anything. -/
def jumpError? (name : String) (length index : Nat) (i : Instr) : Option JumpError :=
  if i.op.isJump then
    match i.arg with
    | some (.target n) => if n < length then none else some (.outOfRange name index n)
    | _ => some (.unpatched name index)
  else none

/-- The first instruction at fault, counting from an index. -/
def firstJumpError? (name : String) (length : Nat) : Nat → List Instr → Option JumpError
  | _, [] => none
  | index, i :: rest =>
    match jumpError? name length index i with
    | some e => some e
    | none => firstJumpError? name length (index + 1) rest

/-- The routine with this code, if all its jumps stay inside it. -/
def ofCode (name : String) (code : Array Instr) : Except JumpError Routine :=
  match firstJumpError? name code.size 0 code.toList with
  | some e => .error e
  | none => .ok ⟨name, code⟩

/-- The instruction at an index. -/
def get? (r : Routine) (index : Nat) : Option Instr := r.code[index]?

/-- The number of instructions. -/
def size (r : Routine) : Nat := r.code.size

/-- One line of a listing. -/
def listingLine (index : Nat) (i : Instr) : String := s!"  {index}: " ++ i.text ++ "\n"

/-- The lines of a listing, numbered from an index. -/
def listingLines : Nat → List Instr → String
  | _, [] => ""
  | index, i :: rest => listingLine index i ++ listingLines (index + 1) rest

/-- The routine as text: its name, then its instructions with their indices. -/
def listing (r : Routine) : String := s!"Frame '{r.name}'\n" ++ listingLines 0 r.code.toList

end Routine
end Opstack
