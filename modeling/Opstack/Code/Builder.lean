import Opstack.Code.Routine

/-!
# Building a routine by hand

A builder collects the instructions of one routine in order.  A jump whose target is not known yet
is emitted with a placeholder, and `Builder.patch` fills it in later; `Builder.finish` turns the
list into a routine, or says which jump is not in order.
-/

set_option autoImplicit false

namespace Opstack

/-- A routine under construction. -/
structure Builder where
  /-- The name of the routine. -/
  name : String
  /-- The instructions so far. -/
  code : Array Instr := #[]
deriving DecidableEq

/-- The index of a jump that waits for its target. -/
structure PatchSite where
  /-- Its index in the list of instructions. -/
  index : Nat
deriving DecidableEq

namespace Builder

/-- The index of the next instruction. -/
def nextIndex (b : Builder) : Nat := b.code.size

/-- Appends an instruction. -/
def emit (b : Builder) (i : Instr) : Builder := { b with code := b.code.push i }

/-- Appends a jump with a placeholder for its target, and says where it is. -/
def emitJump (b : Builder) (op : Opcode) : Builder × PatchSite :=
  (b.emit { op, arg := some .unpatched }, ⟨b.nextIndex⟩)

/-- Gives the instruction at a site its target; a site past the end is left alone. -/
def patch (b : Builder) (site : PatchSite) (target : Nat) : Builder :=
  { b with code := b.code.modify site.index fun i => { i with arg := some (.target target) } }

/-- Points the jump at a site to the next instruction. -/
def patchHere (b : Builder) (site : PatchSite) : Builder := b.patch site b.nextIndex

/-- The finished routine, if every jump is in order. -/
def finish (b : Builder) : Except JumpError Routine := Routine.ofCode b.name b.code

end Builder
end Opstack
