import Opstack.Lowering.Error

/-!
# The variables in scope

A `Scope` is the list of the variables that can be seen at a place of a function, innermost first,
each with the depth of the block that declares it and the slot that holds it.  Slots are handed
out in order and never twice, so two variables of one function never share a slot, even if their
blocks follow one another.

* `Scope.enter` and `Scope.leave` open and close a block;
* `Scope.declare` adds a variable to the innermost block;
* `Scope.resolve?` finds the slot of a variable.
-/

set_option autoImplicit false

namespace Opstack

/-- A variable in scope. -/
structure Local where
  /-- Its name. -/
  name : String
  /-- The depth of the block that declares it. -/
  depth : Nat
  /-- The slot that holds it. -/
  slot : Nat
deriving DecidableEq

/-- The variables that can be seen at a place of a function. -/
structure Scope where
  /-- The variables, innermost and latest first. -/
  locals : List Local := []
  /-- The depth of the innermost block. -/
  depth : Nat := 0
  /-- The number of slots handed out so far. -/
  slotCount : Nat := 0
deriving DecidableEq, Inhabited

namespace Scope

/-- The variables of the innermost block. -/
def innermost (s : Scope) : List Local := s.locals.takeWhile fun l => l.depth == s.depth

/-- Opens a block. -/
def enter (s : Scope) : Scope := { s with depth := s.depth + 1 }

/-- Closes the innermost block.  Where no block is open, the variables outside all blocks go. -/
def leave (s : Scope) : Scope :=
  { s with
    locals := s.locals.dropWhile fun l => l.depth == s.depth
    depth := s.depth - 1 }

/-- Adds a variable to the innermost block and hands out its slot, unless the block has a variable
of this name. -/
def declare (s : Scope) (name : String) : Except CompileError (Nat × Scope) :=
  if s.innermost.any fun l => l.name == name then .error (.duplicateVariable name)
  else .ok (s.slotCount,
    { s with locals := ⟨name, s.depth, s.slotCount⟩ :: s.locals, slotCount := s.slotCount + 1 })

/-- The slot of the innermost variable of a name. -/
def resolve? (s : Scope) (name : String) : Option Nat :=
  (s.locals.find? fun l => l.name == name).map Local.slot

/-- The slot of the innermost variable of a name, or the error that there is none. -/
def resolve (s : Scope) (name : String) : Except CompileError Nat :=
  match s.resolve? name with
  | some slot => .ok slot
  | none => .error (.unknownVariable name)

end Scope
end Opstack
