import Opstack.Code.Routine
import Opstack.Failure

/-!
# Frames

A frame is one activation of a routine: its slots and the index of its next instruction.  Storing
to a slot beyond those in use puts `null` into the slots between; reading beyond them is a fault.
-/

set_option autoImplicit false

namespace Opstack

/-- One activation of a routine. -/
structure Frame where
  /-- The routine being executed. -/
  routine : Routine
  /-- The slots in use. -/
  slots : Array Value := #[]
  /-- The index of the next instruction. -/
  pc : Nat := 0

/-- The slots with one of them set, and `null` in those that come into use before it. -/
def storeSlot (slots : Array Value) (slot : Nat) (v : Value) : Array Value :=
  if slot < slots.size then slots.setIfInBounds slot v
  else (slots ++ Array.replicate (slot - slots.size) Value.null).push v

namespace Frame

/-- The value of a slot. -/
def load (f : Frame) (slot : Nat) : Except Fault Value :=
  match f.slots[slot]? with
  | some v => .ok v
  | none => .error (.uninitializedSlot slot)

/-- The frame with one slot set, if the slot is below the limit. -/
def store (f : Frame) (slot : Nat) (v : Value) (limit : Nat) : Except Fault Frame :=
  if slot < limit then .ok { f with slots := storeSlot f.slots slot v }
  else .error (.invalidStoreIndex slot)

end Frame
end Opstack
