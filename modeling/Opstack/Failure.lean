import Opstack.Code.Instr

/-!
# What can go wrong in a run

A `Fault` is the cause of a failure.  A `Failure` is a fault with what is known about where it
happened: the instruction that raised it and the thread that executed it.  Both places are filled
in at most once, from the inside out: `Failure.atSite` and `Failure.inThread` keep what is there,
so that a failure that travels through other executions still names its source.
-/

set_option autoImplicit false

namespace Opstack

/-- The number by which programs know a thread. -/
abbrev ThreadId := Int64

/-- The cause of a failure. -/
inductive Fault
  /-- An operation on `null`. -/
  | nullOperand (op : Opcode)
  /-- A `null` in the place of an object or an index. -/
  | nullReference (op : Opcode)
  /-- A quotient with a divisor of zero. -/
  | divisionByZero
  /-- An index outside a text or an array. -/
  | indexOutOfBounds (index : Int64) (length : Nat)
  /-- A text that is no number of the wanted kind. -/
  | invalidConversion (target input : String)
  /-- A value of the wrong kind. -/
  | typeMismatch (op : Opcode) (found : String)
  /-- No routine has this name. -/
  | unknownRoutine (name : String)
  /-- The slot lies beyond the limit of a frame. -/
  | invalidStoreIndex (slot : Nat)
  /-- The slot lies beyond every slot stored to so far. -/
  | uninitializedSlot (slot : Nat)
  /-- A condition or logical operand that is no truth value. -/
  | nonBoolean (op : Opcode)
  /-- No object of the wanted kind has this number. -/
  | unknownObject (object : ObjectId)
  /-- The field was never set. -/
  | unsetField (field : String)
  /-- An array of negative length. -/
  | negativeLength (length : Int64)
  /-- An array beyond the limit. -/
  | arrayTooLarge (length : Int64)
  /-- No thread has this number. -/
  | unknownThread (thread : ThreadId)
  /-- The result of the thread was asked for before. -/
  | alreadyJoined (thread : ThreadId)
  /-- The thread ended without a result. -/
  | threadCrashed (thread : ThreadId)
  /-- The thread could not be started. -/
  | threadRefused (reason : String)
  /-- The operand stack is empty. -/
  | stackUnderflow
  /-- The operand of the instruction is missing or of the wrong kind. -/
  | malformedInstruction
  /-- The call stack is full. -/
  | callDepthExceeded (limit : Nat)
  /-- Reading or writing failed. -/
  | io (reason : String)
  /-- Another execution failed first. -/
  | aborted
deriving DecidableEq

/-- The wording of a fault. -/
def Fault.message : Fault → String
  | .nullOperand op => op.mnemonic ++ " called with null operand"
  | .nullReference op => op.mnemonic ++ " called with null reference"
  | .divisionByZero => "division by zero"
  | .indexOutOfBounds index length =>
    "index " ++ Text.intText index.toInt ++ " out of bounds for length " ++ Text.natText length
  | .invalidConversion target input => s!"cannot convert '{input}' to {target}"
  | .typeMismatch op found => op.mnemonic ++ s!" called with {found} operand"
  | .unknownRoutine name => s!"no function named '{name}'"
  | .invalidStoreIndex slot => "invalid store index " ++ Text.natText slot
  | .uninitializedSlot slot => "read of uninitialized slot " ++ Text.natText slot
  | .nonBoolean op => op.mnemonic ++ " called on non-boolean operand"
  | .unknownObject object => "no object with id " ++ Text.natText object
  | .unsetField field => s!"field '{field}' is not set"
  | .negativeLength length => "negative array length " ++ Text.intText length.toInt
  | .arrayTooLarge length => "array length " ++ Text.intText length.toInt ++ " is too large"
  | .unknownThread thread => "no thread with id " ++ Text.intText thread.toInt
  | .alreadyJoined thread => "thread " ++ Text.intText thread.toInt ++ " was already joined"
  | .threadCrashed thread =>
    "thread " ++ Text.intText thread.toInt ++ " terminated without a result"
  | .threadRefused reason => s!"failed to spawn thread: {reason}"
  | .stackUnderflow => "operand stack underflow"
  | .malformedInstruction => "malformed instruction"
  | .callDepthExceeded limit => "call depth exceeded " ++ Text.natText limit
  | .io reason => s!"I/O error: {reason}"
  | .aborted => "execution aborted"

/-- The opcode that a fault names, if it names one. -/
def Fault.opcode? : Fault → Option Opcode
  | .nullOperand op => some op
  | .nullReference op => some op
  | .typeMismatch op _ => some op
  | .nonBoolean op => some op
  | _ => none

/-- The instruction that raised a failure. -/
structure Site where
  /-- The routine it belongs to. -/
  routine : String
  /-- Its index there. -/
  index : Nat
  /-- The instruction as text. -/
  instruction : String
deriving DecidableEq

/-- A fault with what is known about where it happened. -/
structure Failure where
  /-- The cause. -/
  fault : Fault
  /-- The instruction that raised it. -/
  site : Option Site := none
  /-- The thread that executed the instruction, if it was not the entry execution. -/
  thread : Option ThreadId := none
deriving DecidableEq

namespace Failure

/-- The failure of an execution that raises a fault at a site. -/
def raised (fault : Fault) (site : Site) (thread : Option ThreadId) : Failure :=
  { fault, site := some site, thread }

/-- Fills in the instruction, unless it is known already. -/
def atSite (e : Failure) (site : Site) : Failure := { e with site := some (e.site.getD site) }

/-- Fills in the thread, unless it is known already. -/
def inThread (e : Failure) (thread : Option ThreadId) : Failure :=
  { e with thread := e.thread <|> thread }

/-- The wording of a failure: its cause, then the places that are known. -/
def message (e : Failure) : String :=
  "VM_ERROR: " ++ e.fault.message ++
    (match e.site with
      | some site => s!" in {site.routine} at {site.index}: {site.instruction}"
      | none => "") ++
    (match e.thread with
      | some thread => " (thread " ++ Text.intText thread.toInt ++ ")"
      | none => "")

end Failure
end Opstack
