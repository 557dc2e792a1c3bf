import Opstack.Text.Blank
import Opstack.Text.Numeral

/-!
# Settings

The settings of a machine, with their defaults, and `Config.ofEnvironment`, which reads some of
them from named texts.  The names share a stem, so that machines of different purposes can have
their settings in one environment.  A number that cannot be read leaves its default in place.

What a program computes depends on the three limits.  The capacities matter only when an execution
begins, which needs room for its stacks (`Config.roomForStacks`), and the room that there is belongs
to the host (`Host`).  Logging, the names of threads and the stacks of the host have no influence on
an answer.
-/

set_option autoImplicit false

namespace Opstack

/-- What the host of a machine grants.  Nothing of it is a setting: it stands beside them because
both are fixed when a machine is created. -/
structure Host where
  /-- The most entries that there is room for in one list. -/
  capacity : Nat := Nat.pow 2 32
deriving DecidableEq, Inhabited

/-- The settings of a machine. -/
structure Config where
  /-- Executed instructions are to be logged. -/
  trace : Bool := false
  /-- Room that a new operand stack starts with. -/
  operandStackCapacity : Nat := 256
  /-- Room that a new call stack starts with. -/
  callStackCapacity : Nat := 64
  /-- The most frames that a call stack may have when another is entered. -/
  maxCallDepth : Nat := 10000
  /-- The number of slots of a frame. -/
  maxFrameSlots : Nat := 65536
  /-- The most cells of an array. -/
  maxArrayLength : Nat := Nat.pow 2 24
  /-- What the names of threads begin with. -/
  threadNameStem : String := "corvid-thread"
  /-- The stack that a thread of the host gets, if it is not to be the usual one. -/
  threadStackSize : Option Nat := none
  /-- What the host grants. -/
  host : Host := {}
deriving DecidableEq, Inhabited

namespace Config

/-- The host has room for the stacks that an execution begins with. -/
def roomForStacks (c : Config) : Bool :=
  decide (c.operandStackCapacity ≤ c.host.capacity ∧ c.callStackCapacity ≤ c.host.capacity)

/-- The number that the text of a setting names: white space around it and a plus sign before it
do not count, and it must fit in sixty-four bits. -/
def readSetting? (s : String) : Option Nat :=
  let digits :=
    match Text.trimBlank s.toList with
    | '+' :: cs => cs
    | cs => cs
  match Text.readNat? digits with
  | some n => if n < Nat.pow 2 64 then some n else none
  | none => none

/-- The text of a switch means "on". -/
def isOn (s : String) : Bool :=
  let word := String.ofList ((Text.trimBlank s.toList).map Char.toLower)
  word == "1" || word == "true" || word == "yes"

/-- The default settings with those that named texts override.  Every name begins with the
stem. -/
def ofEnvironment (stem : String) (lookup : String → Option String) : Config :=
  let switch (name : String) : Option Bool := (lookup (stem ++ name)).map isOn
  let number (name : String) : Option Nat := (lookup (stem ++ name)).bind readSetting?
  let defaults : Config := {}
  { defaults with
    trace := (switch "_TRACE").getD defaults.trace
    maxCallDepth := (number "_MAX_CALL_DEPTH").getD defaults.maxCallDepth
    maxFrameSlots := (number "_MAX_FRAME_SLOTS").getD defaults.maxFrameSlots
    maxArrayLength := (number "_MAX_ARRAY_LEN").getD defaults.maxArrayLength
    threadStackSize := number "_THREAD_STACK_SIZE" <|> defaults.threadStackSize }

end Config
end Opstack
