import Opstack.Text.Utf8

/-!
# Input and output

A console is the input of a machine, as the bytes not yet read, and its output, as the text
written so far.  Either side can fail: the input after its last byte, and writing and flushing
whenever the environment refuses it, each time with a reason of its own (`Gate`).  What has been
refused once may be accepted when it is tried again.

`Console.readLine` is the only way to read.  A line ends after a line feed or at the end of the
input; the line feed is not part of the line, nor is a carriage return right before it.
-/

set_option autoImplicit false

namespace Opstack

/-- How often something succeeds, and why it fails from then on. -/
structure Limit where
  /-- The amount that is granted. -/
  amount : Nat
  /-- The reason for a failure. -/
  reason : String
deriving DecidableEq

/-- What the environment answers to one attempt after another: why the attempt with a number is
refused, if it is. -/
def Gate := Nat → Option String

namespace Gate

/-- Nothing is refused. -/
def alwaysOpen : Gate := fun _ => none

/-- So much is granted, and everything after it refused. -/
def upTo : Option Limit → Gate
  | some limit => fun n => if limit.amount ≤ n then some limit.reason else none
  | none => alwaysOpen

instance : Coe (Option Limit) Gate := ⟨upTo⟩

instance : Coe (Option Limit) (Nat → Gate) := ⟨fun limit amount _ => upTo limit amount⟩

end Gate

/-- The input and output of a machine. -/
structure Console where
  /-- The bytes of the input that have not been read. -/
  input : List UInt8 := []
  /-- What a read past the last byte fails with, if it does not just find the end. -/
  inputFailure : Option String := none
  /-- The text written so far. -/
  output : String := ""
  /-- What the environment answers to texts, for each number of bytes that it has accepted. -/
  writeLimit : Nat → Gate := fun _ => .alwaysOpen
  /-- What the environment answers to flushes. -/
  flushLimit : Gate := .alwaysOpen
  /-- How many flushes there have been. -/
  flushes : Nat := 0
  /-- How many texts have been refused. -/
  refusals : Nat := 0
deriving Inhabited

namespace Console

/-- A console that reads a text. -/
def ofText (s : String) : Console := { input := Utf8.encode s }

/-- Why a text is refused, if it is.  The empty text is accepted even by an output that is full. -/
def refusal? (c : Console) (s : String) : Option String :=
  if s = "" then none else c.writeLimit c.output.utf8ByteSize c.refusals

/-- Writes a text. -/
def write (c : Console) (s : String) : Except String Unit × Console :=
  match c.refusal? s with
  | some reason => (.error reason, { c with refusals := c.refusals + 1 })
  | none => (.ok (), { c with output := c.output ++ s })

/-- Flushes the output. -/
def flush (c : Console) : Except String Unit × Console :=
  let flushed := { c with flushes := c.flushes + 1 }
  match c.flushLimit c.flushes with
  | some reason => (.error reason, flushed)
  | none => (.ok (), flushed)

/-- The byte that ends a line. -/
def lineFeed : UInt8 := 10

/-- The byte that does not count right before the end of a line. -/
def carriageReturn : UInt8 := 13

/-- The line without a carriage return at its end. -/
def dropReturn (line : List UInt8) : List UInt8 :=
  if line.getLast? = some carriageReturn then line.dropLast else line

/-- The text of a line, which must be UTF-8. -/
def lineText (line : List UInt8) : Except String (Option String) :=
  match Utf8.strictText? line with
  | some s => .ok (some s)
  | none => .error "stream did not contain valid UTF-8"

/-- Takes the next line off the input, or finds the end.  A line that fails is consumed. -/
def takeLine (c : Console) : Except String (Option String) × Console :=
  let line := c.input.takeWhile (· != lineFeed)
  match c.input.dropWhile (· != lineFeed) with
  | _ :: rest => (lineText (dropReturn line), { c with input := rest })
  | [] =>
    match c.inputFailure with
    | some reason => (.error reason, { c with input := [] })
    | none =>
      if line.isEmpty then (.ok none, c) else (lineText line, { c with input := [] })

/-- Flushes the output, so that a prompt can be seen, and then takes the next line.  Nothing is
read when the flush fails. -/
def readLine (c : Console) : Except String (Option String) × Console :=
  match c.flush with
  | (.error reason, c) => (.error reason, c)
  | (.ok (), c) => c.takeLine

end Console
end Opstack
