import Opstack.Console
import Opstack.Frame
import Opstack.Heap

/-!
# What executions share

The executions of a machine share its routines, its heap, its input and output, the table of its
threads, and the record of a failure that stops them all.

* `Shared.find?` and `Shared.register` look up and add routines.
* `Shared.fail` records a failure, of which the first wins, and halts every execution;
  `Shared.takeFailure` takes the record away and ends the halt.
* `Shared.spawn`, `Shared.claim` and `Shared.deliver` are the life of a thread: it gets a number,
  its result is asked for once, and it ends in one way.
-/

set_option autoImplicit false

namespace Opstack

/-! ## Threads -/

/-- What has become of a thread. -/
inductive Outcome
  /-- It has not ended. -/
  | running
  /-- It has ended with a value or a failure. -/
  | finished (result : Except Failure Value)
  /-- It has ended without a result. -/
  | crashed

/-- The thread has ended. -/
def Outcome.hasEnded : Outcome → Bool
  | .running => false
  | _ => true

/-- The record of a thread. -/
structure Thread where
  /-- The call that it was started in. -/
  call : Nat
  /-- What has become of it. -/
  outcome : Outcome := .running
  /-- Its result was asked for. -/
  isClaimed : Bool := false

/-- The number of the first thread. -/
def firstThread : Nat := 2025

/-- The number of the thread at a place of the table. -/
def threadId (place : Nat) : ThreadId := Int64.ofNat (firstThread + place)

/-- The place in the table that a number may name. -/
def threadPlace? (thread : ThreadId) : Option Nat :=
  if (firstThread : Int) ≤ thread.toInt then some (thread.toInt - firstThread).toNat else none

/-! ## The shared state -/

/-- What the executions of a machine share. -/
structure Shared where
  /-- The routines, each name once. -/
  routines : List Routine := []
  /-- The settings. -/
  config : Config := {}
  /-- The objects. -/
  heap : Heap := {}
  /-- Input and output. -/
  console : Console := {}
  /-- The threads in the order of their start. -/
  threads : Array Thread := #[]
  /-- The first failure that no call has taken yet. -/
  failure : Option Failure := none
  /-- Every execution is to stop at its next instruction. -/
  isHalted : Bool := false
deriving Inhabited

namespace Shared

/-! ## Routines -/

/-- The routine of a name. -/
def find? (s : Shared) (name : String) : Option Routine :=
  s.routines.find? fun r => r.name == name

/-- Adds a routine, in place of the one that has its name. -/
def register (s : Shared) (routine : Routine) : Shared :=
  { s with routines := routine :: s.routines.filter fun r => r.name != routine.name }

/-! ## Failure -/

/-- Records a failure, unless one is recorded already, and halts every execution. -/
def fail (s : Shared) (e : Failure) : Shared :=
  { s with failure := some (s.failure.getD e), isHalted := true }

/-- Takes the recorded failure away and ends the halt. -/
def takeFailure (s : Shared) : Option Failure × Shared :=
  (s.failure, { s with failure := none, isHalted := false })

/-! ## Threads -/

/-- The record of a thread. -/
def thread? (s : Shared) (thread : ThreadId) : Option Thread :=
  (threadPlace? thread).bind fun place => s.threads[place]?

/-- Changes the record of a thread. -/
def modifyThread (s : Shared) (thread : ThreadId) (f : Thread → Thread) : Shared :=
  match threadPlace? thread with
  | some place => { s with threads := s.threads.modify place f }
  | none => s

/-- Gives a new thread its number, as long as there are numbers left. -/
def spawn (s : Shared) (call : Nat) : Except Fault ThreadId × Shared :=
  if firstThread + s.threads.size < Nat.pow 2 63 then
    (.ok (threadId s.threads.size), { s with threads := s.threads.push { call } })
  else (.error (.threadRefused "no thread number is left"), s)

/-- Asks for the result of a thread, which can be done once. -/
def claim (s : Shared) (thread : ThreadId) : Except Fault Unit × Shared :=
  match s.thread? thread with
  | none => (.error (.unknownThread thread), s)
  | some t =>
    if t.isClaimed then (.error (.alreadyJoined thread), s)
    else (.ok (), s.modifyThread thread fun t => { t with isClaimed := true })

/-- Ends a thread. -/
def deliver (s : Shared) (thread : ThreadId) (outcome : Outcome) : Shared :=
  s.modifyThread thread fun t => { t with outcome }

/-- What has become of a thread. -/
def outcomeOf (s : Shared) (thread : ThreadId) : Outcome :=
  match s.thread? thread with
  | some t => t.outcome
  | none => .running

/-- Every thread that was started in a call has ended. -/
def hasJoined (s : Shared) (call : Nat) : Bool :=
  s.threads.toList.all fun t => t.call != call || t.outcome.hasEnded

/-- The threads of a call that ended without a result, from a place of the table on. -/
def crashedFrom (call : Nat) : Nat → List Thread → List ThreadId
  | _, [] => []
  | place, t :: rest =>
    match t.outcome with
    | .crashed =>
      if t.call = call then threadId place :: crashedFrom call (place + 1) rest
      else crashedFrom call (place + 1) rest
    | _ => crashedFrom call (place + 1) rest

/-- The threads of a call that ended without a result, in the order of their start. -/
def crashed (s : Shared) (call : Nat) : List ThreadId := crashedFrom call 0 s.threads.toList

end Shared
end Opstack
