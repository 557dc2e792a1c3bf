import Opstack.Lowering.Program
import Opstack.Machine.Schedule

/-!
# Using a machine

A machine is created with its settings and its console, filled with routines, and called.

* `Machine.create` is a machine without routines.
* `Machine.add` registers one routine and `Machine.load` those of a program; a program that cannot
  be compiled registers nothing.
* `Machine.callMain` calls the routine `main` without arguments.
* `Machine.callEach` makes several calls that overlap: all of them begin, and of the tasks that can
  move the one that began first takes the next turn.
* `Machine.listing` shows all routines in the order of their names.
-/

set_option autoImplicit false

namespace Opstack
namespace Machine

/-- A machine without routines. -/
def create (config : Config) (console : Console) : Machine :=
  let heap := { maxArrayLength := config.maxArrayLength, capacity := config.host.capacity }
  { shared := { config, console, heap } }

/-- Registers a routine, in place of the one that has its name. -/
def add (m : Machine) (routine : Routine) : Machine :=
  { m with shared := m.shared.register routine }

/-- Compiles a program and registers its routines in order. -/
def load (m : Machine) (p : Program) : Except CompileError Machine := do
  let routines ← p.lower []
  return routines.foldl add m

/-- Calls the routine `main` without arguments. -/
def callMain (turns : Nat) (m : Machine) : Option (Except Failure Value) × Machine :=
  m.call turns "main" []

/-! ## Several calls at once -/

/-- Begins several calls. The last one begins first, so that the tasks are in the order of the
calls. -/
def beginEach (m : Machine) : List (String × List Value) → Machine
  | [] => m
  | (name, args) :: rest => (m.beginEach rest).begin name args

/-- The position of the task that can move and belongs to what was under way first: to the first of
the calls or else to the first of the threads. -/
def oldest? (m : Machine) : Option Nat :=
  let threads := (List.range m.shared.threads.size).map fun place => some (threadId place)
  (none :: threads).findSome? fun thread =>
    m.tasks.findIdx? fun t => t.thread == thread && t.canMove m.shared

/-- Lets the oldest of the tasks that can move take its turn, for at most so many turns. -/
def runEach : Nat → Machine → Machine
  | 0, m => m
  | n + 1, m =>
    match m.oldest? with
    | some position => runEach n (m.advance position)
    | none => m

/-- Takes the answers of so many calls, of which the first one has the highest number. -/
def takeEach (m : Machine) (first : Nat) :
    Nat → List (Option (Except Failure Value)) × Machine
  | 0 => ([], m)
  | n + 1 =>
    let answer := answerOf? (first + n) m.tasks
    let m := { m with tasks := dropAnswer (first + n) m.tasks }
    let (answers, m) := m.takeEach first n
    (answer :: answers, m)

/-- Makes several calls, which overlap, and runs the machine for at most so many turns. -/
def callEach (turns : Nat) (m : Machine) (calls : List (String × List Value)) :
    List (Option (Except Failure Value)) × Machine :=
  ((m.beginEach calls).runEach turns).takeEach m.calls calls.length

/-- The routine of a name. -/
def routine? (m : Machine) (name : String) : Option Routine := m.shared.find? name

/-- The number of threads started so far. -/
def threadCount (m : Machine) : Nat := m.shared.threads.size

/-- The routines in the order of their names. -/
def sortedRoutines (m : Machine) : List Routine :=
  m.shared.routines.mergeSort fun a b => !decide (b.name < a.name)

/-- All routines as text, each after an empty line. -/
def listing (m : Machine) : String :=
  String.join (m.sortedRoutines.map fun r => "\n" ++ r.listing)

end Machine
end Opstack
