import Opstack.Machine.Step

/-!
# Many executions

A machine is the shared state with the tasks that are under way: one for each execution, and one
for each call from outside whose execution has ended while the call has not.  `Machine.advance`
lets the task at a position take a turn, so a list of positions is one order in which everything
can happen, and a statement about all lists is a statement about all orders.

The end of a call has its own turns, in this order: a failure is recorded; once every thread of
the call has ended, those without a result are recorded and the output is flushed; the recorded
failure is taken, and is the answer in place of the result if there is one.

`Machine.run` is the order that the machine itself follows: the first task that can move takes the
next turn, and a new thread comes before its parent, so it runs until it ends or has to wait.
-/

set_option autoImplicit false

namespace Opstack

/-- Something under way. -/
inductive Task
  /-- An execution between two instructions. -/
  | running (x : Execution)
  /-- An execution that needs the result of a thread. -/
  | waiting (x : Execution) (thread : ThreadId) (site : Site)
  /-- An execution that has failed; the failure is not recorded yet. -/
  | failing (thread : Option ThreadId) (call : Nat) (e : Failure)
  /-- A call whose own execution has ended. -/
  | joining (call : Nat) (result : Except Failure Value)
  /-- A call all of whose executions have ended. -/
  | closing (call : Nat) (result : Except Failure Value)
  /-- A call that has ended. -/
  | answered (call : Nat) (result : Except Failure Value)

namespace Task

/-- An execution that has ended with a value. -/
def finish (s : Shared) (thread : Option ThreadId) (call : Nat) (v : Value) :
    Shared × List Task :=
  match thread with
  | some t => (s.deliver t (.finished (.ok v)), [])
  | none => (s, [.joining call (.ok v)])

/-- The failure of an execution is recorded, and only then does the execution end. -/
def record (s : Shared) (thread : Option ThreadId) (call : Nat) (e : Failure) :
    Shared × List Task :=
  match thread with
  | some t => ((s.fail e).deliver t (.finished (.error e)), [])
  | none => (s.fail e, [.joining call (.error e)])

/-- An execution that has ended without a result.  If it belonged to a call itself, the call never
ends. -/
def crash (s : Shared) (thread : Option ThreadId) : Shared × List Task :=
  match thread with
  | some t => (s.deliver t .crashed, [])
  | none => (s, [])

/-- An execution that waits gets what the thread has ended with, and otherwise goes on waiting. -/
def resume (x : Execution) (thread : ThreadId) (site : Site) : Outcome → Task
  | .running => .waiting x thread site
  | .finished (.ok v) => .running (x.push v)
  | .finished (.error e) => .failing x.thread x.call ((e.atSite site).inThread x.thread)
  | .crashed =>
    .failing x.thread x.call
      (({ fault := .threadCrashed thread } : Failure).atSite site |>.inThread x.thread)

/-- The failure that a thread without a result is for its call. -/
def crashFailure (thread : ThreadId) : Failure :=
  { fault := .threadCrashed thread, thread := some thread }

/-- The end of the last execution of a call: threads without a result are recorded, and the output
is flushed. -/
def join (s : Shared) (call : Nat) : Shared :=
  let s := (s.crashed call).foldl (fun s t => s.fail (crashFailure t)) s
  match s.console.flush with
  | (.ok (), console) => { s with console }
  | (.error reason, console) => ({ s with console }).fail { fault := .io reason }

/-- The answer of a call: the recorded failure if there is one, otherwise its own result. -/
def answer (failure : Option Failure) (result : Except Failure Value) : Except Failure Value :=
  match failure with
  | some e => .error e
  | none => result

/-- The thread of the execution that the task is, if it is one of a thread. -/
def thread : Task → Option ThreadId
  | .running x => x.thread
  | .waiting x _ _ => x.thread
  | .failing thread _ _ => thread
  | _ => none

/-- The task can take a turn. -/
def canMove (s : Shared) : Task → Bool
  | .running _ => true
  | .waiting _ t _ => (s.outcomeOf t).hasEnded
  | .failing _ _ _ => true
  | .joining call _ => s.hasJoined call
  | .closing _ _ => true
  | .answered _ _ => false

/-- What a task makes of the shared state in one turn, and the tasks that take its place. -/
def turn (s : Shared) : Task → Shared × List Task
  | .running x =>
    let thread := x.thread
    let call := x.call
    match step s x with
    | (s, .continues x) => (s, [.running x])
    | (s, .spawns x child) => (s, [.running child, .running x])
    | (s, .waits x t site) => (s, [.waiting x t site])
    | (s, .returns v) => finish s thread call v
    | (s, .fails e) => (s, [.failing thread call e])
    | (s, .crashes) => crash s thread
  | .waiting x t site =>
    let outcome := s.outcomeOf t
    (s, [resume x t site outcome])
  | .failing thread call e => record s thread call e
  | .joining call result =>
    if s.hasJoined call then (join s call, [.closing call result])
    else (s, [.joining call result])
  | .closing call result =>
    let (failure, s) := s.takeFailure
    (s, [.answered call (answer failure result)])
  | .answered call result => (s, [.answered call result])

/-- Lets the task at a position of a list take a turn. -/
def turnAt (s : Shared) : Nat → List Task → Shared × List Task
  | _, [] => (s, [])
  | 0, t :: rest =>
    let (s, tasks) := t.turn s
    (s, tasks ++ rest)
  | n + 1, t :: rest =>
    let (s, rest) := turnAt s n rest
    (s, t :: rest)

end Task

/-- The shared state and what is under way. -/
structure Machine where
  /-- What the executions share. -/
  shared : Shared := {}
  /-- What is under way, the newest first. -/
  tasks : List Task := []
  /-- The number of calls so far. -/
  calls : Nat := 0
deriving Inhabited

namespace Machine

/-- Lets the task at a position take a turn. -/
def advance (m : Machine) (position : Nat) : Machine :=
  match m with
  | ⟨shared, tasks, calls⟩ =>
    let (shared, tasks) := Task.turnAt shared position tasks
    ⟨shared, tasks, calls⟩

/-- Lets tasks take turns in a given order. -/
def follow (m : Machine) (order : List Nat) : Machine := order.foldl advance m

/-- The task that a call begins with: the execution of a routine with its arguments on the operand
stack, the first on top.  If the host has no room for its stacks, then the execution crashes at
once, and the call never ends. -/
def entry (s : Shared) (call : Nat) (name : String) (args : List Value) : List Task :=
  match s.find? name with
  | some routine =>
    if s.config.roomForStacks then [.running ⟨none, call, args, [{ routine }]⟩] else []
  | none => [.failing none call { fault := .unknownRoutine name }]

/-- Begins a call of a routine, with the number `calls`. -/
def begin (m : Machine) (name : String) (args : List Value) : Machine :=
  { m with tasks := entry m.shared m.calls name args ++ m.tasks, calls := m.calls + 1 }

/-- The position of the first task that can move. -/
def ready? (m : Machine) : Option Nat := m.tasks.findIdx? fun t => t.canMove m.shared

/-- Lets the first task that can move take its turn, for at most so many turns. -/
def run : Nat → Machine → Machine
  | 0, m => m
  | n + 1, m =>
    match m.ready? with
    | some position => run n (m.advance position)
    | none => m

/-- The answer of a call, if it has ended. -/
def answerOf? (call : Nat) : List Task → Option (Except Failure Value)
  | [] => none
  | .answered c result :: rest => if c = call then some result else answerOf? call rest
  | _ :: rest => answerOf? call rest

/-- The tasks without the answers of a call. -/
def dropAnswer (call : Nat) (tasks : List Task) : List Task :=
  tasks.filter fun
    | .answered c _ => c != call
    | _ => true

/-- Calls a routine and runs the machine for at most so many turns.  There is no answer if the
call has not ended by then. -/
def call (turns : Nat) (m : Machine) (name : String) (args : List Value) :
    Option (Except Failure Value) × Machine :=
  let number := m.calls
  let m := run turns (m.begin name args)
  (answerOf? number m.tasks, { m with tasks := dropAnswer number m.tasks })

end Machine
end Opstack
