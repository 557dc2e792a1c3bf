import Opstack.Machine.Execution
import Opstack.Machine.Shared

/-!
# One instruction

`perform` is the meaning of an instruction: what it makes of the execution and of the shared
state.  `step` lets an execution take one step: it finds the next instruction, moves past it,
performs it, and names the place of the instruction in a failure.

Two instructions reach beyond their own execution.  `THREAD` starts another one, and `WAIT` needs
the result of one; `step` does not wait itself but says what for.
-/

set_option autoImplicit false

namespace Opstack

/-- What an instruction makes of its execution. -/
inductive Effect
  /-- The execution goes on. -/
  | next (x : Execution)
  /-- The execution fails. -/
  | fault (e : Fault)
  /-- The execution goes on beside a new one. -/
  | spawn (x child : Execution)
  /-- The execution goes on when a thread has ended, with its result. -/
  | wait (x : Execution) (thread : ThreadId)
  /-- The execution ends without a result. -/
  | crash

/-- The effect of an instruction that either goes on or fails. -/
def Effect.ofExcept : Except Fault Execution → Effect
  | .ok x => .next x
  | .error e => .fault e

/-- The execution is about to store to a slot that the limit allows but that the host has no room
for. -/
def Execution.overflows (x : Execution) (i : Instr) (limit capacity : Nat) : Bool :=
  match i.arg, x.operands, x.frames with
  | some (.slot n), _ :: _, _ :: _ => decide (capacity ≤ n ∧ n < limit)
  | _, _, _ => false

/-- Takes a routine name and an argument off and starts a thread that runs the routine. -/
def spawnThread (s : Shared) (x : Execution) : Shared × Effect :=
  let operands : Except Fault (Value × Routine × Execution) := do
    let (v, x) ← x.pop
    let name ← v.asText .thread
    let (arg, x) ← x.pop
    match s.find? name with
    | some routine => return (arg, routine, x)
    | none => .error (.unknownRoutine name)
  match operands with
  | .error e => (s, .fault e)
  | .ok (arg, routine, x) =>
    match s.spawn x.call with
    | (.error e, s) => (s, .fault e)
    | (.ok thread, s) =>
      (s, .spawn (x.push (.int thread)) ⟨some thread, x.call, [arg], [{ routine }]⟩)

/-- Takes the number of a thread off and asks for its result. -/
def claimThread (s : Shared) (x : Execution) : Shared × Effect :=
  let operands : Except Fault (ThreadId × Execution) := do
    let (v, x) ← x.pop
    let thread ← v.asNumber .wait
    return (thread, x)
  match operands with
  | .error e => (s, .fault e)
  | .ok (thread, x) =>
    match s.claim thread with
    | (.error e, s) => (s, .fault e)
    | (.ok (), s) => (s, .wait x thread)

/-- The shared state with the heap that an instruction leaves. -/
def onHeap (s : Shared) (f : Heap → Except Fault Execution × Heap) : Shared × Effect :=
  match s with
  | ⟨routines, config, heap, console, threads, failure, isHalted⟩ =>
    let (r, heap) := f heap
    (⟨routines, config, heap, console, threads, failure, isHalted⟩, .ofExcept r)

/-- The shared state with the console that an instruction leaves. -/
def onConsole (s : Shared) (f : Console → Except Fault Execution × Console) : Shared × Effect :=
  match s with
  | ⟨routines, config, heap, console, threads, failure, isHalted⟩ =>
    let (r, console) := f console
    (⟨routines, config, heap, console, threads, failure, isHalted⟩, .ofExcept r)

/-- What an instruction makes of the shared state and of an execution that has moved past it. -/
def perform (s : Shared) (x : Execution) (i : Instr) : Shared × Effect :=
  match i.op with
  | .push => (s, .ofExcept (i.literalArg.map x.push))
  | .pop => (s, .ofExcept (x.pop.map Prod.snd))
  | .load => (s, .ofExcept (i.slotArg.bind x.load))
  | .store =>
    if x.overflows i s.config.maxFrameSlots s.config.host.capacity then (s, .crash)
    else (s, .ofExcept (i.slotArg.bind fun n => x.store n s.config.maxFrameSlots))
  | .binary op => (s, .ofExcept (x.binary op))
  | .unary op => (s, .ofExcept (x.unary op))
  | .jmp => (s, .ofExcept (i.targetArg.bind x.jump))
  | .jmpf => (s, .ofExcept (i.targetArg.bind x.jumpUnless))
  | .call =>
    (s, .ofExcept do
      let name ← i.nameArg
      match s.find? name with
      | some routine => x.enter routine s.config.maxCallDepth
      | none => .error (.unknownRoutine name))
  | .ret => (s, .next x.leave)
  | .write => onConsole s x.write
  | .read => onConsole s x.read
  | .len => (s, .ofExcept (x.pushLength s.heap))
  | .allocs => onHeap s fun h => let (x, h) := x.newRecord h; (.ok x, h)
  | .setf => onHeap s fun h => x.setField h i
  | .getf => (s, .ofExcept (x.getField s.heap i))
  | .alloca => onHeap s x.newArray
  | .seti => onHeap s x.setIndex
  | .geti => (s, .ofExcept (x.getIndex s.heap))
  | .thread => spawnThread s x
  | .wait => claimThread s x
  | .dup => (s, .ofExcept x.dup)
  | .nop => (s, .next x)

/-- What one step makes of an execution. -/
inductive Turn
  /-- It goes on. -/
  | continues (x : Execution)
  /-- It goes on beside a new one. -/
  | spawns (x child : Execution)
  /-- It goes on when a thread has ended, with its result; a failure of the thread arises at the
  site. -/
  | waits (x : Execution) (thread : ThreadId) (site : Site)
  /-- It ends with a value. -/
  | returns (v : Value)
  /-- It ends with a failure. -/
  | fails (e : Failure)
  /-- It ends without a result. -/
  | crashes

/-- Lets an execution take one step.  It ends when it has left its last routine, and also when it
runs past the last instruction of any routine; its result is then the topmost operand. -/
def step (s : Shared) (x : Execution) : Shared × Turn :=
  match x with
  | ⟨_, _, operands, []⟩ => (s, .returns (operands.headD .null))
  | ⟨thread, call, operands, f :: fs⟩ =>
    let routine := f.routine
    let pc := f.pc
    match routine.get? pc with
    | none => (s, .returns (operands.headD .null))
    | some i =>
      if s.isHalted then
        (s, .fails (.raised .aborted ⟨routine.name, pc, i.text⟩ thread))
      else
        match perform s ⟨thread, call, operands, { f with pc := pc + 1 } :: fs⟩ i with
        | (s, .next x) => (s, .continues x)
        | (s, .fault e) => (s, .fails (.raised e ⟨routine.name, pc, i.text⟩ thread))
        | (s, .spawn x child) => (s, .spawns x child)
        | (s, .wait x t) => (s, .waits x t ⟨routine.name, pc, i.text⟩)
        | (s, .crash) => (s, .crashes)

end Opstack
