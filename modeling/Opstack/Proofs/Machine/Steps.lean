import Opstack.Proofs.Machine.Effects

/-!
# Steps and their instructions

A step is its instruction together with the place of the instruction: `step_of_instr?` says so in
one equation, and `step_of_instr?_eq_none` and `step_of_isHalted` are the two steps that perform no
instruction.  `step_cases` has all three, so what is proved about all instructions holds of all
steps.

An instruction changes the heap, the console and the table of threads, and a turn also the record
of a failure (`exists_perform`, `Task.exists_turn`); the routines and the settings stay.
-/

set_option autoImplicit false

namespace Opstack

/-! ## The next instruction -/

/-- The execution has moved past its next instruction. -/
def Execution.passed : Execution → Execution
  | ⟨thread, call, operands, f :: fs⟩ => ⟨thread, call, operands, { f with pc := f.pc + 1 } :: fs⟩
  | x => x

@[simp] theorem Execution.operands_passed (x : Execution) : x.passed.operands = x.operands := by
  obtain ⟨thread, call, operands, frames⟩ := x
  cases frames <;> rfl

@[simp] theorem Execution.tail_frames_passed (x : Execution) :
    x.passed.frames.tail = x.frames.tail := by
  obtain ⟨thread, call, operands, frames⟩ := x
  cases frames <;> rfl

theorem Execution.owner_passed (x : Execution) :
    x.passed.thread = x.thread ∧ x.passed.call = x.call := by
  obtain ⟨thread, call, operands, _ | ⟨f, fs⟩⟩ := x <;> exact ⟨rfl, rfl⟩

theorem Execution.frames_passed {x : Execution} {f : Frame} {fs : List Frame}
    (hframes : x.frames = f :: fs) : x.passed.frames = { f with pc := f.pc + 1 } :: fs := by
  obtain ⟨thread, call, operands, frames⟩ := x
  cases hframes
  rfl

theorem Execution.passed_push (x : Execution) (v : Value) :
    (x.push v).passed = x.passed.push v := by
  obtain ⟨thread, call, operands, _ | ⟨f, fs⟩⟩ := x <;> rfl

/-- The next instruction of an execution, in the routine of its innermost activation. -/
def Execution.instr? (x : Execution) : Option Instr :=
  match x.frames with
  | f :: _ => f.routine.get? f.pc
  | [] => none

theorem Execution.instr?_eq_some {x : Execution} {i : Instr} (h : x.instr? = some i) :
    ∃ f fs, x.frames = f :: fs ∧ f.routine.get? f.pc = some i := by
  obtain ⟨thread, call, operands, _ | ⟨f, fs⟩⟩ := x
  · cases h
  · exact ⟨f, fs, rfl, h⟩

/-! ## Steps -/

/-- What an instruction makes of its execution, as a step of it. -/
def Effect.toTurn (site : Site) (thread : Option ThreadId) : Effect → Turn
  | .next x => .continues x
  | .fault e => .fails (.raised e site thread)
  | .spawn x child => .spawns x child
  | .wait x t => .waits x t site
  | .crash => .crashes

/-- The place of an instruction that the execution is at. -/
def Execution.siteOf (x : Execution) (i : Instr) : Site :=
  match x.frames with
  | f :: _ => ⟨f.routine.name, f.pc, i.text⟩
  | [] => ⟨"", 0, i.text⟩

theorem Execution.siteOf_eq {x : Execution} {f : Frame} {fs : List Frame}
    (hframes : x.frames = f :: fs) (i : Instr) :
    x.siteOf i = ⟨f.routine.name, f.pc, i.text⟩ := by
  rw [siteOf, hframes]

section

variable {s : Shared} {x : Execution} {i : Instr}

/-- An execution without a next instruction has come to its end. -/
theorem step_of_instr?_eq_none (h : x.instr? = none) :
    step s x = (s, .returns (x.operands.headD .null)) := by
  obtain ⟨thread, call, operands, _ | ⟨f, fs⟩⟩ := x
  · rfl
  · simp only [step, show f.routine.get? f.pc = none from h]

/-- When the machine has been halted an execution stops instead of performing an instruction. -/
theorem step_of_isHalted (h : x.instr? = some i) (hhalted : s.isHalted = true) :
    step s x = (s, .fails (.raised .aborted (x.siteOf i) x.thread)) := by
  obtain ⟨thread, call, operands, _ | ⟨f, fs⟩⟩ := x
  · cases h
  · simp only [step, show f.routine.get? f.pc = some i from h, hhalted, if_true]
    rfl

/-- **A step performs the next instruction.** -/
theorem step_of_instr? (h : x.instr? = some i) (hrun : s.isHalted = false) :
    step s x = ((perform s x.passed i).1,
      (perform s x.passed i).2.toTurn (x.siteOf i) x.thread) := by
  obtain ⟨thread, call, operands, _ | ⟨f, fs⟩⟩ := x
  · cases h
  · simp only [step, show f.routine.get? f.pc = some i from h, hrun, Bool.false_eq_true, if_false]
    change _ = ((perform s ⟨thread, call, operands, { f with pc := f.pc + 1 } :: fs⟩ i).1,
      (perform s ⟨thread, call, operands, { f with pc := f.pc + 1 } :: fs⟩ i).2.toTurn
        ⟨f.routine.name, f.pc, i.text⟩ thread)
    rcases perform s ⟨thread, call, operands, { f with pc := f.pc + 1 } :: fs⟩ i with
      ⟨s', _ | _ | _ | _ | _⟩ <;> rfl

/-- **All that a step can be.** -/
theorem step_cases (s : Shared) (x : Execution) :
    (x.instr? = none ∧ step s x = (s, .returns (x.operands.headD .null))) ∨
    (∃ i, x.instr? = some i ∧ s.isHalted = true ∧
      step s x = (s, .fails (.raised .aborted (x.siteOf i) x.thread))) ∨
    (∃ i, x.instr? = some i ∧ s.isHalted = false ∧
      step s x = ((perform s x.passed i).1,
        (perform s x.passed i).2.toTurn (x.siteOf i) x.thread)) := by
  cases hi : x.instr? with
  | none => exact .inl ⟨rfl, step_of_instr?_eq_none hi⟩
  | some i =>
    cases hs : s.isHalted with
    | true => exact .inr (.inl ⟨i, rfl, rfl, step_of_isHalted hi hs⟩)
    | false => exact .inr (.inr ⟨i, rfl, rfl, step_of_instr? hi hs⟩)

/-! ## Instructions about threads -/

theorem Effect.ofExcept_ne_spawn (r : Except Fault Execution) (y child : Execution) :
    Effect.ofExcept r ≠ .spawn y child := by
  intro h
  cases r <;> cases h

theorem claimThread_ne_spawn (s : Shared) (x y child : Execution) :
    (claimThread s x).2 ≠ .spawn y child := by
  rw [claimThread]
  dsimp only
  split
  · exact fun h => by cases h
  · split <;> exact fun h => by cases h

/-- Only `THREAD` starts an execution. -/
theorem op_of_spawn {y child : Execution} (h : (perform s x i).2 = .spawn y child) :
    i.op = .thread := by
  rw [perform] at h
  split at h
  case h_4 =>
    split at h
    · cases h
    · exact absurd h (Effect.ofExcept_ne_spawn _ _ _)
  case h_10 | h_14 | h_23 => cases h
  case h_20 hop => exact hop
  case h_21 => exact absurd h (claimThread_ne_spawn s x y child)
  all_goals exact absurd h (Effect.ofExcept_ne_spawn _ _ _)

theorem Effect.ofExcept_ne_wait (r : Except Fault Execution) (y : Execution) (thread : ThreadId) :
    Effect.ofExcept r ≠ .wait y thread := by
  intro h
  cases r <;> cases h

theorem spawnThread_ne_wait (s : Shared) (x y : Execution) (thread : ThreadId) :
    (spawnThread s x).2 ≠ .wait y thread := by
  rw [spawnThread]
  dsimp only
  split
  · exact fun h => by cases h
  · split <;> exact fun h => by cases h

/-- Only `WAIT` waits. -/
theorem op_of_wait {y : Execution} {thread : ThreadId} (h : (perform s x i).2 = .wait y thread) :
    i.op = .wait := by
  rw [perform] at h
  split at h
  case h_4 =>
    split at h
    · cases h
    · exact absurd h (Effect.ofExcept_ne_wait _ _ _)
  case h_10 | h_14 | h_23 => cases h
  case h_20 => exact absurd h (spawnThread_ne_wait s x y thread)
  case h_21 hop => exact hop
  all_goals exact absurd h (Effect.ofExcept_ne_wait _ _ _)

/-- A step that neither ends the execution nor fails is what the instruction makes of it. -/
theorem toTurn_of_step {turn : Turn} (h : (step s x).2 = turn) (hreturns : ∀ v, turn ≠ .returns v)
    (hfails : ∀ e, turn ≠ .fails e) : ∃ i, x.instr? = some i ∧
      (perform s x.passed i).2.toTurn (x.siteOf i) x.thread = turn := by
  rcases step_cases s x with ⟨-, hstep⟩ | ⟨i, -, -, hstep⟩ | ⟨i, hi, -, hstep⟩ <;> rw [hstep] at h
  · exact absurd h.symm (hreturns _)
  · exact absurd h.symm (hfails _)
  · exact ⟨i, hi, h⟩

theorem perform_of_spawns {y child : Execution} (h : (step s x).2 = .spawns y child) :
    ∃ i, x.instr? = some i ∧ (perform s x.passed i).2 = .spawn y child := by
  obtain ⟨i, hi, hturn⟩ := toTurn_of_step h (fun _ h => by cases h) (fun _ h => by cases h)
  refine ⟨i, hi, ?_⟩
  generalize (perform s x.passed i).2 = effect at hturn
  cases effect <;> cases hturn
  rfl

theorem perform_of_waits {y : Execution} {thread : ThreadId} {site : Site}
    (h : (step s x).2 = .waits y thread site) :
    ∃ i, x.instr? = some i ∧ site = x.siteOf i ∧ (perform s x.passed i).2 = .wait y thread := by
  obtain ⟨i, hi, hturn⟩ := toTurn_of_step h (fun _ h => by cases h) (fun _ h => by cases h)
  refine ⟨i, hi, ?_⟩
  generalize (perform s x.passed i).2 = effect at hturn
  cases effect <;> cases hturn
  exact ⟨rfl, rfl⟩

/-- The execution that starts another one is at a `THREAD`. -/
theorem instr?_of_spawns {y child : Execution} (h : (step s x).2 = .spawns y child) :
    ∃ i, x.instr? = some i ∧ i.op = .thread := by
  obtain ⟨i, hi, heffect⟩ := perform_of_spawns h
  exact ⟨i, hi, op_of_spawn heffect⟩

/-- The execution that comes to wait is at a `WAIT`. -/
theorem instr?_of_waits {y : Execution} {thread : ThreadId} {site : Site}
    (h : (step s x).2 = .waits y thread site) : ∃ i, x.instr? = some i ∧ i.op = .wait := by
  obtain ⟨i, hi, -, heffect⟩ := perform_of_waits h
  exact ⟨i, hi, op_of_wait heffect⟩

/-- An execution whose instruction has nothing to do with threads starts none and waits for none. -/
theorem not_spawns_or_waits (s : Shared)
    (hop : ∀ i, x.instr? = some i → i.op ≠ .thread ∧ i.op ≠ .wait) :
    (∀ y child, (step s x).2 ≠ .spawns y child) ∧
      ∀ y thread site, (step s x).2 ≠ .waits y thread site := by
  refine ⟨fun y child h => ?_, fun y thread site h => ?_⟩
  · obtain ⟨i, hi, hthread⟩ := instr?_of_spawns h
    exact (hop i hi).1 hthread
  · obtain ⟨i, hi, hwait⟩ := instr?_of_waits h
    exact (hop i hi).2 hwait

end

/-! ## Turns of executions -/

section

variable {s s' : Shared} {x y child : Execution}

theorem Task.turn_of_continues (h : step s x = (s', .continues y)) :
    (Task.running x).turn s = (s', [.running y]) := by
  rw [turn, h]

theorem Task.turn_of_fails {e : Failure} (h : step s x = (s', .fails e)) :
    (Task.running x).turn s = (s', [.failing x.thread x.call e]) := by
  rw [turn, h]

theorem Task.turn_of_spawns (h : step s x = (s', .spawns y child)) :
    (Task.running x).turn s = (s', [.running child, .running y]) := by
  rw [turn, h]

theorem Task.turn_of_waits {thread : ThreadId} {site : Site}
    (h : step s x = (s', .waits y thread site)) :
    (Task.running x).turn s = (s', [.waiting y thread site]) := by
  rw [turn, h]

theorem Task.turn_of_crashes (h : step s x = (s', .crashes)) :
    (Task.running x).turn s = crash s' x.thread := by
  rw [turn, h]

theorem Task.turn_of_outcome {thread : ThreadId} {outcome : Outcome}
    (h : s.outcomeOf thread = outcome) (x : Execution) (site : Site) :
    (Task.waiting x thread site).turn s = (s, [resume x thread site outcome]) := by
  rw [turn, h]

end

/-! ## What stays the same -/

section

variable (s : Shared)

/-- Changing the record of a thread changes nothing but the table. -/
theorem Shared.exists_modifyThread (thread : ThreadId) (f : Thread → Thread) :
    ∃ threads, s.modifyThread thread f = { s with threads } := by
  rw [modifyThread]
  split
  · exact ⟨_, rfl⟩
  · exact ⟨s.threads, rfl⟩

theorem Shared.exists_spawn (call : Nat) : ∃ threads, (s.spawn call).2 = { s with threads } := by
  rw [spawn]
  split
  · exact ⟨_, rfl⟩
  · exact ⟨s.threads, rfl⟩

theorem Shared.exists_claim (thread : ThreadId) :
    ∃ threads, (s.claim thread).2 = { s with threads } := by
  rw [claim]
  split
  · exact ⟨s.threads, rfl⟩
  · split
    · exact ⟨s.threads, rfl⟩
    · exact s.exists_modifyThread thread _

theorem exists_spawnThread (x : Execution) :
    ∃ threads, (spawnThread s x).1 = { s with threads } := by
  rw [spawnThread]
  dsimp only
  split
  · exact ⟨s.threads, rfl⟩
  · rename_i arg routine y _
    have hthreads := s.exists_spawn y.call
    split
    all_goals
      rename_i he
      rw [he] at hthreads
      exact hthreads

theorem exists_claimThread (x : Execution) :
    ∃ threads, (claimThread s x).1 = { s with threads } := by
  rw [claimThread]
  dsimp only
  split
  · exact ⟨s.threads, rfl⟩
  · rename_i thread y _
    have hthreads := s.exists_claim thread
    split
    all_goals
      rename_i he
      rw [he] at hthreads
      exact hthreads

/-- An instruction changes the heap, the console and the table of threads, and nothing else. -/
theorem exists_perform (x : Execution) (i : Instr) :
    ∃ heap console threads, (perform s x i).1 = { s with heap, console, threads } := by
  rw [perform]
  split
  case h_4 => split <;> exact ⟨_, _, _, rfl⟩
  case h_20 =>
    obtain ⟨threads, hthreads⟩ := exists_spawnThread s x
    exact ⟨_, _, threads, hthreads⟩
  case h_21 =>
    obtain ⟨threads, hthreads⟩ := exists_claimThread s x
    exact ⟨_, _, threads, hthreads⟩
  all_goals exact ⟨_, _, _, rfl⟩

theorem exists_step (x : Execution) :
    ∃ heap console threads, (step s x).1 = { s with heap, console, threads } := by
  rcases step_cases s x with ⟨-, hstep⟩ | ⟨i, -, -, hstep⟩ | ⟨i, -, -, hstep⟩ <;> rw [hstep]
  · exact ⟨_, _, _, rfl⟩
  · exact ⟨_, _, _, rfl⟩
  · exact exists_perform s x.passed i

end

section

variable {s : Shared} {x : Execution} {i : Instr}

/-- Only `READ` and `WRITE` touch the console. -/
theorem console_perform (hread : i.op ≠ .read) (hwrite : i.op ≠ .write) (x : Execution) :
    (perform s x i).1.console = s.console := by
  rw [perform]
  split
  case h_4 => split <;> rfl
  case h_11 hop => exact absurd hop hwrite
  case h_12 hop => exact absurd hop hread
  case h_20 =>
    obtain ⟨threads, hthreads⟩ := exists_spawnThread s x
    rw [hthreads]
  case h_21 =>
    obtain ⟨threads, hthreads⟩ := exists_claimThread s x
    rw [hthreads]
  all_goals rfl

theorem console_step (hop : ∀ i, x.instr? = some i → i.op ≠ .read ∧ i.op ≠ .write) :
    (step s x).1.console = s.console := by
  rcases step_cases s x with ⟨-, hstep⟩ | ⟨i, -, -, hstep⟩ | ⟨i, hi, -, hstep⟩ <;> rw [hstep]
  exact console_perform (hop i hi).1 (hop i hi).2 x.passed

end

namespace Task

variable (s : Shared)

theorem exists_finish (thread : Option ThreadId) (call : Nat) (v : Value) :
    ∃ threads, (finish s thread call v).1 = { s with threads } := by
  cases thread with
  | none => exact ⟨s.threads, rfl⟩
  | some t => exact s.exists_modifyThread t _

theorem exists_crash (thread : Option ThreadId) :
    ∃ threads, (crash s thread).1 = { s with threads } := by
  cases thread with
  | none => exact ⟨s.threads, rfl⟩
  | some t => exact s.exists_modifyThread t _

theorem exists_record (thread : Option ThreadId) (call : Nat) (e : Failure) :
    ∃ threads, (record s thread call e).1 = { s.fail e with threads } := by
  cases thread with
  | none => exact ⟨s.threads, rfl⟩
  | some t => exact (s.fail e).exists_modifyThread t _

/-- Recording failures changes only the record and the halt. -/
theorem exists_foldl_fail (threads : List ThreadId) :
    ∃ failure isHalted, threads.foldl (fun s t => s.fail (crashFailure t)) s =
      { s with failure, isHalted } := by
  induction threads generalizing s with
  | nil => exact ⟨s.failure, s.isHalted, rfl⟩
  | cons t rest ih => exact ih (s.fail (crashFailure t))

/-- The end of the last execution of a call changes only the output, the record and the halt. -/
theorem exists_join (call : Nat) :
    ∃ console failure isHalted, join s call = { s with console, failure, isHalted } := by
  obtain ⟨failure, isHalted, hfold⟩ := exists_foldl_fail s (s.crashed call)
  rw [join.eq_def, hfold]
  dsimp only
  split <;> exact ⟨_, _, _, rfl⟩

/-- A turn of an execution is its step, but for the end of a thread. -/
theorem exists_turn_running (x : Execution) :
    ∃ threads, ((running x).turn s).1 = { (step s x).1 with threads } := by
  rw [turn]
  rcases step s x with ⟨s', _ | _ | _ | v | _ | _⟩
  case returns => exact exists_finish s' x.thread x.call v
  case crashes => exact exists_crash s' x.thread
  all_goals exact ⟨_, rfl⟩

/-- A turn leaves the routines and the settings as they are. -/
theorem exists_turn (t : Task) : ∃ heap console threads failure isHalted,
    (t.turn s).1 = { s with heap, console, threads, failure, isHalted } := by
  cases t with
  | running x =>
    obtain ⟨threads, hturn⟩ := exists_turn_running s x
    obtain ⟨heap, console, _, hstep⟩ := exists_step s x
    rw [hturn, hstep]
    exact ⟨_, _, _, _, _, rfl⟩
  | waiting | closing | answered => exact ⟨_, _, _, _, _, rfl⟩
  | failing thread call e =>
    obtain ⟨threads, hrecord⟩ := exists_record s thread call e
    exact ⟨_, _, threads, _, _, hrecord⟩
  | joining call result =>
    rw [turn]
    split
    · obtain ⟨console, failure, isHalted, hjoin⟩ := exists_join s call
      exact ⟨_, console, _, failure, isHalted, hjoin⟩
    · exact ⟨_, _, _, _, _, rfl⟩

theorem routines_turn (t : Task) : (t.turn s).1.routines = s.routines := by
  obtain ⟨heap, console, threads, failure, isHalted, hturn⟩ := t.exists_turn s
  rw [hturn]

theorem config_turn (t : Task) : (t.turn s).1.config = s.config := by
  obtain ⟨heap, console, threads, failure, isHalted, hturn⟩ := t.exists_turn s
  rw [hturn]

end Task

/-! ## The beginning of a call -/

namespace Machine

variable {s : Shared} {call : Nat} {name : String} {args : List Value}

/-- A call begins with the execution of its routine, unless the host has no room for the stacks or
there is no such routine. -/
theorem entry_cases (s : Shared) (call : Nat) (name : String) (args : List Value) :
    (∃ routine, s.find? name = some routine ∧ s.config.roomForStacks = true ∧
      entry s call name args = [.running ⟨none, call, args, [{ routine }]⟩]) ∨
    ((∃ routine, s.find? name = some routine) ∧ s.config.roomForStacks = false ∧
      entry s call name args = []) ∨
    (s.find? name = none ∧
      entry s call name args = [.failing none call { fault := .unknownRoutine name }]) := by
  rw [entry]
  cases hfind : s.find? name with
  | none => exact .inr (.inr ⟨rfl, rfl⟩)
  | some routine =>
    cases hroom : s.config.roomForStacks with
    | true => exact .inl ⟨routine, rfl, rfl, rfl⟩
    | false => exact .inr (.inl ⟨⟨routine, rfl⟩, rfl, rfl⟩)

theorem forall_mem_entry {P : Task → Prop}
    (hruns : ∀ routine, s.find? name = some routine →
      P (.running ⟨none, call, args, [{ routine }]⟩))
    (hfails : P (.failing none call { fault := .unknownRoutine name })) :
    ∀ t ∈ entry s call name args, P t := by
  rcases entry_cases s call name args with ⟨routine, hfind, -, hentry⟩ | ⟨-, -, hentry⟩ |
    ⟨-, hentry⟩ <;> rw [hentry]
  · exact List.forall_mem_singleton.mpr (hruns routine hfind)
  · exact List.forall_mem_nil P
  · exact List.forall_mem_singleton.mpr hfails

end Machine
end Opstack
