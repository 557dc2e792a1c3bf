import Opstack.Proofs.Machine.Steps

/-!
# Runs

An execution goes from state to state while others change what it shares with them.  `Next` is one
step of it with whatever the shared state may be at that moment, so what holds of every sequence of
such steps holds in every order in which a machine lets its executions proceed.

* `Trace` is the history of an execution from its start, the latest state first.
* `Above` is a stretch of a history in which the call stack is never lower than a given depth.
* `Machine.play` lets calls begin, tasks take turns and answers be taken in any order, and
  `Machine.exists_trace_of_play` says that each execution under way then has a history that began
  with a call or with a `THREAD`.
-/

set_option autoImplicit false

namespace Opstack

/-! ## One step -/

/-- One step of an execution beside others; a result that it waits for may be any value. -/
inductive Execution.Next (routines : List Routine) : Execution → Execution → Prop
  | continues {s s' : Shared} {x y : Execution} (hs : s.routines = routines)
      (h : step s x = (s', .continues y)) : Next routines x y
  | spawns {s s' : Shared} {x y child : Execution} (hs : s.routines = routines)
      (h : step s x = (s', .spawns y child)) : Next routines x y
  | waits {s s' : Shared} {x y : Execution} {thread : ThreadId} {site : Site} (v : Value)
      (hs : s.routines = routines) (h : step s x = (s', .waits y thread site)) :
      Next routines x (y.push v)

/-- A step does what its instruction does, and the instruction is in the routine of the innermost
activation. -/
theorem step_follows (s : Shared) (x : Execution) :
    match (step s x).2 with
    | .continues y => ∃ i, x.instr? = some i ∧ i.Does s.routines x.passed y
    | .spawns y child => ∃ i, x.instr? = some i ∧ i.Does s.routines x.passed y ∧
        ∃ thread arg routine, routine ∈ s.routines ∧
          child = ⟨some thread, x.call, [arg], [{ routine }]⟩
    | .waits y _ _ => ∃ i, x.instr? = some i ∧ ∀ v, i.Does s.routines x.passed (y.push v)
    | .returns _ => x.instr? = none
    | .fails e => ∃ f fs i, x.frames = f :: fs ∧ f.routine.get? f.pc = some i ∧
        (e.fault = .aborted ∨ i.Fails x.passed f e.fault)
    | .crashes => ∃ i, x.instr? = some i ∧ i.Overflows s.config.host.capacity := by
  rcases step_cases s x with ⟨hi, hstep⟩ | ⟨i, hi, -, hstep⟩ | ⟨i, hi, -, hstep⟩ <;> rw [hstep]
  · exact hi
  · obtain ⟨f, fs, hframes, hget⟩ := Execution.instr?_eq_some hi
    exact ⟨f, fs, i, hframes, hget, .inl rfl⟩
  · obtain ⟨f, fs, hframes, hget⟩ := Execution.instr?_eq_some hi
    obtain ⟨thread, call, operands, frames⟩ := x
    obtain rfl : frames = f :: fs := hframes
    have hfollows := perform_follows s i
      (x := ⟨thread, call, operands, { f with pc := f.pc + 1 } :: fs⟩) rfl
    simp only [Execution.passed]
    generalize perform s ⟨thread, call, operands, { f with pc := f.pc + 1 } :: fs⟩ i = r
      at hfollows
    obtain ⟨s', effect⟩ := r
    cases effect with
    | next y => exact ⟨i, hi, hfollows⟩
    | fault e => exact ⟨f, fs, i, rfl, hget, .inr ⟨hfollows.underflow, hfollows.uninitialized,
        hfollows.malformed, hfollows.aborted⟩⟩
    | spawn y child => exact ⟨i, hi, hfollows⟩
    | wait y t => exact ⟨i, hi, hfollows⟩
    | crash => exact ⟨i, hi, hfollows⟩

namespace Execution

variable {routines : List Routine} {x y : Execution}

theorem Next.does (h : Next routines x y) :
    ∃ i, x.instr? = some i ∧ i.Does routines x.passed y := by
  cases h with
  | @continues s _ _ _ hs h =>
    have hfollows := step_follows s x
    rw [h] at hfollows
    exact hs ▸ hfollows
  | @spawns s _ _ _ _ hs h =>
    have hfollows := step_follows s x
    rw [h] at hfollows
    obtain ⟨i, hi, hdoes, -⟩ := hfollows
    exact ⟨i, hi, hs ▸ hdoes⟩
  | @waits s _ _ y _ _ v hs h =>
    have hfollows := step_follows s x
    rw [h] at hfollows
    obtain ⟨i, hi, hdoes⟩ := hfollows
    exact ⟨i, hi, hs ▸ hdoes v⟩

/-- An instruction that fails because an operand is missing takes more off than there is. -/
theorem length_lt_of_underflow {s s' : Shared} {e : Failure} (h : step s x = (s', .fails e))
    (he : e.fault = .stackUnderflow) :
    ∃ i, x.instr? = some i ∧ x.operands.length < i.op.pops := by
  have hfollows := step_follows s x
  rw [h] at hfollows
  obtain ⟨f, fs, i, hx, hi, hfails⟩ := hfollows
  have hinstr : x.instr? = some i := by rw [instr?, hx]; exact hi
  rw [he] at hfails
  rcases hfails with hfails | hfails
  · cases hfails
  · exact ⟨i, hinstr, x.operands_passed ▸ hfails.underflow rfl⟩

/-- An instruction that fails because a slot has no value is a `LOAD` from that slot. -/
theorem load_of_uninitializedSlot {s s' : Shared} {e : Failure} {slot : Nat}
    (h : step s x = (s', .fails e)) (he : e.fault = .uninitializedSlot slot) :
    ∃ f fs i, x.frames = f :: fs ∧ f.routine.get? f.pc = some i ∧ i.op = .load ∧
      i.arg = some (.slot slot) ∧ f.slots[slot]? = none := by
  have hfollows := step_follows s x
  rw [h] at hfollows
  obtain ⟨f, fs, i, hx, hi, hfails⟩ := hfollows
  rw [he] at hfails
  rcases hfails with hfails | hfails
  · cases hfails
  · obtain ⟨hop, harg, hv⟩ := hfails.uninitialized slot rfl
    exact ⟨f, fs, i, hx, hi, hop, harg, hv⟩

/-- An instruction that fails because of what it carries carries something else than its opcode
needs. -/
theorem accepts_of_malformed {s s' : Shared} {e : Failure} (h : step s x = (s', .fails e))
    (he : e.fault = .malformedInstruction) :
    ∃ f fs i, x.frames = f :: fs ∧ f.routine.get? f.pc = some i ∧ i.op.accepts i.arg = false := by
  have hfollows := step_follows s x
  rw [h] at hfollows
  obtain ⟨f, fs, i, hx, hi, hfails⟩ := hfollows
  rw [he] at hfails
  rcases hfails with hfails | hfails
  · cases hfails
  · exact ⟨f, fs, i, hx, hi, hfails.malformed rfl⟩

/-! ## Histories -/

/-- The states that an execution has gone through since it was in a given one, the latest
first. -/
inductive Trace (routines : List Routine) (x₀ : Execution) : List Execution → Prop
  | start : Trace routines x₀ [x₀]
  | next {x y : Execution} {past : List Execution} (h : Trace routines x₀ (x :: past))
      (hnext : x.Next routines y) : Trace routines x₀ (y :: x :: past)

/-- The execution gets from one state to another and never has fewer activations than a given
number on the way. -/
inductive Above (routines : List Routine) (depth : Nat) (x : Execution) : Execution → Prop
  | refl (hdepth : depth ≤ x.frames.length) : Above routines depth x x
  | next {y z : Execution} (h : Above routines depth x y) (hnext : y.Next routines z)
      (hdepth : depth ≤ z.frames.length) : Above routines depth x z

/-- The execution gets from one state to another. -/
def Reaches (routines : List Routine) : Execution → Execution → Prop := Above routines 0

/-- An execution begins with a call from outside, or with a `THREAD` and its one argument. -/
inductive Starts (routines : List Routine) : Execution → Prop
  | call {name : String} {routine : Routine} (h : routineOf? routines name = some routine)
      (call : Nat) (args : List Value) : Starts routines ⟨none, call, args, [{ routine }]⟩
  | thread {routine : Routine} (h : routine ∈ routines) (thread : ThreadId) (call : Nat)
      (arg : Value) : Starts routines ⟨some thread, call, [arg], [{ routine }]⟩

/-- The execution has a history that goes back to its beginning. -/
def Arises (routines : List Routine) (x : Execution) : Prop :=
  ∃ x₀ past, Starts routines x₀ ∧ Trace routines x₀ (x :: past)

theorem Starts.arises (h : Starts routines x) : Arises routines x := ⟨x, [], h, .start⟩

theorem Arises.next (h : Arises routines x) (hnext : x.Next routines y) : Arises routines y := by
  obtain ⟨x₀, past, hstarts, htrace⟩ := h
  exact ⟨x₀, x :: past, hstarts, htrace.next hnext⟩

end Execution

/-! ## Whole machines -/

/-- What can happen to a machine. -/
inductive Move
  /-- A call begins. -/
  | begin (name : String) (args : List Value)
  /-- The task at a position takes a turn. -/
  | advance (position : Nat)
  /-- The answer of a call is taken. -/
  | forget (call : Nat)

namespace Machine

/-- The machine after a move. -/
def move (m : Machine) : Move → Machine
  | .begin name args => m.begin name args
  | .advance position => m.advance position
  | .forget call => { m with tasks := dropAnswer call m.tasks }

/-- The machine after several moves. -/
def play (m : Machine) (moves : List Move) : Machine := moves.foldl move m

theorem play_append (m : Machine) (moves more : List Move) :
    m.play (moves ++ more) = (m.play moves).play more :=
  List.foldl_append

theorem run_eq_play (turns : Nat) (m : Machine) : ∃ moves, run turns m = m.play moves := by
  induction turns generalizing m with
  | zero => exact ⟨[], rfl⟩
  | succ n ih =>
    rw [run]
    cases m.ready? with
    | none => exact ⟨[], rfl⟩
    | some position =>
      obtain ⟨moves, hmoves⟩ := ih (m.advance position)
      exact ⟨.advance position :: moves, hmoves⟩

/-- A call is one of the ways in which a machine can go on. -/
theorem call_eq_play (turns : Nat) (m : Machine) (name : String) (args : List Value) :
    ∃ moves, (m.call turns name args).2 = m.play moves := by
  obtain ⟨moves, hmoves⟩ := run_eq_play turns (m.begin name args)
  refine ⟨.begin name args :: (moves ++ [.forget m.calls]), ?_⟩
  rw [call, hmoves]
  exact (play_append (m.begin name args) moves [.forget m.calls]).symm

end Machine

/-! ### The routines stay the same -/

theorem routines_step (s : Shared) (x : Execution) : (step s x).1.routines = s.routines := by
  obtain ⟨heap, console, threads, hstep⟩ := exists_step s x
  rw [hstep]

namespace Task

theorem routines_join (s : Shared) (call : Nat) : (join s call).routines = s.routines := by
  obtain ⟨console, failure, isHalted, hjoin⟩ := exists_join s call
  rw [hjoin]

/-! ### Every execution has a history -/

/-- The execution of the task, if it has one, has a history. -/
def Arises (routines : List Routine) : Task → Prop
  | .running x => x.Arises routines
  | .waiting x _ _ => ∀ v, (x.push v).Arises routines
  | _ => True

/-- A turn leaves the routines as they are, and the executions that it leaves have a history if
that of the task has one. -/
theorem turn_arises {s : Shared} {t : Task} (h : t.Arises s.routines) :
    (t.turn s).1.routines = s.routines ∧ ∀ t' ∈ (t.turn s).2, t'.Arises s.routines := by
  refine ⟨routines_turn s t, ?_⟩
  cases t with
  | running x =>
    have hfollows := step_follows s x
    rw [turn]
    split
    · rename_i s' y hstep
      exact List.forall_mem_singleton.mpr (h.next (.continues rfl hstep))
    · rename_i s' y child hstep
      rw [hstep] at hfollows
      obtain ⟨i, -, -, thread, arg, routine, hmem, rfl⟩ := hfollows
      refine List.forall_mem_cons.mpr ⟨?_, List.forall_mem_singleton.mpr ?_⟩
      · exact (Execution.Starts.thread hmem thread x.call arg).arises
      · exact Execution.Arises.next h (.spawns rfl hstep)
    · rename_i s' y t site hstep
      exact List.forall_mem_singleton.mpr fun v => Execution.Arises.next h (.waits v rfl hstep)
    · unfold finish
      split
      · exact List.forall_mem_nil _
      · exact List.forall_mem_singleton.mpr trivial
    · exact List.forall_mem_singleton.mpr trivial
    · unfold crash
      split <;> exact List.forall_mem_nil _
  | waiting x t site =>
    refine List.forall_mem_singleton.mpr ?_
    cases s.outcomeOf t with
    | running => exact h
    | finished result =>
      cases result with
      | ok v => exact h v
      | error e => trivial
    | crashed => trivial
  | failing thread call e =>
    rw [turn]
    unfold record
    split
    · exact List.forall_mem_nil _
    · exact List.forall_mem_singleton.mpr trivial
  | joining call result =>
    rw [turn]
    split <;> exact List.forall_mem_singleton.mpr trivial
  | closing call result => exact List.forall_mem_singleton.mpr trivial
  | answered call result => exact List.forall_mem_singleton.mpr trivial

theorem turnAt_arises {s : Shared} {tasks : List Task} (position : Nat)
    (h : ∀ t ∈ tasks, t.Arises s.routines) :
    (turnAt s position tasks).1.routines = s.routines ∧
      ∀ t ∈ (turnAt s position tasks).2, t.Arises s.routines := by
  induction tasks generalizing position with
  | nil => exact ⟨by cases position <;> rfl, by cases position <;> exact List.forall_mem_nil _⟩
  | cons t rest ih =>
    rw [List.forall_mem_cons] at h
    cases position with
    | zero =>
      obtain ⟨hroutines, htasks⟩ := turn_arises h.1
      exact ⟨hroutines, List.forall_mem_append.mpr ⟨htasks, h.2⟩⟩
    | succ position =>
      obtain ⟨hroutines, htasks⟩ := ih position h.2
      exact ⟨hroutines, List.forall_mem_cons.mpr ⟨h.1, htasks⟩⟩

end Task

namespace Machine

/-- The executions under way have histories. -/
def Arises (m : Machine) : Prop := ∀ t ∈ m.tasks, t.Arises m.shared.routines

theorem move_arises {m : Machine} (h : m.Arises) (move : Move) :
    (m.move move).shared.routines = m.shared.routines ∧ (m.move move).Arises := by
  cases move with
  | begin name args =>
    have hentry : ∀ t ∈ entry m.shared m.calls name args, t.Arises m.shared.routines :=
      forall_mem_entry (fun routine hfind => (Execution.Starts.call hfind m.calls args).arises)
        trivial
    exact ⟨rfl, List.forall_mem_append.mpr ⟨hentry, h⟩⟩
  | advance position =>
    obtain ⟨hroutines, htasks⟩ := Task.turnAt_arises position h
    refine ⟨hroutines, fun t ht => ?_⟩
    change t.Arises (Task.turnAt m.shared position m.tasks).1.routines
    rw [hroutines]
    exact htasks t ht
  | forget call => exact ⟨rfl, fun t ht => h t (List.mem_filter.mp ht).1⟩

theorem play_arises {m : Machine} (h : m.Arises) (moves : List Move) :
    (m.play moves).shared.routines = m.shared.routines ∧ (m.play moves).Arises := by
  induction moves generalizing m with
  | nil => exact ⟨rfl, h⟩
  | cons move moves ih =>
    obtain ⟨hroutines, hmove⟩ := move_arises h move
    obtain ⟨hroutines', hmoves⟩ := ih hmove
    exact ⟨hroutines'.trans hroutines, hmoves⟩

/-- **Every execution under way has a history**, in whatever order calls begin and tasks take
turns. -/
theorem exists_trace_of_play {m : Machine} (hm : m.tasks = []) (moves : List Move)
    {x : Execution} (hx : .running x ∈ (m.play moves).tasks) : x.Arises m.shared.routines := by
  have hidle : m.Arises := fun t ht => by
    rw [hm] at ht
    cases ht
  obtain ⟨hroutines, htasks⟩ := play_arises hidle moves
  exact hroutines ▸ htasks _ hx

end Machine
end Opstack
