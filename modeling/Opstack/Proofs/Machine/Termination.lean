import Opstack.Proofs.Lowering.CallSites
import Opstack.Proofs.Lowering.Forward
import Opstack.Proofs.Machine.Bounds

/-!
# Programs without loops end

Without loops an activation only gets further in its routine, so a call could only go on for ever by
calling, and the call stack is limited.  An activation with so many instructions to go weighs the
more the lower it is in the call stack, by a factor that exceeds the length of every routine for
each activation that could still come upon it (`workLeft`).  Whatever an execution does next, the
weight of its call stack gets less: a `CALL` puts on a whole routine, but takes an instruction off
the one below.

`Machine.Sole.run_ends` says that the call ends in so many turns, and `Program.call_ends` that a
recursion that no limit is enough for ends in an error.
-/

set_option autoImplicit false

namespace Opstack

/-! ## What is left to do -/

/-- A bound on the number of steps that activations can still take, if no routine has as many as
`base` instructions and at most `room` activations can be put upon them. -/
def workLeft (base : Nat) : Nat → List Frame → Nat
  | _, [] => 0
  | room, f :: fs => (f.routine.size - f.pc) * Nat.pow base room + workLeft base (room + 1) fs

/-- A bound on the number of steps that an execution can still take, if it may have so many
activations. -/
def Execution.workLeft (base depth : Nat) (x : Execution) : Nat :=
  Opstack.workLeft base (depth - x.frames.length) x.frames

section

variable {base room : Nat} {f g : Frame} {fs : List Frame} {routine : Routine}

/-- An activation that has got further weighs less. -/
theorem workLeft_lt_of_later (hbase : 0 < base) (hroutine : g.routine = f.routine)
    (hpc : f.pc < f.routine.size) (hlater : f.pc < g.pc) :
    workLeft base room (g :: fs) < workLeft base room (f :: fs) := by
  rw [workLeft, workLeft, hroutine]
  exact Nat.add_lt_add_right (Nat.mul_lt_mul_of_pos_right (Nat.sub_lt_sub_left hpc hlater)
    (Nat.pow_pos hbase)) _

/-- A whole routine weighs less than one instruction of the activation that it is put upon. -/
theorem workLeft_lt_of_call (hpc : f.pc < f.routine.size) (hsize : routine.size < base) :
    workLeft base room ({ routine } :: { f with pc := f.pc + 1 } :: fs) <
      workLeft base (room + 1) (f :: fs) := by
  have hbase : 0 < base := Nat.lt_of_le_of_lt (Nat.zero_le _) hsize
  have hcall : routine.size * Nat.pow base room < Nat.pow base (room + 1) := by
    rw [show Nat.pow base (room + 1) = Nat.pow base room * base from rfl, Nat.mul_comm]
    exact Nat.mul_lt_mul_of_pos_left hsize (Nat.pow_pos hbase)
  have htaken : (f.routine.size - f.pc) * Nat.pow base (room + 1) =
      (f.routine.size - (f.pc + 1)) * Nat.pow base (room + 1) + Nat.pow base (room + 1) := by
    rw [← Nat.succ_mul]
    congr 1
    omega
  simp only [workLeft, Nat.sub_zero, htaken]
  omega

/-- An activation that goes takes what it still had to do with it. -/
theorem workLeft_lt_of_return (hbase : 0 < base) (hpc : f.pc < f.routine.size) :
    workLeft base (room + 1) fs < workLeft base room (f :: fs) := by
  rw [workLeft]
  exact Nat.lt_add_of_pos_left (Nat.mul_pos (Nat.sub_pos_of_lt hpc) (Nat.pow_pos hbase))

end

/-- The routine neither jumps back nor starts threads nor waits for any. -/
structure Routine.Straight (r : Routine) : Prop where
  /-- Jumps lead forward. -/
  forward : r.Forward
  /-- There is no `THREAD` and no `WAIT`. -/
  threadless : ∀ i ∈ r.code.toList, i.op ≠ .thread ∧ i.op ≠ .wait

theorem Routine.lt_size_of_get? {r : Routine} {index : Nat} {i : Instr}
    (h : r.get? index = some i) : index < r.size :=
  (Array.getElem?_eq_some_iff.mp h).1

/-- The instructions of an execution in straight routines have nothing to do with threads. -/
theorem Execution.Runs.threadless {routines : List Routine} {x : Execution}
    (hx : x.Runs routines) (hroutines : ∀ r ∈ routines, r.Straight) :
    ∀ i, x.instr? = some i → i.op ≠ .thread ∧ i.op ≠ .wait := by
  intro i hi
  obtain ⟨f, fs, hframes, hget⟩ := Execution.instr?_eq_some hi
  have hf : f.routine.Straight := hroutines _ (hx f (hframes ▸ List.mem_cons_self))
  exact hf.threadless i (Array.mem_toList_iff.mpr (Array.mem_of_getElem? hget))

/-- **A step leaves less to do.** -/
theorem Execution.Next.workLeft_lt {routines : List Routine} {x y : Execution} {base depth : Nat}
    (hnext : x.Next routines y) (hx : x.Runs routines)
    (hroutines : ∀ r ∈ routines, r.Straight ∧ r.size < base)
    (hdepth : x.frames.length ≤ depth) (hdepth' : y.frames.length ≤ depth) :
    y.workLeft base depth < x.workLeft base depth := by
  obtain ⟨f, fs, i, hframes, hi, hcases⟩ := hnext.frames_eq
  obtain ⟨hf, hsize⟩ := hroutines _ (hx f (hframes ▸ List.mem_cons_self))
  have hbase : 0 < base := Nat.lt_of_le_of_lt (Nat.zero_le _) hsize
  have hpc := Routine.lt_size_of_get? hi
  rw [Execution.workLeft, Execution.workLeft, hframes]
  rw [hframes, List.length_cons] at hdepth
  rcases hcases with ⟨g, hy, hroutine, hnext⟩ | ⟨routine, hmem, -, hy⟩ | ⟨-, hy⟩
  · have hlater : f.pc < g.pc := by
      rcases hnext with ⟨-, hpc'⟩ | ⟨hjump, harg⟩
      · rw [hpc']
        exact Nat.lt_succ_self _
      · obtain ⟨target, harg', hlt⟩ := hf.forward _ i hi hjump
        cases harg.symm.trans harg'
        exact hlt
    rw [hy, List.length_cons, List.length_cons]
    exact workLeft_lt_of_later hbase hroutine hpc hlater
  · obtain ⟨-, hnew⟩ := hroutines routine hmem
    rw [hy, List.length_cons, List.length_cons] at hdepth'
    have hroom : depth - (fs.length + 1) = depth - (fs.length + 1 + 1) + 1 := by omega
    rw [hy, List.length_cons, List.length_cons, List.length_cons, hroom]
    exact workLeft_lt_of_call hpc hnew
  · have hroom : depth - fs.length = depth - (fs.length + 1) + 1 := by omega
    rw [hy, hroom, List.length_cons]
    exact workLeft_lt_of_return hbase hpc

/-! ## Turns -/

/-- A step does not end an execution without a result if the host has room for as many slots as the
settings allow. -/
theorem step_ne_crashes {s : Shared} (hslots : s.config.maxFrameSlots ≤ s.config.host.capacity)
    (x : Execution) : (step s x).2 ≠ .crashes := by
  intro h
  obtain ⟨i, hi, hturn⟩ := toTurn_of_step h (fun _ h => by cases h) (fun _ h => by cases h)
  have hfollows := step_follows s x
  rw [h] at hfollows
  obtain ⟨i', hi', hop, -⟩ := hfollows
  cases hi.symm.trans hi'
  rw [perform_store hop, Execution.storeUnder] at hturn
  split at hturn
  · rename_i hoverflows
    rw [Execution.overflows] at hoverflows
    split at hoverflows
    · obtain ⟨hle, hlt⟩ := of_decide_eq_true hoverflows
      exact absurd (Nat.lt_of_le_of_lt hle hlt) (Nat.not_lt_of_le hslots)
    · cases hoverflows
  · generalize i.slotArg.bind (fun n => x.passed.store n s.config.maxFrameSlots) = r at hturn
    cases r <;> cases hturn

namespace Task

/-- A bound on the number of turns that the task and those that it becomes can still take. -/
def turnsLeft (base depth : Nat) : Task → Nat
  | .running x => x.workLeft base depth + 4
  | .failing _ _ _ => 3
  | .joining _ _ => 2
  | .closing _ _ => 1
  | .waiting _ _ _ | .answered _ _ => 0

/-- The execution of the task is in the routines and bounded. -/
def Straight (routines : List Routine) (c : Config) : Task → Prop
  | .running x => x.Runs routines ∧ x.Bounded c
  | _ => True

variable {s : Shared} {t : Task} {number base : Nat}

/-- A step of an execution in straight routines leaves less to do, and one task. -/
theorem turnsLeft_lt_running {x : Execution} (hthread : x.thread = none)
    (hstraight : (Task.running x).Straight s.routines s.config)
    (hroutines : ∀ r ∈ s.routines, r.Straight ∧ r.size < base)
    (hslots : s.config.maxFrameSlots ≤ s.config.host.capacity) :
    ∃ t', ((Task.running x).turn s).2 = [t'] ∧ t'.Straight s.routines s.config ∧
      t'.turnsLeft base (max 1 s.config.maxCallDepth) <
        (Task.running x).turnsLeft base (max 1 s.config.maxCallDepth) := by
  obtain ⟨hruns, hbounded⟩ := hstraight
  have hnext : ∀ {s' y}, step s x = (s', .continues y) → x.Next s.routines y :=
    fun h => .continues rfl h
  have hstep := Execution.step_bounded hbounded
  obtain ⟨hspawns, hwaits⟩ :=
    not_spawns_or_waits s (hruns.threadless fun r hr => (hroutines r hr).1)
  have hcrashes := step_ne_crashes hslots x
  rw [Task.turn, hthread]
  generalize step s x = r at hnext hstep hspawns hwaits hcrashes
  obtain ⟨s', turn⟩ := r
  cases turn with
  | continues y =>
    have hnext := hnext rfl
    have hlt := hnext.workLeft_lt hruns hroutines hbounded.depth hstep.depth
    exact ⟨_, rfl, ⟨hnext.runs hruns, hstep⟩, Nat.add_lt_add_right hlt 4⟩
  | spawns y child => exact absurd rfl (hspawns y child)
  | waits y thread site => exact absurd rfl (hwaits y thread site)
  | returns v => exact ⟨_, rfl, trivial, by rw [turnsLeft, turnsLeft]; omega⟩
  | fails e => exact ⟨_, rfl, trivial, by rw [turnsLeft, turnsLeft]; omega⟩
  | crashes => exact absurd rfl hcrashes

/-- **A turn leaves less to do**, and one task. -/
theorem Sole.turnsLeft_lt (ht : t.Sole number s) (hstraight : t.Straight s.routines s.config)
    (hthreads : ∀ r ∈ s.threads.toList, r.call ≠ number)
    (hroutines : ∀ r ∈ s.routines, r.Straight ∧ r.size < base)
    (hslots : s.config.maxFrameSlots ≤ s.config.host.capacity) (hmove : t.canMove s = true) :
    ∃ t', (t.turn s).2 = [t'] ∧ t'.Straight s.routines s.config ∧
      t'.turnsLeft base (max 1 s.config.maxCallDepth) <
        t.turnsLeft base (max 1 s.config.maxCallDepth) := by
  cases t with
  | waiting => exact ht.elim
  | answered => cases hmove
  | failing thread call e =>
    obtain ⟨rfl, -, -⟩ := ht
    exact ⟨_, rfl, trivial, Nat.lt_succ_self 2⟩
  | joining call result =>
    obtain ⟨rfl, -⟩ := ht
    rw [turn_joining hthreads]
    exact ⟨_, rfl, trivial, Nat.lt_succ_self 1⟩
  | closing call result => exact ⟨_, rfl, trivial, Nat.lt_succ_self 0⟩
  | running x => exact turnsLeft_lt_running ht.1 hstraight hroutines hslots

end Task

/-! ## Runs -/

namespace Machine

variable {m m' : Machine} {number base : Nat}

/-- **A call in straight routines ends**, in no more turns than are left for its task, if the host
has room for the slots. -/
theorem Sole.run_ends (h : m.Sole number)
    (hroutines : ∀ r ∈ m.shared.routines, r.Straight ∧ r.size < base)
    (hslots : m.shared.config.maxFrameSlots ≤ m.shared.config.host.capacity) {t : Task}
    (htasks : m.tasks = [t]) (ht : t.Straight m.shared.routines m.shared.config) {n : Nat}
    (hn : t.turnsLeft base (max 1 m.shared.config.maxCallDepth) ≤ n) :
    ∃ result, (run n m).tasks = [.answered number result] := by
  induction n generalizing m t with
  | zero =>
    have hsole := h.of_tasks htasks
    cases t with
    | waiting => exact hsole.elim
    | answered call result =>
      obtain rfl : call = number := hsole
      exact ⟨result, htasks⟩
    | running | failing | joining | closing => exact absurd hn (by simp [Task.turnsLeft])
  | succ n ih =>
    have hsole := h.of_tasks htasks
    rcases hsole.canMove h.threads with hmove | ⟨call, result, rfl⟩
    · obtain ⟨t', htasks', ht', hlt⟩ := hsole.turnsLeft_lt ht h.threads hroutines hslots hmove
      have hroutines' : (m.turned t).shared.routines = m.shared.routines :=
        Task.routines_turn m.shared t
      have hconfig : (m.turned t).shared.config = m.shared.config :=
        t.config_turn m.shared
      have hop : ∀ x i, t = .running x → x.instr? = some i → i.op ≠ .thread ∧ i.op ≠ .wait := by
        rintro x i rfl hi
        exact ht.1.threadless (fun r hr => (hroutines r hr).1) i hi
      have hend := ih (m := m.turned t) (h.turned htasks hop)
      rw [hroutines', hconfig, ← run_succ_of_tasks htasks hmove] at hend
      exact hend hroutines hslots htasks' ht' (Nat.le_of_lt_succ (Nat.lt_of_lt_of_le hlt hn))
    · rw [run_of_ready?_eq_none (ready?_of_stuck htasks rfl)]
      obtain rfl : call = number := hsole
      exact ⟨result, htasks⟩

/-- A call begins with one task if the host has room for its stacks. -/
theorem exists_straight_entry (m : Machine) (name : String) (args : List Value)
    (hroom : m.shared.config.roomForStacks = true) : ∃ t,
      entry m.shared m.calls name args = [t] ∧
        t.Straight m.shared.routines m.shared.config := by
  rcases entry_cases m.shared m.calls name args with ⟨routine, hfind, -, hentry⟩ |
    ⟨-, hnone, -⟩ | ⟨-, hentry⟩
  · exact ⟨_, hentry, List.forall_mem_singleton.mpr (Shared.mem_of_find? hfind),
      Execution.bounded_begin _ _ _ _ _⟩
  · cases hnone.symm.trans hroom
  · exact ⟨_, hentry, trivial⟩

/-- However many activations one asks for, there are settings with limits no lower than those of
the machine under which the call comes to more. -/
def RecursesWithoutBound (m : Machine) (name : String) (args : List Value) : Prop :=
  ∀ k, ∃ c x, m.shared.Within c ∧ ((m.withConfig c).begin name args).Visits x ∧
    k < x.frames.length

/-- A recursion that no limit is enough for ends by hitting one. -/
theorem Idle.error_of_recurses (hm : m.Idle) {name : String} {args : List Value}
    (hthreads : (m.begin name args).Threadless) (hrecurses : m.RecursesWithoutBound name args)
    {turns : Nat} {answer : Except Failure Value}
    (hcall : m.call turns name args = (some answer, m')) :
    ∃ e, answer = .error e ∧ e.fault.isLimit = true := by
  obtain ⟨c, x, hc, ⟨n, hx⟩, hdeep⟩ := hrecurses (max 1 m.shared.config.maxCallDepth)
  rcases (hm.sole_begin name args).run_withConfig_or hthreads hc n with hhits | hsame
  · rw [call, Prod.mk.injEq] at hcall
    exact hhits turns answer hcall.1
  · -- Then the execution is one that the call comes to as it is, and not so deep.
    rw [begin_withConfig hc.roomForStacks (roomForStacks_of_call hm.tasks hcall), hsame] at hx
    have hbounded : x.Bounded m.shared.config := Visits.bounded hm.tasks ⟨n, hx⟩
    exact absurd hbounded.depth (Nat.not_le_of_lt hdeep)

end Machine

/-! ## Programs -/

/-- The host grants what the settings ask for: room for the stacks that an execution begins with,
and for as many slots as an activation may have. -/
structure Config.Granted (c : Config) : Prop where
  /-- There is room for the stacks. -/
  roomForStacks : c.roomForStacks = true
  /-- There is room for the slots. -/
  slots : c.maxFrameSlots ≤ c.host.capacity

namespace Program

variable {m m' : Machine} {p : Program}

/-- There is no loop in the functions. -/
def isLoopFree (p : Program) : Bool := p.functions.all fun f => Stmt.allLoopFree f.body

/-- The routines of a program without loops and threads are straight. -/
theorem straight_of_load (hfree : p.isLoopFree = true) (hthreads : p.obeys .threadless = true)
    (hload : m.load p = .ok m') (hm : ∀ r ∈ m.shared.routines, r.Straight) :
    ∀ r ∈ m'.shared.routines, r.Straight := by
  intro r hr
  rcases Machine.mem_of_load hload hr with ⟨f, hf, hlower⟩ | hr
  · exact
      { forward := Function.forward_of_lower hlower (List.all_eq_true.mp hfree f hf)
        threadless := fun i hi =>
          (Function.permits_of_lower hlower (List.all_eq_true.mp hthreads f hf) i hi).threadless }
  · exact hm r hr

theorem exists_size_lt (routines : List Routine) : ∃ base, ∀ r ∈ routines, r.size < base := by
  induction routines with
  | nil => exact ⟨0, List.forall_mem_nil _⟩
  | cons r rest ih =>
    obtain ⟨base, hbase⟩ := ih
    refine ⟨max base (r.size + 1), List.forall_mem_cons.mpr ⟨?_, fun r' hr' => ?_⟩⟩
    · exact Nat.le_max_right base (r.size + 1)
    · exact Nat.lt_of_lt_of_le (hbase r' hr') (Nat.le_max_left _ _)

/-- **A call in a program without loops and threads ends**, whatever is called with whatever
arguments, in whatever state and under whatever settings, on a host that grants what they ask for.
If the recursion needs more activations than any limit allows, then the call ends in an error. -/
theorem call_ends (hfree : p.isLoopFree = true) (hthreads : p.obeys .threadless = true)
    (hm : m.Idle) (hroutines : ∀ r ∈ m.shared.routines, r.Straight) (hload : m.load p = .ok m')
    (hhost : m.shared.config.Granted) (name : String) (args : List Value) :
    (∃ n, ∀ turns, n ≤ turns → ∃ answer m'', m'.call turns name args = (some answer, m'')) ∧
      (m'.RecursesWithoutBound name args → ∀ turns answer m'',
        m'.call turns name args = (some answer, m'') →
          ∃ e, answer = .error e ∧ e.fault.isLimit = true) := by
  have hstraight := straight_of_load hfree hthreads hload hroutines
  have hidle := hm.load hload
  constructor
  · obtain ⟨base, hbase⟩ := exists_size_lt m'.shared.routines
    have hgranted : m'.shared.config.Granted := by
      rw [Machine.load_eq hload]
      exact hhost
    obtain ⟨t, hentry, ht⟩ := m'.exists_straight_entry name args hgranted.roomForStacks
    have htasks : (m'.begin name args).tasks = [t] := by
      rw [Machine.begin, hidle.tasks, hentry]
      rfl
    refine ⟨t.turnsLeft base (max 1 m'.shared.config.maxCallDepth), fun turns hturns => ?_⟩
    obtain ⟨result, hresult⟩ := (hidle.sole_begin name args).run_ends
      (fun r hr => ⟨hstraight r hr, hbase r hr⟩) hgranted.slots htasks ht hturns
    refine ⟨result, (m'.call turns name args).2, Prod.ext ?_ rfl⟩
    change Machine.answerOf? m'.calls (Machine.run turns (m'.begin name args)).tasks = some result
    rw [hresult, Machine.answerOf?, if_pos rfl]
  · intro hrecurses turns answer m'' hcall
    refine hidle.error_of_recurses ?_ hrecurses hcall
    intro x i hx hi
    obtain ⟨r, hr, hmem⟩ := hx.mem_routines hidle.tasks hi
    exact (hstraight r hr).threadless i hmem

/-- A function that does nothing but call itself. -/
def dive : Program := ⟨[], [⟨"dive", [], [.ret (.call "dive" [])]⟩]⟩

/-- The routine of the function. -/
def diveRoutine : Routine := ⟨"dive", #[.call "dive", .plain .ret]⟩

/-- The execution of the function after so many calls of itself. -/
def diving (depth : Nat) : Execution :=
  ⟨none, 0, [], { routine := diveRoutine } ::
    List.replicate depth { routine := diveRoutine, pc := 1 }⟩

theorem step_diving {s : Shared} {depth : Nat} (hrun : s.isHalted = false)
    (hroutines : s.routines = [diveRoutine]) (hdepth : depth + 1 < s.config.maxCallDepth) :
    step s (diving depth) = (s, .continues (diving (depth + 1))) := by
  have hfull : ¬ s.config.maxCallDepth ≤ (diving depth).passed.frames.length := by
    simp only [diving, Execution.passed, List.length_cons, List.length_replicate]
    omega
  have hfind : routineOf? s.routines "dive" = some diveRoutine := by
    rw [hroutines]
    rfl
  rw [step_of_instr? (i := .call "dive") rfl hrun, perform_call rfl, Execution.callUnder]
  simp only [Instr.nameArg, Instr.call, bind, Except.bind, hfind, Execution.enter, if_neg hfull]
  rfl

theorem run_diving {m : Machine} (hrun : m.shared.isHalted = false)
    (hroutines : m.shared.routines = [diveRoutine]) {n depth : Nat}
    (hdepth : depth + n < m.shared.config.maxCallDepth)
    (htasks : m.tasks = [.running (diving depth)]) :
    (Machine.run n m).tasks = [.running (diving (depth + n))] := by
  induction n generalizing m depth with
  | zero => exact htasks
  | succ n ih =>
    have hturned : m.turned (.running (diving depth)) =
        ⟨m.shared, [.running (diving (depth + 1))], m.calls⟩ := by
      rw [Machine.turned, Task.turn, step_diving hrun hroutines (by omega)]
    have hdepth' : depth + 1 + n < m.shared.config.maxCallDepth := by omega
    rw [Machine.run_succ_of_tasks htasks rfl, hturned, ← Nat.add_assoc, Nat.add_right_comm]
    exact ih (m := ⟨m.shared, [.running (diving (depth + 1))], m.calls⟩) hrun hroutines hdepth' rfl

theorem call_ends_dive : ∃ m, (Machine.create {} {}).load dive = .ok m ∧
    m.RecursesWithoutBound "dive" [] ∧ ∃ n, ∀ turns, n ≤ turns →
      ∃ e m', m.call turns "dive" [] = (some (.error e), m') ∧ e.fault.isLimit = true := by
  refine ⟨(Machine.create {} {}).add diveRoutine, rfl, ?_⟩
  have hrecurses : ((Machine.create {} {}).add diveRoutine).RecursesWithoutBound "dive" [] := by
    intro k
    refine ⟨{ maxCallDepth := 10000 + k + 1 }, diving k,
      ⟨?_, Nat.le_refl _, Nat.le_refl _, rfl, rfl⟩, ⟨k, ?_⟩, ?_⟩
    · exact Nat.le_add_right 10000 (k + 1)
    · have hdepth : 0 + k < 10000 + k + 1 := by omega
      rw [run_diving rfl rfl hdepth rfl, Nat.zero_add]
      exact List.mem_singleton_self _
    · simp [diving]
  have hload : (Machine.create {} {}).load dive = .ok ((Machine.create {} {}).add diveRoutine) :=
    rfl
  have hgranted : (Machine.create {} {}).shared.config.Granted := ⟨by decide, by decide⟩
  obtain ⟨⟨n, hn⟩, hlimit⟩ := call_ends (p := dive) (by decide) (by decide)
    (Machine.idle_create {} {}) (List.forall_mem_nil _) hload hgranted "dive" []
  refine ⟨hrecurses, n, fun turns hturns => ?_⟩
  obtain ⟨answer, m', hcall⟩ := hn turns hturns
  obtain ⟨e, rfl, he⟩ := hlimit hrecurses turns answer m' hcall
  exact ⟨e, m', hcall, he⟩

end Program

end Opstack
