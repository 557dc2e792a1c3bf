import Opstack.Proofs.Machine.Correctness
import Opstack.Proofs.Machine.Placement

/-!
# Calls without threads

A call whose executions come to no `THREAD` and no `WAIT` never has more than one task under way:
its own execution, and then the call itself until it is answered.  `Task.Sole` says what is
recorded meanwhile, `Machine.Sole.next` is one turn, and `Machine.Sole.answer_of_failing` says that
the failure of the execution becomes the answer of the call.
-/

set_option autoImplicit false

namespace Opstack

/-- The failure that a result is, if it is one. -/
def failureOf? : Except Failure Value → Option Failure
  | .ok _ => none
  | .error e => some e

/-- The task is the only one of a call without threads. -/
def Task.Sole (number : Nat) (s : Shared) : Task → Prop
  | .running x => x.thread = none ∧ x.call = number ∧ s.failure = none ∧ s.isHalted = false
  | .waiting _ _ _ => False
  | .failing thread call _ => thread = none ∧ call = number ∧ s.failure = none
  | .joining call result => call = number ∧ s.failure = failureOf? result
  | .closing call result =>
    call = number ∧ ∀ e, result = .error e → s.failure = some e
  | .answered call _ => call = number

/-- An execution under way is in registered routines. -/
theorem Execution.Arises.runs {routines : List Routine} {x : Execution}
    (h : x.Arises routines) : x.Runs routines := by
  obtain ⟨x₀, past, hstarts, htrace⟩ := h
  have hstart : x₀.Runs routines := by
    cases hstarts with
    | call hfind => exact List.forall_mem_singleton.mpr (List.mem_of_find?_eq_some hfind)
    | thread hmem => exact List.forall_mem_singleton.mpr hmem
  generalize hhistory : x :: past = history at htrace
  induction htrace generalizing x past with
  | start =>
    cases hhistory
    exact hstart
  | next _ hnext ih =>
    cases hhistory
    exact Next.runs (ih _ rfl) hnext

namespace Machine

/-- The machine comes to the execution when it follows its own order. -/
def Visits (m : Machine) (x : Execution) : Prop := ∃ n, .running x ∈ (run n m).tasks

/-- The executions that the machine comes to perform no `THREAD` and no `WAIT`. -/
def Threadless (m : Machine) : Prop :=
  ∀ x i, m.Visits x → x.instr? = some i → i.op ≠ .thread ∧ i.op ≠ .wait

/-- Every instruction that a call comes to is one of a registered routine. -/
theorem Visits.mem_routines {m : Machine} {name : String} {args : List Value} {x : Execution}
    {i : Instr} (hm : m.tasks = []) (hx : (m.begin name args).Visits x)
    (hi : x.instr? = some i) : ∃ r ∈ m.shared.routines, i ∈ r.code.toList := by
  obtain ⟨n, hx⟩ := hx
  obtain ⟨moves, hrun⟩ := run_eq_play n (m.begin name args)
  rw [hrun] at hx
  have hruns := (exists_trace_of_play hm (.begin name args :: moves) hx).runs
  obtain ⟨thread, call, operands, _ | ⟨f, fs⟩⟩ := x
  · cases hi
  · exact ⟨f.routine, hruns f List.mem_cons_self,
      Array.mem_toList_iff.mpr (Array.mem_of_getElem? hi)⟩

/-- At most one task is under way, one of a call without threads. -/
structure Sole (number : Nat) (m : Machine) : Prop where
  /-- The only task. -/
  tasks : m.tasks = [] ∨ ∃ t, m.tasks = [t] ∧ t.Sole number m.shared
  /-- The call has not started any thread. -/
  threads : ∀ r ∈ m.shared.threads.toList, r.call ≠ number

variable {m : Machine} {number n : Nat}

/-! ## One turn -/

theorem Idle.sole_begin (hm : m.Idle) (name : String) (args : List Value) :
    (m.begin name args).Sole m.calls := by
  refine ⟨?_, fun r hr => Nat.ne_of_lt (hm.threads r hr)⟩
  rw [begin, hm.tasks, List.append_nil]
  rcases entry_cases m.shared m.calls name args with ⟨routine, -, -, hentry⟩ | ⟨-, -, hentry⟩ |
    ⟨-, hentry⟩ <;> rw [hentry]
  · exact .inr ⟨_, rfl, rfl, rfl, hm.failure, hm.running⟩
  · exact .inl rfl
  · exact .inr ⟨_, rfl, rfl, rfl, hm.failure⟩

end Machine

namespace Task

variable {s : Shared} {t : Task} {number : Nat}

/-- A task of a call without threads can move unless it is the answer. -/
theorem Sole.canMove (ht : t.Sole number s) (hthreads : ∀ r ∈ s.threads.toList, r.call ≠ number) :
    t.canMove s = true ∨ ∃ call result, t = .answered call result := by
  cases t with
  | running | failing | closing => exact .inl rfl
  | waiting => exact ht.elim
  | joining call result => exact .inl (Machine.hasJoined_of_ne (ht.1 ▸ hthreads))
  | answered call result => exact .inr ⟨call, result, rfl⟩

/-- A call without threads does not have to wait for any. -/
theorem turn_joining {call : Nat} (hthreads : ∀ r ∈ s.threads.toList, r.call ≠ call)
    (result : Except Failure Value) :
    (Task.joining call result).turn s = (join s call, [.closing call result]) :=
  if_pos (Machine.hasJoined_of_ne hthreads)

/-- A step of the only execution leaves at most one task. -/
theorem sole_turn_running {x : Execution} (hx : (Task.running x).Sole number s)
    (hop : ∀ i, x.instr? = some i → i.op ≠ .thread ∧ i.op ≠ .wait) :
    ((Task.running x).turn s).1.threads = s.threads ∧
      (((Task.running x).turn s).2 = [] ∨
        ∃ t', ((Task.running x).turn s).2 = [t'] ∧ t'.Sole number ((Task.running x).turn s).1) := by
  obtain ⟨hthread, hcall, hfailure, hrun⟩ := hx
  have hsteps := steps_step s x
  obtain ⟨hspawns, hwaits⟩ := not_spawns_or_waits s hop
  rw [turn, hthread, hcall]
  generalize step s x = r at hsteps hspawns hwaits
  obtain ⟨s', turn⟩ := r
  cases hsteps with
  | @continues s' y _ hbooks howner =>
    refine ⟨hbooks.threads, .inr ⟨.running y, rfl, howner.1.trans hthread, howner.2.trans hcall,
      hbooks.failure.trans hfailure, hbooks.isHalted.trans hrun⟩⟩
  | spawns => exact absurd rfl (hspawns _ _)
  | waits => exact absurd rfl (hwaits _ _ _)
  | @returns v => exact ⟨rfl, .inr ⟨.joining number (.ok v), rfl, rfl, hfailure⟩⟩
  | stops hhalted _ =>
    rw [hrun] at hhalted
    cases hhalted
  | raises _ hbooks _ _ =>
    exact ⟨hbooks.threads, .inr ⟨_, rfl, rfl, rfl, hbooks.failure.trans hfailure⟩⟩
  | crashes _ => exact ⟨rfl, .inl rfl⟩

/-- A turn of the only task leaves at most one task. -/
theorem Sole.turn (ht : t.Sole number s) (hthreads : ∀ r ∈ s.threads.toList, r.call ≠ number)
    (hop : ∀ x i, t = .running x → x.instr? = some i → i.op ≠ .thread ∧ i.op ≠ .wait) :
    (t.turn s).1.threads = s.threads ∧
      ((t.turn s).2 = [] ∨ ∃ t', (t.turn s).2 = [t'] ∧ t'.Sole number (t.turn s).1) := by
  cases t with
  | running x => exact sole_turn_running ht fun i => hop x i rfl
  | waiting => exact ht.elim
  | failing thread call e =>
    obtain ⟨rfl, rfl, hfailure⟩ := ht
    refine ⟨rfl, .inr ⟨.joining call (.error e), rfl, rfl, ?_⟩⟩
    change some (s.failure.getD e) = some e
    rw [hfailure, Option.getD_none]
  | joining call result =>
    obtain ⟨rfl, hfailure⟩ := ht
    rw [turn_joining hthreads]
    obtain ⟨console, failure, isHalted, hjoin⟩ := exists_join s call
    refine ⟨by rw [hjoin], .inr ⟨_, rfl, rfl, ?_⟩⟩
    rintro e rfl
    exact failure_join_of_some hfailure call
  | closing call result => exact ⟨rfl, .inr ⟨_, rfl, ht.1⟩⟩
  | answered call result => exact ⟨rfl, .inr ⟨_, rfl, ht⟩⟩

end Task

namespace Machine

variable {m : Machine} {number n : Nat}

/-- The machine after the turn of its only task. -/
def turned (m : Machine) (t : Task) : Machine := ⟨(t.turn m.shared).1, (t.turn m.shared).2, m.calls⟩

theorem run_succ_of_tasks {t : Task} (htasks : m.tasks = [t]) (hmove : t.canMove m.shared = true)
    (n : Nat) : run (n + 1) m = run n (m.turned t) := by
  obtain ⟨s, tasks, calls⟩ := m
  subst htasks
  exact run_one hmove n

theorem ready?_of_nil (htasks : m.tasks = []) : m.ready? = none := by
  rw [ready?, htasks]
  rfl

theorem ready?_of_stuck {t : Task} (htasks : m.tasks = [t]) (hmove : t.canMove m.shared = false) :
    m.ready? = none := by
  rw [ready?, htasks, List.findIdx?_cons, hmove]
  rfl

/-- What holds of all executions that the machine comes to holds of those that it comes to after
the turn of its only task. -/
theorem Visits.of_turned {t : Task} {x : Execution} (htasks : m.tasks = [t])
    (hmove : t.canMove m.shared = true) (h : (m.turned t).Visits x) : m.Visits x := by
  obtain ⟨n, hx⟩ := h
  exact ⟨n + 1, by rwa [run_succ_of_tasks htasks hmove]⟩

theorem visits_of_tasks {x : Execution} (htasks : m.tasks = [.running x]) : m.Visits x :=
  ⟨0, htasks ▸ List.mem_singleton_self _⟩

/-- While its only task can move a call has no answer, so whatever holds of its answers later holds
of them now. -/
theorem forall_answer_of_turned {t : Task} {P : Except Failure Value → Prop}
    (htasks : m.tasks = [t]) (hmove : t.canMove m.shared = true)
    (hlater : ∀ k answer, answerOf? number (run k (m.turned t)).tasks = some answer → P answer) :
    ∀ k answer, answerOf? number (run k m).tasks = some answer → P answer := by
  rintro (_ | k) answer hanswer
  · change answerOf? number m.tasks = some answer at hanswer
    rw [htasks] at hanswer
    cases t with
    | answered => cases hmove
    | _ => cases hanswer
  · exact hlater k answer (by rwa [run_succ_of_tasks htasks hmove] at hanswer)

theorem Sole.of_tasks {t : Task} (h : m.Sole number) (htasks : m.tasks = [t]) :
    t.Sole number m.shared := by
  rcases h.tasks with hnil | ⟨t', htasks', ht'⟩
  · rw [htasks] at hnil
    cases hnil
  · rw [htasks] at htasks'
    cases htasks'
    exact ht'

theorem Sole.owner_of_mem {x : Execution} (h : m.Sole number) (hx : .running x ∈ m.tasks) :
    x.thread = none ∧ x.call = number := by
  rcases h.tasks with hnil | ⟨t, htasks, ht⟩
  · rw [hnil] at hx
    cases hx
  · rw [htasks, List.mem_singleton] at hx
    subst hx
    exact ⟨ht.1, ht.2.1⟩

/-- The next turn is that of the only task, unless that is the answer. -/
theorem Sole.cases (h : m.Sole number) :
    m.ready? = none ∨ ∃ t, m.tasks = [t] ∧ t.canMove m.shared = true := by
  rcases h.tasks with hnil | ⟨t, htasks, ht⟩
  · exact .inl (ready?_of_nil hnil)
  · rcases ht.canMove h.threads with hmove | ⟨call, result, rfl⟩
    · exact .inr ⟨t, htasks, hmove⟩
    · exact .inl (ready?_of_stuck htasks rfl)

theorem Sole.turned {t : Task} (h : m.Sole number) (htasks : m.tasks = [t])
    (hop : ∀ x i, t = .running x → x.instr? = some i → i.op ≠ .thread ∧ i.op ≠ .wait) :
    (m.turned t).Sole number := by
  obtain ⟨hthreads, hnext⟩ := (h.of_tasks htasks).turn h.threads hop
  exact ⟨hnext, fun r hr => h.threads r (hthreads ▸ hr)⟩

theorem Threadless.of_tasks {t : Task} (h : m.Threadless) (htasks : m.tasks = [t]) :
    ∀ x i, t = .running x → x.instr? = some i → i.op ≠ .thread ∧ i.op ≠ .wait := by
  rintro x i rfl
  exact h x i (visits_of_tasks htasks)

theorem Threadless.turned {t : Task} (h : m.Threadless) (htasks : m.tasks = [t])
    (hmove : t.canMove m.shared = true) : (m.turned t).Threadless :=
  fun x i hx => h x i (hx.of_turned htasks hmove)

/-- At most one task is under way, however long the call runs. -/
theorem Sole.after_run (h : m.Sole number) (hthreads : m.Threadless) (n : Nat) :
    (run n m).Sole number := by
  induction n generalizing m with
  | zero => exact h
  | succ n ih =>
    rcases h.cases with hready | ⟨t, htasks, hmove⟩
    · rw [run_of_ready?_eq_none hready]
      exact h
    · rw [run_succ_of_tasks htasks hmove]
      exact ih (h.turned htasks (hthreads.of_tasks htasks)) (hthreads.turned htasks hmove)

/-- A call that is answered has nothing else under way. -/
theorem Sole.tasks_of_answer {answer : Except Failure Value} (h : m.Sole number)
    (hanswer : answerOf? number m.tasks = some answer) : m.tasks = [.answered number answer] := by
  rcases h.tasks with hnil | ⟨t, htasks, ht⟩
  · rw [hnil] at hanswer
    cases hanswer
  · rw [htasks] at hanswer ⊢
    cases t with
    | answered call result =>
      obtain rfl : call = number := ht
      rw [answerOf?, if_pos rfl] at hanswer
      rw [Option.some.inj hanswer]
    | _ => cases hanswer

end Machine

/-! ## Failures -/

namespace Task

/-- The task is on the way to a failure as the answer of its call. -/
def Owes (e : Failure) : Task → Prop
  | .failing _ _ e' => e' = e
  | .joining _ result | .closing _ result | .answered _ result => result = .error e
  | .running _ | .waiting _ _ _ => False

variable {s : Shared} {t : Task} {number : Nat} {e : Failure}

theorem Owes.ne_running (h : t.Owes e) (x : Execution) : t ≠ .running x := by
  rintro rfl
  exact h

theorem Owes.turn (h : t.Owes e) (ht : t.Sole number s)
    (hthreads : ∀ r ∈ s.threads.toList, r.call ≠ number) :
    ∃ t', (t.turn s).2 = [t'] ∧ t'.Owes e := by
  cases t with
  | running | waiting => exact h.elim
  | failing thread call e' =>
    obtain ⟨rfl, -, -⟩ := ht
    exact ⟨_, rfl, congrArg Except.error h⟩
  | joining call result =>
    obtain ⟨rfl, -⟩ := ht
    exact ⟨.closing call result, by rw [turn_joining hthreads], h⟩
  | closing call result =>
    refine ⟨_, rfl, ?_⟩
    change answer s.failure result = .error e
    rw [ht.2 e h]
    rfl
  | answered call result => exact ⟨_, rfl, h⟩

end Task

namespace Machine

/-- **A failure of its own execution is the answer of a call without threads.** -/
theorem Sole.answer_of_owes {m : Machine} {number n : Nat} {t : Task} {e : Failure}
    {answer : Except Failure Value} (h : m.Sole number) (htasks : m.tasks = [t]) (ht : t.Owes e)
    (hanswer : answerOf? number (run n m).tasks = some answer) : answer = .error e := by
  have hanswered : ∀ {m : Machine} {t : Task}, m.tasks = [t] → t.Owes e →
      answerOf? number m.tasks = some answer → answer = .error e := by
    intro m t htasks ht hanswer
    rw [htasks] at hanswer
    cases t with
    | answered call result =>
      rw [answerOf?] at hanswer
      split at hanswer
      · exact (Option.some.inj hanswer).symm.trans ht
      · cases hanswer
    | _ => cases hanswer
  induction n generalizing m t with
  | zero => exact hanswered htasks ht hanswer
  | succ n ih =>
    rcases (h.of_tasks htasks).canMove h.threads with hmove | ⟨call, result, rfl⟩
    · rw [run_succ_of_tasks htasks hmove] at hanswer
      obtain ⟨t', htasks', ht'⟩ := ht.turn (h.of_tasks htasks) h.threads
      exact ih (h.turned htasks fun x i hx => absurd hx (ht.ne_running x)) htasks' ht' hanswer
    · rw [run_of_ready?_eq_none (ready?_of_stuck htasks rfl)] at hanswer
      exact hanswered htasks ht hanswer

end Machine
end Opstack
