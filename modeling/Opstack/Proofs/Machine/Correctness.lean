import Opstack.Proofs.Machine.Balance
import Opstack.Proofs.Machine.Calls
import Opstack.Proofs.Machine.Rest

/-!
# Calls from outside

`Program.call_iff_evaluate` ties both ends together.  A call of a function of a loaded program has
an answer after some turns exactly if the evaluation of the function has an outcome for some fuel,
and then both are the same: the result or the fault, the objects, the output, and what is left of
the input.

Between the two stands a machine with a single task.  `Machine.Goes` follows it from turn to turn:
through the steps of the execution, and then through the end of the call, where the output is
flushed.
-/

set_option autoImplicit false

namespace Opstack

/-! ## Machines between calls -/

namespace Machine

/-- What a call can change about the machine. -/
def world (m : Machine) : World := ⟨m.shared.heap, m.shared.console⟩

/-- Nothing is under way, no failure is left over, and all threads belong to earlier calls. -/
structure Idle (m : Machine) : Prop where
  /-- Nothing is under way. -/
  tasks : m.tasks = []
  /-- No failure is recorded. -/
  failure : m.shared.failure = none
  /-- The machine has not been halted. -/
  running : m.shared.isHalted = false
  /-- The threads were started in earlier calls. -/
  threads : ∀ t ∈ m.shared.threads.toList, t.call < m.calls

/-- The machine after one more call, which has left such a world. -/
def after (m : Machine) (w : World) : Machine :=
  { m with shared := m.shared.withWorld w, calls := m.calls + 1 }

theorem idle_create (config : Config) (console : Console) : (create config console).Idle :=
  ⟨rfl, rfl, rfl, List.forall_mem_nil _⟩

variable {m m' : Machine}

theorem Idle.load {p : Program} (hm : m.Idle) (h : m.load p = .ok m') : m'.Idle := by
  rw [load_eq h]
  exact ⟨hm.tasks, hm.failure, hm.running, hm.threads⟩

/-- A machine is idle between the calls that it is used for. -/
theorem Used.idle (hm : m.Used) : m.Idle := by
  obtain ⟨htasks, hfailure, hrunning, hsettled⟩ := hm.atRest
  exact ⟨htasks, hfailure, hrunning, hsettled.room.forall_mem hsettled.call_lt⟩

/-! ## One task -/

/-- The machine becomes another one in so many turns, before which a call has no answer. -/
structure Goes (number n : Nat) (m m' : Machine) : Prop where
  /-- What comes later comes later from there. -/
  run : ∀ t, run (n + t) m = run t m'
  /-- There is no answer before. -/
  silent : ∀ t, t < n → answerOf? number (Machine.run t m).tasks = none

section

variable {number j n calls : Nat} {m'' : Machine} {s s' : Shared} {t : Task}

theorem Goes.refl (number : Nat) (m : Machine) : Goes number 0 m m :=
  ⟨fun t => by rw [Nat.zero_add], fun _ ht => absurd ht (Nat.not_lt_zero _)⟩

theorem Goes.trans (h : Goes number j m m') (h' : Goes number n m' m'') :
    Goes number (j + n) m m'' where
  run t := by rw [Nat.add_assoc, h.run, h'.run]
  silent t ht := by
    by_cases hj : t < j
    · exact h.silent t hj
    · obtain ⟨i, rfl⟩ := Nat.exists_eq_add_of_le (Nat.le_of_not_lt hj)
      rw [h.run]
      exact h'.silent i (Nat.lt_of_add_lt_add_left ht)

theorem run_one (hmove : t.canMove s = true) (n : Nat) :
    run (n + 1) ⟨s, [t], calls⟩ = run n ⟨(t.turn s).1, (t.turn s).2, calls⟩ := by
  have hready : ready? ⟨s, [t], calls⟩ = some 0 := by
    rw [ready?, List.findIdx?_cons, hmove]
    rfl
  rw [run, hready]
  simp only [advance, Task.turnAt, List.append_nil]

/-- A single task takes its turn. -/
theorem goes_turn {tasks : List Task} (hmove : t.canMove s = true)
    (hanswer : answerOf? number [t] = none) (hturn : t.turn s = (s', tasks)) :
    Goes number 1 ⟨s, [t], calls⟩ ⟨s', tasks, calls⟩ where
  run n := by rw [Nat.add_comm, run_one hmove, hturn]
  silent n hn := by
    rw [Nat.lt_one_iff.mp hn]
    exact hanswer

/-- A machine in which nothing can move stays as it is. -/
theorem run_of_ready?_eq_none (h : m.ready? = none) (n : Nat) : run n m = m := by
  cases n with
  | zero => rfl
  | succ n => rw [run, h]

/-- A call has no answer if the host has no room for its stacks. -/
theorem call_of_no_room (hm : m.tasks = []) {name : String} {r : Routine}
    (hfind : m.shared.find? name = some r) (hroom : m.shared.config.roomForStacks = false)
    (turns : Nat) (args : List Value) :
    m.call turns name args = (none, { m with calls := m.calls + 1 }) := by
  have hbegin : m.begin name args = { m with calls := m.calls + 1 } := by
    rw [begin, entry, hfind, hroom]
    rfl
  have hready : (m.begin name args).ready? = none := by
    rw [hbegin, ready?, hm]
    rfl
  rw [call, run_of_ready?_eq_none hready, hbegin, hm]
  rfl

/-- A call with an answer had room for its stacks, unless it had no routine. -/
theorem roomForStacks_of_call (hm : m.tasks = []) {turns : Nat} {name : String}
    {args : List Value} {answer : Except Failure Value}
    (hcall : m.call turns name args = (some answer, m')) :
    m.shared.config.roomForStacks = true ∨ m.shared.find? name = none := by
  cases hfind : m.shared.find? name with
  | none => exact .inr rfl
  | some r =>
    cases hroom : m.shared.config.roomForStacks with
    | true => exact .inl rfl
    | false => cases (call_of_no_room hm hfind hroom turns args).symm.trans hcall

/-- The turns of a run can be taken in two parts. -/
theorem run_add (m : Machine) (a b : Nat) : run (a + b) m = run b (run a m) := by
  induction a generalizing m with
  | zero =>
    rw [Nat.zero_add]
    rfl
  | succ a ih =>
    rw [Nat.add_right_comm, run, run]
    cases h : m.ready? with
    | none => exact (run_of_ready?_eq_none h b).symm
    | some position => exact ih (m.advance position)

/-! ### Executions -/

/-- The machine whose only task is the execution at a point. -/
def alone (p : Point) (calls : Nat) : Machine := ⟨p.shared, [.running p.execution], calls⟩

variable {k : Nat} {p q : Point}

theorem goes_of_leads (h : p.Leads n q) (number calls : Nat) :
    Goes number n (alone p calls) (alone q calls) := by
  induction h with
  | refl p => exact .refl _ _
  | @step n s s' x y q hstep _ ih =>
    have hturn : (Task.running x).turn s = (s', [.running y]) := by simp only [Task.turn, hstep]
    rw [Nat.add_comm]
    exact (goes_turn rfl rfl hturn).trans ih

/-- Steps leave an execution with its thread and its call. -/
theorem owner_eq_of_leads (h : p.Leads n q) :
    q.execution.thread = p.execution.thread ∧ q.execution.call = p.execution.call := by
  induction h with
  | refl p => exact ⟨rfl, rfl⟩
  | @step n s s' x y q hstep _ ih =>
    have hfollows := step_follows s x
    rw [hstep] at hfollows
    obtain ⟨i, -, hdoes⟩ := hfollows
    obtain ⟨hthread, hcall⟩ := hdoes.owner_eq
    obtain ⟨hthread', hcall'⟩ : x.passed.thread = x.thread ∧ x.passed.call = x.call := by
      obtain ⟨thread, call, operands, frames⟩ := x
      cases frames <;> exact ⟨rfl, rfl⟩
    exact ⟨ih.1.trans (hthread.trans hthread'), ih.2.trans (hcall.trans hcall')⟩

/-- While an execution lasts its call has no answer. -/
theorem answerOf?_of_lasts (h : p.Lasts k) (number calls : Nat) {t : Nat} (ht : t ≤ k) :
    answerOf? number (run t (alone p calls)).tasks = none := by
  cases h with
  | leads h =>
    obtain ⟨q, hq⟩ := h.take ht
    have hrun := (goes_of_leads hq number calls).run 0
    rw [Nat.add_zero] at hrun
    rw [hrun]
    rfl
  | @crashes n q s h hcrash =>
    have hturn : ∃ s', (Task.running q.execution).turn q.shared = (s', []) := by
      simp only [Task.turn, hcrash, Task.crash]
      split <;> exact ⟨_, rfl⟩
    obtain ⟨s', hturn⟩ := hturn
    have hgoes := (goes_of_leads h number calls).trans (goes_turn rfl rfl hturn)
    by_cases hlt : t < n + 1
    · exact hgoes.silent t hlt
    · obtain ⟨i, rfl⟩ := Nat.exists_eq_add_of_le (Nat.le_of_not_lt hlt)
      rw [hgoes.run, run_of_ready?_eq_none rfl]
      rfl

/-! ### The end of a call -/

/-- The shared state once the own execution of a call has ended. -/
def ended (s : Shared) : Except Failure Value → Shared
  | .ok _ => s
  | .error e => s.fail e

variable {base : Shared} {w : World}

theorem hasJoined_of_ne (h : ∀ t ∈ s.threads.toList, t.call ≠ number) :
    s.hasJoined number = true := by
  refine List.all_eq_true.mpr fun t ht => ?_
  rw [bne_iff_ne.mpr (h t ht)]
  rfl

theorem threads_ended (s : Shared) (r : Except Failure Value) :
    (ended s r).threads = s.threads := by
  cases r <;> rfl

/-- The failure that a call without threads takes in the end is its own or that of the flush. -/
theorem takeFailure_join (hfailure : base.failure = none) (hrunning : base.isHalted = false)
    (hthreads : ∀ t ∈ base.threads.toList, t.call ≠ number) (w : World)
    (r : Except Failure Value) :
    let s := Task.join (ended (base.withWorld w) r) number
    s.takeFailure.2 = base.withWorld (w.flushed (r.mapError Failure.fault)).2 ∧
      (Task.answer s.takeFailure.1 r).mapError Failure.fault =
        (w.flushed (r.mapError Failure.fault)).1 := by
  have hcrashed : (ended (base.withWorld w) r).crashed number = [] :=
    Shared.crashed_eq_nil (by
      rw [threads_ended]
      exact fun t ht hcall => absurd hcall (hthreads t ht))
  obtain ⟨routines, config, heap, console, threads, failure, isHalted⟩ := base
  subst hfailure hrunning
  simp only [Task.join, hcrashed, List.foldl_nil, World.flushed]
  cases r with
  | ok v =>
    simp only [ended, Shared.withWorld]
    rcases w.console.flush with ⟨⟨⟩ | ⟨⟩, console⟩ <;> exact ⟨rfl, rfl⟩
  | error e =>
    simp only [ended, Shared.withWorld, Shared.fail]
    rcases w.console.flush with ⟨⟨⟩ | ⟨⟩, console⟩ <;> exact ⟨rfl, rfl⟩

/-- A call without threads flushes the output and gives its answer. -/
theorem goes_answered (hfailure : base.failure = none) (hrunning : base.isHalted = false)
    (hthreads : ∀ t ∈ base.threads.toList, t.call ≠ number) (w : World)
    (r : Except Failure Value) (calls : Nat) : ∃ answer,
      answer.mapError Failure.fault = (w.flushed (r.mapError Failure.fault)).1 ∧
      Goes number 2 ⟨ended (base.withWorld w) r, [.joining number r], calls⟩
        ⟨base.withWorld (w.flushed (r.mapError Failure.fault)).2, [.answered number answer],
          calls⟩ := by
  obtain ⟨hshared, hanswer⟩ := takeFailure_join hfailure hrunning hthreads w r
  have hjoined : (ended (base.withWorld w) r).hasJoined number = true :=
    hasJoined_of_ne (by rw [threads_ended]; exact hthreads)
  have hjoins : Goes number 1 ⟨ended (base.withWorld w) r, [.joining number r], calls⟩
      ⟨Task.join (ended (base.withWorld w) r) number, [.closing number r], calls⟩ :=
    goes_turn hjoined rfl (if_pos hjoined)
  refine ⟨_, hanswer, ?_⟩
  rw [← hshared]
  exact hjoins.trans (goes_turn rfl rfl rfl)

/-! ### Calls -/

/-- The call does what a computation does: it gives the answer of its outcome, or none within so
many turns. -/
def Meets (m : Machine) (fuel : Nat) (name : String) (args : List Value) (x : Eval Value) : Prop :=
  match x.outcome? m.world with
  | none => ∀ turns, turns ≤ fuel → (m.call turns name args).1 = none
  | some (r, w) => ∃ n answer, answer.mapError Failure.fault = r ∧
      (∀ turns, turns < n → (m.call turns name args).1 = none) ∧
      ∀ turns, n ≤ turns → m.call turns name args = (some answer, m.after w)

/-- The call of an idle machine gives the answer of its result once its own execution has ended. -/
theorem call_of_goes (hm : m.Idle) {name : String} {args : List Value} {w : World}
    {r : Except Failure Value} (h : Goes m.calls n (m.begin name args)
      ⟨ended (m.shared.withWorld w) r, [.joining m.calls r], m.calls + 1⟩) :
    ∃ n answer, answer.mapError Failure.fault = (w.flushed (r.mapError Failure.fault)).1 ∧
      (∀ turns, turns < n → (m.call turns name args).1 = none) ∧
      ∀ turns, n ≤ turns → m.call turns name args =
        (some answer, m.after (w.flushed (r.mapError Failure.fault)).2) := by
  obtain ⟨answer, hanswer, hends⟩ := goes_answered hm.failure hm.running
    (fun t ht => Nat.ne_of_lt (hm.threads t ht)) w r (m.calls + 1)
  have hgoes := h.trans hends
  refine ⟨_, answer, hanswer, hgoes.silent, fun turns hturns => ?_⟩
  obtain ⟨t, rfl⟩ := Nat.exists_eq_add_of_le hturns
  rw [call, hgoes.run, run_of_ready?_eq_none rfl, after, hm.tasks]
  simp [answerOf?, dropAnswer]

end

end Machine

namespace Program

variable {p : Program} {m m' : Machine} {f : Function} {args : List Value}

/-- **A call of a function does what the function means**, in an idle machine that knows the
program. -/
theorem LoadedIn.meets (hl : p.LoadedIn m.shared.routines) (hp : p.obeys p.plainRules = true)
    (hm : m.Idle) (hf : f ∈ p.functions) (hargs : args.length = f.params.length) (fuel : Nat) :
    m.Meets fuel f.name args (p.evaluate m.shared.config fuel f args) := by
  obtain ⟨r, hlower, hr⟩ := hl f hf
  rw [evaluate]
  split
  case isFalse hroom =>
    intro turns _
    rw [Machine.call_of_no_room hm.tasks hr (Bool.eq_false_iff.mpr hroom)]
  rename_i hroom
  let c : Scene := ⟨m.shared, none, m.calls, [], r, [], hm.running⟩
  let env : Env := ⟨p, m.shared.config, fuel, p.invoke m.shared.config fuel 1⟩
  have hplays : c.Plays p f := ⟨List.all_eq_true.mp hp f hf, hlower⟩
  have hserves : c.Serves env := Scene.serves hp hl fuel
  have hmeets := hplays.meets_apply hserves hargs m.world
  have hbegin : m.begin f.name args =
      Machine.alone (c.point m.world 0 #[] (args ++ [])) (m.calls + 1) := by
    have hfind : m.shared.find? f.name = some r := hr
    rw [Machine.begin, hm.tasks, Machine.entry, hfind, List.append_nil, List.append_nil]
    dsimp only
    rw [if_pos hroom]
    rfl
  have hevaluate : (env.apply f args).flushed.outcome? m.world =
      ((env.apply f args).outcome? m.world).map fun o => o.2.flushed o.1 := rfl
  rw [Machine.Meets, hevaluate]
  rw [Point.Meets] at hmeets
  split at hmeets
  · rename_i hnone
    rw [hnone]
    intro turns hturns
    rw [Machine.call, hbegin]
    exact Machine.answerOf?_of_lasts hmeets _ _ hturns
  · rename_i v w hok
    obtain ⟨n, q, hq, rfl⟩ := hmeets
    rw [hok]
    have hgoes := (hbegin ▸ Machine.goes_of_leads hq m.calls _).trans
      (Machine.goes_turn rfl rfl rfl)
    exact Machine.call_of_goes hm (r := .ok v) hgoes
  · rename_i e w herror
    obtain ⟨n, q, failure, hq, hstep, rfl⟩ := hmeets
    obtain ⟨hthread, hcall⟩ := Machine.owner_eq_of_leads hq
    have hfails : (Task.running q.execution).turn q.shared =
        (m.shared.withWorld w, [.failing none m.calls failure]) := by
      simp only [Task.turn, hstep, hthread, hcall]
      rfl
    rw [herror]
    have hgoes := ((hbegin ▸ Machine.goes_of_leads hq m.calls _).trans
      (Machine.goes_turn rfl rfl hfails)).trans (Machine.goes_turn rfl rfl rfl)
    exact Machine.call_of_goes hm (r := .error failure) hgoes

/-- **Compiled programs do what their trees mean.**  In an idle machine that a program without
threads has been loaded into, a call of a function ends exactly if its evaluation does, with the
same result or fault, the same objects, the same output and the same rest of the input. -/
theorem call_iff_evaluate (hp : p.Distinct) (hplain : p.obeys p.plainRules = true) (hm : m.Idle)
    (hload : m.load p = .ok m') (hf : f ∈ p.functions) (hargs : args.length = f.params.length)
    (r : Except Fault Value) (w : World) :
    (∃ fuel, (p.evaluate m.shared.config fuel f args).outcome? m.world = some (r, w)) ↔
      ∃ turns answer m'', m'.call turns f.name args = (some answer, m'') ∧
        answer.mapError Failure.fault = r ∧ m''.world = w := by
  have hmeets := (Machine.loadedIn_of_load hload hp).meets hplain (hm.load hload) hf hargs
  have hconfig : m'.shared.config = m.shared.config := by rw [Machine.load_eq hload]
  have hworld : m'.world = m.world := by rw [Machine.load_eq hload]; rfl
  rw [hconfig] at hmeets
  simp only [Machine.Meets, hworld] at hmeets
  constructor
  · rintro ⟨fuel, ho⟩
    have hcall := hmeets fuel
    rw [ho] at hcall
    obtain ⟨n, answer, hanswer, -, hends⟩ := hcall
    exact ⟨n, answer, _, hends n (Nat.le_refl n), hanswer, rfl⟩
  · rintro ⟨turns, answer, m'', hcall, rfl, rfl⟩
    have hfuel := hmeets turns
    cases ho : (p.evaluate m.shared.config turns f args).outcome? m.world with
    | none =>
      rw [ho] at hfuel
      have hnone := hfuel turns (Nat.le_refl turns)
      rw [hcall] at hnone
      cases hnone
    | some o =>
      obtain ⟨r, w⟩ := o
      rw [ho] at hfuel
      obtain ⟨n, answer', rfl, hbefore, hends⟩ := hfuel
      by_cases hn : n ≤ turns
      · have hsame := hends turns hn
        rw [hcall, Prod.mk.injEq, Option.some.injEq] at hsame
        obtain ⟨rfl, rfl⟩ := hsame
        exact ⟨turns, ho⟩
      · have hnone := hbefore turns (Nat.lt_of_not_le hn)
        rw [hcall] at hnone
        cases hnone

theorem call_iff_evaluate_countdown : ∃ m, (Machine.create {} {}).load countdown = .ok m ∧
    ∃ turns answer m', m.call turns "count" [.int 2] = (some answer, m') ∧
      answer.mapError Failure.fault = .ok (.int (-1)) ∧
      m'.world = ⟨m.shared.heap, { output := "2\n1\n0\n", flushes := 1 }⟩ := by
  refine ⟨_, rfl, ?_⟩
  have hargs : [Value.int 2].length = ["n"].length := rfl
  exact (call_iff_evaluate wellCalled_countdown.toDistinct (by decide) (Machine.idle_create {} {})
    rfl List.mem_cons_self hargs _ _).mp ⟨5, rfl⟩

end Program
end Opstack
