import Mathlib.Data.List.Forall2
import Opstack.Proofs.Machine.Sole
import Opstack.Proofs.Machine.Stacked

/-!
# Operands beneath the arguments

All activations of an execution share one operand stack, and nothing keeps an instruction from
taking operands that were there before its routine was entered.  What lies beneath the arguments of
a call is invisible all the same, as long as the call does not run out of operands: an instruction
that finds its operands does not see what lies below, and one that does not find them fails for
that, or because it is malformed in any case (`perform_of_lacking`).

* `step_onto_or_underflow`: an execution takes the same step with more operands beneath its own,
  unless it runs out of them.
* `Machine.Sole.run_above`: so does a call without threads, turn by turn (`Machine.Above`).  Only
  when its execution ends without any operand is there a difference, that of its result.
* `Machine.call_above`: the call has the same answer and leaves the same machine.
-/

set_option autoImplicit false

namespace Opstack

/-! ## Instructions that lack operands -/

section

variable {s : Shared} {x base : Execution} {i : Instr}

/-- What a `STORE` or a `JMPF` needs to carry is missing. -/
def Instr.IsMalformed (i : Instr) : Prop :=
  i.op = .store ∧ i.slotArg = .error .malformedInstruction ∨
    i.op = .jmpf ∧ i.targetArg = .error .malformedInstruction

theorem perform_of_isMalformed (h : i.IsMalformed) (s : Shared) (x : Execution) :
    perform s x i = (s, .fault .malformedInstruction) := by
  rcases h with ⟨hop, harg⟩ | ⟨hop, harg⟩
  · have hoverflows :
        x.overflows i s.config.maxFrameSlots s.config.host.capacity = false := by
      rw [Execution.overflows]
      split
      · rename_i n _ _ _ _ hslot _ _
        rw [Instr.slotArg, hslot] at harg
        cases harg
      · rfl
    simp only [perform, hop, hoverflows, harg]
    rfl
  · simp only [perform, hop, harg]
    rfl

/-- **An instruction that lacks operands fails for that**, or because it is malformed, and then it
fails with any operands. -/
theorem perform_of_lacking (hop : i.op ≠ .thread) (hlacks : x.operands.length < i.op.pops) :
    (perform s x i).2 = .fault .stackUnderflow ∨ i.IsMalformed := by
  obtain ⟨thread, call, operands, frames⟩ := x
  obtain ⟨op, arg, comment⟩ := i
  cases op with
  | push | load | jmp | call | ret | read | allocs | nop => exact absurd hlacks (Nat.not_lt_zero _)
  | thread => exact absurd rfl hop
  | pop | unary | write | len | getf | alloca | wait | dup =>
    obtain rfl := List.eq_nil_of_length_eq_zero (Nat.lt_one_iff.mp hlacks)
    exact .inl rfl
  | binary | setf | geti =>
    rcases operands with _ | ⟨v, _ | ⟨w, rest⟩⟩
    · exact .inl rfl
    · exact .inl rfl
    · exact absurd hlacks (Nat.not_lt_of_le (Nat.le_add_left 2 rest.length))
  | seti =>
    rcases operands with _ | ⟨v, _ | ⟨w, _ | ⟨u, rest⟩⟩⟩
    · exact .inl rfl
    · exact .inl rfl
    · exact .inl rfl
    · exact absurd hlacks (Nat.not_lt_of_le (Nat.le_add_left 3 rest.length))
  | store =>
    obtain rfl := List.eq_nil_of_length_eq_zero (Nat.lt_one_iff.mp hlacks)
    rcases arg with _ | ⟨_ | slot | _ | _ | _⟩
    case some.slot => exact .inl rfl
    all_goals exact .inr (.inl ⟨rfl, rfl⟩)
  | jmpf =>
    obtain rfl := List.eq_nil_of_length_eq_zero (Nat.lt_one_iff.mp hlacks)
    rcases arg with _ | ⟨_ | _ | target | _ | _⟩
    case some.target => exact .inl rfl
    all_goals exact .inr (.inr ⟨rfl, rfl⟩)

/-- The step fails because an operand is missing. -/
def Turn.Underflows : Turn → Prop
  | .fails e => e.fault = .stackUnderflow
  | _ => False

/-- **An execution takes the same step with more operands beneath its own**, unless it lacks
some. -/
theorem step_onto_or_underflow (hi : x.instr? = some i) (hop : i.op ≠ .thread)
    (hcall : base.call = x.call) (hbase : base.frames = []) :
    (step s x).2.Underflows ∨ step s (x.onto base) = ((step s x).1, (step s x).2.onto base) := by
  by_cases hpops : i.op.pops ≤ x.operands.length
  · exact .inr (step_onto_operands hi hpops hcall hbase)
  have hlacks : x.passed.operands.length < i.op.pops :=
    x.operands_passed.symm ▸ Nat.lt_of_not_le hpops
  obtain ⟨hinstr, -, hsite, -⟩ := Execution.passed_onto hi base
  cases hhalted : s.isHalted with
  | true =>
    rw [step_of_isHalted hinstr hhalted, step_of_isHalted hi hhalted, hsite]
    exact .inr rfl
  | false =>
    rw [step_of_instr? hinstr hhalted, step_of_instr? hi hhalted, hsite]
    rcases perform_of_lacking (s := s) hop hlacks with hunderflow | hmalformed
    · rw [hunderflow]
      exact .inl rfl
    · rw [perform_of_isMalformed hmalformed, perform_of_isMalformed hmalformed]
      exact .inr rfl

/-- A step names its own execution in a failure. -/
theorem withThread_of_fails {s' : Shared} {e : Failure} (h : step s x = (s', .fails e)) :
    e.withThread x.thread = e := by
  obtain ⟨f, fs, i, -, -, he, -⟩ := Execution.step_fails h
  rw [he]
  rfl

end

/-! ## Turns -/

/-- The results are the same, or else both are values, and the first one is not to be relied on. -/
def AgreesIf (full : Prop) (r r' : Except Failure Value) : Prop :=
  r = r' ∨ ¬ full ∧ (∃ v, r = .ok v) ∧ ∃ v, r' = .ok v

/-- What lies beneath the operands of a call. -/
def beneath (number : Nat) (extra : List Value) : Execution := ⟨none, number, extra, []⟩

/-- The second task is the first one with more operands beneath those of its execution.  Where an
execution may end without operands the results of its call may differ. -/
inductive Task.Above (number : Nat) (extra : List Value) (full : Prop) : Task → Task → Prop
  | running (x : Execution) :
    Above number extra full (.running x) (.running (x.onto (beneath number extra)))
  | failing (thread : Option ThreadId) (call : Nat) (e : Failure) :
    Above number extra full (.failing thread call e) (.failing thread call e)
  | joining {call : Nat} {r r' : Except Failure Value} (h : AgreesIf full r r') :
    Above number extra full (.joining call r) (.joining call r')
  | closing {call : Nat} {r r' : Except Failure Value} (h : AgreesIf full r r') :
    Above number extra full (.closing call r) (.closing call r')
  | answered {call : Nat} {r r' : Except Failure Value} (h : AgreesIf full r r') :
    Above number extra full (.answered call r) (.answered call r')

section

variable {number : Nat} {extra : List Value} {full : Prop} {s : Shared} {t t' : Task}
  {x : Execution}

theorem AgreesIf.answer {r r' : Except Failure Value} (h : AgreesIf full r r')
    (failure : Option Failure) :
    AgreesIf full (Task.answer failure r) (Task.answer failure r') := by
  cases failure with
  | some e => exact .inl rfl
  | none => exact h

theorem Execution.onto_beneath {x : Execution} (hthread : x.thread = none) (hcall : x.call = number)
    (extra : List Value) :
    x.onto (beneath number extra) = { x with operands := x.operands ++ extra } := by
  rw [Execution.onto, beneath, List.append_nil, hthread, hcall]

namespace Task

theorem Above.canMove_eq (h : Above number extra full t t') : t'.canMove s = t.canMove s := by
  cases h <;> rfl

/-- The execution of a call takes its turn in the same way with more operands beneath its own. -/
theorem above_turn_running (hx : (Task.running x).Sole number s)
    (hop : ∀ i, x.instr? = some i → i.op ≠ .thread ∧ i.op ≠ .wait)
    (hfull : full → x.instr? = none → x.operands ≠ []) :
    (∃ e, ((Task.running x).turn s).2 = [.failing none number e] ∧ e.fault = .stackUnderflow) ∨
      ((Task.running (x.onto (beneath number extra))).turn s).1 = ((Task.running x).turn s).1 ∧
        List.Forall₂ (Above number extra full) ((Task.running x).turn s).2
          ((Task.running (x.onto (beneath number extra))).turn s).2 := by
  obtain ⟨hthread, hcall, -, -⟩ := hx
  have howner : (x.onto (beneath number extra)).thread = none ∧
      (x.onto (beneath number extra)).call = number := ⟨rfl, rfl⟩
  rw [turn, turn, hthread, hcall, howner.1, howner.2]
  cases hi : x.instr? with
  | none =>
    have hi' : (x.onto (beneath number extra)).instr? = none := by
      obtain ⟨thread, call, operands, _ | ⟨f, fs⟩⟩ := x
      · rfl
      · exact hi
    rw [step_of_instr?_eq_none hi, step_of_instr?_eq_none hi']
    refine .inr ⟨rfl, .cons (.joining ?_) .nil⟩
    cases hoperands : x.operands with
    | nil => exact .inr ⟨fun h => hfull h hi hoperands, ⟨_, rfl⟩, ⟨_, rfl⟩⟩
    | cons v rest =>
      refine .inl ?_
      rw [Execution.onto, hoperands]
      rfl
  | some i =>
    obtain ⟨hspawns, hwaits⟩ := not_spawns_or_waits s hop
    have hnames : ∀ s' e, step s x = (s', .fails e) → e.withThread x.thread = e :=
      fun _ _ => withThread_of_fails
    have hstep : _ ∨ step s (x.onto (beneath number extra)) = _ :=
      step_onto_or_underflow hi (hop i hi).1 hcall.symm rfl
    rcases hstep with hunderflow | hsame
    · generalize step s x = r at hunderflow
      obtain ⟨s', turn⟩ := r
      cases turn with
      | fails e => exact .inl ⟨e, rfl, hunderflow⟩
      | _ => cases hunderflow
    · rw [hsame]
      generalize step s x = r at hspawns hwaits hnames
      obtain ⟨s', turn⟩ := r
      cases turn with
      | continues y => exact .inr ⟨rfl, .cons (.running y) .nil⟩
      | spawns y child => exact absurd rfl (hspawns y child)
      | waits y thread site => exact absurd rfl (hwaits y thread site)
      | returns v => exact .inr ⟨rfl, .cons (.joining (.inl rfl)) .nil⟩
      | fails e =>
        have he : e.withThread none = e := hthread ▸ hnames s' e rfl
        have hfailing : Above number extra full (.failing none number e)
            (.failing none number (e.withThread none)) := by
          rw [he]
          exact .failing none number e
        exact .inr ⟨rfl, .cons hfailing .nil⟩
      | crashes => exact .inr ⟨rfl, .nil⟩

/-- The only task of a call takes its turn in the same way with more operands beneath. -/
theorem Above.turn (h : Above number extra full t t') (ht : t.Sole number s)
    (hthreads : ∀ r ∈ s.threads.toList, r.call ≠ number)
    (hop : ∀ x i, t = .running x → x.instr? = some i → i.op ≠ .thread ∧ i.op ≠ .wait)
    (hfull : full → ∀ x, t = .running x → x.instr? = none → x.operands ≠ []) :
    (∃ e, (t.turn s).2 = [.failing none number e] ∧ e.fault = .stackUnderflow) ∨
      (t'.turn s).1 = (t.turn s).1 ∧
        List.Forall₂ (Above number extra full) (t.turn s).2 (t'.turn s).2 := by
  cases h with
  | running x => exact above_turn_running ht (fun i => hop x i rfl) fun h => hfull h x rfl
  | failing thread call e =>
    obtain ⟨rfl, -, -⟩ := ht
    exact .inr ⟨rfl, .cons (.joining (.inl rfl)) .nil⟩
  | joining h =>
    obtain ⟨rfl, -⟩ := ht
    rw [turn_joining hthreads, turn_joining hthreads]
    exact .inr ⟨rfl, .cons (.closing h) .nil⟩
  | closing h => exact .inr ⟨rfl, .cons (.answered (h.answer _)) .nil⟩
  | answered h => exact .inr ⟨rfl, .cons (.answered h) .nil⟩

/-- The executions that are under way are those from before, with more operands beneath. -/
theorem running_mem_iff {tasks tasks' : List Task}
    (h : List.Forall₂ (Above number extra full) tasks tasks') (x' : Execution) :
    .running x' ∈ tasks' ↔ ∃ x, .running x ∈ tasks ∧ x' = x.onto (beneath number extra) := by
  induction h with
  | nil => simp
  | cons ht _ ih =>
    simp only [List.mem_cons, ih, or_and_right, exists_or]
    refine or_congr_left ?_
    cases ht <;> simp

end Task

/-! ## Calls -/

namespace Machine

/-- The second machine is the first one with more operands beneath those of its call. -/
structure Above (number : Nat) (extra : List Value) (full : Prop) (m m' : Machine) : Prop where
  /-- The shared states are the same. -/
  shared : m'.shared = m.shared
  /-- So are the numbers of calls. -/
  calls : m'.calls = m.calls
  /-- What is under way differs in the operands beneath. -/
  tasks : List.Forall₂ (Task.Above number extra full) m.tasks m'.tasks

variable {m m' : Machine} {name : String} {args : List Value} {answer : Except Failure Value}

theorem above_begin (hm : m.tasks = []) (name : String) (args extra : List Value) (full : Prop) :
    Above m.calls extra full (m.begin name args) (m.begin name (args ++ extra)) := by
  refine ⟨rfl, rfl, ?_⟩
  rw [begin, begin, hm, List.append_nil, List.append_nil, entry, entry]
  split
  · rename_i routine _
    split
    · exact .cons (.running ⟨none, m.calls, args, [{ routine }]⟩) .nil
    · exact .nil
  · exact .cons (.failing _ _ _) .nil

/-- **A call without threads runs in the same way with more operands beneath**, unless its execution
runs out of operands: then that is the answer, whenever it is given. -/
theorem Sole.run_above (h : m.Sole number) (hthreads : m.Threadless)
    (hfull : full → ∀ x, m.Visits x → x.instr? = none → x.operands ≠ [])
    (habove : Above number extra full m m') (n : Nat) :
    (∀ k answer, answerOf? number (run k m).tasks = some answer →
        ∃ e, answer = .error e ∧ e.fault = .stackUnderflow) ∨
      Above number extra full (run n m) (run n m') := by
  induction n generalizing m m' with
  | zero => exact .inr habove
  | succ n ih =>
    obtain ⟨hshared, hcalls, htasks'⟩ := habove
    rcases h.tasks with htasks | ⟨t, htasks, ht⟩
    · rw [htasks] at htasks'
      rw [run_of_ready?_eq_none (ready?_of_nil htasks),
        run_of_ready?_eq_none (ready?_of_nil (List.forall₂_nil_left_iff.mp htasks'))]
      exact .inr ⟨hshared, hcalls, by rw [htasks]; exact htasks'⟩
    · have hunder := htasks'
      rw [htasks] at hunder
      obtain ⟨t', _, ht', hnil, htasks''⟩ := List.forall₂_cons_left_iff.mp hunder
      obtain rfl := List.forall₂_nil_left_iff.mp hnil
      have hmove_eq : t'.canMove m'.shared = t.canMove m.shared := hshared ▸ ht'.canMove_eq
      cases hmove : t.canMove m.shared with
      | false =>
        rw [run_of_ready?_eq_none (ready?_of_stuck htasks hmove),
          run_of_ready?_eq_none (ready?_of_stuck htasks'' (hmove_eq.trans hmove))]
        exact .inr ⟨hshared, hcalls, htasks'⟩
      | true =>
        have hop := hthreads.of_tasks htasks
        have hnext := h.turned htasks hop
        rw [run_succ_of_tasks htasks hmove,
          run_succ_of_tasks htasks'' (hmove_eq.trans hmove)]
        rcases ht'.turn ht h.threads hop fun hf x hx =>
          hfull hf x (visits_of_tasks (hx ▸ htasks)) with ⟨e, hfailing, he⟩ | ⟨hsame, hturn⟩
        · exact .inl (forall_answer_of_turned htasks hmove fun k answer hanswer =>
            ⟨e, hnext.answer_of_owes hfailing rfl hanswer, he⟩)
        · have habove' : Above number extra full (m.turned t) (m'.turned t') := by
            rw [Machine.turned, Machine.turned, hshared]
            exact ⟨hsame, hcalls, hturn⟩
          exact (ih hnext (hthreads.turned htasks hmove)
            (fun hf x hx => hfull hf x (hx.of_turned htasks hmove)) habove').imp_left fun hunder =>
              forall_answer_of_turned htasks hmove hunder

/-- **What lies beneath the arguments of a call is invisible.**  If a call without threads ends with
a value, and its execution with an operand of its own, or if it ends with a failure other than that
an operand is missing, then it has the same answer with more operands beneath its arguments, and
leaves the same machine.  Turn by turn these operands stay where they are. -/
theorem call_above (hm : m.Idle) {turns : Nat} (hthreads : (m.begin name args).Threadless)
    (hcall : m.call turns name args = (some answer, m'))
    (hvalue : ∀ v, answer = .ok v →
      ∀ x, (m.begin name args).Visits x → x.instr? = none → x.operands ≠ [])
    (herror : ∀ e, answer = .error e → e.fault ≠ .stackUnderflow) (extra : List Value) :
    m.call turns name (args ++ extra) = (some answer, m') ∧
      ∀ n x', .running x' ∈ (run n (m.begin name (args ++ extra))).tasks ↔
        ∃ x, .running x ∈ (run n (m.begin name args)).tasks ∧
          x' = { x with operands := x.operands ++ extra } := by
  rw [call, Prod.mk.injEq] at hcall
  obtain ⟨hanswer, rfl⟩ := hcall
  have hsole := hm.sole_begin name args
  have habove := fun n => (hsole.run_above hthreads id
    (above_begin hm.tasks name args extra _) n).resolve_left fun hunder => by
      obtain ⟨e, rfl, he⟩ := hunder turns answer hanswer
      exact herror e rfl he
  refine ⟨?_, fun n x' => ?_⟩
  · obtain ⟨hshared, hcalls, htasks'⟩ := habove turns
    have htasks := (hsole.after_run hthreads turns).tasks_of_answer hanswer
    rw [htasks] at htasks'
    obtain ⟨t', _, ht', hnil, htasks''⟩ := List.forall₂_cons_left_iff.mp htasks'
    obtain rfl := List.forall₂_nil_left_iff.mp hnil
    cases ht' with
    | answered hagrees =>
      rcases hagrees with rfl | ⟨hfull, ⟨v, rfl⟩, -⟩
      · rw [call, htasks, htasks'', hshared, hcalls, Prod.mk.injEq, ← htasks]
        exact ⟨hanswer, rfl⟩
      · exact absurd (hvalue v rfl) hfull
  · rw [Task.running_mem_iff (habove n).tasks]
    refine exists_congr fun x => and_congr_right fun hx => ?_
    obtain ⟨hthread, hnumber⟩ := (hsole.after_run hthreads n).owner_of_mem hx
    rw [Execution.onto_beneath hthread hnumber]

/-- A routine that drops its first argument and doubles the second in another routine. -/
def second : Routine := ⟨"second", #[.plain .pop, .call "twice", .plain .ret]⟩

/-- A routine that doubles the topmost operand. -/
def twice : Routine := ⟨"twice", #[.plain .dup, .plain (.binary .add), .plain .ret]⟩

/-- A machine with both routines. -/
def doubler : Machine := ((create {} {}).add second).add twice

/-- The call of the machine with two arguments. -/
def doubling : Machine := doubler.begin "second" [.int 4, .int 5]

/-- The call is over after ten turns, and then nothing moves any more. -/
theorem tasks_run_doubling (n : Nat) :
    (run (n + 10) doubling).tasks = [.answered 0 (.ok (.int 10))] := by
  have hanswered : (run 10 doubling).tasks = [.answered 0 (.ok (.int 10))] := rfl
  rw [Nat.add_comm, run_add, run_of_ready?_eq_none (ready?_of_stuck hanswered rfl), hanswered]

/-- What is under way has an operand. -/
def hasOperand : Task → Bool
  | .running x => !x.operands.isEmpty
  | _ => true

theorem operands_doubling {x : Execution} (hx : doubling.Visits x) : x.operands ≠ [] := by
  obtain ⟨n, hx⟩ := hx
  rcases Nat.lt_or_ge n 10 with h | h
  · have hearly : ∀ n < 10, (run n doubling).tasks.all hasOperand = true := by decide
    have hoperand := List.all_eq_true.mp (hearly n h) _ hx
    rintro hempty
    rw [hasOperand, hempty] at hoperand
    cases hoperand
  · obtain ⟨n, rfl⟩ := Nat.exists_eq_add_of_le' h
    rw [tasks_run_doubling] at hx
    cases List.mem_singleton.mp hx

theorem call_above_doubler : ∃ m',
    doubler.call 20 "second" [.int 4, .int 5] = (some (.ok (.int 10)), m') ∧
    doubler.call 20 "second" [.int 4, .int 5, .str "kept", .null] = (some (.ok (.int 10)), m') := by
  have hm : doubler.Idle := (Used.create {} {} |>.add second |>.add twice).idle
  have hthreads : doubling.Threadless := by
    intro x i hx hi
    obtain ⟨r, hr, hmem⟩ := hx.mem_routines hm.tasks hi
    have hcode : ∀ r ∈ [twice, second], ∀ i ∈ r.code.toList, i.op ≠ .thread ∧ i.op ≠ .wait := by
      decide
    exact hcode r hr i hmem
  refine ⟨_, rfl, (call_above hm hthreads rfl (fun _ _ x hx _ => operands_doubling hx) ?_
    [.str "kept", .null]).1⟩
  intro e he
  cases he

end Machine

end

end Opstack
