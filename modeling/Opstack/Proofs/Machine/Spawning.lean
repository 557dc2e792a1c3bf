import Opstack.Proofs.Machine.News
import Opstack.Proofs.Machine.RootCause
import Opstack.Proofs.Machine.Standalone

/-!
# A thread and the execution that started it

An execution starts a thread and waits for its result at once.  As long as the thread has not ended,
all that the execution can do is to ask for the result, so whatever takes its turns, it is the turns
of the thread that count (`Machine.Beside.inevitable`), and those are the steps of an execution that
is alone.

`Machine.Beside` is a machine with a thread and the execution that started it.  If the thread
returns a value, that is what the execution inevitably goes on with (`Machine.GoesOn`); if it fails,
its failure is inevitably recorded (`Machine.BreaksOff`) and will be the answer of the call; and if
it goes on and on, the execution keeps waiting (`Machine.Pends`).
-/

set_option autoImplicit false

namespace Opstack

/-! ## The code -/

/-- The code that starts a thread and waits for it, with the argument on the stack. -/
def detachedCode (name : String) : List Instr :=
  .push (.str name) :: (callCode "thread_create" ++ callCode "thread_wait")

namespace Execution

/-- The execution has moved past so many instructions. -/
def past (x : Execution) : Nat → Execution
  | 0 => x
  | n + 1 => (x.past n).passed

/-- The next instructions of the execution are those. -/
def Faces : Execution → List Instr → Prop
  | _, [] => True
  | x, i :: code => x.instr? = some i ∧ x.passed.Faces code

theorem owner_past (x : Execution) (n : Nat) :
    (x.past n).thread = x.thread ∧ (x.past n).call = x.call := by
  induction n with
  | zero => exact ⟨rfl, rfl⟩
  | succ n ih =>
    obtain ⟨hthread, hcall⟩ := (x.past n).owner_passed
    exact ⟨hthread.trans ih.1, hcall.trans ih.2⟩

end Execution

/-! ## Steps and turns -/

theorem step_push {s : Shared} {x : Execution} {v : Value} (hi : x.instr? = some (.push v))
    (hrun : s.isHalted = false) : step s x = (s, .continues (x.passed.push v)) := by
  rw [step_of_instr? hi hrun]
  rfl

/-- The task of an execution that has returned or failed. -/
def Task.ofResult (thread : Option ThreadId) (call : Nat) : Except Failure Execution → Task
  | .ok x => .running x
  | .error e => .failing thread call e

/-- The record of the newest thread is the last one of the table. -/
theorem Shared.modifyThread_push {threads : Array Thread}
    (hroom : firstThread + threads.size < Nat.pow 2 63) (s : Shared) (record : Thread)
    (f : Thread → Thread) : (s.withThreads (threads.push record)).modifyThread
      (threadId threads.size) f = s.withThreads (threads.push (f record)) := by
  have hmodify : (threads.push record).modify threads.size f = threads.push (f record) := by
    refine Array.ext_getElem? fun i => ?_
    rw [Array.getElem?_modify, Array.getElem?_push, Array.getElem?_push]
    by_cases hi : i = threads.size
    · rw [if_pos hi.symm, if_pos hi, if_pos hi]
      rfl
    · rw [if_neg (Ne.symm hi), if_neg hi, if_neg hi]
  rw [modifyThread, threadPlace?_eq_some.mpr ⟨rfl, hroom⟩]
  exact congrArg s.withThreads hmodify

theorem Shared.thread?_withThreads {threads : Array Thread}
    (hroom : firstThread + threads.size < Nat.pow 2 63) (s : Shared) (record : Thread) :
    (s.withThreads (threads.push record)).thread? (threadId threads.size) = some record :=
  (thread?_push (s := s.withThreads threads) hroom rfl _).trans (if_pos rfl)

namespace Machine

section

variable {s s' : Shared} {t : Task} {tasks rest : List Task} {m : Machine} {P Q : Machine → Prop}

theorem advance_first (h : t.turn s = (s', tasks)) (rest : List Task) (calls : Nat) :
    (⟨s, t :: rest, calls⟩ : Machine).advance 0 = ⟨s', tasks ++ rest, calls⟩ := by
  simp only [advance, Task.turnAt, h]

theorem advance_second (h : t.turn s = (s', tasks)) (first : Task) (calls : Nat) :
    (⟨s, [first, t], calls⟩ : Machine).advance 1 = ⟨s', first :: tasks, calls⟩ := by
  simp only [advance, Task.turnAt, h, List.append_nil]

/-- The only task takes the next turn. -/
theorem Inevitable.sole {calls : Nat} (hmove : t.canMove s = true)
    (h : Inevitable P ((⟨s, [t], calls⟩ : Machine).advance 0)) :
    Inevitable P ⟨s, [t], calls⟩ := by
  refine .next ⟨0, t, rfl, hmove⟩ fun position hposition => ?_
  obtain ⟨u, hu, -⟩ := hposition
  cases position with
  | zero => exact h
  | succ n => cases hu

/-- What holds of the only task and after its turn holds in every order. -/
theorem follow_sole {calls : Nat} (hnow : P ⟨s, [t], calls⟩)
    (hnext : ∀ order, P (((⟨s, [t], calls⟩ : Machine).advance 0).follow order))
    (order : List Nat) : P (follow ⟨s, [t], calls⟩ order) := by
  induction order with
  | nil => exact hnow
  | cons position order ih =>
    cases position with
    | zero => exact hnext order
    | succ n =>
      rw [follow, List.foldl_cons, advance_eq_self rfl]
      exact ih

theorem Inevitable.trans (h : Inevitable P m) (hPQ : ∀ m, P m → Inevitable Q m) :
    Inevitable Q m := by
  induction h with
  | here h => exact hPQ _ h
  | next hmove _ ih => exact .next hmove ih

end

/-! ## A thread beside the execution that started it -/

/-- There are some tasks, the last of which is the execution that started the newest thread.  It is
about to ask for the result of the thread or waits for it.  In the table the thread stands behind
the given ones, with what has become of it. -/
inductive Beside (y : Execution) (threads : Array Thread) (s : Shared) (outcome : Outcome)
    (tasks : List Task) : Machine → Prop
  | asks (calls : Nat) : Beside y threads s outcome tasks
      ⟨s.withThreads (threads.push ⟨y.call, outcome, false⟩),
        tasks ++ [.running ((y.past 2).push (.int (threadId threads.size)))], calls⟩
  | waits (site : Site) (calls : Nat) : Beside y threads s outcome tasks
      ⟨s.withThreads (threads.push ⟨y.call, outcome, true⟩),
        tasks ++ [.waiting (y.past 3) (threadId threads.size) site], calls⟩

/-- The execution that started the newest thread goes on with a value, in the given state with the
record of the thread. -/
structure GoesOn (y : Execution) (v : Value) (threads : Array Thread) (s : Shared)
    (m : Machine) : Prop where
  /-- The execution is the only one, and the value is on top of its operands. -/
  tasks : m.tasks = [.running ((y.past 3).push v)]
  /-- The state is the given one, but for the table of threads. -/
  shared : m.shared = s.withThreads (threads.push ⟨y.call, .finished (.ok v), true⟩)

/-- The failure of the newest thread has been recorded, and the execution that started it fails too,
in the given state with the record of the thread. -/
structure BreaksOff (y : Execution) (e : Failure) (threads : Array Thread) (s : Shared)
    (m : Machine) : Prop where
  /-- The execution is the only one, and has been handed the failure or has been aborted. -/
  tasks : ∃ e', m.tasks = [.failing y.thread y.call e'] ∧ (e' = e ∨ e'.fault = .aborted)
  /-- The failure has been recorded. -/
  failure : m.shared.failure = some e
  /-- The state is the given one, but for the table of threads and the record of the failure. -/
  shared : ∃ isClaimed,
    m.shared = (s.withThreads (threads.push ⟨y.call, .finished (.error e), isClaimed⟩)).fail e

namespace Beside

variable {y x z : Execution} {threads : Array Thread} {s s' : Shared} {outcome outcome' : Outcome}
  {t : Task} {tasks : List Task} {m : Machine} {P : Machine → Prop}

/-- The turn of the thread. -/
theorem turn (h : Beside y threads s outcome [t] m)
    (hturn : ∀ isClaimed, t.turn (s.withThreads (threads.push ⟨y.call, outcome, isClaimed⟩)) =
      (s'.withThreads (threads.push ⟨y.call, outcome', isClaimed⟩), tasks)) :
    Beside y threads s' outcome' tasks (m.advance 0) := by
  cases h with
  | asks calls =>
    rw [List.singleton_append, advance_first (hturn false)]
    exact .asks calls
  | waits site calls =>
    rw [List.singleton_append, advance_first (hturn true)]
    exact .waits site calls

/-- The execution that started the thread asks for its result. -/
theorem turn_asks (hwait : (y.past 2).instr? = some (.plain .wait))
    (hroom : firstThread + threads.size < Nat.pow 2 63) (hrun : s.isHalted = false)
    (outcome : Outcome) : ∃ site,
    (Task.running ((y.past 2).push (.int (threadId threads.size)))).turn
        (s.withThreads (threads.push ⟨y.call, outcome, false⟩)) =
      (s.withThreads (threads.push ⟨y.call, outcome, true⟩),
        [.waiting (y.past 3) (threadId threads.size) site]) := by
  have hthread := Shared.thread?_withThreads hroom s ⟨y.call, outcome, false⟩
  have hstep := step_wait_of_accepted
    (s := s.withThreads (threads.push ⟨y.call, outcome, false⟩)) hwait rfl hrun
    (Shared.refusal?_eq_none.mpr ⟨_, hthread, rfl⟩)
  rw [Shared.withClaim, Shared.modifyThread_push hroom] at hstep
  exact ⟨_, Task.turn_of_waits hstep⟩

/-- **It is the turns of the thread that count**: whatever takes its turns before, the thread does,
and the execution that started it has asked for the result at most. -/
theorem inevitable (h : Beside y threads s .running [t] m)
    (hwait : (y.past 2).instr? = some (.plain .wait))
    (hroom : firstThread + threads.size < Nat.pow 2 63) (hrun : s.isHalted = false)
    (hmove : ∀ s, t.canMove s = true)
    (hnext : ∀ m, Beside y threads s .running [t] m → Inevitable P (m.advance 0)) :
    Inevitable P m := by
  have hwaits : ∀ site calls, Inevitable P
      ⟨s.withThreads (threads.push ⟨y.call, .running, true⟩),
        [t, .waiting (y.past 3) (threadId threads.size) site], calls⟩ := fun site calls => by
    refine .next ⟨0, t, rfl, hmove _⟩ fun position hposition => ?_
    obtain ⟨u, hu, hu'⟩ := hposition
    rcases position with _ | _ | position
    · exact hnext _ (.waits site calls)
    · cases hu
      rw [Task.canMove, Shared.outcomeOf_eq (Shared.thread?_withThreads hroom s _)] at hu'
      cases hu'
    · cases hu
  cases h with
  | waits site calls => exact hwaits site calls
  | asks calls =>
    refine .next ⟨0, t, rfl, hmove _⟩ fun position hposition => ?_
    obtain ⟨u, hu, -⟩ := hposition
    rcases position with _ | _ | position
    · exact hnext _ (.asks calls)
    · obtain ⟨site, hturn⟩ := turn_asks hwait hroom hrun .running
      have hadvance := advance_second hturn t calls
      rw [List.singleton_append, hadvance]
      exact hwaits site calls
    · cases hu

/-! ### The thread ends -/

theorem turn_step (hop : ∀ i, x.instr? = some i → i.op ≠ .thread ∧ i.op ≠ .wait)
    (hstep : step s x = (s', .continues z)) (threads : Array Thread) :
    (Task.running x).turn (s.withThreads threads) = (s'.withThreads threads, [.running z]) :=
  Task.turn_of_continues (by rw [step_withThreads hop, hstep])

theorem turn_fails {e : Failure} (hop : ∀ i, x.instr? = some i → i.op ≠ .thread ∧ i.op ≠ .wait)
    (hstep : step s x = (s', .fails e)) (threads : Array Thread) :
    (Task.running x).turn (s.withThreads threads) =
      (s'.withThreads threads, [.failing x.thread x.call e]) :=
  Task.turn_of_fails (by rw [step_withThreads hop, hstep])

/-- **A call in a thread comes to its end**, whatever takes its turns, if it does so alone. -/
theorem inevitable_of_returns {p : Program} {f : Function} {r : Except Failure Execution}
    (hp : p.WellCalled) (hfree : p.Threadless f) (hwait : (y.past 2).instr? = some (.plain .wait))
    (hroom : firstThread + threads.size < Nat.pow 2 63) (hx : x.Returns 0 s s' r)
    (halone : p.Alone f x) (hs : p.ReadyIn s) (h : Beside y threads s .running [.running x] m)
    (hnext : ∀ m, Beside y threads s' .running [.ofResult x.thread x.call r] m →
      Inevitable P m) : Inevitable P m := by
  induction hx generalizing m with
  | here hstep _ =>
    have hturn := turn_step (fun i hi => halone.threadless hfree hi) hstep
    exact h.inevitable hwait hroom hs.running (fun _ => rfl) fun m hm =>
      hnext _ (hm.turn fun _ => hturn _)
  | fails hstep =>
    have hturn := turn_fails (fun i hi => halone.threadless hfree hi) hstep
    exact h.inevitable hwait hroom hs.running (fun _ => rfl) fun m hm =>
      hnext _ (hm.turn fun _ => hturn _)
  | later hstep habove _ ih =>
    have hturn := turn_step (fun i hi => halone.threadless hfree hi) hstep
    have hgoes : Execution.Next _ _ _ := .continues rfl hstep
    obtain ⟨hthread, hcall⟩ := hgoes.owner_eq
    rw [← hthread, ← hcall] at hnext
    rcases halone.next hp hs.loaded hgoes with halone' | ⟨v, rfl⟩
    · exact h.inevitable hwait hroom hs.running (fun _ => rfl) fun m hm =>
        ih halone' (hs.step hstep) (hm.turn fun _ => hturn _) hnext
    · exact absurd habove (Nat.lt_irrefl _)

/-- The result of the thread is what the execution that started it goes on with. -/
theorem inevitable_goesOn {v : Value} (h : Beside y threads s (.finished (.ok v)) [] m)
    (hwait : (y.past 2).instr? = some (.plain .wait))
    (hroom : firstThread + threads.size < Nat.pow 2 63) (hrun : s.isHalted = false) :
    m.Inevitable (GoesOn y v threads s) := by
  have houtcome : ∀ isClaimed, (s.withThreads (threads.push
      ⟨y.call, .finished (.ok v), isClaimed⟩)).outcomeOf (threadId threads.size) =
        .finished (.ok v) := fun isClaimed =>
    Shared.outcomeOf_eq (Shared.thread?_withThreads hroom s _)
  have hwaits : ∀ site calls, Inevitable (GoesOn y v threads s)
      ⟨s.withThreads (threads.push ⟨y.call, .finished (.ok v), true⟩),
        [.waiting (y.past 3) (threadId threads.size) site], calls⟩ := fun site calls => by
    refine .sole (by rw [Task.canMove, houtcome]; rfl) (.here ?_)
    rw [advance_first (Task.turn_of_outcome (houtcome true) _ site)]
    exact ⟨rfl, rfl⟩
  cases h with
  | waits site calls => exact hwaits site calls
  | asks calls =>
    obtain ⟨site, hturn⟩ := turn_asks hwait hroom hrun (.finished (.ok v))
    refine .sole rfl ?_
    rw [advance_first hturn]
    exact hwaits site calls

/-- The failure of the thread is recorded, and the execution that started it is handed it or
aborted. -/
theorem inevitable_breaksOff {fault : Fault} {site : Site} {e : Failure}
    (he : e = .raised fault site (some (threadId threads.size)))
    (h : Beside y threads (s.fail e) (.finished (.error e)) [] m)
    (hwait : (y.past 2).instr? = some (.plain .wait))
    (hroom : firstThread + threads.size < Nat.pow 2 63) (hfailure : s.failure = none) :
    m.Inevitable (BreaksOff y e threads s) := by
  have hrecorded : ∀ threads, ((s.fail e).withThreads threads).failure = some e := fun threads => by
    change some (s.failure.getD e) = some e
    rw [hfailure]
    rfl
  cases h with
  | waits site calls =>
    have houtcome := Shared.outcomeOf_eq (Shared.thread?_withThreads hroom (s.fail e)
      ⟨y.call, .finished (.error e), true⟩)
    have hturn := Task.turn_of_outcome houtcome (y.past 3) site
    have hresume : Task.resume (y.past 3) (threadId threads.size) site (.finished (.error e)) =
        .failing y.thread y.call e := by
      rw [Task.resume, (y.owner_past 3).1, (y.owner_past 3).2, he]
      rfl
    rw [hresume] at hturn
    refine .sole (by rw [Task.canMove, houtcome]; rfl) (.here ?_)
    rw [advance_first hturn]
    exact ⟨⟨e, rfl, .inl rfl⟩, hrecorded _, _, rfl⟩
  | asks calls =>
    have hturn := Task.turn_of_fails (step_of_isHalted
      (s := (s.fail e).withThreads (threads.push ⟨y.call, .finished (.error e), false⟩))
      (x := (y.past 2).push (.int (threadId threads.size))) hwait rfl)
    obtain ⟨hthread, hcall⟩ : ((y.past 2).push (.int (threadId threads.size))).thread = y.thread ∧
        ((y.past 2).push (.int (threadId threads.size))).call = y.call := y.owner_past 2
    rw [hthread, hcall] at hturn
    refine .sole rfl (.here ?_)
    rw [advance_first hturn]
    exact ⟨⟨.raised .aborted _ _, rfl, .inr rfl⟩, hrecorded _, _, rfl⟩

/-! ### From the beginning to the end -/

/-- The execution that has the argument pushes the name. -/
theorem advance_begins {v w : Value} (hi : y.instr? = some (.push w)) (hrun : s.isHalted = false)
    (calls : Nat) : (⟨s, [.running (y.push v)], calls⟩ : Machine).advance 0 =
      ⟨s, [.running (((y.past 1).push v).push w)], calls⟩ := by
  have hturn := Task.turn_of_continues (step_push (x := y.push v) hi hrun)
  rw [Execution.passed_push] at hturn
  exact advance_first hturn [] calls

/-- The execution that has the argument and the name starts the thread. -/
theorem of_named {name : String} {v : Value} {r : Routine}
    (hi : (y.past 1).instr? = some (.plain .thread)) (hrun : s.isHalted = false)
    (hfind : s.find? name = some r) (hroom : firstThread + s.threads.size < Nat.pow 2 63)
    (calls : Nat) : Beside y s.threads s .running
      [.running ⟨some (threadId s.threads.size), y.call, [v], [{ routine := r }]⟩]
      ((⟨s, [.running (((y.past 1).push v).push (.str name))], calls⟩ : Machine).advance 0) := by
  have hstep := step_thread (v := v) hi rfl hrun hfind hroom
  rw [(y.owner_past 1).2] at hstep
  rw [advance_first (Task.turn_of_spawns hstep)]
  exact .asks calls

/-- The execution that has the argument starts the thread, whatever takes its turns. -/
theorem inevitable_of_faces {name : String} {v : Value} {r : Routine}
    (hy : y.Faces (detachedCode name)) (hrun : s.isHalted = false) (hfind : s.find? name = some r)
    (hroom : firstThread + s.threads.size < Nat.pow 2 63) {calls : Nat}
    (hnext : ∀ m, Beside y s.threads s .running
      [.running ⟨some (threadId s.threads.size), y.call, [v], [{ routine := r }]⟩] m →
        Inevitable P m) : Inevitable P ⟨s, [.running (y.push v)], calls⟩ := by
  obtain ⟨hpush, hthread, -⟩ := hy
  refine .sole rfl ?_
  rw [advance_begins hpush hrun]
  exact .sole rfl (hnext _ (of_named hthread hrun hfind hroom calls))

/-- What a thread returns is what the execution that started it goes on with. -/
theorem inevitable_of_returned {v : Value} {call : Nat}
    (h : Beside y threads s .running
      [.running ⟨some (threadId threads.size), call, [v], []⟩] m)
    (hwait : (y.past 2).instr? = some (.plain .wait))
    (hroom : firstThread + threads.size < Nat.pow 2 63) (hrun : s.isHalted = false) :
    m.Inevitable (GoesOn y v threads s) :=
  h.inevitable hwait hroom hrun (fun _ => rfl) fun _ hm =>
    (hm.turn fun _ => congrArg (·, []) (Shared.modifyThread_push hroom s _ _)).inevitable_goesOn
      hwait hroom hrun

/-- The failure of a thread is recorded. -/
theorem inevitable_of_failing {fault : Fault} {site : Site} {call : Nat} {e : Failure}
    (he : e = .raised fault site (some (threadId threads.size)))
    (h : Beside y threads s .running [.failing (some (threadId threads.size)) call e] m)
    (hwait : (y.past 2).instr? = some (.plain .wait))
    (hroom : firstThread + threads.size < Nat.pow 2 63) (hrun : s.isHalted = false)
    (hfailure : s.failure = none) : m.Inevitable (BreaksOff y e threads s) :=
  h.inevitable hwait hroom hrun (fun _ => rfl) fun _ hm =>
    (hm.turn fun _ =>
      congrArg (·, []) (Shared.modifyThread_push hroom (s.fail e) _ _)).inevitable_breaksOff
      he hwait hroom hfailure

/-- As long as the thread goes on, there is nothing but the turns of the thread and the question for
its result. -/
theorem advance (h : Beside y threads s .running [.running x] m)
    (hwait : (y.past 2).instr? = some (.plain .wait))
    (hroom : firstThread + threads.size < Nat.pow 2 63) (hrun : s.isHalted = false)
    (hop : ∀ i, x.instr? = some i → i.op ≠ .thread ∧ i.op ≠ .wait)
    (hstep : step s x = (s', .continues z)) (position : Nat) :
    Beside y threads s' .running [.running z] (m.advance position) ∨
      Beside y threads s .running [.running x] (m.advance position) := by
  rcases position with _ | _ | position
  · exact .inl (h.turn fun _ => turn_step hop hstep _)
  · cases h with
    | asks calls =>
      obtain ⟨site, hturn⟩ := turn_asks hwait hroom hrun .running
      rw [List.singleton_append, advance_second hturn]
      exact .inr (.waits site calls)
    | waits site calls =>
      have houtcome := Shared.outcomeOf_eq (Shared.thread?_withThreads hroom s
        ⟨y.call, .running, true⟩)
      rw [List.singleton_append, advance_second (Task.turn_of_outcome houtcome _ site)]
      exact .inr (.waits site calls)
  · have hnone : m.tasks[position + 1 + 1]? = none := by cases h <;> rfl
    rw [advance_eq_self hnone]
    exact .inr h

end Beside

/-- The recorded failure will be the answer when nothing is left but the failure of the call. -/
theorem inevitable_of_failing_entry {s : Shared} {call : Nat} {e : Failure}
    (hfailure : s.failure = some e) (hjoined : s.hasJoined call = true) (e' : Failure)
    (calls : Nat) : Inevitable (Answers call (.error e)) ⟨s, [.failing none call e'], calls⟩ := by
  have hrecorded : (s.fail e').failure = some e := by
    rw [Shared.fail, hfailure]
    rfl
  have hjoined' : (s.fail e').hasJoined call = true := hjoined
  have hrecords : (Task.failing none call e').turn s = (s.fail e', [.joining call (.error e')]) :=
    rfl
  refine .sole rfl ?_
  rw [advance_first hrecords]
  have hjoins : (Task.joining call (.error e')).turn (s.fail e') =
      (Task.join (s.fail e') call, [.closing call (.error e')]) := if_pos hjoined'
  refine .sole hjoined' ?_
  rw [advance_first hjoins]
  exact inevitable_of_closing rfl (Task.failure_join_of_some hrecorded call)

/-- The failure of the thread will be the answer, if the execution that started it is that of a call
whose other threads have ended. -/
theorem BreaksOff.inevitable_answer {y : Execution} {e : Failure} {threads : Array Thread}
    {s : Shared} {m : Machine} (h : BreaksOff y e threads s m) (hthread : y.thread = none)
    (hended : ∀ r ∈ threads.toList, r.call = y.call → r.outcome.hasEnded = true) :
    m.Inevitable (Answers y.call (.error e)) := by
  obtain ⟨⟨e', htasks, -⟩, hfailure, isClaimed, hshared⟩ := h
  obtain ⟨s₀, tasks, calls⟩ := m
  obtain rfl : tasks = [.failing none y.call e'] := hthread ▸ htasks
  refine inevitable_of_failing_entry hfailure ?_ e' calls
  obtain rfl : s₀ = _ := hshared
  have hpush : (threads.push ⟨y.call, .finished (.error e), isClaimed⟩).toList.all
      (fun r => r.call != y.call || r.outcome.hasEnded) = true := by
    rw [Array.toList_push, List.all_append, Bool.and_eq_true, List.all_eq_true]
    refine ⟨fun r hr => ?_, by simp [Outcome.hasEnded]⟩
    by_cases hcall : r.call = y.call
    · rw [hended r hr hcall, Bool.or_true]
    · rw [bne_iff_ne.mpr hcall, Bool.true_or]
  exact hpush

/-- The execution has not got past the code that starts a thread and waits for it. -/
inductive Pends (y : Execution) (name : String) (v : Value) (threads : Array Thread) :
    Machine → Prop
  | begins (s : Shared) (calls : Nat) : Pends y name v threads ⟨s, [.running (y.push v)], calls⟩
  | named (s : Shared) (calls : Nat) :
    Pends y name v threads ⟨s, [.running (((y.past 1).push v).push (.str name))], calls⟩
  | started {x : Execution} {s : Shared} {m : Machine}
    (hthread : x.thread = some (threadId threads.size))
    (h : Beside y threads s .running [.running x] m) : Pends y name v threads m

section

variable {p : Program} {f : Function} {x y : Execution} {s : Shared} {threads : Array Thread}
  {m : Machine} {name : String} {v : Value} {r : Routine}

/-- A thread that goes on and on keeps the execution that started it waiting. -/
theorem Beside.pends_follow (hp : p.WellCalled) (hfree : p.Threadless f)
    (h : Beside y threads s .running [.running x] m)
    (hwait : (y.past 2).instr? = some (.plain .wait))
    (hroom : firstThread + threads.size < Nat.pow 2 63) (halone : p.Alone f x) (hs : p.ReadyIn s)
    (hthread : x.thread = some (threadId threads.size)) (hlasts : ∀ n, x.Lasts 0 n s)
    (order : List Nat) : Pends y name v threads (m.follow order) := by
  induction order generalizing m s x with
  | nil => exact .started hthread h
  | cons position order ih =>
    obtain ⟨s', z, hstep, hz, hzthread, hzlasts⟩ := halone.exists_step_of_lasts hp hs hlasts
    rcases h.advance hwait hroom hs.running (fun i hi => halone.threadless hfree hi) hstep
      position with hgoes | hstays
    · exact ih hgoes hz (hs.step hstep) (hzthread.trans hthread) hzlasts
    · exact ih hstays halone hs hthread hlasts

/-- A call that goes on and on in a thread keeps the execution that started it waiting. -/
theorem pends_of_lasts (hp : p.WellCalled) (hfree : p.Threadless f)
    (hy : y.Faces (detachedCode name)) (hs : p.ReadyIn s) (hfind : s.find? name = some r)
    (hroom : firstThread + s.threads.size < Nat.pow 2 63)
    (halone : p.Alone f ⟨some (threadId s.threads.size), y.call, [v], [{ routine := r }]⟩)
    (hlasts : ∀ n, Execution.Lasts 0 n s
      ⟨some (threadId s.threads.size), y.call, [v], [{ routine := r }]⟩)
    (calls : Nat) (order : List Nat) :
    Pends y name v s.threads (follow ⟨s, [.running (y.push v)], calls⟩ order) := by
  obtain ⟨hpush, hthread, hwait, -⟩ := hy
  refine follow_sole (.begins s calls) (fun order => ?_) order
  rw [Beside.advance_begins hpush hs.running]
  refine follow_sole (.named s calls) (fun order => ?_) order
  exact (Beside.of_named hthread hs.running hfind hroom calls).pends_follow hp hfree hwait hroom
    halone hs rfl hlasts order

end

end Machine

end Opstack
