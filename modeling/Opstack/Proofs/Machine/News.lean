import Opstack.Proofs.Machine.Placement

/-!
# News of threads

What a session makes of threads is told as `News`: a thread begins, its result is asked for, it
ends, and its result is handed on.  Whatever news a turn brings is read off what happens to the
executions (`Task.news?`), not off the table of threads.  `Task.turn_of_wait`, `Task.turn_of_thread`
and `Task.turn_of_end` say what executions at `WAIT`, at `THREAD` and at their end do, and which
news that is.

`Task.Reports` lists, once for all, which news there can be, what is behind it in the table of
threads, and who waits afterwards; `Task.reports_turn` is the proof that the list is complete.
-/

set_option autoImplicit false

namespace Opstack

/-- An execution is known by its thread, if it is that of one, and by its call. -/
abbrev Owner := Option ThreadId × Nat

/-- Something that happens to a thread. -/
inductive News
  /-- `THREAD` pushes a value, and an execution begins beside the one that goes on. -/
  | starts (number : Value) (thread : Option ThreadId)
  /-- An execution asks for the result of a thread with `WAIT`, and fails if it is refused. -/
  | asks (owner : Owner) (thread : ThreadId) (refusal : Option Fault)
  /-- The execution of a thread ends. -/
  | ends (thread : ThreadId) (outcome : Outcome)
  /-- An execution that waits for a thread goes on with a value, or fails. -/
  | tells (owner : Owner) (thread : ThreadId) (result : Except Failure Value)

namespace Execution

/-- The execution is known by its thread and its call. -/
def owner (x : Execution) : Owner := (x.thread, x.call)

/-- The number of the thread that the execution is about to wait for. -/
def awaited? (x : Execution) : Option ThreadId :=
  match x.instr?, x.operands with
  | some i, .int thread :: _ => if i.op = .wait then some thread else none
  | _, _ => none

/-- What becomes of an execution that has asked for a thread: it waits for it, unless it has been
refused. -/
def afterAsking (x : Execution) (thread : ThreadId) (site : Site) : Option Fault → Task
  | none => .waiting x thread site
  | some fault => .failing x.thread x.call (.raised fault site x.thread)

/-- What becomes of an execution that hears what a thread has ended with: it goes on with the value,
or it fails. -/
def afterHearing (x : Execution) : Except Failure Value → Task
  | .ok v => .running (x.push v)
  | .error e => .failing x.thread x.call e

end Execution

/-- The news that a step of an execution brings. -/
def Turn.news? (s : Shared) (x : Execution) : Turn → Option News
  | .continues _ => none
  | .spawns y child => some (.starts (y.operands.headD .null) child.thread)
  | .waits _ _ _ => x.awaited?.map fun thread => .asks x.owner thread none
  | .returns v => x.thread.map fun thread => .ends thread (.finished (.ok v))
  | .fails e =>
    if s.isHalted then none
    else x.awaited?.map fun thread => .asks x.owner thread (some e.fault)
  | .crashes => x.thread.map fun thread => .ends thread .crashed

namespace Task

/-- The news that a turn of a task brings. -/
def news? (s : Shared) : Task → Option News
  | .running x => (step s x).2.news? s x
  | .waiting x thread site =>
    match resume x thread site (s.outcomeOf thread) with
    | .running y => some (.tells x.owner thread (.ok (y.operands.headD .null)))
    | .failing _ _ e => some (.tells x.owner thread (.error e))
    | _ => none
  | .failing (some thread) _ e => some (.ends thread (.finished (.error e)))
  | _ => none

/-- The execution that waits for a thread with the task. -/
def waiter? (thread : ThreadId) : Task → Option Owner
  | .waiting x other _ => if other = thread then some x.owner else none
  | _ => none

/-- The executions that wait for a thread. -/
def waiters (thread : ThreadId) (tasks : List Task) : List Owner :=
  tasks.filterMap (waiter? thread)

end Task

/-! ## The instructions about threads -/

/-- Why an execution that asks for the thread is refused, if it is. -/
def Shared.refusal? (s : Shared) (thread : ThreadId) : Option Fault :=
  match s.thread? thread with
  | none => some (.unknownThread thread)
  | some r => if r.isClaimed then some (.alreadyJoined thread) else none

section

variable {s : Shared} {x y : Execution} {i : Instr} {thread : ThreadId} {fault : Fault}

/-- Who asks for a thread is refused if there is no such thread or it has been asked for. -/
theorem Shared.refusal?_cases (s : Shared) (thread : ThreadId) :
    (s.thread? thread = none ∧ s.refusal? thread = some (.unknownThread thread)) ∨
    (∃ r, s.thread? thread = some r ∧ r.isClaimed = true ∧
      s.refusal? thread = some (.alreadyJoined thread)) ∨
    ∃ r, s.thread? thread = some r ∧ r.isClaimed = false ∧ s.refusal? thread = none := by
  rw [refusal?]
  cases s.thread? thread with
  | none => exact .inl ⟨rfl, rfl⟩
  | some r =>
    cases hclaimed : r.isClaimed with
    | true => exact .inr (.inl ⟨r, rfl, hclaimed, if_pos hclaimed⟩)
    | false => exact .inr (.inr ⟨r, rfl, hclaimed, if_neg (ne_true_of_eq_false hclaimed)⟩)

theorem Shared.refusal?_eq_none :
    s.refusal? thread = none ↔ ∃ r, s.thread? thread = some r ∧ r.isClaimed = false := by
  rcases s.refusal?_cases thread with ⟨hr, h⟩ | ⟨r, hr, hclaimed, h⟩ | ⟨r, hr, hclaimed, h⟩
  · simp [h, hr]
  · simp [h, hr, hclaimed]
  · simp [h, hr, hclaimed]

theorem Shared.claim_of_accepted (h : s.refusal? thread = none) :
    s.claim thread = (.ok (), s.withClaim thread) := by
  obtain ⟨r, hr, hclaimed⟩ := refusal?_eq_none.mp h
  simp [claim, hr, hclaimed, withClaim]

theorem Shared.claim_of_refused (h : s.refusal? thread = some fault) :
    s.claim thread = (.error fault, s) := by
  rw [refusal?] at h
  rw [claim]
  cases hr : s.thread? thread with
  | none =>
    rw [hr] at h
    cases h
    rfl
  | some r =>
    rw [hr] at h
    dsimp only at h ⊢
    split at h
    · rename_i hclaimed
      cases h
      exact if_pos hclaimed
    · cases h

theorem claimThread_of_accepted (h : s.refusal? thread = none) (x : Execution) :
    claimThread s (x.push (.int thread)) = (s.withClaim thread, .wait x thread) := by
  dsimp only [claimThread, Execution.push, Execution.pop, bind, Except.bind, Value.asNumber, pure,
    Except.pure]
  rw [Shared.claim_of_accepted h]

theorem claimThread_of_refused (h : s.refusal? thread = some fault) (x : Execution) :
    claimThread s (x.push (.int thread)) = (s, .fault fault) := by
  dsimp only [claimThread, Execution.push, Execution.pop, bind, Except.bind, Value.asNumber, pure,
    Except.pure]
  rw [Shared.claim_of_refused h]

/-- A `WAIT` that is not refused waits for the thread. -/
theorem step_wait_of_accepted (hi : x.instr? = some i) (hop : i.op = .wait)
    (hrun : s.isHalted = false) (h : s.refusal? thread = none) :
    step s (x.push (.int thread)) =
      (s.withClaim thread, .waits x.passed thread (x.siteOf i)) := by
  have hperform : perform s (x.passed.push (.int thread)) i =
      (s.withClaim thread, .wait x.passed thread) := by
    rw [perform, hop]
    exact claimThread_of_accepted h x.passed
  rw [step_of_instr? (x := x.push (.int thread)) hi hrun, Execution.passed_push, hperform]
  rfl

/-- A `WAIT` that is refused fails with the reason. -/
theorem step_wait_of_refused (hi : x.instr? = some i) (hop : i.op = .wait)
    (hrun : s.isHalted = false) (h : s.refusal? thread = some fault) :
    step s (x.push (.int thread)) = (s, .fails (.raised fault (x.siteOf i) x.thread)) := by
  have hperform : perform s (x.passed.push (.int thread)) i = (s, .fault fault) := by
    rw [perform, hop]
    exact claimThread_of_refused h x.passed
  rw [step_of_instr? (x := x.push (.int thread)) hi hrun, Execution.passed_push, hperform]
  rfl

/-- A `THREAD` lets the execution of the routine begin beside the one that goes on. -/
theorem step_thread {v : Value} {name : String} {r : Routine} (hi : x.instr? = some i)
    (hop : i.op = .thread) (hrun : s.isHalted = false) (hfind : s.find? name = some r)
    (hroom : firstThread + s.threads.size < Nat.pow 2 63) :
    step s ((x.push v).push (.str name)) = (s.withThread x.call,
      .spawns (x.passed.push (.int (threadId s.threads.size)))
        ⟨some (threadId s.threads.size), x.call, [v], [{ routine := r }]⟩) := by
  have hspawn : s.spawn x.passed.call =
      (.ok (threadId s.threads.size), s.withThread x.passed.call) := if_pos hroom
  have hperform : perform s ((x.passed.push v).push (.str name)) i =
      (s.withThread x.passed.call, .spawn (x.passed.push (.int (threadId s.threads.size)))
        ⟨some (threadId s.threads.size), x.passed.call, [v], [{ routine := r }]⟩) := by
    simp only [perform, hop, spawnThread, Execution.push, Execution.pop, bind, Except.bind,
      Value.asText, hfind, pure, Except.pure, hspawn]
  rw [step_of_instr? (x := (x.push v).push (.str name)) hi hrun, Execution.passed_push,
    Execution.passed_push, hperform, x.owner_passed.2]
  rfl

theorem awaited?_push (hi : x.instr? = some i) (hop : i.op = .wait) (thread : ThreadId) :
    (x.push (.int thread)).awaited? = some thread := by
  rw [Execution.awaited?, show (x.push (.int thread)).instr? = some i from hi]
  exact if_pos hop

theorem exists_of_awaited? (h : x.awaited? = some thread) :
    ∃ (i : Instr) (y : Execution), y.instr? = some i ∧ i.op = .wait ∧
      x = y.push (.int thread) := by
  rw [Execution.awaited?] at h
  split at h
  · rename_i i other rest hi hoperands
    split at h
    · rename_i hop
      cases h
      exact ⟨i, { x with operands := rest }, hi, hop, by rw [Execution.push, ← hoperands]⟩
    · cases h
  · cases h

/-- An execution asks for a thread only with its number. -/
theorem operands_of_wait (h : (claimThread s x).2 = .wait y thread) :
    ∃ rest, x.operands = .int thread :: rest := by
  obtain ⟨owner, call, operands, frames⟩ := x
  cases operands with
  | nil => cases h
  | cons v rest =>
    cases v with
    | int other =>
      refine ⟨rest, ?_⟩
      cases hrefusal : s.refusal? other with
      | none =>
        have hclaim := claimThread_of_accepted hrefusal ⟨owner, call, rest, frames⟩
        rw [Execution.push] at hclaim
        rw [hclaim] at h
        cases h
        rfl
      | some fault =>
        have hclaim := claimThread_of_refused hrefusal ⟨owner, call, rest, frames⟩
        rw [Execution.push] at hclaim
        rw [hclaim] at h
        cases h
    | _ => cases h

/-- An execution that comes to wait has asked for the thread. -/
theorem awaited?_of_waits {site : Site} (h : (step s x).2 = .waits y thread site) :
    x.awaited? = some thread := by
  obtain ⟨i, hi, -, heffect⟩ := perform_of_waits h
  have hop := op_of_wait heffect
  rw [perform, hop] at heffect
  obtain ⟨rest, hoperands⟩ := operands_of_wait heffect
  rw [Execution.awaited?, hi, ← x.operands_passed, hoperands]
  exact if_pos hop

/-- Who comes to wait has not been refused. -/
theorem refusal?_of_waits {site : Site} (h : (step s x).2 = .waits y thread site)
    (hrun : s.isHalted = false) : s.refusal? thread = none := by
  obtain ⟨i, z, hi, hop, rfl⟩ := exists_of_awaited? (awaited?_of_waits h)
  cases hrefusal : s.refusal? thread with
  | none => rfl
  | some fault =>
    rw [step_wait_of_refused hi hop hrun hrefusal] at h
    cases h

/-- Who asks for a thread and fails has been refused. -/
theorem refusal?_of_fails {e : Failure} (h : (step s x).2 = .fails e) (hrun : s.isHalted = false)
    (hawaited : x.awaited? = some thread) : s.refusal? thread = some e.fault := by
  obtain ⟨i, y, hi, hop, rfl⟩ := exists_of_awaited? hawaited
  cases hrefusal : s.refusal? thread with
  | none =>
    rw [step_wait_of_accepted hi hop hrun hrefusal] at h
    cases h
  | some fault =>
    rw [step_wait_of_refused hi hop hrun hrefusal] at h
    cases h
    rfl

/-- The number that `THREAD` pushes is that of the new thread. -/
theorem operands_of_spawn {child : Execution} (h : (spawnThread s x).2 = .spawn y child) :
    y.operands.headD .null = .int (threadId s.threads.size) := by
  rw [spawnThread] at h
  dsimp only at h
  split at h
  · cases h
  · split at h
    · cases h
    · rename_i hspawn
      cases h
      rw [Shared.spawn] at hspawn
      split at hspawn
      · cases hspawn
        rfl
      · cases hspawn

theorem operands_of_spawns {child : Execution} (h : (step s x).2 = .spawns y child) :
    y.operands.headD .null = .int (threadId s.threads.size) := by
  obtain ⟨i, -, heffect⟩ := perform_of_spawns h
  have hop := op_of_spawn heffect
  rw [perform, hop] at heffect
  exact operands_of_spawn heffect

end

/-! ## One turn -/

/-- What an execution that waits for a thread is told: what the thread has ended with, and if it has
ended without a result, that it has. -/
inductive Outcome.Tells (owner : Owner) (thread : ThreadId) : Outcome → Except Failure Value → Prop
  | finished {result : Except Failure Value} : Tells owner thread (.finished result) result
  | crashed {site : Site} :
    Tells owner thread .crashed (.error (.raised (.threadCrashed thread) site owner.1))

theorem Outcome.Tells.hasEnded {owner : Owner} {thread : ThreadId} {outcome : Outcome}
    {result : Except Failure Value} (h : outcome.Tells owner thread result) :
    outcome.hasEnded = true := by
  cases h <;> rfl

namespace Task

section

variable {s : Shared} {x : Execution} {i : Instr}

/-- **A turn at `WAIT`** asks for the thread whose number is on top, and the execution waits for it
or fails. -/
theorem turn_of_wait (hi : x.instr? = some i) (hop : i.op = .wait) (hrun : s.isHalted = false)
    (thread : ThreadId) :
    (running (x.push (.int thread))).news? s =
      some (.asks x.owner thread (s.refusal? thread)) ∧
    ((running (x.push (.int thread))).turn s).2 =
      [x.passed.afterAsking thread (x.siteOf i) (s.refusal? thread)] := by
  have hawaited := awaited?_push hi hop thread
  cases hrefusal : s.refusal? thread with
  | none =>
    have hstep := step_wait_of_accepted hi hop hrun hrefusal
    rw [news?, turn_of_waits hstep, hstep, Turn.news?, hawaited]
    exact ⟨rfl, rfl⟩
  | some fault =>
    have hstep := step_wait_of_refused hi hop hrun hrefusal
    obtain ⟨hthread, hcall⟩ := x.owner_passed
    rw [news?, turn_of_fails hstep, hstep, Turn.news?, if_neg (ne_true_of_eq_false hrun), hawaited,
      Execution.afterAsking, hthread, hcall]
    exact ⟨rfl, rfl⟩

/-- **A turn at `THREAD`** starts a thread under the next number, which the execution pushes. -/
theorem turn_of_thread {v : Value} {name : String} {r : Routine} (hi : x.instr? = some i)
    (hop : i.op = .thread) (hrun : s.isHalted = false) (hfind : s.find? name = some r)
    (hroom : firstThread + s.threads.size < Nat.pow 2 63) :
    (running ((x.push v).push (.str name))).news? s =
      some (.starts (.int (threadId s.threads.size)) (some (threadId s.threads.size))) ∧
    ((running ((x.push v).push (.str name))).turn s).2 =
      [.running ⟨some (threadId s.threads.size), x.call, [v], [{ routine := r }]⟩,
        .running (x.passed.push (.int (threadId s.threads.size)))] := by
  have hstep := step_thread (v := v) hi hop hrun hfind hroom
  rw [news?, turn_of_spawns hstep, hstep]
  exact ⟨rfl, rfl⟩

/-- **The execution of a thread that has come to its end** ends it with the topmost operand. -/
theorem turn_of_end {thread : ThreadId} (hi : x.instr? = none) (hthread : x.thread = some thread) :
    (running x).news? s = some (.ends thread (.finished (.ok (x.operands.headD .null)))) ∧
      ((running x).turn s).2 = [] := by
  rw [news?, turn, step_of_instr?_eq_none hi, Turn.news?, hthread]
  exact ⟨rfl, rfl⟩

end

/-- The news that a turn can bring, what becomes of the table of threads, and who waits after it. -/
inductive Reports (s : Shared) : Task → Shared → List Task → Option News → Prop
  | silent {t : Task} {s' : Shared} {tasks : List Task} (hthreads : s'.threads = s.threads)
    (hwaiters : ∀ thread, waiters thread tasks = waiters thread [t]) : Reports s t s' tasks none
  | starts {x y child : Execution} (hroom : firstThread + s.threads.size < Nat.pow 2 63) :
    Reports s (.running x) (s.withThread x.call) [.running child, .running y]
      (some (.starts (.int (threadId s.threads.size)) (some (threadId s.threads.size))))
  | unknown {x : Execution} {s' : Shared} {thread : ThreadId} {e : Failure}
    (hthreads : s'.threads = s.threads) (hnone : s.thread? thread = none) :
    Reports s (.running x) s' [.failing x.thread x.call e]
      (some (.asks x.owner thread (some (.unknownThread thread))))
  | joined {x : Execution} {s' : Shared} {thread : ThreadId} {e : Failure} {r : Thread}
    (hthreads : s'.threads = s.threads) (hr : s.thread? thread = some r)
    (hclaimed : r.isClaimed = true) :
    Reports s (.running x) s' [.failing x.thread x.call e]
      (some (.asks x.owner thread (some (.alreadyJoined thread))))
  | accepted {x y : Execution} {thread : ThreadId} {site : Site} {r : Thread}
    (hr : s.thread? thread = some r) (hclaimed : r.isClaimed = false) (howner : y.owner = x.owner) :
    Reports s (.running x) (s.withClaim thread) [.waiting y thread site]
      (some (.asks x.owner thread none))
  | ends {t : Task} {s₀ : Shared} {thread : ThreadId} {outcome : Outcome}
    (hthread : t.thread = some thread) (hended : outcome.hasEnded = true)
    (hthreads : s₀.threads = s.threads) (hwaiters : ∀ other, waiters other [t] = []) :
    Reports s t (s₀.deliver thread outcome) [] (some (.ends thread outcome))
  | tells {x : Execution} {thread : ThreadId} {site : Site} {r : Thread} {u : Task}
    {result : Except Failure Value} (hr : s.thread? thread = some r)
    (htells : r.outcome.Tells x.owner thread result) (hwaiters : ∀ other, waiters other [u] = []) :
    Reports s (.waiting x thread site) s [u] (some (.tells x.owner thread result))

theorem reports_running (s : Shared) (x : Execution) :
    (running x).Reports s ((running x).turn s).1 ((running x).turn s).2
      ((step s x).2.news? s x) := by
  have hsteps := steps_step s x
  have hspawns : ∀ y child, (step s x).2 = .spawns y child →
      y.operands.headD .null = .int (threadId s.threads.size) :=
    fun _ _ => operands_of_spawns
  have hwaits : ∀ y thread site, (step s x).2 = .waits y thread site → s.isHalted = false →
      x.awaited? = some thread ∧ s.refusal? thread = none :=
    fun _ _ _ h hrun => ⟨awaited?_of_waits h, refusal?_of_waits h hrun⟩
  have hfails : ∀ e thread, (step s x).2 = .fails e → s.isHalted = false →
      x.awaited? = some thread → s.refusal? thread = some e.fault :=
    fun _ _ => refusal?_of_fails
  rw [turn]
  generalize step s x = p at hsteps hspawns hwaits hfails
  obtain ⟨s', turn⟩ := p
  cases hsteps with
  | continues _ hbooks _ => exact .silent hbooks.threads fun _ => rfl
  | @spawns y child _ hroom _ hthread _ =>
    rw [Turn.news?, hspawns y child rfl, hthread]
    exact .starts hroom
  | @waits y thread r site hrun hr howner _ =>
    obtain ⟨hawaited, haccepted⟩ := hwaits y thread site rfl hrun
    obtain ⟨r, hr, hclaimed⟩ := Shared.refusal?_eq_none.mp haccepted
    rw [Turn.news?, hawaited]
    exact .accepted hr hclaimed (owner_eq howner)
  | @returns v =>
    rw [Turn.news?]
    cases hthread : x.thread with
    | none => exact .silent rfl fun _ => rfl
    | some thread => exact .ends hthread rfl rfl fun _ => rfl
  | stops hhalted _ =>
    rw [Turn.news?, if_pos hhalted]
    exact .silent rfl fun _ => rfl
  | @raises s' site fault hrun hbooks _ _ =>
    rw [Turn.news?, if_neg (by rw [hrun]; exact Bool.false_ne_true)]
    cases hawaited : x.awaited? with
    | none => exact .silent hbooks.threads fun _ => rfl
    | some thread =>
      have hrefused : s.refusal? thread = some fault := hfails _ thread rfl hrun hawaited
      rcases s.refusal?_cases thread with ⟨hnone, h⟩ | ⟨r, hr, hclaimed, h⟩ | ⟨r, -, -, h⟩
      all_goals
        rw [h] at hrefused
        cases hrefused
      · exact .unknown hbooks.threads hnone
      · exact .joined hbooks.threads hr hclaimed
  | crashes _ =>
    rw [Turn.news?]
    cases hthread : x.thread with
    | none => exact .silent rfl fun _ => rfl
    | some thread => exact .ends hthread rfl rfl fun _ => rfl

/-- **An execution that waits for a thread that has ended** is told what it has ended with, and goes
on with the value or fails. -/
theorem tells_of_hasEnded {s : Shared} (hs : s.Placed) {thread : ThreadId} {r : Thread}
    (hr : s.thread? thread = some r) (hended : r.outcome.hasEnded = true) (x : Execution)
    (site : Site) : ∃ result, r.outcome.Tells x.owner thread result ∧
      (waiting x thread site).news? s = some (.tells x.owner thread result) ∧
      resume x thread site r.outcome = x.afterHearing result := by
  rw [news?, Shared.outcomeOf_eq hr]
  cases houtcome : r.outcome with
  | running =>
    rw [houtcome] at hended
    cases hended
  | finished result =>
    cases result with
    | ok v => exact ⟨_, .finished, rfl, rfl⟩
    | error e =>
      -- The failure of a thread has its place already.
      rw [resume, (hs thread r e hr houtcome).inThread_atSite]
      exact ⟨_, .finished, rfl, rfl⟩
  | crashed => exact ⟨_, .crashed, rfl, rfl⟩

theorem waiters_afterHearing (x : Execution) (result : Except Failure Value) (other : ThreadId) :
    waiters other [x.afterHearing result] = [] := by
  cases result <;> rfl

theorem reports_waiting {s : Shared} (hs : s.Placed) (x : Execution) (thread : ThreadId)
    (site : Site) : (waiting x thread site).Reports s s
      [resume x thread site (s.outcomeOf thread)] ((waiting x thread site).news? s) := by
  cases hended : (s.outcomeOf thread).hasEnded with
  | false =>
    have hrunning : s.outcomeOf thread = .running := by
      generalize s.outcomeOf thread = outcome at hended
      cases outcome with
      | running => rfl
      | _ => cases hended
    rw [news?, hrunning]
    exact .silent rfl fun _ => rfl
  | true =>
    cases hr : s.thread? thread with
    | none =>
      rw [Shared.outcomeOf, hr] at hended
      cases hended
    | some r =>
      rw [Shared.outcomeOf_eq hr] at hended ⊢
      obtain ⟨result, htells, hnews, hresume⟩ := tells_of_hasEnded hs hr hended x site
      rw [hnews, hresume]
      exact .tells hr htells (waiters_afterHearing x result)

/-- **A turn brings the news that is listed and no other.** -/
theorem reports_turn {s : Shared} (hs : s.Placed) (t : Task) :
    t.Reports s (t.turn s).1 (t.turn s).2 (t.news? s) := by
  cases t with
  | running x => exact reports_running s x
  | waiting x thread site => exact reports_waiting hs x thread site
  | failing thread call e =>
    cases thread with
    | none => exact .silent rfl fun _ => rfl
    | some thread =>
      have hthreads : (s.fail e).threads = s.threads := rfl
      exact .ends rfl rfl hthreads fun _ => rfl
  | joining call result =>
    rw [turn]
    split
    · exact .silent (threads_join s call) fun _ => rfl
    · exact .silent rfl fun _ => rfl
  | closing call result => exact .silent rfl fun _ => rfl
  | answered call result => exact .silent rfl fun _ => rfl

end Task
end Opstack
