import Opstack.Proofs.Machine.Run
import Opstack.Proofs.Machine.Threads

/-!
# What a turn can do

Executions work on one another through a few things that they share: the table of threads, the
recorded failure, and the halt.  `Task.Turns` lists, once for all, what a turn of a task can do to
these and which tasks take its place; everything that holds of whole calls is read off this list.

A turn can also be an `Incident`, something that has a say in the answer of a call: an execution
fails by itself, or stops because the machine has been halted, or is handed the failure of a thread
that it waits for.  The place at which an execution fails is the instruction that it is at, or,
if it waits, the `WAIT` that it has just moved past (`Execution.site?`, `Execution.lastSite?`).
-/

set_option autoImplicit false

namespace Opstack

/-! ## Places of instructions -/

namespace Frame

/-- The place of an instruction of the activation. -/
def site? (f : Frame) (index : Nat) : Option Site :=
  (f.routine.get? index).map fun i => ⟨f.routine.name, index, i.text⟩

end Frame

namespace Execution

/-- The place of the instruction that the execution is at. -/
def site? (x : Execution) : Option Site :=
  match x.frames with
  | f :: _ => f.site? f.pc
  | [] => none

/-- The place of the instruction that the execution has just moved past. -/
def lastSite? (x : Execution) : Option Site :=
  match x.frames with
  | f :: _ => f.site? (f.pc - 1)
  | [] => none

theorem site?_eq {x : Execution} {i : Instr} (hi : x.instr? = some i) :
    x.site? = some (x.siteOf i) := by
  obtain ⟨f, fs, hframes, hget⟩ := instr?_eq_some hi
  rw [siteOf_eq hframes, site?, hframes]
  dsimp only
  rw [Frame.site?, hget]
  rfl

/-- Both executions are the same thread of the same call. -/
def SameOwner (x y : Execution) : Prop := y.thread = x.thread ∧ y.call = x.call

end Execution

/-! ## The books -/

namespace Shared

/-- The table of threads, the recorded failure and the halt are the same. -/
structure SameBooks (s s' : Shared) : Prop where
  /-- The threads are the same. -/
  threads : s'.threads = s.threads
  /-- The recorded failure is the same. -/
  failure : s'.failure = s.failure
  /-- The machine is halted or not as before. -/
  isHalted : s'.isHalted = s.isHalted

theorem SameBooks.refl (s : Shared) : s.SameBooks s := ⟨rfl, rfl, rfl⟩

/-- The shared state with a new thread of a call. -/
def withThread (s : Shared) (call : Nat) : Shared :=
  { s with threads := s.threads.push { call } }

/-- The shared state once the result of a thread has been asked for. -/
def withClaim (s : Shared) (thread : ThreadId) : Shared :=
  s.modifyThread thread fun t => { t with isClaimed := true }

end Shared

/-- What an instruction can do to the books. -/
inductive Effect.Books (s : Shared) (x : Execution) : Shared → Effect → Prop
  | next {s' : Shared} {y : Execution} (h : s.SameBooks s') : Books s x s' (.next y)
  | fault {s' : Shared} {e : Fault} (h : s.SameBooks s') : Books s x s' (.fault e)
  | spawn {y child : Execution} (hroom : firstThread + s.threads.size < Nat.pow 2 63)
      (hthread : child.thread = some (threadId s.threads.size)) (hcall : child.call = x.call) :
      Books s x (s.withThread x.call) (.spawn y child)
  | wait {y : Execution} {thread : ThreadId} {r : Thread} (hr : s.thread? thread = some r)
      (hframes : y.frames = x.frames) : Books s x (s.withClaim thread) (.wait y thread)
  | crash : Books s x s .crash

theorem Effect.books_ofExcept {s s' : Shared} (h : s.SameBooks s') (x : Execution)
    (r : Except Fault Execution) : Books s x s' (.ofExcept r) := by
  cases r with
  | ok y => exact .next h
  | error e => exact .fault h

theorem onHeap_books (s : Shared) (x : Execution) (f : Heap → Except Fault Execution × Heap) :
    Effect.Books s x (onHeap s f).1 (onHeap s f).2 := by
  have h : s.SameBooks (onHeap s f).1 := ⟨rfl, rfl, rfl⟩
  exact Effect.books_ofExcept h x (f s.heap).1

theorem onConsole_books (s : Shared) (x : Execution)
    (f : Console → Except Fault Execution × Console) :
    Effect.Books s x (onConsole s f).1 (onConsole s f).2 := by
  have h : s.SameBooks (onConsole s f).1 := ⟨rfl, rfl, rfl⟩
  exact Effect.books_ofExcept h x (f s.console).1

theorem spawnThread_books (s : Shared) (x : Execution) :
    Effect.Books s x (spawnThread s x).1 (spawnThread s x).2 := by
  obtain ⟨thread, call, operands, frames⟩ := x
  rw [spawnThread]
  dsimp only
  split
  · exact .fault (.refl s)
  · rename_i arg routine x hoperands
    have hcall : x.call = call := by
      rcases operands with _ | ⟨v, _ | ⟨w, rest⟩⟩
      · cases hoperands
      · simp only [Execution.pop, bind, Except.bind] at hoperands
        split at hoperands <;> cases hoperands
      · simp only [Execution.pop, bind, Except.bind, pure, Except.pure] at hoperands
        repeat' split at hoperands
        all_goals cases hoperands
        rfl
    rw [Shared.spawn]
    split
    · rename_i s' he
      split at he
      · cases he
      · cases he
        exact .fault (.refl s)
    · rename_i t s' he
      split at he
      · rename_i hroom
        cases he
        rw [hcall]
        exact .spawn hroom rfl rfl
      · cases he

theorem claimThread_books (s : Shared) (x : Execution) :
    Effect.Books s x (claimThread s x).1 (claimThread s x).2 := by
  obtain ⟨thread, call, operands, frames⟩ := x
  rw [claimThread]
  dsimp only
  split
  · exact .fault (.refl s)
  · rename_i awaited x hoperands
    have hframes : x.frames = frames := by
      cases operands with
      | nil => cases hoperands
      | cons v rest =>
        simp only [Execution.pop, bind, Except.bind, pure, Except.pure] at hoperands
        split at hoperands
        · cases hoperands
        · cases hoperands
          rfl
    rw [Shared.claim]
    cases hr : s.thread? awaited with
    | none => exact .fault (.refl s)
    | some r =>
      dsimp only
      split
      · rename_i he
        split at he
        · cases he
          exact .fault (.refl s)
        · cases he
      · rename_i he
        split at he
        · cases he
        · cases he
          exact .wait hr hframes

/-- **Only `THREAD` and `WAIT` write in the books.** -/
theorem perform_books (s : Shared) (x : Execution) (i : Instr) :
    Effect.Books s x (perform s x i).1 (perform s x i).2 := by
  rw [perform]
  split
  case h_4 =>
    split
    · exact .crash
    · exact Effect.books_ofExcept (.refl s) x _
  case h_10 | h_23 => exact .next (.refl s)
  case h_20 => exact spawnThread_books s x
  case h_21 => exact claimThread_books s x
  case h_11 | h_12 => exact onConsole_books s x _
  case h_14 | h_15 | h_17 | h_18 => exact onHeap_books s x _
  all_goals exact Effect.books_ofExcept (.refl s) x _

/-! ## One step -/

/-- What one step of an execution can do to the books, and what it makes of the execution. -/
inductive Execution.Steps (s : Shared) (x : Execution) : Shared → Turn → Prop
  | continues {s' : Shared} {y : Execution} (hrun : s.isHalted = false) (hbooks : s.SameBooks s')
      (howner : x.SameOwner y) : Steps s x s' (.continues y)
  | spawns {y child : Execution} (hrun : s.isHalted = false)
      (hroom : firstThread + s.threads.size < Nat.pow 2 63) (howner : x.SameOwner y)
      (hthread : child.thread = some (threadId s.threads.size)) (hcall : child.call = x.call) :
      Steps s x (s.withThread x.call) (.spawns y child)
  | waits {y : Execution} {thread : ThreadId} {r : Thread} {site : Site}
      (hrun : s.isHalted = false) (hr : s.thread? thread = some r) (howner : x.SameOwner y)
      (hsite : y.lastSite? = some site) :
      Steps s x (s.withClaim thread) (.waits y thread site)
  | returns {v : Value} : Steps s x s (.returns v)
  | stops {site : Site} (hhalted : s.isHalted = true) (hsite : x.site? = some site) :
      Steps s x s (.fails (.raised .aborted site x.thread))
  | raises {s' : Shared} {site : Site} {fault : Fault} (hrun : s.isHalted = false)
      (hbooks : s.SameBooks s') (hsite : x.site? = some site) (hfault : fault ≠ .aborted) :
      Steps s x s' (.fails (.raised fault site x.thread))
  | crashes (hrun : s.isHalted = false) : Steps s x s .crashes

theorem steps_step (s : Shared) (x : Execution) : x.Steps s (step s x).1 (step s x).2 := by
  rcases step_cases s x with ⟨-, hstep⟩ | ⟨i, hi, hs, hstep⟩ | ⟨i, hi, hs, hstep⟩ <;> rw [hstep]
  · exact .returns
  · exact .stops hs (Execution.site?_eq hi)
  · obtain ⟨f, fs, hframes, -⟩ := Execution.instr?_eq_some hi
    have hsite := Execution.site?_eq hi
    have hbooks := perform_books s x.passed i
    have hfollows := perform_follows s i (Execution.frames_passed hframes)
    have howner : ∀ {y}, x.passed.SameOwner y → x.SameOwner y := fun h =>
      ⟨h.1.trans x.owner_passed.1, h.2.trans x.owner_passed.2⟩
    generalize perform s x.passed i = r at hbooks hfollows ⊢
    obtain ⟨s', effect⟩ := r
    cases hbooks with
    | next hbooks => exact .continues hs hbooks (howner hfollows.owner_eq)
    | fault hbooks => exact .raises hs hbooks hsite hfollows.aborted
    | spawn hroom hthread hcall =>
      rw [x.owner_passed.2] at hcall ⊢
      exact .spawns hs hroom (howner hfollows.1.owner_eq) hthread hcall
    | @wait y awaited r hr hpassed =>
      refine .waits hs hr (howner (hfollows .null).owner_eq) ?_
      rw [Execution.frames_passed hframes] at hpassed
      rw [Execution.site?, hframes] at hsite
      rw [Execution.lastSite?, hpassed]
      exact hsite
    | crash => exact .crashes hs

/-! ## Incidents -/

/-- Something that has a say in the answer of a call. -/
inductive Incident
  /-- An execution fails by itself, at an instruction. -/
  | raises (thread : Option ThreadId) (site : Site) (fault : Fault)
  /-- An execution stops because the machine has been halted. -/
  | stops (thread : Option ThreadId)
  /-- A failure of a thread, which was started in some call, is passed on to an execution that waits
  for it. -/
  | passes (thread : ThreadId) (call : Nat) (e : Failure)
  /-- An execution ends without a result. -/
  | breaks (thread : Option ThreadId)
  /-- The routine that is called does not exist. -/
  | misses (name : String)
  /-- The output cannot be flushed at the end of the call. -/
  | refuses (reason : String)
deriving DecidableEq

namespace Incident

/-- The failure that arises with the incident, if one does. -/
def own? : Incident → Option Failure
  | .raises thread site fault => some (.raised fault site thread)
  | .misses name => some { fault := .unknownRoutine name }
  | _ => none

end Incident

/-- What an execution that waits is handed by a thread is an incident if it is not a value. -/
def Execution.incident? (x : Execution) (thread : ThreadId) (t : Thread) : Option Incident :=
  match t.outcome with
  | .finished (.error e) => some (.passes thread t.call e)
  | .crashed => x.lastSite?.map fun site => .raises x.thread site (.threadCrashed thread)
  | _ => none

/-- What happens to an execution with a step is an incident if it fails or crashes. -/
def Turn.incident? (s : Shared) (x : Execution) : Turn → Option Incident
  | .fails e =>
    if s.isHalted then some (.stops x.thread)
    else x.site?.map fun site => .raises x.thread site e.fault
  | .crashes => some (.breaks x.thread)
  | _ => none

namespace Task

/-- The incident in the turn of a task, if there is one. -/
def incident? (s : Shared) : Task → Option Incident
  | .running x => (step s x).2.incident? s x
  | .waiting x t _ => (s.thread? t).bind (x.incident? t)
  | .joining call _ =>
    if s.hasJoined call then
      (s.console.flushLimit s.console.flushes).map .refuses
    else none
  | _ => none

/-! ## One turn -/

/-- What a turn of a task can do to the books, which tasks take its place, and the incident in it,
if there is one. -/
inductive Turns (s : Shared) : Task → Shared → List Task → Option Incident → Prop
  | runs {s' : Shared} {x y : Execution} (hrun : s.isHalted = false) (hbooks : s.SameBooks s')
      (howner : x.SameOwner y) : Turns s (.running x) s' [.running y] none
  | spawns {x y child : Execution} (hrun : s.isHalted = false)
      (hroom : firstThread + s.threads.size < Nat.pow 2 63) (howner : x.SameOwner y)
      (hthread : child.thread = some (threadId s.threads.size)) (hcall : child.call = x.call) :
      Turns s (.running x) (s.withThread x.call) [.running child, .running y] none
  | asks {x y : Execution} {thread : ThreadId} {r : Thread} {site : Site}
      (hrun : s.isHalted = false) (hr : s.thread? thread = some r) (howner : x.SameOwner y)
      (hsite : y.lastSite? = some site) :
      Turns s (.running x) (s.withClaim thread) [.waiting y thread site] none
  | delivers {x : Execution} {thread : ThreadId} {v : Value} (hthread : x.thread = some thread) :
      Turns s (.running x) (s.deliver thread (.finished (.ok v))) [] none
  | returns {x : Execution} {v : Value} (hthread : x.thread = none) :
      Turns s (.running x) s [.joining x.call (.ok v)] none
  | stops {x : Execution} {site : Site} (hhalted : s.isHalted = true)
      (hsite : x.site? = some site) :
      Turns s (.running x) s [.failing x.thread x.call (.raised .aborted site x.thread)]
        (some (.stops x.thread))
  | raises {s' : Shared} {x : Execution} {site : Site} {fault : Fault}
      (hrun : s.isHalted = false) (hbooks : s.SameBooks s') (hsite : x.site? = some site)
      (hfault : fault ≠ .aborted) :
      Turns s (.running x) s' [.failing x.thread x.call (.raised fault site x.thread)]
        (some (.raises x.thread site fault))
  | breaks {x : Execution} {thread : ThreadId} (hrun : s.isHalted = false)
      (hthread : x.thread = some thread) :
      Turns s (.running x) (s.deliver thread .crashed) [] (some (.breaks (some thread)))
  | vanishes {x : Execution} (hrun : s.isHalted = false) (hthread : x.thread = none) :
      Turns s (.running x) s [] (some (.breaks none))
  | waits {x : Execution} {thread : ThreadId} {site : Site}
      (h : s.outcomeOf thread = .running) :
      Turns s (.waiting x thread site) s [.waiting x thread site] none
  | wakes {x : Execution} {thread : ThreadId} {site : Site} {r : Thread} {v : Value}
      (hr : s.thread? thread = some r) (hv : r.outcome = .finished (.ok v)) :
      Turns s (.waiting x thread site) s [.running (x.push v)] none
  | passes {x : Execution} {thread : ThreadId} {site : Site} {r : Thread} {e : Failure}
      (hr : s.thread? thread = some r) (he : r.outcome = .finished (.error e)) :
      Turns s (.waiting x thread site) s
        [.failing x.thread x.call ((e.atSite site).inThread x.thread)]
        (some (.passes thread r.call e))
  | misses {x : Execution} {thread : ThreadId} {site : Site} {r : Thread}
      (hr : s.thread? thread = some r) (hcrashed : r.outcome = .crashed) :
      Turns s (.waiting x thread site) s
        [.failing x.thread x.call (.raised (.threadCrashed thread) site x.thread)]
        (x.lastSite?.map fun site => .raises x.thread site (.threadCrashed thread))
  | records {thread : ThreadId} {call : Nat} {e : Failure} :
      Turns s (.failing (some thread) call e) ((s.fail e).deliver thread (.finished (.error e)))
        [] none
  | admits {call : Nat} {e : Failure} :
      Turns s (.failing none call e) (s.fail e) [.joining call (.error e)] none
  | joins {call : Nat} {result : Except Failure Value} (h : s.hasJoined call = true) :
      Turns s (.joining call result) (join s call) [.closing call result]
        ((s.console.flushLimit s.console.flushes).map .refuses)
  | pauses {call : Nat} {result : Except Failure Value} (h : s.hasJoined call = false) :
      Turns s (.joining call result) s [.joining call result] none
  | closes {call : Nat} {result : Except Failure Value} :
      Turns s (.closing call result) s.takeFailure.2 [.answered call (answer s.failure result)]
        none
  | rests {call : Nat} {result : Except Failure Value} :
      Turns s (.answered call result) s [.answered call result] none

/-- **A turn does what is listed and nothing else.** -/
theorem turns_turn (s : Shared) (t : Task) :
    t.Turns s (t.turn s).1 (t.turn s).2 (t.incident? s) := by
  cases t with
  | running x =>
    have hsteps := steps_step s x
    rw [turn, incident?]
    generalize step s x = r at hsteps
    obtain ⟨s', turn⟩ := r
    dsimp only at hsteps ⊢
    cases hsteps with
    | continues hrun hbooks howner => exact .runs hrun hbooks howner
    | spawns hrun hroom howner hthread hcall => exact .spawns hrun hroom howner hthread hcall
    | waits hrun hr howner hsite => exact .asks hrun hr howner hsite
    | returns =>
      cases hthread : x.thread with
      | none => exact .returns hthread
      | some thread => exact .delivers hthread
    | stops hhalted hsite =>
      simp only [Turn.incident?, hhalted, if_true]
      exact .stops hhalted hsite
    | raises hrun hbooks hsite hfault =>
      simp only [Turn.incident?, hrun, Bool.false_eq_true, if_false, hsite]
      exact .raises hrun hbooks hsite hfault
    | crashes hrun =>
      cases hthread : x.thread with
      | none =>
        simp only [Turn.incident?, hthread]
        exact .vanishes hrun hthread
      | some thread =>
        simp only [Turn.incident?, hthread]
        exact .breaks hrun hthread
  | waiting x thread site =>
    cases hr : s.thread? thread with
    | none =>
      have hrunning : s.outcomeOf thread = .running := by rw [Shared.outcomeOf, hr]
      rw [turn, incident?, hr, hrunning]
      exact .waits hrunning
    | some r =>
      rw [turn, incident?, hr, Shared.outcomeOf_eq hr, Option.bind_some, Execution.incident?]
      cases houtcome : r.outcome with
      | running => exact .waits ((Shared.outcomeOf_eq hr).trans houtcome)
      | finished result =>
        cases result with
        | ok v => exact .wakes hr houtcome
        | error e => exact .passes hr houtcome
      | crashed => exact .misses hr houtcome
  | failing thread call e =>
    cases thread with
    | none => exact .admits
    | some thread => exact .records
  | joining call result =>
    rw [turn, incident?]
    cases h : s.hasJoined call with
    | true => exact .joins h
    | false => exact .pauses h
  | closing call result => exact .closes
  | answered call result => exact .rests

end Task

/-! ## Machines -/

namespace Machine

/-- The incident when the task at a position takes a turn, if there is one. -/
def incidentAt? (m : Machine) (position : Nat) : Option Incident :=
  m.tasks[position]?.bind fun t => t.incident? m.shared

/-- The incidents when tasks take turns in a given order. -/
def incidents : Machine → List Nat → List Incident
  | _, [] => []
  | m, position :: order =>
    (m.incidentAt? position).toList ++ (m.advance position).incidents order

/-- An incident happens when some task takes its turn. -/
theorem exists_of_mem_incidents {m : Machine} {order : List Nat} {i : Incident}
    (h : i ∈ m.incidents order) :
    ∃ before position after t, order = before ++ position :: after ∧
      (m.follow before).tasks[position]? = some t ∧
      t.incident? (m.follow before).shared = some i := by
  induction order generalizing m with
  | nil => cases h
  | cons position order ih =>
    rw [incidents, List.mem_append] at h
    rcases h with h | h
    · obtain ⟨t, ht, hi⟩ := Option.bind_eq_some_iff.mp (Option.mem_toList.mp h)
      exact ⟨[], position, order, t, rfl, ht, hi⟩
    · obtain ⟨before, position', after, t, rfl, ht, hi⟩ := ih h
      exact ⟨position :: before, position', after, t, rfl, ht, hi⟩

/-- What can happen to a machine when the task at a position takes a turn. -/
inductive Advances (m : Machine) : Machine → Option Incident → Prop
  | idle : Advances m m none
  | turn {before after tasks : List Task} {t : Task} {s : Shared} {incident : Option Incident}
      (htasks : m.tasks = before ++ t :: after) (hturn : t.Turns m.shared s tasks incident) :
      Advances m ⟨s, before ++ tasks ++ after, m.calls⟩ incident

theorem turnAt_append (s : Shared) (before after : List Task) (t : Task) :
    Task.turnAt s before.length (before ++ t :: after) =
      ((t.turn s).1, before ++ (t.turn s).2 ++ after) := by
  induction before with
  | nil => rfl
  | cons u before ih =>
    rw [List.cons_append, List.length_cons, Task.turnAt, ih]
    rfl

theorem turnAt_of_length_le {s : Shared} {position : Nat} {tasks : List Task}
    (h : tasks.length ≤ position) : Task.turnAt s position tasks = (s, tasks) := by
  induction tasks generalizing position with
  | nil => cases position <;> rfl
  | cons t rest ih =>
    cases position with
    | zero => cases h
    | succ n => rw [Task.turnAt, ih (Nat.le_of_succ_le_succ h)]

/-- The machine once the task at a position has taken its turn. -/
theorem advance_append {m : Machine} {before after : List Task} {t : Task}
    (h : m.tasks = before ++ t :: after) : m.advance before.length =
      ⟨(t.turn m.shared).1, before ++ (t.turn m.shared).2 ++ after, m.calls⟩ := by
  rw [advance, h, turnAt_append]

theorem advance_eq {m : Machine} {position : Nat} {t : Task}
    (h : m.tasks[position]? = some t) : ∃ before after, m.tasks = before ++ t :: after ∧
      m.advance position =
        ⟨(t.turn m.shared).1, before ++ (t.turn m.shared).2 ++ after, m.calls⟩ := by
  obtain ⟨hlt, rfl⟩ := List.getElem?_eq_some_iff.mp h
  have htasks : m.tasks = m.tasks.take position ++ m.tasks[position] ::
      m.tasks.drop (position + 1) := by
    rw [List.getElem_cons_drop, List.take_append_drop]
  have hlength : (m.tasks.take position).length = position :=
    List.length_take_of_le (Nat.le_of_lt hlt)
  have hadvance := advance_append htasks
  rw [hlength] at hadvance
  exact ⟨_, _, htasks, hadvance⟩

/-- Nothing happens at a position without a task. -/
theorem advance_eq_self {m : Machine} {position : Nat} (h : m.tasks[position]? = none) :
    m.advance position = m := by
  have hturn := turnAt_of_length_le (s := m.shared) (List.getElem?_eq_none_iff.mp h)
  rw [advance, hturn]

theorem advances (m : Machine) (position : Nat) :
    m.Advances (m.advance position) (m.incidentAt? position) := by
  rw [incidentAt?]
  cases h : m.tasks[position]? with
  | none =>
    rw [advance_eq_self h]
    exact .idle
  | some t =>
    obtain ⟨before, after, htasks, hadvance⟩ := advance_eq h
    rw [hadvance]
    exact .turn htasks (t.turns_turn m.shared)

end Machine
end Opstack
