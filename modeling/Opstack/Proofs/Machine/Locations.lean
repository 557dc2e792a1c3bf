import Opstack.Proofs.Machine.Placement

/-!
# Failures name the place where they arose

A failure that a call answers with has come a long way: from the execution that it arose in to the
record of the machine, from a thread to those that wait for it, and from one call to another.  On
this way nothing is added to it, because its place and its thread are filled in where it arises.

* `Machine.Holds` says that a machine has a failure that could still become an answer,
  `Task.Raises` that it arises in the turn of an execution, and `Machine.Announces` that it arises
  elsewhere: with a call of an unknown routine, at the end of a call whose output cannot be flushed,
  and at the end of one with a thread that has ended without a result.
* `Machine.holds_react`: a failure is there already or arises, and so `Machine.exists_origin`: it
  has arisen with one event of the session.
* `Task.Locates` says that a failure names the instruction that a task is at, and
  `Machine.located_of_answered` that the failure of a call does, or has no place because it did not
  arise in an execution.
-/

set_option autoImplicit false

namespace Opstack

/-! ## Failures that arise -/

/-- The failure arises in the turn of an execution: its step fails, or the thread that it waits for
has ended without a result. -/
inductive Task.Raises (s : Shared) : Task → Failure → Prop
  | fails {x : Execution} {s' : Shared} {e : Failure} (h : step s x = (s', .fails e)) :
    Raises s (.running x) e
  | misses {x : Execution} {thread : ThreadId} {site : Site} (h : s.outcomeOf thread = .crashed) :
    Raises s (.waiting x thread site) (.raised (.threadCrashed thread) site x.thread)

/-- The failure arises at the end of a call: its output cannot be flushed, or one of its threads has
ended without a result. -/
inductive Task.Announces (s : Shared) : Task → Failure → Prop
  | unflushed {call : Nat} {result : Except Failure Value} {reason : String}
    (hjoined : s.hasJoined call = true)
    (h : s.console.flushLimit s.console.flushes = some reason) :
    Announces s (.joining call result) { fault := .io reason }
  | crashed {call : Nat} {result : Except Failure Value} {thread : ThreadId}
    (hjoined : s.hasJoined call = true) (h : thread ∈ s.crashed call) :
    Announces s (.joining call result) (crashFailure thread)

namespace Machine

/-- The failure arises elsewhere than in an execution. -/
inductive Announces (m : Machine) : Event → Failure → Prop
  | unknown {name : String} {args : List Value} (h : m.shared.find? name = none) :
    Announces m (.move (.begin name args)) { fault := .unknownRoutine name }
  | ending {position : Nat} {t : Task} {e : Failure} (ht : m.tasks[position]? = some t)
    (h : t.Announces m.shared e) : Announces m (.move (.advance position)) e

/-- The failure arises with an event. -/
inductive Raises (m : Machine) : Event → Failure → Prop
  | turn {position : Nat} {t : Task} {e : Failure} (ht : m.tasks[position]? = some t)
    (h : t.Raises m.shared e) : Raises m (.move (.advance position)) e
  | elsewhere {event : Event} {e : Failure} (h : m.Announces event e) : Raises m event e

/-- What arises elsewhere than in an execution has no place. -/
theorem Announces.site_eq {m : Machine} {event : Event} {e : Failure} (h : m.Announces event e) :
    e.site = none := by
  cases h with
  | unknown _ => rfl
  | ending _ h => cases h <;> rfl

end Machine

/-! ## Failures that there are -/

/-- The failure that the task has. -/
def Task.failure? : Task → Option Failure
  | .failing _ _ e | .joining _ (.error e) | .closing _ (.error e) | .answered _ (.error e) =>
    some e
  | _ => none

/-- The failure is recorded, or a thread has ended with it. -/
inductive Shared.Holds (s : Shared) (e : Failure) : Prop
  | recorded (h : s.failure = some e)
  | thread {thread : ThreadId} {r : Thread} (hr : s.thread? thread = some r)
    (he : r.outcome = .finished (.error e))

/-- The failure could still become the answer of a call. -/
inductive Machine.Holds (m : Machine) (e : Failure) : Prop
  | shared (h : m.shared.Holds e)
  | task {t : Task} (ht : t ∈ m.tasks) (he : t.failure? = some e)

namespace Shared.Holds

variable {s s' : Shared} {e : Failure}

theorem congr (h : s'.Holds e) (hfailure : s'.failure = s.failure)
    (hthreads : s'.threads = s.threads) : s.Holds e := by
  cases h with
  | recorded h => exact .recorded (hfailure ▸ h)
  | thread hr he =>
    rw [thread?_congr hthreads] at hr
    exact .thread hr he

/-- A new thread has not failed. -/
theorem of_withThread {call : Nat} (hroom : firstThread + s.threads.size < Nat.pow 2 63)
    (h : (s.withThread call).Holds e) : s.Holds e := by
  cases h with
  | recorded h => exact .recorded h
  | thread hr he =>
    have hpush : (s.withThread call).threads = s.threads.push { call } := rfl
    rw [thread?_push hroom hpush] at hr
    split at hr
    · cases hr
      cases he
    · exact .thread hr he

/-- A change to the record of a thread brings in no failure but those that it is changed to. -/
theorem of_modifyThread {thread : ThreadId} {f : Thread → Thread}
    (h : (s.modifyThread thread f).Holds e) :
    s.Holds e ∨ ∃ r, (f r).outcome = .finished (.error e) ∧ r.outcome ≠ .finished (.error e) := by
  cases h with
  | recorded h =>
    rw [failure_modifyThread] at h
    exact .inl (.recorded h)
  | @thread other r hr he =>
    rw [thread?_modifyThread] at hr
    split at hr
    · obtain ⟨r₀, hr₀, rfl⟩ := Option.map_eq_some_iff.mp hr
      by_cases hsame : r₀.outcome = .finished (.error e)
      · exact .inl (.thread hr₀ hsame)
      · exact .inr ⟨r₀, he, hsame⟩
    · exact .inl (.thread hr he)

theorem of_deliver {thread : ThreadId} {outcome : Outcome}
    (h : (s.deliver thread outcome).Holds e) : s.Holds e ∨ outcome = .finished (.error e) := by
  rcases of_modifyThread h with h | ⟨r, he, -⟩
  · exact .inl h
  · exact .inr he

theorem of_withClaim {thread : ThreadId} (h : (s.withClaim thread).Holds e) : s.Holds e := by
  rcases of_modifyThread h with h | ⟨r, he, hne⟩
  · exact h
  · exact absurd he hne

theorem of_fail {e' : Failure} (h : (s.fail e').Holds e) : s.Holds e ∨ e = e' := by
  cases h with
  | recorded h =>
    rw [fail] at h
    cases hs : s.failure with
    | none =>
      rw [hs] at h
      exact .inr (Option.some.inj h).symm
    | some first =>
      rw [hs] at h
      exact .inl (.recorded (hs.trans h))
  | thread hr he => exact .inl (.thread hr he)

theorem of_foldl_fail {threads : List ThreadId}
    (h : (threads.foldl (fun s t => s.fail (Task.crashFailure t)) s).Holds e) :
    s.Holds e ∨ ∃ thread ∈ threads, e = Task.crashFailure thread := by
  induction threads generalizing s with
  | nil => exact .inl h
  | cons t rest ih =>
    rcases ih h with h | ⟨thread, hthread, he⟩
    · rcases of_fail h with h | he
      · exact .inl h
      · exact .inr ⟨t, List.mem_cons_self, he⟩
    · exact .inr ⟨thread, List.mem_cons_of_mem _ hthread, he⟩

/-- The end of the last execution of a call records what arises there. -/
theorem of_join {call : Nat} {result : Except Failure Value} (hjoined : s.hasJoined call = true)
    (h : (Task.join s call).Holds e) :
    s.Holds e ∨ Task.Announces s (.joining call result) e := by
  have hcrashed : ∀ {s' : Shared}, s'.Holds e →
      s'.failure = ((s.crashed call).foldl (fun s t => s.fail (Task.crashFailure t)) s).failure →
      s'.threads = ((s.crashed call).foldl (fun s t => s.fail (Task.crashFailure t)) s).threads →
      s.Holds e ∨ Task.Announces s (.joining call result) e := by
    intro s' h hfailure hthreads
    rcases of_foldl_fail (h.congr hfailure hthreads) with h | ⟨thread, hthread, rfl⟩
    · exact .inl h
    · exact .inr (.crashed hjoined hthread)
  have hconsole : ((s.crashed call).foldl (fun s t => s.fail (Task.crashFailure t)) s).console =
      s.console := by
    obtain ⟨failure, isHalted, hfold⟩ := Task.exists_foldl_fail s (s.crashed call)
    rw [hfold]
  rw [Task.join.eq_def] at h
  dsimp only at h
  rw [hconsole, Console.flush.eq_def] at h
  cases hrefusal : s.console.flushLimit s.console.flushes with
  | none =>
    rw [hrefusal] at h
    exact hcrashed h rfl rfl
  | some reason =>
    rw [hrefusal] at h
    rcases of_fail h with h | rfl
    · exact hcrashed h rfl rfl
    · exact .inr (.unflushed hjoined hrefusal)

end Shared.Holds

/-! ## One turn -/

namespace Task

variable {s s' : Shared} {t u : Task} {tasks : List Task} {incident : Option Incident}
  {e : Failure}

/-- A failure that there is after a turn is one that there was, that of the task, or one that has
arisen at the end of a call. -/
theorem Turns.of_holds (hturn : t.Turns s s' tasks incident) (h : s'.Holds e) :
    s.Holds e ∨ t.failure? = some e ∨ t.Announces s e := by
  cases hturn with
  | runs _ hbooks _ | raises _ hbooks _ _ => exact .inl (h.congr hbooks.failure hbooks.threads)
  | spawns _ hroom _ _ _ => exact .inl (h.of_withThread hroom)
  | asks _ _ _ _ => exact .inl h.of_withClaim
  | delivers _ | breaks _ _ => exact h.of_deliver.imp id fun he => by cases he
  | records =>
    rcases h.of_deliver with h | he
    · exact h.of_fail.imp id fun he => .inl (congrArg some he.symm)
    · cases he
      exact .inr (.inl rfl)
  | admits => exact h.of_fail.imp id fun he => .inl (congrArg some he.symm)
  | joins hjoined => exact (h.of_join hjoined).imp id .inr
  | closes =>
    cases h with
    | recorded h => cases h
    | thread hr he => exact .inl (.thread hr he)
  | _ => exact .inl h

/-- What an execution that waits is handed is there already, unless the thread has ended without
a result. -/
theorem holds_or_raises_of_resume {x : Execution} {thread : ThreadId} {site : Site} (hs : s.Placed)
    (he : (resume x thread site (s.outcomeOf thread)).failure? = some e) :
    s.Holds e ∨ (waiting x thread site).Raises s e := by
  cases hr : s.thread? thread with
  | none =>
    rw [Shared.outcomeOf, hr] at he
    cases he
  | some r =>
    have houtcome := Shared.outcomeOf_eq hr
    rw [houtcome] at he
    cases hend : r.outcome with
    | running =>
      rw [hend] at he
      cases he
    | finished result =>
      rw [hend] at he
      cases result with
      | ok v => cases he
      | error e₀ =>
        rw [resume, (hs thread r e₀ hr hend).inThread_atSite] at he
        cases he
        exact .inl (.thread hr hend)
    | crashed =>
      rw [hend] at he
      cases he
      exact .inr (.misses (houtcome.trans hend))

/-- A failure that a task has after a turn is one that there was, that of the task before, or one
that has arisen in the execution. -/
theorem Becomes.of_failure? (hbecomes : t.Becomes s u) (hs : s.Placed)
    (he : u.failure? = some e) : s.Holds e ∨ t.failure? = some e ∨ t.Raises s e := by
  cases hbecomes with
  | continues | spawns | child | waits | returns => cases he
  | fails h =>
    cases he
    exact .inr (.inr (.fails h))
  | resumes => exact (holds_or_raises_of_resume hs he).imp id .inr
  | admits => exact .inr (.inl he)
  | @joins call result =>
    cases result with
    | ok v => cases he
    | error e' => exact .inr (.inl he)
  | @closes call result =>
    cases hfailure : s.failure with
    | none =>
      rw [hfailure] at he
      cases result with
      | ok v => cases he
      | error e' => exact .inr (.inl he)
    | some first =>
      rw [hfailure] at he
      exact .inl (.recorded (hfailure.trans he))
  | rests => exact .inr (.inl he)

end Task

/-! ## Sessions -/

namespace Machine

variable {m : Machine} {event : Event} {events : List Event} {e : Failure} {r : Routine}

theorem Holds.of_begin {name : String} {args : List Value} (h : (m.begin name args).Holds e) :
    m.Holds e ∨ m.Announces (.move (.begin name args)) e := by
  cases h with
  | shared h => exact .inl (.shared h)
  | task ht he =>
    rcases List.mem_append.mp ht with ht | ht
    · rcases entry_cases m.shared m.calls name args with ⟨routine, -, -, hentry⟩ |
        ⟨-, -, hentry⟩ | ⟨hfind, hentry⟩ <;> rw [hentry] at ht
      · cases List.mem_singleton.mp ht
        cases he
      · cases ht
      · cases List.mem_singleton.mp ht
        cases he
        exact .inr (.unknown hfind)
    · exact .inl (.task ht he)

theorem Holds.of_advance {position : Nat} (hm : m.Placed) (h : (m.advance position).Holds e) :
    m.Holds e ∨ m.Raises (.move (.advance position)) e := by
  cases ht : m.tasks[position]? with
  | none =>
    rw [advance_eq_self ht] at h
    exact .inl h
  | some t =>
    obtain ⟨before, after, htasks, hadvance⟩ := advance_eq ht
    have htmem := List.mem_of_getElem? ht
    rw [hadvance] at h
    cases h with
    | shared h =>
      rcases (t.turns_turn m.shared).of_holds h with h | he | h
      · exact .inl (.shared h)
      · exact .inl (.task htmem he)
      · exact .inr (.elsewhere (.ending ht h))
    | task hu he =>
      rcases Task.mem_cases hu with hu | hu
      · exact .inl (.task (htasks ▸ Task.mem_of_mem hu) he)
      · rcases (Task.becomes_of_mem hu).of_failure? hm.threads he with h | he | h
        · exact .inl (.shared h)
        · exact .inl (.task htmem he)
        · exact .inr (.turn ht h)

/-- **One event**: a failure that there is after it is one that there was, or has arisen. -/
theorem holds_react (hm : m.Placed) (h : (m.react event).Holds e) :
    m.Holds e ∨ m.Raises event e := by
  cases event with
  | add routine | ask request =>
    cases h with
    | shared h => exact .inl (.shared (h.congr rfl rfl))
    | task ht he => exact .inl (.task ht he)
  | move move =>
    cases move with
    | begin name args => exact (Holds.of_begin h).imp id .elsewhere
    | advance position => exact Holds.of_advance hm h
    | forget call =>
      cases h with
      | shared h => exact .inl (.shared h)
      | task ht he => exact .inl (.task (List.mem_filter.mp ht).1 he)

/-- **A failure has arisen** with one event of the session, if there was none before. -/
theorem exists_origin (hm : m.Placed) (hnone : ∀ e, ¬ m.Holds e)
    (hevents : m.Observes KeepsRoutines events) (h : (m.live events).Holds e) :
    ∃ earlier event later, events = earlier ++ event :: later ∧
      (m.live earlier).Raises event e := by
  have horigins : (m.live events).Placed ∧ ∀ e, (m.live events).Holds e →
      ∃ earlier event later, events = earlier ++ event :: later ∧
        (m.live earlier).Raises event e := by
    refine live_induction (P := fun past later => later.Placed ∧ ∀ e, later.Holds e →
      ∃ earlier event rest, past = earlier ++ event :: rest ∧ (m.live earlier).Raises event e)
      hevents ⟨hm, fun e he => absurd he (hnone e)⟩ fun past event hevent hpast => ?_
    refine ⟨react_placed hpast.1 hevent, fun e he => ?_⟩
    rcases holds_react hpast.1 he with he | hraises
    · obtain ⟨earlier, event', rest, rfl, hraises⟩ := hpast.2 e he
      exact ⟨earlier, event', rest ++ [event], by rw [List.append_assoc, List.cons_append], hraises⟩
    · exact ⟨past, event, [], rfl, hraises⟩
  exact horigins.2 e h

/-- A routine stays registered. -/
theorem Placed.mem_routines_react (hm : m.Placed) (hevent : m.KeepsRoutines event)
    (hr : r ∈ m.shared.routines) : r ∈ (m.react event).shared.routines := by
  cases event with
  | add routine => exact hm.named.mem_register hr hevent
  | ask request => exact hr
  | move move =>
    cases move with
    | begin | forget => exact hr
    | advance position => exact (m.routines_advance position).symm ▸ hr

theorem Placed.mem_routines_live (hm : m.Placed) (hevents : m.Observes KeepsRoutines events)
    (hr : r ∈ m.shared.routines) : r ∈ (m.live events).shared.routines := by
  have hpast : (m.live events).Placed ∧ r ∈ (m.live events).shared.routines :=
    live_induction (P := fun _ later => later.Placed ∧ r ∈ later.shared.routines) hevents ⟨hm, hr⟩
      fun _ _ hevent hpast =>
        ⟨react_placed hpast.1 hevent, hpast.1.mem_routines_react hevent hpast.2⟩
  exact hpast.2

end Machine

/-! ## Threads that are started -/

/-- A thread is started with the event, as an execution of its own. -/
inductive Machine.Spawns (m : Machine) : Event → ThreadId → Prop
  | step {position : Nat} {x y child : Execution} {s' : Shared} {thread : ThreadId}
    (ht : m.tasks[position]? = some (.running x)) (h : step m.shared x = (s', .spawns y child))
    (hthread : child.thread = some thread) : Spawns m (.move (.advance position)) thread

/-- What the execution is after the step, if it goes on. -/
def Turn.next? : Turn → Option Execution
  | .continues y | .spawns y _ | .waits y _ _ => some y
  | _ => none

theorem Execution.sameOwner_of_step {s s' : Shared} {x y : Execution} {turn : Turn}
    (h : step s x = (s', turn)) (hnext : turn.next? = some y) : x.SameOwner y := by
  have hsteps := steps_step s x
  rw [h] at hsteps
  cases hsteps with
  | continues _ _ howner | spawns _ _ howner _ _ | waits _ _ howner _ =>
    cases hnext
    exact howner
  | _ => cases hnext

theorem Task.thread_resume (x : Execution) (thread : ThreadId) (site : Site) (outcome : Outcome) :
    (resume x thread site outcome).thread = x.thread := by
  match outcome with
  | .running | .finished (.ok _) | .finished (.error _) | .crashed => rfl

/-- A task belongs to the same thread as before, or to one that is started with the turn. -/
theorem Task.Becomes.of_thread {s : Shared} {t u : Task} {thread : ThreadId}
    (hbecomes : t.Becomes s u) (hthread : u.thread = some thread) :
    t.thread = some thread ∨ ∃ x s' y child, t = .running x ∧
      step s x = (s', .spawns y child) ∧ child.thread = some thread := by
  cases hbecomes with
  | continues h | spawns h | waits h =>
    have howner := Execution.sameOwner_of_step h rfl
    exact .inl (howner.1.symm.trans hthread)
  | child h => exact .inr ⟨_, _, _, _, rfl, h, hthread⟩
  | fails => exact .inl hthread
  | @resumes x awaited site => exact .inl ((thread_resume x awaited site _).symm.trans hthread)
  | returns | admits | joins | closes => cases hthread
  | rests => exact .inl hthread

namespace Machine

/-- The thread of a task has been there before the event, or is started with it. -/
theorem thread_of_mem_react {m : Machine} {event : Event} {t : Task} {thread : ThreadId}
    (ht : t ∈ (m.react event).tasks) (hthread : t.thread = some thread) :
    (∃ u ∈ m.tasks, u.thread = some thread) ∨ m.Spawns event thread := by
  cases event with
  | add routine | ask request => exact .inl ⟨t, ht, hthread⟩
  | move move =>
    cases move with
    | begin name args =>
      rcases List.mem_append.mp ht with ht | ht
      · have hnone := congrArg Prod.fst (Accounted.owner_entry m.shared m.calls name args t ht)
        cases hnone.symm.trans hthread
      · exact .inl ⟨t, ht, hthread⟩
    | forget call => exact .inl ⟨t, (List.mem_filter.mp ht).1, hthread⟩
    | advance position =>
      change t ∈ (m.advance position).tasks at ht
      cases hu : m.tasks[position]? with
      | none =>
        rw [advance_eq_self hu] at ht
        exact .inl ⟨t, ht, hthread⟩
      | some u =>
        obtain ⟨before, after, htasks, hadvance⟩ := advance_eq hu
        rw [hadvance] at ht
        rcases Task.mem_cases ht with ht | ht
        · exact .inl ⟨t, htasks ▸ Task.mem_of_mem ht, hthread⟩
        · rcases (Task.becomes_of_mem ht).of_thread hthread with
            hsame | ⟨x, s', y, child, rfl, hstep, h⟩
          · exact .inl ⟨u, List.mem_of_getElem? hu, hsame⟩
          · exact .inr (.step hu hstep h)

/-- **The thread of a task has been started** with one event of the session, if there was no task
of a thread before. -/
theorem exists_spawns {m : Machine} {events : List Event} (hnone : ∀ t ∈ m.tasks, t.thread = none)
    {t : Task} (ht : t ∈ (m.live events).tasks) {thread : ThreadId}
    (hthread : t.thread = some thread) :
    ∃ earlier event later, events = earlier ++ event :: later ∧
      (m.live earlier).Spawns event thread := by
  have hevents : m.Observes (fun _ _ => True) events := fun _ _ _ _ => trivial
  refine live_induction (P := fun past later => ∀ t ∈ later.tasks, t.thread = some thread →
    ∃ earlier event rest, past = earlier ++ event :: rest ∧ (m.live earlier).Spawns event thread)
    hevents (fun t ht hthread => ?_) (fun past event _ hpast t ht hthread => ?_) t ht hthread
  · cases (hnone t ht).symm.trans hthread
  · rcases thread_of_mem_react ht hthread with ⟨u, hu, hthread⟩ | hspawns
    · obtain ⟨earlier, event', rest, rfl, hspawns⟩ := hpast u hu hthread
      exact ⟨earlier, event', rest ++ [event], by rw [List.append_assoc, List.cons_append], hspawns⟩
    · exact ⟨past, event, [], rfl, hspawns⟩

end Machine

/-! ## Failures of executions -/

/-- The routine that the innermost activation of the task is one of, and the instruction that it is
at, or has just moved past if it waits. -/
def Task.at? : Task → Option (Routine × Nat)
  | .running x => x.frames.head?.map fun f => (f.routine, f.pc)
  | .waiting x _ _ => x.frames.head?.map fun f => (f.routine, f.pc - 1)
  | _ => none

/-- The failure names the instruction that the task is at, which belongs to a registered routine,
and the thread of the task, and no other opcode than that of the instruction. -/
structure Task.Locates (s : Shared) (t : Task) (e : Failure) (routine : Routine) (index : Nat)
    (i : Instr) : Prop where
  /-- The task is at the instruction. -/
  at_eq : t.at? = some (routine, index)
  /-- The instruction exists. -/
  get_eq : routine.get? index = some i
  /-- The routine is registered. -/
  find_eq : s.find? routine.name = some routine
  /-- The failure names the instruction. -/
  site_eq : e.site = some ⟨routine.name, index, i.text⟩
  /-- The failure names the thread, and no thread if the execution is that of the call itself. -/
  thread_eq : e.thread = t.thread
  /-- An opcode that the fault names is that of the instruction. -/
  opcode_eq : ∀ op, e.fault.opcode? = some op → op = i.op
  /-- Only `WAIT` waits. -/
  wait_of_waiting : ∀ x thread site, t = .waiting x thread site → i.op = .wait

/-- **What arises in an execution names the instruction that it is at.** -/
theorem Task.Raises.locates {m later : Machine} {t : Task} {e : Failure} (hm : m.Placed)
    (hlater : later.Placed) (hlasts : m.shared.routines ⊆ later.shared.routines) (ht : t ∈ m.tasks)
    (hraises : t.Raises m.shared e) :
    ∃ routine index i, t.Locates later.shared e routine index i := by
  have hplaced := hm.tasks t ht
  have hfind : ∀ {r}, r ∈ m.shared.routines → later.shared.find? r.name = some r :=
    fun hr => hlater.named.find?_name (hlasts hr)
  cases hraises with
  | @fails x s' e h =>
    obtain ⟨f, fs, i, hframes, hi, he, hfits⟩ := Execution.step_fails h
    refine ⟨f.routine, f.pc, i, ?_⟩
    exact
      { at_eq := by rw [at?, hframes]; rfl
        get_eq := hi
        find_eq := hfind (hplaced f (by rw [hframes]; exact List.mem_cons_self))
        site_eq := by rw [he]; rfl
        thread_eq := by rw [he]; rfl
        opcode_eq := hfits.opcode
        wait_of_waiting := fun _ _ _ h => by cases h }
  | @misses x thread site h =>
    obtain ⟨hruns, f, fs, i, hframes, hi, hop, rfl⟩ := hplaced
    refine ⟨f.routine, f.pc - 1, i, ?_⟩
    exact
      { at_eq := by rw [at?, hframes]; rfl
        get_eq := hi
        find_eq := hfind (hruns f (by rw [hframes]; exact List.mem_cons_self))
        site_eq := rfl
        thread_eq := rfl
        opcode_eq := fun op h => by cases h
        wait_of_waiting := fun _ _ _ _ => hop }

namespace Machine

theorem not_holds_create (config : Config) (console : Console) (e : Failure) :
    ¬ (create config console).Holds e := by
  intro h
  cases h with
  | shared h =>
    cases h with
    | recorded h => cases h
    | thread hr he => simp [create, Shared.thread?] at hr
  | task ht he => cases ht

/-- **Failures are located truthfully.**  Take any session of a new machine in which no routine is
replaced by a different one.  A failure that is the answer of a call either has arisen in the turn
of an execution: then it names a registered routine, an instruction of it, which is the one that
the execution was at, with its text, no opcode but that of the instruction, and the thread of the
execution, which has been started in the session.  Or it has no place: then the routine that was
called did not exist, or the output could not be flushed at the end of a call, or a thread of a call
has ended without a result. -/
theorem located_of_answered (config : Config) (console : Console) (events : List Event)
    (hevents : (create config console).Observes KeepsRoutines events) (call : Nat) (e : Failure)
    (hanswer : .answered call (.error e) ∈ ((create config console).live events).tasks) :
    (∃ earlier position later t,
      events = earlier ++ .move (.advance position) :: later ∧
      ((create config console).live earlier).tasks[position]? = some t ∧
      t.Raises ((create config console).live earlier).shared e ∧
      (∃ routine index i,
        t.Locates ((create config console).live events).shared e routine index i) ∧
      ∀ thread, e.thread = some thread → ∃ before event after,
        earlier = before ++ event :: after ∧
        ((create config console).live before).Spawns event thread) ∨
    (e.site = none ∧ ∃ earlier event later, events = earlier ++ event :: later ∧
      ((create config console).live earlier).Announces event e) := by
  have hcreate := placed_create config console
  have horigin := exists_origin hcreate (not_holds_create config console) hevents
    (.task hanswer rfl)
  obtain ⟨earlier, event, later, rfl, hraises⟩ := horigin
  cases hraises with
  | @turn position t e ht hraises =>
    have htmem := List.mem_of_getElem? ht
    obtain ⟨hearlier, hlater⟩ := hevents.of_append
    have hplaced := placed_live hcreate hearlier
    have hlasts := fun r hr => hplaced.mem_routines_live (r := r) hlater hr
    rw [← live_append] at hlasts
    obtain ⟨routine, index, i, hlocates⟩ :=
      hraises.locates hplaced (placed_live hcreate hevents) hlasts htmem
    refine .inl ⟨earlier, position, later, t, rfl, ht, hraises, ⟨routine, index, i, hlocates⟩,
      fun thread hthread => ?_⟩
    exact exists_spawns (List.forall_mem_nil _) htmem (hlocates.thread_eq.symm.trans hthread)
  | elsewhere h => exact .inr ⟨h.site_eq, earlier, event, later, rfl, h⟩

/-- A session in which a call starts a thread, which fails, and waits for it. -/
def mishap : List Event :=
  .add ⟨"work", #[.plain .pop, .plain .pop, .plain .ret]⟩ ::
    .add ⟨"main", #[.push .null, .push (.str "work"), .plain .thread, .plain .wait, .plain .ret]⟩ ::
    .move (.begin "main" []) :: turnsAt [0, 0, 0, 1, 0, 0, 0, 0, 0, 0, 0]

theorem located_of_answered_mishap :
    (create {} {}).Observes KeepsRoutines mishap ∧
      .answered 0 (.error (.raised .stackUnderflow ⟨"work", 1, (Instr.plain .pop).text⟩
        (some 2025))) ∈ ((create {} {}).live mishap).tasks ∧
      ∃ earlier event later, mishap = earlier ++ event :: later ∧
        ((create {} {}).live earlier).Spawns event 2025 := by
  have hobserves : (create {} {}).Observes KeepsRoutines mishap :=
    observes_cons (fun old hold => nomatch hold) (observes_cons (fun old hold => nomatch hold)
      (observes_cons trivial (observes_turnsAt (fun _ _ => trivial) _)))
  have hanswer : .answered 0 (.error (.raised .stackUnderflow
      ⟨"work", 1, (Instr.plain .pop).text⟩ (some 2025))) ∈
      ((create {} {}).live mishap).tasks := List.mem_cons_self
  refine ⟨hobserves, hanswer, ?_⟩
  rcases located_of_answered {} {} mishap hobserves 0 _ hanswer with
    ⟨earlier, position, later, t, hevents, -, -, -, hspawns⟩ | ⟨hsite, -⟩
  · obtain ⟨before, event, after, rfl, h⟩ := hspawns 2025 rfl
    exact ⟨before, event, after ++ .move (.advance position) :: later,
      by rw [hevents, List.append_assoc, List.cons_append], h⟩
  · cases hsite

end Machine
end Opstack
