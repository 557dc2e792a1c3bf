import Opstack.Proofs.Machine.Rest

/-!
# The root cause is reported

When an execution fails, the others of the call are aborted, or are handed the failure by the
threads that they wait for, and all of them end with failures of their own.  The call still answers
with the one that came first: `Machine.AtRest.root_cause` says that if a single execution fails by
itself, then its failure is the answer, in whatever order the executions proceed, with the place and
the thread that it had in the beginning.

That there is an answer at all is `Machine.inevitable_answer`.  Once a failure is recorded, every
turn brings the call nearer to its end (`Task.Turns.of_halted`), and as long as no executions wait
for each other in a circle, one of them can always take a turn (`InProgress.exists_canMove`).
-/

set_option autoImplicit false

namespace Opstack

/-! ## Every turn brings the end nearer -/

namespace Task

/-- How many turns a task can still take in a halted machine. -/
def weight : Task → Nat
  | .waiting _ _ _ => 5
  | .running _ => 4
  | .failing _ _ _ => 3
  | .joining _ _ => 2
  | .closing _ _ => 1
  | .answered _ _ => 0

/-- How many turns tasks can still take in a halted machine. -/
def totalWeight : List Task → Nat
  | [] => 0
  | t :: rest => t.weight + totalWeight rest

theorem totalWeight_append (tasks more : List Task) :
    totalWeight (tasks ++ more) = totalWeight tasks + totalWeight more := by
  induction tasks with
  | nil => exact (Nat.zero_add _).symm
  | cons t rest ih => rw [List.cons_append, totalWeight, totalWeight, ih, Nat.add_assoc]

section

variable {s s' : Shared} {t : Task} {tasks : List Task} {incident : Option Incident}

/-- **In a halted machine a turn leaves less to do.**  No execution begins to wait, and that of a
call itself does not crash. -/
theorem Turns.of_halted (h : t.Turns s s' tasks incident) (hhalted : s.isHalted = true)
    (hmove : t.canMove s = true) :
    totalWeight tasks < t.weight ∧ (∀ x thread site, .waiting x thread site ∉ tasks) ∧
      incident ≠ some (.breaks none) := by
  have hnot : s.isHalted ≠ false := fun h => by
    rw [hhalted] at h
    cases h
  cases h with
  | runs hrun _ _ | spawns hrun _ _ _ _ | asks hrun _ _ _ | raises hrun _ _ _ | breaks hrun _
  | vanishes hrun _ => exact absurd hrun hnot
  | waits hrunning =>
    rw [canMove, hrunning] at hmove
    cases hmove
  | pauses hjoined =>
    rw [canMove, hjoined] at hmove
    cases hmove
  | rests => cases hmove
  | delivers _ | returns _ | stops _ _ | wakes _ _ | passes _ _ | misses _ _ | records | admits
  | joins _ | closes => simp [totalWeight, weight]

/-- Only the end of a call takes the recorded failure away. -/
theorem Turns.failure_eq (h : t.Turns s s' tasks incident)
    (hclosing : ∀ call result, t ≠ .closing call result) {e : Failure} (he : s.failure = some e) :
    s'.failure = some e := by
  cases h with
  | runs _ hbooks _ | raises _ hbooks _ _ => exact hbooks.failure.trans he
  | asks _ _ _ _ | delivers _ | breaks _ _ => exact (s.failure_modifyThread _ _).trans he
  | records =>
    refine ((s.fail _).failure_modifyThread _ _).trans ?_
    rw [Shared.fail, he]
    rfl
  | admits =>
    rw [Shared.fail, he]
    rfl
  | joins _ => exact failure_join_of_some he _
  | closes => exact absurd rfl (hclosing _ _)
  | _ => exact he

end

end Task

/-! ## Somebody can always take a turn -/

/-- Executions of threads wait only for threads of a lower rank, so they do not wait for each other
in a circle. -/
def WaitsBelow (rank : ThreadId → Nat) (tasks : List Task) : Prop :=
  ∀ x thread site, .waiting x thread site ∈ tasks → ∀ u, x.thread = some u →
    rank thread < rank u

namespace InProgress

variable {call : Nat} {log : List Incident} {s : Shared} {tasks : List Task}
  {rank : ThreadId → Nat}

/-- A thread that has not ended has a task. -/
theorem exists_of_isLive (h : InProgress call log s tasks) {thread : ThreadId}
    (hlive : s.isLive thread = true) : ∃ t ∈ tasks, t.thread = some thread := by
  have hcount := h.hands thread
  rw [hlive] at hcount
  have hmem : some thread ∈ tasks.map Task.thread :=
    List.count_pos_iff.mp (by rw [hcount]; exact Nat.one_pos)
  exact List.mem_map.mp hmem

/-- What an execution waits for has not ended, if it cannot take a turn. -/
theorem isLive_of_waiting (h : InProgress call log s tasks) {x : Execution} {thread : ThreadId}
    {site : Site} (ht : .waiting x thread site ∈ tasks)
    (hmove : (Task.waiting x thread site).canMove s = false) : s.isLive thread = true := by
  obtain ⟨-, -, hsome⟩ := h.sound _ ht
  obtain ⟨r, hr⟩ := Option.isSome_iff_exists.mp hsome
  rw [Task.canMove, Shared.outcomeOf_eq hr] at hmove
  exact Shared.isLive_eq_true.mpr ⟨r, hr, hmove⟩

/-- If nothing can take a turn, then every thread has ended: one that has not would wait for one of
a lower rank. -/
theorem isLive_eq_false (h : InProgress call log s tasks) (hwaits : WaitsBelow rank tasks)
    (hstuck : ∀ t ∈ tasks, t.canMove s = false) (thread : ThreadId) :
    s.isLive thread = false := by
  induction hrank : rank thread using Nat.strongRecOn generalizing thread with
  | _ n ih =>
    cases hlive : s.isLive thread with
    | false => rfl
    | true =>
      obtain ⟨t, ht, hthread⟩ := h.exists_of_isLive hlive
      have hstuck := hstuck t ht
      cases t with
      | running | failing => cases hstuck
      | joining | closing | answered => cases hthread
      | waiting x awaited site =>
        have hlt : rank awaited < n := hrank ▸ hwaits x awaited site ht thread hthread
        exact absurd (h.isLive_of_waiting ht hstuck) (by rw [ih _ hlt awaited rfl]; decide)

/-- **There is no deadlock.**  As long as a call is in progress and its executions do not wait for
each other in a circle, some task can take a turn. -/
theorem exists_canMove (h : InProgress call log s tasks) (hwaits : WaitsBelow rank tasks)
    (hentry : .breaks none ∉ log) : ∃ t ∈ tasks, t.canMove s = true := by
  refine Classical.byContradiction fun hnone => ?_
  have hstuck : ∀ t ∈ tasks, t.canMove s = false := fun t ht =>
    Bool.eq_false_iff.mpr fun hmove => hnone ⟨t, ht, hmove⟩
  have hended := h.isLive_eq_false hwaits hstuck
  -- The task of the call itself has nothing left to wait for.
  have hmem : none ∈ tasks.map Task.thread :=
    List.count_pos_iff.mp (by rw [h.entry hentry]; exact Nat.one_pos)
  obtain ⟨t, ht, -⟩ := List.mem_map.mp hmem
  have hmove := hstuck t ht
  have hsound := h.sound t ht
  cases t with
  | running | failing => cases hmove
  | closing | answered => exact hsound
  | waiting x awaited site =>
    exact absurd (h.isLive_of_waiting ht hmove) (by rw [hended]; decide)
  | joining c result =>
    obtain ⟨rfl, -⟩ := hsound
    refine absurd ((Shared.hasJoined_iff h.room).mpr fun thread r hr _ => ?_)
      (Bool.eq_false_iff.mp hmove)
    have hlive := hended thread
    rw [Shared.isLive, hr] at hlive
    simpa using hlive

end InProgress

/-! ## There will be an answer -/

namespace Machine

/-- The task at the position can take a turn. -/
def CanAdvance (m : Machine) (position : Nat) : Prop :=
  ∃ t, m.tasks[position]? = some t ∧ t.canMove m.shared = true

/-- Whatever takes its turns, the machine comes to a state with a property, and until then there is
always something that can take a turn. -/
inductive Inevitable (P : Machine → Prop) : Machine → Prop
  | here {m : Machine} (h : P m) : Inevitable P m
  | next {m : Machine} (hmove : ∃ position, m.CanAdvance position)
      (h : ∀ position, m.CanAdvance position → Inevitable P (m.advance position)) :
      Inevitable P m

/-- The one thing that is under way is the answer of a call. -/
def Answers (call : Nat) (answer : Except Failure Value) (m : Machine) : Prop :=
  m.tasks = [.answered call answer]

section

variable {call : Nat} {log : List Incident} {m : Machine} {e : Failure}
  {rank : ThreadId → Nat}

/-- A call that has been joined only has to give its answer. -/
theorem inevitable_of_closing {result : Except Failure Value}
    (htasks : m.tasks = [.closing call result]) (hfailure : m.shared.failure = some e) :
    m.Inevitable (Answers call (.error e)) := by
  refine .next ⟨0, _, by rw [htasks]; rfl, rfl⟩ fun position hmove => .here ?_
  obtain ⟨t, ht, -⟩ := hmove
  obtain ⟨before, after, hsplit, hadvance⟩ := advance_eq ht
  obtain ⟨rfl, rfl, rfl⟩ := append_cons_eq_singleton (hsplit.symm.trans htasks)
  rw [Answers, hadvance]
  simp only [Task.turn, hfailure, Task.answer, Shared.takeFailure, List.nil_append,
    List.append_nil]

/-- **A recorded failure will be the answer**, whatever takes its turns, if the executions do not
wait for each other in a circle and that of the call itself has not crashed. -/
theorem inevitable_answer (h : InProgress call log m.shared m.tasks)
    (hfailure : m.shared.failure = some e) (hwaits : WaitsBelow rank m.tasks)
    (hentry : .breaks none ∉ log) : m.Inevitable (Answers call (.error e)) := by
  induction hweight : Task.totalWeight m.tasks using Nat.strongRecOn generalizing m log with
  | _ n ih =>
    have hhalted : m.shared.isHalted = true := by
      rw [h.halted, hfailure]
      rfl
    refine .next ?_ fun position hmove => ?_
    · obtain ⟨t, ht, hmove⟩ := h.exists_canMove hwaits hentry
      obtain ⟨position, hposition⟩ := List.getElem?_of_mem ht
      exact ⟨position, t, hposition, hmove⟩
    · obtain ⟨t, ht, hmove⟩ := hmove
      obtain ⟨before, after, htasks, hadvance⟩ := advance_eq ht
      have hturn := t.turns_turn m.shared
      rw [htasks] at h hwaits
      obtain ⟨hlt, hnew, hincident⟩ := hturn.of_halted hhalted hmove
      have hkept := hturn.failure_eq (fun c result hclosing => by
        rw [hclosing] at h
        exact h.sound_of_append) hfailure
      rw [hadvance]
      by_cases hjoin : ∀ c result, t = .joining c result → m.shared.hasJoined c = false
      · refine ih _ ?_ (h.turn hturn hjoin) hkept (fun x thread site hx => ?_) (fun hlog => ?_) rfl
        · rw [← hweight, htasks]
          simp only [Task.totalWeight_append, Task.totalWeight]
          omega
        · -- Whoever waits now has been waiting before.
          refine hwaits x thread site ?_
          rcases List.mem_append.mp hx with hx | hx
          · rcases List.mem_append.mp hx with hx | hx
            · exact List.mem_append_left _ hx
            · exact absurd hx (hnew x thread site)
          · exact List.mem_append_right _ (List.mem_cons_of_mem _ hx)
        · rcases List.mem_append.mp hlog with hlog | hlog
          · exact hentry hlog
          · exact hincident (Option.mem_toList.mp hlog)
      · simp only [Classical.not_forall, Bool.not_eq_false] at hjoin
        obtain ⟨c, result, rfl, hjoined⟩ := hjoin
        obtain ⟨rfl, -⟩ := h.sound_of_append
        obtain ⟨rfl, rfl⟩ := h.eq_singleton rfl hjoined
        have hclosing : (Task.joining c result).turn m.shared =
            (Task.join m.shared c, [.closing c result]) := if_pos hjoined
        rw [hclosing] at hkept ⊢
        exact inevitable_of_closing rfl hkept

/-! ## The answer -/

variable {name : String} {args : List Value} {order : List Nat} {thread : Option ThreadId}
  {site : Site} {fault : Fault}

/-- If a single execution fails by itself, every failure with a cause in the call is its. -/
theorem eq_raised_of_causedBy
    (hraises : log.filter (fun i => i.own?.isSome) = [.raises thread site fault])
    (hlocal : ∀ awaited c e, .passes awaited c e ∈ log → c = call)
    (he : e.CausedBy call log) : e = .raised fault site thread := by
  rcases he with ⟨i, hi, hown⟩ | ⟨awaited, c, hlt, hi⟩
  · have hmem : i ∈ log.filter fun i => i.own?.isSome :=
      List.mem_filter.mpr ⟨hi, by rw [hown]; rfl⟩
    rw [hraises] at hmem
    cases List.mem_singleton.mp hmem
    cases hown
    rfl
  · exact absurd (hlocal awaited c e hi) (Nat.ne_of_lt hlt)

/-- **The root cause is reported.**  Let a machine at rest be called, and let the tasks take turns
in any order, so that one execution has failed by itself, at an instruction, and no thread of an
earlier call has passed its failure on.  Then:

* if the call has an answer, it is this failure, with its fault, its place and its thread, whatever
  else has happened;
* otherwise this failure is recorded, or it is what some execution is about to record;
* once it is recorded, the call will have the answer, whatever takes its turns from then on, if the
  executions do not wait for each other in a circle and that of the call itself has not crashed. -/
theorem AtRest.root_cause (h : m.AtRest)
    (hraises : (m.callIncidents name args order).filter (fun i => i.own?.isSome) =
      [.raises thread site fault])
    (hlocal : ∀ awaited c e, .passes awaited c e ∈ m.callIncidents name args order →
      c = m.calls) :
    (∀ c answer, .answered c answer ∈ (m.during name args order).tasks →
        answer = .error (.raised fault site thread)) ∧
      ((∀ c answer, .answered c answer ∉ (m.during name args order).tasks) →
        (m.during name args order).shared.failure = some (.raised fault site thread) ∨
          ∃ u, .failing u m.calls (.raised fault site thread) ∈
            (m.during name args order).tasks) ∧
      ((m.during name args order).shared.failure ≠ none →
        ∀ rank, WaitsBelow rank (m.during name args order).tasks →
          .breaks none ∉ m.callIncidents name args order →
          (m.during name args order).Inevitable
            (Answers m.calls (.error (.raised fault site thread)))) := by
  have hunderway := h.during name args order
  have heq := fun e => eq_raised_of_causedBy (e := e) hraises hlocal
  have hown : ∃ i ∈ m.callIncidents name args order, i.own?.isSome = true := by
    have hmem : .raises thread site fault ∈
        (m.callIncidents name args order).filter fun i => i.own?.isSome := by
      rw [hraises]
      exact List.mem_singleton.mpr rfl
    exact ⟨_, List.mem_filter.mp hmem⟩
  refine ⟨fun c answer hanswer => ?_, fun hno => ?_, fun hrecorded rank hwaits hentry => ?_⟩
  · obtain ⟨-, -, -, -, haccords⟩ := hunderway.of_answered hanswer
    obtain ⟨e, rfl, he⟩ := haccords.failed hown
    rw [heq e he]
  · generalize m.during name args order = m' at *
    cases hunderway with
    | inProgress h =>
      cases hfailure : m'.shared.failure with
      | some e =>
        rw [heq e (h.caused e hfailure)]
        exact .inl rfl
      | none =>
        rcases h.pending hown with hne | ⟨t, ht, hfailing⟩
        · exact absurd hfailure hne
        · have hsound := h.sound t ht
          cases t with
          | failing u c e =>
            obtain ⟨rfl, hcaused, -⟩ := hsound
            rw [heq e (hcaused hfailure)] at ht
            exact .inr ⟨u, ht⟩
          | _ => cases hfailing
    | closing htasks _ hresult haccords =>
      obtain ⟨e, he, hcaused⟩ := haccords.failed hown
      cases hfailure : m'.shared.failure with
      | some e' =>
        rw [hfailure] at he
        cases he
        rw [heq e hcaused]
        exact .inl rfl
      | none =>
        obtain ⟨v, rfl⟩ := hresult hfailure
        rw [hfailure] at he
        cases he
    | answered htasks _ _ _ _ =>
      exact absurd (by rw [htasks]; exact List.mem_singleton.mpr rfl) (hno _ _)
  · generalize m.during name args order = m' at *
    obtain ⟨e, hfailure⟩ := Option.ne_none_iff_exists'.mp hrecorded
    cases hunderway with
    | inProgress h =>
      rw [← heq e (h.caused e hfailure)]
      exact inevitable_answer h hfailure hwaits hentry
    | closing htasks _ _ haccords =>
      obtain ⟨e', he, hcaused⟩ := haccords.failed hown
      rw [hfailure] at he
      cases he
      rw [← heq e hcaused]
      exact inevitable_of_closing htasks hfailure
    | answered _ _ hnone _ _ => exact absurd hnone hrecorded

end

/-- A machine with a routine that starts a thread and waits for it, which starts one that divides by
zero and waits for that; and it cannot flush its output. -/
def chain : Machine :=
  (((create {} { flushLimit := .upTo (some ⟨0, "full"⟩) }).add
    ⟨"first", #[.push (.int 0), .push (.str "second"), .plain .thread, .plain .wait,
      .plain .ret]⟩).add
    ⟨"second", #[.push (.str "third"), .plain .thread, .plain .wait, .plain .ret]⟩).add
    ⟨"third", #[.push (.int 0), .plain (.binary .div), .plain .ret]⟩

theorem AtRest.root_cause_chain :
    .answered 0 (.error (.raised .divisionByZero ⟨"third", 1, "DIV()"⟩ (some 2026))) ∈
      (chain.during "first" [] [0, 0, 0, 0, 0, 1, 2, 0, 0, 0, 0, 0, 0, 0, 0, 0]).tasks := by
  let e : Failure := .raised .divisionByZero ⟨"third", 1, "DIV()"⟩ (some 2026)
  let order := [0, 0, 0, 0, 0, 1, 2, 0, 0, 0, 0, 0, 0, 0, 0, 0]
  have hrest : chain.AtRest := (Used.add (.add (.add (.create _ _) _) _) _).atRest
  have hlog : chain.callIncidents "first" [] order =
      [.raises (some 2026) ⟨"third", 1, "DIV()"⟩ .divisionByZero, .passes 2026 0 e,
        .passes 2025 0 e, .refuses "full"] := rfl
  have hanswer : ∃ answer, Task.answered 0 answer ∈ (chain.during "first" [] order).tasks :=
    ⟨_, List.mem_singleton.mpr rfl⟩
  obtain ⟨answer, hanswer⟩ := hanswer
  have hraises : (chain.callIncidents "first" [] order).filter (fun i => i.own?.isSome) =
      [.raises (some 2026) ⟨"third", 1, "DIV()"⟩ .divisionByZero] := by
    rw [hlog]
    rfl
  have hlocal : ∀ awaited c e, .passes awaited c e ∈ chain.callIncidents "first" [] order →
      c = chain.calls := by
    intro awaited c e he
    rw [hlog] at he
    simp only [List.mem_cons, List.not_mem_nil, Incident.passes.injEq, reduceCtorEq, false_or,
      or_false] at he
    rcases he with ⟨-, rfl, -⟩ | ⟨-, rfl, -⟩ <;> rfl
  obtain ⟨hroot, -, -⟩ := hrest.root_cause hraises hlocal
  exact hroot 0 answer hanswer ▸ hanswer

end Machine
end Opstack
