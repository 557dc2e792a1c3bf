import Opstack.Machine.Session
import Opstack.Proofs.Machine.Underway

/-!
# Between calls

A machine that is used for one call after the other is at rest between them, however the calls end:
no failure is recorded and the machine is not halted (`Machine.Used.atRest`).  So what a call
answers has its cause in that call alone.  The one thing that reaches over from an earlier call is
what its threads ended with, which a `WAIT` may still ask for.

`Machine.Used.answer_of_call` is the whole statement.
-/

set_option autoImplicit false

namespace Opstack

/-! ## Incidents that arise -/

/-- The incident cannot make the call fail in which it happens. -/
def Incident.isHarmless (call : Nat) : Incident → Bool
  | .raises _ _ _ | .misses _ | .refuses _ | .breaks _ => false
  | .passes _ c _ => decide (call ≤ c)
  | .stops _ => true

theorem Incident.own?_eq_none {call : Nat} {i : Incident} (h : i.isHarmless call = true) :
    i.own? = none := by
  cases i with
  | raises | misses => cases h
  | _ => rfl

/-- What arises in a turn is not that an execution is aborted, nor that a routine is missing. -/
theorem Task.Turns.arises {s s' : Shared} {t : Task} {tasks : List Task} {i : Incident}
    (h : t.Turns s s' tasks (some i)) :
    (∀ name, i ≠ .misses name) ∧ ∀ thread site fault, i = .raises thread site fault →
      fault ≠ .aborted := by
  generalize hi : some i = incident at h
  cases h with
  | stops _ _ | breaks _ _ | vanishes _ _ | passes _ _ =>
    cases hi
    exact ⟨fun _ h => (by cases h), fun _ _ _ h => by cases h⟩
  | raises _ _ _ hfault =>
    cases hi
    refine ⟨fun _ h => (by cases h), fun _ _ _ h => ?_⟩
    cases h
    exact hfault
  | misses _ _ =>
    obtain ⟨site, -, rfl⟩ := Option.map_eq_some_iff.mp hi.symm
    refine ⟨fun _ h => (by cases h), fun _ _ _ h => ?_⟩
    cases h
    exact fun h => by cases h
  | joins _ =>
    obtain ⟨reason, -, rfl⟩ := Option.map_eq_some_iff.mp hi.symm
    exact ⟨fun _ h => (by cases h), fun _ _ _ h => by cases h⟩
  | _ => cases hi

namespace Machine

variable {m : Machine} {name : String} {args : List Value} {order : List Nat} {i : Incident}

theorem arises_of_mem_incidents (h : i ∈ m.incidents order) :
    (∀ name, i ≠ .misses name) ∧ ∀ thread site fault, i = .raises thread site fault →
      fault ≠ .aborted := by
  obtain ⟨before, position, after, t, -, -, hi⟩ := exists_of_mem_incidents h
  have hturns := t.turns_turn (m.follow before).shared
  rw [hi] at hturns
  exact hturns.arises

theorem mem_entryIncident? (h : i ∈ (m.entryIncident? name).toList) :
    i = .misses name ∨ i = .breaks none := by
  rw [entryIncident?] at h
  split at h
  · exact .inl (List.mem_singleton.mp h)
  · split at h
    · cases h
    · exact .inr (List.mem_singleton.mp h)

/-- A failure that arises in a call is raised by an instruction, which does not abort, unless the
call has no routine. -/
theorem own_of_mem_callIncidents {e : Failure} (h : i ∈ m.callIncidents name args order)
    (he : i.own? = some e) :
    (∃ thread site fault, i = .raises thread site fault ∧ fault ≠ .aborted ∧
        e = .raised fault site thread) ∨
      i = .misses name ∧ e = { fault := .unknownRoutine name } := by
  rw [callIncidents, List.mem_append] at h
  rcases h with h | h
  · obtain rfl | rfl := mem_entryIncident? h
    · cases he
      exact .inr ⟨rfl, rfl⟩
    · cases he
  · obtain ⟨hmisses, hraises⟩ := arises_of_mem_incidents h
    cases i with
    | raises thread site fault =>
      cases he
      exact .inl ⟨thread, site, fault, rfl, hraises thread site fault rfl, rfl⟩
    | misses name' => exact absurd rfl (hmisses name')
    | _ => cases he

/-! ## One call -/

/-- A call with an answer has come to its end. -/
theorem Underway.of_answered {call c : Nat} {log : List Incident} {answer : Except Failure Value}
    (h : m.Underway call log) (hanswer : .answered c answer ∈ m.tasks) :
    m.tasks = [.answered call answer] ∧ m.shared.Settled (call + 1) ∧ m.shared.failure = none ∧
      m.shared.isHalted = false ∧ Accords call log answer := by
  cases h with
  | inProgress h => exact (h.sound _ hanswer).elim
  | closing htasks _ _ _ =>
    rw [htasks] at hanswer
    cases List.mem_singleton.mp hanswer
  | answered htasks hsettled hfailure hrunning haccords =>
    rw [htasks] at hanswer
    cases List.mem_singleton.mp hanswer
    exact ⟨htasks, hsettled, hfailure, hrunning, haccords⟩

/-- The machine once the answer of the call has been taken. -/
def afterCall (m : Machine) (name : String) (args : List Value) (order : List Nat) : Machine :=
  (m.during name args order).move (.forget m.calls)

/-- **A call leaves the machine at rest**, whatever its answer is. -/
theorem AtRest.afterCall (h : m.AtRest) {c : Nat} {answer : Except Failure Value}
    (hanswer : .answered c answer ∈ (m.during name args order).tasks) :
    (m.afterCall name args order).AtRest := by
  obtain ⟨htasks, hsettled, hfailure, hrunning, -⟩ :=
    (h.during name args order).of_answered hanswer
  have hcalls : (m.during name args order).calls = m.calls + 1 := calls_follow _ order
  refine ⟨?_, hfailure, hrunning, ?_⟩
  · rw [Machine.afterCall, move, htasks]
    simp [dropAnswer]
  · rw [Machine.afterCall, move, hcalls]
    exact hsettled

/-! ## One call after the other -/

/-- The machine has been created, filled with routines, and used for calls, each of which was
answered before the next one began. -/
inductive Used : Machine → Prop
  | create (config : Config) (console : Console) : Used (create config console)
  | add {m : Machine} (h : Used m) (routine : Routine) : Used (m.add routine)
  | call {m : Machine} (h : Used m) (name : String) (args : List Value) (order : List Nat)
      {answer : Except Failure Value}
      (hanswer : .answered m.calls answer ∈ (m.during name args order).tasks) :
      Used (m.afterCall name args order)

theorem atRest_create (config : Config) (console : Console) : (create config console).AtRest := by
  have hnone : ∀ thread, (create config console).shared.thread? thread = none := fun thread => by
    rw [Shared.thread?]
    cases threadPlace? thread <;> rfl
  refine ⟨rfl, rfl, rfl, ⟨?_, fun thread r hr => ?_, fun thread r hr => ?_,
    fun thread r e hr => ?_⟩⟩
  · exact (by decide : firstThread + 0 ≤ Nat.pow 2 63)
  all_goals
    rw [hnone] at hr
    cases hr

/-- **Between calls a machine is at rest.** -/
theorem Used.atRest (h : m.Used) : m.AtRest := by
  induction h with
  | create config console => exact atRest_create config console
  | add _ routine ih => exact ⟨ih.tasks, ih.failure, ih.running, ih.settled.congr rfl⟩
  | call _ name args order hanswer ih => exact ih.afterCall hanswer

theorem run_eq_follow (turns : Nat) (m : Machine) : ∃ order, run turns m = m.follow order := by
  induction turns generalizing m with
  | zero => exact ⟨[], rfl⟩
  | succ n ih =>
    rw [run]
    cases m.ready? with
    | none => exact ⟨[], rfl⟩
    | some position =>
      obtain ⟨order, horder⟩ := ih (m.advance position)
      exact ⟨position :: order, horder⟩

theorem mem_of_answerOf? {call : Nat} {tasks : List Task} {answer : Except Failure Value}
    (h : answerOf? call tasks = some answer) : .answered call answer ∈ tasks := by
  induction tasks with
  | nil => cases h
  | cons t rest ih =>
    rw [answerOf?.eq_def] at h
    split at h
    · cases ‹_›
    · rename_i heq
      cases heq
      split at h
      · rename_i hcall
        cases h
        cases hcall
        exact List.mem_cons_self
      · exact List.mem_cons_of_mem _ (ih h)
    · rename_i heq
      cases heq
      exact List.mem_cons_of_mem _ (ih h)

/-- The order that the machine itself follows is one of those. -/
theorem Used.of_call (h : m.Used) {turns : Nat} {answer : Except Failure Value} {m' : Machine}
    (hcall : m.call turns name args = (some answer, m')) : m'.Used := by
  obtain ⟨order, horder⟩ := run_eq_follow turns (m.begin name args)
  rw [Machine.call, horder, Prod.mk.injEq] at hcall
  obtain ⟨hanswer, rfl⟩ := hcall
  exact .call h name args order (mem_of_answerOf? hanswer)

/-- **No failure leaks from one call to the next.**  After any calls, each of which was answered
before the next one began, let a call be answered, in any order of turns.  Then no failure is
recorded and the machine is not halted.  If nothing went wrong in the call, the answer is a value.
If it is a failure, then an instruction of the call raised it, or the call had no routine, or the
output could not be flushed, or a thread of an earlier call passed it on; only in the last case can
it be that of an execution that was aborted.  (No execution crashes.) -/
theorem Used.answer_of_call (h : m.Used) {answer : Except Failure Value}
    (hanswer : .answered m.calls answer ∈ (m.during name args order).tasks)
    (hcrash : ∀ thread, .breaks thread ∉ m.callIncidents name args order) :
    ((m.during name args order).shared.failure = none ∧
      (m.during name args order).shared.isHalted = false) ∧
    ((∀ i ∈ m.callIncidents name args order, i.isHarmless m.calls = true) →
      ∃ v, answer = .ok v) ∧
    ∀ e, answer = .error e →
      (∃ thread site fault, .raises thread site fault ∈ m.callIncidents name args order ∧
          fault ≠ .aborted ∧ e = .raised fault site thread) ∨
        (.misses name ∈ m.callIncidents name args order ∧
          e = { fault := .unknownRoutine name }) ∨
        (∃ reason, .refuses reason ∈ m.callIncidents name args order ∧
          e = { fault := .io reason }) ∨
        ∃ thread c, c < m.calls ∧ .passes thread c e ∈ m.callIncidents name args order := by
  obtain ⟨-, -, hfailure, hrunning, haccords⟩ :=
    (h.atRest.during name args order).of_answered hanswer
  refine ⟨⟨hfailure, hrunning⟩, fun hharmless => ?_, fun e he => ?_⟩
  · cases answer with
    | ok v => exact ⟨v, rfl⟩
    | error e =>
      rcases haccords.cause e rfl with (⟨i, hi, hown⟩ | ⟨thread, c, hlt, hi⟩) | ⟨reason, hi, -⟩ |
        ⟨thread, hi⟩
      · rw [Incident.own?_eq_none (hharmless i hi)] at hown
        cases hown
      · exact absurd hlt (Nat.not_lt_of_le (of_decide_eq_true (hharmless _ hi)))
      · cases hharmless _ hi
      · cases hharmless _ hi
  · rcases haccords.cause e he with (⟨i, hi, hown⟩ | hpasses) | hrefuses | ⟨thread, hi⟩
    · rcases own_of_mem_callIncidents hi hown with ⟨thread, site, fault, rfl, hne, rfl⟩ | ⟨rfl, rfl⟩
      · exact .inl ⟨thread, site, fault, hi, hne, rfl⟩
      · exact .inr (.inl ⟨hi, rfl⟩)
    · exact .inr (.inr (.inr hpasses))
    · exact .inr (.inr (.inl hrefuses))
    · exact absurd hi (hcrash (some thread))

/-- A machine with a routine that fails and one that returns its argument. -/
def twoRoutines : Machine :=
  ((create {} {}).add ⟨"fail", #[.plain .dup]⟩).add ⟨"return", #[.plain .ret]⟩

theorem Used.answer_of_call_after_failure :
    ∃ e, .answered 0 (.error e) ∈ (twoRoutines.during "fail" [] [0, 0, 0, 0]).tasks ∧
      ∃ v, .answered 1 (.ok v) ∈
        ((twoRoutines.afterCall "fail" [] [0, 0, 0, 0]).during "return" [.int 7]
          [0, 0, 0, 0, 0]).tasks := by
  have hfails : Task.answered 0 (.error (.raised .stackUnderflow ⟨"fail", 0, "DUP()"⟩ none)) ∈
      (twoRoutines.during "fail" [] [0, 0, 0, 0]).tasks := List.mem_singleton.mpr rfl
  have hused : (twoRoutines.afterCall "fail" [] [0, 0, 0, 0]).Used :=
    .call (.add (.add (.create {} {}) _) _) "fail" [] [0, 0, 0, 0] hfails
  have hanswer : Task.answered 1 (.ok (.int 7)) ∈
      ((twoRoutines.afterCall "fail" [] [0, 0, 0, 0]).during "return" [.int 7]
        [0, 0, 0, 0, 0]).tasks := List.mem_singleton.mpr rfl
  have hlog : (twoRoutines.afterCall "fail" [] [0, 0, 0, 0]).callIncidents "return" [.int 7]
      [0, 0, 0, 0, 0] = [] := rfl
  obtain ⟨-, hok, -⟩ := hused.answer_of_call hanswer fun thread h => by
    rw [hlog] at h
    cases h
  obtain ⟨v, hv⟩ := hok fun i hi => by
    rw [hlog] at hi
    cases hi
  exact ⟨_, hfails, v, hv ▸ hanswer⟩

end Machine
end Opstack
