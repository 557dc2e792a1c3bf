import Opstack.Machine.Session
import Opstack.Proofs.Heap.References
import Opstack.Proofs.Machine.Faults
import Opstack.Proofs.Machine.Rest

/-!
# Sessions

A session is everything that happens to a machine from its creation on: routines are registered,
its heap is asked from outside, calls begin, tasks take turns and answers are taken, in any order.

* `Machine.live` is the machine after the events of a session.
* `Machine.live_induction`: what each event keeps, as long as it observes a rule, holds of the
  whole session.
* `Machine.exists_requests_of_live`: whatever the executions of a machine do to its heap, each
  operation in one step, the heap has a history, so what holds of all histories holds in every
  order in which executions proceed.
-/

set_option autoImplicit false

namespace Opstack

/-- What can happen to a machine in a session. -/
inductive Event
  /-- A routine is registered. -/
  | add (routine : Routine)
  /-- The heap is asked from outside. -/
  | ask (request : Heap.Request)
  /-- A call begins, a task takes a turn, or an answer is taken. -/
  | move (move : Move)

namespace Machine

/-- The machine after an event. -/
def react (m : Machine) : Event → Machine
  | .add routine => m.add routine
  | .ask request =>
    { m with shared := { m.shared with heap := (m.shared.heap.serve request).2 } }
  | .move move => m.move move

/-- The machine after several events. -/
def live (m : Machine) (events : List Event) : Machine := events.foldl react m

/-- Every event of a session observes a rule about the machine that it happens to. -/
def Observes (m : Machine) (rule : Machine → Event → Prop) (events : List Event) : Prop :=
  ∀ earlier event later, events = earlier ++ event :: later → rule (m.live earlier) event

theorem observes_nil (m : Machine) (rule : Machine → Event → Prop) : m.Observes rule [] := by
  intro earlier event later hevents
  cases earlier <;> cases hevents

theorem observes_cons {m : Machine} {rule : Machine → Event → Prop} {event : Event}
    {events : List Event} (hevent : rule m event) (hevents : (m.react event).Observes rule events) :
    m.Observes rule (event :: events) := by
  intro earlier event' later heq
  cases earlier with
  | nil =>
    cases heq
    exact hevent
  | cons _ earlier =>
    cases heq
    exact hevents earlier event' later rfl

theorem live_append (m : Machine) (events more : List Event) :
    m.live (events ++ more) = (m.live events).live more :=
  List.foldl_append

/-- A session that observes a rule observes it up to any event, and from any event on. -/
theorem Observes.of_append {m : Machine} {rule : Machine → Event → Prop}
    {events more : List Event} (h : m.Observes rule (events ++ more)) :
    m.Observes rule events ∧ (m.live events).Observes rule more := by
  constructor
  · rintro earlier event later rfl
    exact h earlier event (later ++ more) (by rw [List.append_assoc, List.cons_append])
  · rintro earlier event later rfl
    rw [← live_append]
    exact h (events ++ earlier) event later (List.append_assoc _ _ _).symm

/-- **Induction over a session**: what holds before the first event and is kept by every event
that observes the rule holds after all of them. -/
theorem live_induction {m : Machine} {rule : Machine → Event → Prop}
    {P : List Event → Machine → Prop} {events : List Event} (hrule : m.Observes rule events)
    (start : P [] m)
    (one : ∀ earlier event, rule (m.live earlier) event → P earlier (m.live earlier) →
      P (earlier ++ [event]) ((m.live earlier).react event)) :
    P events (m.live events) := by
  suffices hpast : ∀ later earlier, events = earlier ++ later → P earlier (m.live earlier) →
      P events (m.live events) from hpast events [] rfl start
  intro later
  induction later with
  | nil =>
    rintro earlier rfl hP
    rwa [List.append_nil]
  | cons event later ih =>
    intro earlier hevents hP
    refine ih (earlier ++ [event]) (by rw [hevents, List.append_cons]) ?_
    rw [live_append]
    exact one earlier event (hrule earlier event later hevents) hP

/-- The tasks at the positions take turns. -/
def turnsAt (positions : List Nat) : List Event :=
  positions.map fun position => .move (.advance position)

theorem observes_turnsAt {m : Machine} {rule : Machine → Event → Prop}
    (hrule : ∀ m position, rule m (.move (.advance position))) (positions : List Nat) :
    m.Observes rule (turnsAt positions) := by
  induction positions generalizing m with
  | nil => exact observes_nil m rule
  | cons position rest ih => exact observes_cons (hrule m position) ih

end Machine

/-! ## What becomes of the heap -/

theorem heap_spawnThread (s : Shared) (x : Execution) : (spawnThread s x).1.heap = s.heap := by
  obtain ⟨threads, hthreads⟩ := exists_spawnThread s x
  rw [hthreads]

theorem heap_claimThread (s : Shared) (x : Execution) : (claimThread s x).1.heap = s.heap := by
  obtain ⟨threads, hthreads⟩ := exists_claimThread s x
  rw [hthreads]

theorem heap_setField (x : Execution) (h : Heap) (i : Instr) :
    h.ServesOne x.operands (x.setField h i).2 := by
  rcases x.setField_cases h i with ⟨e, -, heq⟩ | ⟨v, o, field, rest, hoperands, heq⟩ <;> rw [heq]
  · exact .inl rfl
  · refine .inr ⟨.setField o field v, rfl, fun w hw => ?_⟩
    rw [← Option.some.inj hw, hoperands]
    exact List.mem_cons_self

theorem heap_newArray (x : Execution) (h : Heap) :
    h.ServesOne x.operands (x.newArray h).2 := by
  rcases x.newArray_cases h with ⟨e, -, heq⟩ | ⟨v, length, rest, -, heq⟩ <;> rw [heq]
  · exact .inl rfl
  · exact .inr ⟨.allocArray length (h.hasRoom length), rfl, fun w hw => by cases hw⟩

theorem heap_setIndex (x : Execution) (h : Heap) :
    h.ServesOne x.operands (x.setIndex h).2 := by
  rcases x.setIndex_cases h with ⟨e, -, heq⟩ | ⟨v, n, o, index, rest, hoperands, heq⟩ <;> rw [heq]
  · exact .inl rfl
  · refine .inr ⟨.setIndex o index v, rfl, fun w hw => ?_⟩
    rw [← Option.some.inj hw, hoperands]
    exact List.mem_cons_self

/-- **An instruction asks the heap at most once.** -/
theorem heap_perform (s : Shared) (x : Execution) (i : Instr) :
    s.heap.ServesOne x.operands (perform s x i).1.heap := by
  rw [perform]
  split
  case h_4 => split <;> exact .inl rfl
  case h_14 => exact .inr ⟨.allocRecord, rfl, fun v hv => by cases hv⟩
  case h_15 => exact heap_setField x s.heap i
  case h_17 => exact heap_newArray x s.heap
  case h_18 => exact heap_setIndex x s.heap
  case h_20 => exact .inl (heap_spawnThread s x)
  case h_21 => exact .inl (heap_claimThread s x)
  all_goals exact .inl rfl

theorem heap_step (s : Shared) (x : Execution) :
    s.heap.ServesOne x.operands (step s x).1.heap := by
  rcases step_cases s x with ⟨-, hstep⟩ | ⟨i, -, -, hstep⟩ | ⟨i, -, -, hstep⟩ <;> rw [hstep]
  · exact .inl rfl
  · exact .inl rfl
  · rw [← x.operands_passed]
    exact heap_perform s x.passed i

/-- A step leaves the limits on arrays as they are. -/
theorem limits_step (s : Shared) (x : Execution) : (step s x).1.heap.limits = s.heap.limits := by
  obtain ⟨requests, hheap⟩ := (heap_step s x).exists_requests
  rw [hheap, Heap.limits_after]

namespace Task

/-- The heap after a turn of an execution is the heap after its step. -/
theorem heap_turn_running (s : Shared) (x : Execution) :
    ((running x).turn s).1.heap = (step s x).1.heap := by
  obtain ⟨threads, hturn⟩ := exists_turn_running s x
  rw [hturn]

theorem heap_record (s : Shared) (thread : Option ThreadId) (call : Nat) (e : Failure) :
    (record s thread call e).1.heap = s.heap := by
  obtain ⟨threads, hthreads⟩ := exists_record s thread call e
  rw [hthreads]
  rfl

theorem heap_join (s : Shared) (call : Nat) : (join s call).heap = s.heap := by
  obtain ⟨console, failure, isHalted, hjoin⟩ := exists_join s call
  rw [hjoin]

/-- The operands of the execution of the task. -/
def operands : Task → List Value
  | .running x => x.operands
  | _ => []

/-- A turn asks the heap at most once, with operands of the execution. -/
theorem heap_turn (s : Shared) (t : Task) : s.heap.ServesOne t.operands (t.turn s).1.heap := by
  cases t with
  | running x =>
    rw [heap_turn_running]
    exact heap_step s x
  | waiting | closing | answered => exact .inl rfl
  | failing thread call e => exact .inl (heap_record s thread call e)
  | joining call result =>
    rw [turn]
    split
    · exact .inl (heap_join s call)
    · exact .inl rfl

end Task

namespace Machine

theorem exists_requests_of_advance (m : Machine) (position : Nat) :
    ∃ requests, (m.advance position).shared.heap = m.shared.heap.after requests := by
  cases ht : m.tasks[position]? with
  | none =>
    rw [advance_eq_self ht]
    exact ⟨[], rfl⟩
  | some t =>
    obtain ⟨before, after, -, hadvance⟩ := advance_eq ht
    rw [hadvance]
    exact (t.heap_turn m.shared).exists_requests

theorem exists_requests_of_react (m : Machine) (event : Event) :
    ∃ requests, (m.react event).shared.heap = m.shared.heap.after requests := by
  cases event with
  | add routine => exact ⟨[], rfl⟩
  | ask request => exact ⟨[request], rfl⟩
  | move move =>
    cases move with
    | begin | forget => exact ⟨[], rfl⟩
    | advance position => exact m.exists_requests_of_advance position

/-- **The heap of a machine has a history**, in whatever order its executions proceed. -/
theorem exists_requests_of_live (m : Machine) (events : List Event) :
    ∃ requests, (m.live events).shared.heap = m.shared.heap.after requests := by
  have hevents : m.Observes (fun _ _ => True) events := fun _ _ _ _ => trivial
  refine live_induction
    (P := fun _ later => ∃ requests, later.shared.heap = m.shared.heap.after requests)
    hevents ⟨[], rfl⟩ fun earlier event _ hpast => ?_
  obtain ⟨requests, hrequests⟩ := hpast
  obtain ⟨more, hmore⟩ := (m.live earlier).exists_requests_of_react event
  exact ⟨requests ++ more, by rw [hmore, hrequests, Heap.after_append]⟩

end Machine
end Opstack
