import Opstack.Proofs.Machine.Sole

/-!
# What a failing instruction leaves behind

An instruction touches what the executions share in one place, after it has taken its operands off
and looked at them, and the operations of the heap that can fail change nothing when they do
(`Heap.Spares`).  So an instruction that fails has changed nothing at all (`shared_of_fault`).  This
does not extend to the console, where `READ` flushes before it reads and takes a line off before it
finds that it is no text, nor to threads, where `WAIT` asks for a result before it knows it.

From the failure on the call only ends: its output is flushed, and the next call finds everything
else as the instruction found it (`Machine.Sole.run_of_fault`).
-/

set_option autoImplicit false

namespace Opstack

/-! ## Operations on the heap -/

/-- If the operation has failed, then it has left the heap as it was. -/
def Heap.Spares {α : Type} (h : Heap) (r : Except Fault α × Heap) : Prop :=
  ∀ e, r.1 = .error e → r.2 = h

section

variable {α β : Type} {h : Heap}

theorem Heap.spares_error (h : Heap) (e : Fault) :
    h.Spares ((.error e, h) : Except Fault α × Heap) := fun _ _ => rfl

theorem Heap.spares_ok (h h' : Heap) (a : α) : h.Spares (Except.ok a, h') := by
  intro e he
  cases he

theorem Heap.Spares.map {r : Except Fault α × Heap} (hr : h.Spares r) (f : α → β) :
    h.Spares (r.1.map f, r.2) := by
  obtain ⟨result, h'⟩ := r
  cases result with
  | error e => exact fun _ _ => hr e rfl
  | ok a => exact h.spares_ok h' (f a)

namespace Heap

theorem spares_setField (h : Heap) (o : ObjectId) (field : String) (v : Value) :
    h.Spares (h.setField o field v) := by
  rcases h.setField_cases o field v with ⟨fields, -, heq⟩ | ⟨-, heq⟩ <;> rw [heq]
  · exact h.spares_ok _ _
  · exact h.spares_error _

theorem spares_allocArray (h : Heap) (length : Int64) : h.Spares (h.allocArray length) := by
  rw [allocArray]
  rcases h.allocArrayIf_cases length (h.hasRoom length) with ⟨-, heq⟩ | ⟨e, -, heq⟩ <;> rw [heq]
  · exact h.spares_ok _ _
  · exact h.spares_error _

theorem spares_setIndex (h : Heap) (o : ObjectId) (index : Int64) (v : Value) :
    h.Spares (h.setIndex o index v) := by
  rcases h.setIndex_cases o index v with ⟨cells, i, -, -, heq⟩ | ⟨cells, e, -, -, heq⟩ |
    ⟨-, heq⟩ <;> rw [heq]
  · exact h.spares_ok _ _
  · exact h.spares_error _
  · exact h.spares_error _

end Heap

namespace Execution

theorem spares_setField (x : Execution) (h : Heap) (i : Instr) : h.Spares (x.setField h i) := by
  rcases x.setField_cases h i with ⟨e, -, heq⟩ | ⟨v, o, field, rest, -, heq⟩ <;> rw [heq]
  · exact h.spares_error e
  · exact (h.spares_setField o field v).map _

theorem spares_newArray (x : Execution) (h : Heap) : h.Spares (x.newArray h) := by
  rcases x.newArray_cases h with ⟨e, -, heq⟩ | ⟨v, length, rest, -, heq⟩ <;> rw [heq]
  · exact h.spares_error e
  · exact (h.spares_allocArray length).map _

theorem spares_setIndex (x : Execution) (h : Heap) : h.Spares (x.setIndex h) := by
  rcases x.setIndex_cases h with ⟨e, -, heq⟩ | ⟨v, n, o, index, rest, -, heq⟩ <;> rw [heq]
  · exact h.spares_error e
  · exact (h.spares_setIndex o index v).map _

end Execution

end

/-! ## One instruction -/

section

variable {s : Shared} {x : Execution} {i : Instr} {e : Fault}

theorem onHeap_of_fault {f : Heap → Except Fault Execution × Heap} (hf : s.heap.Spares (f s.heap))
    (h : (onHeap s f).2 = .fault e) : (onHeap s f).1 = s := by
  have hresult : (f s.heap).1 = .error e := by
    change Effect.ofExcept (f s.heap).1 = .fault e at h
    cases hr : (f s.heap).1 with
    | ok y =>
      rw [hr] at h
      cases h
    | error e' =>
      rw [hr] at h
      cases h
      rfl
  have hheap : (onHeap s f).1 = { s with heap := (f s.heap).2 } := rfl
  rw [hheap, hf e hresult]

/-- An instruction that fails leaves the shared state as it is. -/
theorem shared_of_fault (hconsole : i.op ≠ .read ∧ i.op ≠ .write)
    (hthreads : i.op ≠ .thread ∧ i.op ≠ .wait) (h : (perform s x i).2 = .fault e) :
    (perform s x i).1 = s := by
  rw [perform] at h ⊢
  split
  case h_4 => split <;> rfl
  case h_11 hop => exact absurd hop hconsole.2
  case h_12 hop => exact absurd hop hconsole.1
  case h_14 hop =>
    simp only [hop] at h
    cases h
  case h_15 hop =>
    simp only [hop] at h
    exact onHeap_of_fault (x.spares_setField s.heap i) h
  case h_17 hop =>
    simp only [hop] at h
    exact onHeap_of_fault (x.spares_newArray s.heap) h
  case h_18 hop =>
    simp only [hop] at h
    exact onHeap_of_fault (x.spares_setIndex s.heap) h
  case h_20 hop => exact absurd hop hthreads.1
  case h_21 hop => exact absurd hop hthreads.2
  all_goals rfl

end

/-! ## The rest of the call -/

section

variable {s : Shared} {number : Nat} {failure : Failure}

/-- The failure of a call without threads is taken at its end, and then only the console has
changed. -/
theorem Task.takeFailure_join_fail (hfailure : s.failure = none) (hrun : s.isHalted = false)
    (hthreads : ∀ r ∈ s.threads.toList, r.call ≠ number) :
    (join (s.fail failure) number).takeFailure =
      (some failure, { s with console := s.console.flush.2 }) := by
  have hcrashed : (s.fail failure).crashed number = [] :=
    Shared.crashed_eq_nil fun r hr hcall => absurd hcall (hthreads r hr)
  obtain ⟨routines, config, heap, console, threads, recorded, isHalted⟩ := s
  subst hfailure hrun
  rw [join, hcrashed]
  simp only [List.foldl_nil, Shared.fail]
  rcases console.flush with ⟨⟨reason⟩ | ⟨⟩, console'⟩ <;> rfl

namespace Machine

variable {calls : Nat}

/-- The failure of its only execution ends a call. -/
theorem run_of_failing (hfailure : s.failure = none) (hrun : s.isHalted = false)
    (hthreads : ∀ r ∈ s.threads.toList, r.call ≠ number) (n : Nat) :
    run (n + 3) ⟨s, [.failing none number failure], calls⟩ =
      ⟨{ s with console := s.console.flush.2 }, [.answered number (.error failure)], calls⟩ := by
  have hmove : (Task.joining number (.error failure)).canMove (s.fail failure) = true :=
    hasJoined_of_ne hthreads
  have hjoining := Task.turn_joining (s := s.fail failure) hthreads (.error failure)
  have hclosing : (Task.closing number (.error failure)).turn
      (Task.join (s.fail failure) number) =
      ({ s with console := s.console.flush.2 }, [.answered number (.error failure)]) := by
    rw [Task.turn, Task.takeFailure_join_fail hfailure hrun hthreads]
    rfl
  calc run (n + 3) ⟨s, [.failing none number failure], calls⟩
      = run (n + 2) ⟨s.fail failure, [.joining number (.error failure)], calls⟩ := run_one rfl _
    _ = run (n + 1) ⟨Task.join (s.fail failure) number, [.closing number (.error failure)],
          calls⟩ := by
        rw [run_one hmove, hjoining]
    _ = run n ⟨{ s with console := s.console.flush.2 }, [.answered number (.error failure)],
          calls⟩ := by
        rw [run_one rfl, hclosing]
    _ = _ := run_of_ready?_eq_none (ready?_of_stuck rfl rfl) n

/-- A fault of its only execution ends the call, which leaves the shared state as the instruction
has left it, with the output flushed. -/
theorem Sole.run_of_fault {m : Machine} {x : Execution} {i : Instr} {e : Fault}
    (hm : m.Sole number) (htasks : m.tasks = [.running x]) (hi : x.instr? = some i)
    (hfault : perform m.shared x.passed i = (m.shared, .fault e)) (n : Nat) :
    run (n + 4) m = ⟨{ m.shared with console := m.shared.console.flush.2 },
      [.answered number (.error (.raised e (x.siteOf i) none))], m.calls⟩ := by
  obtain ⟨hthread, hcall, hfailure, hrun⟩ := hm.of_tasks htasks
  have hturn : (Task.running x).turn m.shared =
      (m.shared, [.failing none number (.raised e (x.siteOf i) none)]) := by
    rw [Task.turn, step_of_instr? hi hrun, hfault, hthread, hcall]
    rfl
  rw [run_succ_of_tasks htasks rfl, Machine.turned, hturn]
  exact run_of_failing hfailure hrun hm.threads n

end Machine

end

/-! ## Faults -/

/-- **A failing instruction leaves the shared state as it was**, whatever its operands and its
execution are: every object, every routine, every thread, the output and the input.  And if its
execution is the only one, then so does the call that it ends, but for the output, which is
flushed. -/
theorem perform_of_fault {s : Shared} {x : Execution} {i : Instr} {e : Fault}
    (hop : i.op ∉ [.read, .write, .thread, .wait]) (h : (perform s x i).2 = .fault e) :
    (perform s x i).1 = s ∧
      ∀ (m : Machine) (number : Nat) (y : Execution), m.Sole number → m.shared = s →
        m.tasks = [.running y] → y.instr? = some i → y.passed = x → ∀ n,
          Machine.run (n + 4) m = ⟨{ s with console := s.console.flush.2 },
            [.answered number (.error (.raised e (y.siteOf i) none))], m.calls⟩ := by
  simp only [List.mem_cons, List.not_mem_nil, or_false, not_or] at hop
  obtain ⟨hread, hwrite, hthread, hwait⟩ := hop
  have hshared := shared_of_fault ⟨hread, hwrite⟩ ⟨hthread, hwait⟩ h
  refine ⟨hshared, ?_⟩
  rintro m number y hm rfl htasks hi rfl n
  exact hm.run_of_fault htasks hi (Prod.ext hshared h) n

/-- A routine that sets a cell. -/
def assigner : Routine := ⟨"assigner", #[.plain .seti, .push .null, .plain .ret]⟩

/-- There is an array of one cell. -/
def oneCell : Shared := { routines := [assigner], heap := { objects := #[.array #[.null]] } }

/-- The routine is about to set the sixth cell of the array. -/
def beyondEnd : Execution :=
  ⟨none, 0, [.int 7, .int 5, .ref Heap.firstObject], [{ routine := assigner }]⟩

theorem perform_of_fault_beyondEnd :
    (perform oneCell beyondEnd.passed (.plain .seti)).2 = .fault (.indexOutOfBounds 5 1) ∧
      (perform oneCell beyondEnd.passed (.plain .seti)).1 = oneCell ∧
      ∀ n, Machine.run (n + 4) ⟨oneCell, [.running beyondEnd], 1⟩ =
        ⟨{ oneCell with console := oneCell.console.flush.2 },
          [.answered 0 (.error (.raised (.indexOutOfBounds 5 1)
            (beyondEnd.siteOf (.plain .seti)) none))], 1⟩ := by
  have hfault : (perform oneCell beyondEnd.passed (.plain .seti)).2 =
      .fault (.indexOutOfBounds 5 1) := rfl
  have hsole : Machine.Sole 0 ⟨oneCell, [.running beyondEnd], 1⟩ :=
    ⟨.inr ⟨_, rfl, rfl, rfl, rfl, rfl⟩, fun r hr => by cases hr⟩
  obtain ⟨hshared, hcall⟩ := perform_of_fault (by decide) hfault
  exact ⟨hfault, hshared, hcall _ 0 beyondEnd hsole rfl rfl rfl rfl⟩

end Opstack
