import Opstack.Proofs.Lowering.Stretches
import Opstack.Proofs.Machine.Run
import Opstack.Proofs.Source.Evaluation

/-!
# Executions that follow computations

A computation (`Eval`) is what a tree means, an execution is what a machine does.  `Point.Meets`
says that an execution does what a computation does: it gets to a point that shows the outcome, it
fails with the fault of the computation, or, when the computation has no outcome, it takes many
steps without coming to an end.

* `Point.Meets.bind` runs one computation after the other.
* `Scene.Performs` is `Meets` for code between two places that takes operands off and leaves
  others; there is a lemma for every instruction that does so, for instance `performs_binary`.
-/

set_option autoImplicit false

namespace Opstack

/-! ## Points and steps -/

/-- An execution together with the state that it shares. -/
structure Point where
  /-- The shared state. -/
  shared : Shared
  /-- The execution. -/
  execution : Execution

/-- The shared state with another heap and console. -/
def Shared.withWorld (s : Shared) (w : World) : Shared :=
  { s with heap := w.heap, console := w.console }

namespace Point

/-- So many steps lead from one point to another. -/
inductive Leads : Nat → Point → Point → Prop
  | refl (p : Point) : Leads 0 p p
  | step {n : Nat} {s s' : Shared} {x y : Execution} {q : Point}
      (h : Opstack.step s x = (s', .continues y)) (rest : Leads n ⟨s', y⟩ q) :
      Leads (n + 1) ⟨s, x⟩ q

/-- The execution comes to no end within so many steps, or it ends without a result. -/
inductive Lasts (k : Nat) (p : Point) : Prop
  | leads {q : Point} (h : p.Leads k q)
  | crashes {n : Nat} {q : Point} {s : Shared} (h : p.Leads n q)
      (hcrash : Opstack.step q.shared q.execution = (s, .crashes))

section

variable {j k n : Nat} {p q r : Point}

theorem Leads.trans (h : p.Leads j q) (h' : q.Leads k r) : p.Leads (j + k) r := by
  induction h with
  | refl _ =>
    rw [Nat.zero_add]
    exact h'
  | step hstep _ ih =>
    rw [Nat.add_right_comm]
    exact .step hstep (ih h')

theorem Leads.take (h : p.Leads k q) (hj : j ≤ k) : ∃ r, p.Leads j r := by
  induction h generalizing j with
  | refl p =>
    rw [Nat.le_zero.mp hj]
    exact ⟨p, .refl p⟩
  | @step n _ _ _ _ _ hstep _ ih =>
    cases j with
    | zero => exact ⟨_, .refl _⟩
    | succ j =>
      obtain ⟨r, hr⟩ := ih (Nat.le_of_succ_le_succ hj)
      exact ⟨r, .step hstep hr⟩

theorem Lasts.mono (h : p.Lasts k) (hj : j ≤ k) : p.Lasts j := by
  cases h with
  | leads h =>
    obtain ⟨r, hr⟩ := h.take hj
    exact .leads hr
  | crashes h hcrash => exact .crashes h hcrash

theorem Lasts.after (h : p.Leads n q) (h' : q.Lasts k) : p.Lasts (n + k) := by
  cases h' with
  | leads h' => exact .leads (h.trans h')
  | crashes h' hcrash => exact .crashes (h.trans h') hcrash

end

/-! ## Meeting a computation -/

/-- The execution does what the computation does in a world.  Where the computation has an outcome,
the execution gets to such a point or fails with that fault; where it has none, the execution takes
at least so many steps or crashes. -/
def Meets {α : Type} (base : Shared) (k : Nat) (p : Point) (x : Eval α) (w : World)
    (Q : α → World → Point → Prop) : Prop :=
  match x.outcome? w with
  | none => p.Lasts k
  | some (.ok a, w) => ∃ n q, p.Leads n q ∧ Q a w q
  | some (.error e, w) => ∃ n q failure, p.Leads n q ∧
      Opstack.step q.shared q.execution = (base.withWorld w, .fails failure) ∧ failure.fault = e

section

variable {α β : Type} {base : Shared} {j k n : Nat} {p q : Point} {x : Eval α} {w : World}
  {Q : α → World → Point → Prop} {R : β → World → Point → Prop}

theorem Meets.after (h : p.Leads n q) (hq : q.Meets base k x w Q) : p.Meets base (n + k) x w Q := by
  rw [Meets] at hq ⊢
  split at hq
  · exact hq.after h
  · obtain ⟨m, r, hr, hQ⟩ := hq
    exact ⟨n + m, r, h.trans hr, hQ⟩
  · obtain ⟨m, r, failure, hr, hstep, he⟩ := hq
    exact ⟨n + m, r, failure, h.trans hr, hstep, he⟩

theorem Meets.mono (h : p.Meets base k x w Q) (hj : j ≤ k) : p.Meets base j x w Q := by
  rw [Meets] at h ⊢
  split at h
  · exact h.mono hj
  · exact h
  · exact h

/-- Steps before a computation is met. -/
theorem Leads.meets (h : p.Leads n q) (hq : q.Meets base k x w Q) : p.Meets base k x w Q :=
  (hq.after h).mono (Nat.le_add_left k n)

/-- Steps after a computation has been met. -/
theorem Meets.before {Q' : α → World → Point → Prop} (h : p.Meets base k x w Q)
    (hQ : ∀ a w q, Q a w q → ∃ n r, q.Leads n r ∧ Q' a w r) : p.Meets base k x w Q' := by
  rw [Meets] at h ⊢
  split at h
  · exact h
  · obtain ⟨m, q, hq, hq'⟩ := h
    obtain ⟨n, r, hr, hr'⟩ := hQ _ _ _ hq'
    exact ⟨m + n, r, hq.trans hr, hr'⟩
  · exact h

/-- What is known about all values of the computation holds where it has been met. -/
theorem Meets.and {P : α → Prop} (h : p.Meets base k x w Q) (hP : x.Yields P) :
    p.Meets base k x w fun a w q => Q a w q ∧ P a := by
  rw [Meets] at h ⊢
  split at h
  · exact h
  · rename_i a w' ha
    obtain ⟨n, q, hq, hQ⟩ := h
    exact ⟨n, q, hq, hQ, hP w a w' ha⟩
  · exact h

theorem meets_pure {a : α} (h : Q a w p) : p.Meets base k (pure a : Eval α) w Q :=
  ⟨0, p, .refl p, h⟩

/-- **One computation after the other**: from wherever the first one ends the execution has to meet
the second. -/
theorem Meets.bind {f : α → Eval β} (hx : p.Meets base k x w Q)
    (hf : ∀ a w q, Q a w q → q.Meets base k (f a) w R) : p.Meets base k (x >>= f) w R := by
  rw [Meets] at hx
  split at hx
  · rename_i hnone
    rw [Meets]
    rw [Eval.outcome?_bind, hnone]
    exact hx
  · rename_i a w' hok
    obtain ⟨n, q, hq, hQ⟩ := hx
    have hmeets := hq.meets (hf a w' q hQ)
    rw [Meets] at hmeets ⊢
    rw [Eval.outcome?_bind, hok]
    exact hmeets
  · rename_i e w' herror
    rw [Meets]
    rw [Eval.outcome?_bind, herror]
    exact hx

end

end Point

/-! ## Scenes -/

/-- What does not change while one activation of a routine is at work: the routine, the activations
that it will return to, what lies below its operands, and all but the heap and the console of the
shared state. -/
structure Scene where
  /-- The shared state. -/
  base : Shared
  /-- The thread of the execution. -/
  thread : Option ThreadId
  /-- The call that the execution belongs to. -/
  call : Nat
  /-- The activations that called this one. -/
  callers : List Frame
  /-- The routine. -/
  routine : Routine
  /-- The operands of the callers. -/
  below : List Value
  /-- The machine has not been halted. -/
  running : base.isHalted = false

namespace Scene

variable (c : Scene)

/-- The execution in front of an instruction. -/
def execution (place : Nat) (slots : Array Value) (operands : List Value) : Execution :=
  ⟨c.thread, c.call, operands, ⟨c.routine, slots, place⟩ :: c.callers⟩

/-- The point in front of an instruction. -/
def point (w : World) (place : Nat) (slots : Array Value) (operands : List Value) : Point :=
  ⟨c.base.withWorld w, c.execution place slots operands⟩

/-- The point behind the end of the activation. -/
def exit (w : World) (v : Value) : Point :=
  ⟨c.base.withWorld w, ⟨c.thread, c.call, v :: c.below, c.callers⟩⟩

/-- The code between two places does what a computation does: it takes operands off and leaves
others, and touches neither the slots nor any operand below. -/
def Performs {α : Type} (k : Nat) (slots : Array Value) (start stop : Nat) (taken : List Value)
    (x : Eval α) (left : α → List Value) : Prop :=
  ∀ w rest, (c.point w start slots (taken ++ rest)).Meets c.base k x w fun a w' q =>
    q = c.point w' stop slots (left a ++ rest)

section

variable {c} {α β : Type} {k place start mid stop : Nat} {slots : Array Value}
  {taken : List Value} {i : Instr}

variable (c) in
theorem step_execution (w : World) (slots : Array Value) (operands : List Value)
    (hi : c.routine.get? place = some i) :
    step (c.base.withWorld w) (c.execution place slots operands) =
      match perform (c.base.withWorld w) (c.execution (place + 1) slots operands) i with
      | (s, .next x) => (s, .continues x)
      | (s, .fault e) => (s, .fails (.raised e ⟨c.routine.name, place, i.text⟩ c.thread))
      | (s, .spawn x child) => (s, .spawns x child)
      | (s, .wait x t) => (s, .waits x t ⟨c.routine.name, place, i.text⟩)
      | (s, .crash) => (s, .crashes) := by
  simp only [execution, step, hi]
  rw [show (c.base.withWorld w).isHalted = false from c.running]
  rfl

/-- An instruction that goes on or fails, as a computation says. -/
theorem meets_instr {operands : List Value} {x : Eval α} {r : Except Fault α} {w w' : World}
    {f : α → Execution} {Q : α → World → Point → Prop} (hi : c.routine.get? place = some i)
    (hx : x.outcome? w = some (r, w'))
    (hperform : perform (c.base.withWorld w) (c.execution (place + 1) slots operands) i =
      (c.base.withWorld w', .ofExcept (r.map f)))
    (hQ : ∀ a, r = .ok a → Q a w' ⟨c.base.withWorld w', f a⟩) :
    (c.point w place slots operands).Meets c.base k x w Q := by
  have hstep := c.step_execution w slots operands hi
  rw [hperform] at hstep
  rw [Point.Meets]
  rw [hx]
  cases r with
  | ok a => exact ⟨1, _, .step hstep (.refl _), hQ a rfl⟩
  | error e => exact ⟨0, _, _, .refl _, hstep, rfl⟩

/-- An instruction that leaves the slots alone, as a computation says. -/
theorem performs_instr {x : Eval α} {r : World → Except Fault α × World}
    {left : α → List Value} (hi : c.routine.get? place = some i)
    (hx : ∀ w, x.outcome? w = some (r w))
    (hperform : ∀ w rest,
      perform (c.base.withWorld w) (c.execution (place + 1) slots (taken ++ rest)) i =
        (c.base.withWorld (r w).2,
          .ofExcept ((r w).1.map fun a => c.execution (place + 1) slots (left a ++ rest)))) :
    c.Performs k slots place (place + 1) taken x left := fun w rest =>
  meets_instr hi (hx w) (hperform w rest) fun _ _ => rfl

theorem performs_pure {a : α} {left : α → List Value} (h : left a = taken) :
    c.Performs k slots place place taken (pure a : Eval α) left := fun w rest =>
  Point.meets_pure (by rw [h])

/-- Code behind code performs one computation after the other. -/
theorem Performs.bind {x : Eval α} {f : α → Eval β} {left : α → List Value}
    {left' : β → List Value} (hx : c.Performs k slots start mid taken x left)
    (hf : ∀ a, c.Performs k slots mid stop (left a) (f a) left') :
    c.Performs k slots start stop taken (x >>= f) left' := fun w rest =>
  (hx w rest).bind fun a w' _ hq => hq ▸ hf a w' rest

theorem Performs.bind_of_yields {x : Eval α} {f : α → Eval β} {left : α → List Value}
    {left' : β → List Value} {P : α → Prop} (hx : c.Performs k slots start mid taken x left)
    (hP : x.Yields P) (hf : ∀ a, P a → c.Performs k slots mid stop (left a) (f a) left') :
    c.Performs k slots start stop taken (x >>= f) left' := fun w rest =>
  ((hx w rest).and hP).bind fun a w' _ hq => hq.1 ▸ hf a hq.2 w' rest

/-- More operands below make no difference. -/
theorem Performs.frame {x : Eval α} {left : α → List Value}
    (h : c.Performs k slots start stop taken x left) (more : List Value) :
    c.Performs k slots start stop (taken ++ more) x fun a => left a ++ more := fun w rest => by
  have hmore := h w (more ++ rest)
  simpa only [List.append_assoc] using hmore

/-! ### Instructions -/

variable {comment : Option String} {a b v : Value}

theorem performs_push (hi : c.routine.get? place = some ⟨.push, some (.literal v), comment⟩) :
    c.Performs k slots place (place + 1) [] (pure v : Eval Value) fun v => [v] :=
  performs_instr (r := fun w => (.ok v, w)) hi (fun _ => rfl) fun _ _ => rfl

theorem performs_pop (hi : c.routine.get? place = some ⟨.pop, none, comment⟩) :
    c.Performs k slots place (place + 1) [v] (pure () : Eval Unit) fun _ => [] :=
  performs_instr (r := fun w => (.ok (), w)) hi (fun _ => rfl) fun _ _ => rfl

theorem performs_dup (hi : c.routine.get? place = some (.plain .dup)) :
    c.Performs k slots place (place + 1) [v] (pure () : Eval Unit) fun _ => [v, v] :=
  performs_instr (r := fun w => (.ok (), w)) hi (fun _ => rfl) fun _ _ => rfl

theorem performs_load {slot : Nat} (hi : c.routine.get? place = some (.load slot))
    (hv : slots[slot]? = some v) :
    c.Performs k slots place (place + 1) [] (pure v : Eval Value) fun v => [v] := by
  refine performs_instr (r := fun w => (.ok v, w)) hi (fun _ => rfl) fun w rest => ?_
  have hload : (⟨c.routine, slots, place + 1⟩ : Frame).load slot = .ok v := by
    rw [Frame.load, hv]
  change (_, Effect.ofExcept (Frame.load ⟨c.routine, slots, place + 1⟩ slot >>= fun v =>
    .ok (c.execution (place + 1) slots (v :: rest)))) = _
  rw [hload]
  rfl

/-- An operation whose result is wanted in another form. -/
theorem performs_binary_map {op : BinaryOp} {r : Except Fault α} {f : α → Value}
    (hi : c.routine.get? place = some (.plain (.binary op)))
    (hr : Value.binary op a b = r.map f) :
    c.Performs k slots place (place + 1) [b, a] (Eval.lift r) fun v => [f v] := by
  refine performs_instr (r := fun w => (r, w)) hi (fun _ => rfl) fun w rest => ?_
  change (_, Effect.ofExcept (Value.binary op a b >>= fun v =>
    .ok (c.execution (place + 1) slots (v :: rest)))) = _
  rw [hr]
  cases r <;> rfl

theorem performs_binary {op : BinaryOp} (hi : c.routine.get? place = some (.plain (.binary op))) :
    c.Performs k slots place (place + 1) [b, a] (Eval.lift (Value.binary op a b))
      fun v => [v] := by
  refine performs_binary_map hi ?_
  cases Value.binary op a b <;> rfl

theorem performs_unary {op : UnaryOp} (hi : c.routine.get? place = some (.plain (.unary op))) :
    c.Performs k slots place (place + 1) [v] (Eval.lift (Value.unary op v)) fun v => [v] := by
  refine performs_instr (r := fun w => (Value.unary op v, w)) hi (fun _ => rfl) fun w rest => ?_
  change (_, Effect.ofExcept (Value.unary op v >>= fun v =>
    .ok (c.execution (place + 1) slots (v :: rest)))) = _
  cases Value.unary op v <;> rfl

theorem performs_len (hi : c.routine.get? place = some (.plain .len)) :
    c.Performs k slots place (place + 1) [v] (Eval.ofHeap fun h => v.lengthIn h) fun v => [v] := by
  refine performs_instr (r := fun w => (v.lengthIn w.heap, w)) hi (fun _ => rfl) fun w rest => ?_
  cases v with
  | ref o =>
    change (_, Effect.ofExcept (w.heap.arrayLength o >>= fun n =>
      .ok (c.execution (place + 1) slots (.int (Int64.ofNat n) :: rest)))) = _
    rw [Value.lengthIn]
    cases w.heap.arrayLength o <;> rfl
  | _ => rfl

theorem performs_allocs (hi : c.routine.get? place = some (.plain .allocs)) :
    c.Performs k slots place (place + 1) []
      (Eval.onHeap fun h => (.ok h.allocRecord.1, h.allocRecord.2)) fun o => [.ref o] :=
  performs_instr (r := fun w => (.ok w.heap.allocRecord.1, { w with heap := w.heap.allocRecord.2 }))
    hi (fun _ => rfl) fun _ _ => rfl

theorem onHeap_withWorld (s : Shared) (w : World) (f : Heap → Except Fault Execution × Heap) :
    onHeap (s.withWorld w) f =
      (s.withWorld { w with heap := (f w.heap).2 }, .ofExcept (f w.heap).1) := rfl

theorem onConsole_withWorld (s : Shared) (w : World)
    (f : Console → Except Fault Execution × Console) :
    onConsole (s.withWorld w) f =
      (s.withWorld { w with console := (f w.console).2 }, .ofExcept (f w.console).1) := rfl

theorem performs_setf {field : String} (hi : c.routine.get? place = some (.setf field)) :
    c.Performs k slots place (place + 1) [v, a] (Eval.onHeap fun h => a.setFieldIn h field v)
      fun _ => [] := by
  refine performs_instr (r := fun w => ((a.setFieldIn w.heap field v).1,
    { w with heap := (a.setFieldIn w.heap field v).2 })) hi (fun _ => rfl) fun w rest => ?_
  change onHeap (c.base.withWorld w) (fun h =>
    (c.execution (place + 1) slots (v :: a :: rest)).setField h (.setf field)) = _
  rw [onHeap_withWorld]
  cases a with
  | ref o =>
    simp only [Execution.setField, execution, Execution.pop, Value.asObject, Instr.nameArg,
      Instr.setf, Value.setFieldIn, bind, Except.bind, pure, Except.pure]
    rcases w.heap.setField o field v with ⟨r, h⟩
    cases r <;> rfl
  | _ => rfl

theorem performs_getf {field : String} (hi : c.routine.get? place = some (.getf field)) :
    c.Performs k slots place (place + 1) [a] (Eval.ofHeap fun h => a.fieldIn h field)
      fun v => [v] := by
  refine performs_instr (r := fun w => (a.fieldIn w.heap field, w)) hi (fun _ => rfl)
    fun w rest => ?_
  change (_, Effect.ofExcept (a.asObject .getf >>= fun o => w.heap.getField o field >>= fun v =>
    .ok (c.execution (place + 1) slots (v :: rest)))) = _
  rw [Value.fieldIn]
  cases a.asObject .getf with
  | error e => rfl
  | ok o =>
    change (_, Effect.ofExcept (w.heap.getField o field >>= _)) =
      (_, Effect.ofExcept ((w.heap.getField o field).map _))
    cases w.heap.getField o field <;> rfl

theorem performs_alloca (hi : c.routine.get? place = some (.plain .alloca)) :
    c.Performs k slots place (place + 1) [v] (Eval.onHeap fun h => v.arrayIn h) fun v => [v] := by
  refine performs_instr (r := fun w => ((v.arrayIn w.heap).1,
    { w with heap := (v.arrayIn w.heap).2 })) hi (fun _ => rfl) fun w rest => ?_
  change onHeap (c.base.withWorld w)
    (c.execution (place + 1) slots (v :: rest)).newArray = _
  rw [onHeap_withWorld]
  cases v with
  | int n =>
    have hnumber : (Value.int n).asNumber .alloca = .ok n := rfl
    simp only [Execution.newArray, execution, Execution.pop, Value.arrayIn, hnumber, bind,
      Except.bind, pure, Except.pure]
    rcases w.heap.allocArray n with ⟨r, h⟩
    cases r <;> rfl
  | _ => rfl

theorem performs_seti (hi : c.routine.get? place = some (.plain .seti)) :
    c.Performs k slots place (place + 1) [v, b, a] (Eval.onHeap fun h => a.setCellIn h b v)
      fun _ => [] := by
  refine performs_instr (r := fun w => ((a.setCellIn w.heap b v).1,
    { w with heap := (a.setCellIn w.heap b v).2 })) hi (fun _ => rfl) fun w rest => ?_
  change onHeap (c.base.withWorld w)
    (c.execution (place + 1) slots (v :: b :: a :: rest)).setIndex = _
  rw [onHeap_withWorld]
  simp only [Execution.setIndex, execution, Execution.pop, Value.setCellIn, bind, Except.bind,
    pure, Except.pure]
  cases a.asObject .seti with
  | error e => rfl
  | ok o =>
    cases b.asIndex .seti with
    | error e => rfl
    | ok n =>
      simp only
      rcases w.heap.setIndex o n v with ⟨r, h⟩
      cases r <;> rfl

theorem performs_geti (hi : c.routine.get? place = some (.plain .geti)) :
    c.Performs k slots place (place + 1) [b, a] (Eval.ofHeap fun h => a.cellIn h b)
      fun v => [v] := by
  refine performs_instr (r := fun w => (a.cellIn w.heap b, w)) hi (fun _ => rfl) fun w rest => ?_
  change (_, Effect.ofExcept (a.asObject .geti >>= fun o => b.asIndex .geti >>= fun n =>
    w.heap.getIndex o n >>= fun v => .ok (c.execution (place + 1) slots (v :: rest)))) = _
  rw [Value.cellIn]
  cases a.asObject .geti with
  | error e => rfl
  | ok o =>
    cases b.asIndex .geti with
    | error e => rfl
    | ok n =>
      change (_, Effect.ofExcept (w.heap.getIndex o n >>= _)) =
        (_, Effect.ofExcept ((w.heap.getIndex o n).map _))
      cases w.heap.getIndex o n <;> rfl

theorem performs_write (hi : c.routine.get? place = some (.plain .write)) :
    c.Performs k slots place (place + 1) [v] (Eval.onConsole fun c => c.write v.text)
      fun _ => [] := by
  refine performs_instr (r := fun w => ((w.console.write v.text).1.mapError .io,
    { w with console := (w.console.write v.text).2 })) hi (fun _ => rfl) fun w rest => ?_
  change onConsole (c.base.withWorld w)
    (c.execution (place + 1) slots (v :: rest)).write = _
  rw [onConsole_withWorld]
  simp only [Execution.write, execution, Execution.pop]
  rcases w.console.write v.text with ⟨r, console⟩
  cases r <;> rfl

theorem performs_read (hi : c.routine.get? place = some (.plain .read)) :
    c.Performs k slots place (place + 1) [] (Eval.onConsole Console.readLine)
      fun line => [.ofLine line] := by
  refine performs_instr (r := fun w => (w.console.readLine.1.mapError .io,
    { w with console := w.console.readLine.2 })) hi (fun _ => rfl) fun w rest => ?_
  change onConsole (c.base.withWorld w) (c.execution (place + 1) slots rest).read = _
  rw [onConsole_withWorld]
  simp only [Execution.read]
  rcases w.console.readLine with ⟨r, console⟩
  cases r with
  | error reason => rfl
  | ok line => cases line <;> rfl

/-! ### Slots and jumps -/

variable {w : World} {rest operands : List Value} {slot target : Nat}

/-- The slot lies below the limit, and a list of slots can have it. -/
def Room (c : Scene) (slot : Nat) : Prop :=
  slot < c.base.config.maxFrameSlots ∧ slot < c.base.config.host.capacity

/-- What a `STORE` does where there is an operand. -/
theorem perform_store :
    perform (c.base.withWorld w) (c.execution place slots (v :: rest))
        ⟨.store, some (.slot slot), comment⟩ =
      (c.base.withWorld w,
        if c.base.config.maxFrameSlots ≤ slot then .fault (.invalidStoreIndex slot)
        else if c.base.config.host.capacity ≤ slot then .crash
        else .next (c.execution place (storeSlot slots slot v) rest)) := by
  change (if decide (c.base.config.host.capacity ≤ slot ∧
        slot < c.base.config.maxFrameSlots) = true then (c.base.withWorld w, Effect.crash)
    else (c.base.withWorld w, Effect.ofExcept
      (Frame.store ⟨c.routine, slots, place⟩ slot v c.base.config.maxFrameSlots >>= fun f =>
        .ok ⟨c.thread, c.call, rest, f :: c.callers⟩))) = _
  by_cases hlimit : c.base.config.maxFrameSlots ≤ slot
  · have hover : ¬(c.base.config.host.capacity ≤ slot ∧ slot < c.base.config.maxFrameSlots) :=
      fun h => absurd h.2 (Nat.not_lt.mpr hlimit)
    rw [decide_eq_false hover, if_pos hlimit, Frame.store, if_neg (Nat.not_lt.mpr hlimit)]
    rfl
  · have hlt := Nat.lt_of_not_le hlimit
    by_cases hcapacity : c.base.config.host.capacity ≤ slot
    · rw [decide_eq_true ⟨hcapacity, hlt⟩, if_neg hlimit, if_pos hcapacity]
      rfl
    · rw [decide_eq_false fun h => hcapacity h.1, if_neg hlimit, if_neg hcapacity, Frame.store,
        if_pos hlt]
      rfl

theorem leads_store (hi : c.routine.get? place = some ⟨.store, some (.slot slot), comment⟩)
    (hroom : c.Room slot) :
    (c.point w place slots (v :: rest)).Leads 1
      (c.point w (place + 1) (storeSlot slots slot v) rest) := by
  have hstep := c.step_execution w slots (v :: rest) hi
  rw [perform_store, if_neg (Nat.not_le.mpr hroom.1), if_neg (Nat.not_le.mpr hroom.2)] at hstep
  exact .step hstep (.refl _)

/-- A `STORE` to the slot of a new variable fails or crashes where there is no room for it. -/
theorem meets_reserve {env : Env} (henv : env.config = c.base.config)
    (hi : c.routine.get? place = some ⟨.store, some (.slot slot), comment⟩) :
    (c.point w place slots (v :: rest)).Meets c.base k (env.reserve slot) w fun _ w' q =>
      c.Room slot ∧ q = c.point w' (place + 1) (storeSlot slots slot v) rest := by
  have hstep := c.step_execution w slots (v :: rest) hi
  rw [perform_store] at hstep
  rw [Env.reserve, henv]
  by_cases hlimit : c.base.config.maxFrameSlots ≤ slot
  · rw [if_pos hlimit] at hstep ⊢
    exact ⟨0, _, _, .refl _, hstep, rfl⟩
  · rw [if_neg hlimit] at hstep ⊢
    by_cases hcapacity : c.base.config.host.capacity ≤ slot
    · rw [if_pos hcapacity] at hstep ⊢
      exact .crashes (.refl _) hstep
    · rw [if_neg hcapacity] at hstep ⊢
      exact ⟨1, _, .step hstep (.refl _),
        ⟨Nat.lt_of_not_le hlimit, Nat.lt_of_not_le hcapacity⟩, rfl⟩

theorem leads_jmp (hi : c.routine.get? place = some (.jmp target)) :
    (c.point w place slots operands).Leads 1 (c.point w target slots operands) :=
  .step (c.step_execution w slots operands hi) (.refl _)

theorem meets_jmpf (hi : c.routine.get? place = some (.jmpf target)) :
    (c.point w place slots (v :: rest)).Meets c.base k (Eval.lift v.condition) w fun b w' q =>
      q = c.point w' (if b then place + 1 else target) slots rest := by
  refine meets_instr (r := v.condition)
    (f := fun b => c.execution (if b then place + 1 else target) slots rest) hi rfl ?_
    fun _ _ => rfl
  cases v with
  | bool b => cases b <;> rfl
  | _ => rfl

theorem leads_jmpf (hi : c.routine.get? place = some (.jmpf target)) (b : Bool) :
    (c.point w place slots (.bool b :: rest)).Leads 1
      (c.point w (if b then place + 1 else target) slots rest) := by
  cases b with
  | true => exact .step (c.step_execution w slots (.bool true :: rest) hi) (.refl _)
  | false => exact .step (c.step_execution w slots (.bool false :: rest) hi) (.refl _)

theorem leads_ret (hi : c.routine.get? place = some ⟨.ret, none, comment⟩) :
    (c.point w place slots (v :: c.below)).Leads 1 (c.exit w v) :=
  .step (c.step_execution w slots (v :: c.below) hi) (.refl _)

end

end Scene
end Opstack
