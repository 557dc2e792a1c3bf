import Opstack.Proofs.Machine.Placement

/-!
# Executions upon others

All activations of an execution share its operand stack, so a function that is called works on top
of whatever its callers have left there.  An instruction that finds its operands does not see what
lies below: `Execution.onto` puts an execution on the stacks of another one, as whose it then
counts, and `step_onto` says that it takes the same step there as alone.  Only `CALL` looks at how
deep the call stack is, and may fail for it.

Whoever neither starts threads nor waits for any does not see the table of threads either
(`step_withThreads`).

Where only operands lie below, and no activations, not even `CALL` and the instructions about
threads see them (`step_onto_operands`).
-/

set_option autoImplicit false

namespace Opstack

/-! ## What an instruction makes of an execution -/

/-- The execution with its operands and activations on top of those of another one, as whose it
counts. -/
def Execution.onto (x base : Execution) : Execution :=
  ⟨base.thread, base.call, x.operands ++ base.operands, x.frames ++ base.frames⟩

/-- What an instruction makes of an execution that is on top of another one. -/
def Effect.onto (base : Execution) : Effect → Effect
  | .next x => .next (x.onto base)
  | .fault e => .fault e
  | .spawn x child => .spawn (x.onto base) child
  | .wait x thread => .wait (x.onto base) thread
  | .crash => .crash

/-- The call stack is too high for a `CALL`. -/
def Fault.isDepth : Fault → Bool
  | .callDepthExceeded _ => true
  | _ => false

/-! ## Operations -/

namespace Execution

section

variable {x base : Execution}

@[simp] theorem frames_onto (x base : Execution) :
    (x.onto base).frames = x.frames ++ base.frames := rfl

/-- What both executions first ask for is the same. -/
theorem bind_onto {α : Type} (r : Except Fault α) {k k' : α → Except Fault Execution}
    (h : ∀ a, k' a = (k a).map (onto · base)) : (r >>= k') = (r >>= k).map (onto · base) := by
  cases r with
  | error e => rfl
  | ok a => exact h a

theorem pop_onto (h : 1 ≤ x.operands.length) :
    (x.onto base).pop.map Prod.snd = (x.pop.map Prod.snd).map (onto · base) := by
  obtain ⟨thread, call, _ | ⟨v, rest⟩, frames⟩ := x
  · cases h
  · rfl

theorem dup_onto (h : 1 ≤ x.operands.length) :
    (x.onto base).dup = x.dup.map (onto · base) := by
  obtain ⟨thread, call, _ | ⟨v, rest⟩, frames⟩ := x
  · cases h
  · rfl

theorem load_onto (h : x.frames ≠ []) (slot : Nat) :
    (x.onto base).load slot = (x.load slot).map (onto · base) := by
  obtain ⟨thread, call, operands, _ | ⟨f, fs⟩⟩ := x
  · exact absurd rfl h
  · exact bind_onto (f.load slot) fun _ => rfl

theorem overflows_onto (h : 1 ≤ x.operands.length) (hframes : x.frames ≠ []) (i : Instr)
    (limit capacity : Nat) :
    (x.onto base).overflows i limit capacity = x.overflows i limit capacity := by
  obtain ⟨thread, call, _ | ⟨v, rest⟩, _ | ⟨f, fs⟩⟩ := x
  · cases h
  · cases h
  · exact absurd rfl hframes
  · obtain ⟨op, arg, comment⟩ := i
    rcases arg with _ | ⟨_ | _ | _ | _ | _⟩ <;> rfl

theorem store_onto (h : 1 ≤ x.operands.length) (hframes : x.frames ≠ []) (slot limit : Nat) :
    (x.onto base).store slot limit = (x.store slot limit).map (onto · base) := by
  obtain ⟨thread, call, _ | ⟨v, rest⟩, _ | ⟨f, fs⟩⟩ := x
  · cases h
  · cases h
  · exact absurd rfl hframes
  · exact bind_onto (f.store slot v limit) fun _ => rfl

theorem unary_onto (h : 1 ≤ x.operands.length) (op : UnaryOp) :
    (x.onto base).unary op = (x.unary op).map (onto · base) := by
  obtain ⟨thread, call, _ | ⟨v, rest⟩, frames⟩ := x
  · cases h
  · exact bind_onto (Value.unary op v) fun _ => rfl

theorem binary_onto (h : 2 ≤ x.operands.length) (op : BinaryOp) :
    (x.onto base).binary op = (x.binary op).map (onto · base) := by
  obtain ⟨thread, call, _ | ⟨b, _ | ⟨a, rest⟩⟩, frames⟩ := x
  · cases h
  · cases Nat.le_of_succ_le_succ h
  · exact bind_onto (Value.binary op a b) fun _ => rfl

theorem jump_onto (h : x.frames ≠ []) (target : Nat) :
    (x.onto base).jump target = (x.jump target).map (onto · base) := by
  obtain ⟨thread, call, operands, _ | ⟨f, fs⟩⟩ := x
  · exact absurd rfl h
  · rfl

theorem jumpUnless_onto (h : 1 ≤ x.operands.length) (hframes : x.frames ≠ []) (target : Nat) :
    (x.onto base).jumpUnless target = (x.jumpUnless target).map (onto · base) := by
  obtain ⟨thread, call, _ | ⟨v, rest⟩, _ | ⟨f, fs⟩⟩ := x
  · cases h
  · cases h
  · exact absurd rfl hframes
  · rcases v with _ | _ | _ | (_ | _) | _ | _ <;> rfl

/-- Where a routine may be entered on top of others it may be entered alone. -/
theorem enter_onto (x base : Execution) (routine : Routine) (limit : Nat) :
    (x.onto base).enter routine limit = .error (.callDepthExceeded limit) ∨
      (x.onto base).enter routine limit = (x.enter routine limit).map (onto · base) := by
  rw [enter, enter]
  by_cases hfull : limit ≤ (x.onto base).frames.length
  · exact .inl (if_pos hfull)
  · have hroom : ¬limit ≤ x.frames.length := fun hle =>
      hfull (by rw [frames_onto, List.length_append]; omega)
    rw [if_neg hfull, if_neg hroom]
    exact .inr rfl

theorem leave_onto (h : x.frames ≠ []) : (x.onto base).leave = x.leave.onto base := by
  obtain ⟨thread, call, operands, _ | ⟨f, fs⟩⟩ := x
  · exact absurd rfl h
  · rfl

theorem pushLength_onto (h : 1 ≤ x.operands.length) (heap : Heap) :
    (x.onto base).pushLength heap = (x.pushLength heap).map (onto · base) := by
  obtain ⟨thread, call, _ | ⟨v, rest⟩, frames⟩ := x
  · cases h
  · cases v with
    | ref o => exact bind_onto (heap.arrayLength o) fun _ => rfl
    | _ => rfl

theorem getField_onto (h : 1 ≤ x.operands.length) (heap : Heap) (i : Instr) :
    (x.onto base).getField heap i = (x.getField heap i).map (onto · base) := by
  obtain ⟨thread, call, _ | ⟨r, rest⟩, frames⟩ := x
  · cases h
  · exact bind_onto (r.asObject .getf) fun o => bind_onto i.nameArg fun field =>
      bind_onto (heap.getField o field) fun _ => rfl

theorem getIndex_onto (h : 2 ≤ x.operands.length) (heap : Heap) :
    (x.onto base).getIndex heap = (x.getIndex heap).map (onto · base) := by
  obtain ⟨thread, call, _ | ⟨n, _ | ⟨r, rest⟩⟩, frames⟩ := x
  · cases h
  · cases Nat.le_of_succ_le_succ h
  · exact bind_onto (r.asObject .geti) fun o => bind_onto (n.asIndex .geti) fun index =>
      bind_onto (heap.getIndex o index) fun _ => rfl

theorem setField_onto (h : 2 ≤ x.operands.length) (heap : Heap) (i : Instr) :
    (x.onto base).setField heap i =
      ((x.setField heap i).1.map (onto · base), (x.setField heap i).2) := by
  obtain ⟨thread, call, _ | ⟨v, _ | ⟨r, rest⟩⟩, frames⟩ := x
  · cases h
  · cases Nat.le_of_succ_le_succ h
  · simp only [onto, setField, pop, List.cons_append, bind, Except.bind]
    rcases r.asObject .setf with _ | o
    · rfl
    rcases i.nameArg with _ | field
    · rfl
    dsimp only [pure, Except.pure]
    rcases heap.setField o field v with ⟨_ | _, _⟩ <;> rfl

theorem newArray_onto (h : 1 ≤ x.operands.length) (heap : Heap) :
    (x.onto base).newArray heap =
      ((x.newArray heap).1.map (onto · base), (x.newArray heap).2) := by
  obtain ⟨thread, call, _ | ⟨v, rest⟩, frames⟩ := x
  · cases h
  · simp only [onto, newArray, pop, List.cons_append, bind, Except.bind]
    rcases v.asNumber .alloca with _ | length
    · rfl
    dsimp only [pure, Except.pure]
    rcases heap.allocArray length with ⟨_ | _, _⟩ <;> rfl

theorem setIndex_onto (h : 3 ≤ x.operands.length) (heap : Heap) :
    (x.onto base).setIndex heap =
      ((x.setIndex heap).1.map (onto · base), (x.setIndex heap).2) := by
  obtain ⟨thread, call, _ | ⟨v, _ | ⟨n, _ | ⟨r, rest⟩⟩⟩, frames⟩ := x
  · cases h
  · cases Nat.le_of_succ_le_succ h
  · cases Nat.le_of_succ_le_succ (Nat.le_of_succ_le_succ h)
  · simp only [onto, setIndex, pop, List.cons_append, bind, Except.bind]
    rcases r.asObject .seti with _ | o
    · rfl
    rcases n.asIndex .seti with _ | index
    · rfl
    dsimp only [pure, Except.pure]
    rcases heap.setIndex o index v with ⟨_ | _, _⟩ <;> rfl

theorem write_onto (h : 1 ≤ x.operands.length) (c : Console) :
    (x.onto base).write c = ((x.write c).1.map (onto · base), (x.write c).2) := by
  obtain ⟨thread, call, _ | ⟨v, rest⟩, frames⟩ := x
  · cases h
  · simp only [onto, write, pop, List.cons_append]
    rcases c.write v.text with ⟨_ | _, _⟩ <;> rfl

theorem read_onto (c : Console) :
    (x.onto base).read c = ((x.read c).1.map (onto · base), (x.read c).2) := by
  rw [read, read]
  rcases c.readLine with ⟨_ | _ | _, _⟩ <;> rfl

end

end Execution

/-! ## Instructions -/

section

variable {s : Shared} {x base : Execution} {i : Instr}

theorem Effect.ofExcept_onto (base : Execution) (r : Except Fault Execution) :
    Effect.ofExcept (r.map (Execution.onto · base)) = (Effect.ofExcept r).onto base := by
  cases r <;> rfl

theorem onHeap_onto {f f' : Heap → Except Fault Execution × Heap}
    (h : f' s.heap = ((f s.heap).1.map (Execution.onto · base), (f s.heap).2)) :
    onHeap s f' = ((onHeap s f).1, (onHeap s f).2.onto base) := by
  simp only [onHeap, h, Effect.ofExcept_onto]

theorem onConsole_onto {f f' : Console → Except Fault Execution × Console}
    (h : f' s.console = ((f s.console).1.map (Execution.onto · base), (f s.console).2)) :
    onConsole s f' = ((onConsole s f).1, (onConsole s f).2.onto base) := by
  simp only [onConsole, h, Effect.ofExcept_onto]

/-- An instruction that finds its operands does not see what lies below.  This leaves out `CALL`,
which looks at how deep the call stack is, and what is done as one thread among others. -/
theorem perform_onto_of_ne (hop : i.op ≠ .thread ∧ i.op ≠ .wait) (hcall : i.op ≠ .call)
    (hpops : i.op.pops ≤ x.operands.length) (hframes : x.frames ≠ []) (base : Execution) :
    perform s (x.onto base) i = ((perform s x i).1, (perform s x i).2.onto base) := by
  have hgoes : ∀ {r r' : Except Fault Execution}, r' = r.map (Execution.onto · base) →
      (s, Effect.ofExcept r') = (s, (Effect.ofExcept r).onto base) := fun h => by
    rw [h, Effect.ofExcept_onto]
  have hneeds : ∀ {op}, i.op = op → op.pops ≤ x.operands.length := fun h => h ▸ hpops
  rw [perform, perform]
  split
  case h_1 => exact hgoes (by cases i.literalArg <;> rfl)
  case h_2 hop => exact hgoes (Execution.pop_onto (hneeds hop))
  case h_3 => exact hgoes (Execution.bind_onto i.slotArg (Execution.load_onto hframes))
  case h_4 hop =>
    rw [Execution.overflows_onto (hneeds hop) hframes]
    split
    · rfl
    · exact hgoes (Execution.bind_onto i.slotArg fun slot =>
        Execution.store_onto (hneeds hop) hframes slot _)
  case h_5 op hop => exact hgoes (Execution.binary_onto (hneeds hop) op)
  case h_6 op hop => exact hgoes (Execution.unary_onto (hneeds hop) op)
  case h_7 => exact hgoes (Execution.bind_onto i.targetArg (Execution.jump_onto hframes))
  case h_8 hop =>
    exact hgoes (Execution.bind_onto i.targetArg
      (Execution.jumpUnless_onto (hneeds hop) hframes))
  case h_9 hop => exact absurd hop hcall
  case h_10 => rw [Execution.leave_onto hframes]; rfl
  case h_11 hop => exact onConsole_onto (Execution.write_onto (hneeds hop) _)
  case h_12 => exact onConsole_onto (Execution.read_onto _)
  case h_13 hop => exact hgoes (Execution.pushLength_onto (hneeds hop) _)
  case h_14 => exact onHeap_onto rfl
  case h_15 hop => exact onHeap_onto (Execution.setField_onto (hneeds hop) _ i)
  case h_16 hop => exact hgoes (Execution.getField_onto (hneeds hop) _ i)
  case h_17 hop => exact onHeap_onto (Execution.newArray_onto (hneeds hop) _)
  case h_18 hop => exact onHeap_onto (Execution.setIndex_onto (hneeds hop) _)
  case h_19 hop => exact hgoes (Execution.getIndex_onto (hneeds hop) _)
  case h_20 hthread => exact absurd hthread hop.1
  case h_21 hwait => exact absurd hwait hop.2
  case h_22 hop => exact hgoes (Execution.dup_onto (hneeds hop))
  case h_23 => rfl

/-- A `CALL` does not see what lies below if the routine may be entered there just as well. -/
theorem perform_call_onto (hop : i.op = .call) (base : Execution)
    (henter : ∀ routine limit, (x.onto base).enter routine limit =
      (x.enter routine limit).map (Execution.onto · base)) :
    perform s (x.onto base) i = ((perform s x i).1, (perform s x i).2.onto base) := by
  simp only [perform, hop]
  cases i.nameArg with
  | error e => rfl
  | ok name =>
    simp only [bind, Except.bind]
    cases s.find? name with
    | none => rfl
    | some routine =>
      dsimp only
      rw [henter, Effect.ofExcept_onto]

/-- **An instruction that finds its operands does not see what lies below**, unless it is a `CALL`
for which the call stack is too high. -/
theorem perform_onto (hop : i.op ≠ .thread ∧ i.op ≠ .wait) (hpops : i.op.pops ≤ x.operands.length)
    (hframes : x.frames ≠ []) (base : Execution) :
    (∃ limit, perform s (x.onto base) i = (s, .fault (.callDepthExceeded limit))) ∨
      perform s (x.onto base) i = ((perform s x i).1, (perform s x i).2.onto base) := by
  by_cases hcall : i.op = .call
  · simp only [perform, hcall]
    cases i.nameArg with
    | error e => exact .inr rfl
    | ok name =>
      simp only [bind, Except.bind]
      cases s.find? name with
      | none => exact .inr rfl
      | some routine =>
        dsimp only
        rcases Execution.enter_onto x base routine s.config.maxCallDepth with hfull | henter
        · exact .inl ⟨_, congrArg (fun r => (s, Effect.ofExcept r)) hfull⟩
        · rw [henter, Effect.ofExcept_onto]
          exact .inr rfl
  · exact .inr (perform_onto_of_ne hop hcall hpops hframes base)

theorem spawnThread_onto (hpops : 2 ≤ x.operands.length) (hcall : base.call = x.call) :
    spawnThread s (x.onto base) = ((spawnThread s x).1, (spawnThread s x).2.onto base) := by
  obtain ⟨thread, call, _ | ⟨v, _ | ⟨arg, rest⟩⟩, frames⟩ := x
  · cases hpops
  · cases Nat.le_of_succ_le_succ hpops
  · cases hcall
    simp only [Execution.onto, spawnThread, Execution.pop, List.cons_append, bind, Except.bind]
    cases v.asText .thread with
    | error e => rfl
    | ok name =>
      dsimp only
      cases s.find? name with
      | none => rfl
      | some routine =>
        dsimp only [pure, Except.pure]
        rcases s.spawn base.call with ⟨_ | thread, s'⟩ <;> rfl

theorem claimThread_onto (hpops : 1 ≤ x.operands.length) :
    claimThread s (x.onto base) = ((claimThread s x).1, (claimThread s x).2.onto base) := by
  obtain ⟨thread, call, _ | ⟨v, rest⟩, frames⟩ := x
  · cases hpops
  · simp only [Execution.onto, claimThread, Execution.pop, List.cons_append, bind, Except.bind]
    cases v.asNumber .wait with
    | error e => rfl
    | ok other =>
      dsimp only [pure, Except.pure]
      rcases s.claim other with ⟨_ | _, s'⟩ <;> rfl

/-- **Operands that lie below those of an instruction are nothing to it.** -/
theorem perform_onto_operands (hpops : i.op.pops ≤ x.operands.length) (hframes : x.frames ≠ [])
    (hcall : base.call = x.call) (hbase : base.frames = []) :
    perform s (x.onto base) i = ((perform s x i).1, (perform s x i).2.onto base) := by
  by_cases hop : i.op = .call
  · refine perform_call_onto hop base fun routine limit => ?_
    rw [Execution.enter, Execution.enter, Execution.frames_onto, hbase, List.append_nil]
    split
    · rfl
    · simp only [Except.map, Execution.onto, hbase, List.append_nil]
  · by_cases hthread : i.op = .thread
    · simp only [perform, hthread]
      exact spawnThread_onto (by rwa [hthread] at hpops) hcall
    · by_cases hwait : i.op = .wait
      · simp only [perform, hwait]
        exact claimThread_onto (by rwa [hwait] at hpops)
      · exact perform_onto_of_ne ⟨hthread, hwait⟩ hop hpops hframes base

/-- The shared state with another table of threads. -/
def Shared.withThreads (s : Shared) (threads : Array Thread) : Shared := { s with threads }

/-- **Who neither starts threads nor waits for any does not see their table.** -/
theorem perform_withThreads (hop : i.op ≠ .thread ∧ i.op ≠ .wait) (threads : Array Thread) :
    perform (s.withThreads threads) x i =
      ((perform s x i).1.withThreads threads, (perform s x i).2) := by
  have hconfig : (s.withThreads threads).config = s.config := rfl
  rw [perform, perform]
  split
  case h_4 =>
    rw [hconfig]
    split <;> rfl
  case h_20 hthread => exact absurd hthread hop.1
  case h_21 hwait => exact absurd hwait hop.2
  all_goals rfl

end

/-! ## Steps -/

/-- The failure as one of another thread. -/
def Failure.withThread (e : Failure) (thread : Option ThreadId) : Failure := { e with thread }

/-- What a step makes of an execution that is on top of another one. -/
def Turn.onto (base : Execution) : Turn → Turn
  | .continues x => .continues (x.onto base)
  | .spawns x child => .spawns (x.onto base) child
  | .waits x thread site => .waits (x.onto base) thread site
  | .returns v => .returns v
  | .fails e => .fails (e.withThread base.thread)
  | .crashes => .crashes

section

variable {s : Shared} {x base : Execution} {i : Instr}

theorem Execution.instr?_onto (h : x.frames ≠ []) (base : Execution) :
    (x.onto base).instr? = x.instr? := by
  obtain ⟨thread, call, operands, _ | ⟨f, fs⟩⟩ := x
  · exact absurd rfl h
  · rfl

/-- What a step of an execution on top of another one performs. -/
theorem Execution.passed_onto (hi : x.instr? = some i) (base : Execution) :
    (x.onto base).instr? = some i ∧ (x.onto base).passed = x.passed.onto base ∧
      (x.onto base).siteOf i = x.siteOf i ∧ x.passed.frames ≠ [] := by
  obtain ⟨thread, call, operands, _ | ⟨f, fs⟩⟩ := x
  · cases hi
  · exact ⟨hi, rfl, rfl, List.cons_ne_nil _ _⟩

theorem Effect.toTurn_onto (effect : Effect) (site : Site) (thread : Option ThreadId)
    (base : Execution) :
    (effect.onto base).toTurn site base.thread = (effect.toTurn site thread).onto base := by
  cases effect <;> rfl

/-- **An execution takes the same step on top of another one as alone**, if its instruction finds
the operands, unless the call stack is too high. -/
theorem step_onto (hi : x.instr? = some i) (hop : i.op ≠ .thread ∧ i.op ≠ .wait)
    (hpops : i.op.pops ≤ x.operands.length) (hrun : s.isHalted = false) (base : Execution) :
    (∃ e, step s (x.onto base) = (s, .fails e) ∧ e.fault.isDepth = true) ∨
      step s (x.onto base) = ((step s x).1, (step s x).2.onto base) := by
  obtain ⟨hinstr, hpassed, hsite, hframes⟩ := Execution.passed_onto hi base
  rw [step_of_instr? hinstr hrun, step_of_instr? hi hrun, hpassed, hsite]
  rcases perform_onto (s := s) hop (x.operands_passed.symm ▸ hpops) hframes base with
    ⟨limit, hfull⟩ | hsame
  · rw [hfull]
    exact .inl ⟨_, rfl, rfl⟩
  · rw [hsame]
    exact .inr (congrArg (Prod.mk _) (Effect.toTurn_onto _ _ _ _))

/-- **An execution takes the same step with more operands below its own**, if its instruction finds
the operands. -/
theorem step_onto_operands (hi : x.instr? = some i) (hpops : i.op.pops ≤ x.operands.length)
    (hcall : base.call = x.call) (hbase : base.frames = []) :
    step s (x.onto base) = ((step s x).1, (step s x).2.onto base) := by
  obtain ⟨hinstr, hpassed, hsite, hframes⟩ := Execution.passed_onto hi base
  by_cases hhalted : s.isHalted = true
  · rw [step_of_isHalted hinstr hhalted, step_of_isHalted hi hhalted, hsite]
    rfl
  · have hrun := Bool.eq_false_iff.mpr hhalted
    have howner : base.call = x.passed.call := hcall.trans x.owner_passed.2.symm
    rw [step_of_instr? hinstr hrun, step_of_instr? hi hrun, hpassed, hsite,
      perform_onto_operands (x.operands_passed.symm ▸ hpops) hframes howner hbase]
    exact congrArg (Prod.mk _) (Effect.toTurn_onto _ _ _ _)

/-- The table of threads is nothing to a step that has nothing to do with threads. -/
theorem step_withThreads (hop : ∀ i, x.instr? = some i → i.op ≠ .thread ∧ i.op ≠ .wait)
    (threads : Array Thread) :
    step (s.withThreads threads) x = ((step s x).1.withThreads threads, (step s x).2) := by
  cases hi : x.instr? with
  | none => rw [step_of_instr?_eq_none hi, step_of_instr?_eq_none hi]
  | some i =>
    have hhalted : (s.withThreads threads).isHalted = s.isHalted := rfl
    cases hs : s.isHalted with
    | true => rw [step_of_isHalted hi hs, step_of_isHalted hi (hhalted.trans hs)]
    | false =>
      rw [step_of_instr? hi hs, step_of_instr? hi (hhalted.trans hs),
        perform_withThreads (hop i hi)]

end

end Opstack
