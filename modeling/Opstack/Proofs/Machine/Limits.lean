import Opstack.Proofs.Machine.Sole

/-!
# Limits

Of all settings only three have a say in what an execution does: the depth of the call stack, the
number of slots of a frame and the length of arrays.  Each of them is looked at in one place, and
only to raise a fault of its own (`Fault.isLimit`).  So two machines on one host that differ in
their settings do the same, turn by turn, until one of them hits a limit.

* `Shared.withConfig` and `Machine.withConfig` are the same state with other settings.
* `perform_withConfig`, `step_withConfig` and `Task.turn_withConfig`: other settings change nothing
  about an instruction, a step or a turn that hits no limit.
* `Machine.call_withConfig`: a call without threads that hits no limit has the same answer, and
  leaves the same objects and output, under all settings whose limits are no lower.
-/

set_option autoImplicit false

namespace Opstack

/-! ## Faults of limits -/

/-- A limit of the settings has been hit. -/
def Fault.isLimit : Fault → Bool
  | .callDepthExceeded _ | .invalidStoreIndex _ | .arrayTooLarge _ => true
  | _ => false

/-- The instruction hits a limit. -/
def Effect.hitsLimit : Effect → Bool
  | .fault e => e.isLimit
  | _ => false

/-- The step hits a limit. -/
def Turn.hitsLimit : Turn → Bool
  | .fails e => e.fault.isLimit
  | _ => false

@[simp] theorem Effect.hitsLimit_toTurn (effect : Effect) (site : Site)
    (thread : Option ThreadId) : (effect.toTurn site thread).hitsLimit = effect.hitsLimit := by
  cases effect <;> rfl

/-! ## Other settings -/

namespace Heap

/-- The same objects under another limit. -/
def withLimit (h : Heap) (limit : Nat) : Heap := { h with maxArrayLength := limit }

variable (h : Heap) (limit : Nat)

theorem modify_withLimit (o : ObjectId) (f : Obj → Obj) :
    (h.withLimit limit).modify o f = (h.modify o f).withLimit limit := by
  rw [modify, modify]
  split <;> rfl

theorem arrayLength_withLimit (o : ObjectId) :
    (h.withLimit limit).arrayLength o = h.arrayLength o := rfl

theorem setField_withLimit (o : ObjectId) (field : String) (v : Value) :
    (h.withLimit limit).setField o field v =
      ((h.setField o field v).1, (h.setField o field v).2.withLimit limit) := by
  have hfind : (h.withLimit limit).find? o = h.find? o := rfl
  rw [setField, setField, hfind]
  split
  · rw [modify_withLimit]
  · rfl

theorem setIndex_withLimit (o : ObjectId) (index : Int64) (v : Value) :
    (h.withLimit limit).setIndex o index v =
      ((h.setIndex o index v).1, (h.setIndex o index v).2.withLimit limit) := by
  rw [setIndex, setIndex, arrayLength_withLimit]
  split
  · rfl
  · split
    · rfl
    · rw [modify_withLimit]

/-- A longer limit refuses no array that the shorter one allows. -/
theorem allocArray_withLimit {h : Heap} {limit : Nat} (hlimit : h.maxArrayLength ≤ limit)
    (length : Int64) :
    (∃ e, (h.allocArray length).1 = .error e ∧ e.isLimit = true) ∨
      (h.withLimit limit).allocArray length =
        ((h.allocArray length).1, (h.allocArray length).2.withLimit limit) := by
  have hroom : (h.withLimit limit).hasRoom length = h.hasRoom length := rfl
  have hfault : h.lengthFault? length (h.hasRoom length) = some (.arrayTooLarge length) ∨
      (h.withLimit limit).lengthFault? length (h.hasRoom length) =
        h.lengthFault? length (h.hasRoom length) := by
    rw [lengthFault?, lengthFault?, withLimit]
    split
    · exact .inr rfl
    · by_cases hlong : h.maxArrayLength < length.toInt.toNat ∨ h.hasRoom length = false
      · exact .inl (if_pos hlong)
      · refine .inr ?_
        rw [if_neg hlong, if_neg fun hlong' => hlong (hlong'.imp_left (Nat.lt_of_le_of_lt hlimit))]
  rw [allocArray, allocArray, hroom]
  rcases hfault with hfault | hfault
  · exact .inl ⟨_, by rw [allocArrayIf, hfault], rfl⟩
  · refine .inr ?_
    rw [allocArrayIf, allocArrayIf, hfault]
    split <;> rfl

end Heap

namespace Shared

/-- The same state under other settings. -/
def withConfig (s : Shared) (c : Config) : Shared :=
  { s with config := c, heap := s.heap.withLimit c.maxArrayLength }

/-- No limit is lower in the settings than it is now, and the host, which is the same, has room for
the stacks that executions begin with. -/
structure Within (s : Shared) (c : Config) : Prop where
  /-- The call stack may be as deep. -/
  depth : s.config.maxCallDepth ≤ c.maxCallDepth
  /-- A frame may have as many slots. -/
  slots : s.config.maxFrameSlots ≤ c.maxFrameSlots
  /-- An array may have as many cells. -/
  cells : s.heap.maxArrayLength ≤ c.maxArrayLength
  /-- The host is the same. -/
  host : c.host = s.config.host
  /-- It has room for the stacks. -/
  roomForStacks : c.roomForStacks = true

variable (s : Shared) (c : Config)

theorem modifyThread_withConfig (thread : ThreadId) (f : Thread → Thread) :
    (s.withConfig c).modifyThread thread f = (s.modifyThread thread f).withConfig c := by
  rw [modifyThread, modifyThread]
  split <;> rfl

theorem spawn_withConfig (call : Nat) :
    (s.withConfig c).spawn call = ((s.spawn call).1, (s.spawn call).2.withConfig c) := by
  have hthreads : (s.withConfig c).threads = s.threads := rfl
  rw [spawn, spawn, hthreads]
  split <;> rfl

theorem claim_withConfig (thread : ThreadId) :
    (s.withConfig c).claim thread = ((s.claim thread).1, (s.claim thread).2.withConfig c) := by
  have hthread : (s.withConfig c).thread? thread = s.thread? thread := rfl
  rw [claim, claim, hthread]
  split
  · rfl
  · split
    · rfl
    · rw [modifyThread_withConfig]

end Shared

/-! ## One instruction -/

namespace Execution

theorem setField_withLimit (x : Execution) (h : Heap) (limit : Nat) (i : Instr) :
    x.setField (h.withLimit limit) i =
      ((x.setField h i).1, (x.setField h i).2.withLimit limit) := by
  rw [setField, setField]
  dsimp only
  split
  · rfl
  · rw [Heap.setField_withLimit]
    rcases h.setField _ _ _ with ⟨_ | _, _⟩ <;> rfl

theorem setIndex_withLimit (x : Execution) (h : Heap) (limit : Nat) :
    x.setIndex (h.withLimit limit) = ((x.setIndex h).1, (x.setIndex h).2.withLimit limit) := by
  rw [setIndex, setIndex]
  dsimp only
  split
  · rfl
  · rw [Heap.setIndex_withLimit]
    rcases h.setIndex _ _ _ with ⟨_ | _, _⟩ <;> rfl

theorem newArray_withLimit {h : Heap} {limit : Nat} (hlimit : h.maxArrayLength ≤ limit)
    (x : Execution) :
    (∃ e, (x.newArray h).1 = .error e ∧ e.isLimit = true) ∨
      x.newArray (h.withLimit limit) =
        ((x.newArray h).1, (x.newArray h).2.withLimit limit) := by
  rw [newArray, newArray]
  dsimp only
  split
  · exact .inr rfl
  · rename_i length _ _
    rcases Heap.allocArray_withLimit hlimit length with ⟨e, he, hfault⟩ | halloc
    · refine .inl ⟨e, ?_, hfault⟩
      generalize h.allocArray length = r at he
      obtain ⟨answer, h'⟩ := r
      cases he
      rfl
    · refine .inr ?_
      rw [halloc]
      rcases h.allocArray length with ⟨_ | _, _⟩ <;> rfl

/-- What a `CALL` does under a limit. -/
def callUnder (x : Execution) (routines : List Routine) (i : Instr) (limit : Nat) : Effect :=
  .ofExcept do
    let name ← i.nameArg
    match routineOf? routines name with
    | some routine => x.enter routine limit
    | none => .error (.unknownRoutine name)

theorem callUnder_of_le {limit limit' : Nat} (hle : limit ≤ limit') (x : Execution)
    (routines : List Routine) (i : Instr) :
    (x.callUnder routines i limit).hitsLimit = true ∨
      x.callUnder routines i limit' = x.callUnder routines i limit := by
  rw [callUnder, callUnder]
  cases i.nameArg with
  | error e => exact .inr rfl
  | ok name =>
    simp only [bind, Except.bind]
    cases routineOf? routines name with
    | none => exact .inr rfl
    | some routine =>
      simp only [enter]
      by_cases hfull : limit ≤ x.frames.length
      · rw [if_pos hfull]
        exact .inl rfl
      · rw [if_neg hfull, if_neg fun hfull' => hfull (Nat.le_trans hle hfull')]
        exact .inr rfl

/-- What a `STORE` does under a limit, where there is so much room. -/
def storeUnder (x : Execution) (i : Instr) (limit capacity : Nat) : Effect :=
  if x.overflows i limit capacity then .crash
  else .ofExcept (i.slotArg.bind fun n => x.store n limit)

theorem storeUnder_of_le {limit limit' : Nat} (hle : limit ≤ limit') (x : Execution)
    (i : Instr) (capacity : Nat) :
    (x.storeUnder i limit capacity).hitsLimit = true ∨
      x.storeUnder i limit' capacity = x.storeUnder i limit capacity := by
  obtain ⟨thread, call, operands, frames⟩ := x
  obtain ⟨op, arg, comment⟩ := i
  rcases arg with _ | ⟨_ | slot | _ | _ | _⟩
  case some.slot =>
    rcases operands with _ | ⟨v, rest⟩
    · exact .inr rfl
    rcases frames with _ | ⟨f, fs⟩
    · exact .inr rfl
    simp only [storeUnder, overflows, Instr.slotArg, Except.bind, store, Frame.store, bind,
      decide_eq_true_eq]
    by_cases hslot : slot < limit
    · exact .inr (by simp only [hslot, Nat.lt_of_lt_of_le hslot hle, and_true, if_true])
    · refine .inl ?_
      simp only [hslot, and_false, if_false]
      rfl
  all_goals exact .inr rfl

end Execution

section

variable {s : Shared} {c : Config}

theorem onHeap_withConfig {f : Heap → Except Fault Execution × Heap}
    (hf : f (s.heap.withLimit c.maxArrayLength) =
      ((f s.heap).1, (f s.heap).2.withLimit c.maxArrayLength)) :
    onHeap (s.withConfig c) f = ((onHeap s f).1.withConfig c, (onHeap s f).2) := by
  simp only [onHeap, Shared.withConfig, hf]

theorem spawnThread_withConfig (s : Shared) (c : Config) (x : Execution) :
    spawnThread (s.withConfig c) x =
      ((spawnThread s x).1.withConfig c, (spawnThread s x).2) := by
  have hfind : ∀ name, (s.withConfig c).find? name = s.find? name := fun _ => rfl
  simp only [spawnThread, hfind, Shared.spawn_withConfig]
  split
  · rfl
  · rename_i arg routine x _
    rcases s.spawn x.call with ⟨_ | _, _⟩ <;> rfl

theorem claimThread_withConfig (s : Shared) (c : Config) (x : Execution) :
    claimThread (s.withConfig c) x =
      ((claimThread s x).1.withConfig c, (claimThread s x).2) := by
  simp only [claimThread, Shared.claim_withConfig]
  split
  · rfl
  · rename_i thread x _
    rcases s.claim thread with ⟨_ | _, _⟩ <;> rfl

theorem perform_store {i : Instr} (hop : i.op = .store) (s : Shared) (x : Execution) :
    perform s x i =
      (s, x.storeUnder i s.config.maxFrameSlots s.config.host.capacity) := by
  simp only [perform, hop, Execution.storeUnder]
  split <;> rfl

theorem perform_call {i : Instr} (hop : i.op = .call) (s : Shared) (x : Execution) :
    perform s x i = (s, x.callUnder s.routines i s.config.maxCallDepth) := by
  simp only [perform, hop]
  rfl

/-- **Other settings change nothing about an instruction that hits no limit.** -/
theorem perform_withConfig (hc : s.Within c) (x : Execution) (i : Instr) :
    (perform s x i).2.hitsLimit = true ∨
      perform (s.withConfig c) x i = ((perform s x i).1.withConfig c, (perform s x i).2) := by
  by_cases hstore : i.op = .store
  · have hhost : (s.withConfig c).config.host = s.config.host := hc.host
    rw [perform_store hstore, perform_store hstore, hhost]
    exact (x.storeUnder_of_le hc.slots i _).imp_right (congrArg (Prod.mk (s.withConfig c)))
  by_cases hcall : i.op = .call
  · rw [perform_call hcall, perform_call hcall]
    exact (x.callUnder_of_le hc.depth s.routines i).imp_right
      (congrArg (Prod.mk (s.withConfig c)))
  rw [perform, perform]
  split
  case h_4 hop => exact absurd hop hstore
  case h_9 hop => exact absurd hop hcall
  case h_15 => exact .inr (onHeap_withConfig (x.setField_withLimit s.heap _ i))
  case h_17 =>
    rcases x.newArray_withLimit hc.cells with ⟨e, he, hlimit⟩ | hnew
    · refine .inl ?_
      change (Effect.ofExcept (x.newArray s.heap).1).hitsLimit = true
      rw [he]
      exact hlimit
    · exact .inr (onHeap_withConfig hnew)
  case h_18 => exact .inr (onHeap_withConfig (x.setIndex_withLimit s.heap _))
  case h_20 => exact .inr (spawnThread_withConfig s c x)
  case h_21 => exact .inr (claimThread_withConfig s c x)
  all_goals exact .inr rfl

/-- Other settings change nothing about a step that hits no limit. -/
theorem step_withConfig (hc : s.Within c) (x : Execution) :
    (step s x).2.hitsLimit = true ∨
      step (s.withConfig c) x = ((step s x).1.withConfig c, (step s x).2) := by
  have hhalted : (s.withConfig c).isHalted = s.isHalted := rfl
  cases hi : x.instr? with
  | none =>
    rw [step_of_instr?_eq_none hi, step_of_instr?_eq_none hi]
    exact .inr rfl
  | some i =>
    cases hs : s.isHalted with
    | true =>
      rw [step_of_isHalted hi hs, step_of_isHalted hi (hhalted.trans hs)]
      exact .inr rfl
    | false =>
      rw [step_of_instr? hi hs, step_of_instr? hi (hhalted.trans hs)]
      rcases perform_withConfig hc x.passed i with hlimit | hsame
      · exact .inl ((Effect.hitsLimit_toTurn _ _ _).trans hlimit)
      · rw [hsame]
        exact .inr rfl

/-! ## One turn -/

theorem Shared.deliver_withConfig (s : Shared) (c : Config) (thread : ThreadId)
    (outcome : Outcome) :
    (s.withConfig c).deliver thread outcome = (s.deliver thread outcome).withConfig c :=
  s.modifyThread_withConfig c thread _

namespace Task

theorem canMove_withConfig (s : Shared) (c : Config) (t : Task) :
    t.canMove (s.withConfig c) = t.canMove s := by
  cases t <;> rfl

theorem join_withConfig (s : Shared) (c : Config) (call : Nat) :
    join (s.withConfig c) call = (join s call).withConfig c := by
  have hfold : ∀ (threads : List ThreadId) (s : Shared),
      threads.foldl (fun s t => s.fail (crashFailure t)) (s.withConfig c) =
        (threads.foldl (fun s t => s.fail (crashFailure t)) s).withConfig c := by
    intro threads
    induction threads with
    | nil => exact fun _ => rfl
    | cons t rest ih => exact fun s => ih (s.fail (crashFailure t))
  have hcrashed : (s.withConfig c).crashed call = s.crashed call := rfl
  rw [join, join, hcrashed, hfold]
  generalize (s.crashed call).foldl (fun s t => s.fail (crashFailure t)) s = s'
  have hconsole : (s'.withConfig c).console = s'.console := rfl
  simp only [hconsole]
  rcases s'.console.flush with ⟨_ | _, _⟩ <;> rfl

/-- Other settings change nothing about a turn in which no limit is hit. -/
theorem turn_withConfig (hc : s.Within c) (t : Task) :
    (∃ x e, t = .running x ∧ (t.turn s).2 = [.failing x.thread x.call e] ∧
        e.fault.isLimit = true) ∨
      t.turn (s.withConfig c) = ((t.turn s).1.withConfig c, (t.turn s).2) := by
  cases t with
  | running x =>
    rw [turn, turn]
    rcases step_withConfig hc x with hlimit | hsame
    · refine .inl ⟨x, ?_⟩
      generalize step s x = r at hlimit
      obtain ⟨s', turn⟩ := r
      cases turn with
      | fails e => exact ⟨e, rfl, rfl, hlimit⟩
      | _ => cases hlimit
    · refine .inr ?_
      rw [hsame]
      generalize step s x = r
      obtain ⟨s', turn⟩ := r
      cases turn with
      | continues | spawns | waits | fails => rfl
      | returns v =>
        cases x.thread with
        | none => rfl
        | some thread => exact congrArg (·, []) (s'.deliver_withConfig c thread _)
      | crashes =>
        cases x.thread with
        | none => rfl
        | some thread => exact congrArg (·, []) (s'.deliver_withConfig c thread _)
  | waiting | closing | answered => exact .inr rfl
  | failing thread call e =>
    cases thread with
    | none => exact .inr rfl
    | some thread => exact .inr (congrArg (·, []) ((s.fail e).deliver_withConfig c thread _))
  | joining call result =>
    have hjoined : (s.withConfig c).hasJoined call = s.hasJoined call := rfl
    rw [turn, turn, hjoined, join_withConfig]
    split <;> exact .inr rfl

end Task

theorem Shared.Within.turn (hc : s.Within c) (t : Task) : (t.turn s).1.Within c := by
  obtain ⟨requests, hheap⟩ := (t.heap_turn s).exists_requests
  have hcells : (t.turn s).1.heap.maxArrayLength = s.heap.maxArrayLength := by
    rw [hheap, Heap.maxArrayLength_after]
  have hconfig := (t.config_turn s).symm
  exact ⟨hconfig ▸ hc.depth, hconfig ▸ hc.slots, hcells ▸ hc.cells, hconfig ▸ hc.host,
    hc.roomForStacks⟩

end

/-! ## Calls -/

namespace Machine

/-- The same machine with other settings. -/
def withConfig (m : Machine) (c : Config) : Machine := { m with shared := m.shared.withConfig c }

variable {m m' : Machine} {c : Config} {number : Nat} {answer : Except Failure Value}

theorem ready?_withConfig (m : Machine) (c : Config) : (m.withConfig c).ready? = m.ready? := by
  have hmoves : (fun t : Task => t.canMove (m.withConfig c).shared) = fun t => t.canMove m.shared :=
    funext (Task.canMove_withConfig m.shared c)
  rw [ready?, hmoves]
  rfl

/-- A call begins in the same way under other settings, if there is room for its stacks under
both. -/
theorem begin_withConfig (hstacks : c.roomForStacks = true) {name : String}
    (hroom : m.shared.config.roomForStacks = true ∨ m.shared.find? name = none)
    (args : List Value) :
    (m.withConfig c).begin name args = (m.begin name args).withConfig c := by
  have hentry : entry (m.withConfig c).shared m.calls name args =
      entry m.shared m.calls name args := by
    have hfind : (m.withConfig c).shared.find? name = m.shared.find? name := rfl
    have hconfig : (m.withConfig c).shared.config = c := rfl
    rw [entry, entry, hfind, hconfig, hstacks]
    rcases hroom with hroom | hnone
    · rw [hroom]
    · rw [hnone]
  exact congrArg (fun tasks => (⟨m.shared.withConfig c, tasks ++ m.tasks, m.calls + 1⟩ : Machine))
    hentry

/-- Without threads, a machine with other settings runs as before, or a limit is hit: then that is
the answer, whenever it is given. -/
theorem Sole.run_withConfig_or (h : m.Sole number) (hthreads : m.Threadless)
    (hc : m.shared.Within c) (n : Nat) :
    (∀ k answer, answerOf? number (run k m).tasks = some answer →
        ∃ e, answer = .error e ∧ e.fault.isLimit = true) ∨
      run n (m.withConfig c) = (run n m).withConfig c := by
  induction n generalizing m with
  | zero => exact .inr rfl
  | succ n ih =>
    rcases h.cases with hready | ⟨t, htasks, hmove⟩
    · refine .inr ?_
      rw [run_of_ready?_eq_none hready,
        run_of_ready?_eq_none ((m.ready?_withConfig c).trans hready)]
    · have hmove' : t.canMove (m.withConfig c).shared = true :=
        (t.canMove_withConfig m.shared c).trans hmove
      have hnext := h.turned htasks (hthreads.of_tasks htasks)
      rw [run_succ_of_tasks htasks hmove, run_succ_of_tasks (m := m.withConfig c) htasks hmove']
      rcases t.turn_withConfig hc with ⟨x, e, rfl, hfailing, hlimit⟩ | hsame
      · exact .inl (forall_answer_of_turned htasks hmove fun k answer hanswer =>
          ⟨e, hnext.answer_of_owes hfailing rfl hanswer, hlimit⟩)
      · have hturned : (m.withConfig c).turned t = (m.turned t).withConfig c :=
          congrArg (fun r : Shared × List Task => (⟨r.1, r.2, m.calls⟩ : Machine)) hsame
        rw [hturned]
        exact (ih hnext (hthreads.turned htasks hmove) (hc.turn t)).imp_left
          fun hhits => forall_answer_of_turned htasks hmove hhits

/-- Without threads, a machine with other settings runs as before until a limit is hit, and then
that is the answer. -/
theorem Sole.run_withConfig (h : m.Sole number) (hthreads : m.Threadless)
    (hc : m.shared.Within c) (n : Nat) :
    (∀ answer, answerOf? number (run n m).tasks = some answer →
        ∃ e, answer = .error e ∧ e.fault.isLimit = true) ∨
      run n (m.withConfig c) = (run n m).withConfig c :=
  (h.run_withConfig_or hthreads hc n).imp_left fun hhits => hhits n

/-- **Raising a limit changes no call that does not hit one.**  If a call without threads is
answered, and not by the fault of a limit, then it has the same answer under all settings whose
limits are no lower, and leaves the same machine but for the settings. -/
theorem call_withConfig (hm : m.Idle) (hc : m.shared.Within c) {turns : Nat} {name : String}
    {args : List Value} (hthreads : (m.begin name args).Threadless)
    (hcall : m.call turns name args = (some answer, m'))
    (hlimit : ∀ e, answer = .error e → e.fault.isLimit = false) :
    (m.withConfig c).call turns name args = (some answer, m'.withConfig c) := by
  have hbegin := begin_withConfig hc.roomForStacks (roomForStacks_of_call hm.tasks hcall) args
  rw [call, Prod.mk.injEq] at hcall
  obtain ⟨hanswer, rfl⟩ := hcall
  rcases (hm.sole_begin name args).run_withConfig hthreads hc turns with hhits | hsame
  · obtain ⟨e, rfl, he⟩ := hhits answer hanswer
    rw [hlimit e rfl] at he
    cases he
  · rw [call, hbegin, hsame, Prod.mk.injEq]
    exact ⟨hanswer, rfl⟩

/-- Settings under which there is one activation, one slot and one cell. -/
def smallest : Config := { maxCallDepth := 1, maxFrameSlots := 1, maxArrayLength := 1 }

/-- A routine that works with one slot and one cell. -/
def measure : Routine :=
  ⟨"measure", #[.push (.int 1), .plain .alloca, .store 0, .load 0, .plain .len, .plain .ret]⟩

theorem call_withConfig_measure : ∃ m', ((create smallest {}).add measure).call 20 "measure" [] =
      (some (.ok (.int 1)), m') ∧
    ((create {} {}).add measure).call 20 "measure" [] =
      (some (.ok (.int 1)), m'.withConfig {}) := by
  have hm : ((create smallest {}).add measure).Idle := (Used.create smallest {} |>.add measure).idle
  have hwithin : ((create smallest {}).add measure).shared.Within {} :=
    ⟨by decide, by decide, by decide, rfl, by decide⟩
  have hthreads : (((create smallest {}).add measure).begin "measure" []).Threadless := by
    intro x i hx hi
    obtain ⟨r, hr, hmem⟩ := hx.mem_routines hm.tasks hi
    obtain rfl := List.mem_singleton.mp hr
    have hcode : ∀ i ∈ measure.code.toList, i.op ≠ .thread ∧ i.op ≠ .wait := by decide
    exact hcode i hmem
  exact ⟨_, rfl, call_withConfig hm hwithin hthreads rfl fun e he => by cases he⟩

end Machine
end Opstack
