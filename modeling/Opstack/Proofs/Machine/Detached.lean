import Opstack.Proofs.Machine.Spawning

/-!
# Calls in a thread of their own

To start a thread and to wait for it is to call its function, for a function that has nothing to do
with threads itself.  The two ways could hardly be less alike: a call puts an activation on the
stacks of its caller, and a thread has stacks of its own, takes turns beside the execution that
started it, and hands its result over through the table of threads.

What a call does on top of its caller is what it does alone (`Program.Alone.returns`), and what a
thread does alone is what it does beside the execution that started it.
`Program.detached_eq_call` puts this together.
-/

set_option autoImplicit false

namespace Opstack

/-! ## Both ways as code -/

/-- A call of the function. -/
def Function.callWith (f : Function) (arg : Expr) : Expr := .call f.name [arg]

/-- A call of the function in a thread of its own, and the wait for its result. -/
def Function.detachedWith (f : Function) (arg : Expr) : Expr :=
  .call "thread_wait" [.call "thread_create" [.literal ⟨.str, f.name⟩, arg]]

section

variable {table : RecordTable} {scope : Scope} {f : Function} {arg : Expr} {code : List Instr}

theorem Function.lowerExpr_callWith (h : lowerExpr table scope arg = .ok code) :
    lowerExpr table scope (f.callWith arg) = .ok (code ++ callCode f.name) := by
  rw [callWith, lowerExpr, lowerArgs, lowerArgs, h]
  rfl

theorem Function.lowerExpr_detachedWith (h : lowerExpr table scope arg = .ok code) :
    lowerExpr table scope (f.detachedWith arg) = .ok (code ++ detachedCode f.name) := by
  have hcreate : lowerArgs table scope [.literal ⟨.str, f.name⟩, arg] =
      .ok (code ++ [.push (.str f.name)]) := by
    rw [lowerArgs, lowerArgs, lowerArgs, lowerExpr, h]
    rfl
  rw [detachedWith, lowerExpr, lowerArgs, lowerArgs, lowerExpr, hcreate]
  simp only [bind, Except.bind, pure, Except.pure, List.nil_append, List.append_assoc,
    detachedCode, List.cons_append]

end

/-! ## Calls -/

section

variable {s s' : Shared} {x : Execution} {v : Value} {name : String} {r : Routine}

/-- A `CALL` puts the execution of the routine on top of the caller. -/
theorem step_call (hi : x.instr? = some (.call name)) (hrun : s.isHalted = false)
    (hfind : s.find? name = some r) (thread : Option ThreadId) (call : Nat) :
    (∃ e, step s (x.push v) = (s, .fails e) ∧ e.fault.isDepth = true) ∨
      step s (x.push v) =
        (s, .continues (Execution.onto ⟨thread, call, [v], [{ routine := r }]⟩ x.passed)) := by
  have hperform : perform s (x.passed.push v) (.call name) =
      (s, .ofExcept ((x.passed.push v).enter r s.config.maxCallDepth)) := by
    simp only [perform, Instr.call, Instr.nameArg, bind, Except.bind, hfind]
  rw [step_of_instr? (x := x.push v) hi hrun, Execution.passed_push, hperform, Execution.enter]
  by_cases hfull : s.config.maxCallDepth ≤ (x.passed.push v).frames.length
  · rw [if_pos hfull]
    exact .inl ⟨_, rfl, rfl⟩
  · rw [if_neg hfull]
    exact .inr rfl

theorem Execution.length_frames_passed (x : Execution) :
    x.passed.frames.length = x.frames.length := by
  obtain ⟨thread, call, operands, _ | ⟨f, fs⟩⟩ := x <;> rfl

/-- Behind a `CALL` that does not find the call stack too high, the execution of the routine is on
top of the caller. -/
theorem returns_of_call (hi : x.instr? = some (.call name)) (hrun : s.isHalted = false)
    (hfind : s.find? name = some r) {result : Except Failure Execution}
    (h : (x.push v).Returns x.frames.length s s' result)
    (hdepth : ∀ e, result = .error e → e.fault.isDepth = false) (thread : Option ThreadId)
    (call : Nat) : (Execution.onto ⟨thread, call, [v], [{ routine := r }]⟩ x.passed).Returns
      x.passed.frames.length s s' result := by
  rcases step_call (v := v) hi hrun hfind thread call with ⟨e, hfails, he⟩ | hcalls
  · cases h with
    | here hstep | later hstep => cases hfails.symm.trans hstep
    | fails hstep =>
      cases hfails.symm.trans hstep
      rw [hdepth e rfl] at he
      cases he
  · cases h with
    | fails hstep => cases hcalls.symm.trans hstep
    | here hstep hreturned =>
      cases hcalls.symm.trans hstep
      rw [Execution.frames_onto, List.length_append, Execution.length_frames_passed] at hreturned
      exact absurd hreturned (by simp)
    | later hstep _ hrest =>
      cases hcalls.symm.trans hstep
      rw [Execution.length_frames_passed]
      exact hrest

/-- A call returns, fails or goes on and on if the execution of the routine on top of the caller
does. -/
theorem returns_or_lasts_of_call (hi : x.instr? = some (.call name)) (hrun : s.isHalted = false)
    (hfind : s.find? name = some r) (thread : Option ThreadId) (call : Nat)
    (h : ∀ n, (Execution.onto ⟨thread, call, [v], [{ routine := r }]⟩ x.passed).Lasts
        x.passed.frames.length n s ∨
      ∃ s' result, (Execution.onto ⟨thread, call, [v], [{ routine := r }]⟩ x.passed).Returns
        x.passed.frames.length s s' result) :
    (∃ s' result, (x.push v).Returns x.frames.length s s' result) ∨
      ∀ n, (x.push v).Lasts x.frames.length n s := by
  rcases step_call (v := v) hi hrun hfind thread call with ⟨e, hfails, -⟩ | hcalls
  · exact .inl ⟨s, .error e, .fails hfails⟩
  · have habove : x.frames.length <
        (Execution.onto ⟨thread, call, [v], [{ routine := r }]⟩ x.passed).frames.length := by
      rw [Execution.frames_onto, List.length_append, Execution.length_frames_passed]
      exact Nat.lt_add_of_pos_left Nat.one_pos
    rw [Execution.length_frames_passed] at h
    by_cases hreturns : ∃ s' result,
        (Execution.onto ⟨thread, call, [v], [{ routine := r }]⟩ x.passed).Returns
          x.frames.length s s' result
    · obtain ⟨s', result, hreturns⟩ := hreturns
      exact .inl ⟨s', result, .later hcalls habove hreturns⟩
    · refine .inr fun n => ?_
      cases n with
      | zero => exact .zero _ _
      | succ n => exact .succ hcalls habove ((h n).resolve_right hreturns)

theorem lasts_of_call (hi : x.instr? = some (.call name)) (hrun : s.isHalted = false)
    (hfind : s.find? name = some r) {n : Nat}
    (h : (x.push v).Lasts x.frames.length (n + 1) s) (thread : Option ThreadId) (call : Nat) :
    (Execution.onto ⟨thread, call, [v], [{ routine := r }]⟩ x.passed).Lasts
      x.passed.frames.length n s := by
  cases h with
  | succ hstep _ hrest =>
    rcases step_call (v := v) hi hrun hfind thread call with ⟨e, hfails, -⟩ | hcalls
    · cases hfails.symm.trans hstep
    · cases hcalls.symm.trans hstep
      rw [Execution.length_frames_passed]
      exact hrest

end

/-! ## Both ways compared -/

/-- The execution `y` that starts a thread and waits for it, the only one of the machine, comes to
the end that a direct call comes to in the execution `x`, with the same value on top of the operands
of both. -/
structure Machine.EndsAlike (x y : Execution) (name : String) (v : Value) (m : Machine) :
    Prop where
  /-- If the call returns a value, `y` inevitably goes on with that value, in the state that the
  call leaves behind. -/
  returns : ∀ s z, (x.push v).Returns x.frames.length m.shared s (.ok z) →
    ∃ w, z = (x.past 1).push w ∧ m.Inevitable (GoesOn y w m.shared.threads s)
  /-- If the call fails, the same failure is inevitably recorded, but for the thread. -/
  fails : ∀ s e, (x.push v).Returns x.frames.length m.shared s (.error e) →
    e.fault.isDepth = false → e.thread = x.thread ∧
      m.Inevitable (BreaksOff y (e.withThread (some (threadId m.shared.threads.size)))
        m.shared.threads s)
  /-- That failure is the answer of the call of the machine that `y` is the execution of, if all
  other threads of it have ended. -/
  answers : ∀ s e, (x.push v).Returns x.frames.length m.shared s (.error e) →
    e.fault.isDepth = false → y.thread = none →
      (∀ t ∈ m.shared.threads.toList, t.call = y.call → t.outcome.hasEnded = true) →
        m.Inevitable
          (Answers y.call (.error (e.withThread (some (threadId m.shared.threads.size)))))
  /-- If the call goes on and on, `y` keeps waiting. -/
  lasts : (∀ n, (x.push v).Lasts x.frames.length n m.shared) →
    ∀ order, Pends y name v m.shared.threads (m.follow order)
  /-- There is nothing else that a call can come to, if the settings allow no more slots than an
  activation can have. -/
  ends : m.shared.config.maxFrameSlots ≤ m.shared.config.host.capacity →
    (∃ s r, (x.push v).Returns x.frames.length m.shared s r) ∨
      ∀ n, (x.push v).Lasts x.frames.length n m.shared

namespace Program

open Opstack.Machine (GoesOn BreaksOff)

section

variable {p : Program} {f : Function} {s s' : Shared} {x y : Execution} {v : Value} {r : Routine}

/-- What a call returns an execution inevitably goes on with that makes it in a thread. -/
theorem inevitable_goesOn_of_returns (hp : p.WellCalled) (hfree : p.Threadless f)
    (hs : p.ReadyIn s) (hroom : firstThread + s.threads.size < Nat.pow 2 63)
    (hfind : s.find? f.name = some r)
    (halone : p.Alone f ⟨some (threadId s.threads.size), y.call, [v], [{ routine := r }]⟩)
    (hcall : x.instr? = some (.call f.name)) (hy : y.Faces (detachedCode f.name))
    {z : Execution} (h : (x.push v).Returns x.frames.length s s' (.ok z)) (calls : Nat) :
    ∃ w, z = (x.past 1).push w ∧ (⟨s, [.running (y.push v)], calls⟩ : Machine).Inevitable
      (GoesOn y w s.threads s') := by
  have hwait : (y.past 2).instr? = some (.plain .wait) := hy.2.2.1
  have hready := hs.of_returns h
  have hnoError : ∀ e : Failure, Except.ok z = .error e → e.fault.isDepth = false :=
    fun e he => by cases he
  have hreturns := returns_of_call hcall hs.running hfind h hnoError
    (some (threadId s.threads.size)) y.call
  rcases halone.returns hp hfree hreturns rfl hs hnoError with ⟨w, hz, hw⟩ | ⟨e, he, -⟩
  · cases hz
    refine ⟨w, rfl, Machine.Beside.inevitable_of_faces hy hs.running hfind hroom fun m hm => ?_⟩
    exact hm.inevitable_of_returns hp hfree hwait hroom hw halone hs fun m hm =>
      hm.inevitable_of_returned hwait hroom hready.running
  · cases he

/-- The failure of a call is inevitably recorded if it is made in a thread. -/
theorem inevitable_breaksOff_of_fails (hp : p.WellCalled) (hfree : p.Threadless f)
    (hs : p.ReadyIn s) (hroom : firstThread + s.threads.size < Nat.pow 2 63)
    (hfind : s.find? f.name = some r)
    (halone : p.Alone f ⟨some (threadId s.threads.size), y.call, [v], [{ routine := r }]⟩)
    (hcall : x.instr? = some (.call f.name)) (hy : y.Faces (detachedCode f.name))
    {e : Failure} (h : (x.push v).Returns x.frames.length s s' (.error e))
    (hdepth : e.fault.isDepth = false) (calls : Nat) :
    (⟨s, [.running (y.push v)], calls⟩ : Machine).Inevitable
      (BreaksOff y (e.withThread (some (threadId s.threads.size))) s.threads s') := by
  have hwait : (y.past 2).instr? = some (.plain .wait) := hy.2.2.1
  have hready := hs.of_returns h
  have herror : ∀ e' : Failure, (.error e : Except Failure Execution) = .error e' →
      e'.fault.isDepth = false := fun e' he => by
    cases he
    exact hdepth
  have hreturns := returns_of_call hcall hs.running hfind h herror
    (some (threadId s.threads.size)) y.call
  rcases halone.returns hp hfree hreturns rfl hs herror with ⟨w, hz, -⟩ | ⟨e', he, hfails⟩
  · cases hz
  · cases he
    obtain ⟨fault, site, rfl⟩ := h.eq_raised rfl
    refine Machine.Beside.inevitable_of_faces hy hs.running hfind hroom fun m hm => ?_
    exact hm.inevitable_of_returns hp hfree hwait hroom hfails halone hs fun m hm =>
      hm.inevitable_of_failing rfl hwait hroom hready.running hready.failure

end

/-- **To start a thread and to wait for it is to call its function.**  The function takes one
argument and has nothing to do with threads itself, nor has any that it can lead to; the execution
`x` is about to call it, and `y` is about to start a thread of it and to wait, as the lowered code
of the two expressions does.  The state is any in which one more thread can be started.

A direct call that finds the call stack too high is left aside, since the thread has a call stack of
its own and gets further. -/
theorem detached_eq_call {p : Program} {f : Function} {m : Machine} {x y : Execution}
    (hp : p.WellCalled) (hs : p.ReadyIn m.shared)
    (hroom : firstThread + m.shared.threads.size < Nat.pow 2 63) (hf : f ∈ p.functions)
    (hparams : f.params.length = 1) (hfree : p.Threadless f) (v : Value)
    (hx : x.Faces (callCode f.name)) (hy : y.Faces (detachedCode f.name))
    (htasks : m.tasks = [.running (y.push v)]) :
    (∀ table scope arg code, lowerExpr table scope arg = .ok code →
      lowerExpr table scope (f.callWith arg) = .ok (code ++ callCode f.name) ∧
        lowerExpr table scope (f.detachedWith arg) = .ok (code ++ detachedCode f.name)) ∧
    m.EndsAlike x y f.name v := by
  obtain ⟨s, tasks, calls⟩ := m
  obtain rfl : tasks = [.running (y.push v)] := htasks
  obtain ⟨r, hr, halone⟩ := exists_alone hp hs.loaded hf hparams
  have hfind : s.find? f.name = some r := hr
  have hcall : x.instr? = some (.call f.name) := by
    rw [callCode, builtin?_eq_none (hp.not_builtin f hf)] at hx
    exact hx.1
  have hfails : ∀ s' e, (x.push v).Returns x.frames.length s s' (.error e) →
      e.fault.isDepth = false → Machine.Inevitable
        (BreaksOff y (e.withThread (some (threadId s.threads.size))) s.threads s')
        ⟨s, [.running (y.push v)], calls⟩ := fun s' e h hdepth =>
    inevitable_breaksOff_of_fails hp hfree hs hroom hfind (halone _ _ _) hcall hy h hdepth calls
  refine ⟨fun table scope arg code hcode =>
    ⟨f.lowerExpr_callWith hcode, f.lowerExpr_detachedWith hcode⟩, ?_, ?_, ?_, ?_, ?_⟩
  · exact fun s' z h =>
      inevitable_goesOn_of_returns hp hfree hs hroom hfind (halone _ _ _) hcall hy h calls
  · refine fun s' e h hdepth => ⟨?_, hfails s' e h hdepth⟩
    obtain ⟨fault, site, rfl⟩ := h.eq_raised rfl
    rfl
  · exact fun s' e h hdepth hthread hended => (hfails s' e h hdepth).trans fun m hm =>
      hm.inevitable_answer hthread hended
  · refine fun hlasts order => Machine.pends_of_lasts hp hfree hy hs hfind hroom (halone _ _ _)
      (fun n => ?_) calls order
    exact Alone.lasts hp hfree (lasts_of_call hcall hs.running hfind (hlasts (n + 1)) _ _) rfl
      (halone _ _ _) hs
  · exact fun hslots => returns_or_lasts_of_call hcall hs.running hfind none x.call fun n =>
      (halone none x.call v).lasts_or_returns hp hfree x.passed n hs hslots

/-- A function that prints its argument and returns it. -/
def sayer : Program where
  records := []
  functions := [{
    name := "say"
    params := ["text"]
    body := [.call "print" [.var "text"], .ret (.var "text")] }]

/-- A machine that knows the function. -/
def sayerMachine : Machine := (Machine.create {} {}).add
  ⟨"say", #[.store 0, .load 0, .plain .write, .push .null, dropResult, .load 0, .plain .ret]⟩

/-- An execution in front of a call of the function. -/
def callsSay : Execution :=
  ⟨none, 0, [], [{
    routine := ⟨"direct", #[.push (.str "hi"), .call "say", .plain .ret]⟩
    pc := 1 }]⟩

/-- An execution in front of the same in a thread. -/
def spawnsSay : Execution :=
  ⟨none, 0, [], [{
    routine := ⟨"detached", #[.push (.str "hi"), .push (.str "say"), .plain .thread, .plain .wait,
      .plain .ret]⟩
    pc := 1 }]⟩

theorem wellCalled_sayer : sayer.WellCalled where
  nodup := by decide
  not_builtin := by decide
  calls := by decide

theorem threadless_say {f : Function} (hf : f ∈ sayer.functions) : sayer.Threadless f := by
  have hfree : ∀ g ∈ sayer.functions, Stmt.allObey .threadless g.body = true := by decide
  intro g hg
  cases hg with
  | itself => exact hfree f hf
  | next _ hh _ => exact hfree g hh

theorem load_sayer : (Machine.create {} {}).load sayer = .ok sayerMachine := rfl

theorem readyIn_sayer : sayer.ReadyIn sayerMachine.shared :=
  ⟨Machine.loadedIn_of_load load_sayer wellCalled_sayer.toDistinct, rfl, rfl⟩

theorem returns_callsSay : (callsSay.push (.str "hi")).Returns 1 sayerMachine.shared
    { sayerMachine.shared with console := { output := "hi" } }
    (.ok ((callsSay.past 1).push (.str "hi"))) := by
  iterate 7 refine .later rfl (by decide) ?_
  exact .here rfl (by decide)

theorem detached_eq_call_say :
    (callsSay.push (.str "hi")).Returns 1 sayerMachine.shared
        { sayerMachine.shared with console := { output := "hi" } }
        (.ok ((callsSay.past 1).push (.str "hi"))) ∧
      (⟨sayerMachine.shared, [.running (spawnsSay.push (.str "hi"))], 1⟩ : Machine).Inevitable
        (GoesOn spawnsSay (.str "hi") #[]
          { sayerMachine.shared with console := { output := "hi" } }) := by
  obtain ⟨-, hends⟩ := detached_eq_call (m := ⟨sayerMachine.shared,
    [.running (spawnsSay.push (.str "hi"))], 1⟩) (x := callsSay) wellCalled_sayer readyIn_sayer
    (by decide) List.mem_cons_self rfl (threadless_say List.mem_cons_self) (.str "hi")
    ⟨rfl, trivial⟩ ⟨rfl, rfl, rfl, trivial⟩ rfl
  obtain ⟨w, hw, hgoes⟩ := hends.returns _ _ returns_callsSay
  cases hw
  exact ⟨returns_callsSay, hgoes⟩

end Program

end Opstack
