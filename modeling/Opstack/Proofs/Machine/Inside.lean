import Opstack.Proofs.Lowering.Forms
import Opstack.Proofs.Machine.Assignment

/-!
# Executions stay inside their routines

`step` lets an execution end when it runs past the last instruction of a routine, and what it then
returns looks like any other result.  An execution of compiled code never does so: all its
activations, those that wait for a callee included, are at instructions of their routines, and it
returns only after the `RET` of its first activation.  Nor does it ever come to an instruction that
does not carry what its opcode needs.

One step is `Execution.Next.inside`, the history of an execution `inside_of_trace`, and
`Machine.staysInside_of_play` puts both into a machine where calls and threads go on side by side.
-/

set_option autoImplicit false

namespace Opstack

/-- All activations are at instructions of closed routines. -/
def Inside (frames : List Frame) : Prop :=
  ∀ f ∈ frames, f.routine.Closed ∧ f.pc < f.routine.size

theorem inside_begin {r : Routine} (h : r.Closed) : Inside [{ routine := r }] :=
  List.forall_mem_singleton.mpr ⟨h, h.begins⟩

namespace Execution

section

variable {routines : List Routine} {x y : Execution}

/-- What a step does to the call stack: it moves the innermost activation, or puts another one
upon it, or ends it. -/
theorem Next.frames_eq (h : x.Next routines y) :
    ∃ f fs i, x.frames = f :: fs ∧ f.routine.get? f.pc = some i ∧
      ((∃ g, y.frames = g :: fs ∧ g.routine = f.routine ∧
          (i.op ≠ .ret ∧ g.pc = f.pc + 1 ∨ i.op.isJump = true ∧ i.arg = some (.target g.pc))) ∨
        (∃ routine ∈ routines, i.op ≠ .ret ∧
          y.frames = { routine } :: { f with pc := f.pc + 1 } :: fs) ∨
        i.op = .ret ∧ y.frames = fs) := by
  obtain ⟨thread, call, operands, frames⟩ := x
  obtain ⟨i, hi, hdoes⟩ := h.does
  cases frames with
  | nil => cases hi
  | cons f fs =>
    refine ⟨f, fs, i, rfl, hi, ?_⟩
    have hne : ∀ {op}, i.op = op → op ≠ .ret → i.op ≠ .ret := fun hop => hop ▸ id
    generalize hz : passed ⟨thread, call, operands, f :: fs⟩ = z at hdoes
    cases hdoes with
    | work hop _ _ =>
      simp only [passed, Execution.mk.injEq] at hz
      obtain ⟨-, -, -, rfl⟩ := hz
      refine .inl ⟨_, rfl, rfl, .inl ⟨fun hret => ?_, rfl⟩⟩
      rw [hret] at hop
      cases hop
    | load hop _ _ | store hop _ =>
      simp only [passed, Execution.mk.injEq, List.cons.injEq] at hz
      obtain ⟨-, -, -, rfl, rfl⟩ := hz
      exact .inl ⟨_, rfl, rfl, .inl ⟨hne hop (by decide), rfl⟩⟩
    | jump hop harg | branch hop harg =>
      simp only [passed, Execution.mk.injEq, List.cons.injEq] at hz
      obtain ⟨-, -, -, rfl, rfl⟩ := hz
      exact .inl ⟨_, rfl, rfl, .inr ⟨by rw [hop]; rfl, harg⟩⟩
    | stay hop _ =>
      simp only [passed, Execution.mk.injEq] at hz
      obtain ⟨-, -, -, rfl⟩ := hz
      exact .inl ⟨_, rfl, rfl, .inl ⟨hne hop (by decide), rfl⟩⟩
    | enter hop _ hfind =>
      simp only [passed, Execution.mk.injEq] at hz
      obtain ⟨-, -, -, rfl⟩ := hz
      exact .inr (.inl ⟨_, List.mem_of_find?_eq_some hfind, hne hop (by decide), rfl⟩)
    | leave hop =>
      simp only [passed, Execution.mk.injEq] at hz
      obtain ⟨-, -, -, rfl⟩ := hz
      exact .inr (.inr ⟨hop, rfl⟩)

/-- **One step**: the activations stay at instructions of their routines. -/
theorem Next.inside (hclosed : ∀ r ∈ routines, { routine := r } ∈ y.frames → r.Closed)
    (hx : Inside x.frames) (h : x.Next routines y) : Inside y.frames := by
  obtain ⟨f, fs, i, hframes, hi, hnext⟩ := h.frames_eq
  rw [Inside, hframes, List.forall_mem_cons] at hx
  obtain ⟨⟨hf, -⟩, hfs⟩ := hx
  rcases hnext with ⟨g, hy, hroutine, hpc⟩ | ⟨routine, hmem, hop, hy⟩ | ⟨-, hy⟩
  · rw [Inside, hy, List.forall_mem_cons, hroutine]
    refine ⟨⟨hf, ?_⟩, hfs⟩
    rcases hpc with ⟨hop, hpc⟩ | ⟨hjump, harg⟩
    · exact hpc ▸ hf.next _ i hi hop
    · obtain ⟨target, harg', hlt⟩ := hf.jumps _ i hi hjump
      cases harg.symm.trans harg'
      exact hlt
  · have hroutine := hclosed routine hmem (hy ▸ List.mem_cons_self)
    rw [Inside, hy, List.forall_mem_cons, List.forall_mem_cons]
    exact ⟨⟨hroutine, hroutine.begins⟩, ⟨hf, hf.next _ i hi hop⟩, hfs⟩
  · rw [hy]
    exact hfs

/-- The latest state of a history is past its last activation because of the `RET` before it. -/
def LeftByRet (past : List Execution) : Prop :=
  ∃ y rest, past = y :: rest ∧ y.frames.length = 1 ∧ ∃ i, y.instr? = some i ∧ i.op = .ret

theorem Next.leftByRet {past : List Execution} (h : x.Next routines y) (hy : y.frames = []) :
    LeftByRet (x :: past) := by
  obtain ⟨f, fs, i, hframes, hi, hnext⟩ := h.frames_eq
  have hinstr : x.instr? = some i := by
    rw [instr?, hframes]
    exact hi
  rcases hnext with ⟨g, hg, -⟩ | ⟨routine, -, -, hg⟩ | ⟨hop, hfs⟩
  · cases hy.symm.trans hg
  · cases hy.symm.trans hg
  · cases hy.symm.trans hfs
    exact ⟨x, past, rfl, by rw [hframes]; rfl, i, hinstr, hop⟩

/-- At every moment of an execution the activations are at instructions of their routines, unless
the last one has been left by a `RET`. -/
theorem inside_of_trace (hclosed : ∀ r ∈ routines, r.Closed) {x₀ : Execution}
    (hx₀ : x₀.Starts routines) {history : List Execution} (h : x₀.Trace routines history) :
    ∀ x past, history = x :: past → Inside x.frames ∧ (x.frames = [] → LeftByRet past) := by
  induction h with
  | start =>
    rintro x past ⟨⟩
    cases hx₀ with
    | call hfind _ _ =>
      exact ⟨inside_begin (hclosed _ (List.mem_of_find?_eq_some hfind)), fun h => by cases h⟩
    | thread hmem _ _ _ => exact ⟨inside_begin (hclosed _ hmem), fun h => by cases h⟩
  | next _ hnext ih =>
    rintro y past ⟨⟩
    exact ⟨hnext.inside (fun r hr _ => hclosed r hr) (ih _ _ rfl).1, hnext.leftByRet⟩

end

/-! ## What can happen next -/

/-- An execution that went through these states, the latest first, is inside its routines and ends
in no other way than it should. -/
structure StaysInside (x : Execution) (past : List Execution) : Prop where
  /-- Every activation is at an instruction of its routine. -/
  inside : ∀ f ∈ x.frames, f.pc < f.routine.size
  /-- It returns after the `RET` of its first activation and not otherwise. -/
  returns : ∀ s s' v, step s x = (s', .returns v) → x.frames = [] ∧ LeftByRet past
  /-- The instructions that fail are well formed. -/
  fails : ∀ s s' e, step s x = (s', .fails e) → e.fault ≠ .malformedInstruction
  /-- It ends without a result only if a slot is beyond every list of slots. -/
  crashes : ∀ s s', step s x = (s', .crashes) →
    ∃ i, x.instr? = some i ∧ i.Overflows s.config.host.capacity

theorem instr?_of_inside {x : Execution} (h : Inside x.frames) (hne : x.frames ≠ []) :
    ∃ i, x.instr? = some i := by
  obtain ⟨thread, call, operands, frames⟩ := x
  cases frames with
  | nil => exact absurd rfl hne
  | cons f fs =>
    have hpc : f.pc < f.routine.code.size := (h f List.mem_cons_self).2
    exact ⟨f.routine.code[f.pc], Array.getElem?_eq_getElem hpc⟩

theorem staysInside {x : Execution} {past : List Execution} (h : Inside x.frames)
    (hleft : x.frames = [] → LeftByRet past) : x.StaysInside past where
  inside f hf := (h f hf).2
  returns s s' v hstep := by
    have hnone := step_follows s x
    rw [hstep] at hnone
    have hx : x.frames = [] := Classical.byContradiction fun hne => by
      obtain ⟨i, hi⟩ := instr?_of_inside h hne
      cases hnone.symm.trans hi
    exact ⟨hx, hleft hx⟩
  fails s s' e hstep he := by
    obtain ⟨f, fs, i, hx, hi, haccepts⟩ := accepts_of_malformed hstep he
    have hf := (h f (by rw [hx]; exact List.mem_cons_self)).1
    rw [hf.formed _ i hi] at haccepts
    cases haccepts
  crashes s s' hstep := by
    have hfollows := step_follows s x
    rw [hstep] at hfollows
    exact hfollows

end Execution

/-! ## Whole machines -/

/-- The execution of the task stays inside its routines; one that waits is at an instruction in
each. -/
def Task.StaysInside (routines : List Routine) : Task → Prop
  | .running x => ∃ (x₀ : Execution) (past : List Execution), x₀.Starts routines ∧
      x₀.Trace routines (x :: past) ∧ x.StaysInside past
  | .waiting x _ _ => ∀ f ∈ x.frames, f.pc < f.routine.size
  | _ => True

theorem Task.Arises.staysInside {routines : List Routine} (hclosed : ∀ r ∈ routines, r.Closed)
    {t : Task} (h : t.Arises routines) : t.StaysInside routines := by
  cases t with
  | running x =>
    obtain ⟨x₀, past, hstarts, htrace⟩ := h
    obtain ⟨hinside, hleft⟩ := Execution.inside_of_trace hclosed hstarts htrace x past rfl
    exact ⟨x₀, past, hstarts, htrace, Execution.staysInside hinside hleft⟩
  | waiting x thread site =>
    obtain ⟨x₀, past, hstarts, htrace⟩ := h .null
    obtain ⟨hinside, -⟩ := Execution.inside_of_trace hclosed hstarts htrace _ past rfl
    exact fun f hf => (hinside f hf).2
  | failing _ _ _ | joining _ _ | closing _ _ | answered _ _ => trivial

/-- **Compiled code never runs off its end and is never malformed.**  If all routines of a machine
are compiled functions, then in whatever order calls begin and tasks take turns, every activation
of every execution is at an instruction of its routine, an execution returns only by the `RET` of
its first activation, and no instruction fails because of what it carries. -/
theorem Machine.staysInside_of_play {m : Machine} (hm : m.tasks = [])
    (hcompiled : ∀ r ∈ m.shared.routines, ∃ (f : Function) (table : RecordTable),
      f.lower table = .ok r) (moves : List Move) {t : Task} (ht : t ∈ (m.play moves).tasks) :
    t.StaysInside m.shared.routines := by
  have hidle : m.Arises := fun t ht => by
    rw [hm] at ht
    cases ht
  have hclosed : ∀ r ∈ m.shared.routines, r.Closed := by
    intro r hr
    obtain ⟨f, table, hlower⟩ := hcompiled r hr
    exact Function.closed_of_lower hlower
  obtain ⟨hroutines, harises⟩ := Machine.play_arises hidle moves
  exact Task.Arises.staysInside hclosed (hroutines ▸ harises t ht)

/-- A function that never returns. -/
def forever : Function :=
  { name := "forever", params := [], body := [.whileLoop (.literal ⟨.bool, "true"⟩) []] }

/-- The routine of `forever`. -/
def foreverRoutine : Routine :=
  ⟨"forever", #[.push (.bool true), .jmpf 3, .jmp 0,
    (Instr.push .null).withComment "implicit return", .plain .ret]⟩

theorem Machine.staysInside_of_play_forever :
    ∃ t ∈ (Machine.play { shared := { routines := [foreverRoutine] } }
        [.begin "forever" [], .advance 0, .advance 0, .advance 0]).tasks,
      t.StaysInside [foreverRoutine] := by
  let m : Machine := { shared := { routines := [foreverRoutine] } }
  have hcompiled : ∀ r ∈ m.shared.routines, ∃ (f : Function) (table : RecordTable),
      f.lower table = .ok r := List.forall_mem_singleton.mpr ⟨forever, [], rfl⟩
  have hmem : Task.running ⟨none, 0, [], [{ routine := foreverRoutine }]⟩ ∈
      (m.play [.begin "forever" [], .advance 0, .advance 0, .advance 0]).tasks :=
    List.mem_singleton.mpr rfl
  exact ⟨_, hmem, staysInside_of_play (m := m) rfl hcompiled _ hmem⟩

end Opstack
