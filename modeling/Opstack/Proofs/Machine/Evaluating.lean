import Opstack.Proofs.Machine.Balance
import Opstack.Proofs.Machine.Passages

/-!
# Evaluating an expression

The code of an expression leaves one operand more than there were, and on the way there it works
with its own operands only.  `Program.Evaluating` is the state of an execution that evaluates an
expression in one of its activations, without the operands that were there before: it has as many
as the code accounts for up to the place where it is, or it is in a call from there.

`Program.Evaluating.next` says that a step leads to such a state again,
`Program.Evaluating.exists_instr` that its instruction finds its operands, and
`Program.Evaluating.exists_value` that there is one operand at the end, the value.
-/

set_option autoImplicit false

namespace Opstack

namespace Program

/-- The activation evaluates an expression whose code begins at a place.  The execution has the
operands that the code accounts for so far, or it is in a call, and then the activation misses just
the result. -/
inductive Evaluating (p : Program) (a : Activation) (low : Nat) (code : List Instr)
    (x : Execution) : Prop
  | here {j : Nat} (hj : j ≤ code.length) (hat : a.At (low + j) x)
      (hheight : climb p.calleeArity? 0 (code.take j) = some x.operands.length)
  | calling {j : Nat} {slots : Array Value} {kept held : List Value} {f : Frame}
      {fs : List Frame} (hj : j ≤ code.length)
      (hheight : climb p.calleeArity? 0 (code.take j) = some (kept.length + 1))
      (hstands : p.Stands kept (⟨a.routine, slots, low + j⟩ :: a.callers) held (f :: fs) x)

namespace Evaluating

variable {p : Program} {a : Activation} {low : Nat} {code : List Instr} {x y : Execution}
  {table : RecordTable} {scope : Scope} {e : Expr} {routines : List Routine} {i : Instr}

/-- An expression is evaluated from its first instruction on, without operands at first. -/
theorem start (hat : a.At low x) (hx : x.operands = []) : p.Evaluating a low code x :=
  .here (j := 0) (Nat.zero_le _) hat (by rw [hx]; rfl)

theorem levels (h : Term.Code p.callRules table scope (.expr e) code) :
    Levels p.calleeArity? 0 code [] where
  climbs := ⟨1, h.climbs callRules_counts 0⟩
  pauses := by
    rw [pauses_of_allows h.allows]
    exact List.forall_mem_nil _
  marks := List.forall_mem_nil _

/-- In a call the activation is not the innermost one. -/
theorem not_at_of_stands {base held : List Value} {f g : Frame} {fs : List Frame} {pc : Nat}
    (h : p.Stands base (g :: a.callers) held (f :: fs) x) : ¬ a.At pc x := by
  intro hat
  have hlength := hat.length_frames
  rw [h.frames, List.length_append, List.length_cons, List.length_cons] at hlength
  omega

/-- **At the end of the code there is one operand**, the value of the expression. -/
theorem exists_value (h : Term.Code p.callRules table scope (.expr e) code)
    (hx : p.Evaluating a low code x) (hat : a.At (low + code.length) x) :
    ∃ v, x.operands = [v] := by
  cases hx with
  | @here j _ hat' hheight =>
    obtain rfl : j = code.length := Nat.add_left_cancel (hat'.unique hat)
    rw [List.take_length] at hheight
    have hone : climb p.calleeArity? 0 code = some 1 := h.climbs callRules_counts 0
    exact List.length_eq_one_iff.mp (Option.some.inj (hheight.symm.trans hone))
  | calling _ _ hstands => exact absurd hat (not_at_of_stands hstands)

/-- Where the activation is the innermost one it is at an instruction of the code, or at its end. -/
theorem get?_eq (hcode : a.routine.Holds low code) {j : Nat} (hj : j < code.length)
    (hat : a.At (low + j) x) : x.instr? = some code[j] := by
  rw [hat.instr?_eq]
  exact hcode _ _ (at_iff_getElem?.mpr (List.getElem?_eq_getElem hj))

/-- **An instruction finds its operands** among those of the expression. -/
theorem exists_instr (hp : p.WellCalled) (h : Term.Code p.callRules table scope (.expr e) code)
    (hcode : a.routine.Holds low code) (hx : p.Evaluating a low code x)
    (hinside : Inside x.frames) (hnot : ¬ a.At (low + code.length) x) :
    ∃ i, x.instr? = some i ∧ i.op.pops ≤ x.operands.length := by
  cases hx with
  | @here j hj hat hheight =>
    have hlt : j < code.length := Nat.lt_of_le_of_ne hj (by rintro rfl; exact hnot hat)
    obtain ⟨m, htakes, hm, -⟩ := (levels h).succ (List.getElem?_eq_getElem hlt) hheight
    exact ⟨_, get?_eq hcode hlt hat, Nat.le_trans (Instr.pops_le_takes htakes) hm⟩
  | calling _ _ hstands =>
    have hne : x.frames ≠ [] := by
      rw [hstands.frames]
      exact List.cons_ne_nil _ _
    obtain ⟨i, hi⟩ := Execution.instr?_of_inside hinside hne
    exact ⟨i, hi, hstands.pops_le hp hi⟩

/-- The step of an instruction of the code itself. -/
theorem next_here (hp : p.WellCalled) (hl : p.LoadedIn routines)
    (h : Term.Code p.callRules table scope (.expr e) code) (hcode : a.routine.Holds low code)
    {j : Nat} (hj : j < code.length) (hat : a.At (low + j) x)
    (hheight : climb p.calleeArity? 0 (code.take j) = some x.operands.length)
    (hnext : x.Next routines y) : p.Evaluating a low code y := by
  obtain ⟨m, htakes, hm, hsucc⟩ := (levels h).succ (List.getElem?_eq_getElem hj) hheight
  obtain ⟨i, hi, hdoes⟩ := hnext.does
  obtain rfl : code[j] = i := Option.some.inj ((get?_eq hcode hj hat).symm.trans hi)
  have hallows := h.allows _ (List.getElem_mem hj)
  generalize code[j] = i at *
  obtain ⟨slots, hframes⟩ := hat
  obtain ⟨thread, call, operands, frames⟩ := x
  cases hframes
  generalize hz : Execution.passed _ = z at hdoes
  have hinert : ∀ {op : Opcode}, i.op = op → op = .load ∨ i.isInert = true := by
    rintro op rfl
    cases hallows with
    | inert hinert => exact .inr hinert
    | load _ => exact .inl rfl
  cases hdoes with
  | @work _ _ taken made below _ hop htaken hmade =>
    obtain ⟨hpops, hpushes⟩ := i.takes_of_isPlain hop p.calleeArity?
    cases hpops.symm.trans htakes
    cases hz
    refine .here (j := j + 1) hj ⟨slots, rfl⟩ ?_
    rw [hsucc, hpushes, List.length_append, List.length_append]
    exact congrArg some (by omega)
  | load hop _ _ =>
    simp only [Instr.takes, Instr.leaves, hop, Option.some.injEq] at htakes hsucc
    cases htakes
    cases hz
    exact .here (j := j + 1) hj ⟨slots, rfl⟩ hsucc
  | @enter _ _ name routine _ _ hop harg hfind =>
    simp only [Instr.takes, Instr.leaves, hop, harg] at htakes hsucc
    cases hz
    obtain ⟨callee, hcallee, rfl⟩ := Option.map_eq_some_iff.mp htakes
    obtain ⟨hmem, rfl⟩ := mem_of_function? hcallee
    obtain ⟨r, hlower, hr⟩ := hl callee hmem
    cases hfind.symm.trans hr
    refine .calling (j := j + 1) hj ?_ (stands_of_entered hp hmem hlower rfl hm)
    rw [hsucc, List.length_drop]
  | store hop _ | jump hop _ | stay hop _ | branch hop _ | leave hop =>
    rcases hinert hop with heq | hinert
    · cases heq
    · rw [Instr.isInert, hop] at hinert
      cases hinert

/-- **One step** of the evaluation, within the code or in a call from there. -/
theorem next (hp : p.WellCalled) (hl : p.LoadedIn routines)
    (h : Term.Code p.callRules table scope (.expr e) code) (hcode : a.routine.Holds low code)
    (hx : p.Evaluating a low code x) (hnot : ¬ a.At (low + code.length) x)
    (hnext : x.Next routines y) : p.Evaluating a low code y := by
  cases hx with
  | @here j hj hat hheight =>
    have hlt : j < code.length := Nat.lt_of_le_of_ne hj (by rintro rfl; exact hnot hat)
    exact next_here hp hl h hcode hlt hat hheight hnext
  | @calling j slots kept _ _ _ hj hheight hstands =>
    rcases hstands.next hp hl hnext with ⟨held, own, hown, -, hy⟩ | ⟨-, v, hv, hframes⟩
    · cases own with
      | nil => exact absurd rfl hown
      | cons f fs => exact .calling hj hheight hy
    · exact .here hj ⟨slots, hframes⟩ (by rw [hv, hheight]; rfl)

end Evaluating

end Program

end Opstack
