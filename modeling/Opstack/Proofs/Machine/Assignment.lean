import Opstack.Proofs.Lowering.Stretches
import Opstack.Proofs.Machine.Run

/-!
# Every load reads what was stored

A slot beyond those in use springs into being with `null` in it as soon as a higher one is stored
to, so a `LOAD` in the wrong place would go unnoticed.  In compiled code there is none: each `LOAD`
pushes the value that the same activation stored to the slot last.

The history of an execution says what was stored last (`lastStored`).  `Assigned` is the
invariant: whenever an activation is in a stretch for a slot, the slot holds that value.  A step
keeps it because a stretch is entered over its `STORE` alone (`Stretch.before`).
-/

set_option autoImplicit false

namespace Opstack

/-! ## What was stored last -/

/-- The value that the next instruction moves into a slot. -/
def Execution.stored? (x : Execution) (slot : Nat) : Option Value :=
  match x.instr?, x.operands with
  | some i, v :: _ => if i.op = .store ∧ i.arg = some (.slot slot) then some v else none
  | _, _ => none

/-- The value that the activation at a depth of the call stack has stored last to a slot, if the
execution went through these states, the latest first.  Where the call stack was lower the
activation had not begun. -/
def lastStored (slot depth : Nat) : List Execution → Option Value
  | [] => none
  | x :: past =>
    if x.frames.length < depth then none
    else if x.frames.length = depth then x.stored? slot <|> lastStored slot depth past
    else lastStored slot depth past

section

variable {x : Execution} {i : Instr} {slot : Nat} {past : List Execution}

theorem Execution.stored?_eq_none (hi : x.instr? = some i)
    (h : i.op = .store → i.arg ≠ some (.slot slot)) : x.stored? slot = none := by
  rw [stored?, hi]
  split
  · rename_i h₁ _
    cases h₁
    exact if_neg fun hstore => h hstore.1 hstore.2
  · rfl

theorem lastStored_of_lt {depth : Nat} (h : depth < x.frames.length) :
    lastStored slot depth (x :: past) = lastStored slot depth past := by
  rw [lastStored, if_neg (by omega), if_neg (by omega)]

theorem lastStored_of_eq {depth : Nat} (h : x.frames.length = depth) :
    lastStored slot depth (x :: past) = (x.stored? slot <|> lastStored slot depth past) := by
  rw [lastStored, if_neg (by omega), if_pos h]

end

/-! ## Activations in stretches -/

/-- Where an activation in a stretch came from: it was in the stretch before, or has just
performed the `STORE` at its beginning. -/
theorem Stretch.before {code : List Instr} {slot low high pc pc' : Nat} {i : Instr}
    (h : Stretch 0 code slot low high) (hi : code[pc]? = some i)
    (hnext : pc' = pc + 1 ∨ i.op.isJump = true ∧ i.arg = some (.target pc'))
    (hlow : low < pc') (hhigh : pc' < high) :
    low < pc ∧ pc < high ∨ i.op = .store ∧ i.arg = some (.slot slot) := by
  have hat : At 0 code pc i := by
    rw [← Nat.zero_add pc]
    exact at_iff_getElem?.mpr hi
  rcases hnext with rfl | ⟨hjump, harg⟩
  · rcases Nat.lt_succ_iff_lt_or_eq.mp hlow with hlt | rfl
    · exact .inl ⟨hlt, by omega⟩
    · obtain ⟨j, hj, hop, harg⟩ := h.store
      rw [← Nat.zero_add low] at hj
      cases hi.symm.trans (at_iff_getElem?.mp hj)
      exact .inr ⟨hop, harg⟩
  · exact .inl (h.closed pc i pc' hat hjump harg hlow hhigh)

/-- An activation at a depth holds what it has stored last in the slots of the stretches that it
is in. -/
def Frame.Assigned (past : List Execution) (depth : Nat) (f : Frame) : Prop :=
  ∀ slot low high, Stretch 0 f.routine.code.toList slot low high → low < f.pc → f.pc < high →
    ∃ v, f.slots[slot]? = some v ∧ lastStored slot depth past = some v

/-- All activations hold what they have stored last in the slots of the stretches that they are
in. -/
def Assigned (past : List Execution) : List Frame → Prop
  | [] => True
  | f :: fs => f.Assigned past (fs.length + 1) ∧ Assigned past fs

section

variable {routines : List Routine} {x y : Execution} {past : List Execution}

/-- Activations that wait are not affected by what others do. -/
theorem Assigned.cons {fs : List Frame} (h : Assigned past fs) (hlt : fs.length < x.frames.length) :
    Assigned (x :: past) fs := by
  induction fs with
  | nil => trivial
  | cons f fs ih =>
    rw [List.length_cons] at hlt
    refine ⟨fun slot low high hstretch hlow hhigh => ?_, ih h.2 (by omega)⟩
    rw [lastStored_of_lt hlt]
    exact h.1 slot low high hstretch hlow hhigh

/-- **One step**: the activations still hold what they have stored last. -/
theorem Assigned.next (h : Assigned past x.frames) (hnext : x.Next routines y) :
    Assigned (x :: past) y.frames := by
  obtain ⟨thread, call, operands, frames⟩ := x
  obtain ⟨i, hi, hdoes⟩ := hnext.does
  cases frames with
  | nil => cases hi
  | cons f fs =>
    have hcode : f.routine.code.toList[f.pc]? = some i := by
      rw [Array.getElem?_toList]
      exact hi
    have hlength : (⟨thread, call, operands, f :: fs⟩ : Execution).frames.length =
        fs.length + 1 := rfl
    have hfs : Assigned (⟨thread, call, operands, f :: fs⟩ :: past) fs :=
      h.2.cons (Nat.lt_succ_self _)
    -- An instruction that stores nothing leaves the slots as they are.
    have hkept : ∀ {pc'}, i.op ≠ .store →
        (pc' = f.pc + 1 ∨ i.op.isJump = true ∧ i.arg = some (.target pc')) →
        Assigned (⟨thread, call, operands, f :: fs⟩ :: past) ({ f with pc := pc' } :: fs) := by
      intro pc' hop hpc'
      refine ⟨fun slot low high hstretch hlow hhigh => ?_, hfs⟩
      rcases hstretch.before hcode hpc' hlow hhigh with ⟨hlow, hhigh⟩ | ⟨hstore, -⟩
      · rw [lastStored_of_eq hlength, Execution.stored?_eq_none hi fun hstore => absurd hstore hop]
        exact h.1 slot low high hstretch hlow hhigh
      · exact absurd hstore hop
    generalize hz : Execution.passed ⟨thread, call, operands, f :: fs⟩ = z at hdoes
    cases hdoes with
    | work hop _ _ =>
      simp only [Execution.passed, Execution.mk.injEq] at hz
      obtain ⟨-, -, -, rfl⟩ := hz
      exact hkept (fun h => by rw [h] at hop; cases hop) (.inl rfl)
    | load hop _ _ =>
      simp only [Execution.passed, Execution.mk.injEq, List.cons.injEq] at hz
      obtain ⟨-, -, -, rfl, rfl⟩ := hz
      exact hkept (fun h => by rw [h] at hop; cases hop) (.inl rfl)
    | @store _ _ stored v _ _ _ hop harg =>
      simp only [Execution.passed, Execution.mk.injEq, List.cons.injEq] at hz
      obtain ⟨-, -, rfl, rfl, rfl⟩ := hz
      refine ⟨fun slot low high hstretch hlow hhigh => ?_, hfs⟩
      rw [lastStored_of_eq hlength]
      by_cases hslot : slot = stored
      · subst hslot
        refine ⟨v, getElem?_storeSlot_self _ _ _, ?_⟩
        simp [Execution.stored?, hi, hop, harg]
      · have hne : i.arg ≠ some (.slot slot) := by
          rw [harg]
          exact fun h => hslot (Operand.slot.inj (Option.some.inj h)).symm
        rcases hstretch.before hcode (.inl rfl) hlow hhigh with ⟨hlow, hhigh⟩ | ⟨-, harg'⟩
        · obtain ⟨w, hw, hlast⟩ := h.1 slot low high hstretch hlow hhigh
          rw [Execution.stored?_eq_none hi fun _ => hne]
          exact ⟨w, getElem?_storeSlot_of_ne hw hslot, hlast⟩
        · exact absurd harg' hne
    | jump hop harg =>
      simp only [Execution.passed, Execution.mk.injEq, List.cons.injEq] at hz
      obtain ⟨-, -, -, rfl, rfl⟩ := hz
      exact hkept (fun h => by rw [h] at hop; cases hop) (.inr ⟨by rw [hop]; rfl, harg⟩)
    | stay hop _ =>
      simp only [Execution.passed, Execution.mk.injEq] at hz
      obtain ⟨-, -, -, rfl⟩ := hz
      exact hkept (fun h => by rw [h] at hop; cases hop) (.inl rfl)
    | branch hop harg =>
      simp only [Execution.passed, Execution.mk.injEq, List.cons.injEq] at hz
      obtain ⟨-, -, -, rfl, rfl⟩ := hz
      exact hkept (fun h => by rw [h] at hop; cases hop) (.inr ⟨by rw [hop]; rfl, harg⟩)
    | enter hop _ _ =>
      simp only [Execution.passed, Execution.mk.injEq] at hz
      obtain ⟨-, -, -, rfl⟩ := hz
      -- The new activation is at its beginning, where no stretch is.
      refine ⟨fun slot low high _ hlow _ => absurd hlow (Nat.not_lt_zero low), ?_⟩
      exact hkept (fun h => by rw [h] at hop; cases hop) (.inl rfl)
    | leave hop =>
      simp only [Execution.passed, Execution.mk.injEq] at hz
      obtain ⟨-, -, -, rfl⟩ := hz
      exact hfs

theorem routine_mem_of_next (h : ∀ f ∈ x.frames, f.routine ∈ routines)
    (hnext : x.Next routines y) : ∀ f ∈ y.frames, f.routine ∈ routines := by
  obtain ⟨i, -, hdoes⟩ := hnext.does
  have hz : ∀ f ∈ x.passed.frames, f.routine ∈ routines := by
    obtain ⟨thread, call, operands, frames⟩ := x
    cases frames with
    | nil => exact h
    | cons f fs => exact List.forall_mem_cons.mpr (List.forall_mem_cons.mp h)
  generalize x.passed = z at hz hdoes
  cases hdoes with
  | work _ _ _ | load _ _ _ | stay _ _ => exact hz
  | store _ _ | jump _ _ | branch _ _ =>
    exact List.forall_mem_cons.mpr (List.forall_mem_cons.mp hz)
  | enter _ _ hfind => exact List.forall_mem_cons.mpr ⟨List.mem_of_find?_eq_some hfind, hz⟩
  | leave _ => exact fun f hf => hz f (List.mem_of_mem_tail hf)

/-- At every moment of an execution the activations hold what they have stored last. -/
theorem assigned_of_trace {x₀ : Execution} (hx₀ : x₀.Starts routines)
    {history : List Execution} (h : x₀.Trace routines history) :
    ∀ x past, history = x :: past →
      Assigned past x.frames ∧ ∀ f ∈ x.frames, f.routine ∈ routines := by
  induction h with
  | start =>
    rintro x past ⟨⟩
    have hbegins : ∀ r : Routine, Assigned [] [{ routine := r }] :=
      fun r => ⟨fun slot low high _ hlow _ => absurd hlow (Nat.not_lt_zero low), trivial⟩
    cases hx₀ with
    | call hfind _ _ =>
      exact ⟨hbegins _, List.forall_mem_singleton.mpr (List.mem_of_find?_eq_some hfind)⟩
    | thread hmem _ _ _ => exact ⟨hbegins _, List.forall_mem_singleton.mpr hmem⟩
  | next _ hnext ih =>
    rintro y past ⟨⟩
    obtain ⟨hassigned, hmem⟩ := ih _ _ rfl
    exact ⟨hassigned.next hnext, routine_mem_of_next hmem hnext⟩

end

/-- What a `LOAD` does that finds a value in its slot. -/
theorem step_load {s : Shared} {x : Execution} {i : Instr} {f : Frame} {fs : List Frame}
    {slot : Nat} {v : Value} (hx : x.frames = f :: fs) (hi : x.instr? = some i)
    (hop : i.op = .load) (harg : i.arg = some (.slot slot)) (hv : f.slots[slot]? = some v)
    (hs : s.isHalted = false) : step s x = (s, .continues (x.passed.push v)) := by
  obtain ⟨thread, call, operands, frames⟩ := x
  subst hx
  have hget : f.routine.get? f.pc = some i := hi
  simp [step, hget, hs, perform, hop, Instr.slotArg_eq_ok.mpr harg, Except.bind, Execution.load,
    Frame.load, hv, Effect.ofExcept, Execution.passed, bind, pure, Except.pure]

/-- **Every load reads what was stored.**  If all routines of a machine are compiled functions,
then at any moment of any execution a `LOAD` that comes next pushes the value that the same
activation has stored to the slot last, and no instruction finds a slot without a value. -/
theorem loads_assigned {routines : List Routine}
    (hcompiled : ∀ r ∈ routines, ∃ (f : Function) (table : RecordTable), f.lower table = .ok r)
    {x₀ x : Execution} {past : List Execution} (hx₀ : x₀.Starts routines)
    (htrace : x₀.Trace routines (x :: past)) :
    (∀ i slot, x.instr? = some i → i.op = .load → i.arg = some (.slot slot) →
      ∃ v, lastStored slot x.frames.length past = some v ∧
        ∀ s, s.isHalted = false → step s x = (s, .continues (x.passed.push v))) ∧
    ∀ s s' e slot, step s x = (s', .fails e) → e.fault ≠ .uninitializedSlot slot := by
  obtain ⟨hassigned, hmem⟩ := assigned_of_trace hx₀ htrace x past rfl
  have hload : ∀ f fs i slot, x.frames = f :: fs → f.routine.get? f.pc = some i → i.op = .load →
      i.arg = some (.slot slot) →
      ∃ v, f.slots[slot]? = some v ∧ lastStored slot x.frames.length past = some v := by
    intro f fs i slot hx hi hop harg
    rw [hx] at hassigned
    obtain ⟨g, table, hlower⟩ := hcompiled f.routine (hmem f (by rw [hx]; exact List.mem_cons_self))
    obtain ⟨code, hcode, hroutine, -⟩ := Function.lower_eq_ok hlower
    have hat : At 0 f.routine.code.toList f.pc i := by
      rw [← Nat.zero_add f.pc]
      refine at_iff_getElem?.mpr ?_
      rw [Array.getElem?_toList]
      exact hi
    have hguarded : Guarded 0 [] f.routine.code.toList := by
      rw [hroutine]
      exact Function.guarded hcode
    rcases hguarded f.pc i slot hat hop harg with hnone | ⟨low, high, hstretch, hlow, hhigh, -⟩
    · cases hnone
    · rw [hx]
      exact hassigned.1 slot low high hstretch hlow hhigh
  refine ⟨fun i slot hi hop harg => ?_, fun s s' e slot hstep he => ?_⟩
  · cases hx : x.frames with
    | nil =>
      rw [Execution.instr?, hx] at hi
      cases hi
    | cons f fs =>
      have hget : f.routine.get? f.pc = some i := by
        rw [Execution.instr?, hx] at hi
        exact hi
      obtain ⟨v, hv, hlast⟩ := hload f fs i slot hx hget hop harg
      rw [hx] at hlast
      exact ⟨v, hlast, fun s hs => step_load hx hi hop harg hv hs⟩
  · obtain ⟨f, fs, i, hx, hi, hop, harg, hnone⟩ := Execution.load_of_uninitializedSlot hstep he
    obtain ⟨v, hv, -⟩ := hload f fs i slot hx hi hop harg
    rw [hv] at hnone
    cases hnone

/-- A function that returns its argument. -/
def echo : Function := { name := "echo", params := ["n"], body := [.ret (.var "n")] }

/-- The routine of `echo`. -/
def echoRoutine : Routine := ⟨"echo", #[.store 0, .load 0, .plain .ret]⟩

theorem loads_assigned_echo : ∃ x₀ x : Execution, x₀.Trace [echoRoutine] [x, x₀] ∧
    x.instr? = some (.load 0) ∧ ∃ v, lastStored 0 x.frames.length [x₀] = some v ∧
      ∀ s, s.isHalted = false → step s x = (s, .continues (x.passed.push v)) := by
  have htrace : Execution.Trace [echoRoutine]
      ⟨none, 0, [.int 7], [{ routine := echoRoutine }]⟩ [_, _] :=
    .next .start (.continues (s := { routines := [echoRoutine] }) rfl rfl)
  have hcompiled : ∀ r ∈ [echoRoutine], ∃ (f : Function) (table : RecordTable),
      f.lower table = .ok r := List.forall_mem_singleton.mpr ⟨echo, [], rfl⟩
  have hstarts : Execution.Starts [echoRoutine] ⟨none, 0, [.int 7], [{ routine := echoRoutine }]⟩ :=
    .call (show routineOf? _ "echo" = _ from rfl) 0 [.int 7]
  exact ⟨_, _, htrace, rfl, (loads_assigned hcompiled hstarts htrace).1 _ 0 rfl rfl rfl⟩

end Opstack
