import Opstack.Proofs.Lowering.Stores
import Opstack.Proofs.Machine.Inside
import Opstack.Proofs.Machine.Placement
import Opstack.Proofs.Machine.Statements

/-!
# Passages through code

What an execution does between two places of a routine is a list of points: the states that it goes
through, each with what it shared when it took its next step.  Others may change what is shared
between any two of its steps, so what is said here holds in every order of turns.

* `Execution.Path` is such a list, step by step.
* `Activation.Leaves` is a path of one activation that stays in a piece of code, or in calls from
  there, and ends right behind it.  `Activation.Passes` also begins at its first instruction.
* `Activation.Leaves.split`: code that does not jump out of itself can only be left at its end.  So
  a passage through code is a passage through its parts one after the other.
* `leaves_jmp_iff` and `leaves_jmpf_iff` say how it goes on at a jump.
-/

set_option autoImplicit false

namespace Opstack

/-! ## Paths -/

namespace Execution

/-- A step in a state of what is shared leads the execution from one state to another.  A result
that it waits for may be any value. -/
inductive Takes (s : Shared) (x : Execution) : Execution → Prop
  | continues {s' : Shared} {y : Execution} (h : step s x = (s', .continues y)) : Takes s x y
  | spawns {s' : Shared} {y child : Execution} (h : step s x = (s', .spawns y child)) : Takes s x y
  | waits {s' : Shared} {y : Execution} {thread : ThreadId} {site : Site} (v : Value)
      (h : step s x = (s', .waits y thread site)) : Takes s x (y.push v)

/-- The execution takes a step at each of these points, one after the other. -/
inductive Path (routines : List Routine) : Execution → List Point → Execution → Prop
  | refl (x : Execution) : Path routines x [] x
  | step {s : Shared} {x y z : Execution} {points : List Point} (hs : s.routines = routines)
      (h : x.Takes s y) (rest : Path routines y points z) : Path routines x (⟨s, x⟩ :: points) z

variable {routines : List Routine} {s : Shared} {x y z : Execution} {i : Instr}
  {points points' : List Point}

theorem Takes.next (h : x.Takes s y) (hs : s.routines = routines) : x.Next routines y := by
  cases h with
  | continues h => exact .continues hs h
  | spawns h => exact .spawns hs h
  | waits v h => exact .waits v hs h

/-- An execution takes no step when the machine has been halted. -/
theorem Takes.isHalted_eq (h : x.Takes s y) : s.isHalted = false := by
  obtain ⟨i, hi, -⟩ := (h.next rfl).does
  rw [← Bool.not_eq_true]
  intro hhalted
  have hstep := step_of_isHalted hi hhalted
  cases h with
  | continues h | spawns h | waits v h =>
    rw [hstep] at h
    cases h

/-- An instruction that makes one thing of the execution leaves no choice. -/
theorem takes_iff (hi : x.instr? = some i) (hperform : (perform s x.passed i).2 = .next z) :
    x.Takes s y ↔ s.isHalted = false ∧ y = z := by
  constructor
  · intro h
    have hrun := h.isHalted_eq
    have hstep := step_of_instr? hi hrun
    rw [hperform] at hstep
    refine ⟨hrun, ?_⟩
    cases h with
    | continues h | spawns h | waits v h =>
      rw [h] at hstep
      cases hstep
      try rfl
  · rintro ⟨hrun, rfl⟩
    have hstep := step_of_instr? hi hrun
    rw [hperform] at hstep
    exact .continues hstep

theorem Path.append (h : Path routines x points y) (h' : Path routines y points' z) :
    Path routines x (points ++ points') z := by
  induction h with
  | refl x => exact h'
  | step hs htakes _ ih => exact .step hs htakes (ih h')

end Execution

/-! ## Code without a way out -/

/-- The jumps of the routine between two places stay between them. -/
def Routine.ClosedIn (r : Routine) (low high : Nat) : Prop :=
  ∀ pc i, low ≤ pc → pc < high → r.get? pc = some i → i.op.isJump = true →
    ∃ target, i.arg = some (.target target) ∧ low ≤ target ∧ target ≤ high

/-- An instruction between the places of some code is one of the code. -/
theorem Routine.Holds.mem_of_get? {r : Routine} {low pc : Nat} {code : List Instr} {i : Instr}
    (h : r.Holds low code) (hlow : low ≤ pc) (hhigh : pc < low + code.length)
    (hi : r.get? pc = some i) : i ∈ code := by
  obtain ⟨k, rfl⟩ := Nat.exists_eq_add_of_le hlow
  have hat : At low code (low + k) code[k] :=
    at_iff_getElem?.mpr (List.getElem?_eq_getElem (by omega))
  cases hi.symm.trans (h _ _ hat)
  exact hat.mem

theorem JumpsWithin.closedIn {r : Routine} {low high : Nat} {code : List Instr}
    (h : JumpsWithin low high code) (hcode : r.Holds low code) (hhigh : high = low + code.length) :
    r.ClosedIn low high := fun _ _ hlow hlt hi =>
  h _ (hcode.mem_of_get? hlow (hhigh ▸ hlt) hi)

/-- An instruction that is no jump does not lead anywhere else. -/
theorem Routine.closedIn_succ {r : Routine} {pc : Nat} {i : Instr} (hi : r.get? pc = some i)
    (hjump : i.op.isJump = false) : r.ClosedIn pc (pc + 1) := by
  intro pc' i' hlow hhigh hi' hjump'
  obtain rfl := Nat.le_antisymm hlow (Nat.le_of_lt_succ hhigh)
  cases hi.symm.trans hi'
  rw [hjump] at hjump'
  cases hjump'

/-! ## Passages -/

/-- An activation: its routine and the activations that called it. -/
structure Activation where
  /-- The routine. -/
  routine : Routine
  /-- The activations below it. -/
  callers : List Frame

namespace Activation

/-- The activation is the innermost one and has come to a place. -/
def At (a : Activation) (pc : Nat) (x : Execution) : Prop :=
  ∃ slots, x.frames = ⟨a.routine, slots, pc⟩ :: a.callers

/-- The activation is at an instruction between two places, or it is waiting for a call from
there. -/
inductive Within (a : Activation) (low high : Nat) (x : Execution) : Prop
  | here {pc : Nat} (h : a.At pc x) (hlow : low ≤ pc) (hhigh : pc < high)
  | calling {f : Frame} {fs : List Frame} {slots : Array Value} {pc : Nat}
      (h : x.frames = f :: fs ++ ⟨a.routine, slots, pc⟩ :: a.callers) (hlow : low < pc)
      (hhigh : pc ≤ high)

/-- The execution stays between two places of the activation until it comes to the second. -/
structure Leaves (a : Activation) (routines : List Routine) (low high : Nat) (x : Execution)
    (points : List Point) (y : Execution) : Prop where
  /-- It takes a step at each point. -/
  path : Execution.Path routines x points y
  /-- At each point it is between the places. -/
  within : ∀ p ∈ points, a.Within low high p.execution
  /-- It ends at the second one. -/
  ends : a.At high y

/-- The execution goes through the code between two places of the activation, from its first
instruction to right behind its last. -/
structure Passes (a : Activation) (routines : List Routine) (low high : Nat) (x : Execution)
    (points : List Point) (y : Execution) : Prop extends a.Leaves routines low high x points y where
  /-- It begins at the first instruction. -/
  starts : a.At low x

variable {a : Activation} {routines : List Routine} {low high low' high' mid pc pc' : Nat}
  {x y z : Execution} {points points' : List Point} {i : Instr} {s : Shared}

theorem At.unique (h : a.At pc x) (h' : a.At pc' x) : pc = pc' := by
  obtain ⟨slots, h⟩ := h
  obtain ⟨slots', h'⟩ := h'
  cases h.symm.trans h'
  rfl

theorem At.length_frames (h : a.At pc x) : x.frames.length = a.callers.length + 1 := by
  obtain ⟨slots, h⟩ := h
  rw [h, List.length_cons]

theorem At.instr?_eq (h : a.At pc x) : x.instr? = a.routine.get? pc := by
  obtain ⟨slots, h⟩ := h
  rw [Execution.instr?, h]

theorem At.passed (h : a.At pc x) : a.At (pc + 1) x.passed := by
  obtain ⟨thread, call, operands, frames⟩ := x
  obtain ⟨slots, h⟩ := h
  cases h
  exact ⟨slots, rfl⟩

theorem Within.lt_length (h : a.Within low high x) : a.callers.length < x.frames.length := by
  cases h with
  | here h _ _ => rw [h.length_frames]; exact Nat.lt_succ_self _
  | calling h _ _ =>
    rw [h, List.length_append, List.length_cons, List.length_cons]
    omega

theorem Within.mono (h : a.Within low high x) (hlow : low' ≤ low) (hhigh : high ≤ high') :
    a.Within low' high' x := by
  cases h with
  | here h hl hh => exact .here h (Nat.le_trans hlow hl) (Nat.lt_of_lt_of_le hh hhigh)
  | calling h hl hh => exact .calling h (Nat.lt_of_le_of_lt hlow hl) (Nat.le_trans hh hhigh)

/-- Where the activation is the innermost one, it is at one of the instructions. -/
theorem Within.lt_of_at (h : a.Within low high x) (hat : a.At pc x) : low ≤ pc ∧ pc < high := by
  cases h with
  | here h hl hh =>
    cases h.unique hat
    exact ⟨hl, hh⟩
  | calling h _ _ =>
    have hlength := hat.length_frames
    rw [h, List.length_append, List.length_cons, List.length_cons] at hlength
    omega

/-- **One step** of code that does not jump out of itself: the activation is still in the code, has
come to its end, or has ended. -/
theorem Within.next (h : a.Within low high x) (hclosed : a.routine.ClosedIn low high)
    (hnext : x.Next routines y) :
    a.Within low high y ∨ a.At high y ∨ y.frames = a.callers := by
  -- Wherever the activation goes on, it is in the code or at its end.
  have hgoes : ∀ {pc}, a.At pc y → low ≤ pc → pc ≤ high →
      a.Within low high y ∨ a.At high y ∨ y.frames = a.callers := by
    intro pc hat hlow hhigh
    rcases Nat.lt_or_eq_of_le hhigh with hlt | rfl
    · exact .inl (.here hat hlow hlt)
    · exact .inr (.inl hat)
  obtain ⟨f, fs, i, hframes, hi, hcases⟩ := hnext.frames_eq
  cases h with
  | here hat hlow hhigh =>
    obtain ⟨slots, hat⟩ := hat
    cases hframes.symm.trans hat
    rcases hcases with ⟨g, hy, hroutine, hpc⟩ | ⟨routine, -, -, hy⟩ | ⟨-, hy⟩
    · obtain ⟨routine, slots', pc'⟩ := g
      cases hroutine
      rcases hpc with ⟨-, rfl⟩ | ⟨hjump, harg⟩
      · exact hgoes ⟨slots', hy⟩ (Nat.le_succ_of_le hlow) hhigh
      · obtain ⟨target, harg', hlow', hhigh'⟩ := hclosed _ _ hlow hhigh hi hjump
        cases harg.symm.trans harg'
        exact hgoes ⟨slots', hy⟩ hlow' hhigh'
    · exact .inl (@Within.calling _ _ _ _ _ [] _ _ hy (Nat.lt_succ_of_le hlow) hhigh)
    · exact .inr (.inr hy)
  | calling hcalling hlow hhigh =>
    rw [List.cons_append] at hcalling
    cases hframes.symm.trans hcalling
    rcases hcases with ⟨g, hy, -⟩ | ⟨routine, -, -, hy⟩ | ⟨-, hy⟩
    · exact .inl (.calling hy hlow hhigh)
    · exact .inl (@Within.calling _ _ _ _ _ (_ :: _) _ _ hy hlow hhigh)
    · rename_i rest _ _
      cases rest with
      | nil => exact hgoes ⟨_, hy⟩ (Nat.le_of_lt hlow) hhigh
      | cons g rest => exact .inl (.calling hy hlow hhigh)

theorem Leaves.mono (h : a.Leaves routines low high x points y) (hlow : low' ≤ low) :
    a.Leaves routines low' high x points y :=
  ⟨h.path, fun p hp => (h.within p hp).mono hlow (Nat.le_refl _), h.ends⟩

/-- A path through some of the code in front of a path through all of it. -/
theorem Leaves.append (h : a.Leaves routines low' high' x points y)
    (h' : a.Leaves routines low high y points' z) (hlow : low ≤ low') (hhigh : high' ≤ high) :
    a.Leaves routines low high x (points ++ points') z where
  path := h.path.append h'.path
  within := List.forall_mem_append.mpr ⟨fun p hp => (h.within p hp).mono hlow hhigh, h'.within⟩
  ends := h'.ends

theorem leaves_nil (h : a.At high x) : a.Leaves routines low high x [] x :=
  ⟨.refl x, List.forall_mem_nil _, h⟩

/-- An activation at the end has nothing left to do. -/
theorem Leaves.eq_of_at (h : a.Leaves routines low high x points y) (hat : a.At high x) :
    points = [] ∧ x = y := by
  obtain ⟨hpath, hwithin, -⟩ := h
  cases hpath with
  | refl _ => exact ⟨rfl, rfl⟩
  | step _ _ _ =>
    have hlt := ((List.forall_mem_cons.mp hwithin).1.lt_of_at hat).2
    exact absurd hlt (Nat.lt_irrefl _)

/-- A step between the places. -/
theorem Leaves.step (hat : a.At pc x) (hlow : low ≤ pc) (hhigh : pc < high)
    (hs : s.routines = routines) (htakes : x.Takes s y)
    (h : a.Leaves routines low high y points z) :
    a.Leaves routines low high x (⟨s, x⟩ :: points) z where
  path := .step hs htakes h.path
  within := List.forall_mem_cons.mpr ⟨.here hat hlow hhigh, h.within⟩
  ends := h.ends

/-- An activation that has not come to the end takes a step. -/
theorem Leaves.exists_step (h : a.Leaves routines low high x points z) (hat : a.At pc x)
    (hne : pc ≠ high) : ∃ s y rest, points = ⟨s, x⟩ :: rest ∧ s.routines = routines ∧
      x.Takes s y ∧ a.Leaves routines low high y rest z := by
  obtain ⟨hpath, hwithin, hends⟩ := h
  cases hpath with
  | refl _ => exact absurd (hat.unique hends) hne
  | step hs htakes hrest =>
    exact ⟨_, _, _, rfl, hs, htakes, ⟨hrest, (List.forall_mem_cons.mp hwithin).2, hends⟩⟩

/-- The activation is still there. -/
theorem Leaves.lt_length (h : a.Leaves routines low high x points y) :
    a.callers.length < x.frames.length := by
  obtain ⟨hpath, hwithin, hends⟩ := h
  cases hpath with
  | refl _ => rw [hends.length_frames]; exact Nat.lt_succ_self _
  | step _ _ _ => exact (List.forall_mem_cons.mp hwithin).1.lt_length

/-- **Code that does not jump out of itself is left at its end**: a path through more code passes
there before it goes on. -/
theorem Leaves.split (h : a.Leaves routines low high x points y)
    (hclosed : a.routine.ClosedIn low' high') (hhigh : high' ≤ high)
    (hx : a.Within low' high' x ∨ a.At high' x) :
    ∃ front back z, points = front ++ back ∧ a.Leaves routines low' high' x front z ∧
      a.Leaves routines low high z back y := by
  obtain ⟨hpath, hwithin, hends⟩ := h
  induction hpath with
  | refl x =>
    rcases hx with hx | hx
    · have hlt := (hx.lt_of_at hends).2
      omega
    · exact ⟨[], [], x, rfl, leaves_nil hx, leaves_nil hends⟩
  | @step s x x' y points hs htakes hrest ih =>
    rw [List.forall_mem_cons] at hwithin
    have hleaves : a.Leaves routines low high x' points y := ⟨hrest, hwithin.2, hends⟩
    rcases hx with hx | hx
    · have hx' : a.Within low' high' x' ∨ a.At high' x' := by
        rcases hx.next hclosed (htakes.next hs) with hx' | hx' | hx'
        · exact .inl hx'
        · exact .inr hx'
        · have hlt := hleaves.lt_length
          rw [hx'] at hlt
          exact absurd hlt (Nat.lt_irrefl _)
      obtain ⟨front, back, z, rfl, hfront, hback⟩ := ih hx' hwithin.2 hends
      refine ⟨⟨s, x⟩ :: front, back, z, rfl, ⟨.step hs htakes hfront.path, ?_, hfront.ends⟩, hback⟩
      exact List.forall_mem_cons.mpr ⟨hx, hfront.within⟩
    · exact ⟨[], _, x, rfl, leaves_nil hx,
        ⟨.step hs htakes hrest, List.forall_mem_cons.mpr hwithin, hends⟩⟩

/-- A path through more code begins with a passage through the code that it is in front of. -/
theorem Leaves.exists_passes (h : a.Leaves routines low high x points y) (hat : a.At low' x)
    (hclosed : a.routine.ClosedIn low' high') (hle : low' ≤ high') (hhigh : high' ≤ high) :
    ∃ front back z, points = front ++ back ∧ a.Passes routines low' high' x front z ∧
      a.Leaves routines low high z back y := by
  have hx : a.Within low' high' x ∨ a.At high' x := by
    rcases Nat.lt_or_eq_of_le hle with hlt | rfl
    · exact .inl (.here hat (Nat.le_refl _) hlt)
    · exact .inr hat
  obtain ⟨front, back, z, hpoints, hfront, hback⟩ := h.split hclosed hhigh hx
  exact ⟨front, back, z, hpoints, ⟨hfront, hat⟩, hback⟩

/-! ## Slots -/

/-- The activation has a value in a slot, whether it is the innermost one or not. -/
def Keeps (a : Activation) (slot : Nat) (v : Value) (x : Execution) : Prop :=
  ∃ fs slots pc, x.frames = fs ++ ⟨a.routine, slots, pc⟩ :: a.callers ∧ slots[slot]? = some v

/-- The routine has no `STORE` to a slot between two places. -/
def SparesIn (a : Activation) (slot low high : Nat) : Prop :=
  ∀ pc i, low ≤ pc → pc < high → a.routine.get? pc = some i → i.op = .store →
    i.arg ≠ some (.slot slot)

section

variable {slot : Nat} {v : Value}

theorem sparesIn_of_notStores {code : List Instr} (h : NotStores slot code)
    (hcode : a.routine.Holds low code) (hhigh : high = low + code.length) :
    a.SparesIn slot low high := fun _ _ hlow hlt hi =>
  h _ (hcode.mem_of_get? hlow (hhigh ▸ hlt) hi)

theorem Keeps.of_at {slots : Array Value} (h : x.frames = ⟨a.routine, slots, pc⟩ :: a.callers)
    (hv : slots[slot]? = some v) : a.Keeps slot v x :=
  ⟨[], slots, pc, h, hv⟩

/-- What is in a slot is in it once. -/
theorem Keeps.unique {w : Value} (h : a.Keeps slot v x) (h' : a.Keeps slot w x) : v = w := by
  obtain ⟨fs, slots, pc, hframes, hv⟩ := h
  obtain ⟨fs', slots', pc', hframes', hw⟩ := h'
  have hlength : fs.length = fs'.length := by
    have := congrArg List.length (hframes.symm.trans hframes')
    simpa using this
  have heq := (List.append_inj (hframes.symm.trans hframes') hlength).2
  cases heq
  exact Option.some.inj (hv.symm.trans hw)

/-- **One step** of code that does not store to a slot leaves its value there. -/
theorem Keeps.next (h : a.Keeps slot v x) (hwithin : a.Within low high x)
    (hspares : a.SparesIn slot low high) (hnext : x.Next routines y)
    (hlt : a.callers.length < y.frames.length) : a.Keeps slot v y := by
  obtain ⟨i, hi, hdoes⟩ := hnext.does
  obtain ⟨thread, call, operands, frames⟩ := x
  obtain ⟨fs, slots, pc, rfl, hv⟩ := h
  cases fs with
  | nil =>
    have hplace := hwithin.lt_of_at ⟨slots, rfl⟩
    generalize hz : Execution.passed _ = z at hdoes
    simp only [List.nil_append, Execution.passed] at hz
    cases hdoes with
    | work _ _ _ | stay _ _ | load _ _ _ | jump _ _ | branch _ _ =>
      cases hz
      exact .of_at rfl hv
    | store hop harg =>
      cases hz
      refine .of_at rfl (getElem?_storeSlot_of_ne hv fun heq => ?_)
      exact hspares pc i hplace.1 hplace.2 hi hop (heq ▸ harg)
    | @enter _ _ _ routine _ _ _ _ _ =>
      cases hz
      exact ⟨[{ routine }], slots, pc + 1, rfl, hv⟩
    | leave _ =>
      cases hz
      exact absurd hlt (Nat.lt_irrefl _)
  | cons f fs =>
    generalize hz : Execution.passed _ = z at hdoes
    simp only [List.cons_append, Execution.passed] at hz
    cases hdoes with
    | work _ _ _ | stay _ _ | load _ _ _ | jump _ _ | branch _ _ | store _ _ =>
      cases hz
      exact ⟨_ :: fs, slots, pc, rfl, hv⟩
    | enter _ _ _ =>
      cases hz
      exact ⟨_ :: _ :: fs, slots, pc, rfl, hv⟩
    | leave _ =>
      cases hz
      exact ⟨fs, slots, pc, rfl, hv⟩

/-- A passage through code that does not store to a slot leaves its value there all the time. -/
theorem Leaves.keeps (h : a.Leaves routines low high x points y)
    (hspares : a.SparesIn slot low high) (hx : a.Keeps slot v x) :
    (∀ p ∈ points, a.Keeps slot v p.execution) ∧ a.Keeps slot v y := by
  obtain ⟨hpath, hwithin, hends⟩ := h
  induction hpath with
  | refl x => exact ⟨List.forall_mem_nil _, hx⟩
  | @step s x x' y points hs htakes hrest ih =>
    rw [List.forall_mem_cons] at hwithin
    have hleaves : a.Leaves routines low high x' points y := ⟨hrest, hwithin.2, hends⟩
    have hx' := hx.next hwithin.1 hspares (htakes.next hs) hleaves.lt_length
    obtain ⟨hpoints, hy⟩ := ih hx' hwithin.2 hends
    exact ⟨List.forall_mem_cons.mpr ⟨hx, hpoints⟩, hy⟩

end

/-! ## Jumps -/

/-- The activation goes on at the target of a jump at a place. -/
inductive Jumps (a : Activation) (routines : List Routine) (pc target : Nat) :
    Execution → Point → Execution → Prop
  | intro {s : Shared} {thread : Option ThreadId} {call : Nat} {operands : List Value}
      {slots : Array Value} (hs : s.routines = routines) (hrun : s.isHalted = false) :
      Jumps a routines pc target ⟨thread, call, operands, ⟨a.routine, slots, pc⟩ :: a.callers⟩
        ⟨s, ⟨thread, call, operands, ⟨a.routine, slots, pc⟩ :: a.callers⟩⟩
        ⟨thread, call, operands, ⟨a.routine, slots, target⟩ :: a.callers⟩

/-- The activation takes a truth value off at a place; if it is false, it goes on at the target, and
behind the place if it is true. -/
inductive Decides (a : Activation) (routines : List Routine) (pc target : Nat) :
    Bool → Execution → Point → Execution → Prop
  | intro {s : Shared} {thread : Option ThreadId} {call : Nat} {operands : List Value}
      {slots : Array Value} (b : Bool) (hs : s.routines = routines) (hrun : s.isHalted = false) :
      Decides a routines pc target b
        ⟨thread, call, .bool b :: operands, ⟨a.routine, slots, pc⟩ :: a.callers⟩
        ⟨s, ⟨thread, call, .bool b :: operands, ⟨a.routine, slots, pc⟩ :: a.callers⟩⟩
        ⟨thread, call, operands, ⟨a.routine, slots, if b then pc + 1 else target⟩ :: a.callers⟩

variable {target : Nat} {p : Point} {b : Bool}

theorem Jumps.starts (h : a.Jumps routines pc target x p y) : a.At pc x := by
  cases h
  exact ⟨_, rfl⟩

theorem Jumps.ends (h : a.Jumps routines pc target x p y) : a.At target y := by
  cases h
  exact ⟨_, rfl⟩

theorem Decides.starts (h : a.Decides routines pc target b x p y) : a.At pc x := by
  cases h
  exact ⟨_, rfl⟩

theorem Decides.ends (h : a.Decides routines pc target b x p y) :
    a.At (if b then pc + 1 else target) y := by
  cases h
  exact ⟨_, rfl⟩

theorem exists_jumps (hat : a.At pc x) (hs : s.routines = routines) (hrun : s.isHalted = false) :
    ∃ y, a.Jumps routines pc target x ⟨s, x⟩ y := by
  obtain ⟨thread, call, operands, frames⟩ := x
  obtain ⟨slots, rfl⟩ := hat
  exact ⟨_, .intro hs hrun⟩

theorem exists_decides {operands : List Value} (hat : a.At pc x)
    (hoperands : x.operands = .bool b :: operands) (hs : s.routines = routines)
    (hrun : s.isHalted = false) : ∃ y, a.Decides routines pc target b x ⟨s, x⟩ y := by
  obtain ⟨thread, call, operands', frames⟩ := x
  obtain ⟨slots, rfl⟩ := hat
  obtain rfl : operands' = .bool b :: operands := hoperands
  exact ⟨_, .intro b hs hrun⟩

/-- A step at a `JMP`. -/
theorem takes_jmp_iff (hi : a.routine.get? pc = some (.jmp target)) (hat : a.At pc x)
    (hs : s.routines = routines) :
    x.Takes s y ↔ a.Jumps routines pc target x ⟨s, x⟩ y := by
  have hinstr := hat.instr?_eq.trans hi
  obtain ⟨thread, call, operands, frames⟩ := x
  obtain ⟨slots, rfl⟩ := hat
  rw [Execution.takes_iff hinstr rfl]
  constructor
  · rintro ⟨hrun, rfl⟩
    exact .intro hs hrun
  · rintro ⟨-, hrun⟩
    exact ⟨hrun, rfl⟩

/-- A step at a `JMPF`. -/
theorem takes_jmpf_iff (hi : a.routine.get? pc = some (.jmpf target)) (hat : a.At pc x)
    (hs : s.routines = routines) :
    x.Takes s y ↔ ∃ b, a.Decides routines pc target b x ⟨s, x⟩ y := by
  have hinstr := hat.instr?_eq.trans hi
  obtain ⟨thread, call, operands, frames⟩ := x
  obtain ⟨slots, rfl⟩ := hat
  constructor
  · intro h
    have hrun := h.isHalted_eq
    obtain ⟨i, hi', hdoes⟩ := (h.next hs).does
    cases hinstr.symm.trans hi'
    cases hdoes with
    | stay _ _ => exact ⟨true, .intro true hs hrun⟩
    | branch _ harg =>
      cases harg
      exact ⟨false, .intro false hs hrun⟩
    | work hop _ _ => cases hop
    | load hop _ _ | store hop _ | jump hop _ | enter hop _ _ | leave hop => cases hop
  · rintro ⟨b, hb⟩
    cases hb with
    | intro b _ hrun =>
      refine (Execution.takes_iff hinstr ?_).mpr ⟨hrun, rfl⟩
      cases b <;> rfl

/-- At a `JMP` every step leads to its target. -/
theorem leaves_jmp_iff (hi : a.routine.get? pc = some (.jmp target)) (hat : a.At pc x)
    (hlow : low ≤ pc) (hhigh : pc < high) :
    a.Leaves routines low high x points z ↔ ∃ p y rest, points = p :: rest ∧
      a.Jumps routines pc target x p y ∧ a.Leaves routines low high y rest z := by
  constructor
  · intro h
    obtain ⟨s, y, rest, rfl, hs, hy, hrest⟩ := h.exists_step hat (Nat.ne_of_lt hhigh)
    exact ⟨_, y, rest, rfl, (takes_jmp_iff hi hat hs).mp hy, hrest⟩
  · rintro ⟨p, y, rest, rfl, hjumps, hrest⟩
    cases hjumps with
    | intro hs hrun =>
      exact hrest.step hat hlow hhigh hs ((takes_jmp_iff hi hat hs).mpr (.intro hs hrun))

/-- At a `JMPF` there is a truth value, and it decides where every step leads. -/
theorem leaves_jmpf_iff (hi : a.routine.get? pc = some (.jmpf target)) (hat : a.At pc x)
    (hlow : low ≤ pc) (hhigh : pc < high) :
    a.Leaves routines low high x points z ↔ ∃ b p y rest, points = p :: rest ∧
      a.Decides routines pc target b x p y ∧ a.Leaves routines low high y rest z := by
  constructor
  · intro h
    obtain ⟨s, y, rest, rfl, hs, hy, hrest⟩ := h.exists_step hat (Nat.ne_of_lt hhigh)
    obtain ⟨b, hb⟩ := (takes_jmpf_iff hi hat hs).mp hy
    exact ⟨b, _, y, rest, rfl, hb, hrest⟩
  · rintro ⟨b, p, y, rest, rfl, hdecides, hrest⟩
    cases hdecides with
    | intro b hs hrun =>
      exact hrest.step hat hlow hhigh hs ((takes_jmpf_iff hi hat hs).mpr ⟨b, .intro b hs hrun⟩)

end Activation
end Opstack
