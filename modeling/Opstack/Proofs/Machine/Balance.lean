import Opstack.Proofs.Lowering.Levels
import Opstack.Proofs.Machine.Loading
import Opstack.Proofs.Machine.Run

/-!
# Calls and returns are balanced

All activations of an execution share one operand stack, and nothing trims it when a routine
returns.  In a program whose calls pass the right number of arguments it is nevertheless divided
into layers: each activation owns as many operands as its own code accounts for, and an activation
that waits for a call misses just the result (`Layered`).  What lay below the arguments of an
activation stays where it is until the activation returns, and then the result lies on top of it.

`Program.Stands` is this invariant above a given base, `Program.Stands.next` says that each step
preserves it or returns to the base, and `Program.calls_balanced` is what follows.
-/

set_option autoImplicit false

namespace Opstack

/-! ## Heights in a routine -/

theorem mem_pauses {code : List Instr} {start index place : Nat} {i : Instr}
    (hi : code[index]? = some i) (h : place ∈ i.pauses (start + index)) :
    place ∈ pauses start code := by
  induction code generalizing start index with
  | nil => cases hi
  | cons j rest ih =>
    rw [pauses, List.mem_append]
    cases index with
    | zero =>
      cases hi
      exact .inl h
    | succ index =>
      refine .inr (ih hi ?_)
      rwa [Nat.add_assoc, Nat.add_comm 1]

namespace Levels

variable {arity : String → Option Nat} {height index n : Nat} {code : List Instr}
  {marks : List Nat} {i : Instr}

/-- An instruction finds the operands that it takes. -/
theorem succ (h : Levels arity height code marks) (hi : code[index]? = some i)
    (hn : climb arity height (code.take index) = some n) :
    ∃ m, i.takes arity = some m ∧ m ≤ n ∧
      climb arity height (code.take (index + 1)) = some (n - m + i.leaves) := by
  obtain ⟨last, hlast⟩ := h.climbs
  have htake : climb arity height (code.take (index + 1)) = i.climb arity n := by
    rw [List.take_add_one, hi, climb_append, hn]
    change (i.climb arity n).bind some = _
    cases i.climb arity n <;> rfl
  rw [← List.take_append_drop (index + 1) code, climb_append, htake] at hlast
  rw [htake]
  rw [Instr.climb] at hlast ⊢
  cases htakes : i.takes arity with
  | none =>
    rw [htakes] at hlast
    cases hlast
  | some m =>
    rw [htakes] at hlast
    by_cases hm : m ≤ n
    · exact ⟨m, rfl, hm, if_pos hm⟩
    · dsimp only at hlast
      rw [if_neg hm] at hlast
      cases hlast

/-- The code is at rest behind an instruction that may lead elsewhere. -/
theorem diverts (h : Levels arity height code marks) (hi : code[index]? = some i)
    (hdiverts : i.op.diverts = true) :
    climb arity height (code.take (index + 1)) = some 0 := by
  refine h.pauses _ (mem_pauses hi ?_)
  rw [Instr.pauses, if_pos hdiverts, Nat.zero_add]
  exact List.mem_append_right _ List.mem_cons_self

/-- The code is at rest where a jump leads. -/
theorem target (h : Levels arity height code marks) (hi : code[index]? = some i)
    (hjump : i.op.isJump = true) {target : Nat} (harg : i.arg = some (.target target)) :
    climb arity height (code.take target) = some 0 := by
  refine h.pauses _ (mem_pauses hi ?_)
  rw [Instr.pauses, Instr.target?, harg]
  dsimp only
  rw [if_pos hjump]
  exact List.mem_append_left _ List.mem_cons_self

end Levels

theorem Instr.takes_of_isPlain {i : Instr} (h : i.op.isPlain = true)
    (arity : String → Option Nat) : i.takes arity = some i.op.pops ∧ i.leaves = i.op.pushes := by
  rw [takes, leaves]
  cases hop : i.op <;> simp_all [Opcode.isPlain]

/-- An instruction takes at least the operands that it pops. -/
theorem Instr.pops_le_takes {i : Instr} {arity : String → Option Nat} {n : Nat}
    (h : i.takes arity = some n) : i.op.pops ≤ n := by
  rw [takes] at h
  cases hop : i.op
  case call => exact Nat.zero_le _
  case ret => exact Nat.zero_le _
  all_goals
    simp only [hop, Option.some.injEq] at h
    exact Nat.le_of_eq h

/-- A first part that is long enough has the other first part in front. -/
theorem exists_append_of_le {α : Type} {a b c d : List α} (h : a ++ b = c ++ d)
    (hle : c.length ≤ a.length) : ∃ e, a = c ++ e ∧ d = e ++ b := by
  rcases List.append_eq_append_iff.mp h with ⟨e, rfl, rfl⟩ | ⟨e, rfl, rfl⟩
  · have he : e = [] := by
      rw [List.length_append] at hle
      exact List.eq_nil_of_length_eq_zero (by omega)
    subst he
    exact ⟨[], by simp, by simp⟩
  · exact ⟨e, rfl, rfl⟩

/-! ## Layers -/

/-- How many operands of its own an activation has. -/
def Frame.height (arity : String → Option Nat) (f : Frame) : Option Nat :=
  (arity f.routine.name).bind fun n => climb arity n (f.routine.code.toList.take f.pc)

/-- An activation begins with its arguments. -/
theorem Frame.height_start {arity : String → Option Nat} {r : Routine} {n : Nat}
    (h : arity r.name = some n) : ({ routine := r } : Frame).height arity = some n := by
  rw [height, h]
  rfl

/-- The operands are those of activations, each with as many as its code accounts for, except that
some of those of the innermost are missing, and of each other one the result that it waits
for. -/
def Layered (arity : String → Option Nat) : Nat → List Value → List Frame → Prop
  | _, operands, [] => operands = []
  | missing, operands, f :: fs => ∃ own rest, operands = own ++ rest ∧
      f.height arity = some (own.length + missing) ∧ Layered arity 1 rest fs

/-- The routine of the outermost of some activations. -/
def outermost (frames : List Frame) : Option Routine := frames.getLast?.map Frame.routine

theorem outermost_cons_cons (f g : Frame) (fs : List Frame) :
    outermost (f :: g :: fs) = outermost (g :: fs) := by
  rw [outermost, List.getLast?_cons_cons, outermost]

theorem outermost_update (f : Frame) (fs : List Frame) (slots : Array Value) (pc : Nat) :
    outermost ({ f with slots, pc } :: fs) = outermost (f :: fs) := by
  cases fs with
  | nil => rfl
  | cons g fs => rw [outermost_cons_cons, outermost_cons_cons]

namespace Program

variable {p : Program}

/-- The activation is of a function of the program. -/
def Runs (p : Program) (f : Frame) : Prop :=
  ∃ g ∈ p.functions, g.lower (p.table []) = .ok f.routine

theorem calleeArity?_name (hp : p.Distinct) {f : Function} (hf : f ∈ p.functions) :
    p.calleeArity? f.name = some f.params.length := by
  rw [calleeArity?, hp.function?_name hf]
  rfl

/-- The code of an activation of the program accounts for its operands. -/
theorem Runs.levels (hp : p.WellCalled) {f : Frame} (h : p.Runs f) :
    ∃ g ∈ p.functions, g.name = f.routine.name ∧
      Levels p.calleeArity? g.params.length f.routine.code.toList (g.marks (p.table [])) ∧
      ∀ slots pc, Frame.height p.calleeArity? { f with slots, pc } =
        climb p.calleeArity? g.params.length (f.routine.code.toList.take pc) := by
  obtain ⟨g, hg, hlower⟩ := h
  obtain ⟨code, hcode, hroutine, -⟩ := Function.lower_eq_ok hlower
  have hobeys := List.all_eq_true.mp hp.calls g hg
  have hname : f.routine.name = g.name := by rw [hroutine]
  refine ⟨g, hg, hname.symm, ?_, fun slots pc => ?_⟩
  · rw [hroutine]
    exact Function.levels hcode hobeys callRules_counts
  · rw [Frame.height, hname, calleeArity?_name hp.toDistinct hg]
    rfl

section

variable {f : Frame} {i : Instr} {n : Nat}

/-- The next instruction of an activation finds the operands that it takes. -/
theorem Runs.succ (hp : p.WellCalled) (h : p.Runs f) (hi : f.routine.get? f.pc = some i)
    (hn : f.height p.calleeArity? = some n) :
    ∃ m, i.takes p.calleeArity? = some m ∧ m ≤ n ∧ ∀ slots,
      Frame.height p.calleeArity? { f with slots, pc := f.pc + 1 } = some (n - m + i.leaves) := by
  obtain ⟨g, -, -, hlevels, hheight⟩ := h.levels hp
  have hcode : f.routine.code.toList[f.pc]? = some i := Array.getElem?_toList.trans hi
  obtain ⟨m, htakes, hm, hsucc⟩ := hlevels.succ hcode ((hheight f.slots f.pc).symm.trans hn)
  exact ⟨m, htakes, hm, fun slots => (hheight slots _).trans hsucc⟩

/-- Behind an instruction that may lead elsewhere an activation has no operands. -/
theorem Runs.diverts (hp : p.WellCalled) (h : p.Runs f) (hi : f.routine.get? f.pc = some i)
    (hdiverts : i.op.diverts = true) (slots : Array Value) :
    Frame.height p.calleeArity? { f with slots, pc := f.pc + 1 } = some 0 := by
  obtain ⟨g, -, -, hlevels, hheight⟩ := h.levels hp
  have hcode : f.routine.code.toList[f.pc]? = some i := Array.getElem?_toList.trans hi
  exact (hheight slots _).trans (hlevels.diverts hcode hdiverts)

/-- Where a jump leads an activation has no operands. -/
theorem Runs.target (hp : p.WellCalled) (h : p.Runs f) (hi : f.routine.get? f.pc = some i)
    (hjump : i.op.isJump = true) {target : Nat} (harg : i.arg = some (.target target))
    (slots : Array Value) :
    Frame.height p.calleeArity? { f with slots, pc := target } = some 0 := by
  obtain ⟨g, -, -, hlevels, hheight⟩ := h.levels hp
  have hcode : f.routine.code.toList[f.pc]? = some i := Array.getElem?_toList.trans hi
  exact (hheight slots _).trans (hlevels.target hcode hjump harg)

end

/-- The execution has the given activations, which are of functions of the program, above others,
and the given operands, as many as their codes account for, above those of the others. -/
structure Stands (p : Program) (base : List Value) (fs : List Frame) (held : List Value)
    (own : List Frame) (x : Execution) : Prop where
  /-- The activations come first. -/
  frames : x.frames = own ++ fs
  /-- The operands come first. -/
  operands : x.operands = held ++ base
  /-- The activations are of functions of the program. -/
  runs : ∀ f ∈ own, p.Runs f
  /-- Each has as many operands as its code accounts for. -/
  layered : Layered p.calleeArity? 0 held own

variable {base : List Value} {fs own : List Frame} {held : List Value} {x y : Execution}
  {routines : List Routine}

/-- The execution stands above the base again when its innermost activation has operands for its
height. -/
theorem stands_of_height {f : Frame} {gs : List Frame} {rest : List Value} {slots : Array Value}
    {pc : Nat} (kept : List Value) (hruns : ∀ g ∈ f :: gs, p.Runs g)
    (hrest : Layered p.calleeArity? 1 rest gs)
    (hheight : Frame.height p.calleeArity? { f with slots, pc } = some kept.length)
    (thread : Option ThreadId) (call : Nat) (base : List Value) (fs : List Frame) :
    ∃ held own, own ≠ [] ∧ outermost own = outermost (f :: gs) ∧ p.Stands base fs held own
      ⟨thread, call, kept ++ (rest ++ base), { f with slots, pc } :: (gs ++ fs)⟩ := by
  obtain ⟨hf, hgs⟩ := List.forall_mem_cons.mp hruns
  exact ⟨kept ++ rest, { f with slots, pc } :: gs, List.cons_ne_nil _ _,
    outermost_update f gs slots pc, rfl, (List.append_assoc _ _ _).symm,
    List.forall_mem_cons.mpr ⟨hf, hgs⟩, kept, rest, rfl, hheight, hrest⟩

/-- The execution stands above the base with one activation more after a call, which takes the
arguments from the caller. -/
theorem stands_of_call (hp : p.WellCalled) {f : Frame} {gs : List Frame} {kept rest : List Value}
    {callee : Function} {r : Routine} (hcallee : callee ∈ p.functions)
    (hlower : callee.lower (p.table []) = .ok r) (hruns : ∀ g ∈ f :: gs, p.Runs g)
    (hrest : Layered p.calleeArity? 1 rest gs) (hargs : callee.params.length ≤ kept.length)
    (hheight : Frame.height p.calleeArity? { f with pc := f.pc + 1 } =
      some (kept.length - callee.params.length + 1))
    (thread : Option ThreadId) (call : Nat) (base : List Value) (fs : List Frame) :
    ∃ held own, own ≠ [] ∧ outermost own = outermost (f :: gs) ∧ p.Stands base fs held own
      ⟨thread, call, kept ++ (rest ++ base),
        { routine := r } :: { f with pc := f.pc + 1 } :: (gs ++ fs)⟩ := by
  obtain ⟨code, -, hroutine, -⟩ := Function.lower_eq_ok hlower
  refine ⟨kept ++ rest, { routine := r } :: { f with pc := f.pc + 1 } :: gs,
    List.cons_ne_nil _ _, (outermost_cons_cons _ _ _).trans (outermost_update f gs _ _), rfl,
    (List.append_assoc _ _ _).symm, ?_, kept.take callee.params.length,
    kept.drop callee.params.length ++ rest, ?_, ?_, kept.drop callee.params.length, rest, rfl, ?_,
    hrest⟩
  · obtain ⟨hf, hgs⟩ := List.forall_mem_cons.mp hruns
    exact List.forall_mem_cons.mpr
      ⟨⟨callee, hcallee, hlower⟩, List.forall_mem_cons.mpr ⟨hf, hgs⟩⟩
  · rw [← List.append_assoc, List.take_append_drop]
  · rw [List.length_take, Nat.min_eq_left hargs]
    exact Frame.height_start (hroutine ▸ calleeArity?_name hp.toDistinct hcallee)
  · rw [hheight, List.length_drop]

/-- An activation returns to its caller with its one operand, or it was the last one. -/
theorem stands_of_return {f : Frame} {gs : List Frame} {rest : List Value}
    (hruns : ∀ g ∈ f :: gs, p.Runs g) (hrest : Layered p.calleeArity? 1 rest gs) (v : Value)
    (thread : Option ThreadId) (call : Nat) (base : List Value) (fs : List Frame) :
    (∃ held own, own ≠ [] ∧ outermost own = outermost (f :: gs) ∧ p.Stands base fs held own
      ⟨thread, call, v :: (rest ++ base), gs ++ fs⟩) ∨ gs = [] ∧ rest = [] := by
  cases gs with
  | nil => exact .inr ⟨rfl, hrest⟩
  | cons g gs =>
    obtain ⟨own, rest, rfl, hheight, hrest⟩ := hrest
    exact .inl ⟨v :: (own ++ rest), g :: gs, List.cons_ne_nil _ _,
      (outermost_cons_cons _ _ _).symm, rfl, rfl, (List.forall_mem_cons.mp hruns).2, v :: own, rest,
      rfl, hheight, hrest⟩

/-- **One step** of the innermost activation of the program: it stays above the base, or it was
the last one and has returned, and then its result lies on top of the base. -/
theorem Stands.next (hp : p.WellCalled) (hl : p.LoadedIn routines) {f : Frame} {gs : List Frame}
    (h : p.Stands base fs held (f :: gs) x) (hnext : x.Next routines y) :
    (∃ held own, own ≠ [] ∧ outermost own = outermost (f :: gs) ∧ p.Stands base fs held own y) ∨
      gs = [] ∧ ∃ v, y.operands = v :: base ∧ y.frames = fs := by
  obtain ⟨thread, call, operands, frames⟩ := x
  obtain ⟨hframes, hoperands, hruns, own, rest, rfl, hheight, hrest⟩ := h
  cases hframes
  cases hoperands
  obtain ⟨i, hi, hdoes⟩ := hnext.does
  have hf := (List.forall_mem_cons.mp hruns).1
  obtain ⟨m, htakes, hm, hsucc⟩ := hf.succ hp hi hheight
  generalize hz : Execution.passed ⟨thread, call, own ++ rest ++ base, f :: (gs ++ fs)⟩ = z
    at hdoes
  rw [List.append_assoc] at hz
  cases hdoes with
  | @work _ _ taken made below _ hop htaken hmade =>
    obtain ⟨hpops, hpushes⟩ := i.takes_of_isPlain hop p.calleeArity?
    rw [hpops] at htakes
    cases htakes
    simp only [Execution.passed, Execution.mk.injEq] at hz
    obtain ⟨rfl, rfl, hz, rfl⟩ := hz
    obtain ⟨own, rfl, rfl⟩ := exists_append_of_le hz (htaken ▸ hm)
    refine .inl ?_
    rw [← List.append_assoc]
    refine stands_of_height (made ++ own) hruns hrest ?_ thread call base fs
    rw [hsucc, hpushes, List.length_append, List.length_append]
    exact congrArg some (by omega)
  | @load _ _ _ v _ _ _ hop harg hv =>
    simp only [Instr.takes, Instr.leaves, hop, Option.some.injEq] at htakes hsucc
    cases htakes
    simp only [Execution.passed, Execution.mk.injEq, List.cons.injEq] at hz
    obtain ⟨rfl, rfl, rfl, rfl, rfl⟩ := hz
    exact .inl (stands_of_height (v :: own) hruns hrest (hsucc _) thread call base fs)
  | store hop harg =>
    simp only [Instr.takes, Instr.leaves, hop, Option.some.injEq] at htakes hsucc
    cases htakes
    simp only [Execution.passed, Execution.mk.injEq, List.cons.injEq] at hz
    obtain ⟨rfl, rfl, hz, rfl, rfl⟩ := hz
    obtain ⟨own, rfl, rfl⟩ := exists_append_of_le (c := [_]) hz hm
    exact .inl (stands_of_height own hruns hrest (hsucc _) thread call base fs)
  | jump hop harg =>
    have hrests := hf.diverts hp hi (by rw [hop]; rfl) f.slots
    have htarget := hf.target hp hi (by rw [hop]; rfl) harg f.slots
    simp only [Instr.takes, Instr.leaves, hop, Option.some.injEq] at htakes hsucc
    cases htakes
    rw [hsucc, Option.some.injEq] at hrests
    have hown : own = [] := List.eq_nil_of_length_eq_zero hrests
    subst hown
    simp only [Execution.passed, Execution.mk.injEq, List.cons.injEq] at hz
    obtain ⟨rfl, rfl, rfl, rfl, rfl⟩ := hz
    exact .inl (stands_of_height [] hruns hrest htarget thread call base fs)
  | stay hop harg =>
    simp only [Instr.takes, Instr.leaves, hop, Option.some.injEq] at htakes hsucc
    cases htakes
    simp only [Execution.passed, Execution.mk.injEq] at hz
    obtain ⟨rfl, rfl, hz, rfl⟩ := hz
    obtain ⟨own, rfl, rfl⟩ := exists_append_of_le (c := [_]) hz hm
    exact .inl (stands_of_height own hruns hrest (hsucc _) thread call base fs)
  | branch hop harg =>
    have hrests := hf.diverts hp hi (by rw [hop]; rfl) f.slots
    have htarget := hf.target hp hi (by rw [hop]; rfl) harg f.slots
    simp only [Instr.takes, Instr.leaves, hop, Option.some.injEq] at htakes hsucc
    cases htakes
    simp only [Execution.passed, Execution.mk.injEq, List.cons.injEq] at hz
    obtain ⟨rfl, rfl, hz, rfl, rfl⟩ := hz
    obtain ⟨own, rfl, rfl⟩ := exists_append_of_le (c := [_]) hz hm
    rw [hsucc, Option.some.injEq] at hrests
    have hown : own = [] := List.eq_nil_of_length_eq_zero hrests
    subst hown
    exact .inl (stands_of_height [] hruns hrest htarget thread call base fs)
  | @enter _ _ name routine _ _ hop harg hfind =>
    simp only [Instr.takes, Instr.leaves, hop, harg] at htakes hsucc
    simp only [Execution.passed, Execution.mk.injEq] at hz
    obtain ⟨rfl, rfl, rfl, rfl⟩ := hz
    obtain ⟨callee, hcallee, rfl⟩ := Option.map_eq_some_iff.mp htakes
    obtain ⟨hmem, rfl⟩ := mem_of_function? hcallee
    obtain ⟨r, hlower, hr⟩ := hl callee hmem
    rw [hfind, Option.some.injEq] at hr
    subst hr
    exact .inl (stands_of_call hp hmem hlower hruns hrest hm (hsucc _) thread call base fs)
  | leave hop =>
    have hrests := hf.diverts hp hi (by rw [hop]; rfl) f.slots
    simp only [Instr.takes, Instr.leaves, hop, Option.some.injEq] at htakes hsucc
    cases htakes
    rw [hsucc, Option.some.injEq] at hrests
    obtain ⟨v, rfl⟩ : ∃ v, own = [v] :=
      List.length_eq_one_iff.mp (by simp only [Opcode.pushes] at hrests; omega)
    simp only [Execution.passed, Execution.mk.injEq] at hz
    obtain ⟨rfl, rfl, rfl, rfl⟩ := hz
    rcases stands_of_return hruns hrest v thread call base fs with hstands | ⟨rfl, rfl⟩
    · exact .inl hstands
    · exact .inr ⟨rfl, v, rfl, rfl⟩

/-- No operand is missing. -/
theorem Stands.pops_le (hp : p.WellCalled) {f : Frame} {gs : List Frame}
    (h : p.Stands base fs held (f :: gs) x) {i : Instr} (hi : x.instr? = some i) :
    i.op.pops ≤ x.operands.length := by
  obtain ⟨thread, call, operands, frames⟩ := x
  obtain ⟨hframes, hoperands, hruns, own, rest, rfl, hheight, -⟩ := h
  cases hframes
  cases hoperands
  obtain ⟨m, htakes, hm, -⟩ := (List.forall_mem_cons.mp hruns).1.succ hp hi hheight
  have hpops := Instr.pops_le_takes htakes
  change i.op.pops ≤ (own ++ rest ++ base).length
  rw [List.length_append, List.length_append]
  omega

/-- A call is of a function of the program, and its arguments are there. -/
theorem Stands.call (hp : p.WellCalled) {f : Frame} {gs : List Frame}
    (h : p.Stands base fs held (f :: gs) x) {i : Instr} (hi : x.instr? = some i)
    (hop : i.op = .call) : ∃ g ∈ p.functions, i.arg = some (.name g.name) ∧
      g.params.length ≤ x.operands.length := by
  obtain ⟨thread, call, operands, frames⟩ := x
  obtain ⟨hframes, hoperands, hruns, own, rest, rfl, hheight, -⟩ := h
  cases hframes
  cases hoperands
  obtain ⟨m, htakes, hm, -⟩ := (List.forall_mem_cons.mp hruns).1.succ hp hi hheight
  rw [Instr.takes] at htakes
  split at htakes
  · rename_i harg
    obtain ⟨callee, hcallee, rfl⟩ := Option.map_eq_some_iff.mp htakes
    obtain ⟨hmem, rfl⟩ := mem_of_function? hcallee
    refine ⟨callee, hmem, harg, ?_⟩
    change callee.params.length ≤ (own ++ rest ++ base).length
    rw [List.length_append, List.length_append]
    omega
  · cases htakes
  · rename_i hret
    rw [hop] at hret
    cases hret
  · rename_i hcall _ _
    exact absurd hop hcall

/-- The operands of the only activation of the program at the beginning or end of a statement. -/
theorem Stands.held_eq_nil (hp : p.WellCalled) {f : Frame} (h : p.Stands base fs held [f] x)
    {g : Function} (hg : g ∈ p.functions) (hname : g.name = f.routine.name)
    (hmark : f.pc ∈ g.marks (p.table [])) : held = [] := by
  obtain ⟨-, -, hruns, own, rest, rfl, hheight, hrest⟩ := h
  obtain ⟨g', hg', hname', hlevels, hclimb⟩ := (List.forall_mem_singleton.mp hruns).levels hp
  cases hp.eq_of_name hg hg' (hname.trans hname'.symm)
  have hzero := (hlevels.marks _ hmark).symm.trans ((hclimb f.slots f.pc).symm.trans hheight)
  rw [Option.some.injEq] at hzero
  cases hrest
  rw [List.append_nil]
  exact List.eq_nil_of_length_eq_zero (by omega)

/-! ## Whole executions -/

/-- An execution that has just entered a function stands above what lies below its arguments. -/
theorem stands_of_entered (hp : p.WellCalled) {f : Function} (hf : f ∈ p.functions) {r : Routine}
    (hr : f.lower (p.table []) = .ok r) (hframes : x.frames = { routine := r } :: fs)
    (hargs : f.params.length ≤ x.operands.length) :
    p.Stands (x.operands.drop f.params.length) fs (x.operands.take f.params.length)
      [{ routine := r }] x := by
  obtain ⟨code, -, hroutine, -⟩ := Function.lower_eq_ok hr
  refine ⟨hframes, (List.take_append_drop _ _).symm, List.forall_mem_singleton.mpr ⟨f, hf, hr⟩,
    x.operands.take f.params.length, [], (List.append_nil _).symm, ?_, rfl⟩
  rw [List.length_take, Nat.min_eq_left hargs]
  exact Frame.height_start (hroutine ▸ calleeArity?_name hp.toDistinct hf)

/-- As long as an activation has not returned, the execution stands above what lay below its
arguments. -/
theorem stands_of_above (hp : p.WellCalled) (hl : p.LoadedIn routines) {own : List Frame}
    (h : p.Stands base fs held own x) (hown : own ≠ []) {depth : Nat} (hdepth : fs.length < depth)
    (hxy : x.Above routines depth y) :
    ∃ held own', own' ≠ [] ∧ outermost own' = outermost own ∧ p.Stands base fs held own' y := by
  induction hxy with
  | refl _ => exact ⟨held, own, hown, rfl, h⟩
  | next _ hnext hz ih =>
    obtain ⟨held, own', hown', hlast, hy⟩ := ih
    cases own' with
    | nil => exact absurd rfl hown'
    | cons f gs =>
      rcases hy.next hp hl hnext with ⟨held, own', hown', hlast', hz⟩ | ⟨-, v, -, hframes⟩
      · exact ⟨held, own', hown', hlast'.trans hlast, hz⟩
      · rw [hframes] at hz
        omega

/-- How an execution of a function begins: with a call that passes the right number of arguments,
or with a `THREAD`, which passes one. -/
inductive Starts (p : Program) (routines : List Routine) (f : Function) : Execution → Prop
  | call {r : Routine} (hf : f ∈ p.functions) (hr : routineOf? routines f.name = some r)
      (call : Nat) {args : List Value} (hargs : args.length = f.params.length) :
      Starts p routines f ⟨none, call, args, [{ routine := r }]⟩
  | thread {r : Routine} (hf : f ∈ p.functions) (hr : routineOf? routines f.name = some r)
      (hparams : f.params.length ≤ 1) (thread : ThreadId) (call : Nat) (arg : Value) :
      Starts p routines f ⟨some thread, call, [arg], [{ routine := r }]⟩

/-- The execution, which began in a given state, has just entered a function. -/
inductive Enters (p : Program) (routines : List Routine) (x₀ : Execution) (f : Function) :
    Execution → Prop
  | start (h : p.Starts routines f x₀) : Enters p routines x₀ f x₀
  | call {x e : Execution} {i : Instr} (hx : x₀.Reaches routines x) (hi : x.instr? = some i)
      (hop : i.op = .call) (hf : f ∈ p.functions) (harg : i.arg = some (.name f.name))
      (hnext : x.Next routines e) : Enters p routines x₀ f e

/-- What balance means for an execution that began in a given state. -/
structure Balanced (p : Program) (routines : List Routine) (x₀ : Execution) : Prop where
  /-- No instruction lacks an operand. -/
  no_underflow : ∀ x, x₀.Reaches routines x → ∀ s s' e, step s x = (s', .fails e) →
    e.fault ≠ .stackUnderflow
  /-- A call is of a function of the program; when it returns, its arguments have been replaced by
  its result, and nothing else has changed about the stacks of the caller. -/
  calls : ∀ x i, x₀.Reaches routines x → x.instr? = some i → i.op = .call →
    ∃ f ∈ p.functions, i.arg = some (.name f.name) ∧ f.params.length ≤ x.operands.length ∧
      ∀ e y z j, x.Next routines e → e.Above routines e.frames.length y →
        y.frames.length = e.frames.length → y.instr? = some j → j.op = .ret → y.Next routines z →
        ∃ v, z.operands = v :: x.operands.drop f.params.length ∧ z.frames = x.passed.frames
  /-- Where a statement begins or ends, the operands are those that lay below the arguments when
  the function was entered. -/
  statements : ∀ f e y, p.Enters routines x₀ f e → e.Above routines e.frames.length y →
    y.frames.length = e.frames.length → (∀ g ∈ y.frames.head?, g.pc ∈ f.marks (p.table [])) →
    y.operands = e.operands.drop f.params.length

theorem Starts.mem {f : Function} (h : p.Starts routines f x) : f ∈ p.functions := by
  cases h <;> assumption

/-- An execution that begins stands above what it was given beyond its arguments. -/
theorem Starts.stands (hp : p.WellCalled) (hl : p.LoadedIn routines) {f : Function}
    (h : p.Starts routines f x) : ∃ r, x.frames = [{ routine := r }] ∧ r.name = f.name ∧
      p.Stands (x.operands.drop f.params.length) [] (x.operands.take f.params.length)
        [{ routine := r }] x := by
  obtain ⟨r, hlower, hr⟩ := hl f h.mem
  obtain ⟨code, -, hroutine, -⟩ := Function.lower_eq_ok hlower
  cases h with
  | call hf hr' _ hargs =>
    cases hr.symm.trans hr'
    exact ⟨r, rfl, congrArg Routine.name hroutine,
      stands_of_entered hp hf hlower rfl (Nat.le_of_eq hargs.symm)⟩
  | thread hf hr' hparams _ _ _ =>
    cases hr.symm.trans hr'
    exact ⟨r, rfl, congrArg Routine.name hroutine, stands_of_entered hp hf hlower rfl hparams⟩

/-- Every state of an execution that began with a function stands above what it was given beyond
its arguments, until it has returned. -/
theorem Starts.stands_of_reaches (hp : p.WellCalled) (hl : p.LoadedIn routines) {x₀ : Execution}
    {f : Function} (h : p.Starts routines f x₀) (hx : x₀.Reaches routines x) :
    (∃ held own, own ≠ [] ∧
      p.Stands (x₀.operands.drop f.params.length) [] held own x) ∨ x.frames = [] := by
  induction hx with
  | refl _ =>
    obtain ⟨r, -, -, hstands⟩ := h.stands hp hl
    exact .inl ⟨_, _, List.cons_ne_nil _ _, hstands⟩
  | next _ hnext _ ih =>
    rcases ih with ⟨held, own, hown, hx⟩ | hnil
    · cases own with
      | nil => exact absurd rfl hown
      | cons g gs =>
        rcases hx.next hp hl hnext with ⟨held, own, hown, -, hy⟩ | ⟨-, v, -, hframes⟩
        · exact .inl ⟨held, own, hown, hy⟩
        · exact .inr hframes
    · obtain ⟨i, hi, -⟩ := hnext.does
      rw [Execution.instr?, hnil] at hi
      cases hi

/-- An execution that has a next instruction has not returned. -/
theorem Starts.stands_of_instr (hp : p.WellCalled) (hl : p.LoadedIn routines) {x₀ : Execution}
    {f : Function} (h : p.Starts routines f x₀) (hx : x₀.Reaches routines x) {i : Instr}
    (hi : x.instr? = some i) :
    ∃ held g gs, p.Stands (x₀.operands.drop f.params.length) [] held (g :: gs) x := by
  rcases h.stands_of_reaches hp hl hx with ⟨held, own, hown, hstands⟩ | hnil
  · cases own with
    | nil => exact absurd rfl hown
    | cons g gs => exact ⟨held, g, gs, hstands⟩
  · rw [Execution.instr?, hnil] at hi
    cases hi

/-- A call enters a function of the program, above what lies below its arguments. -/
theorem Stands.enter (hp : p.WellCalled) (hl : p.LoadedIn routines) {g : Frame} {gs : List Frame}
    (h : p.Stands base fs held (g :: gs) x) {i : Instr} (hi : x.instr? = some i)
    (hop : i.op = .call) {f : Function} (hf : f ∈ p.functions)
    (harg : i.arg = some (.name f.name)) {e : Execution} (hnext : x.Next routines e) :
    ∃ r, r.name = f.name ∧ e.operands = x.operands ∧
      e.frames = { routine := r } :: x.passed.frames ∧
      p.Stands (e.operands.drop f.params.length) x.passed.frames
        (e.operands.take f.params.length) [{ routine := r }] e := by
  obtain ⟨f', hf', harg', hargs⟩ := h.call hp hi hop
  obtain ⟨j, hj, hdoes⟩ := hnext.does
  rw [hi, Option.some.injEq] at hj
  subst hj
  obtain ⟨name, r, hname, hr, rfl⟩ := hdoes.eq_of_call hop
  rw [harg, Option.some.injEq, Operand.name.injEq] at hname harg'
  subst hname
  cases hp.eq_of_name hf hf' harg'
  obtain ⟨r', hlower, hr'⟩ := hl f hf
  cases hr.symm.trans hr'
  obtain ⟨code, -, hroutine, -⟩ := Function.lower_eq_ok hlower
  exact ⟨r, congrArg Routine.name hroutine, x.operands_passed, rfl,
    stands_of_entered hp hf hlower rfl (x.operands_passed.symm ▸ hargs)⟩

/-- What an execution that has just entered a function stands above. -/
theorem Enters.stands (hp : p.WellCalled) (hl : p.LoadedIn routines) {f₀ f : Function}
    {x₀ e : Execution} (hx₀ : p.Starts routines f₀ x₀) (h : p.Enters routines x₀ f e) :
    ∃ r fs, f ∈ p.functions ∧ r.name = f.name ∧ e.frames = { routine := r } :: fs ∧
      p.Stands (e.operands.drop f.params.length) fs (e.operands.take f.params.length)
        [{ routine := r }] e := by
  cases h with
  | start h =>
    obtain ⟨r, hframes, hname, hstands⟩ := h.stands hp hl
    exact ⟨r, [], h.mem, hname, hframes, hstands⟩
  | @call x _ i hx hi hop hf harg hnext =>
    obtain ⟨held, g, gs, hstands⟩ := hx₀.stands_of_instr hp hl hx hi
    obtain ⟨r, hname, -, hframes, hentered⟩ := hstands.enter hp hl hi hop hf harg hnext
    exact ⟨r, _, hf, hname, hframes, hentered⟩

/-- An activation that has not returned and has entered no other still stands alone above what lay
below its arguments. -/
theorem Stands.alone (hp : p.WellCalled) (hl : p.LoadedIn routines) {f : Frame}
    (h : p.Stands base fs held [f] x) (hxy : x.Above routines x.frames.length y)
    (hdepth : y.frames.length = x.frames.length) :
    ∃ held g, g.routine = f.routine ∧ p.Stands base fs held [g] y := by
  have hlength : x.frames.length = fs.length + 1 := by rw [h.frames]; rfl
  obtain ⟨held, own, hown, hlast, hy⟩ :=
    stands_of_above hp hl h (List.cons_ne_nil _ _) (by omega) hxy
  have hone : own.length = 1 := by
    rw [hlength, hy.frames, List.length_append] at hdepth
    omega
  obtain ⟨g, rfl⟩ := List.length_eq_one_iff.mp hone
  exact ⟨held, g, Option.some.inj hlast, hy⟩

/-- **Calls and returns are balanced.**  In a machine that a program has been loaded into, no
execution of a function of the program ever lacks an operand, each call replaces its arguments by
its result, and statements leave nothing on the operand stack. -/
theorem calls_balanced (hp : p.WellCalled) {m m' : Machine} (hm : m.load p = .ok m')
    {f₀ : Function} {x₀ : Execution} (hx₀ : p.Starts m'.shared.routines f₀ x₀) :
    p.Balanced m'.shared.routines x₀ := by
  have hl := Machine.loadedIn_of_load hm hp.toDistinct
  refine ⟨?_, ?_, ?_⟩
  · intro x hx s s' e hstep he
    obtain ⟨i, hi, hlt⟩ := Execution.length_lt_of_underflow hstep he
    obtain ⟨held, g, gs, hstands⟩ := hx₀.stands_of_instr hp hl hx hi
    have hle := hstands.pops_le hp hi
    omega
  · intro x i hx hi hop
    obtain ⟨held, g, gs, hstands⟩ := hx₀.stands_of_instr hp hl hx hi
    obtain ⟨f, hf, harg, hargs⟩ := hstands.call hp hi hop
    refine ⟨f, hf, harg, hargs, fun e y z j hnext habove hdepth hj hret hnext' => ?_⟩
    obtain ⟨r, -, hoperands, hframes, hentered⟩ := hstands.enter hp hl hi hop hf harg hnext
    obtain ⟨held, g, -, hy⟩ := hentered.alone hp hl habove hdepth
    have hz : z.frames = y.frames.tail := by
      obtain ⟨k, hk, hdoes⟩ := hnext'.does
      rw [hj, Option.some.injEq] at hk
      subst hk
      rw [hdoes.eq_of_ret hret]
      exact y.tail_frames_passed
    rcases hy.next hp hl hnext' with ⟨_, own, hown, -, hz'⟩ | ⟨-, v, hv, hfs⟩
    · rw [hz'.frames, hy.frames] at hz
      exact absurd (List.append_left_eq_self.mp hz) hown
    · exact ⟨v, hoperands ▸ hv, hfs⟩
  · intro f e y he habove hdepth hmark
    obtain ⟨r, fs, hf, hname, hframes, hstands⟩ := he.stands hp hl hx₀
    obtain ⟨held, g, hroutine, hy⟩ := hstands.alone hp hl habove hdepth
    have hg : g ∈ y.frames.head? := by rw [hy.frames]; rfl
    have hnil := hy.held_eq_nil hp hf (by rw [hroutine, hname]) (hmark g hg)
    rw [hy.operands, hnil]
    rfl

/-- A function that prints its argument and calls itself with one less, until that is negative. -/
def countdown : Program where
  records := []
  functions := [{
    name := "count"
    params := ["n"]
    body := [
      .branch (.single (.binary .lt (.var "n") (.literal ⟨.int, "0"⟩)) [.ret (.var "n")]),
      .call "println" [.var "n"],
      .ret (.call "count" [.binary .sub (.var "n") (.literal ⟨.int, "1"⟩)])] }]

theorem wellCalled_countdown : countdown.WellCalled where
  nodup := by decide
  not_builtin := by decide
  calls := by decide

theorem calls_balanced_countdown : ∃ m r, (Machine.create {} {}).load countdown = .ok m ∧
    countdown.Balanced m.shared.routines ⟨none, 0, [.int 3], [{ routine := r }]⟩ := by
  refine ⟨_, _, rfl, calls_balanced wellCalled_countdown rfl (.call List.mem_cons_self rfl 0 rfl)⟩

end Program

end Opstack
