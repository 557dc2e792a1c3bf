import Opstack.Proofs.Machine.Balance
import Opstack.Proofs.Machine.Inside
import Opstack.Proofs.Machine.Stacked
import Opstack.Proofs.Machine.Termination

/-!
# Calls on their own

What a function does on top of its caller it does in an execution of its own as well: in a program
whose calls pass the right number of arguments an activation never gets at what lies below its
arguments, and of the rest of the call stack it only finds out how high it is.

`Execution.Returns` is an execution that goes on until its call stack is down to a given height, or
until it fails, and `Execution.Lasts` one that has not come so far.  `Program.Alone` is an execution
with nothing but activations that a call of a given function can lead to; `Program.Alone.step`
compares one step of it on top of another execution with the step alone, and
`Program.Alone.returns` and `Program.Alone.lasts` whole calls, which have no other end
(`Program.Alone.lasts_or_returns`).
-/

set_option autoImplicit false

namespace Opstack

/-! ## Calls that return -/

namespace Execution

/-- The execution goes on until it has no more than so many activations, or until it fails. -/
inductive Returns (depth : Nat) :
    Shared → Execution → Shared → Except Failure Execution → Prop
  | here {s s' : Shared} {x y : Execution} (h : step s x = (s', .continues y))
      (hdepth : y.frames.length ≤ depth) : Returns depth s x s' (.ok y)
  | fails {s s' : Shared} {x : Execution} {e : Failure} (h : step s x = (s', .fails e)) :
    Returns depth s x s' (.error e)
  | later {s s' s'' : Shared} {x y : Execution} {r : Except Failure Execution}
      (h : step s x = (s', .continues y)) (hdepth : depth < y.frames.length)
      (rest : Returns depth s' y s'' r) : Returns depth s x s'' r

/-- The execution goes on for so many steps and keeps more activations than a given number. -/
inductive Lasts (depth : Nat) : Nat → Shared → Execution → Prop
  | zero (s : Shared) (x : Execution) : Lasts depth 0 s x
  | succ {n : Nat} {s s' : Shared} {x y : Execution} (h : step s x = (s', .continues y))
      (hdepth : depth < y.frames.length) (rest : Lasts depth n s' y) : Lasts depth (n + 1) s x

end Execution

section

variable {s s' : Shared} {x y : Execution} {i : Instr} {routines : List Routine}

theorem config_step {turn : Turn} (h : step s x = (s', turn)) : s'.config = s.config := by
  obtain ⟨heap, console, threads, hstep⟩ := exists_step s x
  rw [h] at hstep
  obtain rfl : s' = { s with heap, console, threads } := hstep
  rfl

/-- Only a `CALL` brings in another routine. -/
theorem Instr.Does.routine_of_ne_call (h : i.Does routines x y) (hop : i.op ≠ .call) :
    ∀ g ∈ y.frames, ∃ f ∈ x.frames, g.routine = f.routine := by
  cases h with
  | work | load | stay => exact fun g hg => ⟨g, hg, rfl⟩
  | store | jump | branch =>
    rintro g (_ | ⟨_, hg⟩)
    · exact ⟨_, List.mem_cons_self, rfl⟩
    · exact ⟨g, List.mem_cons_of_mem _ hg, rfl⟩
  | enter h => exact absurd h hop
  | leave => exact fun g hg => ⟨g, List.mem_of_mem_tail hg, rfl⟩

theorem Execution.routine_of_mem_passed {g : Frame} (hg : g ∈ x.passed.frames) :
    ∃ f ∈ x.frames, g.routine = f.routine := by
  obtain ⟨thread, call, operands, _ | ⟨f, fs⟩⟩ := x
  · cases hg
  · rcases List.mem_cons.mp hg with rfl | hg
    · exact ⟨f, List.mem_cons_self, rfl⟩
    · exact ⟨g, List.mem_cons_of_mem _ hg, rfl⟩

theorem Execution.Next.owner_eq (h : x.Next routines y) :
    y.thread = x.thread ∧ y.call = x.call := by
  obtain ⟨i, hi, hdoes⟩ := h.does
  obtain ⟨thread, call, operands, _ | ⟨f, fs⟩⟩ := x
  · cases hi
  · exact hdoes.owner_eq

/-- An execution fails at an instruction, as its own thread. -/
theorem Execution.Returns.eq_raised {depth : Nat} {r : Except Failure Execution}
    (h : x.Returns depth s s' r) {e : Failure} (he : r = .error e) :
    ∃ fault site, e = .raised fault site x.thread := by
  induction h with
  | here => cases he
  | @fails s s' x e' hstep =>
    cases he
    have hsteps := steps_step s x
    rw [hstep] at hsteps
    generalize hturn : Turn.fails e = turn at hsteps
    cases hsteps with
    | stops | raises =>
      cases hturn
      exact ⟨_, _, rfl⟩
    | _ => cases hturn
  | later hstep _ _ ih =>
    rw [← (Next.owner_eq (.continues rfl hstep)).1]
    exact ih he

end

/-! ## Executions of what a call leads to -/

namespace Program

variable {p : Program} {f : Function} {routines : List Routine} {s s' : Shared}
  {x y base : Execution} {i : Instr}

/-- The program has been loaded, and no execution has failed. -/
structure ReadyIn (p : Program) (s : Shared) : Prop where
  /-- The functions of the program are registered. -/
  loaded : p.LoadedIn s.routines
  /-- No failure is recorded. -/
  failure : s.failure = none
  /-- The machine has not been halted. -/
  running : s.isHalted = false

/-- No step of an execution records a failure. -/
theorem ReadyIn.step {turn : Turn} (hs : p.ReadyIn s) (h : step s x = (s', turn)) :
    p.ReadyIn s' := by
  obtain ⟨heap, console, threads, hstep⟩ := exists_step s x
  rw [h] at hstep
  obtain rfl : s' = { s with heap, console, threads } := hstep
  exact ⟨hs.loaded, hs.failure, hs.running⟩

theorem ReadyIn.of_returns {depth : Nat} {r : Except Failure Execution}
    (h : x.Returns depth s s' r) (hs : p.ReadyIn s) : p.ReadyIn s' := by
  induction h with
  | here hstep _ | fails hstep => exact hs.step hstep
  | later hstep _ _ ih => exact ih (hs.step hstep)

/-- The execution has only activations of functions that a call of the given one can lead to, and
only their operands. -/
structure Alone (p : Program) (f : Function) (x : Execution) : Prop where
  /-- The operands are those that the activations account for. -/
  stands : ∃ held g gs, p.Stands [] [] held (g :: gs) x
  /-- The activations are of functions that the call can lead to. -/
  involved : ∀ g ∈ x.frames, ∃ h ∈ p.functions, p.Involves f h ∧
    h.lower (p.table []) = .ok g.routine
  /-- The activations are at instructions of their routines. -/
  inside : Inside x.frames

/-- An execution that begins with the argument of the function is alone. -/
theorem exists_alone (hp : p.WellCalled) (hl : p.LoadedIn routines) (hf : f ∈ p.functions)
    (hparams : f.params.length = 1) : ∃ r, routineOf? routines f.name = some r ∧
      ∀ thread call v, p.Alone f ⟨thread, call, [v], [{ routine := r }]⟩ := by
  obtain ⟨r, hlower, hr⟩ := hl f hf
  refine ⟨r, hr, fun thread call v => ⟨?_, ?_, inside_begin (Function.closed_of_lower hlower)⟩⟩
  · have hstands := stands_of_entered (x := ⟨thread, call, [v], [{ routine := r }]⟩) hp hf hlower
      rfl (Nat.le_of_eq hparams)
    rw [hparams] at hstands
    exact ⟨_, _, _, hstands⟩
  · exact List.forall_mem_singleton.mpr ⟨f, hf, .itself, hlower⟩

namespace Alone

theorem exists_frames (h : p.Alone f x) : ∃ g gs, x.frames = g :: gs := by
  obtain ⟨held, g, gs, hstands⟩ := h.stands
  exact ⟨g, gs, hstands.frames.trans (List.append_nil _)⟩

theorem frames_ne_nil (h : p.Alone f x) : x.frames ≠ [] := by
  obtain ⟨g, gs, hframes⟩ := h.exists_frames
  exact hframes ▸ List.cons_ne_nil _ _

theorem length_pos (h : p.Alone f x) : 0 < x.frames.length :=
  List.length_pos_iff.mpr h.frames_ne_nil

theorem exists_instr (h : p.Alone f x) : ∃ i, x.instr? = some i :=
  Execution.instr?_of_inside h.inside h.frames_ne_nil

/-- Its instructions have nothing to do with threads if the function has not. -/
theorem threadless (h : p.Alone f x) (hfree : p.Threadless f) (hi : x.instr? = some i) :
    i.op ≠ .thread ∧ i.op ≠ .wait := by
  obtain ⟨g, gs, hframes, hget⟩ := Execution.instr?_eq_some hi
  obtain ⟨callee, -, hcallee, hlower⟩ := h.involved g (hframes ▸ List.mem_cons_self)
  have hpermits := Function.permits_of_lower hlower (hfree callee hcallee)
  exact (hpermits i (Array.mem_toList_iff.mpr (Array.mem_of_getElem? hget))).threadless

/-- Its instructions find their operands. -/
theorem pops_le (h : p.Alone f x) (hp : p.WellCalled) (hi : x.instr? = some i) :
    i.op.pops ≤ x.operands.length := by
  obtain ⟨held, g, gs, hstands⟩ := h.stands
  exact hstands.pops_le hp hi

/-- A step brings in only activations of functions that the call can lead to. -/
theorem involved_next (h : p.Alone f x) (hp : p.WellCalled) (hl : p.LoadedIn routines)
    (hnext : x.Next routines y) : ∀ g ∈ y.frames, ∃ callee ∈ p.functions, p.Involves f callee ∧
      callee.lower (p.table []) = .ok g.routine := by
  intro k hk
  obtain ⟨i, hi, hdoes⟩ := hnext.does
  have hkept : ∀ k ∈ x.passed.frames, ∃ callee ∈ p.functions, p.Involves f callee ∧
      callee.lower (p.table []) = .ok k.routine := fun k hk => by
    obtain ⟨k', hk', hroutine⟩ := Execution.routine_of_mem_passed hk
    exact hroutine ▸ h.involved k' hk'
  by_cases hop : i.op = .call
  · -- A new activation is of a function that the innermost one calls.
    obtain ⟨name, r, harg, hr, rfl⟩ := hdoes.eq_of_call hop
    rcases List.mem_cons.mp hk with rfl | hk
    · obtain ⟨held, g, gs, hstands⟩ := h.stands
      obtain ⟨callee, hcallee, harg', -⟩ := hstands.call hp hi hop
      rw [harg, Option.some.injEq, Operand.name.injEq] at harg'
      subst harg'
      obtain ⟨r', hlower, hr'⟩ := hl callee hcallee
      cases hr.symm.trans hr'
      obtain ⟨k, ks, hframes, hget⟩ := Execution.instr?_eq_some hi
      obtain ⟨caller, -, hcaller, hlower'⟩ := h.involved k (hframes ▸ List.mem_cons_self)
      have hmem : i ∈ k.routine.code.toList :=
        Array.mem_toList_iff.mpr (Array.mem_of_getElem? hget)
      exact ⟨callee, hcallee,
        hcaller.next hcallee (Function.calls_of_lower hlower' hmem hop harg), hlower⟩
    · exact hkept k hk
  · obtain ⟨k', hk', hroutine⟩ := hdoes.routine_of_ne_call hop k hk
    exact hroutine ▸ hkept k' hk'

/-- **One step**: the execution stays alone, or it has returned with its result. -/
theorem next (h : p.Alone f x) (hp : p.WellCalled) (hl : p.LoadedIn routines)
    (hnext : x.Next routines y) : p.Alone f y ∨ ∃ v, y = ⟨x.thread, x.call, [v], []⟩ := by
  obtain ⟨held, g, gs, hstands⟩ := h.stands
  rcases hstands.next hp hl hnext with ⟨held', own, hown, -, hy⟩ | ⟨-, v, hoperands, hframes⟩
  · obtain ⟨g', gs', rfl⟩ := List.exists_cons_of_ne_nil hown
    have hinvolved := h.involved_next hp hl hnext
    refine .inl ⟨⟨held', g', gs', hy⟩, hinvolved, hnext.inside (fun r _ hr => ?_) h.inside⟩
    obtain ⟨callee, -, -, hlower⟩ := hinvolved _ hr
    exact Function.closed_of_lower hlower
  · obtain ⟨hthread, hcall⟩ := hnext.owner_eq
    obtain ⟨thread, call, operands, frames⟩ := y
    cases hthread
    cases hcall
    cases hoperands
    cases hframes
    exact .inr ⟨v, rfl⟩

/-! ### On top of others -/

/-- What becomes of the execution on top of another one becomes of it alone, unless the call stack
is too high. -/
theorem step_cases (h : p.Alone f x) (hp : p.WellCalled) (hfree : p.Threadless f)
    (hs : p.ReadyIn s) (base : Execution) :
    (∃ e, step s (x.onto base) = (s, .fails e) ∧ e.fault.isDepth = true) ∨
      step s (x.onto base) = ((step s x).1, (step s x).2.onto base) := by
  obtain ⟨i, hi⟩ := h.exists_instr
  exact step_onto hi (h.threadless hfree hi) (h.pops_le hp hi) hs.running base

/-- The execution on top of another one goes on or fails, if the settings allow no more slots than
an activation can have. -/
theorem goes_or_fails (h : p.Alone f x) (hfree : p.Threadless f)
    (hslots : s.config.maxFrameSlots ≤ s.config.host.capacity) (base : Execution) :
    (∃ s' z, step s (x.onto base) = (s', .continues z)) ∨
      ∃ s' e, step s (x.onto base) = (s', .fails e) := by
  obtain ⟨i, hi⟩ := h.exists_instr
  rw [← Execution.instr?_onto h.frames_ne_nil base] at hi
  obtain ⟨hspawns, hwaits⟩ := not_spawns_or_waits s (x := x.onto base) fun j hj =>
    h.threadless hfree ((Execution.instr?_onto h.frames_ne_nil base).symm.trans hj)
  have hcrashes := step_ne_crashes hslots (x.onto base)
  have hfollows := step_follows s (x.onto base)
  generalize step s (x.onto base) = r at hspawns hwaits hcrashes hfollows
  obtain ⟨s', turn⟩ := r
  cases turn with
  | continues z => exact .inl ⟨s', z, rfl⟩
  | fails e => exact .inr ⟨s', e, rfl⟩
  | spawns z child => exact absurd rfl (hspawns z child)
  | waits z thread site => exact absurd rfl (hwaits z thread site)
  | returns v => cases hi.symm.trans hfollows
  | crashes => exact absurd rfl hcrashes

/-- The execution goes on alone if it does so on top of another one; if it has returned there, it
has its result alone. -/
theorem continues (h : p.Alone f x) (hp : p.WellCalled) (hfree : p.Threadless f)
    (hs : p.ReadyIn s) {z : Execution} (hstep : step s (x.onto base) = (s', .continues z)) :
    (z.frames.length ≤ base.frames.length ∧ ∃ v, z = base.push v ∧
        step s x = (s', .continues ⟨x.thread, x.call, [v], []⟩)) ∨
      (base.frames.length < z.frames.length ∧ ∃ y, z = y.onto base ∧ p.Alone f y ∧
        y.thread = x.thread ∧ y.call = x.call ∧ step s x = (s', .continues y)) := by
  rcases h.step_cases hp hfree hs base with ⟨e, hfull, -⟩ | hsame
  · cases hfull.symm.trans hstep
  · rw [hsame] at hstep
    have hnext : ∀ s₁ y, step s x = (s₁, .continues y) → x.Next s.routines y :=
      fun _ _ hy => .continues rfl hy
    generalize step s x = r at hstep hnext
    obtain ⟨s₁, turn⟩ := r
    cases turn with
    | continues y =>
      cases hstep
      have hnext := hnext _ _ rfl
      rcases h.next hp hs.loaded hnext with halone | ⟨v, rfl⟩
      · obtain ⟨g, gs, hframes⟩ := halone.exists_frames
        have habove : base.frames.length < (y.onto base).frames.length := by
          rw [Execution.frames_onto, List.length_append, hframes, List.length_cons]
          omega
        exact .inr ⟨habove, y, rfl, halone, hnext.owner_eq.1, hnext.owner_eq.2, rfl⟩
      · exact .inl ⟨Nat.le_refl _, v, rfl, rfl⟩
    | _ => cases hstep

/-- The execution fails alone if it does so on top of another one, and not because the call stack is
too high. -/
theorem fails (h : p.Alone f x) (hp : p.WellCalled) (hfree : p.Threadless f)
    (hs : p.ReadyIn s) {e : Failure} (hstep : step s (x.onto base) = (s', .fails e))
    (he : e.fault.isDepth = false) :
    step s x = (s', .fails (e.withThread x.thread)) := by
  rcases h.step_cases hp hfree hs base with ⟨e', hfull, he'⟩ | hsame
  · cases hfull.symm.trans hstep
    rw [he] at he'
    cases he'
  · rw [hsame] at hstep
    have hsteps := steps_step s x
    generalize step s x = r at hstep hsteps
    obtain ⟨s₁, turn⟩ := r
    cases turn with
    | fails e' =>
      cases hstep
      have hthread : e'.thread = x.thread := by cases hsteps <;> rfl
      rw [← hthread]
      rfl
    | _ => cases hstep

/-- **A call on top of another execution does what it does alone.**  If it returns there, it leaves
the result on top that it has alone, and if it fails, it fails alone too, but for the thread. -/
theorem returns (hp : p.WellCalled) (hfree : p.Threadless f) {z : Execution}
    {r : Except Failure Execution} (h : z.Returns base.frames.length s s' r)
    (hz : z = x.onto base) (hx : p.Alone f x) (hs : p.ReadyIn s)
    (hdepth : ∀ e, r = .error e → e.fault.isDepth = false) :
    (∃ v, r = .ok (base.push v) ∧ x.Returns 0 s s' (.ok ⟨x.thread, x.call, [v], []⟩)) ∨
      ∃ e, r = .error e ∧ x.Returns 0 s s' (.error (e.withThread x.thread)) := by
  induction h generalizing x with
  | here hstep hreturned =>
    subst hz
    rcases hx.continues hp hfree hs hstep with ⟨-, v, rfl, hy⟩ | ⟨habove, -⟩
    · exact .inl ⟨v, rfl, .here hy (Nat.zero_le _)⟩
    · exact absurd hreturned (Nat.not_le_of_lt habove)
  | fails hstep =>
    subst hz
    exact .inr ⟨_, rfl, .fails (hx.fails hp hfree hs hstep (hdepth _ rfl))⟩
  | later hstep habove _ ih =>
    subst hz
    rcases hx.continues hp hfree hs hstep with
      ⟨hreturned, -⟩ | ⟨-, y, rfl, halone, hthread, hcall, hy⟩
    · exact absurd habove (Nat.not_lt_of_le hreturned)
    · have hpos := halone.length_pos
      have hready := hs.step hy
      rcases ih rfl halone hready hdepth with ⟨v, hv, hreturns⟩ | ⟨e, he, hreturns⟩
      · rw [hthread, hcall] at hreturns
        exact .inl ⟨v, hv, .later hy hpos hreturns⟩
      · rw [hthread] at hreturns
        exact .inr ⟨e, he, .later hy hpos hreturns⟩

/-- **There is no other end**: a call on top of another execution has gone on for so many steps, or
it has returned or failed before. -/
theorem lasts_or_returns (hp : p.WellCalled) (hfree : p.Threadless f) (base : Execution) (n : Nat)
    (hx : p.Alone f x) (hs : p.ReadyIn s)
    (hslots : s.config.maxFrameSlots ≤ s.config.host.capacity) :
    (x.onto base).Lasts base.frames.length n s ∨
      ∃ s' r, (x.onto base).Returns base.frames.length s s' r := by
  induction n generalizing x s with
  | zero => exact .inl (.zero _ _)
  | succ n ih =>
    rcases hx.goes_or_fails hfree hslots base with ⟨s', z, hstep⟩ | ⟨s', e, hfails⟩
    · rcases hx.continues hp hfree hs hstep with
        ⟨hreturned, -⟩ | ⟨habove, y, rfl, halone, -, -, hy⟩
      · exact .inr ⟨s', .ok z, .here hstep hreturned⟩
      · rcases ih halone (hs.step hy) (config_step hy ▸ hslots) with hlasts | ⟨s'', r, hreturns⟩
        · exact .inl (.succ hstep habove hlasts)
        · exact .inr ⟨s'', r, .later hstep habove hreturns⟩
    · exact .inr ⟨s', .error e, .fails hfails⟩

/-- A call that goes on and on on top of another execution does so alone. -/
theorem lasts (hp : p.WellCalled) (hfree : p.Threadless f) {n : Nat} {z : Execution}
    (h : z.Lasts base.frames.length n s) (hz : z = x.onto base) (hx : p.Alone f x)
    (hs : p.ReadyIn s) : x.Lasts 0 n s := by
  induction h generalizing x with
  | zero => exact .zero _ _
  | succ hstep habove _ ih =>
    subst hz
    rcases hx.continues hp hfree hs hstep with ⟨hreturned, -⟩ | ⟨-, y, rfl, halone, -, -, hy⟩
    · exact absurd habove (Nat.not_lt_of_le hreturned)
    · exact .succ hy halone.length_pos (ih rfl halone (hs.step hy))

/-- An execution that goes on and on does so after its next step. -/
theorem exists_step_of_lasts (h : p.Alone f x) (hp : p.WellCalled) (hs : p.ReadyIn s)
    (hlasts : ∀ n, x.Lasts 0 n s) : ∃ s' y, step s x = (s', .continues y) ∧ p.Alone f y ∧
      y.thread = x.thread ∧ ∀ n, y.Lasts 0 n s' := by
  have hone := hlasts 1
  cases hone with
  | @succ _ _ s' _ y hstep habove _ =>
    have hnext : x.Next s.routines y := .continues rfl hstep
    refine ⟨s', y, hstep, ?_, hnext.owner_eq.1, fun n => ?_⟩
    · rcases h.next hp hs.loaded hnext with halone | ⟨v, rfl⟩
      · exact halone
      · exact absurd habove (Nat.lt_irrefl _)
    · have hmore := hlasts (n + 1)
      cases hmore with
      | succ hstep' _ hrest =>
        cases hstep.symm.trans hstep'
        exact hrest

end Alone

end Program
end Opstack
