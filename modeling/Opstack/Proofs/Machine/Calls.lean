import Opstack.Proofs.Machine.Loading
import Opstack.Proofs.Machine.Statements

/-!
# Calls on the machine

The routine of a function does what the function means, when it begins in front of its first
instruction with its arguments on the operand stack (`Scene.Plays.meets_apply`).  That is so
because a `CALL` does what a call means, and this in turn because the routine that it enters does
what its function means: `Scene.serves` goes around this circle once for each unit of fuel.

What an execution needs for it is that the routine at work is that of a function of the program
(`Scene.Plays`) and that the other functions of the program are known (`Program.LoadedIn`).
-/

set_option autoImplicit false

namespace Opstack

/-! ## Parameters -/

theorem Scope.Ordered.foldl {scope : Scope} (h : scope.Ordered) (names : List String) :
    (names.foldl Scope.extend scope).Ordered := by
  induction names generalizing scope with
  | nil => exact h
  | cons name rest ih => exact ih (h.extend name)

theorem Function.ordered_scope (f : Function) : f.scope.Ordered :=
  Scope.Ordered.foldl ⟨.nil, List.forall_mem_nil _⟩ f.params

namespace Scene

variable {c : Scene} {env : Env} {k place : Nat} {slots : Array Value} {scope : Scope}

/-- The code at the beginning of a function makes variables of the arguments. -/
theorem meets_bindParams (henv : env.config = c.base.config) {names : List String}
    {args : List Value} (hargs : args.length = names.length) (hs : scope.Ordered)
    (hfits : c.Fits scope slots)
    (hcode : c.routine.Holds place (storeCode scope.slotCount names.length)) (w : World) :
    (c.point w place slots (args ++ c.below)).Meets c.base k
      (env.bindParams names args scope.slotCount (scope.view slots)) w fun vars w' q =>
        ∃ slots', c.Fits (names.foldl Scope.extend scope) slots' ∧
          vars = (names.foldl Scope.extend scope).view slots' ∧
          q = c.point w' (place + names.length) slots' c.below := by
  induction names generalizing args place slots scope w with
  | nil =>
    have hnil := List.eq_nil_of_length_eq_zero hargs
    subst hnil
    rw [Env.bindParams]
    exact Point.meets_pure ⟨slots, hfits, rfl, rfl⟩
  | cons name names ih =>
    obtain ⟨v, args, rfl⟩ := List.exists_cons_of_length_eq_add_one hargs
    rw [List.length_cons, storeCode, holds_cons] at hcode
    rw [Env.bindParams]
    refine (meets_reserve henv hcode.1).bind fun _ w' q hq => ?_
    obtain ⟨hroom, rfl⟩ := hq
    rw [← view_extend hs hfits, List.length_cons, Nat.add_comm names.length, ← Nat.add_assoc]
    exact ih (Nat.succ.inj hargs) (hs.extend name) (hfits.extend hroom name v) hcode.2 w'

end Scene

/-! ## Bodies -/

/-- A body that ends with a `return` never goes on behind it. -/
theorem Env.execStmts_yields (env : Env) {body : List Stmt}
    (h : body.getLast?.any Stmt.isReturn = true) (n : Nat) (vars : Vars) :
    (env.execStmts body n vars).Yields fun flow => ∃ v, flow = .returned v := by
  induction body generalizing n vars with
  | nil => cases h
  | cons s rest ih =>
    rw [execStmts]
    refine Eval.Yields.bind (P := fun flow => (∃ v, flow = .returned v) ∨ rest ≠ []) ?_ ?_
    · by_cases hrest : rest = []
      · subst hrest
        cases s with
        | ret e =>
          rw [execStmt]
          exact Eval.yields_bind fun v => Eval.yields_pure (.inl ⟨v, rfl⟩)
        | _ => cases h
      · exact fun _ _ _ _ => .inr hrest
    · intro flow hflow
      cases flow with
      | returned v => exact Eval.yields_pure ⟨v, rfl⟩
      | next vars =>
        rcases hflow with ⟨v, hv⟩ | hrest
        · cases hv
        · obtain ⟨s', rest, rfl⟩ := List.exists_cons_of_ne_nil hrest
          exact ih h _ _

/-! ## Functions -/

namespace Scene

/-- The routine at work is that of a function. -/
structure Plays (c : Scene) (p : Program) (f : Function) : Prop where
  /-- The function obeys the rules for programs without threads. -/
  obeys : Stmt.allObey p.plainRules f.body = true
  /-- The routine is the compiled function. -/
  lower : f.lower (p.table []) = .ok c.routine

variable {c : Scene} {env : Env} {f : Function}

/-- **The routine of a function does what the function means.** -/
theorem Plays.meets_apply (h : c.Plays env.program f) (henv : c.Serves env) {args : List Value}
    (hargs : args.length = f.params.length) (w : World) :
    (c.point w 0 #[] (args ++ c.below)).Meets c.base env.fuel (env.apply f args) w
      fun v w' q => q = c.exit w' v := by
  obtain ⟨code, hcode, hroutine, -⟩ := Function.lower_eq_ok h.lower
  obtain ⟨body, scope', rfl, hbody⟩ := Function.code_eq_ok hcode h.obeys
  have hholds := holds_toList c.routine
  rw [hroutine, List.toList_toArray, ← hroutine, holds_append, holds_append, length_storeCode,
    List.length_append, length_storeCode, ← Nat.add_assoc, Nat.zero_add] at hholds
  obtain ⟨⟨hstores, hstmts⟩, hend⟩ := hholds
  have hempty : c.Fits ({} : Scope).enter #[] := List.forall_mem_nil _
  have hordered : ({} : Scope).enter.Ordered := ⟨.nil, List.forall_mem_nil _⟩
  rw [Env.apply]
  refine (meets_bindParams henv.config hargs hordered hempty hstores w).bind
    fun vars w₁ q hq => ?_
  obtain ⟨slots, hfits, rfl, rfl⟩ := hq
  rw [Nat.zero_add]
  have hexec := hbody.executes henv f.ordered_scope hfits hstmts w₁
  rw [f.slotCount_scope] at hexec
  by_cases hreturn : f.body.getLast?.any Stmt.isReturn = true
  · refine (hexec.and (env.execStmts_yields hreturn _ _)).bind fun flow w₂ q hq => ?_
    obtain ⟨hq, v, rfl⟩ := hq
    cases hq
    exact Point.meets_pure rfl
  · rw [endCode, if_neg hreturn, holds_cons, holds_cons] at hend
    refine hexec.bind fun flow w₂ q hq => ?_
    cases hq with
    | returned => exact Point.meets_pure rfl
    | @next _ slots' _ =>
      have hnull : c.Performs env.fuel slots' (f.params.length + body.length)
          (f.params.length + body.length + 1) [] (pure .null : Eval Value) fun v => [v] :=
        performs_push hend.1
      obtain ⟨n, hn⟩ := hnull.leads w₂ c.below
      exact hn.meets ((leads_ret hend.2.1).meets (Point.meets_pure rfl))

/-! ## Calls -/

/-- The activation of a routine that is called from here. -/
def callee (c : Scene) (slots : Array Value) (place : Nat) (routine : Routine)
    (rest : List Value) : Scene where
  base := c.base
  thread := c.thread
  call := c.call
  callers := ⟨c.routine, slots, place + 1⟩ :: c.callers
  routine
  below := rest
  running := c.running

section

variable {k place : Nat} {slots : Array Value} {name : String} {r : Routine} {w : World}
  {operands : List Value}

/-- What a `CALL` of a known routine does. -/
theorem perform_call (hr : c.base.find? name = some r) (rest : List Value) :
    perform (c.base.withWorld w) (c.execution (place + 1) slots operands) (.call name) =
      (c.base.withWorld w,
        if c.base.config.maxCallDepth ≤ c.callers.length + 1 then
          .fault (.callDepthExceeded c.base.config.maxCallDepth)
        else .next ((c.callee slots place r rest).execution 0 #[] operands)) := by
  have hfind : (c.base.withWorld w).find? name = some r := hr
  rw [perform]
  simp only [Instr.call, Instr.nameArg, bind, Except.bind, hfind, Execution.enter]
  by_cases hdepth : c.base.config.maxCallDepth ≤ c.callers.length + 1
  · rw [if_pos hdepth]
    exact congrArg _ (congrArg _ (if_pos hdepth))
  · rw [if_neg hdepth]
    exact congrArg _ (congrArg _ (if_neg hdepth))

/-- A `CALL` where the call stack is full. -/
theorem meets_call_of_le (hi : c.routine.get? place = some (.call name))
    (hr : c.base.find? name = some r)
    (hdepth : c.base.config.maxCallDepth ≤ c.callers.length + 1) {α : Type}
    {Q : α → World → Point → Prop} :
    (c.point w place slots operands).Meets c.base k
      (Eval.lift (.error (.callDepthExceeded c.base.config.maxCallDepth))) w Q := by
  have hstep := c.step_execution w slots operands hi
  rw [perform_call hr [], if_pos hdepth] at hstep
  exact ⟨0, _, _, .refl _, hstep, rfl⟩

/-- A `CALL` enters the routine where the call stack is not full. -/
theorem leads_call (hi : c.routine.get? place = some (.call name))
    (hr : c.base.find? name = some r)
    (hdepth : ¬c.base.config.maxCallDepth ≤ c.callers.length + 1) (rest : List Value) :
    (c.point w place slots operands).Leads 1
      ((c.callee slots place r rest).point w 0 #[] operands) := by
  have hstep := c.step_execution w slots operands hi
  rw [perform_call hr rest, if_neg hdepth] at hstep
  exact .step hstep (.refl _)

end

/-- **A `CALL` does what a call means**, with the function of the program that has the name. -/
theorem serves {p : Program} (hp : p.obeys p.plainRules = true)
    (hl : p.LoadedIn c.base.routines) (fuel : Nat) :
    c.Serves ⟨p, c.base.config, fuel, p.invoke c.base.config fuel (c.callers.length + 1)⟩ := by
  induction fuel generalizing c with
  | zero => exact ⟨rfl, fun _ _ _ _ _ _ _ _ _ _ => .leads (.refl _)⟩
  | succ fuel ih =>
    refine ⟨rfl, fun name f args place slots hf hargs hi w rest => ?_⟩
    obtain ⟨hmem, rfl⟩ := Program.mem_of_function? hf
    obtain ⟨r, hlower, hr⟩ := hl f hmem
    have hobeys : Stmt.allObey p.plainRules f.body = true := List.all_eq_true.mp hp f hmem
    change p.function? f.name = some f at hf
    change Point.Meets _ _ _ (p.invoke _ (fuel + 1) _ f.name args) _ _
    rw [Program.invoke, hf]
    by_cases hdepth : c.base.config.maxCallDepth ≤ c.callers.length + 1
    · simp only [if_pos hdepth]
      exact meets_call_of_le hi hr hdepth
    · simp only [if_neg hdepth]
      have hplays : (c.callee slots place r rest).Plays p f := ⟨hobeys, hlower⟩
      have hserves := ih (c := c.callee slots place r rest) hl
      have hmeets := (hplays.meets_apply hserves hargs w).after (leads_call hi hr hdepth rest)
      rwa [Nat.add_comm] at hmeets

end Scene
end Opstack
