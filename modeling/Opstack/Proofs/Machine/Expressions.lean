import Opstack.Proofs.Lowering.Levels
import Opstack.Proofs.Machine.Simulation

/-!
# Expressions on the machine

The code of an expression does what the expression means.  The variables that the meaning looks at
are a view of the slots (`Scope.view`), so there is nothing to keep in step: a variable is read by
the `LOAD` of its slot.

* `Term.Code.performs` is the statement for expressions and all that they are made of.
* `FieldTarget.Code.performs` and `Target.Code.performs` are that for the left side of an
  assignment, which leaves the operands of the place that it names.

What a call of a function does is an assumption here (`Scene.Serves`).
-/

set_option autoImplicit false

namespace Opstack

/-! ## Code in a routine -/

/-- The routine has the code at a place. -/
def Routine.Holds (r : Routine) (start : Nat) (code : List Instr) : Prop :=
  ∀ place i, At start code place i → r.get? place = some i

section

variable {r : Routine} {start : Nat} {a b code : List Instr} {i : Instr}

@[simp] theorem holds_nil : r.Holds start [] ↔ True :=
  ⟨fun _ => trivial, fun _ _ _ h => h.elim⟩

@[simp] theorem holds_cons :
    r.Holds start (i :: code) ↔ r.get? start = some i ∧ r.Holds (start + 1) code := by
  constructor
  · intro h
    exact ⟨h start i (.inl ⟨rfl, rfl⟩), fun place j hj => h place j (.inr hj)⟩
  · rintro ⟨hi, h⟩ place j (⟨rfl, rfl⟩ | hj)
    · exact hi
    · exact h place j hj

@[simp] theorem holds_append :
    r.Holds start (a ++ b) ↔ r.Holds start a ∧ r.Holds (start + a.length) b := by
  simp only [Routine.Holds, at_append, or_imp, forall_and]

theorem holds_toList (r : Routine) : r.Holds 0 r.code.toList := by
  intro place i hi
  rw [← Nat.zero_add place, at_iff_getElem?, Array.getElem?_toList] at hi
  exact hi

end

/-! ## Variables in slots -/

/-- A variable with the value in its slot. -/
def Local.view (slots : Array Value) (l : Local) : String × Value :=
  (l.name, slots[l.slot]?.getD .null)

/-- The variables in scope with the values in their slots. -/
def Scope.view (scope : Scope) (slots : Array Value) : Vars := scope.locals.map (Local.view slots)

/-- Each variable in scope has a slot in use. -/
def Scene.Fits (c : Scene) (scope : Scope) (slots : Array Value) : Prop :=
  ∀ l ∈ scope.locals, l.slot < slots.size ∧ c.Room l.slot

theorem Scope.exists_of_resolve? {scope : Scope} {name : String} {slot : Nat}
    (h : scope.resolve? name = some slot) : ∃ l ∈ scope.locals, l.slot = slot := by
  obtain ⟨l, hl, rfl⟩ := Option.map_eq_some_iff.mp h
  exact ⟨l, List.mem_of_find?_eq_some hl, rfl⟩

theorem Scope.lookup_view (scope : Scope) (slots : Array Value) (name : String) :
    (scope.view slots).lookup name =
      (scope.resolve? name).map fun slot => slots[slot]?.getD .null := by
  rw [view, resolve?]
  induction scope.locals with
  | nil => rfl
  | cons l rest ih =>
    rw [List.map_cons, Local.view, List.lookup_cons, List.find?_cons]
    by_cases h : l.name = name
    · subst h
      simp
    · rw [beq_eq_false_iff_ne.mpr (Ne.symm h), beq_eq_false_iff_ne.mpr h]
      exact ih

/-! ## What is assumed about calls -/

/-- The settings are those of the machine, and a `CALL` of a function of the program does what the
function does. -/
structure Scene.Serves (c : Scene) (env : Env) : Prop where
  /-- The settings are the same. -/
  config : env.config = c.base.config
  /-- A `CALL` replaces its arguments by the result. -/
  calls : ∀ name f args place slots, env.program.function? name = some f →
    args.length = f.params.length → c.routine.get? place = some (.call name) →
    c.Performs env.fuel slots place (place + 1) args (env.call name args) fun v => [v]

/-! ## Steps between computations -/

namespace Scene

variable {c : Scene} {env : Env} {α β : Type} {k place start mid stop : Nat} {slots : Array Value}
  {taken : List Value}

/-- Code that computes nothing just leads on. -/
theorem Performs.leads {a : β} {left : β → List Value}
    (h : c.Performs k slots start stop taken (pure a : Eval β) left) (w : World)
    (rest : List Value) : ∃ n, (c.point w start slots (taken ++ rest)).Leads n
      (c.point w stop slots (left a ++ rest)) := by
  obtain ⟨n, q, hq, rfl⟩ := h w rest
  exact ⟨n, hq⟩

/-- Code that computes nothing may come before. -/
theorem Performs.silent {a : β} {x : Eval α} {left : β → List Value} {left' : α → List Value}
    (h : c.Performs k slots start mid taken (pure a : Eval β) left)
    (hx : c.Performs k slots mid stop (left a) x left') :
    c.Performs k slots start stop taken x left' := by
  intro w rest
  obtain ⟨n, hn⟩ := h.leads w rest
  exact hn.meets (hx w rest)

/-- Code that turns a result into the operands that are wanted may come after. -/
theorem Performs.result {x : Eval α} {f : α → β} {left : α → List Value} {left' : β → List Value}
    (h : c.Performs k slots start stop taken x left) (hf : ∀ a, left' (f a) = left a) :
    c.Performs k slots start stop taken (x >>= fun a => pure (f a)) left' :=
  h.bind fun a => performs_pure (hf a)

/-- A variable in scope is read by the `LOAD` of its slot. -/
theorem performs_variable {scope : Scope} {name : String} {slot : Nat}
    (hfits : c.Fits scope slots) (hslot : scope.resolve? name = some slot)
    (hi : c.routine.get? place = some (.load slot)) :
    c.Performs k slots place (place + 1) [] ((scope.view slots).read name) fun v => [v] := by
  obtain ⟨l, hl, rfl⟩ := Scope.exists_of_resolve? hslot
  have hv := Array.getElem?_eq_getElem (hfits l hl).1
  rw [Vars.read, Scope.lookup_view, hslot, Option.map_some, hv]
  exact performs_load hi hv

/-! ### Calls -/

theorem builtinCall?_eq_none {name : String} (h : builtinArity? name = none)
    (args : List Value) : builtinCall? name args = none := by
  unfold builtinArity? at h
  unfold builtinCall?
  split <;> simp_all

/-- The code of a builtin does what the builtin means. -/
theorem performs_builtin {name : String} {args : List Value} {n : Nat}
    (hname : builtinArity? name = some n) (hargs : args.length = n)
    (hcreate : name ≠ "thread_create") (hwait : name ≠ "thread_wait")
    (h : c.routine.Holds place (callCode name)) : ∃ x, builtinCall? name args = some x ∧
      c.Performs k slots place (place + (callCode name).length) args x fun v => [v] := by
  unfold builtinArity? at hname
  split at hname <;> cases hname
  · obtain ⟨v, rfl⟩ := List.length_eq_one_iff.mp hargs
    have hcode : c.routine.Holds place [.plain .write, .push .null] := h
    rw [holds_cons, holds_cons] at hcode
    exact ⟨_, rfl, (performs_write hcode.1).bind fun _ => performs_push hcode.2.1⟩
  · obtain ⟨v, rfl⟩ := List.length_eq_one_iff.mp hargs
    have hcode : c.routine.Holds place
        [.plain .write, .push (.str "\n"), .plain .write, .push .null] := h
    rw [holds_cons, holds_cons, holds_cons, holds_cons] at hcode
    obtain ⟨hfirst, hline, hsecond, hnull, -⟩ := hcode
    refine ⟨_, rfl, (performs_write hfirst).bind fun _ => ?_⟩
    exact (performs_push hline).silent
      ((performs_write hsecond).bind fun _ => performs_push hnull)
  · cases List.eq_nil_of_length_eq_zero hargs
    have hcode : c.routine.Holds place [.plain .read] := h
    exact ⟨_, rfl, (performs_read (holds_cons.mp hcode).1).result fun _ => rfl⟩
  · obtain ⟨v, rfl⟩ := List.length_eq_one_iff.mp hargs
    have hcode : c.routine.Holds place [.plain .len] := h
    exact ⟨_, rfl, performs_len (holds_cons.mp hcode).1⟩
  · have hcode : c.routine.Holds place [.plain (.binary .getc)] := h
    match args, hargs with
    | [index, text], _ => exact ⟨_, rfl, performs_binary (holds_cons.mp hcode).1⟩
  · obtain ⟨v, rfl⟩ := List.length_eq_one_iff.mp hargs
    have hcode : c.routine.Holds place [.plain (.unary .toint)] := h
    exact ⟨_, rfl, performs_unary (holds_cons.mp hcode).1⟩
  · obtain ⟨v, rfl⟩ := List.length_eq_one_iff.mp hargs
    have hcode : c.routine.Holds place [.plain (.unary .todbl)] := h
    exact ⟨_, rfl, performs_unary (holds_cons.mp hcode).1⟩
  · obtain ⟨v, rfl⟩ := List.length_eq_one_iff.mp hargs
    have hcode : c.routine.Holds place [.plain (.unary .tostr)] := h
    exact ⟨_, rfl, performs_unary (holds_cons.mp hcode).1⟩
  · exact absurd rfl hcreate
  · exact absurd rfl hwait

/-- The code of a call does what the call means. -/
theorem performs_call {name : String} {args : List Value} (henv : c.Serves env)
    (hcall : env.program.plainRules.call name args.length = true)
    (h : c.routine.Holds place (callCode name)) :
    c.Performs env.fuel slots place (place + (callCode name).length) args
      ((builtinCall? name args).getD (env.call name args)) fun v => [v] := by
  obtain ⟨⟨harity, hcreate⟩, hwait⟩ : (env.program.arity? name = some args.length ∧
      name ≠ "thread_create") ∧ name ≠ "thread_wait" := by
    simpa [Program.plainRules] using hcall
  rw [Program.arity?] at harity
  cases hname : builtinArity? name with
  | none =>
    rw [hname] at harity
    obtain ⟨f, hf, hlength⟩ := Option.map_eq_some_iff.mp harity
    have hcode : callCode name = [.call name] := by rw [callCode, builtin?_eq_none hname]; rfl
    rw [hcode, holds_cons] at h
    rw [hcode, builtinCall?_eq_none hname]
    exact henv.calls name f args place slots hf hlength.symm h.1
  | some n =>
    rw [hname, Option.some.injEq] at harity
    obtain ⟨x, hx, hperforms⟩ := performs_builtin hname harity.symm hcreate hwait h
    rw [hx]
    exact hperforms

end Scene

/-! ## Expressions -/

namespace Operator

theorem isSwapped_iff (op : Operator) : op.isSwapped = true ↔ op = .gt ∨ op = .ge := by
  cases op <;> decide

theorem binary_operation {op : Operator} (h : op.isSwapped = false) (a b : Value) :
    Value.binary op.operation a b = op.apply a b := by
  cases op <;> first | rfl | cases h

theorem binary_operation_of_isSwapped {op : Operator} (h : op.isSwapped = true) (a b : Value) :
    Value.binary op.operation b a = op.apply a b := by
  cases op <;> first | rfl | cases h

end Operator

/-- The compiler knows the fields of the records of a program. -/
theorem Program.lookup_table (p : Program) (name : String) :
    (p.table []).lookup name = (p.record? name).map RecordDef.fields := by
  have hregister : ∀ defs : List RecordDef, ∀ table : RecordTable,
      table.register defs = (defs.reverse.map fun d => (d.name, d.fields)) ++ table := by
    intro defs
    induction defs with
    | nil => exact fun _ => rfl
    | cons d defs ih =>
      intro table
      rw [List.reverse_cons, List.map_append, List.append_assoc]
      exact ih ((d.name, d.fields) :: table)
  rw [table, hregister, List.append_nil, record?]
  induction p.records.reverse with
  | nil => rfl
  | cons d rest ih =>
    rw [List.map_cons, List.lookup_cons, List.find?_cons]
    by_cases h : d.name = name
    · subst h
      simp
    · rw [beq_eq_false_iff_ne.mpr (Ne.symm h), beq_eq_false_iff_ne.mpr h]
      exact ih

/-- The code between two places does what the term means. -/
def Term.Performed (c : Scene) (env : Env) (scope : Scope) (slots : Array Value)
    (start stop : Nat) : Term → Prop
  | .expr e => c.Performs env.fuel slots start stop [] (env.evalExpr (scope.view slots) e)
      fun v => [v]
  | .args es => c.Performs env.fuel slots start stop [] (env.evalArgs (scope.view slots) es)
      fun vs => vs
  | .fields names es => ∀ o, c.Performs env.fuel slots start stop [.ref o]
      (env.initFields (scope.view slots) o names es) fun _ => [.ref o]
  | .path l => c.Performs env.fuel slots start stop [] (env.evalPath (scope.view slots) l)
      fun v => [v]
  | .steps l => ∀ v, c.Performs env.fuel slots start stop [v]
      (env.evalSteps (scope.view slots) l v) fun v => [v]
  | .index step => ∀ v, c.Performs env.fuel slots start stop [v]
      (env.evalIndex (scope.view slots) step v) fun v => [v]

/-- **The code of an expression does what the expression means.** -/
theorem Term.Code.performs {c : Scene} {env : Env} {scope : Scope} {slots : Array Value}
    {term : Term} {code : List Instr} (henv : c.Serves env) (hfits : c.Fits scope slots)
    (h : Term.Code env.program.plainRules (env.program.table []) scope term code) :
    ∀ start, c.routine.Holds start code →
      term.Performed c env scope slots start (start + code.length) := by
  induction h with
  | @literal token v hv =>
    intro start hcode
    rw [Performed, Env.evalExpr, hv]
    exact Scene.performs_push (holds_cons.mp hcode).1
  | path _ ih =>
    intro start hcode
    rw [Performed, Env.evalExpr]
    exact ih start hcode
  | @call name args code hcall _ ih =>
    intro start hcode
    rw [holds_append] at hcode
    rw [Performed, Env.evalExpr, List.length_append, ← Nat.add_assoc]
    refine (ih start hcode.1).bind_of_yields (env.evalArgs_yields _ args) fun vs hvs => ?_
    exact Scene.performs_call henv (hvs ▸ hcall) hcode.2
  | @newRecord type args fields code hfields hlength _ ih =>
    intro start hcode
    rw [holds_cons] at hcode
    rw [Program.lookup_table] at hfields
    obtain ⟨d, hd, rfl⟩ := Option.map_eq_some_iff.mp hfields
    rw [Performed, Env.evalExpr, hd, List.length_cons, ← Nat.add_assoc, Nat.add_right_comm]
    refine (Scene.performs_allocs hcode.1).bind fun o => ?_
    exact (ih _ hcode.2 o).result fun _ => rfl
  | newArray _ ih =>
    intro start hcode
    rw [holds_append, holds_cons] at hcode
    rw [Performed, Env.evalExpr, List.length_append, ← Nat.add_assoc]
    exact (ih start hcode.1).bind fun n => Scene.performs_alloca hcode.2.1
  | not _ ih =>
    intro start hcode
    rw [holds_append, holds_cons] at hcode
    rw [Performed, Env.evalExpr, List.length_append, ← Nat.add_assoc]
    exact (ih start hcode.1).bind fun v => Scene.performs_unary hcode.2.1
  | @binary op lhs rhs left right hop _ _ ihl ihr =>
    intro start hcode
    rw [holds_append, holds_append, holds_cons, List.length_append, ← Nat.add_assoc] at hcode
    have horder : ¬(op = .gt ∨ op = .ge) := fun h => by
      rw [← op.isSwapped_iff, hop] at h
      cases h
    rw [Performed, Env.evalExpr, if_neg horder, List.length_append, List.length_append,
      ← Nat.add_assoc, ← Nat.add_assoc]
    refine (ihl start hcode.1.1).bind fun a => ?_
    refine ((ihr _ hcode.1.2).frame [a]).bind fun b => ?_
    rw [← Operator.binary_operation hop]
    exact Scene.performs_binary hcode.2.1
  | @swapped op lhs rhs left right hop _ _ ihr ihl =>
    intro start hcode
    rw [holds_append, holds_append, holds_cons, List.length_append, ← Nat.add_assoc] at hcode
    rw [Performed, Env.evalExpr, if_pos (op.isSwapped_iff.mp hop), List.length_append,
      List.length_append, ← Nat.add_assoc, ← Nat.add_assoc]
    refine (ihr start hcode.1.1).bind fun b => ?_
    refine ((ihl _ hcode.1.2).frame [b]).bind fun a => ?_
    rw [← Operator.binary_operation_of_isSwapped hop]
    exact Scene.performs_binary hcode.2.1
  | noArgs => exact fun start _ => Scene.performs_pure rfl
  | args _ _ ihrest ih =>
    intro start hcode
    rw [holds_append] at hcode
    rw [Performed, Env.evalArgs, List.length_append, ← Nat.add_assoc]
    refine (ihrest start hcode.1).bind fun vs => ?_
    exact ((ih _ hcode.2).frame vs).result fun _ => rfl
  | noFields => exact fun start _ o => Scene.performs_pure rfl
  | @fields field fields e rest code later _ _ ih ihrest =>
    intro start hcode o
    rw [List.cons_append, holds_cons, holds_append, holds_cons] at hcode
    obtain ⟨hdup, hcode, hsetf, hlater⟩ := hcode
    have hlength : start + (.plain .dup :: code ++ .setf field :: later).length =
        start + 1 + code.length + 1 + later.length := by
      simp
      omega
    rw [Env.initFields, hlength]
    refine (Scene.performs_dup hdup).silent ?_
    refine ((ih _ hcode).frame [.ref o, .ref o]).bind fun v => ?_
    exact ((Scene.performs_setf hsetf).frame [.ref o]).bind fun _ => ihrest _ hlater o
  | @start step rest slot index later hslot _ _ ih ihrest =>
    intro start hcode
    rw [List.cons_append, holds_cons, holds_append] at hcode
    obtain ⟨hload, hindex, hlater⟩ := hcode
    have hlength : start + (.load slot :: index ++ later).length =
        start + 1 + index.length + later.length := by
      simp
      omega
    rw [Performed, Env.evalPath, hlength]
    refine (Scene.performs_variable hfits hslot hload).bind fun v => ?_
    exact (ih _ hindex v).bind fun v => ihrest _ hlater v
  | noSteps => exact fun start _ v => Scene.performs_pure rfl
  | @steps step rest index later _ _ ih ihrest =>
    intro start hcode v
    rw [List.cons_append, holds_cons, holds_append] at hcode
    obtain ⟨hgetf, hindex, hlater⟩ := hcode
    have hlength : start + (.getf step.name :: index ++ later).length =
        start + 1 + index.length + later.length := by
      simp
      omega
    rw [Env.evalSteps, hlength]
    refine (Scene.performs_getf hgetf).bind fun v => ?_
    exact (ih _ hindex v).bind fun v => ihrest _ hlater v
  | plain => exact fun start _ v => Scene.performs_pure rfl
  | indexed _ ih =>
    intro start hcode v
    rw [holds_append, holds_cons] at hcode
    rw [Env.evalIndex, List.length_append, ← Nat.add_assoc]
    exact ((ih start hcode.1).frame [v]).bind fun n => Scene.performs_geti hcode.2.1

/-! ## Assignment -/

namespace Place

/-- The operands that name the place. -/
def operands : Place → List Value
  | .var _ => []
  | .field r _ => [r]
  | .cell a n => [n, a]

/-- The instruction gives the place the value on top of the stack. -/
inductive SetBy (scope : Scope) : Instr → Place → Prop
  | var {name : String} {slot : Nat} (hslot : scope.resolve? name = some slot) :
      SetBy scope (.store slot) (.var name)
  | field {r : Value} {name : String} : SetBy scope (.setf name) (.field r name)
  | cell {a n : Value} : SetBy scope (.plain .seti) (.cell a n)

end Place

section

variable {c : Scene} {env : Env} {scope : Scope} {slots : Array Value} {steps : List Step}
  {code : List Instr} {last : Instr}

theorem FieldTarget.Code.performs (henv : c.Serves env) (hfits : c.Fits scope slots)
    (h : FieldTarget.Code env.program.plainRules (env.program.table []) scope steps code last) :
    ∀ start, c.routine.Holds start code → ∀ v,
      c.Performs env.fuel slots start (start + code.length) [v]
        (env.evalFieldTarget (scope.view slots) steps v) Place.operands := by
  induction h with
  | field => exact fun start _ v => Scene.performs_pure rfl
  | @cell field index code h =>
    intro start hcode v
    rw [holds_cons] at hcode
    rw [Env.evalFieldTarget, List.length_cons, ← Nat.add_assoc, Nat.add_right_comm]
    refine (Scene.performs_getf hcode.1).bind fun a => ?_
    exact ((h.performs henv hfits _ hcode.2).frame [a]).result fun _ => rfl
  | @step step next rest index code last h _ ih =>
    intro start hcode v
    rw [List.cons_append, holds_cons, holds_append] at hcode
    obtain ⟨hgetf, hindex, hlater⟩ := hcode
    have hlength : start + (.getf step.name :: index ++ code).length =
        start + 1 + index.length + code.length := by
      simp
      omega
    rw [Env.evalFieldTarget, hlength]
    · refine (Scene.performs_getf hgetf).bind fun v => ?_
      exact (h.performs henv hfits _ hindex v).bind fun v => ih _ hlater v
    all_goals simp

theorem FieldTarget.Code.yields
    (h : FieldTarget.Code env.program.plainRules (env.program.table []) scope steps code last)
    (vars : Vars) : ∀ v, (env.evalFieldTarget vars steps v).Yields (Place.SetBy scope last) := by
  induction h with
  | field => exact fun v => Eval.yields_pure .field
  | cell _ =>
    intro v
    rw [Env.evalFieldTarget]
    exact Eval.yields_bind fun a => Eval.yields_bind fun n => Eval.yields_pure .cell
  | step _ _ ih =>
    intro v
    rw [Env.evalFieldTarget]
    · exact Eval.yields_bind fun v => Eval.yields_bind fun v => ih v
    all_goals simp

/-- The code before the value of an assignment leaves the operands of the place. -/
theorem Target.Code.performs (henv : c.Serves env) (hfits : c.Fits scope slots)
    (h : Target.Code env.program.plainRules (env.program.table []) scope steps code last)
    (start : Nat) (hcode : c.routine.Holds start code) :
    c.Performs env.fuel slots start (start + code.length) []
      (env.evalTarget (scope.view slots) steps) Place.operands := by
  cases h with
  | slot _ => exact Scene.performs_pure rfl
  | cell hslot h =>
    rw [holds_cons] at hcode
    rw [Env.evalTarget, List.length_cons, ← Nat.add_assoc, Nat.add_right_comm]
    refine (Scene.performs_variable hfits hslot hcode.1).bind fun a => ?_
    exact ((h.performs henv hfits _ hcode.2).frame [a]).result fun _ => rfl
  | @step step next rest slot index code _ hslot h hrest =>
    rw [List.cons_append, holds_cons, holds_append] at hcode
    obtain ⟨hload, hindex, hlater⟩ := hcode
    have hlength : start + (.load slot :: index ++ code).length =
        start + 1 + index.length + code.length := by
      simp
      omega
    rw [Env.evalTarget, hlength]
    · refine (Scene.performs_variable hfits hslot hload).bind fun v => ?_
      refine (h.performs henv hfits _ hindex v).bind fun v => ?_
      exact hrest.performs henv hfits _ hlater v
    all_goals simp

/-- The instruction after the value of an assignment is for the place. -/
theorem Target.Code.yields
    (h : Target.Code env.program.plainRules (env.program.table []) scope steps code last)
    (vars : Vars) : (env.evalTarget vars steps).Yields (Place.SetBy scope last) := by
  cases h with
  | slot hslot => exact Eval.yields_pure (.var hslot)
  | cell _ _ =>
    rw [Env.evalTarget]
    exact Eval.yields_bind fun a => Eval.yields_bind fun n => Eval.yields_pure .cell
  | step _ _ hrest =>
    rw [Env.evalTarget]
    · exact Eval.yields_bind fun v => Eval.yields_bind fun v => hrest.yields vars v
    all_goals simp

end

end Opstack
