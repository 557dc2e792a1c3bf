import Opstack.Proofs.Machine.Expressions

/-!
# Statements on the machine

The code of a statement does what the statement means: it goes on behind its code with the
variables of the meaning in its slots, or it leaves the activation with the value that the meaning
returns (`Clause.Code.executes`).

Two facts about scopes carry this.  No two variables in scope share a slot (`Scope.Ordered`), so a
`STORE` changes one variable; and the slot of a new variable is the number of declarations before
it (`Clause.Code.slotCount_eq`), so the machine runs out of slots where the meaning runs out of
room.
-/

set_option autoImplicit false

namespace Opstack

/-! ## Slots of variables -/

/-- No two variables in scope share a slot, and the next slot to be handed out is free. -/
structure Scope.Ordered (s : Scope) : Prop where
  /-- Later variables have higher slots. -/
  pairwise : s.locals.Pairwise fun l l' => l'.slot < l.slot
  /-- The slots have been handed out. -/
  lt : ∀ l ∈ s.locals, l.slot < s.slotCount

namespace Scope

variable {s inner : Scope} {name : String}

theorem Ordered.enter (h : s.Ordered) : s.enter.Ordered := ⟨h.pairwise, h.lt⟩

theorem Ordered.extend (h : s.Ordered) (name : String) : (s.extend name).Ordered where
  pairwise := List.pairwise_cons.mpr ⟨h.lt, h.pairwise⟩
  lt := List.forall_mem_cons.mpr
    ⟨Nat.lt_succ_self _, fun l hl => Nat.lt_succ_of_lt (h.lt l hl)⟩

theorem Ordered.after (h : s.Ordered) (hle : s.slotCount ≤ inner.slotCount) :
    (s.after inner).Ordered :=
  ⟨h.pairwise, fun l hl => Nat.lt_of_lt_of_le (h.lt l hl) hle⟩

end Scope

theorem Clause.Code.ordered {rules : Rules} {table : RecordTable} {start : Nat}
    {scope scope' : Scope} {clause : Clause} {code : List Instr} {marks : List Nat}
    (h : Clause.Code rules table start scope clause code scope' marks) (hs : scope.Ordered) :
    scope'.Ordered := by
  induction h with
  | ret _ | assign _ _ | call _ _ | nil | noNext | noElse => exact hs
  | declare _ | declareNull => exact hs.extend _
  | whileLoop _ hb _ => exact hs.after hb.extends.slotCount
  | forLoop _ _ hb _ => exact hs.after (Nat.le_trans (Nat.le_succ _) hb.extends.slotCount)
  | branch _ ih | next _ ih => exact ih hs
  | cons _ _ ih ih' => exact ih' (ih hs)
  | arm _ _ hb _ _ _ ihn ihe => exact ihe (ihn (hs.after hb.extends.slotCount))
  | orElse hb _ => exact hs.after hb.extends.slotCount

/-- How many variables a clause declares. -/
def Clause.variables : Clause → Nat
  | .stmt s => s.variables
  | .stmts l => Stmt.allVariables l
  | .branch b => b.variables
  | .next b => Branch.nextVariables b
  | .orElse body => Stmt.elseVariables body

/-- The slot of the next variable is the number of declarations before it. -/
theorem Clause.Code.slotCount_eq {rules : Rules} {table : RecordTable} {start : Nat}
    {scope scope' : Scope} {clause : Clause} {code : List Instr} {marks : List Nat}
    (h : Clause.Code rules table start scope clause code scope' marks) :
    scope'.slotCount = scope.slotCount + clause.variables := by
  induction h with
  | ret _ | assign _ _ | call _ _ | nil | noNext | noElse | declare _ | declareNull => rfl
  | whileLoop _ _ ih | branch _ ih | next _ ih | orElse _ ih => exact ih
  | @forLoop _ scope _ _ _ _ body _ _ _ _ _ _ _ ih =>
    change _ = scope.slotCount + (1 + Stmt.allVariables body)
    rw [Scope.slotCount_after, ih, ← Nat.add_assoc]
    rfl
  | @cons _ scope _ _ s rest _ _ _ _ _ _ ih ih' =>
    change _ = scope.slotCount + (s.variables + Stmt.allVariables rest)
    rw [ih', ih, ← Nat.add_assoc]
    rfl
  | @arm _ scope _ _ _ _ body next orElse _ _ _ _ _ _ _ _ _ _ _ _ ihb ihn ihe =>
    change _ = scope.slotCount +
      (Stmt.allVariables body + Branch.nextVariables next + Stmt.elseVariables orElse)
    rw [ihe, ihn, Scope.slotCount_after, ihb, ← Nat.add_assoc, ← Nat.add_assoc]
    rfl

/-! ### Views -/

theorem size_le_storeSlot (slots : Array Value) (slot : Nat) (v : Value) :
    slots.size ≤ (storeSlot slots slot v).size ∧ slot < (storeSlot slots slot v).size := by
  rw [size_storeSlot]
  omega

section

variable {c : Scene} {scope inner : Scope} {slots : Array Value} {slot : Nat} {name : String}
  {v : Value}

/-- A `STORE` takes nothing from the variables in scope. -/
theorem Scene.Fits.storeSlot (h : c.Fits scope slots) (slot : Nat) (v : Value) :
    c.Fits scope (storeSlot slots slot v) := fun l hl =>
  ⟨Nat.lt_of_lt_of_le (h l hl).1 (size_le_storeSlot slots slot v).1, (h l hl).2⟩

/-- A `STORE` to the slot of a new variable gives the variable its place. -/
theorem Scene.Fits.extend (h : c.Fits scope slots) (hroom : c.Room scope.slotCount)
    (name : String) (v : Value) :
    c.Fits (scope.extend name) (Opstack.storeSlot slots scope.slotCount v) :=
  List.forall_mem_cons.mpr ⟨⟨(size_le_storeSlot slots _ v).2, hroom⟩, h.storeSlot _ v⟩

/-- A `STORE` to a slot changes no variable of another slot. -/
theorem map_view_storeSlot {locals : List Local}
    (h : ∀ l ∈ locals, l.slot < slots.size ∧ l.slot ≠ slot) :
    locals.map (Local.view (storeSlot slots slot v)) = locals.map (Local.view slots) := by
  refine List.map_congr_left fun l hl => ?_
  have hv := Array.getElem?_eq_getElem (h l hl).1
  rw [Local.view, Local.view, getElem?_storeSlot_of_ne hv (h l hl).2, hv]

theorem view_extend (hs : scope.Ordered) (h : c.Fits scope slots) (name : String) (v : Value) :
    (scope.extend name).view (storeSlot slots scope.slotCount v) =
      (name, v) :: scope.view slots := by
  rw [Scope.view, Scope.locals_extend, List.map_cons, Local.view, getElem?_storeSlot_self,
    map_view_storeSlot fun l hl => ⟨(h l hl).1, Nat.ne_of_lt (hs.lt l hl)⟩]
  rfl

/-- A `STORE` to the slot of a variable in scope gives this variable its value. -/
theorem view_write (hs : scope.Ordered) (h : c.Fits scope slots)
    (hslot : scope.resolve? name = some slot) (v : Value) :
    scope.view (storeSlot slots slot v) = (scope.view slots).write name v := by
  have hsize : ∀ l ∈ scope.locals, l.slot < slots.size := fun l hl => (h l hl).1
  have hpairwise := hs.pairwise
  rw [Scope.resolve?] at hslot
  rw [Scope.view, Scope.view]
  generalize scope.locals = locals at hsize hpairwise hslot
  induction locals with
  | nil => cases hslot
  | cons l rest ih =>
    rw [List.forall_mem_cons] at hsize
    rw [List.pairwise_cons] at hpairwise
    rw [List.find?_cons] at hslot
    rw [List.map_cons, List.map_cons, Local.view, Local.view, Vars.write]
    by_cases hname : l.name = name
    · rw [beq_iff_eq.mpr hname, Option.map_some, Option.some.injEq] at hslot
      subst hslot
      rw [if_pos hname, getElem?_storeSlot_self, map_view_storeSlot fun l' hl' =>
        ⟨hsize.2 l' hl', Nat.ne_of_lt (hpairwise.1 l' hl')⟩]
      rfl
    · rw [beq_eq_false_iff_ne.mpr hname] at hslot
      obtain ⟨l', hl', rfl⟩ := Option.map_eq_some_iff.mp hslot
      have hlt := hpairwise.1 l' (List.mem_of_find?_eq_some hl')
      have hv := Array.getElem?_eq_getElem hsize.1
      rw [if_neg hname, ih hsize.2 hpairwise.2 hslot,
        getElem?_storeSlot_of_ne hv (Nat.ne_of_gt hlt), hv]

/-- Behind a block the variables are those before it. -/
theorem leave_view (h : scope.Extends inner) (slots : Array Value) :
    (Flow.next (inner.view slots)).leave scope.locals.length = .next (scope.view slots) := by
  obtain ⟨new, hnew, -⟩ := h.locals
  rw [Flow.leave, Scope.view, Scope.view, hnew]
  simp

end

/-! ## Places in statements -/

section

variable {r : Routine} {start : Nat}

/-- Where the parts of a `while` stand. -/
theorem holds_whileLoop {test code : List Instr} {stop back : Nat} :
    r.Holds start (test ++ .jmpf stop :: code ++ [.jmp back]) ↔
      r.Holds start test ∧ r.get? (start + test.length) = some (.jmpf stop) ∧
        r.Holds (start + test.length + 1) code ∧
        r.get? (start + test.length + 1 + code.length) = some (.jmp back) := by
  simp only [holds_append, holds_cons, holds_nil, and_true, List.length_append, List.length_cons,
    and_assoc]
  rw [show start + (test.length + (code.length + 1)) = start + test.length + 1 + code.length
    by omega]

/-- Where the parts of a counted loop stand, counted from its comparison. -/
theorem holds_forLoop {init bound code count : List Instr} {slot stop back test : Nat}
    (htest : start + init.length + 1 + 1 + bound.length = test) :
    r.Holds start (init ++ .store slot :: (.load slot :: bound ++ [.plain (.binary .cmple)]) ++
        .jmpf stop :: code ++ count ++ [.jmp back]) ↔
      r.Holds start init ∧ r.get? (start + init.length) = some (.store slot) ∧
        r.get? (start + init.length + 1) = some (.load slot) ∧
        r.Holds (start + init.length + 1 + 1) bound ∧
        r.get? test = some (.plain (.binary .cmple)) ∧ r.get? (test + 1) = some (.jmpf stop) ∧
        r.Holds (test + 2) code ∧ r.Holds (test + 2 + code.length) count ∧
        r.get? (test + 2 + code.length + count.length) = some (.jmp back) := by
  simp only [holds_append, holds_cons, holds_nil, and_true, List.length_append, List.length_cons,
    List.length_nil, and_assoc]
  rw [show start + init.length + 1 + (bound.length + 1) = test by omega,
    show start + (init.length + (bound.length + 1 + (0 + 1) + 1)) = test + 1 by omega,
    show start + (init.length + (bound.length + 1 + (0 + 1) + 1) + (code.length + 1)) =
      test + 2 + code.length by omega,
    show start + (init.length + (bound.length + 1 + (0 + 1) + 1) + (code.length + 1) +
      count.length) = test + 2 + code.length + count.length by omega]

/-- Where the parts of an `if` stand. -/
theorem holds_arm {test code next orElse : List Instr} {other stop : Nat} :
    r.Holds start (test ++ .jmpf other :: code ++ .jmp stop :: next ++ orElse) ↔
      r.Holds start test ∧ r.get? (start + test.length) = some (.jmpf other) ∧
        r.Holds (start + test.length + 1) code ∧
        r.get? (start + test.length + 1 + code.length) = some (.jmp stop) ∧
        r.Holds (start + test.length + 1 + code.length + 1) next ∧
        r.Holds (start + test.length + 1 + code.length + 1 + next.length) orElse := by
  simp only [holds_append, holds_cons, List.length_append, List.length_cons, and_assoc]
  rw [show start + (test.length + (code.length + 1)) = start + test.length + 1 + code.length
      by omega,
    show start + (test.length + (code.length + 1) + (next.length + 1)) =
      start + test.length + 1 + code.length + 1 + next.length by omega]

end

/-! ## Statements -/

namespace Scene

variable (c : Scene)

/-- Where the activation stands when a statement has ended in a way: behind its code with the
variables in scope there, or back in its caller with the value. -/
inductive Arrives (scope : Scope) (stop : Nat) : Flow → World → Point → Prop
  | next {w : World} {slots : Array Value} (hfits : c.Fits scope slots) :
      Arrives scope stop (.next (scope.view slots)) w (c.point w stop slots c.below)
  | returned {w : World} {v : Value} : Arrives scope stop (.returned v) w (c.exit w v)

/-- The code between two places does what a statement means. -/
def Executes (k : Nat) (slots : Array Value) (start stop : Nat) (scope : Scope)
    (x : Eval Flow) : Prop :=
  ∀ w, (c.point w start slots c.below).Meets c.base k x w (c.Arrives scope stop)

/-- Where the activation stands when a round of a loop has ended: at the jump back, or where the
loop has ended. -/
inductive Circles (scope : Scope) (back stop : Nat) : Vars ⊕ Flow → World → Point → Prop
  | again {w : World} {slots : Array Value} (hfits : c.Fits scope slots) :
      Circles scope back stop (.inl (scope.view slots)) w (c.point w back slots c.below)
  | ends {flow : Flow} {w : World} {q : Point} (h : c.Arrives scope stop flow w q) :
      Circles scope back stop (.inr flow) w q

section

variable {c} {k j start stop place back : Nat} {slots : Array Value} {scope scope' inner : Scope}
  {x : Eval Flow}

/-- Of a scope only the variables that can be seen matter. -/
theorem Executes.congr (h : c.Executes k slots start stop scope x)
    (hlocals : scope'.locals = scope.locals) : c.Executes k slots start stop scope' x := by
  refine fun w => (h w).before fun flow w' q hq => ⟨0, q, .refl q, ?_⟩
  cases hq with
  | @next _ slots' hfits =>
    have hview : scope.view slots' = scope'.view slots' := by rw [Scope.view, Scope.view, hlocals]
    have hfits' : c.Fits scope' slots' := by rwa [Fits, hlocals]
    rw [hview]
    exact .next hfits'
  | returned => exact .returned

/-- A jump behind a statement leads to where it ends. -/
theorem Executes.jump (h : c.Executes k slots start place scope x)
    (hjmp : c.routine.get? place = some (.jmp stop)) : c.Executes k slots start stop scope x := by
  refine fun w => (h w).before fun flow w' q hq => ?_
  cases hq with
  | next hfits => exact ⟨1, _, leads_jmp hjmp, .next hfits⟩
  | returned => exact ⟨0, _, .refl _, .returned⟩

theorem length_view (scope : Scope) (slots : Array Value) :
    (scope.view slots).length = scope.locals.length :=
  List.length_map ..

/-- At the end of a block its variables go. -/
theorem Executes.leave (h : c.Executes k slots start stop inner x) (hs : scope.Extends inner)
    (slots₀ : Array Value) : c.Executes k slots start stop scope
      (do return (← x).leave (scope.view slots₀).length) := by
  refine fun w => (h w).bind fun flow w' q hq => Point.meets_pure ?_
  rw [length_view]
  cases hq with
  | next hfits =>
    obtain ⟨new, hnew, -⟩ := hs.locals
    rw [leave_view hs]
    exact .next fun l hl => hfits l (hnew ▸ List.mem_append_right new hl)
  | returned => exact .returned

/-- **A loop does what its rounds mean**, if each round ends at the jump back to where it began. -/
theorem executes_rounds {round : Vars → Eval (Vars ⊕ Flow)}
    (hjmp : c.routine.get? back = some (.jmp start))
    (h : ∀ slots, c.Fits scope slots → ∀ w, (c.point w start slots c.below).Meets c.base k
      (round (scope.view slots)) w (c.Circles scope back stop)) (hj : j ≤ k)
    (hfits : c.Fits scope slots) :
    c.Executes j slots start stop scope (Eval.rounds round j (scope.view slots)) := by
  induction j generalizing slots with
  | zero => exact fun w => .leads (.refl _)
  | succ j ih =>
    intro w
    rw [Eval.rounds]
    refine ((h slots hfits w).mono hj).bind fun r w' q hq => ?_
    cases hq with
    | again hfits' =>
      have hmeets := (ih (Nat.le_of_succ_le hj) hfits' w').after (leads_jmp hjmp)
      rwa [Nat.add_comm] at hmeets
    | ends hq => exact Point.meets_pure hq

/-- A statement goes on with what an expression has computed. -/
theorem Performs.executes {α : Type} {x : Eval α} {f : α → Eval Flow} {left : α → List Value}
    {mid : Nat} (h : c.Performs k slots start mid [] x left)
    (hf : ∀ a w, (c.point w mid slots (left a ++ c.below)).Meets c.base k (f a) w
      (c.Arrives scope stop)) : c.Executes k slots start stop scope (x >>= f) := fun w =>
  (h w c.below).bind fun a w' _ hq => hq ▸ hf a w'

/-! ### One kind of statement at a time -/

variable {env : Env} {name : String} {e : Expr} {n : Nat} {vars : Vars}

theorem executes_ret (h : c.Performs k slots start place [] (env.evalExpr vars e) fun v => [v])
    (hret : c.routine.get? place = some (.plain .ret)) :
    c.Executes k slots start stop scope (env.execStmt (.ret e) n vars) := by
  rw [Env.execStmt]
  exact h.executes fun v w => (leads_ret hret).meets (Point.meets_pure .returned)

theorem executes_declare {type : Option TypeName} {init : Option Expr} (henv : c.Serves env)
    (hs : scope.Ordered) (hfits : c.Fits scope slots)
    (h : c.Performs k slots start place [] (env.evalInit (scope.view slots) init) fun v => [v])
    (hstore : c.routine.get? place = some (.store scope.slotCount)) :
    c.Executes k slots start (place + 1) (scope.extend name)
      (env.execStmt (.declare name type init) scope.slotCount (scope.view slots)) := by
  rw [Env.execStmt]
  refine h.executes fun v w => (meets_reserve henv.config hstore).bind fun _ w' q hq => ?_
  obtain ⟨hroom, rfl⟩ := hq
  rw [← view_extend hs hfits]
  exact Point.meets_pure (.next (hfits.extend hroom name v))

theorem executes_call {args : List Expr} (hfits : c.Fits scope slots)
    (h : c.Performs k slots start place [] (env.evalExpr (scope.view slots) (.call name args))
      fun v => [v]) (hpop : c.routine.get? place = some dropResult) :
    c.Executes k slots start (place + 1) scope
      (env.execStmt (.call name args) n (scope.view slots)) := by
  rw [Env.execStmt]
  refine h.executes fun v w => ?_
  have hdrop : c.Performs k slots place (place + 1) [v] (pure () : Eval Unit) fun _ => [] :=
    performs_pop hpop
  obtain ⟨m, hm⟩ := hdrop.leads w c.below
  exact hm.meets (Point.meets_pure (.next hfits))

/-- A value is assigned by the instruction that belongs to its place. -/
theorem meets_assign {last : Instr} {target : Place} {v : Value} {w : World} (hs : scope.Ordered)
    (hfits : c.Fits scope slots) (htarget : target.SetBy scope last)
    (hlast : c.routine.get? place = some last) :
    (c.point w place slots (v :: target.operands ++ c.below)).Meets c.base k
      (do return .next (← Env.assign (scope.view slots) v target)) w
      (c.Arrives scope (place + 1)) := by
  cases htarget with
  | var hslot =>
    obtain ⟨l, hl, rfl⟩ := Scope.exists_of_resolve? hslot
    rw [Env.assign, pure_bind, ← view_write hs hfits hslot]
    exact (leads_store hlast (hfits l hl).2).meets
      (Point.meets_pure (.next (hfits.storeSlot l.slot v)))
  | field =>
    rw [Env.assign, bind_assoc]
    exact (performs_setf hlast w c.below).bind fun _ w' q hq =>
      hq ▸ Point.meets_pure (.next hfits)
  | cell =>
    rw [Env.assign, bind_assoc]
    exact (performs_seti hlast w c.below).bind fun _ w' q hq =>
      hq ▸ Point.meets_pure (.next hfits)

theorem executes_block {body : List Stmt}
    (h : c.Executes k slots start stop inner (env.execStmts body n (scope.view slots)))
    (hs : scope.enter.Extends inner) :
    c.Executes k slots start stop scope
      (Env.enclosed (env.execStmts body n) (scope.view slots)) := by
  rw [Env.enclosed]
  exact (h.leave hs slots).congr rfl

/-- A round of a `while` ends at the jump back or behind the loop. -/
theorem meets_whileRound {cond : Expr} {block : Vars → Eval Flow} {test : Nat}
    (hfits : c.Fits scope slots)
    (ht : c.Performs k slots start test [] (env.evalExpr (scope.view slots) cond) fun v => [v])
    (hexit : c.routine.get? test = some (.jmpf stop))
    (hb : c.Executes k slots (test + 1) back scope (block (scope.view slots))) (w : World) :
    (c.point w start slots c.below).Meets c.base k
      (env.whileRound cond block (scope.view slots)) w (c.Circles scope back stop) := by
  rw [Env.whileRound]
  refine (ht w c.below).bind fun v w₁ q hq => ?_
  subst hq
  refine (meets_jmpf hexit).bind fun b w₂ q hq => ?_
  subst hq
  cases b with
  | false => exact Point.meets_pure (.ends (.next hfits))
  | true =>
    refine (hb w₂).bind fun flow w₃ q hq => ?_
    cases hq with
    | next hfits' => exact Point.meets_pure (.again hfits')
    | returned => exact Point.meets_pure (.ends .returned)

theorem executes_while {cond : Expr} {body : List Stmt} {test : Nat} (hfits : c.Fits scope slots)
    (ht : ∀ slots, c.Fits scope slots → c.Performs env.fuel slots start test []
      (env.evalExpr (scope.view slots) cond) fun v => [v])
    (hexit : c.routine.get? test = some (.jmpf stop))
    (hb : ∀ slots, c.Fits scope slots → c.Executes env.fuel slots (test + 1) back scope
      (Env.enclosed (env.execStmts body n) (scope.view slots)))
    (hjmp : c.routine.get? back = some (.jmp start)) :
    c.Executes env.fuel slots start stop scope
      (env.execStmt (.whileLoop cond body) n (scope.view slots)) := by
  rw [Env.execStmt]
  exact executes_rounds hjmp (fun slots hfits w =>
    meets_whileRound hfits (ht slots hfits) hexit (hb slots hfits) w) (Nat.le_refl _) hfits

/-- The end of a round of a counted loop adds one to its variable. -/
theorem meets_count {slot : Nat} {w : World} (hs : scope.Ordered) (hfits : c.Fits scope slots)
    (hslot : scope.resolve? name = some slot)
    (hcode : c.routine.Holds place (countingCode name slot)) :
    (c.point w place slots c.below).Meets c.base k (do
      let i ← (scope.view slots).read name
      let i ← Eval.lift (i.add (.int 1))
      return .inl ((scope.view slots).write name i)) w (c.Circles scope (place + 4) stop) := by
  obtain ⟨hload, hpush, hadd, hstore, -⟩ : c.routine.get? place = some (.load slot) ∧
      c.routine.get? (place + 1) = some (.push (.int 1)) ∧
      c.routine.get? (place + 2) = some (.plain (.binary .add)) ∧
      c.routine.get? (place + 3) = some ((Instr.store slot).withComment (name ++ " += 1")) ∧
      True := by simpa [countingCode] using hcode
  obtain ⟨l, hl, rfl⟩ := Scope.exists_of_resolve? hslot
  refine (performs_variable hfits hslot hload w c.below).bind fun i w₁ q hq => ?_
  subst hq
  have hone : c.Performs k slots (place + 1) (place + 2) [] (pure (.int 1) : Eval Value)
    fun v => [v] := performs_push hpush
  refine (((hone.frame [i]).silent (performs_binary hadd)) w₁ c.below).bind fun v w₂ q hq => ?_
  subst hq
  rw [← view_write hs hfits hslot]
  exact (leads_store hstore (hfits l hl).2).meets
    (Point.meets_pure (.again (hfits.storeSlot l.slot v)))

/-- A round of a counted loop ends at the jump back or behind the loop. -/
theorem meets_forRound {last : Expr} {block : Vars → Eval Flow} {slot test : Nat}
    (hs : scope.Ordered) (hfits : c.Fits scope slots) (hslot : scope.resolve? name = some slot)
    (hload : c.routine.get? start = some (.load slot))
    (hl : c.Performs k slots (start + 1) test [] (env.evalExpr (scope.view slots) last)
      fun v => [v])
    (htest : c.routine.get? test = some (.plain (.binary .cmple)))
    (hexit : c.routine.get? (test + 1) = some (.jmpf stop))
    (hb : c.Executes k slots (test + 2) place scope (block (scope.view slots)))
    (hcount : c.routine.Holds place (countingCode name slot)) (w : World) :
    (c.point w start slots c.below).Meets c.base k
      (env.forRound name last block (scope.view slots)) w (c.Circles scope (place + 4) stop) := by
  rw [Env.forRound]
  refine (performs_variable hfits hslot hload w c.below).bind fun i w₁ q hq => ?_
  subst hq
  refine (hl.frame [i] w₁ c.below).bind fun bound w₂ q hq => ?_
  subst hq
  refine (performs_binary_map htest rfl w₂ c.below).bind fun b w₃ q hq => ?_
  subst hq
  refine (leads_jmpf hexit b).meets ?_
  cases b with
  | false => exact Point.meets_pure (.ends (.next hfits))
  | true =>
    refine (hb w₃).bind fun flow w₄ q hq => ?_
    cases hq with
    | next hfits' => exact meets_count hs hfits' hslot hcount
    | returned => exact Point.meets_pure (.ends .returned)

theorem executes_for {first last : Expr} {body : List Stmt} {init : Nat}
    (henv : c.Serves env) (hs : scope.Ordered) (hfits : c.Fits scope slots)
    (hi : c.Performs env.fuel slots start init [] (env.evalExpr (scope.view slots) first)
      fun v => [v])
    (hstore : c.routine.get? init = some (.store scope.slotCount))
    (hround : ∀ slots, c.Fits (scope.enter.extend name) slots → ∀ w,
      (c.point w (init + 1) slots c.below).Meets c.base env.fuel
        (env.forRound name last (Env.enclosed (env.execStmts body (scope.slotCount + 1)))
          ((scope.enter.extend name).view slots)) w
        (c.Circles (scope.enter.extend name) back stop))
    (hjmp : c.routine.get? back = some (.jmp (init + 1))) :
    c.Executes env.fuel slots start stop scope
      (env.execStmt (.forLoop name first last body) scope.slotCount (scope.view slots)) := by
  rw [Env.execStmt]
  refine hi.executes fun v w => (meets_reserve henv.config hstore).bind fun _ w₁ q hq => ?_
  obtain ⟨hroom, rfl⟩ := hq
  have hfits' : c.Fits scope.enter slots := hfits
  have hloop := executes_rounds hjmp hround (Nat.le_refl _) (hfits'.extend hroom name v)
  rw [show (name, v) :: scope.view slots = _ from (view_extend hs.enter hfits' name v).symm]
  have hleave := hloop.leave (Scope.extends_extend scope.enter name) slots
  refine hleave.congr ?_ w₁
  rfl

/-- A choice between the block of an `if` and what follows it. -/
theorem executes_choice {cond : Expr} {block rest : Eval Flow} {test other : Nat}
    (ht : c.Performs k slots start test [] (env.evalExpr vars cond) fun v => [v])
    (hexit : c.routine.get? test = some (.jmpf other))
    (hb : c.Executes k slots (test + 1) back scope block)
    (hjmp : c.routine.get? back = some (.jmp stop))
    (hr : c.Executes k slots other stop scope rest) :
    c.Executes k slots start stop scope (do
      let v ← env.evalExpr vars cond
      let b ← Eval.lift v.condition
      if b then block else rest) := by
  refine ht.executes fun v w => (meets_jmpf hexit).bind fun b w₁ q hq => ?_
  subst hq
  cases b with
  | true => exact hb.jump hjmp w₁
  | false => exact hr w₁

end

end Scene

/-- What a clause means. -/
def Env.exec (env : Env) : Clause → Nat → Vars → Eval Flow
  | .stmt s => env.execStmt s
  | .stmts l => env.execStmts l
  | .branch b => env.execBranch b
  | .next none => fun _ vars => return .next vars
  | .next (some b) => env.execBranch b
  | .orElse body => env.execElse body

section

variable {c : Scene} {env : Env}

/-- **The code of a statement does what the statement means.** -/
theorem Clause.Code.executes {start : Nat} {scope scope' : Scope} {clause : Clause}
    {code : List Instr} {marks : List Nat} {slots : Array Value} (henv : c.Serves env)
    (h : Clause.Code env.program.plainRules (env.program.table []) start scope clause code scope'
      marks) (hs : scope.Ordered) (hfits : c.Fits scope slots)
    (hcode : c.routine.Holds start code) :
    c.Executes env.fuel slots start (start + code.length) scope'
      (env.exec clause scope.slotCount (scope.view slots)) := by
  induction h generalizing slots with
  | ret h =>
    rw [holds_append, holds_cons] at hcode
    rw [Env.exec]
    exact Scene.executes_ret (h.performs henv hfits _ hcode.1) hcode.2.1
  | declare h =>
    rw [holds_append, holds_cons] at hcode
    rw [Env.exec, List.length_append, ← Nat.add_assoc]
    exact Scene.executes_declare henv hs hfits (h.performs henv hfits _ hcode.1) hcode.2.1
  | declareNull =>
    rw [holds_append, holds_cons, holds_cons] at hcode
    rw [Env.exec]
    exact Scene.executes_declare henv hs hfits (Scene.performs_push hcode.1.1) hcode.2.1
  | @assign start scope target e before code last ht h =>
    rw [holds_append, holds_append, holds_cons, List.length_append, ← Nat.add_assoc] at hcode
    rw [List.length_append, List.length_append, ← Nat.add_assoc, ← Nat.add_assoc]
    intro w
    change Point.Meets _ _ _ (env.execStmt _ _ _) _ _
    rw [Env.execStmt]
    refine ((ht.performs henv hfits _ hcode.1.1 w c.below).and (ht.yields _)).bind
      fun place w₁ q hq => ?_
    obtain ⟨rfl, hset⟩ := hq
    refine ((h.performs henv hfits _ hcode.1.2).frame place.operands w₁ c.below).bind
      fun v w₂ q hq => ?_
    subst hq
    exact Scene.meets_assign hs hfits hset hcode.2.1
  | @whileLoop start scope inner cond body test code _ ht hb ih =>
    obtain ⟨htest, hexit, hbody, hjmp⟩ := holds_whileLoop.mp hcode
    simp only [Env.exec, List.length_append, List.length_cons, List.length_nil]
    rw [show start + (test.length + (code.length + 1) + (0 + 1)) =
      start + test.length + 1 + code.length + 1 by omega]
    refine (Scene.executes_while hfits (fun slots hfits => ht.performs henv hfits _ htest) hexit
      (fun slots hfits => ?_) hjmp).congr rfl
    exact Scene.executes_block (ih hs.enter hfits hbody) hb.extends
  | @forLoop start scope inner name first last body init bound code _ hi hl hb ih =>
    -- Every place of the loop is counted from its comparison.
    obtain ⟨test, hplace⟩ : ∃ test, start + init.length + 1 + 1 + bound.length = test := ⟨_, rfl⟩
    obtain ⟨hinit, hstore, hload, hbound, htest, hexit, hbody, hcount, hjmp⟩ :=
      (holds_forLoop hplace).mp hcode
    rw [show start + init.length + 1 + (bound.length + 2) + 1 = test + 2 by omega] at hexit ih
    rw [length_countingCode] at hjmp
    have hfits' : c.Fits scope.enter slots := hfits
    have hs' := hs.enter.extend name
    have hslot : (scope.enter.extend name).resolve? name = some scope.slotCount := by
      simp [Scope.resolve?, Scope.extend, Scope.enter]
    simp only [Env.exec, List.length_append, List.length_cons, List.length_nil,
      length_countingCode]
    rw [show start + (init.length + (bound.length + 1 + (0 + 1) + 1) + (code.length + 1) + 4 +
      (0 + 1)) = test + 2 + code.length + 4 + 1 by omega]
    refine (Scene.executes_for henv hs hfits (hi.performs henv hfits' _ hinit) hstore
      (fun slots hfits w => ?_) hjmp).congr rfl
    have hlast := hl.performs henv hfits _ hbound
    rw [hplace] at hlast
    exact Scene.meets_forRound hs' hfits hslot hload hlast htest hexit
      (Scene.executes_block (ih hs'.enter hfits hbody) hb.extends) hcount w
  | branch h ih =>
    rw [Env.exec, Env.execStmt]
    exact ih hs hfits hcode
  | @call start scope name args code hcall h =>
    have hexpr := Term.Code.call hcall h
    rw [holds_append, holds_cons] at hcode
    rw [Env.exec, List.length_append, ← Nat.add_assoc]
    exact Scene.executes_call hfits (hexpr.performs henv hfits _ hcode.1) hcode.2.1
  | nil =>
    rw [Env.exec, Env.execStmts]
    exact fun w => Point.meets_pure (.next hfits)
  | @cons start scope mid scope' s rest code later _ _ h hrest ih ih' =>
    rw [holds_append] at hcode
    rw [Env.exec, Env.execStmts, List.length_append, ← Nat.add_assoc]
    refine fun w => (ih hs hfits hcode.1 w).bind fun flow w' q hq => ?_
    cases hq with
    | next hfits' =>
      have hmeets := ih' (h.ordered hs) hfits' hcode.2 w'
      rwa [h.slotCount_eq] at hmeets
    | returned => exact Point.meets_pure .returned
  | @arm start scope inner scope₁ scope₂ cond body next orElse test code nextCode elseCode _ _ _
      harm ht hb hn he ihb ihn ihe =>
    obtain ⟨htest, hexit, hbody, hjmp, hnext, helse⟩ := holds_arm.mp hcode
    have hblock : c.Executes env.fuel slots (start + test.length + 1)
        (start + test.length + 1 + code.length) scope
        (Env.enclosed (env.execStmts body scope.slotCount) (scope.view slots)) :=
      Scene.executes_block (ihb hs.enter hfits hbody) hb.extends
    have hs' := hs.after hb.extends.slotCount
    have hcount : (scope.after inner).slotCount = scope.slotCount + Stmt.allVariables body :=
      hb.slotCount_eq
    rw [hcount] at ihn
    simp only [List.length_append, List.length_cons]
    rw [show start + (test.length + (code.length + 1) + (nextCode.length + 1) + elseCode.length) =
      start + test.length + 1 + code.length + 1 + nextCode.length + elseCode.length by omega]
    cases next with
    | some b =>
      have hnone : orElse = none := by simpa [Program.plainRules] using harm
      subst hnone
      cases he
      rw [Env.exec, Env.execBranch]
      exact (Scene.executes_choice (ht.performs henv hfits _ htest) hexit hblock hjmp
        ((ihn hs' hfits hnext).congr (hn.locals_eq rfl).symm)).congr (hn.locals_eq rfl)
    | none =>
      cases hn
      rw [hcount] at ihe
      rw [Env.exec, Env.execBranch]
      exact (Scene.executes_choice (ht.performs henv hfits _ htest) hexit hblock hjmp
        ((ihe hs' hfits helse).congr (he.locals_eq rfl).symm)).congr (he.locals_eq rfl)
  | noNext =>
    rw [Env.exec]
    exact fun w => Point.meets_pure (.next hfits)
  | next h ih => exact ih hs hfits hcode
  | noElse =>
    rw [Env.exec, Env.execElse]
    exact fun w => Point.meets_pure (.next hfits)
  | @orElse start scope inner body code _ h ih =>
    have hblock : c.Executes env.fuel slots start (start + code.length) scope
        (Env.enclosed (env.execStmts body scope.slotCount) (scope.view slots)) :=
      Scene.executes_block (ih hs.enter hfits hcode) h.extends
    rw [Env.exec, Env.execElse]
    exact hblock.congr rfl

end

end Opstack
