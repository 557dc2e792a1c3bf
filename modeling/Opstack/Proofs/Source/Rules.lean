import Opstack.Lowering.Expr

/-!
# Rules for trees

What a checker has to make sure of before a program is compiled, since the compiler does not look:
that every call passes as many arguments as are expected, and that no `if` has both a next arm and
an `else`.  `Rules` says which calls and which arms are allowed, and `Stmt.obeys` that nothing in a
statement breaks them.

* `Rules.free` allows everything.
* `Program.callRules` allows the calls of builtins and of functions of the program that pass the
  right number of arguments.
* `Program.plainRules` allows of these only what starts no thread and waits for none, and in
  addition no `if` with both.
* `Program.WellCalled` is a program whose functions have names of their own and obey the first.
-/

set_option autoImplicit false

namespace Opstack

/-- What a tree may contain. -/
structure Rules where
  /-- A call of this name with so many arguments. -/
  call : String → Nat → Bool
  /-- An `if` that has a next arm, or an `else`, or both. -/
  arm : Bool → Bool → Bool

/-- The rules that allow everything. -/
def Rules.free : Rules := { call := fun _ _ => true, arm := fun _ _ => true }

@[simp] theorem Rules.free_call (name : String) (n : Nat) : Rules.free.call name n = true := rfl

@[simp] theorem Rules.free_arm (hasNext hasElse : Bool) :
    Rules.free.arm hasNext hasElse = true := rfl

/-! ## Trees that obey rules -/

section

variable (rules : Rules)

mutual

/-- Nothing in the expression breaks the rules. -/
def Expr.obeys : Expr → Bool
  | .literal _ => true
  | .path steps => Step.allObey steps
  | .call name args => rules.call name args.length && Expr.allObey args
  | .newRecord _ args => Expr.allObey args
  | .newArray _ length => length.obeys
  | .not e => e.obeys
  | .binary _ lhs rhs => lhs.obeys && rhs.obeys

/-- Nothing in the expressions breaks the rules. -/
def Expr.allObey : List Expr → Bool
  | [] => true
  | e :: rest => e.obeys && Expr.allObey rest

/-- Nothing in the index of the step breaks the rules. -/
def Step.obeys : Step → Bool
  | .plain _ => true
  | .indexed _ index => index.obeys

/-- Nothing in the steps breaks the rules. -/
def Step.allObey : List Step → Bool
  | [] => true
  | step :: rest => step.obeys && Step.allObey rest

end

mutual

/-- Nothing in the statement breaks the rules. -/
def Stmt.obeys : Stmt → Bool
  | .ret e => e.obeys rules
  | .declare _ _ init => init.all fun e => e.obeys rules
  | .assign target e => Step.allObey rules target && e.obeys rules
  | .whileLoop cond body => cond.obeys rules && Stmt.allObey body
  | .forLoop _ first last body => first.obeys rules && last.obeys rules && Stmt.allObey body
  | .branch b => b.obeys
  | .call name args => rules.call name args.length && Expr.allObey rules args

/-- Nothing in the statements breaks the rules. -/
def Stmt.allObey : List Stmt → Bool
  | [] => true
  | s :: rest => s.obeys && Stmt.allObey rest

/-- Nothing in the arms breaks the rules. -/
def Branch.obeys : Branch → Bool
  | .arm cond body next orElse =>
    rules.arm next.isSome orElse.isSome && cond.obeys rules && Stmt.allObey body &&
      Branch.nextObeys next && Stmt.elseObeys orElse

/-- Nothing in the next arm, if there is one, breaks the rules. -/
def Branch.nextObeys : Option Branch → Bool
  | none => true
  | some b => b.obeys

/-- Nothing in the `else`, if there is one, breaks the rules. -/
def Stmt.elseObeys : Option (List Stmt) → Bool
  | none => true
  | some body => Stmt.allObey body

end

/-- Nothing in the functions breaks the rules. -/
def Program.obeys (p : Program) : Bool := p.functions.all fun f => Stmt.allObey rules f.body

end

/-! ### Without rules -/

mutual

theorem Expr.obeys_free : ∀ e : Expr, e.obeys .free = true
  | .literal _ => rfl
  | .path steps => Step.allObey_free steps
  | .call _ args => by simp [Expr.obeys, Expr.allObey_free args]
  | .newRecord _ args => Expr.allObey_free args
  | .newArray _ length => length.obeys_free
  | .not e => e.obeys_free
  | .binary _ lhs rhs => by simp [Expr.obeys, lhs.obeys_free, rhs.obeys_free]

theorem Expr.allObey_free : ∀ es : List Expr, Expr.allObey .free es = true
  | [] => rfl
  | e :: rest => by simp [Expr.allObey, e.obeys_free, Expr.allObey_free rest]

theorem Step.obeys_free : ∀ step : Step, step.obeys .free = true
  | .plain _ => rfl
  | .indexed _ index => index.obeys_free

theorem Step.allObey_free : ∀ steps : List Step, Step.allObey .free steps = true
  | [] => rfl
  | step :: rest => by simp [Step.allObey, step.obeys_free, Step.allObey_free rest]

end

mutual

theorem Stmt.obeys_free : ∀ s : Stmt, s.obeys .free = true
  | .ret e => e.obeys_free
  | .declare _ _ none => rfl
  | .declare _ _ (some e) => e.obeys_free
  | .assign target e => by simp [Stmt.obeys, Step.allObey_free target, e.obeys_free]
  | .whileLoop cond body => by simp [Stmt.obeys, cond.obeys_free, Stmt.allObey_free body]
  | .forLoop _ first last body => by
    simp [Stmt.obeys, first.obeys_free, last.obeys_free, Stmt.allObey_free body]
  | .branch b => b.obeys_free
  | .call _ args => by simp [Stmt.obeys, Expr.allObey_free args]

/-- Every tree obeys the rules that allow everything. -/
theorem Stmt.allObey_free : ∀ stmts : List Stmt, Stmt.allObey .free stmts = true
  | [] => rfl
  | s :: rest => by simp [Stmt.allObey, s.obeys_free, Stmt.allObey_free rest]

theorem Branch.obeys_free : ∀ b : Branch, b.obeys .free = true
  | .arm cond body next orElse => by
    simp [Branch.obeys, cond.obeys_free, Stmt.allObey_free body,
      Branch.nextObeys_free next, Stmt.elseObeys_free orElse]

theorem Branch.nextObeys_free : ∀ next : Option Branch, Branch.nextObeys .free next = true
  | none => rfl
  | some b => b.obeys_free

theorem Stmt.elseObeys_free : ∀ orElse : Option (List Stmt), Stmt.elseObeys .free orElse = true
  | none => rfl
  | some body => Stmt.allObey_free body

end

/-! ## Calls of a program -/

/-- The number of arguments of a builtin. -/
def builtinArity? (name : String) : Option Nat :=
  match name with
  | "print" => some 1
  | "println" => some 1
  | "readln" => some 0
  | "size" => some 1
  | "get" => some 2
  | "int_val" => some 1
  | "dbl_val" => some 1
  | "str_val" => some 1
  | "thread_create" => some 2
  | "thread_wait" => some 1
  | _ => none

/-- With no repeated name, looking for the name of an element finds the element. -/
theorem find?_name_of_nodup {α : Type} {name : α → String} {xs : List α} {x : α} (hx : x ∈ xs)
    (hnodup : (xs.map name).Nodup) : (xs.find? fun y => name y == name x) = some x := by
  induction xs with
  | nil => cases hx
  | cons y rest ih =>
    rw [List.map_cons, List.nodup_cons] at hnodup
    rw [List.find?_cons]
    rcases List.mem_cons.mp hx with rfl | hx
    · rw [beq_self_eq_true]
    · have hne : name y ≠ name x := fun h => hnodup.1 (h ▸ List.mem_map_of_mem hx)
      rw [beq_eq_false_iff_ne.mpr hne]
      exact ih hx hnodup.2

namespace Program

variable (p : Program)

/-- The function of a name. -/
def function? (name : String) : Option Function := p.functions.find? fun f => f.name == name

/-- The number of arguments that a call of a name has to pass. -/
def arity? (name : String) : Option Nat :=
  match builtinArity? name with
  | some n => some n
  | none => (p.function? name).map fun f => f.params.length

/-- Calls pass as many arguments as are expected. -/
def callRules : Rules where
  call name n := p.arity? name == some n
  arm _ _ := true

/-- Calls pass as many arguments as are expected, no thread is started or waited for, and no `if`
has both a next arm and an `else`. -/
def plainRules : Rules where
  call name n := p.arity? name == some n && name != "thread_create" && name != "thread_wait"
  arm hasNext hasElse := !(hasNext && hasElse)

/-- The functions have names of their own that are not those of builtins. -/
structure Distinct : Prop where
  /-- No two functions have one name. -/
  nodup : (p.functions.map Function.name).Nodup
  /-- No function has the name of a builtin. -/
  not_builtin : ∀ f ∈ p.functions, builtinArity? f.name = none

variable {p}

theorem Distinct.function?_name (hp : p.Distinct) {f : Function} (hf : f ∈ p.functions) :
    p.function? f.name = some f :=
  find?_name_of_nodup hf hp.nodup

theorem Distinct.eq_of_name (hp : p.Distinct) {f g : Function} (hf : f ∈ p.functions)
    (hg : g ∈ p.functions) (h : f.name = g.name) : f = g := by
  have hfind := hp.function?_name hf
  rw [h, hp.function?_name hg, Option.some.injEq] at hfind
  exact hfind.symm

theorem mem_of_function? {name : String} {f : Function} (h : p.function? name = some f) :
    f ∈ p.functions ∧ f.name = name :=
  ⟨List.mem_of_find?_eq_some h, by simpa using List.find?_some h⟩

variable (p)

/-- The functions have names of their own, and calls pass as many arguments as are expected. -/
structure WellCalled : Prop extends p.Distinct where
  /-- Calls pass as many arguments as are expected. -/
  calls : p.obeys p.callRules = true

end Program
end Opstack
