import Opstack.Machine.Execution
import Opstack.Proofs.Source.Rules

/-!
# What programs mean

`Program.evaluate` says what a call of a function does, read off the trees alone: there are no
instructions here, no operand stack and no slots.  Variables are a list of names and values, the
innermost first, and a block ends by forgetting those that it has added.

* `Eval` is a computation that can change the heap and the console, fail, or not end.
* `Env.evalExpr` and `Env.execStmt` are the meaning of expressions and statements.
* `Program.invoke` and `Program.evaluate` are the meaning of calls.

The order of evaluation is that of the language: arguments from the last to the first, the right
operand of `>` and `>=` before the left, a record before the values of its fields, both operands of
`and` and `or`, and the bound of a counted loop again in each round.

A computation that has to go through more rounds of a loop or deeper calls than it was given `fuel`
has no outcome, and what never ends has none with any fuel.  What ends has its outcome with all
fuel from some amount on (`Program.evaluate_of_le`).
-/

set_option autoImplicit false

namespace Opstack

/-! ## Computations -/

/-- What a computation can change. -/
structure World where
  /-- The objects. -/
  heap : Heap
  /-- Input and output. -/
  console : Console

/-- A result and the world when the output has been flushed after it.  Of two failures the first
counts. -/
def World.flushed {α : Type} (w : World) (r : Except Fault α) : Except Fault α × World :=
  match w.console.flush with
  | (.ok (), console) => (r, { w with console })
  | (.error reason, console) =>
    (match r with
      | .ok _ => .error (.io reason)
      | .error e => .error e, { w with console })

/-- A computation in a world, which may fail, and may not have an outcome. -/
abbrev Eval := ExceptT Fault (StateT World Option)

namespace Eval

variable {α : Type}

/-- The outcome of a computation that begins in a world. -/
def outcome? (x : Eval α) (w : World) : Option (Except Fault α × World) := x.run w

/-- The computation without an outcome. -/
def stuck : Eval α := fun _ => none

/-- A computation that looks at nothing. -/
def lift (r : Except Fault α) : Eval α := fun w => some (r, w)

/-- A computation that looks at the heap. -/
def ofHeap (f : Heap → Except Fault α) : Eval α := fun w => some (f w.heap, w)

/-- A computation that changes the heap. -/
def onHeap (f : Heap → Except Fault α × Heap) : Eval α := fun w =>
  some ((f w.heap).1, { w with heap := (f w.heap).2 })

/-- A computation that changes the console. -/
def onConsole (f : Console → Except String α × Console) : Eval α := fun w =>
  some ((f w.console).1.mapError .io, { w with console := (f w.console).2 })

/-- Goes through at most so many rounds of a loop.  A round says how to go on or what the loop ends
with. -/
def rounds {σ : Type} (round : σ → Eval (σ ⊕ α)) : Nat → σ → Eval α
  | 0, _ => stuck
  | n + 1, s => do
    match ← round s with
    | .inl s => rounds round n s
    | .inr a => return a

/-- Flushes the output at the end, also after a failure. -/
def flushed (x : Eval α) : Eval α := fun w => (x.outcome? w).map fun o => o.2.flushed o.1

/-! ### What computations yield -/

variable {β : Type} {x : Eval α} {f : α → Eval β} {P : α → Prop} {R : β → Prop}

theorem outcome?_bind (x : Eval α) (f : α → Eval β) (w : World) :
    (x >>= f).outcome? w = match x.outcome? w with
      | none => none
      | some (.ok a, w) => (f a).outcome? w
      | some (.error e, w) => some (.error e, w) := by
  change (x.run w).bind _ = _
  rw [outcome?]
  cases x.run w with
  | none => rfl
  | some o =>
    obtain ⟨r, w'⟩ := o
    cases r <;> rfl

/-- The values that the computation can yield have a property. -/
def Yields (x : Eval α) (P : α → Prop) : Prop :=
  ∀ w a w', x.outcome? w = some (.ok a, w') → P a

theorem yields_pure {a : α} (h : P a) : (pure a : Eval α).Yields P := by
  intro w b w' hb
  cases hb
  exact h

theorem Yields.bind (hx : x.Yields P) (hf : ∀ a, P a → (f a).Yields R) : (x >>= f).Yields R := by
  intro w b w' hb
  rw [outcome?_bind] at hb
  split at hb
  · cases hb
  · rename_i a w₁ ha
    exact hf a (hx w a w₁ ha) w₁ b w' hb
  · cases hb

/-- Whatever the first computation yields, the second one has the property. -/
theorem yields_bind (hf : ∀ a, (f a).Yields R) : (x >>= f).Yields R :=
  Yields.bind (P := fun _ => True) (fun _ _ _ _ => trivial) fun a _ => hf a

end Eval

/-! ## Operations -/

/-- What an operator makes of the values of its left and right operand. -/
def Operator.apply : Operator → Value → Value → Except Fault Value
  | .add, a, b => a.add b
  | .sub, a, b => a.sub b
  | .mul, a, b => a.mul b
  | .div, a, b => a.div b
  | .eq, a, b => .ok (.bool (a.same b))
  | .ne, a, b => .ok (.bool (!a.same b))
  | .lt, a, b => (a.less? b).map .bool
  | .le, a, b => (a.lessEq? b).map .bool
  | .gt, a, b => (b.less? a).map .bool
  | .ge, a, b => (b.lessEq? a).map .bool
  | .and, a, b => (a.logical? (.binary .and) b).map .bool
  | .or, a, b => (a.logical? (.binary .or) b).map .bool

namespace Value

/-- The truth value that a condition has. -/
def condition : Value → Except Fault Bool
  | .bool b => .ok b
  | _ => .error (.nonBoolean .jmpf)

/-- The length of a text or an array. -/
def lengthIn (h : Heap) : Value → Except Fault Value
  | .null => .error (.nullOperand .len)
  | .str s => .ok (.int (Int64.ofNat s.length))
  | .ref o => (h.arrayLength o).map fun n => .int (Int64.ofNat n)
  | v => .error (.typeMismatch .len v.typeName)

/-- A field of a record. -/
def fieldIn (h : Heap) (r : Value) (field : String) : Except Fault Value := do
  let o ← r.asObject .getf
  h.getField o field

/-- A cell of an array. -/
def cellIn (h : Heap) (a index : Value) : Except Fault Value := do
  let o ← a.asObject .geti
  let n ← index.asIndex .geti
  h.getIndex o n

/-- Sets a field of a record. -/
def setFieldIn (h : Heap) (r : Value) (field : String) (v : Value) : Except Fault Unit × Heap :=
  match r.asObject .setf with
  | .ok o => h.setField o field v
  | .error e => (.error e, h)

/-- Sets a cell of an array. -/
def setCellIn (h : Heap) (a index v : Value) : Except Fault Unit × Heap :=
  match a.asObject .seti, index.asIndex .seti with
  | .ok o, .ok n => h.setIndex o n v
  | .error e, _ => (.error e, h)
  | _, .error e => (.error e, h)

/-- A new array of a length. -/
def arrayIn (h : Heap) (length : Value) : Except Fault Value × Heap :=
  match length.asNumber .alloca with
  | .ok n => ((h.allocArray n).1.map .ref, (h.allocArray n).2)
  | .error e => (.error e, h)

/-- A line of the input, or `null` at its end. -/
def ofLine : Option String → Value
  | some line => .str line
  | none => .null

end Value

/-- What a call of a builtin does, apart from those that have to do with threads. -/
def builtinCall? (name : String) (args : List Value) : Option (Eval Value) :=
  match name, args with
  | "print", [v] => some do
    Eval.onConsole fun c => c.write v.text
    return .null
  | "println", [v] => some do
    Eval.onConsole fun c => c.write v.text
    Eval.onConsole fun c => c.write "\n"
    return .null
  | "readln", [] => some do
    let line ← Eval.onConsole Console.readLine
    return .ofLine line
  | "size", [v] => some (.ofHeap fun h => v.lengthIn h)
  | "get", [index, text] => some (.lift (text.charAt index))
  | "int_val", [v] => some (.lift v.toInt)
  | "dbl_val", [v] => some (.lift v.toDouble)
  | "str_val", [v] => some (.lift v.toText)
  | _, _ => none

/-! ## Variables -/

/-- The variables that can be seen, the innermost and latest first. -/
abbrev Vars := List (String × Value)

namespace Vars

/-- The value of the innermost variable of a name. -/
def read (vars : Vars) (name : String) : Eval Value :=
  match vars.lookup name with
  | some v => return v
  | none => Eval.stuck

/-- The variables after the innermost one of a name has been given a value. -/
def write : Vars → String → Value → Vars
  | [], _, _ => []
  | (name, old) :: rest, target, v =>
    if name = target then (name, v) :: rest else (name, old) :: write rest target v

end Vars

/-- How a statement ends. -/
inductive Flow
  /-- The next statement follows. -/
  | next (vars : Vars)
  /-- The function returns. -/
  | returned (v : Value)

/-- The end of a block that began with so many variables. -/
def Flow.leave (count : Nat) : Flow → Flow
  | .next vars => .next (vars.drop (vars.length - count))
  | .returned v => .returned v

/-- What assignments change. -/
inductive Place
  /-- A variable. -/
  | var (name : String)
  /-- A field of a record. -/
  | field (record : Value) (name : String)
  /-- A cell of an array. -/
  | cell (array index : Value)

/-! ### How many there are

A function can have only so many variables.  Each declaration counts once, however often it is
executed, and in the order in which they are written. -/

mutual

/-- How many variables a statement declares. -/
def Stmt.variables : Stmt → Nat
  | .ret _ => 0
  | .declare _ _ _ => 1
  | .assign _ _ => 0
  | .whileLoop _ body => Stmt.allVariables body
  | .forLoop _ _ _ body => 1 + Stmt.allVariables body
  | .branch b => b.variables
  | .call _ _ => 0

/-- How many variables statements declare. -/
def Stmt.allVariables : List Stmt → Nat
  | [] => 0
  | s :: rest => s.variables + Stmt.allVariables rest

/-- How many variables the arms of an `if` declare. -/
def Branch.variables : Branch → Nat
  | .arm _ body next orElse =>
    Stmt.allVariables body + Branch.nextVariables next + Stmt.elseVariables orElse

/-- How many variables the next arm, if there is one, declares. -/
def Branch.nextVariables : Option Branch → Nat
  | none => 0
  | some b => b.variables

/-- How many variables the `else`, if there is one, declares. -/
def Stmt.elseVariables : Option (List Stmt) → Nat
  | none => 0
  | some body => Stmt.allVariables body

end

/-- The record definition of a name, of which the latest counts. -/
def Program.record? (p : Program) (name : String) : Option RecordDef :=
  p.records.reverse.find? fun d => d.name == name

/-! ## Trees -/

/-- What the meaning of a tree depends on. -/
structure Env where
  /-- The program. -/
  program : Program
  /-- The settings. -/
  config : Config
  /-- The rounds that a loop may take. -/
  fuel : Nat
  /-- What a call of a function does. -/
  call : String → List Value → Eval Value

namespace Env

section

variable (env : Env) (vars : Vars)

mutual

/-- The value of an expression. -/
def evalExpr : Expr → Eval Value
  | .literal token =>
    match token.value with
    | .ok v => return v
    | .error _ => Eval.stuck
  | .path steps => evalPath steps
  | .call name args => do
    let vs ← evalArgs args
    (builtinCall? name vs).getD (env.call name vs)
  | .newRecord type args =>
    match env.program.record? type with
    | none => Eval.stuck
    | some d => do
      let o ← Eval.onHeap fun h => (.ok h.allocRecord.1, h.allocRecord.2)
      initFields o d.fields args
      return .ref o
  | .newArray _ length => do
    let n ← evalExpr length
    Eval.onHeap fun h => n.arrayIn h
  | .not e => do
    let v ← evalExpr e
    Eval.lift v.negate
  | .binary op lhs rhs =>
    if op = .gt ∨ op = .ge then do
      let b ← evalExpr rhs
      let a ← evalExpr lhs
      Eval.lift (op.apply a b)
    else do
      let a ← evalExpr lhs
      let b ← evalExpr rhs
      Eval.lift (op.apply a b)

/-- The values of arguments. -/
def evalArgs : List Expr → Eval (List Value)
  | [] => return []
  | e :: rest => do
    let later ← evalArgs rest
    let v ← evalExpr e
    return v :: later

/-- Gives fields of a new record their values. -/
def initFields (o : ObjectId) : List String → List Expr → Eval Unit
  | field :: fields, e :: rest => do
    let v ← evalExpr e
    Eval.onHeap fun h => (Value.ref o).setFieldIn h field v
    initFields o fields rest
  | _, _ => return ()

/-- The value at the end of a path. -/
def evalPath : List Step → Eval Value
  | [] => Eval.stuck
  | step :: rest => do
    let v ← vars.read step.name
    let v ← evalIndex step v
    evalSteps rest v

/-- What lies along fields from a record on. -/
def evalSteps : List Step → Value → Eval Value
  | [], v => return v
  | step :: rest, v => do
    let v ← Eval.ofHeap fun h => v.fieldIn h step.name
    let v ← evalIndex step v
    evalSteps rest v

/-- The cell of an array that a step names, or the array itself. -/
def evalIndex : Step → Value → Eval Value
  | .plain _, v => return v
  | .indexed _ index, v => do
    let n ← evalExpr index
    Eval.ofHeap fun h => v.cellIn h n

end

/-- There are as many values as arguments. -/
theorem evalArgs_yields (es : List Expr) :
    (env.evalArgs vars es).Yields fun vs => vs.length = es.length := by
  induction es with
  | nil =>
    rw [evalArgs]
    exact Eval.yields_pure rfl
  | cons e rest ih =>
    rw [evalArgs]
    refine ih.bind fun later hlater => Eval.yields_bind fun v => Eval.yields_pure ?_
    rw [List.length_cons, List.length_cons, hlater]

/-- The field or cell that an assignment names, from a record on. -/
def evalFieldTarget : List Step → Value → Eval Place
  | [], _ => Eval.stuck
  | [.plain field], v => return .field v field
  | [.indexed field index], v => do
    let a ← Eval.ofHeap fun h => v.fieldIn h field
    let n ← env.evalExpr vars index
    return .cell a n
  | step :: rest, v => do
    let v ← Eval.ofHeap fun h => v.fieldIn h step.name
    let v ← env.evalIndex vars step v
    evalFieldTarget rest v

/-- The variable, field or cell that an assignment names. -/
def evalTarget : List Step → Eval Place
  | [] => Eval.stuck
  | [.plain name] => return .var name
  | [.indexed name index] => do
    let a ← vars.read name
    let n ← env.evalExpr vars index
    return .cell a n
  | step :: rest => do
    let v ← vars.read step.name
    let v ← env.evalIndex vars step v
    env.evalFieldTarget vars rest v

/-- Gives a variable, field or cell a value. -/
def assign (v : Value) : Place → Eval Vars
  | .var name => return vars.write name v
  | .field r name => do
    Eval.onHeap fun h => r.setFieldIn h name v
    return vars
  | .cell a n => do
    Eval.onHeap fun h => a.setCellIn h n v
    return vars

/-- Makes room for the variable of a number, unless there is none. -/
def reserve (n : Nat) : Eval Unit :=
  if env.config.maxFrameSlots ≤ n then Eval.lift (.error (.invalidStoreIndex n))
  else if env.config.host.capacity ≤ n then Eval.stuck
  else return ()

/-- The value that a declared variable begins with. -/
def evalInit : Option Expr → Eval Value
  | some e => env.evalExpr vars e
  | none => return .null

end

section

variable (env : Env)

/-- A round of a `while` whose block means something. -/
def whileRound (cond : Expr) (block : Vars → Eval Flow) (vars : Vars) : Eval (Vars ⊕ Flow) := do
  let v ← env.evalExpr vars cond
  let b ← Eval.lift v.condition
  if b then
    match ← block vars with
    | .next vars => return .inl vars
    | .returned v => return .inr (.returned v)
  else return .inr (.next vars)

/-- A round of a counted loop whose block means something. -/
def forRound (name : String) (last : Expr) (block : Vars → Eval Flow) (vars : Vars) :
    Eval (Vars ⊕ Flow) := do
  let i ← vars.read name
  let bound ← env.evalExpr vars last
  let b ← Eval.lift (i.lessEq? bound)
  if b then
    match ← block vars with
    | .next vars => do
      let i ← vars.read name
      let i ← Eval.lift (i.add (.int 1))
      return .inl (vars.write name i)
    | .returned v => return .inr (.returned v)
  else return .inr (.next vars)

/-- A block, whose variables go at its end. -/
def enclosed (block : Vars → Eval Flow) (vars : Vars) : Eval Flow := do
  let flow ← block vars
  return flow.leave vars.length

mutual

/-- Executes a statement, before which the function has so many declarations. -/
def execStmt : Stmt → Nat → Vars → Eval Flow
  | .ret e, _, vars => do
    let v ← env.evalExpr vars e
    return .returned v
  | .declare name _ init, n, vars => do
    let v ← env.evalInit vars init
    env.reserve n
    return .next ((name, v) :: vars)
  | .assign target e, _, vars => do
    let place ← env.evalTarget vars target
    let v ← env.evalExpr vars e
    let vars ← assign vars v place
    return .next vars
  | .whileLoop cond body, n, vars =>
    Eval.rounds (env.whileRound cond (enclosed (execStmts body n))) env.fuel vars
  | .forLoop name first last body, n, vars => do
    let v ← env.evalExpr vars first
    env.reserve n
    let flow ← Eval.rounds (env.forRound name last (enclosed (execStmts body (n + 1)))) env.fuel
      ((name, v) :: vars)
    return flow.leave vars.length
  | .branch b, n, vars => execBranch b n vars
  | .call name args, _, vars => do
    let _ ← env.evalExpr vars (.call name args)
    return .next vars

/-- Executes statements one after the other. -/
def execStmts : List Stmt → Nat → Vars → Eval Flow
  | [], _, vars => return .next vars
  | s :: rest, n, vars => do
    match ← execStmt s n vars with
    | .next vars => execStmts rest (n + s.variables) vars
    | .returned v => return .returned v

/-- Executes an `if` with the arms that follow it. -/
def execBranch : Branch → Nat → Vars → Eval Flow
  | .arm cond body next orElse, n, vars => do
    let v ← env.evalExpr vars cond
    let b ← Eval.lift v.condition
    if b then enclosed (execStmts body n) vars
    else
      match next with
      | some b => execBranch b (n + Stmt.allVariables body) vars
      | none => execElse orElse (n + Stmt.allVariables body) vars

/-- Executes the `else`, if there is one. -/
def execElse : Option (List Stmt) → Nat → Vars → Eval Flow
  | none, _, vars => return .next vars
  | some body, n, vars => enclosed (execStmts body n) vars

end

/-- The variables of the parameters with their arguments. -/
def bindParams : List String → List Value → Nat → Vars → Eval Vars
  | name :: names, v :: vs, n, vars => do
    env.reserve n
    bindParams names vs (n + 1) ((name, v) :: vars)
  | [], [], _, vars => return vars
  | _, _, _, _ => Eval.stuck

/-- What a function does with arguments. -/
def apply (f : Function) (args : List Value) : Eval Value := do
  let vars ← env.bindParams f.params args 0 []
  match ← env.execStmts f.body f.params.length vars with
  | .returned v => return v
  | .next _ => return .null

end

end Env

/-! ## Calls -/

namespace Program

variable (p : Program) (config : Config)

/-- What a call does where the call stack has a depth. -/
def invoke : Nat → Nat → String → List Value → Eval Value
  | 0, _, _, _ => Eval.stuck
  | fuel + 1, depth, name, args =>
    match p.function? name with
    | none => Eval.lift (.error (.unknownRoutine name))
    | some f =>
      if config.maxCallDepth ≤ depth then
        Eval.lift (.error (.callDepthExceeded config.maxCallDepth))
      else Env.apply ⟨p, config, fuel, invoke fuel (depth + 1)⟩ f args

/-- **What a call from outside does**, if the host has room for its stacks. -/
def evaluate (fuel : Nat) (f : Function) (args : List Value) : Eval Value :=
  if config.roomForStacks then (Env.apply ⟨p, config, fuel, p.invoke config fuel 1⟩ f args).flushed
  else Eval.stuck

end Program
end Opstack
