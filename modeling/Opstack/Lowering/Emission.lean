import Opstack.Code.Builder
import Opstack.Lowering.Stmt

/-!
# Writing a routine

The compiler writes a routine from its first instruction to its last.  It works on a `Draft`: the
instructions written so far and the variables in scope.  A jump forward is written with a
placeholder, and its target is patched once the instructions that it passes over have been
written.

* `emitExpr` and `emitStmt` write an expression and a statement;
* `emitTarget` writes what comes before the value of an assignment.

`lowerExpr` and `lowerStmt` describe the same instructions part by part, with every target
computed from the lengths of the parts.
-/

set_option autoImplicit false

namespace Opstack

/-- A function being compiled. -/
structure Draft where
  /-- The instructions written so far. -/
  builder : Builder
  /-- The variables that can be seen at this place. -/
  scope : Scope

namespace Draft

/-- The index of the next instruction. -/
def nextIndex (d : Draft) : Nat := d.builder.nextIndex

/-- Writes an instruction. -/
def emit (d : Draft) (i : Instr) : Draft := { d with builder := d.builder.emit i }

/-- Writes instructions one after the other. -/
def emitAll (d : Draft) (code : List Instr) : Draft := code.foldl emit d

/-- Writes a jump with a placeholder for its target. -/
def emitJump (d : Draft) (op : Opcode) : Draft × PatchSite :=
  let (builder, site) := d.builder.emitJump op
  ({ d with builder }, site)

/-- Points a jump to the next instruction. -/
def patchHere (d : Draft) (site : PatchSite) : Draft :=
  { d with builder := d.builder.patchHere site }

/-- Opens a block. -/
def enter (d : Draft) : Draft := { d with scope := d.scope.enter }

/-- Closes the innermost block. -/
def leave (d : Draft) : Draft := { d with scope := d.scope.leave }

/-- Adds a variable to the innermost block. -/
def declare (d : Draft) (name : String) : Except CompileError (Nat × Draft) := do
  let (slot, scope) ← d.scope.declare name
  return (slot, { d with scope })

end Draft

/-! ## Expressions -/

mutual

/-- Writes the instructions that push the value of an expression. -/
def emitExpr (table : RecordTable) : Expr → Draft → Except CompileError Draft
  | .literal token, d => do
    let v ← token.value
    return d.emit (.push v)
  | .path steps, d => emitPath table steps d
  | .call name args, d => do
    let d ← emitArgs table args d
    return d.emitAll (callCode name)
  | .newRecord type args, d =>
    match table.lookup type with
    | none => .error (.unknownRecord type)
    | some fields =>
      if fields.length = args.length then emitFields table fields args (d.emit (.plain .allocs))
      else .error (.recordArity type fields.length args.length)
  | .newArray _ length, d => do
    let d ← emitExpr table length d
    return d.emit (.plain .alloca)
  | .not e, d => do
    let d ← emitExpr table e d
    return d.emit (.plain (.unary .not))
  | .binary op lhs rhs, d =>
    if op.isSwapped then do
      let d ← emitExpr table rhs d
      let d ← emitExpr table lhs d
      return d.emit (.plain (.binary op.operation))
    else do
      let d ← emitExpr table lhs d
      let d ← emitExpr table rhs d
      return d.emit (.plain (.binary op.operation))

/-- Writes the instructions that push arguments, from the last to the first. -/
def emitArgs (table : RecordTable) : List Expr → Draft → Except CompileError Draft
  | [], d => .ok d
  | e :: rest, d => do
    let d ← emitArgs table rest d
    emitExpr table e d

/-- Writes the instructions that set fields of the record on top of the stack. -/
def emitFields (table : RecordTable) :
    List String → List Expr → Draft → Except CompileError Draft
  | field :: fields, e :: rest, d => do
    let d ← emitExpr table e (d.emit (.plain .dup))
    emitFields table fields rest (d.emit (.setf field))
  | _, _, d => .ok d

/-- Writes the instructions that push the value at the end of a path. -/
def emitPath (table : RecordTable) : List Step → Draft → Except CompileError Draft
  | [], _ => .error .emptyPath
  | step :: rest, d => do
    let slot ← d.scope.resolve step.name
    let d ← emitIndex table step (d.emit (.load slot))
    emitSteps table rest d

/-- Writes the instructions that follow fields from the record on top of the stack. -/
def emitSteps (table : RecordTable) : List Step → Draft → Except CompileError Draft
  | [], d => .ok d
  | step :: rest, d => do
    let d ← emitIndex table step (d.emit (.getf step.name))
    emitSteps table rest d

/-- Writes the instructions that replace an array on top of the stack by a cell, if the step has
an index. -/
def emitIndex (table : RecordTable) : Step → Draft → Except CompileError Draft
  | .plain _, d => .ok d
  | .indexed _ index, d => do
    let d ← emitExpr table index d
    return d.emit (.plain .geti)

end

/-! ## Assignment -/

/-- Writes what comes before the value of an assignment to a field or cell of the record on top of
the stack, and says which instruction comes after it. -/
def emitFieldTarget (table : RecordTable) :
    List Step → Draft → Except CompileError (Draft × Instr)
  | [], _ => .error .emptyPath
  | [.plain field], d => .ok (d, .setf field)
  | [.indexed field index], d => do
    let d ← emitExpr table index (d.emit (.getf field))
    return (d, .plain .seti)
  | step :: rest, d => do
    let d ← emitIndex table step (d.emit (.getf step.name))
    emitFieldTarget table rest d

/-- Writes what comes before the value of an assignment, and says which instruction comes after
it. -/
def emitTarget (table : RecordTable) : List Step → Draft → Except CompileError (Draft × Instr)
  | [], _ => .error .emptyPath
  | [.plain name], d => do
    let slot ← d.scope.resolve name
    return (d, .store slot)
  | [.indexed name index], d => do
    let slot ← d.scope.resolve name
    let d ← emitExpr table index (d.emit (.load slot))
    return (d, .plain .seti)
  | step :: rest, d => do
    let slot ← d.scope.resolve step.name
    let d ← emitIndex table step (d.emit (.load slot))
    emitFieldTarget table rest d

/-! ## Statements -/

/-- Writes the instructions that push the value that a declaration begins with. -/
def emitInit (table : RecordTable) : Option Expr → Draft → Except CompileError Draft
  | some e, d => emitExpr table e d
  | none, d => .ok (d.emit (.push .null))

mutual

/-- Writes a statement. -/
def emitStmt (table : RecordTable) : Stmt → Draft → Except CompileError Draft
  | .ret e, d => do
    let d ← emitExpr table e d
    return d.emit (.plain .ret)
  | .declare name _ init, d => do
    let d ← emitInit table init d
    let (slot, d) ← d.declare name
    return d.emit (.store slot)
  | .assign target e, d => do
    let (d, last) ← emitTarget table target d
    let d ← emitExpr table e d
    return d.emit last
  | .whileLoop cond body, d => do
    let start := d.nextIndex
    let d ← emitExpr table cond d
    let (d, exit) := d.emitJump .jmpf
    let d ← emitStmts table body d.enter
    return (d.leave.emit (.jmp start)).patchHere exit
  | .forLoop name first last body, d => do
    let d ← emitExpr table first d.enter
    let (slot, d) ← d.declare name
    let d := d.emit (.store slot)
    let start := d.nextIndex
    let d ← emitExpr table last (d.emit (.load slot))
    let (d, exit) := (d.emit (.plain (.binary .cmple))).emitJump .jmpf
    let d ← emitStmts table body d.enter
    let d := (d.leave.emitAll (countingCode name slot)).leave
    return (d.emit (.jmp start)).patchHere exit
  | .branch b, d => emitBranch table b d
  | .call name args, d => do
    let d ← emitArgs table args d
    return (d.emitAll (callCode name)).emit dropResult

/-- Writes statements one after the other. -/
def emitStmts (table : RecordTable) : List Stmt → Draft → Except CompileError Draft
  | [], d => .ok d
  | s :: rest, d => do
    let d ← emitStmt table s d
    emitStmts table rest d

/-- Writes an `if` with the arms that follow it. -/
def emitBranch (table : RecordTable) : Branch → Draft → Except CompileError Draft
  | .arm cond body next orElse, d => do
    let d ← emitExpr table cond d
    let (d, other) := d.emitJump .jmpf
    let d ← emitStmts table body d.enter
    let (d, stop) := d.leave.emitJump .jmp
    let d ← emitNext table next (d.patchHere other)
    let d ← emitElse table orElse d
    return d.patchHere stop

/-- Writes the next arm, if there is one. -/
def emitNext (table : RecordTable) : Option Branch → Draft → Except CompileError Draft
  | none, d => .ok d
  | some b, d => emitBranch table b d

/-- Writes the `else`, if there is one. -/
def emitElse (table : RecordTable) : Option (List Stmt) → Draft → Except CompileError Draft
  | none, d => .ok d
  | some body, d => do
    let d ← emitStmts table body d.enter
    return d.leave

end

/-- Writes the instructions that store the arguments, and adds the parameters to the scope. -/
def emitParams : List String → Draft → Except CompileError Draft
  | [], d => .ok d
  | name :: rest, d => do
    let (slot, d) ← d.declare name
    emitParams rest (d.emit (.store slot))

end Opstack
