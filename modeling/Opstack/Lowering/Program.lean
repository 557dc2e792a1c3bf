import Opstack.Lowering.Emission

/-!
# Functions and programs as routines

`Function.lower` compiles a function.  Its parameters are the first variables of the block that
its body is, and are stored in order, since the caller leaves the first argument on top.  A body
that does not end with a `return` returns `null`.  `Function.code` is what it writes, described
part by part.

`Program.lower` compiles all functions of a program in order and stops at the first that cannot be
compiled.
-/

set_option autoImplicit false

namespace Opstack

/-- The code that stores the arguments, and the scope with the parameters. -/
def lowerParams (scope : Scope) : List String → Except CompileError (List Instr × Scope)
  | [] => .ok ([], scope)
  | name :: rest => do
    let (slot, scope) ← scope.declare name
    let (code, scope) ← lowerParams scope rest
    return (.store slot :: code, scope)

/-- The statement is a `return`. -/
def Stmt.isReturn : Stmt → Bool
  | .ret _ => true
  | _ => false

/-- The code at the end of a body. -/
def endCode (body : List Stmt) : List Instr :=
  if body.getLast?.any Stmt.isReturn then []
  else [(Instr.push .null).withComment "implicit return", .plain .ret]

namespace Function

/-- The instructions of a function. -/
def code (table : RecordTable) (f : Function) : Except CompileError (List Instr) := do
  let (params, scope) ← lowerParams ({} : Scope).enter f.params
  let (body, _) ← lowerStmts table params.length scope f.body
  return params ++ body ++ endCode f.body

/-- The draft before anything is written. -/
def blank (f : Function) : Draft := { builder := { name := f.name }, scope := ({} : Scope).enter }

/-- Writes a function. -/
def draft (table : RecordTable) (f : Function) : Except CompileError Draft := do
  let d ← emitParams f.params f.blank
  let d ← emitStmts table f.body d
  return (d.emitAll (endCode f.body)).leave

/-- The routine of a function. -/
def lower (table : RecordTable) (f : Function) : Except CompileError Routine := do
  let d ← f.draft table
  d.builder.finish.mapError .jump

end Function

/-- The routines of functions, in order. -/
def lowerFunctions (table : RecordTable) : List Function → Except CompileError (List Routine)
  | [] => .ok []
  | f :: rest => do
    let routine ← f.lower table
    let later ← lowerFunctions table rest
    return routine :: later

namespace Program

/-- The records that the functions of a program may construct. -/
def table (p : Program) (known : RecordTable) : RecordTable := known.register p.records

/-- The routines of a program, whose records are added to those already known. -/
def lower (p : Program) (known : RecordTable) : Except CompileError (List Routine) :=
  lowerFunctions (p.table known) p.functions

end Program
end Opstack
