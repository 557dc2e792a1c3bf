import Opstack.Lowering.Expr

/-!
# Statements as instructions

`lowerStmt` turns a statement into instructions.  Jumps name the instruction that they continue
at by its index in the routine, so the lowering is told where the code of the statement begins;
with that, the length of each part says where the next one begins and every target is known when
it is written.

| statement       | code                                                                |
| --------------- | ------------------------------------------------------------------- |
| `while`         | condition, `JMPF` to the end, body, `JMP` to the condition          |
| `for`           | first value, `STORE`, test, `JMPF` to the end, body, step, `JMP`    |
| `if`            | condition, `JMPF` to the next arm, body, `JMP` to the end, next arm |

A block opens a scope for its variables.  The variable of a `for` has a block of its own around
the body, and the first value, but not the last, is outside of it.
-/

set_option autoImplicit false

namespace Opstack

/-! ## Assignment -/

/-- The code that comes before the value of an assignment to a field or cell of the record on top
of the stack, and the instruction that comes after it. -/
def lowerFieldTarget (table : RecordTable) (scope : Scope) :
    List Step → Except CompileError (List Instr × Instr)
  | [] => .error .emptyPath
  | [.plain field] => .ok ([], .setf field)
  | [.indexed field index] => do
    let code ← lowerExpr table scope index
    return (.getf field :: code, .plain .seti)
  | step :: rest => do
    let index ← lowerIndex table scope step
    let (code, last) ← lowerFieldTarget table scope rest
    return (.getf step.name :: index ++ code, last)

/-- The code that comes before the value of an assignment, and the instruction that comes after
it. -/
def lowerTarget (table : RecordTable) (scope : Scope) :
    List Step → Except CompileError (List Instr × Instr)
  | [] => .error .emptyPath
  | [.plain name] => do
    let slot ← scope.resolve name
    return ([], .store slot)
  | [.indexed name index] => do
    let slot ← scope.resolve name
    let code ← lowerExpr table scope index
    return (.load slot :: code, .plain .seti)
  | step :: rest => do
    let slot ← scope.resolve step.name
    let index ← lowerIndex table scope step
    let (code, last) ← lowerFieldTarget table scope rest
    return (.load slot :: index ++ code, last)

/-! ## Statements -/

/-- The code of the value that a declaration begins with. -/
def lowerInit (table : RecordTable) (scope : Scope) :
    Option Expr → Except CompileError (List Instr)
  | some e => lowerExpr table scope e
  | none => .ok [.push .null]

/-- The end of a round of a counted loop. -/
def countingCode (name : String) (slot : Nat) : List Instr :=
  [.load slot, .push (.int 1), .plain (.binary .add),
    (Instr.store slot).withComment (name ++ " += 1")]

/-- The code that drops the value of a call. -/
def dropResult : Instr := (Instr.plain .pop).withComment "discard call result"

mutual

/-- The code of a statement that begins at an index, and the variables in scope after it. -/
def lowerStmt (table : RecordTable) (start : Nat) (scope : Scope) :
    Stmt → Except CompileError (List Instr × Scope)
  | .ret e => do
    let code ← lowerExpr table scope e
    return (code ++ [.plain .ret], scope)
  | .declare name _ init => do
    let code ← lowerInit table scope init
    let (slot, scope) ← scope.declare name
    return (code ++ [.store slot], scope)
  | .assign target e => do
    let (before, last) ← lowerTarget table scope target
    let code ← lowerExpr table scope e
    return (before ++ code ++ [last], scope)
  | .whileLoop cond body => do
    let test ← lowerExpr table scope cond
    let (code, inner) ← lowerStmts table (start + test.length + 1) scope.enter body
    let stop := start + test.length + 1 + code.length + 1
    return (test ++ .jmpf stop :: code ++ [.jmp start], inner.leave)
  | .forLoop name first last body => do
    let scope := scope.enter
    let init ← lowerExpr table scope first
    let (slot, scope) ← scope.declare name
    let round := start + init.length + 1
    let bound ← lowerExpr table scope last
    let test := .load slot :: bound ++ [.plain (.binary .cmple)]
    let (code, inner) ← lowerStmts table (round + test.length + 1) scope.enter body
    let step := countingCode name slot
    let stop := round + test.length + 1 + code.length + step.length + 1
    return (init ++ .store slot :: test ++ .jmpf stop :: code ++ step ++ [.jmp round],
      inner.leave.leave)
  | .branch b => lowerBranch table start scope b
  | .call name args => do
    let code ← lowerArgs table scope args
    return (code ++ callCode name ++ [dropResult], scope)

/-- The code of statements one after the other. -/
def lowerStmts (table : RecordTable) (start : Nat) (scope : Scope) :
    List Stmt → Except CompileError (List Instr × Scope)
  | [] => .ok ([], scope)
  | s :: rest => do
    let (code, scope) ← lowerStmt table start scope s
    let (later, scope) ← lowerStmts table (start + code.length) scope rest
    return (code ++ later, scope)

/-- The code of an `if` with the arms that follow it. -/
def lowerBranch (table : RecordTable) (start : Nat) (scope : Scope) :
    Branch → Except CompileError (List Instr × Scope)
  | .arm cond body next orElse => do
    let test ← lowerExpr table scope cond
    let (code, inner) ← lowerStmts table (start + test.length + 1) scope.enter body
    let other := start + test.length + 1 + code.length + 1
    let (nextCode, scope) ← lowerNext table other inner.leave next
    let (elseCode, scope) ← lowerElse table (other + nextCode.length) scope orElse
    let stop := other + nextCode.length + elseCode.length
    return (test ++ .jmpf other :: code ++ .jmp stop :: nextCode ++ elseCode, scope)

/-- The code of the next arm, if there is one. -/
def lowerNext (table : RecordTable) (start : Nat) (scope : Scope) :
    Option Branch → Except CompileError (List Instr × Scope)
  | none => .ok ([], scope)
  | some b => lowerBranch table start scope b

/-- The code of the `else`, if there is one. -/
def lowerElse (table : RecordTable) (start : Nat) (scope : Scope) :
    Option (List Stmt) → Except CompileError (List Instr × Scope)
  | none => .ok ([], scope)
  | some body => do
    let (code, inner) ← lowerStmts table start scope.enter body
    return (code, inner.leave)

end

end Opstack
