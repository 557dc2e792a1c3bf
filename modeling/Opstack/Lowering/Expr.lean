import Opstack.Source.Tree
import Opstack.Source.Scope

/-!
# Expressions as instructions

`lowerExpr` turns an expression into the instructions that push its value.  They contain no jump,
so they mean the same wherever they stand, and the code of an expression is the codes of its parts
one after the other.

The order of evaluation is that of the code: the arguments of a call from the last to the first,
so that the first one ends on top; the right operand of `>` and `>=` before the left, since both
are the comparison the other way round; the record before the values of its fields.
-/

set_option autoImplicit false

namespace Opstack

/-- The fields of the records that a function may construct, the latest definition of a name
first. -/
abbrev RecordTable := List (String × List String)

/-- The table with more definitions, each replacing an earlier one of the same name. -/
def RecordTable.register (table : RecordTable) (defs : List RecordDef) : RecordTable :=
  defs.foldl (fun table d => (d.name, d.fields) :: table) table

/-! ## Literals, operators and builtins -/

/-- The value of a literal. -/
def Token.value (t : Token) : Except CompileError Value :=
  match t.kind with
  | .int =>
    match Text.readInt64? t.lexeme with
    | some n => .ok (.int n)
    | none => .error (.invalidLiteral "int" t.lexeme)
  | .double =>
    match Double.ofText? t.lexeme with
    | some d => .ok (.double d)
    | none => .error (.invalidLiteral "double" t.lexeme)
  | .str => .ok (.str t.lexeme)
  | .bool =>
    if t.lexeme = "true" then .ok (.bool true)
    else if t.lexeme = "false" then .ok (.bool false)
    else .error (.invalidLiteral "bool" t.lexeme)
  | .null => .ok .null

namespace Operator

/-- The operation that computes an operator. -/
def operation : Operator → BinaryOp
  | .add => .add
  | .sub => .sub
  | .mul => .mul
  | .div => .div
  | .eq => .cmpeq
  | .ne => .cmpne
  | .lt => .cmplt
  | .le => .cmple
  | .gt => .cmplt
  | .ge => .cmple
  | .and => .and
  | .or => .or

/-- The operator takes its operands in the opposite order. -/
def isSwapped : Operator → Bool
  | .gt | .ge => true
  | _ => false

end Operator

/-- The code of a builtin, with its arguments on the stack. -/
def builtin? (name : String) : Option (List Instr) :=
  match name with
  | "print" => some [.plain .write, .push .null]
  | "println" => some [.plain .write, .push (.str "\n"), .plain .write, .push .null]
  | "readln" => some [.plain .read]
  | "size" => some [.plain .len]
  | "get" => some [.plain (.binary .getc)]
  | "int_val" => some [.plain (.unary .toint)]
  | "dbl_val" => some [.plain (.unary .todbl)]
  | "str_val" => some [.plain (.unary .tostr)]
  | "thread_create" => some [.plain .thread]
  | "thread_wait" => some [.plain .wait]
  | _ => none

/-- The code that makes a call, with its arguments on the stack. -/
def callCode (name : String) : List Instr := (builtin? name).getD [.call name]

/-! ## Expressions -/

mutual

/-- The code that pushes the value of an expression. -/
def lowerExpr (table : RecordTable) (scope : Scope) : Expr → Except CompileError (List Instr)
  | .literal token => do
    let v ← token.value
    return [.push v]
  | .path steps => lowerPath table scope steps
  | .call name args => do
    let code ← lowerArgs table scope args
    return code ++ callCode name
  | .newRecord type args => do
    match table.lookup type with
    | none => .error (.unknownRecord type)
    | some fields =>
      if fields.length = args.length then
        let code ← lowerFields table scope fields args
        return .plain .allocs :: code
      else .error (.recordArity type fields.length args.length)
  | .newArray _ length => do
    let code ← lowerExpr table scope length
    return code ++ [.plain .alloca]
  | .not e => do
    let code ← lowerExpr table scope e
    return code ++ [.plain (.unary .not)]
  | .binary op lhs rhs =>
    if op.isSwapped then do
      let right ← lowerExpr table scope rhs
      let left ← lowerExpr table scope lhs
      return right ++ left ++ [.plain (.binary op.operation)]
    else do
      let left ← lowerExpr table scope lhs
      let right ← lowerExpr table scope rhs
      return left ++ right ++ [.plain (.binary op.operation)]

/-- The code that pushes arguments, from the last to the first. -/
def lowerArgs (table : RecordTable) (scope : Scope) :
    List Expr → Except CompileError (List Instr)
  | [] => .ok []
  | e :: rest => do
    let later ← lowerArgs table scope rest
    let code ← lowerExpr table scope e
    return later ++ code

/-- The code that sets fields of the record on top of the stack, in order. -/
def lowerFields (table : RecordTable) (scope : Scope) :
    List String → List Expr → Except CompileError (List Instr)
  | field :: fields, e :: rest => do
    let code ← lowerExpr table scope e
    let later ← lowerFields table scope fields rest
    return .plain .dup :: code ++ .setf field :: later
  | _, _ => .ok []

/-- The code that pushes the value at the end of a path. -/
def lowerPath (table : RecordTable) (scope : Scope) :
    List Step → Except CompileError (List Instr)
  | [] => .error .emptyPath
  | step :: rest => do
    let slot ← scope.resolve step.name
    let index ← lowerIndex table scope step
    let later ← lowerSteps table scope rest
    return .load slot :: index ++ later

/-- The code that replaces a record on top of the stack by what lies along fields. -/
def lowerSteps (table : RecordTable) (scope : Scope) :
    List Step → Except CompileError (List Instr)
  | [] => .ok []
  | step :: rest => do
    let index ← lowerIndex table scope step
    let later ← lowerSteps table scope rest
    return .getf step.name :: index ++ later

/-- The code that replaces an array on top of the stack by the cell that the step names, or
nothing if the step has no index. -/
def lowerIndex (table : RecordTable) (scope : Scope) :
    Step → Except CompileError (List Instr)
  | .plain _ => .ok []
  | .indexed _ index => do
    let code ← lowerExpr table scope index
    return code ++ [.plain .geti]

end

end Opstack
