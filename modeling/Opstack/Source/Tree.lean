import Opstack.Text.Numeral

/-!
# Programs as trees

The syntax trees that the compiler reads.  A program is a list of record definitions and a list of
functions; a function has parameters and a body of statements; statements hold expressions.

Declared types are kept where a tree shows them, but they have no influence on what a program
does.  Literals are kept as they were written, so that a malformed one is found by the compiler.

`Branch.elseIf` and `Branch.otherwise` build an `if` statement arm by arm.
-/

set_option autoImplicit false

namespace Opstack

/-! ## Expressions -/

/-- The kinds of literals. -/
inductive LiteralKind
  /-- An integer. -/
  | int
  /-- A double. -/
  | double
  /-- A text. -/
  | str
  /-- A truth value. -/
  | bool
  /-- The absence of a value. -/
  | null
deriving DecidableEq

/-- A literal as it was written; a text without its quotes. -/
structure Token where
  /-- What it is meant to be. -/
  kind : LiteralKind
  /-- How it is written. -/
  lexeme : String
deriving DecidableEq

/-- The operators between two expressions. -/
inductive Operator
  /-- Sum or concatenation, `+`. -/
  | add
  /-- Difference, `-`. -/
  | sub
  /-- Product, `*`. -/
  | mul
  /-- Quotient, `/`. -/
  | div
  /-- Equality, `==`. -/
  | eq
  /-- Inequality, `!=`. -/
  | ne
  /-- Less than, `<`. -/
  | lt
  /-- Less than or equal, `<=`. -/
  | le
  /-- Greater than, `>`. -/
  | gt
  /-- Greater than or equal, `>=`. -/
  | ge
  /-- Conjunction, `and`. -/
  | and
  /-- Disjunction, `or`. -/
  | or
deriving DecidableEq

mutual

/-- An expression. -/
inductive Expr
  /-- A literal. -/
  | literal (token : Token)
  /-- The value of a variable, or of a field or cell reached from it. -/
  | path (steps : List Step)
  /-- A call of a function or builtin. -/
  | call (name : String) (args : List Expr)
  /-- A new record with a value for each field, in the order of its definition. -/
  | newRecord (type : String) (args : List Expr)
  /-- A new array of a length. -/
  | newArray (type : String) (length : Expr)
  /-- The opposite truth value. -/
  | not (e : Expr)
  /-- Two expressions with an operator between them. -/
  | binary (op : Operator) (lhs rhs : Expr)

/-- One step of a path: the variable in the first step, a field in the others. -/
inductive Step
  /-- A name. -/
  | plain (name : String)
  /-- A name, and an index into the array that it holds. -/
  | indexed (name : String) (index : Expr)

end

namespace Step

/-- The variable or field of a step. -/
def name : Step → String
  | .plain name => name
  | .indexed name _ => name

end Step

namespace Expr

/-- The literal of an integer. -/
def ofInt (n : Int64) : Expr := .literal ⟨.int, Text.intText n.toInt⟩

/-- The variable of a name. -/
def var (name : String) : Expr := .path [.plain name]

end Expr

/-! ## Statements -/

/-- A declared type. -/
structure TypeName where
  /-- It is the type of arrays of the base type. -/
  isArray : Bool
  /-- The base type. -/
  base : String
deriving DecidableEq

mutual

/-- A statement. -/
inductive Stmt
  /-- Return of a value, `return e`. -/
  | ret (e : Expr)
  /-- Declaration, `var name: type = e`, where the type and the initial value may be missing. -/
  | declare (name : String) (type : Option TypeName) (init : Option Expr)
  /-- Assignment, `a.b[i] = e`. -/
  | assign (target : List Step) (e : Expr)
  /-- Loop, `while cond { ... }`. -/
  | whileLoop (cond : Expr) (body : List Stmt)
  /-- Counted loop, `for name from e to e { ... }`, with the last value included. -/
  | forLoop (name : String) (first last : Expr) (body : List Stmt)
  /-- Choice, `if cond { ... } elseif cond { ... } else { ... }`. -/
  | branch (b : Branch)
  /-- A call whose value is dropped. -/
  | call (name : String) (args : List Expr)

/-- An `if` with the arms that follow it.  A tree may have both a next arm and an `else` at one
`if`; the `else` then belongs to neither and comes after both. -/
inductive Branch
  /-- A condition, the statements under it, the next arm and the `else`. -/
  | arm (cond : Expr) (body : List Stmt) (next : Option Branch) (orElse : Option (List Stmt))

end

namespace Branch

/-- An `if` alone. -/
def single (cond : Expr) (body : List Stmt) : Branch := .arm cond body none none

mutual

/-- Adds an arm at the end of the chain. -/
def elseIf : Branch → Branch → Branch
  | .arm cond body next orElse, last => .arm cond body (some (appendArm next last)) orElse

/-- The rest of a chain with an arm added at its end. -/
def appendArm : Option Branch → Branch → Branch
  | none, last => last
  | some next, last => next.elseIf last

end

mutual

/-- Gives the last `if` of the chain an `else`, in place of the one it may have. -/
def otherwise : Branch → List Stmt → Branch
  | .arm cond body next orElse, stmts =>
    .arm cond body (nextOtherwise next stmts) (if next.isSome then orElse else some stmts)

/-- The rest of a chain with an `else` at its last `if`. -/
def nextOtherwise : Option Branch → List Stmt → Option Branch
  | none, _ => none
  | some next, stmts => some (next.otherwise stmts)

end

end Branch

/-! ## Definitions -/

/-- A record definition: its name and its fields in order. -/
structure RecordDef where
  /-- The name of the records. -/
  name : String
  /-- The names of the fields. -/
  fields : List String
deriving DecidableEq

/-- A function definition. -/
structure Function where
  /-- The name by which it is called. -/
  name : String
  /-- The names of its parameters. -/
  params : List String
  /-- Its statements. -/
  body : List Stmt

/-- A program. -/
structure Program where
  /-- The records that it constructs. -/
  records : List RecordDef
  /-- Its functions, in the order of their definition. -/
  functions : List Function

end Opstack
