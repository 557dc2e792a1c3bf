import Opstack.Lowering.Expr

/-!
# What a function demands

A function can be compiled if each part of it is in order: literals are literals of their kind,
paths begin with a variable that can be seen, no block declares a name twice, and records are known
and get a value for each of their fields.  `Function.demands` lists these demands in the order in
which the parts of the function are written, each with what it depends on, and `Demand.Met` says
when one of them is met.

Which names can be seen at a place, and which of them its innermost block has declared, is all that
matters about the declarations before it (`Names`).  Neither blocks that have been closed nor the
slots of variables have a say.
-/

set_option autoImplicit false

namespace Opstack

/-! ## Names -/

/-- The names of the variables that can be seen at a place. -/
structure Names where
  /-- Those that the innermost block has declared so far. -/
  block : List String := []
  /-- Those of the blocks around it. -/
  outer : List String := []

namespace Names

/-- A variable of this name can be seen. -/
def Sees (names : Names) (name : String) : Prop := name ∈ names.block ∨ name ∈ names.outer

/-- The names at the beginning of a new block. -/
def enter (names : Names) : Names := ⟨[], names.block ++ names.outer⟩

/-- The names behind a declaration. -/
def declare (names : Names) (name : String) : Names := { names with block := name :: names.block }

end Names

/-! ## Demands -/

/-- What a part of a function needs to be in order. -/
inductive Demand
  /-- The literal is one of its kind. -/
  | literal (token : Token)
  /-- The path is not empty and begins with a variable that can be seen. -/
  | path (names : Names) (steps : List Step)
  /-- The block that has declared these names has not declared this one. -/
  | fresh (block : List String) (name : String)
  /-- The record has so many fields. -/
  | record (type : String) (count : Nat)

/-- How the kind of a literal is named. -/
def LiteralKind.word : LiteralKind → String
  | .int => "int"
  | .double => "double"
  | .str => "str"
  | .bool => "bool"
  | .null => "null"

/-- The literal is one of its kind. -/
def Token.Parses (t : Token) : Prop :=
  match t.kind with
  | .int => ∃ n, Text.readInt64? t.lexeme = some n
  | .double => ∃ d, Double.ofText? t.lexeme = some d
  | .bool => t.lexeme = "true" ∨ t.lexeme = "false"
  | .str | .null => True

namespace Demand

/-- The demand is met. -/
def Met (table : RecordTable) : Demand → Prop
  | .literal token => token.Parses
  | .path names steps => ∃ step ∈ steps.head?, names.Sees step.name
  | .fresh block name => name ∉ block
  | .record type count => ∃ fields, table.lookup type = some fields ∧ fields.length = count

/-- What is said about a demand that is not met. -/
def complaint (table : RecordTable) : Demand → CompileError
  | .literal token => .invalidLiteral token.kind.word token.lexeme
  | .path _ [] => .emptyPath
  | .path _ (step :: _) => .unknownVariable step.name
  | .fresh _ name => .duplicateVariable name
  | .record type count =>
    match table.lookup type with
    | none => .unknownRecord type
    | some fields => .recordArity type fields.length count

end Demand

/-- The error is what is said about the first of the demands that is not met. -/
def Complains (table : RecordTable) (demands : List Demand) (e : CompileError) : Prop :=
  ∃ earlier d later, demands = earlier ++ d :: later ∧ (∀ d ∈ earlier, d.Met table) ∧
    ¬ d.Met table ∧ e = d.complaint table

/-! ## Expressions -/

section

variable (names : Names)

mutual

/-- What an expression demands. -/
def Expr.demands : Expr → List Demand
  | .literal token => [.literal token]
  | .path steps => .path names steps :: Step.allDemand steps
  | .call _ args => Expr.argsDemand args
  | .newRecord type args => .record type args.length :: Expr.allDemand args
  | .newArray _ length => length.demands
  | .not e => e.demands
  | .binary op lhs rhs =>
    if op.isSwapped then rhs.demands ++ lhs.demands else lhs.demands ++ rhs.demands

/-- What the arguments of a call demand, from the last to the first. -/
def Expr.argsDemand : List Expr → List Demand
  | [] => []
  | e :: rest => Expr.argsDemand rest ++ e.demands

/-- What expressions demand, from the first to the last. -/
def Expr.allDemand : List Expr → List Demand
  | [] => []
  | e :: rest => e.demands ++ Expr.allDemand rest

/-- What the index of a step demands, if it has one. -/
def Step.demands : Step → List Demand
  | .plain _ => []
  | .indexed _ index => index.demands

/-- What the indices of steps demand. -/
def Step.allDemand : List Step → List Demand
  | [] => []
  | step :: rest => step.demands ++ Step.allDemand rest

end

/-! ## Statements -/

/-- What the value that a declaration begins with demands. -/
def Expr.initDemand : Option Expr → List Demand
  | none => []
  | some e => e.demands names

/-- The names behind a statement. -/
def Stmt.namesBehind : Stmt → Names
  | .declare name _ _ => names.declare name
  | _ => names

end

mutual

/-- What a statement demands.  The variable of a counted loop has a block of its own, which its
first value is outside of. -/
def Stmt.demands (names : Names) : Stmt → List Demand
  | .ret e => e.demands names
  | .declare name _ init => Expr.initDemand names init ++ [.fresh names.block name]
  | .assign target e => .path names target :: Step.allDemand names target ++ e.demands names
  | .whileLoop cond body => cond.demands names ++ Stmt.allDemand names.enter body
  | .forLoop name first last body =>
    let inner := names.enter.declare name
    first.demands names ++ last.demands inner ++ Stmt.allDemand inner.enter body
  | .branch b => b.demands names
  | .call _ args => Expr.argsDemand names args

/-- What statements one after the other demand. -/
def Stmt.allDemand (names : Names) : List Stmt → List Demand
  | [] => []
  | s :: rest => s.demands names ++ Stmt.allDemand (s.namesBehind names) rest

/-- What an `if` with the arms that follow it demands. -/
def Branch.demands (names : Names) : Branch → List Demand
  | .arm cond body next orElse =>
    cond.demands names ++ Stmt.allDemand names.enter body ++ Branch.nextDemand names next ++
      Stmt.elseDemand names orElse

/-- What the next arm demands, if there is one. -/
def Branch.nextDemand (names : Names) : Option Branch → List Demand
  | none => []
  | some b => b.demands names

/-- What the `else` demands, if there is one. -/
def Stmt.elseDemand (names : Names) : Option (List Stmt) → List Demand
  | none => []
  | some body => Stmt.allDemand names.enter body

end

/-! ## Functions -/

/-- What parameters demand. -/
def paramsDemand (names : Names) : List String → List Demand
  | [] => []
  | name :: rest => .fresh names.block name :: paramsDemand (names.declare name) rest

/-- What a function demands.  Its parameters and the statements of its body share one block. -/
def Function.demands (f : Function) : List Demand :=
  paramsDemand {} f.params ++ Stmt.allDemand (f.params.foldl Names.declare {}) f.body

/-- The left operand of `>` is written last, so a complaint about the right one comes first. -/
example : Expr.demands {} (.binary .gt (.var "x") (.call "f" [.var "y", .var "z"])) =
    [.path {} [.plain "z"], .path {} [.plain "y"], .path {} [.plain "x"]] := rfl

end Opstack
