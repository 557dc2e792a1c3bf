import Opstack.Source.Tree

/-!
# Renaming the variables of a function

A name stands for a variable where a function lists its parameters, where a `var` or a `for`
declares it, and in the first step of a path, be it in an expression or on the left of an
assignment.  The other steps of a path name fields; calls, `new` and declared types have names of
their own, and a literal may look like any name.

* `Function.rename` gives the variables other names and leaves everything else as it is.
* `Function.mentions` lists the names of variables that occur in a function.
* `Function.counters` lists those that its counted loops count in.
-/

set_option autoImplicit false

namespace Opstack

/-! ## Other names -/

mutual

/-- The expression with its variables renamed. -/
def Expr.rename (ρ : String → String) : Expr → Expr
  | .literal token => .literal token
  | .path steps => .path (Step.renamePath ρ steps)
  | .call name args => .call name (Expr.renameAll ρ args)
  | .newRecord type args => .newRecord type (Expr.renameAll ρ args)
  | .newArray type length => .newArray type (length.rename ρ)
  | .not e => .not (e.rename ρ)
  | .binary op lhs rhs => .binary op (lhs.rename ρ) (rhs.rename ρ)

/-- The expressions with their variables renamed. -/
def Expr.renameAll (ρ : String → String) : List Expr → List Expr
  | [] => []
  | e :: rest => e.rename ρ :: Expr.renameAll ρ rest

/-- The path with the variable that it begins with renamed, and those in its indices. -/
def Step.renamePath (ρ : String → String) : List Step → List Step
  | [] => []
  | step :: rest => step.withName ρ (ρ step.name) :: Step.renameFields ρ rest

/-- The fields of a path with the variables in their indices renamed. -/
def Step.renameFields (ρ : String → String) : List Step → List Step
  | [] => []
  | step :: rest => step.withName ρ step.name :: Step.renameFields ρ rest

/-- The step with this name, and with the variables in its index renamed. -/
def Step.withName (ρ : String → String) : Step → String → Step
  | .plain _, name => .plain name
  | .indexed _ index, name => .indexed name (index.rename ρ)

end

mutual

/-- The statement with its variables renamed. -/
def Stmt.rename (ρ : String → String) : Stmt → Stmt
  | .ret e => .ret (e.rename ρ)
  | .declare name type init => .declare (ρ name) type (init.map (Expr.rename ρ))
  | .assign target e => .assign (Step.renamePath ρ target) (e.rename ρ)
  | .whileLoop cond body => .whileLoop (cond.rename ρ) (Stmt.renameAll ρ body)
  | .forLoop name first last body =>
    .forLoop (ρ name) (first.rename ρ) (last.rename ρ) (Stmt.renameAll ρ body)
  | .branch b => .branch (b.rename ρ)
  | .call name args => .call name (Expr.renameAll ρ args)

/-- The statements with their variables renamed. -/
def Stmt.renameAll (ρ : String → String) : List Stmt → List Stmt
  | [] => []
  | s :: rest => s.rename ρ :: Stmt.renameAll ρ rest

/-- The `if` with its variables renamed. -/
def Branch.rename (ρ : String → String) : Branch → Branch
  | .arm cond body next orElse =>
    .arm (cond.rename ρ) (Stmt.renameAll ρ body) (Branch.renameNext ρ next)
      (Stmt.renameElse ρ orElse)

/-- The next arm, if there is one, with its variables renamed. -/
def Branch.renameNext (ρ : String → String) : Option Branch → Option Branch
  | none => none
  | some b => some (b.rename ρ)

/-- The `else`, if there is one, with its variables renamed. -/
def Stmt.renameElse (ρ : String → String) : Option (List Stmt) → Option (List Stmt)
  | none => none
  | some body => some (Stmt.renameAll ρ body)

end

/-- The function with its variables renamed. -/
def Function.rename (ρ : String → String) (f : Function) : Function :=
  { f with params := f.params.map ρ, body := Stmt.renameAll ρ f.body }

/-! ## The names that occur -/

mutual

/-- The variables that the expression mentions. -/
def Expr.mentions : Expr → List String
  | .literal _ => []
  | .path steps => Step.pathMentions steps
  | .call _ args => Expr.allMention args
  | .newRecord _ args => Expr.allMention args
  | .newArray _ length => length.mentions
  | .not e => e.mentions
  | .binary _ lhs rhs => lhs.mentions ++ rhs.mentions

/-- The variables that the expressions mention. -/
def Expr.allMention : List Expr → List String
  | [] => []
  | e :: rest => e.mentions ++ Expr.allMention rest

/-- The variable that the path begins with, and those that its indices mention. -/
def Step.pathMentions : List Step → List String
  | [] => []
  | step :: rest => step.name :: (step.indexMentions ++ Step.fieldsMention rest)

/-- The variables that the indices of the steps mention. -/
def Step.fieldsMention : List Step → List String
  | [] => []
  | step :: rest => step.indexMentions ++ Step.fieldsMention rest

/-- The variables that the index, if there is one, mentions. -/
def Step.indexMentions : Step → List String
  | .plain _ => []
  | .indexed _ index => index.mentions

end

mutual

/-- The variables that the statement mentions or declares. -/
def Stmt.mentions : Stmt → List String
  | .ret e => e.mentions
  | .declare name _ init => name :: init.elim [] Expr.mentions
  | .assign target e => Step.pathMentions target ++ e.mentions
  | .whileLoop cond body => cond.mentions ++ Stmt.allMention body
  | .forLoop name first last body =>
    name :: (first.mentions ++ (last.mentions ++ Stmt.allMention body))
  | .branch b => b.mentions
  | .call _ args => Expr.allMention args

/-- The variables that the statements mention or declare. -/
def Stmt.allMention : List Stmt → List String
  | [] => []
  | s :: rest => s.mentions ++ Stmt.allMention rest

/-- The variables that the arms of the `if` mention or declare. -/
def Branch.mentions : Branch → List String
  | .arm cond body next orElse =>
    cond.mentions ++ (Stmt.allMention body ++ (Branch.nextMentions next ++
      Stmt.elseMentions orElse))

/-- The variables that the next arm, if there is one, mentions or declares. -/
def Branch.nextMentions : Option Branch → List String
  | none => []
  | some b => b.mentions

/-- The variables that the `else`, if there is one, mentions or declares. -/
def Stmt.elseMentions : Option (List Stmt) → List String
  | none => []
  | some body => Stmt.allMention body

end

/-- The variables that the function mentions or declares. -/
def Function.mentions (f : Function) : List String := f.params ++ Stmt.allMention f.body

/-! ## Counted loops -/

mutual

/-- The variables of the counted loops in the statement. -/
def Stmt.counters : Stmt → List String
  | .whileLoop _ body => Stmt.allCounters body
  | .forLoop name _ _ body => name :: Stmt.allCounters body
  | .branch b => b.counters
  | _ => []

/-- The variables of the counted loops in the statements. -/
def Stmt.allCounters : List Stmt → List String
  | [] => []
  | s :: rest => s.counters ++ Stmt.allCounters rest

/-- The variables of the counted loops in the arms of the `if`. -/
def Branch.counters : Branch → List String
  | .arm _ body next orElse =>
    Stmt.allCounters body ++ (Branch.nextCounters next ++ Stmt.elseCounters orElse)

/-- The variables of the counted loops in the next arm, if there is one. -/
def Branch.nextCounters : Option Branch → List String
  | none => []
  | some b => b.counters

/-- The variables of the counted loops in the `else`, if there is one. -/
def Stmt.elseCounters : Option (List Stmt) → List String
  | none => []
  | some body => Stmt.allCounters body

end

/-- The variables of the counted loops in the function. -/
def Function.counters (f : Function) : List String := Stmt.allCounters f.body

/-! ## What stays -/

section

variable (ρ : String → String)

@[simp] theorem Step.name_withName (step : Step) (name : String) :
    (step.withName ρ name).name = name := by
  cases step <;> rfl

@[simp] theorem Expr.length_renameAll (es : List Expr) :
    (Expr.renameAll ρ es).length = es.length := by
  induction es with
  | nil => rfl
  | cons e rest ih => exact congrArg (· + 1) ih

theorem Stmt.renameAll_eq_map (l : List Stmt) :
    Stmt.renameAll ρ l = l.map (Stmt.rename ρ) := by
  induction l with
  | nil => rfl
  | cons s rest ih => exact congrArg (s.rename ρ :: ·) ih

end

end Opstack
