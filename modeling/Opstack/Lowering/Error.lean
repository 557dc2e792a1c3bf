import Opstack.Code.Routine

/-!
# Why a program cannot be compiled

`CompileError` lists the reasons, each with what its message names.
-/

set_option autoImplicit false

namespace Opstack

/-- A reason why a function cannot be compiled. -/
inductive CompileError
  /-- The variable is not declared here. -/
  | unknownVariable (name : String)
  /-- The block has a variable of this name already. -/
  | duplicateVariable (name : String)
  /-- A path without steps. -/
  | emptyPath
  /-- No record has this name. -/
  | unknownRecord (name : String)
  /-- The number of initial values is not the number of fields. -/
  | recordArity (name : String) (expected found : Nat)
  /-- The literal is no literal of its kind. -/
  | invalidLiteral (kind lexeme : String)
  /-- A jump of the finished routine is not in order. -/
  | jump (e : JumpError)
deriving DecidableEq

/-- The wording of a compile error. -/
def CompileError.message : CompileError → String
  | .unknownVariable name => s!"Variable '{name}' is not declared in this scope"
  | .duplicateVariable name => s!"Variable '{name}' already declared in this scope"
  | .emptyPath => "Assignment target is empty"
  | .unknownRecord name => s!"Struct '{name}' is not defined"
  | .recordArity name expected found =>
    s!"Struct '{name}' has {expected} fields, {found} initializers given"
  | .invalidLiteral kind lexeme => s!"Invalid {kind} literal '{lexeme}'"
  | .jump e => e.message

end Opstack
