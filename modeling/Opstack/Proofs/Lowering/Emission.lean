import Opstack.Lowering.Program

/-!
# What the compiler writes

The compiler writes a routine from front to back and patches its jumps on the way, whereas
`lowerExpr` and `lowerStmt` put the code of a part together from the codes of its parts.  Both come
to the same: `emitStmt_written` says that writing a statement appends its code, and
`Function.lower_eq` that the routine of a function is its code, once the jumps have been checked.
Everything else about the compiler is then proved about the codes.

The one place where the two differ on the way is a jump forward.  While the instructions that it
passes over are being written it has no target, and `Draft.patchHere_written` is the moment at
which it gets the one that the code has had from the start.
-/

set_option autoImplicit false

namespace Opstack

/-! ## Drafts as lists of instructions -/

namespace Draft

/-- The draft in which a list of instructions has been written. -/
def written (name : String) (code : List Instr) (scope : Scope) : Draft :=
  { builder := { name, code := code.toArray }, scope }

variable (name : String) (code : List Instr) (scope : Scope)

@[simp] theorem scope_written : (written name code scope).scope = scope := rfl

@[simp] theorem nextIndex_written : (written name code scope).nextIndex = code.length := by
  simp [nextIndex, Builder.nextIndex, written]

@[simp] theorem enter_written :
    (written name code scope).enter = written name code scope.enter := rfl

@[simp] theorem leave_written :
    (written name code scope).leave = written name code scope.leave := rfl

@[simp] theorem emit_written (i : Instr) :
    (written name code scope).emit i = written name (code ++ [i]) scope := by
  simp [emit, Builder.emit, written]

@[simp] theorem emitAll_written (more : List Instr) :
    (written name code scope).emitAll more = written name (code ++ more) scope := by
  induction more generalizing code with
  | nil => simp [emitAll]
  | cons i more ih =>
    rw [emitAll, List.foldl_cons, emit_written, ← emitAll, ih, List.append_assoc]
    rfl

@[simp] theorem emitJump_written (op : Opcode) :
    (written name code scope).emitJump op =
      (written name (code ++ [{ op, arg := some .unpatched }]) scope, ⟨code.length⟩) := by
  simp [emitJump, Builder.emitJump, Builder.emit, Builder.nextIndex, written]

@[simp] theorem declare_written (x : String) :
    (written name code scope).declare x = do
      let (slot, scope) ← scope.declare x
      return (slot, written name code scope) := by
  rw [declare, scope_written]
  rfl

/-- A jump that is patched continues behind everything that has been written by then. -/
theorem patchHere_written {whole : List Instr} {site : Nat} (before later : List Instr)
    (op : Opcode) (arg : Option Operand) (hwhole : whole = before ++ { op, arg } :: later)
    (hsite : site = before.length) :
    (written name whole scope).patchHere ⟨site⟩ =
      written name (before ++ { op, arg := some (.target whole.length) } :: later) scope := by
  subst hwhole hsite
  simp [patchHere, Builder.patchHere, Builder.patch, Builder.nextIndex, written,
    List.modify_eq_take_cons_drop]

end Draft

open Draft

variable (table : RecordTable) (name : String)

/-! ## Expressions -/

mutual

/-- Writing an expression appends its code. -/
theorem emitExpr_written (scope : Scope) : ∀ (e : Expr) (before : List Instr),
    emitExpr table e (written name before scope) = do
      let code ← lowerExpr table scope e
      return written name (before ++ code) scope
  | .literal token, before => by simp [emitExpr, lowerExpr]
  | .path steps, before => by rw [emitExpr, lowerExpr, emitPath_written]
  | .call f args, before => by simp [emitExpr, lowerExpr, emitArgs_written]
  | .newRecord type args, before => by
    rw [emitExpr, lowerExpr]
    cases table.lookup type with
    | none => rfl
    | some fields =>
      by_cases h : fields.length = args.length
      · simp [if_pos h, emitFields_written]
      · simp only [if_neg h]
        rfl
  | .newArray _ length, before => by simp [emitExpr, lowerExpr, emitExpr_written]
  | .not e, before => by simp [emitExpr, lowerExpr, emitExpr_written]
  | .binary op lhs rhs, before => by
    rw [emitExpr, lowerExpr]
    split <;> simp [emitExpr_written]

theorem emitArgs_written (scope : Scope) : ∀ (es : List Expr) (before : List Instr),
    emitArgs table es (written name before scope) = do
      let code ← lowerArgs table scope es
      return written name (before ++ code) scope
  | [], before => by simp [emitArgs, lowerArgs, bind, Except.bind, pure, Except.pure]
  | e :: rest, before => by simp [emitArgs, lowerArgs, emitArgs_written, emitExpr_written]

theorem emitFields_written (scope : Scope) :
    ∀ (fields : List String) (es : List Expr) (before : List Instr),
    emitFields table fields es (written name before scope) = do
      let code ← lowerFields table scope fields es
      return written name (before ++ code) scope
  | [], es, before => by simp [emitFields, lowerFields, bind, Except.bind, pure, Except.pure]
  | _ :: _, [], before => by simp [emitFields, lowerFields, bind, Except.bind, pure, Except.pure]
  | field :: fields, e :: rest, before => by
    simp [emitFields, lowerFields, emitExpr_written, emitFields_written]

theorem emitPath_written (scope : Scope) : ∀ (steps : List Step) (before : List Instr),
    emitPath table steps (written name before scope) = do
      let code ← lowerPath table scope steps
      return written name (before ++ code) scope
  | [], _ => rfl
  | step :: rest, before => by
    simp [emitPath, lowerPath, emitIndex_written, emitSteps_written]

theorem emitSteps_written (scope : Scope) : ∀ (steps : List Step) (before : List Instr),
    emitSteps table steps (written name before scope) = do
      let code ← lowerSteps table scope steps
      return written name (before ++ code) scope
  | [], before => by simp [emitSteps, lowerSteps, bind, Except.bind, pure, Except.pure]
  | step :: rest, before => by
    simp [emitSteps, lowerSteps, emitIndex_written, emitSteps_written]

theorem emitIndex_written (scope : Scope) : ∀ (step : Step) (before : List Instr),
    emitIndex table step (written name before scope) = do
      let code ← lowerIndex table scope step
      return written name (before ++ code) scope
  | .plain _, before => by simp [emitIndex, lowerIndex, bind, Except.bind, pure, Except.pure]
  | .indexed _ index, before => by simp [emitIndex, lowerIndex, emitExpr_written]

end

/-! ## Statements -/

theorem emitInit_written (scope : Scope) (init : Option Expr) (before : List Instr) :
    emitInit table init (written name before scope) = do
      let code ← lowerInit table scope init
      return written name (before ++ code) scope := by
  cases init with
  | none => simp [emitInit, lowerInit, bind, Except.bind, pure, Except.pure]
  | some e => exact emitExpr_written table name scope e before

theorem emitFieldTarget_written (scope : Scope) : ∀ (steps : List Step) (before : List Instr),
    emitFieldTarget table steps (written name before scope) = do
      let (code, last) ← lowerFieldTarget table scope steps
      return (written name (before ++ code) scope, last)
  | [], _ => rfl
  | [.plain field], before => by
    simp [emitFieldTarget, lowerFieldTarget, bind, Except.bind, pure, Except.pure]
  | [.indexed field index], before => by
    simp [emitFieldTarget, lowerFieldTarget, emitExpr_written]
  | step :: next :: rest, before => by
    have ih := emitFieldTarget_written scope (next :: rest)
    rw [emitFieldTarget, lowerFieldTarget] <;> simp [emitIndex_written, ih]

theorem emitTarget_written (scope : Scope) (steps : List Step) (before : List Instr) :
    emitTarget table steps (written name before scope) = do
      let (code, last) ← lowerTarget table scope steps
      return (written name (before ++ code) scope, last) := by
  match steps with
  | [] => rfl
  | [.plain x] => simp [emitTarget, lowerTarget]
  | [.indexed x index] => simp [emitTarget, lowerTarget, emitExpr_written]
  | step :: next :: rest =>
    simp [emitTarget, lowerTarget, emitIndex_written, emitFieldTarget_written]

mutual

/-- Writing a statement appends its code. -/
theorem emitStmt_written : ∀ (s : Stmt) (before : List Instr) (scope : Scope),
    emitStmt table s (written name before scope) = do
      let (code, scope) ← lowerStmt table before.length scope s
      return written name (before ++ code) scope
  | .ret e, before, scope => by simp [emitStmt, lowerStmt, emitExpr_written]
  | .declare x _ init, before, scope => by simp [emitStmt, lowerStmt, emitInit_written]
  | .assign target e, before, scope => by
    simp [emitStmt, lowerStmt, emitTarget_written, emitExpr_written]
  | .whileLoop cond body, before, scope => by
    simp only [emitStmt, lowerStmt, emitExpr_written, emitStmts_written, bind_assoc, pure_bind,
      emitJump_written, enter_written, nextIndex_written, leave_written, emit_written,
      List.length_append, List.length_cons, List.length_nil]
    refine bind_congr fun test => bind_congr fun parts => ?_
    rw [patchHere_written name _ (before ++ test) (parts.1 ++ [.jmp before.length]) .jmpf
      (some .unpatched) (by simp) (by simp)]
    simp [Instr.jmpf, Nat.add_assoc, Nat.add_comm 1]
  | .forLoop x first last body, before, scope => by
    simp only [emitStmt, lowerStmt, emitExpr_written, emitStmts_written, bind_assoc, pure_bind,
      emitJump_written, enter_written, nextIndex_written, leave_written, emit_written,
      emitAll_written, declare_written, List.length_append, List.length_cons, List.length_nil]
    refine bind_congr fun init => bind_congr fun (slot, inner) => bind_congr fun bound => ?_
    refine congr (congrArg _ (by congr 1; omega)) (funext fun parts => ?_)
    rw [patchHere_written name _
      (before ++ init ++ .store slot :: .load slot :: bound ++ [.plain (.binary .cmple)])
      (parts.1 ++ countingCode x slot ++ [.jmp (before.length + init.length + 1)]) .jmpf
      (some .unpatched) (by simp) (by simp; omega)]
    simp [Instr.jmpf, countingCode, Nat.add_assoc, Nat.add_left_comm]
  | .branch b, before, scope => by rw [emitStmt, lowerStmt, emitBranch_written]
  | .call f args, before, scope => by simp [emitStmt, lowerStmt, emitArgs_written]

theorem emitStmts_written : ∀ (stmts : List Stmt) (before : List Instr) (scope : Scope),
    emitStmts table stmts (written name before scope) = do
      let (code, scope) ← lowerStmts table before.length scope stmts
      return written name (before ++ code) scope
  | [], before, scope => by simp [emitStmts, lowerStmts, bind, Except.bind, pure, Except.pure]
  | s :: rest, before, scope => by
    simp [emitStmts, lowerStmts, emitStmt_written, emitStmts_written]

theorem emitBranch_written : ∀ (b : Branch) (before : List Instr) (scope : Scope),
    emitBranch table b (written name before scope) = do
      let (code, scope) ← lowerBranch table before.length scope b
      return written name (before ++ code) scope
  | .arm cond body next orElse, before, scope => by
    simp only [emitBranch, lowerBranch, emitExpr_written, emitStmts_written, bind_assoc, pure_bind,
      emitJump_written, enter_written, leave_written, List.length_append, List.length_cons,
      List.length_nil]
    refine bind_congr fun test => bind_congr fun parts => ?_
    rw [patchHere_written name _ (before ++ test) (parts.1 ++ [⟨.jmp, some .unpatched, none⟩])
      .jmpf (some .unpatched) (by simp) (by simp), emitNext_written]
    simp only [emitElse_written, bind_assoc, pure_bind, List.length_append, List.length_cons,
      List.length_nil]
    refine congr (congrArg _ (by congr 1; omega)) (funext fun nextParts => ?_)
    refine congr (congrArg _ (by congr 1; omega)) (funext fun elseParts => ?_)
    rw [patchHere_written name _
      (before ++ test ++
        .jmpf (before.length + test.length + 1 + parts.1.length + 1) :: parts.1)
      (nextParts.1 ++ elseParts.1) .jmp (some .unpatched) (by simp [Instr.jmpf])
      (by simp; omega)]
    simp [Instr.jmpf, Instr.jmp, Nat.add_assoc, Nat.add_left_comm, Nat.add_comm 2]

theorem emitNext_written : ∀ (next : Option Branch) (before : List Instr) (scope : Scope),
    emitNext table next (written name before scope) = do
      let (code, scope) ← lowerNext table before.length scope next
      return written name (before ++ code) scope
  | none, before, scope => by simp [emitNext, lowerNext, bind, Except.bind, pure, Except.pure]
  | some b, before, scope => by rw [emitNext, lowerNext, emitBranch_written]

theorem emitElse_written : ∀ (orElse : Option (List Stmt)) (before : List Instr) (scope : Scope),
    emitElse table orElse (written name before scope) = do
      let (code, scope) ← lowerElse table before.length scope orElse
      return written name (before ++ code) scope
  | none, before, scope => by simp [emitElse, lowerElse, bind, Except.bind, pure, Except.pure]
  | some body, before, scope => by simp [emitElse, lowerElse, emitStmts_written]

end

/-! ## Functions -/

theorem emitParams_written : ∀ (params : List String) (before : List Instr) (scope : Scope),
    emitParams params (written name before scope) = do
      let (code, scope) ← lowerParams scope params
      return written name (before ++ code) scope
  | [], before, scope => by
    simp [emitParams, lowerParams, bind, Except.bind, pure, Except.pure]
  | x :: rest, before, scope => by simp [emitParams, lowerParams, emitParams_written]

namespace Function

variable (f : Function)

theorem draft_eq : f.draft table = do
    let (params, scope) ← lowerParams ({} : Scope).enter f.params
    let (body, scope) ← lowerStmts table params.length scope f.body
    return written f.name (params ++ body ++ endCode f.body) scope.leave := by
  have hblank : f.blank = written f.name [] ({} : Scope).enter := rfl
  simp [draft, hblank, emitParams_written, emitStmts_written]

/-- **The routine of a function is its code.**  What is left of the placeholders is the check of
the finished routine. -/
theorem lower_eq : f.lower table =
    f.code table >>= fun code => (Routine.ofCode f.name code.toArray).mapError .jump := by
  simp only [lower, draft_eq, code, bind_assoc, pure_bind]
  rfl

end Function

end Opstack
