import Mathlib.Data.List.Find
import Mathlib.Data.Set.Function
import Opstack.Proofs.Lowering.Jumps
import Opstack.Proofs.Source.VariableNames

/-!
# What the names of variables are good for

The compiler compares the names of variables with each other, and that is all it does with them: a
function whose variables are renamed has the same code, as long as two of its variables that had
different names still have (`Function.lower_rename`).  The one trace of a name in a routine is the
comment behind a counted loop.

Two runs of the compiler are compared, of which `Renames` says that the second one is the first one
renamed; `Renames.bind` puts parts together.  They look up names in two scopes of the same shape,
which stay so through every block and every declaration (`Scope.Among.findsRenamed`,
`Scope.Among.renames_declare`).
-/

set_option autoImplicit false

namespace Opstack

/-! ## Errors and comments -/

/-- The error with the variable that it names renamed. -/
def CompileError.rename (ρ : String → String) : CompileError → CompileError
  | .unknownVariable name => .unknownVariable (ρ name)
  | .duplicateVariable name => .duplicateVariable (ρ name)
  | e => e

/-- The comment, with the variable renamed if it says that one of these variables is counted. -/
def renameComment (ρ : String → String) (counters : List String) (comment : String) : String :=
  match counters.find? fun name => name ++ " += 1" == comment with
  | some name => ρ name ++ " += 1"
  | none => comment

/-- The same instruction, with the counted variable renamed in its comment. -/
def Instr.rename (ρ : String → String) (counters : List String) (i : Instr) : Instr :=
  { i with comment := i.comment.map (renameComment ρ counters) }

/-- The same instructions, with the counted variables renamed in their comments. -/
def Routine.rename (ρ : String → String) (counters : List String) (r : Routine) : Routine :=
  { r with code := r.code.map (Instr.rename ρ counters) }

section

variable {ρ : String → String} {counters : List String}

theorem renameComment_counting {name : String} (h : name ∈ counters) :
    renameComment ρ counters (name ++ " += 1") = ρ name ++ " += 1" := by
  rw [renameComment]
  split
  · rename_i other hother
    have heq := List.find?_some hother
    rw [beq_iff_eq, String.append_left_inj] at heq
    rw [heq]
  · rename_i hnone
    exact absurd (beq_self_eq_true _) (List.find?_eq_none.mp hnone name h)

/-- A comment that does not end as those of counted loops do stays as it is. -/
theorem renameComment_other {comment : String} (h : comment.toList.getLast? ≠ some '1') :
    renameComment ρ counters comment = comment := by
  rw [renameComment]
  split
  · rename_i name hname
    have heq := List.find?_some hname
    rw [beq_iff_eq] at heq
    refine absurd ?_ h
    rw [← heq, String.toList_append, List.getLast?_append]
    rfl
  · rfl

end

/-! ## Two runs -/

/-- The second run is the first one renamed: it ends with the result renamed, of which this holds
before it is renamed, or with the error renamed. -/
def Renames {α : Type} (ρ : String → String) (g : α → α) (Q : α → Prop) :
    Except CompileError α → Except CompileError α → Prop
  | .ok a, r => Q a ∧ r = .ok (g a)
  | .error e, r => r = .error (e.rename ρ)

section

variable {α β : Type} {ρ : String → String} {g : α → α} {h : β → β} {Q : α → Prop} {R : β → Prop}
  {x x' : Except CompileError α}

theorem renames_ok {a : α} (ha : Q a) : Renames ρ g Q (.ok a) (.ok (g a)) := ⟨ha, rfl⟩

/-- **One part after the other.** -/
theorem Renames.bind {k k' : α → Except CompileError β} (hx : Renames ρ g Q x x')
    (hk : ∀ a, Q a → Renames ρ h R (k a) (k' (g a))) : Renames ρ h R (x >>= k) (x' >>= k') := by
  cases x with
  | ok a =>
    obtain ⟨ha, rfl⟩ := hx
    exact hk a ha
  | error e =>
    obtain rfl : x' = _ := hx
    rfl

/-- The result of a part is put into another form. -/
theorem Renames.map {f f' : α → β} (hx : Renames ρ g Q x x')
    (hf : ∀ a, Q a → R (f a) ∧ f' (g a) = h (f a)) :
    Renames ρ h R (x >>= fun a => pure (f a)) (x' >>= fun a => pure (f' a)) :=
  hx.bind fun a ha => ⟨(hf a ha).1, congrArg Except.ok (hf a ha).2⟩

theorem Renames.eq (hx : Renames ρ g Q x x') :
    x' = (x.map g).mapError (CompileError.rename ρ) := by
  cases x with
  | ok a => exact hx.2
  | error e => exact hx

end

/-- The second run gives the code of the first one renamed. -/
abbrev RenamesCode (ρ : String → String) (counters : List String) :
    Except CompileError (List Instr) → Except CompileError (List Instr) → Prop :=
  Renames ρ (List.map (Instr.rename ρ counters)) fun _ => True

/-! ## Scopes -/

/-- The variable with another name. -/
def Local.rename (ρ : String → String) (l : Local) : Local := { l with name := ρ l.name }

namespace Scope

/-- The scope with its variables renamed. -/
def rename (ρ : String → String) (s : Scope) : Scope :=
  { s with locals := s.locals.map (Local.rename ρ) }

/-- The variables of the scope have names of the list. -/
def Among (s : Scope) (names : List String) : Prop := ∀ l ∈ s.locals, l.name ∈ names

variable {ρ : String → String} {names : List String} {scope : Scope} {l : Local} {name : String}

theorem Among.enter (h : scope.Among names) : scope.enter.Among names := h

theorem Among.leave (h : scope.Among names) : scope.leave.Among names :=
  fun l hl => h l ((List.dropWhile_sublist _).mem hl)

theorem leave_rename : (scope.rename ρ).leave = scope.leave.rename ρ := by
  rw [leave, leave, rename, rename, List.dropWhile_map]
  rfl

/-- Renamed, two names are the same if they were. -/
theorem name_beq_rename (hρ : Set.InjOn ρ {name | name ∈ names}) (hl : l.name ∈ names)
    (hname : name ∈ names) : ((l.rename ρ).name == ρ name) = (l.name == name) := by
  rw [Bool.eq_iff_iff, beq_iff_eq, beq_iff_eq]
  exact hρ.eq_iff hl hname

/-- Renamed, the names have the slots that they had, or are unknown as they were. -/
def FindsRenamed (scope : Scope) (ρ : String → String) (names : List String) : Prop :=
  ∀ name ∈ names,
    Renames ρ id (fun _ => True) (scope.resolve name) ((scope.rename ρ).resolve (ρ name))

/-- **A variable has the slot that it had.** -/
theorem Among.findsRenamed (hρ : Set.InjOn ρ {name | name ∈ names}) (h : scope.Among names) :
    scope.FindsRenamed ρ names := by
  intro name hname
  have hfind : scope.locals.find? (fun l => (l.rename ρ).name == ρ name) =
      scope.locals.find? fun l => l.name == name :=
    List.find?_congr fun l hl => name_beq_rename hρ (h l hl) hname
  have hsame : (scope.rename ρ).resolve? (ρ name) = scope.resolve? name := by
    rw [resolve?, rename, List.find?_map, Option.map_map]
    exact congrArg (Option.map Local.slot) hfind
  rw [resolve, resolve, hsame]
  cases scope.resolve? name with
  | some slot => exact renames_ok trivial
  | none => rfl

/-- **A variable gets the slot that it got**, and the scopes stay alike. -/
theorem Among.renames_declare (hρ : Set.InjOn ρ {name | name ∈ names}) (h : scope.Among names)
    (hname : name ∈ names) :
    Renames ρ (fun r => (r.1, r.2.rename ρ)) (fun r => r.2.Among names) (scope.declare name)
      ((scope.rename ρ).declare (ρ name)) := by
  have hinner : (scope.rename ρ).innermost = scope.innermost.map (Local.rename ρ) :=
    List.takeWhile_map ..
  have hany : ((scope.rename ρ).innermost.any fun l => l.name == ρ name) =
      scope.innermost.any fun l => l.name == name := by
    rw [hinner, List.any_map, Bool.eq_iff_iff, List.any_eq_true, List.any_eq_true]
    refine exists_congr fun l => and_congr_right fun hl => ?_
    rw [Function.comp_apply, name_beq_rename hρ (h l ((List.takeWhile_sublist _).mem hl)) hname]
  rw [declare, declare, hany]
  split
  · rfl
  · exact renames_ok (List.forall_mem_cons.mpr ⟨hname, h⟩)

end Scope

/-! ## Expressions -/

section

variable {ρ : String → String} {counters names : List String} {scope : Scope}

/-- The code of a call has no comments. -/
theorem map_rename_callCode (name : String) :
    (callCode name).map (Instr.rename ρ counters) = callCode name := by
  unfold callCode builtin?
  split <;> rfl

/-- Code without the comments of loops stays as it is behind other code. -/
theorem map_rename_append {code more : List Instr}
    (h : more.map (Instr.rename ρ counters) = more) :
    code.map (Instr.rename ρ counters) ++ more = (code ++ more).map (Instr.rename ρ counters) := by
  rw [List.map_append, h]

/-- A literal is not read as a variable. -/
theorem Token.renames_value (token : Token) :
    Renames ρ id (fun _ => True) token.value token.value := by
  obtain ⟨kind, lexeme⟩ := token
  cases kind with
  | str | null => exact renames_ok trivial
  | int | double =>
    rw [value]
    dsimp only
    split
    · exact renames_ok trivial
    · rfl
  | bool =>
    rw [value]
    dsimp only
    split
    · exact renames_ok trivial
    · split
      · exact renames_ok trivial
      · rfl

variable (counters) (table : RecordTable)

mutual

/-- An expression has the code that it had. -/
theorem renames_lowerExpr (h : scope.FindsRenamed ρ names) :
    ∀ e : Expr, e.mentions ⊆ names →
      RenamesCode ρ counters (lowerExpr table scope e)
        (lowerExpr table (scope.rename ρ) (e.rename ρ))
  | .literal token, _ => by
    rw [Expr.rename, lowerExpr, lowerExpr]
    exact token.renames_value.map fun _ _ => ⟨trivial, rfl⟩
  | .path steps, hnames => by
    rw [Expr.rename, lowerExpr, lowerExpr]
    exact renames_lowerPath h steps hnames
  | .call name args, hnames => by
    rw [Expr.rename, lowerExpr, lowerExpr]
    exact (renames_lowerArgs h args hnames).map fun _ _ =>
      ⟨trivial, map_rename_append (map_rename_callCode name)⟩
  | .newRecord type args, hnames => by
    rw [Expr.rename, lowerExpr, lowerExpr]
    cases table.lookup type with
    | none => rfl
    | some fields =>
      dsimp only
      rw [Expr.length_renameAll]
      split
      · exact (renames_lowerFields h fields args hnames).map fun _ _ => ⟨trivial, rfl⟩
      · rfl
  | .newArray _ length, hnames => by
    rw [Expr.rename, lowerExpr, lowerExpr]
    exact (renames_lowerExpr h length hnames).map fun _ _ => ⟨trivial, map_rename_append rfl⟩
  | .not e, hnames => by
    rw [Expr.rename, lowerExpr, lowerExpr]
    exact (renames_lowerExpr h e hnames).map fun _ _ => ⟨trivial, map_rename_append rfl⟩
  | .binary op lhs rhs, hnames => by
    obtain ⟨hlhs, hrhs⟩ := List.append_subset.mp hnames
    rw [Expr.rename, lowerExpr, lowerExpr]
    split
    · refine (renames_lowerExpr h rhs hrhs).bind fun _ _ =>
        (renames_lowerExpr h lhs hlhs).map fun _ _ => ⟨trivial, ?_⟩
      rw [← List.map_append]
      exact map_rename_append rfl
    · refine (renames_lowerExpr h lhs hlhs).bind fun _ _ =>
        (renames_lowerExpr h rhs hrhs).map fun _ _ => ⟨trivial, ?_⟩
      rw [← List.map_append]
      exact map_rename_append rfl

theorem renames_lowerArgs (h : scope.FindsRenamed ρ names) :
    ∀ es : List Expr, Expr.allMention es ⊆ names →
      RenamesCode ρ counters (lowerArgs table scope es)
        (lowerArgs table (scope.rename ρ) (Expr.renameAll ρ es))
  | [], _ => renames_ok trivial
  | e :: rest, hnames => by
    obtain ⟨he, hrest⟩ := List.append_subset.mp hnames
    rw [Expr.renameAll, lowerArgs, lowerArgs]
    exact (renames_lowerArgs h rest hrest).bind fun _ _ =>
      (renames_lowerExpr h e he).map fun _ _ => ⟨trivial, List.map_append.symm⟩

theorem renames_lowerFields (h : scope.FindsRenamed ρ names) :
    ∀ (fields : List String) (es : List Expr), Expr.allMention es ⊆ names →
      RenamesCode ρ counters (lowerFields table scope fields es)
        (lowerFields table (scope.rename ρ) fields (Expr.renameAll ρ es))
  | field :: fields, e :: rest, hnames => by
    obtain ⟨he, hrest⟩ := List.append_subset.mp hnames
    rw [Expr.renameAll, lowerFields, lowerFields]
    refine (renames_lowerExpr h e he).bind fun _ _ =>
      (renames_lowerFields h fields rest hrest).map fun _ _ => ⟨trivial, ?_⟩
    rw [List.map_append]
    rfl
  | [], [], _ => renames_ok trivial
  | [], _ :: _, _ => renames_ok trivial
  | _ :: _, [], _ => renames_ok trivial

theorem renames_lowerPath (h : scope.FindsRenamed ρ names) :
    ∀ steps : List Step, Step.pathMentions steps ⊆ names →
      RenamesCode ρ counters (lowerPath table scope steps)
        (lowerPath table (scope.rename ρ) (Step.renamePath ρ steps))
  | [], _ => rfl
  | step :: rest, hnames => by
    obtain ⟨hstep, hmore⟩ := List.cons_subset.mp hnames
    obtain ⟨hindex, hrest⟩ := List.append_subset.mp hmore
    rw [Step.renamePath, lowerPath, lowerPath, Step.name_withName]
    refine (h step.name hstep).bind fun _ _ =>
      (renames_lowerIndex h step (ρ step.name) hindex).bind fun _ _ =>
        (renames_lowerSteps h rest hrest).map fun _ _ => ⟨trivial, ?_⟩
    rw [List.map_append]
    rfl

theorem renames_lowerSteps (h : scope.FindsRenamed ρ names) :
    ∀ steps : List Step, Step.fieldsMention steps ⊆ names →
      RenamesCode ρ counters (lowerSteps table scope steps)
        (lowerSteps table (scope.rename ρ) (Step.renameFields ρ steps))
  | [], _ => renames_ok trivial
  | step :: rest, hnames => by
    obtain ⟨hindex, hrest⟩ := List.append_subset.mp hnames
    rw [Step.renameFields, lowerSteps, lowerSteps, Step.name_withName]
    refine (renames_lowerIndex h step step.name hindex).bind fun _ _ =>
      (renames_lowerSteps h rest hrest).map fun _ _ => ⟨trivial, ?_⟩
    rw [List.map_append]
    rfl

theorem renames_lowerIndex (h : scope.FindsRenamed ρ names) :
    ∀ (step : Step) (name : String), step.indexMentions ⊆ names →
      RenamesCode ρ counters (lowerIndex table scope step)
        (lowerIndex table (scope.rename ρ) (step.withName ρ name))
  | .plain _, _, _ => renames_ok trivial
  | .indexed _ index, _, hnames => by
    rw [Step.withName, lowerIndex, lowerIndex]
    exact (renames_lowerExpr h index hnames).map fun _ _ => ⟨trivial, map_rename_append rfl⟩

end

/-! ## Assignment -/

/-- The second run gives the code of the first one renamed, and the same instruction to come after
it. -/
abbrev RenamesTarget (ρ : String → String) (counters : List String) :
    Except CompileError (List Instr × Instr) → Except CompileError (List Instr × Instr) → Prop :=
  Renames ρ (fun r => (r.1.map (Instr.rename ρ counters), r.2.rename ρ counters)) fun _ => True

theorem renames_lowerFieldTarget (h : scope.FindsRenamed ρ names) :
    ∀ steps : List Step, Step.fieldsMention steps ⊆ names →
      RenamesTarget ρ counters (lowerFieldTarget table scope steps)
        (lowerFieldTarget table (scope.rename ρ) (Step.renameFields ρ steps))
  | [], _ => rfl
  | [.plain _], _ => renames_ok trivial
  | [.indexed _ index], hnames =>
    (renames_lowerExpr counters table h index (List.append_subset.mp hnames).1).map fun _ _ =>
      ⟨trivial, rfl⟩
  | step :: next :: rest, hnames => by
    obtain ⟨hindex, hrest⟩ := List.append_subset.mp hnames
    rw [lowerFieldTarget_cons, Step.renameFields, Step.renameFields, lowerFieldTarget_cons,
      Step.name_withName, ← Step.renameFields]
    refine (renames_lowerIndex counters table h step step.name hindex).bind fun _ _ =>
      (renames_lowerFieldTarget h (next :: rest) hrest).map fun _ _ => ⟨trivial, ?_⟩
    rw [List.map_append]
    rfl

theorem renames_lowerTarget (h : scope.FindsRenamed ρ names) :
    ∀ steps : List Step, Step.pathMentions steps ⊆ names →
      RenamesTarget ρ counters (lowerTarget table scope steps)
        (lowerTarget table (scope.rename ρ) (Step.renamePath ρ steps))
  | [], _ => rfl
  | [.plain name], hnames =>
    (h name (List.cons_subset.mp hnames).1).map fun _ _ => ⟨trivial, rfl⟩
  | [.indexed name index], hnames => by
    obtain ⟨hname, hindex⟩ := List.cons_subset.mp hnames
    exact (h name hname).bind fun _ _ =>
      (renames_lowerExpr counters table h index (List.append_subset.mp hindex).1).map fun _ _ =>
        ⟨trivial, rfl⟩
  | step :: next :: rest, hnames => by
    obtain ⟨hstep, hmore⟩ := List.cons_subset.mp hnames
    obtain ⟨hindex, hrest⟩ := List.append_subset.mp hmore
    rw [lowerTarget_cons, Step.renamePath, Step.renameFields, lowerTarget_cons, Step.name_withName,
      ← Step.renameFields]
    have hlater := renames_lowerFieldTarget counters table h (next :: rest) hrest
    refine (h step.name hstep).bind fun _ _ =>
      (renames_lowerIndex counters table h step (ρ step.name) hindex).bind fun _ _ =>
        hlater.map fun _ _ => ⟨trivial, ?_⟩
    rw [List.map_append]
    rfl

theorem renames_lowerInit (h : scope.FindsRenamed ρ names) (init : Option Expr)
    (hnames : init.elim [] Expr.mentions ⊆ names) :
    RenamesCode ρ counters (lowerInit table scope init)
      (lowerInit table (scope.rename ρ) (init.map (Expr.rename ρ))) := by
  cases init with
  | none => exact renames_ok trivial
  | some e => exact renames_lowerExpr counters table h e hnames

end

/-! ## Statements -/

/-- A piece of code and the scope behind it, renamed. -/
def renamePiece (ρ : String → String) (counters : List String) (r : List Instr × Scope) :
    List Instr × Scope :=
  (r.1.map (Instr.rename ρ counters), r.2.rename ρ)

/-- The second run gives the code and the scope of the first one renamed. -/
abbrev RenamesPiece (ρ : String → String) (counters names : List String) :
    Except CompileError (List Instr × Scope) → Except CompileError (List Instr × Scope) → Prop :=
  Renames ρ (renamePiece ρ counters) fun r => r.2.Among names

section

variable {ρ : String → String} {counters names : List String}

theorem map_rename_countingCode {name : String} (h : name ∈ counters) (slot : Nat) :
    (countingCode name slot).map (Instr.rename ρ counters) = countingCode (ρ name) slot := by
  have hlast : ((Instr.store slot).withComment (name ++ " += 1")).rename ρ counters =
      (Instr.store slot).withComment (ρ name ++ " += 1") :=
    congrArg (Instr.store slot).withComment (renameComment_counting h)
  exact congrArg (fun i => [.load slot, .push (.int 1), .plain (.binary .add), i]) hlast

theorem rename_dropResult : dropResult.rename ρ counters = dropResult :=
  congrArg (Instr.plain .pop).withComment (renameComment_other (by decide))

variable (table : RecordTable)

mutual

/-- A statement has the code that it had, and the scopes behind it are alike. -/
theorem renames_lowerStmt (hρ : Set.InjOn ρ {name | name ∈ names}) :
    ∀ (s : Stmt) (start : Nat) {scope : Scope}, scope.Among names → s.mentions ⊆ names →
      s.counters ⊆ counters →
        RenamesPiece ρ counters names (lowerStmt table start scope s)
          (lowerStmt table start (scope.rename ρ) (s.rename ρ))
  | .ret e, start, scope, h, hnames, _ => by
    rw [Stmt.rename, lowerStmt, lowerStmt]
    exact (renames_lowerExpr counters table (h.findsRenamed hρ) e hnames).map fun _ _ =>
      ⟨h, congrArg (·, scope.rename ρ) (map_rename_append rfl)⟩
  | .declare name _ init, start, scope, h, hnames, _ => by
    obtain ⟨hname, hinit⟩ := List.cons_subset.mp hnames
    rw [Stmt.rename, lowerStmt, lowerStmt]
    exact (renames_lowerInit counters table (h.findsRenamed hρ) init hinit).bind fun _ _ =>
      (h.renames_declare hρ hname).map fun r hr =>
        ⟨hr, congrArg (·, r.2.rename ρ) (map_rename_append rfl)⟩
  | .assign target e, start, scope, h, hnames, _ => by
    obtain ⟨htarget, he⟩ := List.append_subset.mp hnames
    rw [Stmt.rename, lowerStmt, lowerStmt]
    refine (renames_lowerTarget counters table (h.findsRenamed hρ) target htarget).bind fun r _ =>
      (renames_lowerExpr counters table (h.findsRenamed hρ) e he).map fun code _ => ⟨h, ?_⟩
    rw [renamePiece, List.map_append, List.map_append]
    rfl
  | .whileLoop cond body, start, scope, h, hnames, hcounters => by
    obtain ⟨hcond, hbody⟩ := List.append_subset.mp hnames
    rw [Stmt.rename, lowerStmt, lowerStmt]
    refine (renames_lowerExpr counters table (h.findsRenamed hρ) cond hcond).bind fun test _ => ?_
    -- The targets of jumps are computed from lengths, which a renaming keeps.
    rw [List.length_map]
    refine (renames_lowerStmts hρ body _ h.enter hbody hcounters).map fun r hr => ⟨hr.leave, ?_⟩
    simp only [renamePiece, List.length_map, List.map_append, Scope.leave_rename]
    rfl
  | .forLoop name first last body, start, scope, h, hnames, hcounters => by
    obtain ⟨hname, hmore⟩ := List.cons_subset.mp hnames
    obtain ⟨hfirst, hmore⟩ := List.append_subset.mp hmore
    obtain ⟨hlast, hbody⟩ := List.append_subset.mp hmore
    obtain ⟨hcounter, hcounters⟩ := List.cons_subset.mp hcounters
    rw [Stmt.rename, lowerStmt, lowerStmt]
    -- The first value does not see the variable of the loop yet, the last one does.
    refine (renames_lowerExpr counters table (h.enter.findsRenamed hρ) first hfirst).bind
      fun init _ => (h.enter.renames_declare hρ hname).bind fun r hr =>
        (renames_lowerExpr counters table (hr.findsRenamed hρ) last hlast).bind fun bound _ => ?_
    have htest : Instr.load r.1 :: bound.map (Instr.rename ρ counters) ++
        [Instr.plain (.binary .cmple)] =
          (Instr.load r.1 :: bound ++ [Instr.plain (.binary .cmple)]).map
            (Instr.rename ρ counters) :=
      congrArg (Instr.load r.1 :: ·) (map_rename_append rfl)
    dsimp only
    rw [htest, List.length_map, List.length_map]
    generalize Instr.load r.1 :: bound ++ [Instr.plain (.binary .cmple)] = test
    refine (renames_lowerStmts hρ body _ hr.enter hbody hcounters).map fun r' hr' =>
      ⟨hr'.leave.leave, ?_⟩
    simp only [renamePiece, List.length_map, List.map_append, Scope.leave_rename,
      ← map_rename_countingCode hcounter]
    rfl
  | .branch b, start, scope, h, hnames, hcounters => by
    rw [Stmt.rename, lowerStmt, lowerStmt]
    exact renames_lowerBranch hρ b start h hnames hcounters
  | .call name args, start, scope, h, hnames, _ => by
    rw [Stmt.rename, lowerStmt, lowerStmt]
    refine (renames_lowerArgs counters table (h.findsRenamed hρ) args hnames).map fun _ _ =>
      ⟨h, ?_⟩
    rw [renamePiece, List.map_append, List.map_append, map_rename_callCode, List.map_singleton,
      rename_dropResult]

theorem renames_lowerStmts (hρ : Set.InjOn ρ {name | name ∈ names}) :
    ∀ (l : List Stmt) (start : Nat) {scope : Scope}, scope.Among names →
      Stmt.allMention l ⊆ names → Stmt.allCounters l ⊆ counters →
        RenamesPiece ρ counters names (lowerStmts table start scope l)
          (lowerStmts table start (scope.rename ρ) (Stmt.renameAll ρ l))
  | [], start, scope, h, _, _ => renames_ok h
  | s :: rest, start, scope, h, hnames, hcounters => by
    obtain ⟨hs, hrest⟩ := List.append_subset.mp hnames
    obtain ⟨hs', hrest'⟩ := List.append_subset.mp hcounters
    rw [Stmt.renameAll, lowerStmts, lowerStmts]
    refine (renames_lowerStmt hρ s start h hs hs').bind fun r hr => ?_
    dsimp only [renamePiece]
    rw [List.length_map]
    refine (renames_lowerStmts hρ rest _ hr hrest hrest').map fun r' hr' => ⟨hr', ?_⟩
    rw [renamePiece, renamePiece, List.map_append]

theorem renames_lowerBranch (hρ : Set.InjOn ρ {name | name ∈ names}) :
    ∀ (b : Branch) (start : Nat) {scope : Scope}, scope.Among names → b.mentions ⊆ names →
      b.counters ⊆ counters →
        RenamesPiece ρ counters names (lowerBranch table start scope b)
          (lowerBranch table start (scope.rename ρ) (b.rename ρ))
  | .arm cond body next orElse, start, scope, h, hnames, hcounters => by
    obtain ⟨hcond, hmore⟩ := List.append_subset.mp hnames
    obtain ⟨hbody, hmore⟩ := List.append_subset.mp hmore
    obtain ⟨hnext, helse⟩ := List.append_subset.mp hmore
    obtain ⟨hbody', hmore⟩ := List.append_subset.mp hcounters
    obtain ⟨hnext', helse'⟩ := List.append_subset.mp hmore
    rw [Branch.rename, lowerBranch, lowerBranch]
    refine (renames_lowerExpr counters table (h.findsRenamed hρ) cond hcond).bind fun test _ => ?_
    rw [List.length_map]
    refine (renames_lowerStmts hρ body _ h.enter hbody hbody').bind fun r hr => ?_
    dsimp only [renamePiece]
    rw [List.length_map, Scope.leave_rename]
    refine (renames_lowerNext hρ next _ hr.leave hnext hnext').bind fun r' hr' => ?_
    dsimp only [renamePiece]
    rw [List.length_map]
    refine (renames_lowerElse hρ orElse _ hr' helse helse').map fun r'' hr'' => ⟨hr'', ?_⟩
    simp only [renamePiece, List.length_map, List.map_append]
    rfl

theorem renames_lowerNext (hρ : Set.InjOn ρ {name | name ∈ names}) :
    ∀ (next : Option Branch) (start : Nat) {scope : Scope}, scope.Among names →
      Branch.nextMentions next ⊆ names → Branch.nextCounters next ⊆ counters →
        RenamesPiece ρ counters names (lowerNext table start scope next)
          (lowerNext table start (scope.rename ρ) (Branch.renameNext ρ next))
  | none, _, _, h, _, _ => renames_ok h
  | some b, start, _, h, hnames, hcounters => by
    rw [Branch.renameNext, lowerNext, lowerNext]
    exact renames_lowerBranch hρ b start h hnames hcounters

theorem renames_lowerElse (hρ : Set.InjOn ρ {name | name ∈ names}) :
    ∀ (orElse : Option (List Stmt)) (start : Nat) {scope : Scope}, scope.Among names →
      Stmt.elseMentions orElse ⊆ names → Stmt.elseCounters orElse ⊆ counters →
        RenamesPiece ρ counters names (lowerElse table start scope orElse)
          (lowerElse table start (scope.rename ρ) (Stmt.renameElse ρ orElse))
  | none, _, _, h, _, _ => renames_ok h
  | some body, start, _, h, hnames, hcounters => by
    rw [Stmt.renameElse, lowerElse, lowerElse]
    refine (renames_lowerStmts hρ body start h.enter hnames hcounters).map fun r hr =>
      ⟨hr.leave, ?_⟩
    rw [renamePiece, renamePiece, Scope.leave_rename]

end

theorem renames_lowerParams (hρ : Set.InjOn ρ {name | name ∈ names}) :
    ∀ (params : List String) {scope : Scope}, scope.Among names → params ⊆ names →
      RenamesPiece ρ counters names (lowerParams scope params)
        (lowerParams (scope.rename ρ) (params.map ρ))
  | [], _, h, _ => renames_ok h
  | name :: rest, _, h, hnames => by
    obtain ⟨hname, hrest⟩ := List.cons_subset.mp hnames
    exact (h.renames_declare hρ hname).bind fun _ hr =>
      (renames_lowerParams hρ rest hr hrest).map fun _ hr' => ⟨hr', rfl⟩

end

/-! ## Functions -/

theorem endCode_renameAll (ρ : String → String) (body : List Stmt) :
    endCode (Stmt.renameAll ρ body) = endCode body := by
  have hreturn : (fun s => (Stmt.rename ρ s).isReturn) = Stmt.isReturn := by
    funext s
    cases s <;> rfl
  rw [endCode, endCode, Stmt.renameAll_eq_map, List.getLast?_map, Option.any_map, hreturn]

theorem map_rename_endCode (ρ : String → String) (counters : List String) (body : List Stmt) :
    (endCode body).map (Instr.rename ρ counters) = endCode body := by
  have hfirst : ((Instr.push .null).withComment "implicit return").rename ρ counters =
      (Instr.push .null).withComment "implicit return" :=
    congrArg (Instr.push .null).withComment (renameComment_other (by decide))
  rw [endCode]
  split
  · rfl
  · exact congrArg (fun i => [i, .plain .ret]) hfirst

namespace Function

variable {ρ : String → String} {f : Function} (table : RecordTable)

theorem renames_code (hρ : Set.InjOn ρ {name | name ∈ f.mentions}) :
    RenamesCode ρ f.counters (f.code table) ((f.rename ρ).code table) := by
  obtain ⟨hparams, hbody⟩ := List.append_subset.mp (List.Subset.refl f.mentions)
  have hstart : ({} : Scope).enter.Among f.mentions := List.forall_mem_nil _
  have hstores : RenamesPiece ρ f.counters f.mentions _ _ :=
    renames_lowerParams hρ f.params hstart hparams
  rw [code, code]
  refine hstores.bind fun r hr => ?_
  dsimp only [renamePiece]
  rw [List.length_map]
  refine (renames_lowerStmts table hρ f.body _ hr hbody (List.Subset.refl _)).map fun r' _ =>
    ⟨trivial, ?_⟩
  rw [List.map_append, List.map_append, map_rename_endCode]
  exact congrArg (_ ++ ·) (endCode_renameAll ρ f.body)

/-- **The names of variables only say which variable is meant.**  A function whose variables get
other names, different ones if they were different, has the same instructions, in which only the
comments behind counted loops name their variables as they are named now; and if it cannot be
compiled, then for the same reason, with the variable named as it is named now. -/
theorem lower_rename (hρ : Set.InjOn ρ {name | name ∈ f.mentions}) :
    (f.rename ρ).lower table =
      ((f.lower table).map (Routine.rename ρ f.counters)).mapError (CompileError.rename ρ) := by
  rw [lower_eq_code, lower_eq_code]
  refine Renames.eq ((f.renames_code table hρ).map (R := fun _ => True) fun code _ => ⟨trivial, ?_⟩)
  exact congrArg (Routine.mk f.name) List.map_toArray.symm

/-- A function of `x` that counts in `x`, with another `x` in the loop. -/
def shadowing : Function where
  name := "shadowing"
  params := ["x", "y"]
  body :=
    [.forLoop "x" (.var "x") (.var "y")
      [.declare "x" none (some (.var "x")), .assign [.plain "y"] (.var "x")],
    .ret (.path [.indexed "y" (.var "x")])]

/-- Its routine, if this is the name of the variable that is counted. -/
def shadowingRoutine (counter : String) : Routine where
  name := "shadowing"
  code := #[.store 0, .store 1, .load 0, .store 2, .load 2, .load 1, .plain (.binary .cmple),
    .jmpf 17, .load 2, .store 3, .load 3, .store 1, .load 2, .push (.int 1), .plain (.binary .add),
    (Instr.store 2).withComment (counter ++ " += 1"), .jmp 4, .load 1, .load 0, .plain .geti,
    .plain .ret]

/-- Other names for its variables, of which one was that of another variable. -/
def exchange (name : String) : String := if name = "x" then "y" else "z"

theorem lower_rename_shadowing :
    (∀ a ∈ shadowing.mentions, ∀ b ∈ shadowing.mentions, exchange a = exchange b → a = b) ∧
      shadowing.lower [] = .ok (shadowingRoutine "x") ∧
      (shadowing.rename exchange).lower [] = .ok (shadowingRoutine "y") := by
  have hnames : ∀ a ∈ shadowing.mentions, ∀ b ∈ shadowing.mentions,
      exchange a = exchange b → a = b := by decide
  have hlower : shadowing.lower [] = .ok (shadowingRoutine "x") := rfl
  have hrename : (shadowingRoutine "x").rename exchange ["x"] = shadowingRoutine "y" := by
    rw [Routine.rename, shadowingRoutine, shadowingRoutine, List.map_toArray]
    exact congrArg (fun code : List Instr => Routine.mk _ code.toArray) (by decide)
  refine ⟨hnames, hlower, ?_⟩
  rw [lower_rename [] fun a ha b hb => hnames a ha b hb, hlower]
  exact congrArg Except.ok hrename

end Function

end Opstack
