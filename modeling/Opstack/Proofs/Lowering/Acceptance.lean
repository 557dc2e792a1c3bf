import Opstack.Proofs.Lowering.Jumps
import Opstack.Proofs.Source.Demands

/-!
# Which functions are compiled

A function is compiled exactly if everything that it demands is met, and otherwise the error is
what is said about the first demand that is not (`Function.lower_iff_demands`).

`Heeds` says this of any part of the lowering, and `Heeds.bind` puts parts together, so each
construct of the language is one chain of them.  The declarations before a part reach it as a scope,
which `Scope.Shows` ties to the names that its demands speak of.
-/

set_option autoImplicit false

namespace Opstack

/-! ## Scopes and names -/

namespace Scope

/-- The variables of the scope have these names: first come those of its innermost block, then those
of the blocks around it. -/
def Shows (scope : Scope) (names : Names) : Prop :=
  ∃ new old, scope.locals = new ++ old ∧ (∀ l ∈ new, l.depth = scope.depth) ∧
    (∀ l ∈ old, l.depth < scope.depth) ∧ new.map Local.name = names.block ∧
    old.map Local.name = names.outer

variable {scope inner : Scope} {names : Names} {name : String}

theorem shows_start : ({} : Scope).enter.Shows {} :=
  ⟨[], [], rfl, List.forall_mem_nil _, List.forall_mem_nil _, rfl, rfl⟩

theorem Shows.nested (h : scope.Shows names) : scope.Nested := by
  obtain ⟨new, old, hlocals, hnew, hold, -, -⟩ := h
  intro l hl
  rw [hlocals, List.mem_append] at hl
  rcases hl with hl | hl
  · exact Nat.le_of_eq (hnew l hl)
  · exact Nat.le_of_lt (hold l hl)

theorem Shows.enter (h : scope.Shows names) : scope.enter.Shows names.enter := by
  have hnested := h.nested
  obtain ⟨new, old, hlocals, -, -, hblock, houter⟩ := h
  refine ⟨[], scope.locals, rfl, List.forall_mem_nil _,
    fun l hl => Nat.lt_succ_of_le (hnested l hl), rfl, ?_⟩
  rw [hlocals, List.map_append, hblock, houter]
  rfl

theorem Shows.extend (h : scope.Shows names) (name : String) :
    (scope.extend name).Shows (names.declare name) := by
  obtain ⟨new, old, hlocals, hnew, hold, hblock, houter⟩ := h
  refine ⟨⟨name, scope.depth, scope.slotCount⟩ :: new, old, ?_,
    List.forall_mem_cons.mpr ⟨rfl, hnew⟩, hold, ?_, houter⟩
  · rw [locals_extend, hlocals, List.cons_append]
  · rw [List.map_cons, hblock]
    rfl

/-- The variables of the innermost block are those that its names stand for. -/
theorem Shows.innermost (h : scope.Shows names) :
    scope.innermost.map Local.name = names.block := by
  obtain ⟨new, old, hlocals, hnew, hold, hblock, -⟩ := h
  have hold' : old.takeWhile (fun l => l.depth == scope.depth) = [] := by
    cases old with
    | nil => rfl
    | cons l rest =>
      exact List.takeWhile_cons_of_neg (by simp [Nat.ne_of_lt (hold l List.mem_cons_self)])
  rw [Scope.innermost, hlocals, List.takeWhile_append_of_pos (fun l hl => by simp [hnew l hl]),
    hold', List.append_nil, hblock]

/-- The scope has a slot for each name that can be seen. -/
def Finds (scope : Scope) (names : Names) : Prop :=
  ∀ name, (scope.resolve? name).isSome = true ↔ names.Sees name

theorem Shows.finds (h : scope.Shows names) : scope.Finds names := by
  obtain ⟨new, old, hlocals, -, -, hblock, houter⟩ := h
  intro name
  rw [Scope.resolve?, Option.isSome_map, List.find?_isSome, hlocals, Names.Sees, ← hblock,
    ← houter]
  simp only [List.mem_append, List.mem_map, beq_iff_eq, or_and_right, exists_or]

end Scope

/-! ## Complaints -/

section

variable {table : RecordTable} {demands : List Demand} {e e' : CompileError}

theorem Complains.not_all_met (h : Complains table demands e) :
    ¬ ∀ d ∈ demands, d.Met table := by
  obtain ⟨earlier, d, later, rfl, -, hnot, -⟩ := h
  exact fun hmet => hnot (hmet d (List.mem_append_right _ List.mem_cons_self))

/-- Only one demand is the first that is not met. -/
theorem Complains.unique (h : Complains table demands e) (h' : Complains table demands e') :
    e = e' := by
  obtain ⟨earlier, d, later, rfl, hmet, hnot, rfl⟩ := h
  obtain ⟨earlier', d', later', heq, hmet', hnot', rfl⟩ := h'
  induction earlier generalizing earlier' with
  | nil =>
    cases earlier' with
    | nil =>
      cases heq
      rfl
    | cons first rest =>
      cases heq
      exact absurd (hmet' d List.mem_cons_self) hnot
  | cons first rest ih =>
    cases earlier' with
    | nil =>
      cases heq
      exact absurd (hmet d' List.mem_cons_self) hnot'
    | cons first' rest' =>
      rw [List.cons_append, List.cons_append, List.cons.injEq] at heq
      exact ih (fun d hd => hmet d (List.mem_cons_of_mem _ hd)) rest'
        heq.2 (fun d hd => hmet' d (List.mem_cons_of_mem _ hd))

end

/-! ## Heeding demands -/

/-- The computation heeds the demands: it succeeds if all of them are met, with a result that has
a property, and otherwise complains of the first that is not. -/
def Heeds {α : Type} (table : RecordTable) (demands : List Demand) (Q : α → Prop) :
    Except CompileError α → Prop
  | .ok a => (∀ d ∈ demands, d.Met table) ∧ Q a
  | .error e => Complains table demands e

section

variable {α β : Type} {table : RecordTable} {demands more : List Demand} {Q : α → Prop}
  {R : β → Prop} {x : Except CompileError α}

theorem heeds_ok {a : α} (h : Q a) : Heeds table [] Q (.ok a) := ⟨List.forall_mem_nil _, h⟩

/-- A single demand. -/
theorem heeds_one {d : Demand} (hok : ∀ a, x = .ok a → d.Met table ∧ Q a)
    (herror : ∀ e, x = .error e → ¬ d.Met table ∧ e = d.complaint table) :
    Heeds table [d] Q x := by
  cases x with
  | ok a => exact ⟨List.forall_mem_singleton.mpr (hok a rfl).1, (hok a rfl).2⟩
  | error e =>
    obtain ⟨hnot, he⟩ := herror e rfl
    exact ⟨[], d, [], rfl, List.forall_mem_nil _, hnot, he⟩

/-- **One part after the other**: the demands of the second come behind those of the first. -/
theorem Heeds.bind {f : α → Except CompileError β} (hx : Heeds table demands Q x)
    (hf : ∀ a, x = .ok a → Q a → Heeds table more R (f a)) :
    Heeds table (demands ++ more) R (x >>= f) := by
  cases x with
  | error e =>
    obtain ⟨earlier, d, later, rfl, hmet, hnot, he⟩ := hx
    exact ⟨earlier, d, later ++ more, by rw [List.append_assoc, List.cons_append], hmet, hnot, he⟩
  | ok a =>
    have hrest := hf a rfl hx.2
    change Heeds table (demands ++ more) R (f a)
    generalize f a = y at hrest
    cases y with
    | ok b => exact ⟨List.forall_mem_append.mpr ⟨hx.1, hrest.1⟩, hrest.2⟩
    | error e =>
      obtain ⟨earlier, d, later, rfl, hmet, hnot, he⟩ := hrest
      exact ⟨demands ++ earlier, d, later, (List.append_assoc ..).symm,
        List.forall_mem_append.mpr ⟨hx.1, hmet⟩, hnot, he⟩

/-- A demand that is met need not be mentioned. -/
theorem Heeds.of_met {d : Demand} (hx : Heeds table [d] Q x) (hd : d.Met table) :
    Heeds table [] Q x := by
  cases x with
  | ok a => exact heeds_ok hx.2
  | error e =>
    obtain ⟨earlier, d', later, hdemands, -, hnot, -⟩ := hx
    have hmem : d' ∈ [d] := by
      rw [hdemands]
      exact List.mem_append_right _ List.mem_cons_self
    exact absurd (List.mem_singleton.mp hmem ▸ hd) hnot

/-- The result of a part is put into another form. -/
theorem Heeds.map {f : α → β} (hx : Heeds table demands Q x)
    (hf : ∀ a, x = .ok a → Q a → R (f a)) :
    Heeds table demands R (x >>= fun a => pure (f a)) := by
  have hpure : ∀ a, x = .ok a → Q a → Heeds table [] R (pure (f a)) := fun a ha hQ =>
    heeds_ok (hf a ha hQ)
  have hbind := hx.bind hpure
  rwa [List.append_nil] at hbind

end

/-- The computation heeds the demands, whatever it gives. -/
abbrev Complies {α : Type} (table : RecordTable) (demands : List Demand)
    (x : Except CompileError α) : Prop :=
  Heeds table demands (fun _ => True) x

/-! ## Single demands -/

section

variable {table : RecordTable} {scope : Scope} {names : Names}

theorem Token.heeds_value (token : Token) : Complies table [.literal token] token.value := by
  obtain ⟨kind, lexeme⟩ := token
  cases kind with
  | str | null => exact heeds_one (fun _ _ => ⟨trivial, trivial⟩) fun e h => by cases h
  | int =>
    rw [value]
    dsimp only
    split
    · rename_i n hn
      exact heeds_one (fun _ _ => ⟨⟨n, hn⟩, trivial⟩) fun e h => by cases h
    · rename_i hn
      refine heeds_one (fun _ h => by cases h) fun e h => ⟨?_, by cases h; rfl⟩
      rintro ⟨n, hn'⟩
      cases hn.symm.trans hn'
  | double =>
    rw [value]
    dsimp only
    split
    · rename_i d hd
      exact heeds_one (fun _ _ => ⟨⟨d, hd⟩, trivial⟩) fun e h => by cases h
    · rename_i hd
      refine heeds_one (fun _ h => by cases h) fun e h => ⟨?_, by cases h; rfl⟩
      rintro ⟨d, hd'⟩
      cases hd.symm.trans hd'
  | bool =>
    rw [value]
    dsimp only
    by_cases htrue : lexeme = "true"
    · rw [if_pos htrue]
      exact heeds_one (fun _ _ => ⟨.inl htrue, trivial⟩) fun e h => by cases h
    · by_cases hfalse : lexeme = "false"
      · rw [if_neg htrue, if_pos hfalse]
        exact heeds_one (fun _ _ => ⟨.inr hfalse, trivial⟩) fun e h => by cases h
      · rw [if_neg htrue, if_neg hfalse]
        refine heeds_one (fun _ h => by cases h) fun e h => ⟨?_, by cases h; rfl⟩
        exact fun h => h.elim htrue hfalse

theorem heeds_emptyPath {α : Type} :
    Complies table [.path names []] (.error .emptyPath : Except CompileError α) := by
  refine heeds_one (fun _ h => by cases h) fun e h => ⟨?_, by cases h; rfl⟩
  rintro ⟨step, hstep, -⟩
  cases hstep

/-- A path leads to a slot if its first variable can be seen. -/
theorem Scope.Finds.resolve (h : scope.Finds names) (step : Step) (rest : List Step) :
    Complies table [.path names (step :: rest)] (scope.resolve step.name) := by
  have hsees := h step.name
  rw [Scope.resolve]
  cases hslot : scope.resolve? step.name with
  | some slot =>
    rw [hslot] at hsees
    exact heeds_one (fun _ _ => ⟨⟨step, rfl, hsees.mp rfl⟩, trivial⟩) fun e h => by cases h
  | none =>
    rw [hslot] at hsees
    refine heeds_one (fun _ h => by cases h) fun e h => ⟨?_, by cases h; rfl⟩
    rintro ⟨first, hfirst, hseen⟩
    cases hfirst
    cases hsees.mpr hseen

/-- A declaration succeeds if the innermost block has not declared the name. -/
theorem Scope.Shows.declare (h : scope.Shows names) (name : String) :
    Heeds table [.fresh names.block name] (fun r => r.2.Shows (names.declare name))
      (scope.declare name) := by
  have hany : (scope.innermost.any fun l => l.name == name) = true ↔ name ∈ names.block := by
    rw [← h.innermost, List.any_eq_true]
    simp only [List.mem_map, beq_iff_eq]
  rw [Scope.declare]
  split
  · rename_i hdeclared
    exact heeds_one (fun _ h => by cases h) fun e h =>
      ⟨fun hfresh => hfresh (hany.mp hdeclared), by cases h; rfl⟩
  · rename_i hfree
    refine heeds_one (fun r hr => ⟨fun hmem => hfree (hany.mpr hmem), ?_⟩) fun e h => by cases h
    cases hr
    exact h.extend name

/-- The variable of a counted loop is the first one of its block. -/
theorem Scope.Shows.declare_enter (h : scope.Shows names) (name : String) :
    Heeds table [] (fun r => r.2.Shows (names.enter.declare name)) (scope.enter.declare name) :=
  (h.enter.declare name).of_met fun hmem => by cases hmem

/-! ## Expressions -/

variable (table)

mutual

/-- An expression has code if its demands are met. -/
theorem heeds_lowerExpr (h : scope.Finds names) :
    ∀ e : Expr, Complies table (e.demands names) (lowerExpr table scope e)
  | .literal token => by
    rw [lowerExpr]
    exact token.heeds_value.map fun _ _ _ => trivial
  | .path steps => by
    rw [lowerExpr]
    exact heeds_lowerPath h steps
  | .call _ args => by
    rw [lowerExpr]
    exact (heeds_lowerArgs h args).map fun _ _ _ => trivial
  | .newRecord type args => by
    rw [lowerExpr, Expr.demands]
    cases hfields : table.lookup type with
    | none =>
      refine ⟨[], _, _, rfl, List.forall_mem_nil _, ?_, by rw [Demand.complaint, hfields]⟩
      rintro ⟨fields, hfields', -⟩
      cases hfields.symm.trans hfields'
    | some fields =>
      by_cases hlength : fields.length = args.length
      · simp only [if_pos hlength]
        have hrecord : Complies table [.record type args.length] (.ok ()) :=
          heeds_one (fun _ _ => ⟨⟨fields, hfields, hlength⟩, trivial⟩) fun e h => by cases h
        exact hrecord.bind fun _ _ _ =>
          (heeds_lowerFields h fields args hlength).map fun _ _ _ => trivial
      · simp only [if_neg hlength]
        refine ⟨[], _, _, rfl, List.forall_mem_nil _, ?_, by rw [Demand.complaint, hfields]⟩
        rintro ⟨fields', hfields', hlength'⟩
        cases hfields.symm.trans hfields'
        exact hlength hlength'
  | .newArray _ length => by
    rw [lowerExpr]
    exact (heeds_lowerExpr h length).map fun _ _ _ => trivial
  | .not e => by
    rw [lowerExpr]
    exact (heeds_lowerExpr h e).map fun _ _ _ => trivial
  | .binary op lhs rhs => by
    rw [lowerExpr, Expr.demands]
    split
    · exact (heeds_lowerExpr h rhs).bind fun _ _ _ =>
        (heeds_lowerExpr h lhs).map fun _ _ _ => trivial
    · exact (heeds_lowerExpr h lhs).bind fun _ _ _ =>
        (heeds_lowerExpr h rhs).map fun _ _ _ => trivial

theorem heeds_lowerArgs (h : scope.Finds names) :
    ∀ es : List Expr, Complies table (Expr.argsDemand names es) (lowerArgs table scope es)
  | [] => heeds_ok trivial
  | e :: rest => by
    rw [lowerArgs]
    exact (heeds_lowerArgs h rest).bind fun _ _ _ => (heeds_lowerExpr h e).map fun _ _ _ => trivial

theorem heeds_lowerFields (h : scope.Finds names) :
    ∀ (fields : List String) (es : List Expr), fields.length = es.length →
      Complies table (Expr.allDemand names es) (lowerFields table scope fields es)
  | [], [], _ => heeds_ok trivial
  | field :: fields, e :: rest, hlength => by
    rw [lowerFields]
    exact (heeds_lowerExpr h e).bind fun _ _ _ =>
      (heeds_lowerFields h fields rest (Nat.succ.inj hlength)).map fun _ _ _ => trivial
  | [], _ :: _, hlength => by cases hlength
  | _ :: _, [], hlength => by cases hlength

theorem heeds_lowerPath (h : scope.Finds names) : ∀ steps : List Step,
    Complies table (.path names steps :: Step.allDemand names steps) (lowerPath table scope steps)
  | [] => heeds_emptyPath
  | step :: rest => by
    rw [lowerPath]
    exact (h.resolve step rest).bind fun _ _ _ => (heeds_lowerIndex h step).bind fun _ _ _ =>
      (heeds_lowerSteps h rest).map fun _ _ _ => trivial

theorem heeds_lowerSteps (h : scope.Finds names) : ∀ steps : List Step,
    Complies table (Step.allDemand names steps) (lowerSteps table scope steps)
  | [] => heeds_ok trivial
  | step :: rest => by
    rw [lowerSteps]
    exact (heeds_lowerIndex h step).bind fun _ _ _ =>
      (heeds_lowerSteps h rest).map fun _ _ _ => trivial

theorem heeds_lowerIndex (h : scope.Finds names) : ∀ step : Step,
    Complies table (step.demands names) (lowerIndex table scope step)
  | .plain _ => heeds_ok trivial
  | .indexed _ index => by
    rw [lowerIndex]
    exact (heeds_lowerExpr h index).map fun _ _ _ => trivial

end

/-! ## Assignment -/

theorem heeds_lowerFieldTarget (h : scope.Finds names) : ∀ (step : Step) (rest : List Step),
    Complies table (Step.allDemand names (step :: rest))
      (lowerFieldTarget table scope (step :: rest))
  | .plain _, [] => heeds_ok trivial
  | .indexed _ index, [] => by
    rw [lowerFieldTarget, Step.allDemand]
    simpa only [Step.demands, Step.allDemand, List.append_nil] using
      (heeds_lowerExpr table h index).map fun _ _ _ => trivial
  | step, next :: rest => by
    rw [lowerFieldTarget_cons]
    exact (heeds_lowerIndex table h step).bind fun _ _ _ =>
      (heeds_lowerFieldTarget h next rest).map fun _ _ _ => trivial

theorem heeds_lowerTarget (h : scope.Finds names) : ∀ steps : List Step,
    Complies table (.path names steps :: Step.allDemand names steps) (lowerTarget table scope steps)
  | [] => heeds_emptyPath
  | [.plain name] => (h.resolve (.plain name) []).map fun _ _ _ => trivial
  | [.indexed name index] => by
    have hindex := heeds_lowerExpr table h index
    exact (h.resolve (.indexed name index) []).bind fun _ _ _ => by
      simpa only [Step.demands, Step.allDemand, List.append_nil] using
        hindex.map fun _ _ _ => trivial
  | step :: next :: rest => by
    rw [lowerTarget_cons]
    exact (h.resolve step (next :: rest)).bind fun _ _ _ =>
      (heeds_lowerIndex table h step).bind fun _ _ _ =>
        (heeds_lowerFieldTarget table h next rest).map fun _ _ _ => trivial

theorem heeds_lowerInit (h : scope.Finds names) (init : Option Expr) :
    Complies table (Expr.initDemand names init) (lowerInit table scope init) := by
  cases init with
  | none => exact heeds_ok trivial
  | some e => exact heeds_lowerExpr table h e

end

/-! ## Statements -/

section

variable {table : RecordTable} {scope scope' : Scope} {start : Nat} {code : List Instr}

/-- Behind a block the scope shows the names that it showed before. -/
theorem Scope.Shows.leave {names : Names} (h : scope.Shows names) {body : List Stmt}
    (hbody : lowerStmts table start scope.enter body = .ok (code, scope')) :
    scope'.leave.Shows names := by
  have hextends := (code_of_lowerStmts hbody (Stmt.allObey_free body) h.nested.enter).extends
  rw [hextends.leave h.nested]
  exact h

/-- Behind a counted loop, too, the scope shows the names that it showed before. -/
theorem Scope.Shows.leave_loop {names : Names} (h : scope.Shows names) {name : String}
    {r : Nat × Scope} (hdeclare : scope.enter.declare name = .ok r) {body : List Stmt}
    (hbody : lowerStmts table start r.2.enter body = .ok (code, scope')) :
    scope'.leave.leave.Shows names := by
  obtain ⟨slot, mid⟩ := r
  obtain ⟨-, rfl⟩ := Scope.declare_eq_ok hdeclare
  have hvariable := Scope.extends_extend scope.enter name
  have hnested := h.nested.enter.extends hvariable
  have hextends := (code_of_lowerStmts hbody (Stmt.allObey_free body) hnested.enter).extends
  rw [hextends.leave hnested, (hvariable.trans hextends.after_enter).leave h.nested]
  exact h

end

section

variable (table : RecordTable)

mutual

/-- A statement has code if its demands are met, and then the scope behind it shows the names behind
it. -/
theorem heeds_lowerStmt : ∀ (s : Stmt) (start : Nat) {scope : Scope} {names : Names},
    scope.Shows names → Heeds table (s.demands names) (fun r => r.2.Shows (s.namesBehind names))
      (lowerStmt table start scope s)
  | .ret e, start, scope, names, h => by
    rw [lowerStmt]
    exact (heeds_lowerExpr table h.finds e).map fun _ _ _ => h
  | .declare name _ init, start, scope, names, h => by
    rw [lowerStmt]
    exact (heeds_lowerInit table h.finds init).bind fun _ _ _ =>
      (h.declare name).map fun _ _ hscope => hscope
  | .assign target e, start, scope, names, h => by
    rw [lowerStmt]
    exact (heeds_lowerTarget table h.finds target).bind fun _ _ _ =>
      (heeds_lowerExpr table h.finds e).map fun _ _ _ => h
  | .whileLoop cond body, start, scope, names, h => by
    rw [lowerStmt]
    exact (heeds_lowerExpr table h.finds cond).bind fun test _ _ =>
      (heeds_lowerStmts body _ h.enter).map fun _ hbody _ => h.leave hbody
  | .forLoop name first last body, start, scope, names, h => by
    rw [lowerStmt, Stmt.demands, List.append_assoc]
    have hfinds : scope.enter.Finds names := h.finds
    exact (heeds_lowerExpr table hfinds first).bind fun _ _ _ =>
      (h.declare_enter name).bind fun _ hdeclare hscope =>
        (heeds_lowerExpr table hscope.finds last).bind fun _ _ _ =>
          (heeds_lowerStmts body _ hscope.enter).map fun _ hbody _ =>
            h.leave_loop hdeclare hbody
  | .branch b, start, scope, names, h => by
    rw [lowerStmt]
    exact heeds_lowerBranch b start h
  | .call name args, start, scope, names, h => by
    rw [lowerStmt]
    exact (heeds_lowerArgs table h.finds args).map fun _ _ _ => h

theorem heeds_lowerStmts : ∀ (l : List Stmt) (start : Nat) {scope : Scope} {names : Names},
    scope.Shows names → Complies table (Stmt.allDemand names l) (lowerStmts table start scope l)
  | [], _, _, _, _ => heeds_ok trivial
  | s :: rest, start, scope, names, h => by
    rw [lowerStmts]
    exact (heeds_lowerStmt s start h).bind fun _ _ hscope =>
      (heeds_lowerStmts rest _ hscope).map fun _ _ _ => trivial

theorem heeds_lowerBranch : ∀ (b : Branch) (start : Nat) {scope : Scope} {names : Names},
    scope.Shows names → Heeds table (b.demands names) (fun r => r.2.Shows names)
      (lowerBranch table start scope b)
  | .arm cond body next orElse, start, scope, names, h => by
    rw [lowerBranch, Branch.demands, List.append_assoc, List.append_assoc]
    exact (heeds_lowerExpr table h.finds cond).bind fun _ _ _ =>
      (heeds_lowerStmts body _ h.enter).bind fun _ hbody _ =>
        (heeds_lowerNext next _ (h.leave hbody)).bind fun _ _ hnext =>
          (heeds_lowerElse orElse _ hnext).map fun _ _ helse => helse

theorem heeds_lowerNext : ∀ (next : Option Branch) (start : Nat) {scope : Scope} {names : Names},
    scope.Shows names → Heeds table (Branch.nextDemand names next) (fun r => r.2.Shows names)
      (lowerNext table start scope next)
  | none, _, _, _, h => heeds_ok h
  | some b, start, _, _, h => by
    rw [lowerNext]
    exact heeds_lowerBranch b start h

theorem heeds_lowerElse : ∀ (orElse : Option (List Stmt)) (start : Nat) {scope : Scope}
    {names : Names}, scope.Shows names →
      Heeds table (Stmt.elseDemand names orElse) (fun r => r.2.Shows names)
        (lowerElse table start scope orElse)
  | none, _, _, _, h => heeds_ok h
  | some body, _, _, _, h => by
    rw [lowerElse]
    exact (heeds_lowerStmts body _ h.enter).map fun _ hbody _ => h.leave hbody

end

theorem heeds_lowerParams : ∀ (params : List String) {scope : Scope} {names : Names},
    scope.Shows names → Heeds table (paramsDemand names params)
      (fun r => r.2.Shows (params.foldl Names.declare names)) (lowerParams scope params)
  | [], _, _, h => heeds_ok h
  | name :: rest, scope, names, h => by
    rw [lowerParams]
    exact (h.declare name).bind fun _ _ hscope =>
      (heeds_lowerParams rest hscope).map fun _ _ hrest => hrest

end

/-! ## Functions -/

namespace Function

variable (table : RecordTable) (f : Function)

theorem heeds_code : Complies table f.demands (f.code table) := by
  rw [code, demands]
  exact (heeds_lowerParams table f.params Scope.shows_start).bind fun _ _ hscope =>
    (heeds_lowerStmts table f.body _ hscope).map fun _ _ _ => trivial

/-- The finished routine makes no more demands than its code. -/
theorem heeds_lower : Complies table f.demands (f.lower table) := by
  rw [lower_eq_code]
  exact (f.heeds_code table).map fun _ _ _ => trivial

/-- **The functions that are compiled are those whose demands are met.**  Otherwise the error is
what is said about the first demand, in the order in which the parts of a function are written, that
is not met. -/
theorem lower_iff_demands :
    ((∃ r, f.lower table = .ok r) ↔ ∀ d ∈ f.demands, d.Met table) ∧
      ∀ e, f.lower table = .error e ↔ Complains table f.demands e := by
  have hlower := f.heeds_lower table
  cases hr : f.lower table with
  | ok r =>
    rw [hr] at hlower
    have hnone : ∀ e, ¬ Complains table f.demands e := fun e h => h.not_all_met hlower.1
    refine ⟨⟨fun _ => hlower.1, fun _ => ⟨r, rfl⟩⟩, fun e => ⟨fun h => ?_, fun h => ?_⟩⟩
    · cases h
    · exact absurd h (hnone e)
  | error e =>
    rw [hr] at hlower
    have hunmet : ¬ ∀ d ∈ f.demands, d.Met table := hlower.not_all_met
    refine ⟨⟨?_, fun hmet => absurd hmet hunmet⟩, fun e' => ⟨fun h => ?_, fun h => ?_⟩⟩
    · rintro ⟨r, hr'⟩
      cases hr'
    · cases h
      exact hlower
    · rw [h.unique hlower]

end Function

end Opstack
