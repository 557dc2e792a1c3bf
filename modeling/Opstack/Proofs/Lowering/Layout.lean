import Opstack.Proofs.Lowering.Emission
import Opstack.Proofs.Source.Rules

/-!
# How the code of a function is laid out

`Term.Code` relates an expression, or a part of one, to its code, and `Clause.Code` a statement, or
a part of one, to its code and to the scope behind it.  Both are read off the lowering once
(`code_of_lowerExpr`, `code_of_lowerStmts`), and whatever holds of all compiled code is then an
induction on one of them, with a case for every kind of expression or statement.

Two things are simpler here than in the lowering.  The scope behind a block is given outright: it
is the one before the block, except that more slots have been handed out (`Scope.after`).  And
trees are known to obey rules, so that the case of a call has the number of its arguments at hand.

`Function.marks` lists the places of the code where a statement begins or ends.
-/

set_option autoImplicit false

namespace Opstack

theorem bind_eq_ok {ε α β : Type} {x : Except ε α} {f : α → Except ε β} {b : β} :
    x >>= f = .ok b ↔ ∃ a, x = .ok a ∧ f a = .ok b := by
  cases x <;> simp [bind, Except.bind]

theorem pure_eq_ok {ε α : Type} {a b : α} :
    (pure a : Except ε α) = .ok b ↔ a = b := by
  simp [pure, Except.pure]

/-! ## Scopes of blocks -/

namespace Scope

/-- The scope with one more variable. -/
def extend (s : Scope) (name : String) : Scope :=
  { s with locals := ⟨name, s.depth, s.slotCount⟩ :: s.locals, slotCount := s.slotCount + 1 }

/-- The scope behind a block: the slots of its variables are not handed out again. -/
def after (s inner : Scope) : Scope := { s with slotCount := inner.slotCount }

/-- No variable is declared in a block that has not been opened. -/
def Nested (s : Scope) : Prop := ∀ l ∈ s.locals, l.depth ≤ s.depth

/-- The second scope is the first one with more variables in the innermost block. -/
structure Extends (s t : Scope) : Prop where
  /-- No block has been opened or closed. -/
  depth : t.depth = s.depth
  /-- Slots have been handed out, and none given back. -/
  slotCount : s.slotCount ≤ t.slotCount
  /-- The new variables come first. -/
  locals : ∃ new : List Local, t.locals = new ++ s.locals ∧ ∀ l ∈ new, l.depth = s.depth

@[simp] theorem locals_enter (s : Scope) : s.enter.locals = s.locals := rfl

@[simp] theorem slotCount_enter (s : Scope) : s.enter.slotCount = s.slotCount := rfl

@[simp] theorem locals_extend (s : Scope) (name : String) :
    (s.extend name).locals = ⟨name, s.depth, s.slotCount⟩ :: s.locals := rfl

@[simp] theorem slotCount_extend (s : Scope) (name : String) :
    (s.extend name).slotCount = s.slotCount + 1 := rfl

@[simp] theorem locals_after (s inner : Scope) : (s.after inner).locals = s.locals := rfl

@[simp] theorem slotCount_after (s inner : Scope) :
    (s.after inner).slotCount = inner.slotCount := rfl

variable {s t u inner : Scope}

theorem Extends.refl (s : Scope) : s.Extends s := ⟨rfl, Nat.le_refl _, [], rfl, by simp⟩

theorem Extends.trans (h : s.Extends t) (h' : t.Extends u) : s.Extends u := by
  obtain ⟨new, hnew, hd⟩ := h.locals
  obtain ⟨new', hnew', hd'⟩ := h'.locals
  refine ⟨h'.depth.trans h.depth, Nat.le_trans h.slotCount h'.slotCount, new' ++ new, ?_, ?_⟩
  · rw [hnew', hnew, List.append_assoc]
  · intro l hl
    rcases List.mem_append.mp hl with hl | hl
    · rw [hd' l hl, h.depth]
    · exact hd l hl

theorem extends_extend (s : Scope) (name : String) : s.Extends (s.extend name) :=
  ⟨rfl, Nat.le_succ _, [⟨name, s.depth, s.slotCount⟩], rfl, by simp⟩

theorem extends_after (h : s.slotCount ≤ inner.slotCount) : s.Extends (s.after inner) :=
  ⟨rfl, h, [], rfl, by simp⟩

theorem Extends.after_enter (h : s.enter.Extends inner) : s.Extends (s.after inner) :=
  extends_after h.slotCount

theorem Nested.enter (h : s.Nested) : s.enter.Nested := fun l hl =>
  Nat.le_succ_of_le (h l hl)

theorem Nested.extends (h : s.Nested) (ht : s.Extends t) : t.Nested := by
  obtain ⟨new, hnew, hd⟩ := ht.locals
  intro l hl
  rw [hnew, List.mem_append] at hl
  rw [ht.depth]
  rcases hl with hl | hl
  · exact Nat.le_of_eq (hd l hl)
  · exact h l hl

/-- **A block leaves the scope as it was**, except for the slots that it used. -/
theorem Extends.leave (h : s.enter.Extends inner) (hs : s.Nested) :
    inner.leave = s.after inner := by
  obtain ⟨new, hnew, hd⟩ := h.locals
  have hdrop : inner.locals.dropWhile (fun l => l.depth == inner.depth) = s.locals := by
    rw [hnew, h.depth, List.dropWhile_append_of_pos]
    · cases hl : s.enter.locals with
      | nil => exact hl.symm
      | cons l rest =>
        have hle : l.depth ≤ s.depth := hs l (by rw [show s.locals = _ from hl]; simp)
        rw [List.dropWhile_cons_of_neg (by simp [Scope.enter]; omega), ← hl]
        rfl
    · intro l hl
      simp [hd l hl]
  rw [Scope.leave, hdrop, h.depth]
  rfl

theorem declare_eq_ok {name : String} {slot : Nat} (h : s.declare name = .ok (slot, t)) :
    slot = s.slotCount ∧ t = s.extend name := by
  rw [declare] at h
  split at h
  · cases h
  · cases h
    exact ⟨rfl, rfl⟩

theorem resolve_eq_ok {name : String} {slot : Nat} :
    s.resolve name = .ok slot ↔ s.resolve? name = some slot := by
  rw [resolve]
  cases s.resolve? name <;> simp

end Scope

/-! ## Expressions -/

/-- An expression, or what one is made of. -/
inductive Term
  /-- An expression. -/
  | expr (e : Expr)
  /-- The arguments of a call. -/
  | args (es : List Expr)
  /-- Fields with their first values. -/
  | fields (names : List String) (es : List Expr)
  /-- A path from its variable on. -/
  | path (steps : List Step)
  /-- The steps of a path behind its variable. -/
  | steps (steps : List Step)
  /-- The index of a step, if it has one. -/
  | index (step : Step)

/-- The code of an expression, or of what one is made of. -/
inductive Term.Code (rules : Rules) (table : RecordTable) (scope : Scope) :
    Term → List Instr → Prop
  | literal {token : Token} {v : Value} (hv : token.value = .ok v) :
      Code rules table scope (.expr (.literal token)) [.push v]
  | path {steps : List Step} {code : List Instr} (h : Code rules table scope (.path steps) code) :
      Code rules table scope (.expr (.path steps)) code
  | call {name : String} {args : List Expr} {code : List Instr}
      (hcall : rules.call name args.length = true) (h : Code rules table scope (.args args) code) :
      Code rules table scope (.expr (.call name args)) (code ++ callCode name)
  | newRecord {type : String} {args : List Expr} {fields : List String} {code : List Instr}
      (hfields : table.lookup type = some fields) (hlength : fields.length = args.length)
      (h : Code rules table scope (.fields fields args) code) :
      Code rules table scope (.expr (.newRecord type args)) (.plain .allocs :: code)
  | newArray {type : String} {length : Expr} {code : List Instr}
      (h : Code rules table scope (.expr length) code) :
      Code rules table scope (.expr (.newArray type length)) (code ++ [.plain .alloca])
  | not {e : Expr} {code : List Instr} (h : Code rules table scope (.expr e) code) :
      Code rules table scope (.expr (.not e)) (code ++ [.plain (.unary .not)])
  | binary {op : Operator} {lhs rhs : Expr} {left right : List Instr}
      (hop : op.isSwapped = false) (hl : Code rules table scope (.expr lhs) left)
      (hr : Code rules table scope (.expr rhs) right) :
      Code rules table scope (.expr (.binary op lhs rhs))
        (left ++ right ++ [.plain (.binary op.operation)])
  | swapped {op : Operator} {lhs rhs : Expr} {left right : List Instr}
      (hop : op.isSwapped = true) (hr : Code rules table scope (.expr rhs) right)
      (hl : Code rules table scope (.expr lhs) left) :
      Code rules table scope (.expr (.binary op lhs rhs))
        (right ++ left ++ [.plain (.binary op.operation)])
  | noArgs : Code rules table scope (.args []) []
  | args {e : Expr} {rest : List Expr} {later code : List Instr}
      (hrest : Code rules table scope (.args rest) later)
      (h : Code rules table scope (.expr e) code) :
      Code rules table scope (.args (e :: rest)) (later ++ code)
  | noFields : Code rules table scope (.fields [] []) []
  | fields {field : String} {fields : List String} {e : Expr} {rest : List Expr}
      {code later : List Instr} (h : Code rules table scope (.expr e) code)
      (hrest : Code rules table scope (.fields fields rest) later) :
      Code rules table scope (.fields (field :: fields) (e :: rest))
        (.plain .dup :: code ++ .setf field :: later)
  | start {step : Step} {rest : List Step} {slot : Nat} {index later : List Instr}
      (hslot : scope.resolve? step.name = some slot)
      (h : Code rules table scope (.index step) index)
      (hrest : Code rules table scope (.steps rest) later) :
      Code rules table scope (.path (step :: rest)) (.load slot :: index ++ later)
  | noSteps : Code rules table scope (.steps []) []
  | steps {step : Step} {rest : List Step} {index later : List Instr}
      (h : Code rules table scope (.index step) index)
      (hrest : Code rules table scope (.steps rest) later) :
      Code rules table scope (.steps (step :: rest)) (.getf step.name :: index ++ later)
  | plain {name : String} : Code rules table scope (.index (.plain name)) []
  | indexed {name : String} {index : Expr} {code : List Instr}
      (h : Code rules table scope (.expr index) code) :
      Code rules table scope (.index (.indexed name index)) (code ++ [.plain .geti])

section

variable {rules : Rules} {table : RecordTable} {scope : Scope}

mutual

theorem code_of_lowerExpr : ∀ {e : Expr} {code : List Instr},
    lowerExpr table scope e = .ok code → e.obeys rules = true →
      Term.Code rules table scope (.expr e) code
  | .literal token, code, h, _ => by
    simp only [lowerExpr, bind_eq_ok, pure_eq_ok] at h
    obtain ⟨v, hv, rfl⟩ := h
    exact .literal hv
  | .path steps, code, h, ho => by
    rw [lowerExpr] at h
    exact .path (code_of_lowerPath h ho)
  | .call name args, code, h, ho => by
    simp only [lowerExpr, bind_eq_ok, pure_eq_ok] at h
    obtain ⟨code, hc, rfl⟩ := h
    rw [Expr.obeys, Bool.and_eq_true] at ho
    exact .call ho.1 (code_of_lowerArgs hc ho.2)
  | .newRecord type args, code, h, ho => by
    rw [lowerExpr] at h
    split at h
    · cases h
    · rename_i fields hfields
      split at h
      · rename_i hlength
        simp only [bind_eq_ok, pure_eq_ok] at h
        obtain ⟨code, hc, rfl⟩ := h
        exact .newRecord hfields hlength (code_of_lowerFields hlength hc ho)
      · cases h
  | .newArray _ length, code, h, ho => by
    simp only [lowerExpr, bind_eq_ok, pure_eq_ok] at h
    obtain ⟨code, hc, rfl⟩ := h
    exact .newArray (code_of_lowerExpr hc ho)
  | .not e, code, h, ho => by
    simp only [lowerExpr, bind_eq_ok, pure_eq_ok] at h
    obtain ⟨code, hc, rfl⟩ := h
    exact .not (code_of_lowerExpr hc ho)
  | .binary op lhs rhs, code, h, ho => by
    rw [Expr.obeys, Bool.and_eq_true] at ho
    rw [lowerExpr] at h
    split at h
    · rename_i hop
      simp only [bind_eq_ok, pure_eq_ok] at h
      obtain ⟨right, hr, left, hl, rfl⟩ := h
      exact .swapped hop (code_of_lowerExpr hr ho.2) (code_of_lowerExpr hl ho.1)
    · rename_i hop
      simp only [bind_eq_ok, pure_eq_ok] at h
      obtain ⟨left, hl, right, hr, rfl⟩ := h
      exact .binary (by simpa using hop) (code_of_lowerExpr hl ho.1) (code_of_lowerExpr hr ho.2)

theorem code_of_lowerArgs : ∀ {es : List Expr} {code : List Instr},
    lowerArgs table scope es = .ok code → Expr.allObey rules es = true →
      Term.Code rules table scope (.args es) code
  | [], code, h, _ => by
    cases h
    exact .noArgs
  | e :: rest, code, h, ho => by
    rw [Expr.allObey, Bool.and_eq_true] at ho
    simp only [lowerArgs, bind_eq_ok, pure_eq_ok] at h
    obtain ⟨later, hl, code, hc, rfl⟩ := h
    exact .args (code_of_lowerArgs hl ho.2) (code_of_lowerExpr hc ho.1)

theorem code_of_lowerFields : ∀ {fields : List String} {es : List Expr} {code : List Instr},
    fields.length = es.length → lowerFields table scope fields es = .ok code →
      Expr.allObey rules es = true → Term.Code rules table scope (.fields fields es) code
  | [], [], code, _, h, _ => by
    cases h
    exact .noFields
  | field :: fields, e :: rest, code, hlength, h, ho => by
    rw [Expr.allObey, Bool.and_eq_true] at ho
    simp only [lowerFields, bind_eq_ok, pure_eq_ok] at h
    obtain ⟨code, hc, later, hl, rfl⟩ := h
    exact .fields (code_of_lowerExpr hc ho.1)
      (code_of_lowerFields (Nat.succ.inj hlength) hl ho.2)
  | [], _ :: _, _, hlength, _, _ => by cases hlength
  | _ :: _, [], _, hlength, _, _ => by cases hlength

theorem code_of_lowerPath : ∀ {steps : List Step} {code : List Instr},
    lowerPath table scope steps = .ok code → Step.allObey rules steps = true →
      Term.Code rules table scope (.path steps) code
  | [], code, h, _ => by cases h
  | step :: rest, code, h, ho => by
    rw [Step.allObey, Bool.and_eq_true] at ho
    simp only [lowerPath, bind_eq_ok, pure_eq_ok] at h
    obtain ⟨slot, hs, index, hi, later, hl, rfl⟩ := h
    exact .start (Scope.resolve_eq_ok.mp hs) (code_of_lowerIndex hi ho.1)
      (code_of_lowerSteps hl ho.2)

theorem code_of_lowerSteps : ∀ {steps : List Step} {code : List Instr},
    lowerSteps table scope steps = .ok code → Step.allObey rules steps = true →
      Term.Code rules table scope (.steps steps) code
  | [], code, h, _ => by
    cases h
    exact .noSteps
  | step :: rest, code, h, ho => by
    rw [Step.allObey, Bool.and_eq_true] at ho
    simp only [lowerSteps, bind_eq_ok, pure_eq_ok] at h
    obtain ⟨index, hi, later, hl, rfl⟩ := h
    exact .steps (code_of_lowerIndex hi ho.1) (code_of_lowerSteps hl ho.2)

theorem code_of_lowerIndex : ∀ {step : Step} {code : List Instr},
    lowerIndex table scope step = .ok code → step.obeys rules = true →
      Term.Code rules table scope (.index step) code
  | .plain _, code, h, _ => by
    cases h
    exact .plain
  | .indexed _ index, code, h, ho => by
    simp only [lowerIndex, bind_eq_ok, pure_eq_ok] at h
    obtain ⟨code, hc, rfl⟩ := h
    exact .indexed (code_of_lowerExpr hc ho)

end

end

/-! ## Assignment -/

/-- The code that comes before the value of an assignment to a field or cell of a record on top of
the stack, and the instruction that comes after it. -/
inductive FieldTarget.Code (rules : Rules) (table : RecordTable) (scope : Scope) :
    List Step → List Instr → Instr → Prop
  | field {field : String} : Code rules table scope [.plain field] [] (.setf field)
  | cell {field : String} {index : Expr} {code : List Instr}
      (h : Term.Code rules table scope (.expr index) code) :
      Code rules table scope [.indexed field index] (.getf field :: code) (.plain .seti)
  | step {step next : Step} {rest : List Step} {index code : List Instr} {last : Instr}
      (h : Term.Code rules table scope (.index step) index)
      (hrest : Code rules table scope (next :: rest) code last) :
      Code rules table scope (step :: next :: rest) (.getf step.name :: index ++ code) last

/-- The code that comes before the value of an assignment, and the instruction that comes after
it. -/
inductive Target.Code (rules : Rules) (table : RecordTable) (scope : Scope) :
    List Step → List Instr → Instr → Prop
  | slot {name : String} {slot : Nat} (hslot : scope.resolve? name = some slot) :
      Code rules table scope [.plain name] [] (.store slot)
  | cell {name : String} {slot : Nat} {index : Expr} {code : List Instr}
      (hslot : scope.resolve? name = some slot)
      (h : Term.Code rules table scope (.expr index) code) :
      Code rules table scope [.indexed name index] (.load slot :: code) (.plain .seti)
  | step {step next : Step} {rest : List Step} {slot : Nat} {index code : List Instr}
      {last : Instr} (hslot : scope.resolve? step.name = some slot)
      (h : Term.Code rules table scope (.index step) index)
      (hrest : FieldTarget.Code rules table scope (next :: rest) code last) :
      Code rules table scope (step :: next :: rest) (.load slot :: index ++ code) last

/-- Where a target has more than one step, the code of its first step is that of a path. -/
theorem lowerFieldTarget_cons (table : RecordTable) (scope : Scope) (step next : Step)
    (rest : List Step) :
    lowerFieldTarget table scope (step :: next :: rest) =
      lowerIndex table scope step >>= fun index =>
        lowerFieldTarget table scope (next :: rest) >>= fun r =>
          pure (.getf step.name :: index ++ r.1, r.2) := by
  cases step <;> rfl

theorem lowerTarget_cons (table : RecordTable) (scope : Scope) (step next : Step)
    (rest : List Step) :
    lowerTarget table scope (step :: next :: rest) =
      scope.resolve step.name >>= fun slot =>
        lowerIndex table scope step >>= fun index =>
          lowerFieldTarget table scope (next :: rest) >>= fun r =>
            pure (.load slot :: index ++ r.1, r.2) := by
  cases step <;> rfl

section

variable {rules : Rules} {table : RecordTable} {scope : Scope}

theorem code_of_lowerFieldTarget : ∀ {steps : List Step} {code : List Instr} {last : Instr},
    lowerFieldTarget table scope steps = .ok (code, last) → Step.allObey rules steps = true →
      FieldTarget.Code rules table scope steps code last
  | [], _, _, h, _ => by cases h
  | [.plain field], _, _, h, _ => by
    cases h
    exact .field
  | [.indexed field index], _, _, h, ho => by
    rw [Step.allObey, Bool.and_eq_true] at ho
    simp only [lowerFieldTarget, bind_eq_ok, pure_eq_ok] at h
    obtain ⟨code, hc, heq⟩ := h
    cases heq
    exact .cell (code_of_lowerExpr hc ho.1)
  | step :: next :: rest, _, _, h, ho => by
    rw [Step.allObey, Bool.and_eq_true] at ho
    simp only [lowerFieldTarget, bind_eq_ok, pure_eq_ok] at h
    obtain ⟨index, hi, ⟨code, last⟩, hc, heq⟩ := h
    cases heq
    exact .step (code_of_lowerIndex hi ho.1) (code_of_lowerFieldTarget hc ho.2)

theorem code_of_lowerTarget : ∀ {steps : List Step} {code : List Instr} {last : Instr},
    lowerTarget table scope steps = .ok (code, last) → Step.allObey rules steps = true →
      Target.Code rules table scope steps code last
  | [], _, _, h, _ => by cases h
  | [.plain name], _, _, h, _ => by
    simp only [lowerTarget, bind_eq_ok, pure_eq_ok] at h
    obtain ⟨slot, hs, heq⟩ := h
    cases heq
    exact .slot (Scope.resolve_eq_ok.mp hs)
  | [.indexed name index], _, _, h, ho => by
    rw [Step.allObey, Bool.and_eq_true] at ho
    simp only [lowerTarget, bind_eq_ok, pure_eq_ok] at h
    obtain ⟨slot, hs, code, hc, heq⟩ := h
    cases heq
    exact .cell (Scope.resolve_eq_ok.mp hs) (code_of_lowerExpr hc ho.1)
  | step :: next :: rest, _, _, h, ho => by
    rw [Step.allObey, Bool.and_eq_true] at ho
    simp only [lowerTarget, bind_eq_ok, pure_eq_ok] at h
    obtain ⟨slot, hs, index, hi, ⟨code, last⟩, hc, heq⟩ := h
    cases heq
    exact .step (Scope.resolve_eq_ok.mp hs) (code_of_lowerIndex hi ho.1)
      (code_of_lowerFieldTarget hc ho.2)

end

/-! ## Statements -/

@[simp] theorem length_countingCode (name : String) (slot : Nat) :
    (countingCode name slot).length = 4 := rfl

/-- A statement, or what one is made of. -/
inductive Clause
  /-- A statement. -/
  | stmt (s : Stmt)
  /-- Statements one after the other. -/
  | stmts (l : List Stmt)
  /-- An `if` with the arms that follow it. -/
  | branch (b : Branch)
  /-- The next arm, if there is one. -/
  | next (next : Option Branch)
  /-- The `else`, if there is one. -/
  | orElse (orElse : Option (List Stmt))

/-- The code of a statement, or of what one is made of, from a place in a scope on, with the scope
behind it and the places where a statement begins or ends. -/
inductive Clause.Code (rules : Rules) (table : RecordTable) :
    Nat → Scope → Clause → List Instr → Scope → List Nat → Prop
  | ret {start : Nat} {scope : Scope} {e : Expr} {code : List Instr}
      (h : Term.Code rules table scope (.expr e) code) :
      Code rules table start scope (.stmt (.ret e)) (code ++ [.plain .ret]) scope [start]
  | declare {start : Nat} {scope : Scope} {name : String} {type : Option TypeName} {e : Expr}
      {code : List Instr} (h : Term.Code rules table scope (.expr e) code) :
      Code rules table start scope (.stmt (.declare name type (some e)))
        (code ++ [.store scope.slotCount]) (scope.extend name) [start]
  | declareNull {start : Nat} {scope : Scope} {name : String} {type : Option TypeName} :
      Code rules table start scope (.stmt (.declare name type none))
        ([.push .null] ++ [.store scope.slotCount]) (scope.extend name) [start]
  | assign {start : Nat} {scope : Scope} {target : List Step} {e : Expr}
      {before code : List Instr} {last : Instr}
      (ht : Target.Code rules table scope target before last)
      (h : Term.Code rules table scope (.expr e) code) :
      Code rules table start scope (.stmt (.assign target e)) (before ++ code ++ [last]) scope
        [start]
  | whileLoop {start : Nat} {scope inner : Scope} {cond : Expr} {body : List Stmt}
      {test code : List Instr} {marks : List Nat}
      (ht : Term.Code rules table scope (.expr cond) test)
      (hb : Code rules table (start + test.length + 1) scope.enter (.stmts body) code inner marks) :
      Code rules table start scope (.stmt (.whileLoop cond body))
        (test ++ .jmpf (start + test.length + 1 + code.length + 1) :: code ++ [.jmp start])
        (scope.after inner) (start :: marks)
  | forLoop {start : Nat} {scope inner : Scope} {name : String} {first last : Expr}
      {body : List Stmt} {init bound code : List Instr} {marks : List Nat}
      (hi : Term.Code rules table scope.enter (.expr first) init)
      (hl : Term.Code rules table (scope.enter.extend name) (.expr last) bound)
      (hb : Code rules table (start + init.length + 1 + (bound.length + 2) + 1)
        (scope.enter.extend name).enter (.stmts body) code inner marks) :
      Code rules table start scope (.stmt (.forLoop name first last body))
        (init ++ .store scope.slotCount ::
          (.load scope.slotCount :: bound ++ [.plain (.binary .cmple)]) ++
          .jmpf (start + init.length + 1 + (bound.length + 2) + 1 + code.length + 4 + 1) :: code ++
          countingCode name scope.slotCount ++ [.jmp (start + init.length + 1)])
        (scope.after inner) (start :: marks)
  | branch {start : Nat} {scope scope' : Scope} {b : Branch} {code : List Instr}
      {marks : List Nat} (h : Code rules table start scope (.branch b) code scope' marks) :
      Code rules table start scope (.stmt (.branch b)) code scope' (start :: marks)
  | call {start : Nat} {scope : Scope} {name : String} {args : List Expr} {code : List Instr}
      (hcall : rules.call name args.length = true)
      (h : Term.Code rules table scope (.args args) code) :
      Code rules table start scope (.stmt (.call name args))
        (code ++ callCode name ++ [dropResult]) scope [start]
  | nil {start : Nat} {scope : Scope} : Code rules table start scope (.stmts []) [] scope [start]
  | cons {start : Nat} {scope mid scope' : Scope} {s : Stmt} {rest : List Stmt}
      {code later : List Instr} {marks marks' : List Nat}
      (h : Code rules table start scope (.stmt s) code mid marks)
      (hrest : Code rules table (start + code.length) mid (.stmts rest) later scope' marks') :
      Code rules table start scope (.stmts (s :: rest)) (code ++ later) scope' (marks ++ marks')
  | arm {start : Nat} {scope inner scope₁ scope₂ : Scope} {cond : Expr} {body : List Stmt}
      {next : Option Branch} {orElse : Option (List Stmt)}
      {test code nextCode elseCode : List Instr} {marks marks₁ marks₂ : List Nat}
      (harm : rules.arm next.isSome orElse.isSome = true)
      (ht : Term.Code rules table scope (.expr cond) test)
      (hb : Code rules table (start + test.length + 1) scope.enter (.stmts body) code inner marks)
      (hn : Code rules table (start + test.length + 1 + code.length + 1) (scope.after inner)
        (.next next) nextCode scope₁ marks₁)
      (he : Code rules table (start + test.length + 1 + code.length + 1 + nextCode.length) scope₁
        (.orElse orElse) elseCode scope₂ marks₂) :
      Code rules table start scope (.branch (.arm cond body next orElse))
        (test ++ .jmpf (start + test.length + 1 + code.length + 1) :: code ++
          .jmp (start + test.length + 1 + code.length + 1 + nextCode.length + elseCode.length) ::
          nextCode ++ elseCode)
        scope₂ (marks ++ marks₁ ++ marks₂)
  | noNext {start : Nat} {scope : Scope} : Code rules table start scope (.next none) [] scope []
  | next {start : Nat} {scope scope' : Scope} {b : Branch} {code : List Instr}
      {marks : List Nat} (h : Code rules table start scope (.branch b) code scope' marks) :
      Code rules table start scope (.next (some b)) code scope' marks
  | noElse {start : Nat} {scope : Scope} : Code rules table start scope (.orElse none) [] scope []
  | orElse {start : Nat} {scope inner : Scope} {body : List Stmt} {code : List Instr}
      {marks : List Nat}
      (h : Code rules table start scope.enter (.stmts body) code inner marks) :
      Code rules table start scope (.orElse (some body)) code (scope.after inner) marks

/-- Code stays in the block that it is part of. -/
theorem Clause.Code.extends {rules : Rules} {table : RecordTable} {start : Nat}
    {scope scope' : Scope} {clause : Clause} {code : List Instr} {marks : List Nat}
    (h : Clause.Code rules table start scope clause code scope' marks) :
    scope.Extends scope' := by
  induction h with
  | ret _ | assign _ _ | call _ _ | nil | noNext | noElse => exact .refl _
  | declare _ | declareNull => exact Scope.extends_extend _ _
  | whileLoop _ _ ih => exact ih.after_enter
  | forLoop _ _ _ ih => exact Scope.extends_after (Nat.le_trans (Nat.le_succ _) ih.slotCount)
  | branch _ ih | next _ ih => exact ih
  | cons _ _ ih ih' => exact ih.trans ih'
  | arm _ _ _ _ _ ihb ihn ihe => exact (ihb.after_enter.trans ihn).trans ihe
  | orElse _ ih => exact ih.after_enter

/-- The clause may leave variables in scope that were not there before. -/
def Clause.declares : Clause → Bool
  | .stmt (.declare _ _ _) | .stmts _ => true
  | _ => false

/-- Behind all but a declaration the variables in scope are those before. -/
theorem Clause.Code.locals_eq {rules : Rules} {table : RecordTable} {start : Nat}
    {scope scope' : Scope} {clause : Clause} {code : List Instr} {marks : List Nat}
    (h : Clause.Code rules table start scope clause code scope' marks)
    (hclause : clause.declares = false) : scope'.locals = scope.locals := by
  induction h with
  | ret _ | assign _ _ | call _ _ | noNext | noElse => rfl
  | declare _ | declareNull | nil | cons _ _ => cases hclause
  | whileLoop _ _ _ | forLoop _ _ _ _ | orElse _ _ => rfl
  | branch _ ih | next _ ih => exact ih rfl
  | arm _ _ _ _ _ _ ihn ihe => exact (ihe rfl).trans (ihn rfl)

/-! ### Where statements begin and end -/

section

variable (table : RecordTable)

mutual

/-- The places of the code of a statement where it or a statement in it begins, or where a block
in it ends. -/
def stmtMarks (start : Nat) (scope : Scope) : Stmt → List Nat
  | .whileLoop cond body =>
    match lowerExpr table scope cond with
    | .ok test => start :: stmtsMarks (start + test.length + 1) scope.enter body
    | .error _ => [start]
  | .forLoop name first last body =>
    let inner := scope.enter.extend name
    match lowerExpr table scope.enter first, lowerExpr table inner last with
    | .ok init, .ok bound =>
      start :: stmtsMarks (start + init.length + 1 + (bound.length + 2) + 1) inner.enter body
    | _, _ => [start]
  | .branch b => start :: branchMarks start scope b
  | _ => [start]

/-- The places of the code of a block where a statement begins, and the end of the block. -/
def stmtsMarks (start : Nat) (scope : Scope) : List Stmt → List Nat
  | [] => [start]
  | s :: rest =>
    match lowerStmt table start scope s with
    | .ok (code, scope') =>
      stmtMarks start scope s ++ stmtsMarks (start + code.length) scope' rest
    | .error _ => []

/-- The places of the code of an `if` where a statement in it begins or a block in it ends. -/
def branchMarks (start : Nat) (scope : Scope) : Branch → List Nat
  | .arm cond body next orElse =>
    match lowerExpr table scope cond with
    | .error _ => []
    | .ok test =>
      match lowerStmts table (start + test.length + 1) scope.enter body with
      | .error _ => []
      | .ok (code, inner) =>
        let other := start + test.length + 1 + code.length + 1
        match lowerNext table other (scope.after inner) next with
        | .error _ => []
        | .ok (nextCode, scope₁) =>
          stmtsMarks (start + test.length + 1) scope.enter body ++
            nextMarks other (scope.after inner) next ++
            elseMarks (other + nextCode.length) scope₁ orElse

/-- The places of the code of the next arm, if there is one. -/
def nextMarks (start : Nat) (scope : Scope) : Option Branch → List Nat
  | none => []
  | some b => branchMarks start scope b

/-- The places of the code of the `else`, if there is one. -/
def elseMarks (start : Nat) (scope : Scope) : Option (List Stmt) → List Nat
  | none => []
  | some body => stmtsMarks start scope.enter body

end

variable {table} {rules : Rules}

mutual

theorem code_of_lowerStmt : ∀ {s : Stmt} {start : Nat} {scope scope' : Scope}
    {code : List Instr}, lowerStmt table start scope s = .ok (code, scope') →
      s.obeys rules = true → scope.Nested →
      Clause.Code rules table start scope (.stmt s) code scope' (stmtMarks table start scope s)
  | .ret e, _, _, _, _, h, ho, _ => by
    simp only [lowerStmt, bind_eq_ok, pure_eq_ok] at h
    obtain ⟨code, hc, heq⟩ := h
    cases heq
    exact .ret (code_of_lowerExpr hc ho)
  | .declare name _ (some e), _, _, _, _, h, ho, _ => by
    simp only [lowerStmt, lowerInit, bind_eq_ok, pure_eq_ok] at h
    obtain ⟨code, hc, ⟨slot, inner⟩, hd, heq⟩ := h
    obtain ⟨rfl, rfl⟩ := Scope.declare_eq_ok hd
    cases heq
    exact .declare (code_of_lowerExpr hc ho)
  | .declare name _ none, _, _, _, _, h, _, _ => by
    simp only [lowerStmt, lowerInit, bind_eq_ok, pure_eq_ok] at h
    obtain ⟨code, hc, ⟨slot, inner⟩, hd, heq⟩ := h
    obtain ⟨rfl, rfl⟩ := Scope.declare_eq_ok hd
    cases hc
    cases heq
    exact .declareNull
  | .assign target e, _, _, _, _, h, ho, _ => by
    rw [Stmt.obeys, Bool.and_eq_true] at ho
    simp only [lowerStmt, bind_eq_ok, pure_eq_ok] at h
    obtain ⟨⟨before, last⟩, ht, code, hc, heq⟩ := h
    cases heq
    exact .assign (code_of_lowerTarget ht ho.1) (code_of_lowerExpr hc ho.2)
  | .whileLoop cond body, start, scope, _, _, h, ho, hs => by
    rw [Stmt.obeys, Bool.and_eq_true] at ho
    simp only [lowerStmt, bind_eq_ok, pure_eq_ok] at h
    obtain ⟨test, ht, ⟨code, inner⟩, hb, heq⟩ := h
    have hbody := code_of_lowerStmts hb ho.2 hs.enter
    cases heq
    rw [stmtMarks, ht, hbody.extends.leave hs]
    exact .whileLoop (code_of_lowerExpr ht ho.1) hbody
  | .forLoop name first last body, start, scope, _, _, h, ho, hs => by
    rw [Stmt.obeys, Bool.and_eq_true, Bool.and_eq_true] at ho
    simp only [lowerStmt, bind_eq_ok, pure_eq_ok] at h
    obtain ⟨init, hi, ⟨slot, mid⟩, hd, bound, hl, ⟨code, inner⟩, hb, heq⟩ := h
    obtain ⟨rfl, rfl⟩ := Scope.declare_eq_ok hd
    have hmid := hs.enter.extends (Scope.extends_extend _ name)
    have hlength : (Instr.load scope.enter.slotCount :: bound ++
        [Instr.plain (.binary .cmple)]).length = bound.length + 2 := by simp
    rw [hlength] at hb heq
    have hbody := code_of_lowerStmts hb ho.2 hmid.enter
    have hleave := hbody.extends.leave hmid
    have hleave' : inner.leave.leave = scope.after inner := by
      rw [hleave]
      exact (Scope.Extends.leave (Scope.extends_extend _ name |>.trans
        hbody.extends.after_enter) hs)
    cases heq
    simp only [stmtMarks, hi, hl, hleave']
    exact .forLoop (code_of_lowerExpr hi ho.1.1) (code_of_lowerExpr hl ho.1.2) hbody
  | .branch b, start, scope, _, _, h, ho, hs => by
    rw [lowerStmt] at h
    rw [stmtMarks]
    exact .branch (code_of_lowerBranch h ho hs)
  | .call name args, _, _, _, _, h, ho, _ => by
    rw [Stmt.obeys, Bool.and_eq_true] at ho
    simp only [lowerStmt, bind_eq_ok, pure_eq_ok] at h
    obtain ⟨code, hc, heq⟩ := h
    cases heq
    exact .call ho.1 (code_of_lowerArgs hc ho.2)

theorem code_of_lowerStmts : ∀ {l : List Stmt} {start : Nat} {scope scope' : Scope}
    {code : List Instr}, lowerStmts table start scope l = .ok (code, scope') →
      Stmt.allObey rules l = true → scope.Nested →
      Clause.Code rules table start scope (.stmts l) code scope' (stmtsMarks table start scope l)
  | [], _, _, _, _, h, _, _ => by
    cases h
    exact .nil
  | s :: rest, start, scope, _, _, h, ho, hs => by
    rw [Stmt.allObey, Bool.and_eq_true] at ho
    simp only [lowerStmts, bind_eq_ok, pure_eq_ok] at h
    obtain ⟨⟨code, mid⟩, hc, ⟨later, scope'⟩, hl, heq⟩ := h
    have hstmt := code_of_lowerStmt hc ho.1 hs
    cases heq
    rw [stmtsMarks, hc]
    exact .cons hstmt (code_of_lowerStmts hl ho.2 (hs.extends hstmt.extends))

theorem code_of_lowerBranch : ∀ {b : Branch} {start : Nat} {scope scope' : Scope}
    {code : List Instr}, lowerBranch table start scope b = .ok (code, scope') →
      b.obeys rules = true → scope.Nested →
      Clause.Code rules table start scope (.branch b) code scope' (branchMarks table start scope b)
  | .arm cond body next orElse, start, scope, _, _, h, ho, hs => by
    simp only [Branch.obeys, Bool.and_eq_true] at ho
    obtain ⟨⟨⟨⟨harm, hoc⟩, hob⟩, hon⟩, hoe⟩ := ho
    simp only [lowerBranch, bind_eq_ok, pure_eq_ok] at h
    obtain ⟨test, ht, ⟨code, inner⟩, hb, ⟨nextCode, scope₁⟩, hn, ⟨elseCode, scope₂⟩, he, heq⟩ := h
    have hbody := code_of_lowerStmts hb hob hs.enter
    rw [hbody.extends.leave hs] at hn
    have hnext := code_of_lowerNext hn hon (hs.extends hbody.extends.after_enter)
    have helse := code_of_lowerElse he hoe
      ((hs.extends hbody.extends.after_enter).extends hnext.extends)
    cases heq
    simp only [branchMarks, ht, hb, hn]
    exact .arm harm (code_of_lowerExpr ht hoc) hbody hnext helse

theorem code_of_lowerNext : ∀ {next : Option Branch} {start : Nat} {scope scope' : Scope}
    {code : List Instr}, lowerNext table start scope next = .ok (code, scope') →
      Branch.nextObeys rules next = true → scope.Nested →
      Clause.Code rules table start scope (.next next) code scope'
        (nextMarks table start scope next)
  | none, _, _, _, _, h, _, _ => by
    cases h
    exact .noNext
  | some b, _, _, _, _, h, ho, hs => by
    rw [lowerNext] at h
    exact .next (code_of_lowerBranch h ho hs)

theorem code_of_lowerElse : ∀ {orElse : Option (List Stmt)} {start : Nat}
    {scope scope' : Scope} {code : List Instr},
    lowerElse table start scope orElse = .ok (code, scope') →
      Stmt.elseObeys rules orElse = true → scope.Nested →
      Clause.Code rules table start scope (.orElse orElse) code scope'
        (elseMarks table start scope orElse)
  | none, _, _, _, _, h, _, _ => by
    cases h
    exact .noElse
  | some body, _, scope, _, _, h, ho, hs => by
    simp only [lowerElse, bind_eq_ok, pure_eq_ok] at h
    obtain ⟨⟨code, inner⟩, hb, heq⟩ := h
    have hbody := code_of_lowerStmts hb ho hs.enter
    cases heq
    rw [hbody.extends.leave hs]
    exact .orElse hbody

end

end

/-! ## Functions -/

/-- The code that stores so many arguments, from a slot on. -/
def storeCode : Nat → Nat → List Instr
  | _, 0 => []
  | slot, n + 1 => .store slot :: storeCode (slot + 1) n

@[simp] theorem length_storeCode (slot n : Nat) : (storeCode slot n).length = n := by
  induction n generalizing slot with
  | zero => rfl
  | succ n ih => rw [storeCode, List.length_cons, ih]

theorem lowerParams_eq_ok {params : List String} {scope scope' : Scope} {code : List Instr}
    (h : lowerParams scope params = .ok (code, scope')) :
    code = storeCode scope.slotCount params.length ∧ scope' = params.foldl Scope.extend scope := by
  induction params generalizing scope scope' code with
  | nil =>
    cases h
    exact ⟨rfl, rfl⟩
  | cons name rest ih =>
    simp only [lowerParams, bind_eq_ok, pure_eq_ok] at h
    obtain ⟨⟨slot, mid⟩, hd, ⟨later, last⟩, hl, heq⟩ := h
    obtain ⟨rfl, rfl⟩ := Scope.declare_eq_ok hd
    obtain ⟨rfl, rfl⟩ := ih hl
    cases heq
    exact ⟨rfl, rfl⟩

theorem Scope.extends_foldl (scope : Scope) (names : List String) :
    scope.Extends (names.foldl Scope.extend scope) := by
  induction names generalizing scope with
  | nil => exact .refl _
  | cons name rest ih => exact (Scope.extends_extend scope name).trans (ih _)

theorem Scope.slotCount_foldl (scope : Scope) (names : List String) :
    (names.foldl Scope.extend scope).slotCount = scope.slotCount + names.length := by
  induction names generalizing scope with
  | nil => rfl
  | cons name rest ih =>
    rw [List.foldl_cons, ih, slotCount_extend, List.length_cons]
    omega

namespace Function

variable (f : Function)

/-- The scope of the parameters. -/
def scope : Scope := f.params.foldl Scope.extend ({} : Scope).enter

theorem slotCount_scope : f.scope.slotCount = f.params.length := by
  rw [scope, Scope.slotCount_foldl]
  exact Nat.zero_add _

theorem nested_scope : f.scope.Nested :=
  Scope.Nested.extends (fun l hl => by cases hl) (Scope.extends_foldl _ _)

/-- The places of the code of a function where a statement begins or ends. -/
def marks (table : RecordTable) : List Nat := stmtsMarks table f.params.length f.scope f.body

variable {f} {table : RecordTable} {rules : Rules}

/-- The code of a function stores the arguments, runs the body and returns. -/
theorem code_eq_ok {code : List Instr} (h : f.code table = .ok code)
    (ho : Stmt.allObey rules f.body = true) : ∃ body scope',
      code = storeCode 0 f.params.length ++ body ++ endCode f.body ∧
      Clause.Code rules table f.params.length f.scope (.stmts f.body) body scope'
        (f.marks table) := by
  simp only [Function.code, bind_eq_ok, pure_eq_ok] at h
  obtain ⟨⟨params, scope⟩, hp, ⟨body, scope'⟩, hb, rfl⟩ := h
  obtain ⟨rfl, rfl⟩ := lowerParams_eq_ok hp
  rw [length_storeCode] at hb
  exact ⟨body, scope', rfl, code_of_lowerStmts hb ho f.nested_scope⟩

/-- A compiled function is a routine with its name and its code. -/
theorem lower_eq_ok {r : Routine} (h : f.lower table = .ok r) :
    ∃ code, f.code table = .ok code ∧ r = ⟨f.name, code.toArray⟩ ∧
      Routine.ofCode f.name code.toArray = .ok r := by
  rw [f.lower_eq table, bind_eq_ok] at h
  obtain ⟨code, hc, hr⟩ := h
  cases hofCode : Routine.ofCode f.name code.toArray with
  | error e => rw [hofCode] at hr; cases hr
  | ok r' =>
    rw [hofCode] at hr
    cases hr
    refine ⟨code, hc, ?_, hofCode⟩
    rw [Routine.ofCode] at hofCode
    split at hofCode
    · cases hofCode
    · cases hofCode
      rfl

end Function
end Opstack
