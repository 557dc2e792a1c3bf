import Opstack.Proofs.Code.Building
import Opstack.Proofs.Lowering.Layout
import Opstack.Proofs.Machine.Effects

/-!
# The jumps of compiled code

Every jump that the compiler writes stays in the code of the statement that it is written for: it
continues at one of its instructions or right behind the last one.  That is `JumpsWithin`, and it
is preserved when the codes of parts are put together (`Clause.Code.jumpsWithin`).

Right behind the last instruction there may be nothing.  In a function there always is something:
either the end that returns `null`, or the last statement is a `return`, whose own code comes
behind every jump (`Clause.Code.jumpsBefore`).  So the check of the finished routine has nothing
to complain about, and since none of the errors on the way speaks of jumps, no function is ever
refused because of one: `Function.lower_of_draft`.
-/

set_option autoImplicit false

namespace Opstack

/-! ## Instructions of expressions -/

/-- The instruction leads to the next one, has nothing to do with slots, and carries what its opcode
needs. -/
def Instr.isInert (i : Instr) : Bool :=
  match i.op with
  | .jmp | .jmpf | .ret | .store | .load => false
  | op => op.accepts i.arg

/-- An instruction that may stand in an expression in this scope: if it loads, then from the slot
of a variable in scope. -/
inductive Scope.Allows (scope : Scope) : Instr → Prop
  | inert {i : Instr} (h : i.isInert = true) : Allows scope i
  | load {l : Local} (h : l ∈ scope.locals) : Allows scope (.load l.slot)

theorem Scope.allows_load {scope : Scope} {name : String} {slot : Nat}
    (h : scope.resolve? name = some slot) : scope.Allows (.load slot) := by
  obtain ⟨l, hl, rfl⟩ := Option.map_eq_some_iff.mp h
  exact .load (List.mem_of_find?_eq_some hl)

theorem Instr.not_isJump_of_isInert {i : Instr} (h : i.isInert = true) : i.op.isJump = false := by
  rw [isInert] at h
  cases hop : i.op <;> simp_all [Opcode.isJump]

theorem Scope.Allows.not_isJump {scope : Scope} {i : Instr} (h : scope.Allows i) :
    i.op.isJump = false := by
  cases h with
  | inert h => exact i.not_isJump_of_isInert h
  | load _ => rfl

theorem Scope.Allows.accepts {scope : Scope} {i : Instr} (h : scope.Allows i) :
    i.op.accepts i.arg = true := by
  cases h with
  | inert h =>
    rw [Instr.isInert] at h
    split at h
    all_goals first | cases h | exact h
  | load _ => rfl

/-- The code of a call is a `CALL`, or that of a builtin. -/
theorem allows_callCode (scope : Scope) (name : String) : ∀ i ∈ callCode name, scope.Allows i := by
  intro i hi
  unfold callCode builtin? at hi
  split at hi <;> simp only [Option.getD_some, Option.getD_none, List.mem_cons, List.not_mem_nil,
    or_false] at hi
  case h_1 => rcases hi with rfl | rfl <;> exact .inert rfl
  case h_2 => rcases hi with rfl | rfl | rfl | rfl <;> exact .inert rfl
  all_goals
    subst hi
    exact .inert rfl

section

variable {rules : Rules} {table : RecordTable} {scope : Scope}

/-- Every instruction of an expression may stand there. -/
theorem Term.Code.allows {term : Term} {code : List Instr}
    (h : Term.Code rules table scope term code) : ∀ i ∈ code, scope.Allows i := by
  induction h with
  | literal _ => exact List.forall_mem_singleton.mpr (.inert rfl)
  | path _ ih => exact ih
  | call _ _ ih =>
    exact List.forall_mem_append.mpr ⟨ih, allows_callCode scope _⟩
  | newRecord _ _ _ ih => exact List.forall_mem_cons.mpr ⟨.inert rfl, ih⟩
  | newArray _ ih =>
    exact List.forall_mem_append.mpr ⟨ih, List.forall_mem_singleton.mpr (.inert rfl)⟩
  | not _ ih => exact List.forall_mem_append.mpr ⟨ih, List.forall_mem_singleton.mpr (.inert rfl)⟩
  | binary _ _ _ ihl ihr =>
    exact List.forall_mem_append.mpr
      ⟨List.forall_mem_append.mpr ⟨ihl, ihr⟩, List.forall_mem_singleton.mpr (.inert rfl)⟩
  | swapped _ _ _ ihr ihl =>
    exact List.forall_mem_append.mpr
      ⟨List.forall_mem_append.mpr ⟨ihr, ihl⟩, List.forall_mem_singleton.mpr (.inert rfl)⟩
  | noArgs | noFields | noSteps | plain => simp
  | args _ _ ihrest ih => exact List.forall_mem_append.mpr ⟨ihrest, ih⟩
  | fields _ _ ih ihrest =>
    exact List.forall_mem_append.mpr ⟨List.forall_mem_cons.mpr ⟨.inert rfl, ih⟩,
      List.forall_mem_cons.mpr ⟨.inert rfl, ihrest⟩⟩
  | start hslot _ _ ih ihrest =>
    exact List.forall_mem_append.mpr
      ⟨List.forall_mem_cons.mpr ⟨scope.allows_load hslot, ih⟩, ihrest⟩
  | steps _ _ ih ihrest =>
    exact List.forall_mem_append.mpr
      ⟨List.forall_mem_cons.mpr ⟨.inert rfl, ih⟩, ihrest⟩
  | indexed _ ih =>
    exact List.forall_mem_append.mpr ⟨ih, List.forall_mem_singleton.mpr (.inert rfl)⟩

theorem FieldTarget.Code.allows {steps : List Step} {code : List Instr} {last : Instr}
    (h : FieldTarget.Code rules table scope steps code last) : ∀ i ∈ code, scope.Allows i := by
  have hgetf : ∀ field, scope.Allows (.getf field) := fun field => .inert rfl
  induction h with
  | field => simp
  | cell h => exact List.forall_mem_cons.mpr ⟨hgetf _, h.allows⟩
  | step h _ ih =>
    exact List.forall_mem_append.mpr ⟨List.forall_mem_cons.mpr ⟨hgetf _, h.allows⟩, ih⟩

theorem Target.Code.allows {steps : List Step} {code : List Instr} {last : Instr}
    (h : Target.Code rules table scope steps code last) : ∀ i ∈ code, scope.Allows i := by
  cases h with
  | slot _ => simp
  | cell hslot h => exact List.forall_mem_cons.mpr ⟨scope.allows_load hslot, h.allows⟩
  | step hslot h hrest =>
    exact List.forall_mem_append.mpr
      ⟨List.forall_mem_cons.mpr ⟨scope.allows_load hslot, h.allows⟩, hrest.allows⟩

/-- What comes after the value of an assignment is a `STORE`, a `SETF` or a `SETI`. -/
theorem FieldTarget.Code.last_eq {steps : List Step} {code : List Instr} {last : Instr}
    (h : FieldTarget.Code rules table scope steps code last) :
    (∃ field, last = .setf field) ∨ last = .plain .seti := by
  induction h with
  | field => exact .inl ⟨_, rfl⟩
  | cell _ => exact .inr rfl
  | step _ _ ih => exact ih

theorem Target.Code.last_eq {steps : List Step} {code : List Instr} {last : Instr}
    (h : Target.Code rules table scope steps code last) :
    (∃ l ∈ scope.locals, last = .store l.slot) ∨ (∃ field, last = .setf field) ∨
      last = .plain .seti := by
  cases h with
  | slot hslot =>
    obtain ⟨l, hl, rfl⟩ := Option.map_eq_some_iff.mp hslot
    exact .inl ⟨l, List.mem_of_find?_eq_some hl, rfl⟩
  | cell _ _ => exact .inr (.inr rfl)
  | step _ _ hrest => exact .inr hrest.last_eq

end

/-! ## Jumps within a statement -/

/-- Every jump of the code continues at an index between two bounds. -/
def JumpsWithin (low high : Nat) (code : List Instr) : Prop :=
  ∀ i ∈ code, i.op.isJump = true →
    ∃ target, i.arg = some (.target target) ∧ low ≤ target ∧ target ≤ high

section

variable {low high low' high' : Nat} {code : List Instr}

theorem JumpsWithin.mono (h : JumpsWithin low high code) (hlow : low' ≤ low)
    (hhigh : high ≤ high') : JumpsWithin low' high' code := by
  intro i hi hjump
  obtain ⟨target, harg, h₁, h₂⟩ := h i hi hjump
  exact ⟨target, harg, Nat.le_trans hlow h₁, Nat.le_trans h₂ hhigh⟩

@[simp] theorem jumpsWithin_nil : JumpsWithin low high [] := List.forall_mem_nil _

@[simp] theorem jumpsWithin_append {a b : List Instr} :
    JumpsWithin low high (a ++ b) ↔ JumpsWithin low high a ∧ JumpsWithin low high b :=
  List.forall_mem_append

@[simp] theorem jumpsWithin_cons {i : Instr} :
    JumpsWithin low high (i :: code) ↔
      (i.op.isJump = true → ∃ t, i.arg = some (.target t) ∧ low ≤ t ∧ t ≤ high) ∧
        JumpsWithin low high code :=
  List.forall_mem_cons

theorem jumpsWithin_of_allows {scope : Scope} (h : ∀ i ∈ code, scope.Allows i) :
    JumpsWithin low high code := by
  intro i hi hjump
  rw [(h i hi).not_isJump] at hjump
  cases hjump

theorem jumpsWithin_callCode (low high : Nat) (name : String) :
    JumpsWithin low high (callCode name) :=
  jumpsWithin_of_allows (allows_callCode {} name)

theorem jumpsWithin_cons_jmp {target : Nat} (h : JumpsWithin low high code)
    (h₁ : low ≤ target) (h₂ : target ≤ high) : JumpsWithin low high (.jmp target :: code) :=
  jumpsWithin_cons.mpr ⟨fun _ => ⟨target, rfl, h₁, h₂⟩, h⟩

theorem jumpsWithin_cons_jmpf {target : Nat} (h : JumpsWithin low high code)
    (h₁ : low ≤ target) (h₂ : target ≤ high) : JumpsWithin low high (.jmpf target :: code) :=
  jumpsWithin_cons.mpr ⟨fun _ => ⟨target, rfl, h₁, h₂⟩, h⟩

theorem jumpsWithin_cons_other {i : Instr} (h : JumpsWithin low high code)
    (hi : i.op.isJump = false) : JumpsWithin low high (i :: code) :=
  jumpsWithin_cons.mpr ⟨fun hjump => absurd hjump (by simp [hi]), h⟩

/-- The jumps of a loop lead back to its test and right behind it. -/
theorem JumpsWithin.loop {start stop : Nat} {test body : List Instr}
    (ht : JumpsWithin start stop test)
    (hb : JumpsWithin (start + test.length + 1) (start + test.length + 1 + body.length) body)
    (hstop : stop = start + test.length + 1 + body.length + 1) :
    JumpsWithin start stop (test ++ .jmpf stop :: body ++ [.jmp start]) := by
  refine jumpsWithin_append.mpr ⟨jumpsWithin_append.mpr ⟨ht, jumpsWithin_cons_jmpf
    (hb.mono ?_ ?_) ?_ (Nat.le_refl _)⟩, jumpsWithin_cons_jmp jumpsWithin_nil (Nat.le_refl _) ?_⟩
  all_goals omega

theorem jumpsWithin_countingCode (low high : Nat) (name : String) (slot : Nat) :
    JumpsWithin low high (countingCode name slot) := by
  simp [countingCode, Instr.load, Instr.push, Instr.plain, Instr.store, Instr.withComment,
    Opcode.isJump]

theorem jumpsWithin_storeCode (low high slot n : Nat) :
    JumpsWithin low high (storeCode slot n) := by
  induction n generalizing slot with
  | zero => exact jumpsWithin_nil
  | succ n ih => exact jumpsWithin_cons_other (ih _) rfl

end

section

variable {rules : Rules} {table : RecordTable} {start : Nat} {scope scope' : Scope}
  {code : List Instr} {marks : List Nat}

theorem Term.Code.jumpsWithin {term : Term} (h : Term.Code rules table scope term code)
    (low high : Nat) : JumpsWithin low high code :=
  jumpsWithin_of_allows h.allows

theorem Target.Code.last_not_isJump {steps : List Step} {last : Instr}
    (h : Target.Code rules table scope steps code last) : last.op.isJump = false := by
  rcases h.last_eq with ⟨l, _, rfl⟩ | ⟨field, rfl⟩ | rfl <;> rfl

/-- **The jumps of a statement stay in its code**: each continues at one of the instructions or
right behind the last one. -/
theorem Clause.Code.jumpsWithin {clause : Clause}
    (h : Clause.Code rules table start scope clause code scope' marks) :
    JumpsWithin start (start + code.length) code := by
  induction h with
  | ret h =>
    exact jumpsWithin_append.mpr
      ⟨h.jumpsWithin _ _, jumpsWithin_cons_other jumpsWithin_nil rfl⟩
  | declare h =>
    exact jumpsWithin_append.mpr
      ⟨h.jumpsWithin _ _, jumpsWithin_cons_other jumpsWithin_nil rfl⟩
  | declareNull =>
    exact jumpsWithin_cons_other (jumpsWithin_cons_other jumpsWithin_nil rfl) rfl
  | assign ht h =>
    exact jumpsWithin_append.mpr
      ⟨jumpsWithin_append.mpr ⟨jumpsWithin_of_allows ht.allows, h.jumpsWithin _ _⟩,
        jumpsWithin_cons_other jumpsWithin_nil ht.last_not_isJump⟩
  | whileLoop ht _ ih =>
    refine (JumpsWithin.loop (ht.jumpsWithin _ _) ih rfl).mono (Nat.le_refl _) ?_
    simp
    omega
  | @forLoop start scope _ name _ _ _ init bound code _ hi hl _ ih =>
    have htest : ∀ low high, JumpsWithin low high
        (.load scope.slotCount :: bound ++ [.plain (.binary .cmple)]) := fun low high =>
      jumpsWithin_append.mpr ⟨jumpsWithin_cons_other (hl.jumpsWithin _ _) rfl,
        jumpsWithin_cons_other jumpsWithin_nil rfl⟩
    have hloop : JumpsWithin (start + init.length + 1)
        (start + init.length + 1 + (bound.length + 2) + 1 + code.length + 4 + 1)
        (.load scope.slotCount :: bound ++ [.plain (.binary .cmple)] ++
          .jmpf (start + init.length + 1 + (bound.length + 2) + 1 + code.length + 4 + 1) ::
            (code ++ countingCode name scope.slotCount) ++ [.jmp (start + init.length + 1)]) :=
      .loop (htest _ _) (jumpsWithin_append.mpr ⟨ih.mono (by simp) (by simp),
        jumpsWithin_countingCode _ _ _ _⟩) (by simp; omega)
    have hwhole := jumpsWithin_append.mpr ⟨hi.jumpsWithin _ _,
      jumpsWithin_cons_other (i := .store scope.slotCount) hloop rfl⟩
    simp only [List.append_assoc, List.cons_append] at hwhole ⊢
    refine hwhole.mono ?_ ?_
    · omega
    · simp
      omega
  | branch _ ih | next _ ih | orElse _ ih => exact ih
  | call _ h =>
    exact jumpsWithin_append.mpr ⟨jumpsWithin_append.mpr
      ⟨h.jumpsWithin _ _, jumpsWithin_callCode _ _ _⟩,
      jumpsWithin_cons_other jumpsWithin_nil rfl⟩
  | nil | noNext | noElse => exact jumpsWithin_nil
  | cons _ _ ih ih' =>
    rw [jumpsWithin_append, List.length_append]
    exact ⟨ih.mono (by omega) (by omega), ih'.mono (by omega) (by omega)⟩
  | arm _ ht _ _ _ ihb ihn ihe =>
    simp only [jumpsWithin_append, List.length_append, List.length_cons]
    refine ⟨⟨⟨ht.jumpsWithin _ _, jumpsWithin_cons_jmpf (ihb.mono ?_ ?_) ?_ ?_⟩,
      jumpsWithin_cons_jmp (ihn.mono ?_ ?_) ?_ ?_⟩, ihe.mono ?_ ?_⟩
    all_goals omega

/-- The jumps of a block that ends with a `return` stay before the end of its code. -/
theorem Clause.Code.jumpsBefore {l : List Stmt}
    (h : Clause.Code rules table start scope (.stmts l) code scope' marks)
    (hl : l.getLast?.any Stmt.isReturn = true) :
    0 < code.length ∧ JumpsWithin start (start + code.length - 1) code := by
  induction l generalizing start scope code marks with
  | nil => simp at hl
  | cons s rest ih =>
    cases h with
    | @cons _ _ _ _ _ _ code later _ _ hs hrest =>
      rw [jumpsWithin_append, List.length_append]
      cases rest with
      | nil =>
        obtain ⟨e, rfl⟩ : ∃ e, s = .ret e := by
          cases s <;> simp_all [Stmt.isReturn]
        cases hrest
        cases hs with
        | ret h =>
          rw [jumpsWithin_append, List.length_append]
          exact ⟨by simp, ⟨h.jumpsWithin _ _, jumpsWithin_cons_other jumpsWithin_nil rfl⟩,
            jumpsWithin_nil⟩
      | cons s' rest =>
        obtain ⟨hpos, hlater⟩ := ih hrest (by rwa [List.getLast?_cons_cons] at hl)
        exact ⟨by omega, hs.jumpsWithin.mono (by omega) (by omega),
          hlater.mono (by omega) (by omega)⟩

end

/-! ## The check of the finished routine -/

/-- Every jump of the routine continues at one of its instructions. -/
def Routine.JumpsInside (r : Routine) : Prop :=
  ∀ index i, r.get? index = some i → i.op.isJump = true →
    ∃ target, i.arg = some (.target target) ∧ target < r.size

theorem Routine.ofCode_eq_ok (name : String) {code : List Instr} {n : Nat}
    (h : JumpsWithin 0 n code) (hn : n < code.length) :
    Routine.ofCode name code.toArray = .ok ⟨name, code.toArray⟩ := by
  refine ofCode_eq_ok_iff.mpr ⟨rfl, fun i hi hjump => ?_⟩
  obtain ⟨target, harg, -, htarget⟩ := h i (List.mem_toArray.mp hi) hjump
  exact ⟨target, harg, by rw [List.size_toArray]; omega⟩

theorem Routine.jumpsInside_of_within {name : String} {code : List Instr} {n : Nat}
    (h : JumpsWithin 0 n code) (hn : n < code.length) :
    (⟨name, code.toArray⟩ : Routine).JumpsInside := by
  intro index i hi hjump
  rw [get?, List.getElem?_toArray] at hi
  obtain ⟨target, harg, -, htarget⟩ := h i (List.mem_of_getElem? hi) hjump
  exact ⟨target, harg, by rw [size, List.size_toArray]; omega⟩

/-- **The jumps of the code of a function stay before its end**: behind the body comes the end that
returns `null`, or else the body ends with a `return`, whose code comes behind all jumps. -/
theorem Function.code_jumpsWithin {f : Function} {table : RecordTable} {code : List Instr}
    (h : f.code table = .ok code) : ∃ n < code.length, JumpsWithin 0 n code := by
  obtain ⟨body, scope', rfl, hbody⟩ := Function.code_eq_ok h (Stmt.allObey_free f.body)
  have hstores := fun high => jumpsWithin_storeCode 0 high 0 f.params.length
  by_cases hlast : f.body.getLast?.any Stmt.isReturn = true
  · obtain ⟨hpos, hjumps⟩ := hbody.jumpsBefore hlast
    rw [endCode, if_pos hlast, List.append_nil]
    refine ⟨f.params.length + body.length - 1, ?_, ?_⟩
    · rw [List.length_append, length_storeCode]
      omega
    · exact jumpsWithin_append.mpr ⟨hstores _, hjumps.mono (by omega) (by omega)⟩
  · rw [endCode, if_neg hlast]
    refine ⟨f.params.length + body.length, ?_, ?_⟩
    · simp
    · exact jumpsWithin_append.mpr ⟨jumpsWithin_append.mpr
        ⟨hstores _, hbody.jumpsWithin.mono (by omega) (by omega)⟩,
        jumpsWithin_cons_other (jumpsWithin_cons_other jumpsWithin_nil rfl) rfl⟩

/-! ## Errors on the way -/

/-- The lowering does not fail because of a jump. -/
def Clean {α : Type} (x : Except CompileError α) : Prop := ∀ e, x ≠ .error (.jump e)

section

variable {α β : Type} {x : Except CompileError α} {f : α → Except CompileError β}

theorem clean_ok (a : α) : Clean (Except.ok a : Except CompileError α) := by
  intro e h
  cases h

theorem Clean.bind (hx : Clean x) (hf : ∀ a, Clean (f a)) : Clean (x >>= f) := by
  cases x with
  | error err =>
    intro e h
    cases h
    exact hx e rfl
  | ok a => exact hf a

theorem clean_value (t : Token) : Clean t.value := by
  intro e h
  rw [Token.value] at h
  repeat' split at h
  all_goals cases h

theorem clean_resolve (scope : Scope) (name : String) : Clean (scope.resolve name) := by
  intro e h
  rw [Scope.resolve] at h
  split at h <;> cases h

theorem clean_declare (scope : Scope) (name : String) : Clean (scope.declare name) := by
  intro e h
  rw [Scope.declare] at h
  split at h <;> cases h

theorem Clean.ite {p : Prop} [Decidable p] {y : Except CompileError α} (hx : Clean x)
    (hy : Clean y) : Clean (if p then x else y) := by
  split
  · exact hx
  · exact hy

end

section

variable (table : RecordTable)

mutual

theorem clean_lowerExpr (scope : Scope) : ∀ e : Expr, Clean (lowerExpr table scope e)
  | .literal token => by
    rw [lowerExpr]
    exact (clean_value token).bind fun _ => clean_ok _
  | .path steps => by
    rw [lowerExpr]
    exact clean_lowerPath scope steps
  | .call _ args => by
    rw [lowerExpr]
    exact (clean_lowerArgs scope args).bind fun _ => clean_ok _
  | .newRecord type args => by
    rw [lowerExpr]
    cases table.lookup type with
    | none =>
      intro e h
      cases h
    | some fields =>
      refine .ite ((clean_lowerFields scope fields args).bind fun _ => clean_ok _) ?_
      intro e h
      cases h
  | .newArray _ length => by
    rw [lowerExpr]
    exact (clean_lowerExpr scope length).bind fun _ => clean_ok _
  | .not e => by
    rw [lowerExpr]
    exact (clean_lowerExpr scope e).bind fun _ => clean_ok _
  | .binary _ lhs rhs => by
    rw [lowerExpr]
    exact .ite
      ((clean_lowerExpr scope rhs).bind fun _ => (clean_lowerExpr scope lhs).bind fun _ =>
        clean_ok _)
      ((clean_lowerExpr scope lhs).bind fun _ => (clean_lowerExpr scope rhs).bind fun _ =>
        clean_ok _)

theorem clean_lowerArgs (scope : Scope) : ∀ es : List Expr, Clean (lowerArgs table scope es)
  | [] => clean_ok _
  | e :: rest => by
    rw [lowerArgs]
    exact (clean_lowerArgs scope rest).bind fun _ => (clean_lowerExpr scope e).bind fun _ =>
      clean_ok _

theorem clean_lowerFields (scope : Scope) :
    ∀ (fields : List String) (es : List Expr), Clean (lowerFields table scope fields es)
  | field :: fields, e :: rest => by
    rw [lowerFields]
    exact (clean_lowerExpr scope e).bind fun _ => (clean_lowerFields scope fields rest).bind
      fun _ => clean_ok _
  | [], _ => by
    rw [lowerFields]
    · exact clean_ok _
    · intro _ _ _ _ h
      cases h
  | _ :: _, [] => clean_ok _

theorem clean_lowerPath (scope : Scope) : ∀ steps : List Step, Clean (lowerPath table scope steps)
  | [] => by
    intro e h
    cases h
  | step :: rest => by
    rw [lowerPath]
    exact (clean_resolve scope step.name).bind fun _ => (clean_lowerIndex scope step).bind fun _ =>
      (clean_lowerSteps scope rest).bind fun _ => clean_ok _

theorem clean_lowerSteps (scope : Scope) :
    ∀ steps : List Step, Clean (lowerSteps table scope steps)
  | [] => clean_ok _
  | step :: rest => by
    rw [lowerSteps]
    exact (clean_lowerIndex scope step).bind fun _ => (clean_lowerSteps scope rest).bind fun _ =>
      clean_ok _

theorem clean_lowerIndex (scope : Scope) : ∀ step : Step, Clean (lowerIndex table scope step)
  | .plain _ => clean_ok _
  | .indexed _ index => by
    rw [lowerIndex]
    exact (clean_lowerExpr scope index).bind fun _ => clean_ok _

end

theorem clean_lowerInit (scope : Scope) (init : Option Expr) :
    Clean (lowerInit table scope init) := by
  cases init with
  | none => exact clean_ok _
  | some e => exact clean_lowerExpr table scope e

theorem clean_lowerFieldTarget (scope : Scope) :
    ∀ steps : List Step, Clean (lowerFieldTarget table scope steps)
  | [] => by
    intro e h
    cases h
  | [.plain _] => clean_ok _
  | [.indexed _ index] => by
    rw [lowerFieldTarget]
    exact (clean_lowerExpr table scope index).bind fun _ => clean_ok _
  | step :: next :: rest => by
    have ih := clean_lowerFieldTarget scope (next :: rest)
    rw [lowerFieldTarget_cons]
    exact (clean_lowerIndex table scope step).bind fun _ => ih.bind fun _ => clean_ok _

theorem clean_lowerTarget (scope : Scope) :
    ∀ steps : List Step, Clean (lowerTarget table scope steps)
  | [] => by
    intro e h
    cases h
  | [.plain name] => (clean_resolve scope name).bind fun _ => clean_ok _
  | [.indexed name index] =>
    (clean_resolve scope name).bind fun _ => (clean_lowerExpr table scope index).bind fun _ =>
      clean_ok _
  | step :: next :: rest => by
    rw [lowerTarget_cons]
    exact (clean_resolve scope step.name).bind fun _ => (clean_lowerIndex table scope step).bind
      fun _ => (clean_lowerFieldTarget table scope (next :: rest)).bind fun _ => clean_ok _

mutual

theorem clean_lowerStmt : ∀ (s : Stmt) (start : Nat) (scope : Scope),
    Clean (lowerStmt table start scope s)
  | .ret e, _, scope => by
    rw [lowerStmt]
    exact (clean_lowerExpr table scope e).bind fun _ => clean_ok _
  | .declare name _ init, _, scope => by
    rw [lowerStmt]
    exact (clean_lowerInit table scope init).bind fun _ => (clean_declare scope name).bind fun _ =>
      clean_ok _
  | .assign target e, _, scope => by
    rw [lowerStmt]
    exact (clean_lowerTarget table scope target).bind fun _ =>
      (clean_lowerExpr table scope e).bind fun _ => clean_ok _
  | .whileLoop cond body, _, scope => by
    rw [lowerStmt]
    exact (clean_lowerExpr table scope cond).bind fun _ => (clean_lowerStmts body _ _).bind fun _ =>
      clean_ok _
  | .forLoop name first last body, _, scope => by
    rw [lowerStmt]
    exact (clean_lowerExpr table _ first).bind fun _ => (clean_declare _ name).bind fun _ =>
      (clean_lowerExpr table _ last).bind fun _ => (clean_lowerStmts body _ _).bind fun _ =>
        clean_ok _
  | .branch b, start, scope => by
    rw [lowerStmt]
    exact clean_lowerBranch b start scope
  | .call _ args, _, scope => by
    rw [lowerStmt]
    exact (clean_lowerArgs table scope args).bind fun _ => clean_ok _

theorem clean_lowerStmts : ∀ (l : List Stmt) (start : Nat) (scope : Scope),
    Clean (lowerStmts table start scope l)
  | [], _, _ => clean_ok _
  | s :: rest, start, scope => by
    rw [lowerStmts]
    exact (clean_lowerStmt s start scope).bind fun _ => (clean_lowerStmts rest _ _).bind fun _ =>
      clean_ok _

theorem clean_lowerBranch : ∀ (b : Branch) (start : Nat) (scope : Scope),
    Clean (lowerBranch table start scope b)
  | .arm cond body next orElse, _, scope => by
    rw [lowerBranch]
    exact (clean_lowerExpr table scope cond).bind fun _ => (clean_lowerStmts body _ _).bind fun _ =>
      (clean_lowerNext next _ _).bind fun _ => (clean_lowerElse orElse _ _).bind fun _ => clean_ok _

theorem clean_lowerNext : ∀ (next : Option Branch) (start : Nat) (scope : Scope),
    Clean (lowerNext table start scope next)
  | none, _, _ => clean_ok _
  | some b, start, scope => by
    rw [lowerNext]
    exact clean_lowerBranch b start scope

theorem clean_lowerElse : ∀ (orElse : Option (List Stmt)) (start : Nat) (scope : Scope),
    Clean (lowerElse table start scope orElse)
  | none, _, _ => clean_ok _
  | some body, start, scope => by
    rw [lowerElse]
    exact (clean_lowerStmts body start _).bind fun _ => clean_ok _

end

theorem clean_lowerParams :
    ∀ (params : List String) (scope : Scope), Clean (lowerParams scope params)
  | [], _ => clean_ok _
  | name :: rest, scope => by
    rw [lowerParams]
    exact (clean_declare scope name).bind fun _ => (clean_lowerParams rest _).bind fun _ =>
      clean_ok _

theorem Function.clean_draft (f : Function) : Clean (f.draft table) := by
  rw [f.draft_eq table]
  exact (clean_lowerParams f.params _).bind fun _ => (clean_lowerStmts table f.body _ _).bind
    fun _ => clean_ok _

/-- The routine of a function has the instructions of its code, whose jumps are always in order. -/
theorem Function.lower_eq_code (f : Function) :
    f.lower table = f.code table >>= fun code => pure ⟨f.name, code.toArray⟩ := by
  rw [lower_eq]
  cases h : f.code table with
  | error e => rfl
  | ok code =>
    obtain ⟨n, hn, hjumps⟩ := code_jumpsWithin h
    exact congrArg (Except.mapError CompileError.jump) (Routine.ofCode_eq_ok f.name hjumps hn)

/-- **No function is refused because of a jump.**  What can go wrong goes wrong while the function
is being written, and is not about jumps; once it has been written, every jump has been patched to
one of its instructions, and the finished routine has the instructions as they were written. -/
theorem Function.lower_of_draft (f : Function) :
    match f.draft table with
    | .error e => f.lower table = .error e ∧ ∀ jump, e ≠ .jump jump
    | .ok d =>
      ∃ r, d.builder.finish = .ok r ∧ f.lower table = .ok r ∧ r = ⟨f.name, d.builder.code⟩ ∧
        r.JumpsInside := by
  have hclean := f.clean_draft table
  have hlower : f.lower table = f.draft table >>= fun d => d.builder.finish.mapError .jump := rfl
  cases hd : f.draft table with
  | error e =>
    rw [hd] at hlower hclean
    exact ⟨hlower, fun jump he => hclean jump (congrArg _ he)⟩
  | ok d =>
    rw [hd] at hlower
    have hdraft := f.draft_eq table
    rw [hd, eq_comm] at hdraft
    simp only [bind_eq_ok, pure_eq_ok] at hdraft
    obtain ⟨⟨params, scope⟩, hp, ⟨body, scope'⟩, hb, rfl⟩ := hdraft
    have hcode : f.code table = .ok (params ++ body ++ endCode f.body) := by
      simp only [Function.code, bind_eq_ok, pure_eq_ok]
      exact ⟨_, hp, _, hb, rfl⟩
    obtain ⟨n, hn, hjumps⟩ := Function.code_jumpsWithin hcode
    have hfinish := Routine.ofCode_eq_ok f.name hjumps hn
    refine ⟨_, hfinish, ?_, rfl, Routine.jumpsInside_of_within hjumps hn⟩
    rw [hlower]
    exact congrArg (Except.mapError CompileError.jump) hfinish

end

end Opstack
