import Opstack.Proofs.Lowering.Jumps

/-!
# Code without loops

Only the code of loops jumps back.  In the code of a function without `while` and `for` every jump
continues behind itself, those in the middle of a chain of arms included
(`Function.forward_of_lower`), so that an activation gets further with every instruction.
-/

set_option autoImplicit false

namespace Opstack

/-! ## Trees without loops -/

mutual

/-- There is no loop in the statement. -/
def Stmt.isLoopFree : Stmt → Bool
  | .whileLoop _ _ | .forLoop _ _ _ _ => false
  | .branch b => b.isLoopFree
  | .ret _ | .declare _ _ _ | .assign _ _ | .call _ _ => true

/-- There is no loop in the statements. -/
def Stmt.allLoopFree : List Stmt → Bool
  | [] => true
  | s :: rest => s.isLoopFree && Stmt.allLoopFree rest

/-- There is no loop in the arms. -/
def Branch.isLoopFree : Branch → Bool
  | .arm _ body next orElse =>
    Stmt.allLoopFree body && Branch.nextLoopFree next && Stmt.elseLoopFree orElse

/-- There is no loop in the next arm, if there is one. -/
def Branch.nextLoopFree : Option Branch → Bool
  | none => true
  | some b => b.isLoopFree

/-- There is no loop in the `else`, if there is one. -/
def Stmt.elseLoopFree : Option (List Stmt) → Bool
  | none => true
  | some body => Stmt.allLoopFree body

end

/-- There is no loop in the statement, or in what one is made of. -/
def Clause.isLoopFree : Clause → Bool
  | .stmt s => s.isLoopFree
  | .stmts l => Stmt.allLoopFree l
  | .branch b => b.isLoopFree
  | .next b => Branch.nextLoopFree b
  | .orElse body => Stmt.elseLoopFree body

/-! ## Jumps forward -/

/-- Every jump of the code, which begins at a place, continues behind itself. -/
def Forward (start : Nat) (code : List Instr) : Prop :=
  ∀ k i, code[k]? = some i → i.op.isJump = true →
    ∃ target, i.arg = some (.target target) ∧ start + k < target

section

variable {start : Nat} {a b code : List Instr} {i : Instr}

@[simp] theorem forward_nil : Forward start [] := fun k i hi => by cases hi

theorem forward_cons :
    Forward start (i :: code) ↔
      (i.op.isJump = true → ∃ target, i.arg = some (.target target) ∧ start < target) ∧
        Forward (start + 1) code := by
  constructor
  · intro h
    refine ⟨fun hjump => h 0 i rfl hjump, fun k j hj hjump => ?_⟩
    obtain ⟨target, harg, hlt⟩ := h (k + 1) j hj hjump
    exact ⟨target, harg, by omega⟩
  · rintro ⟨hi, hcode⟩ (_ | k) j hj hjump
    · cases hj
      exact hi hjump
    · obtain ⟨target, harg, hlt⟩ := hcode k j hj hjump
      exact ⟨target, harg, by omega⟩

theorem forward_append :
    Forward start (a ++ b) ↔ Forward start a ∧ Forward (start + a.length) b := by
  induction a generalizing start with
  | nil => simp
  | cons i rest ih =>
    have hstart : start + (i :: rest).length = start + 1 + rest.length := by
      rw [List.length_cons]
      omega
    rw [List.cons_append, forward_cons, ih, forward_cons, hstart, and_assoc]

theorem Forward.at {place : Nat} (h : Forward start code) (hplace : start = place) :
    Forward place code :=
  hplace ▸ h

theorem forward_of_not_isJump (h : ∀ i ∈ code, i.op.isJump = false) : Forward start code := by
  intro k i hi hjump
  rw [h i (List.mem_of_getElem? hi)] at hjump
  cases hjump

theorem forward_of_allows {scope : Scope} (h : ∀ i ∈ code, scope.Allows i) :
    Forward start code :=
  forward_of_not_isJump fun i hi => (h i hi).not_isJump

theorem forward_singleton (hi : i.op.isJump = false) : Forward start [i] :=
  forward_of_not_isJump (List.forall_mem_singleton.mpr hi)

theorem forward_cons_jump {target : Nat} (harg : i.arg = some (.target target))
    (hlt : start < target) (hcode : Forward (start + 1) code) : Forward start (i :: code) :=
  forward_cons.mpr ⟨fun _ => ⟨target, harg, hlt⟩, hcode⟩

theorem forward_storeCode (start slot n : Nat) : Forward start (storeCode slot n) := by
  induction n generalizing start slot with
  | zero => exact forward_nil
  | succ n ih => exact forward_cons.mpr ⟨fun hjump => (by cases hjump), ih _ _⟩

end

/-- Every jump of the routine continues behind itself. -/
def Routine.Forward (r : Routine) : Prop :=
  ∀ index i, r.get? index = some i → i.op.isJump = true →
    ∃ target, i.arg = some (.target target) ∧ index < target

section

variable {rules : Rules} {table : RecordTable} {start : Nat} {scope scope' : Scope}
  {code : List Instr} {marks : List Nat}

/-- **Without loops all jumps lead forward.** -/
theorem Clause.Code.forward {clause : Clause}
    (h : Clause.Code rules table start scope clause code scope' marks)
    (hfree : clause.isLoopFree = true) : Forward start code := by
  induction h with
  | ret h | declare h =>
    exact forward_append.mpr ⟨forward_of_allows h.allows, forward_singleton rfl⟩
  | declareNull => exact forward_append.mpr ⟨forward_singleton rfl, forward_singleton rfl⟩
  | assign ht h =>
    exact forward_append.mpr ⟨forward_append.mpr ⟨forward_of_allows ht.allows,
      forward_of_allows h.allows⟩, forward_singleton ht.last_not_isJump⟩
  | whileLoop | forLoop => cases hfree
  | branch _ ih | next _ ih | orElse _ ih => exact ih hfree
  | call _ h =>
    exact forward_append.mpr ⟨forward_append.mpr ⟨forward_of_allows h.allows,
      forward_of_allows (allows_callCode {} _)⟩, forward_singleton rfl⟩
  | nil | noNext | noElse => exact forward_nil
  | cons _ _ ih ih' =>
    rw [Clause.isLoopFree, Stmt.allLoopFree, Bool.and_eq_true] at hfree
    exact forward_append.mpr ⟨ih hfree.1, ih' hfree.2⟩
  | arm _ ht _ _ _ ihb ihn ihe =>
    simp only [Clause.isLoopFree, Branch.isLoopFree, Bool.and_eq_true] at hfree
    obtain ⟨⟨hbody, hnext⟩, helse⟩ := hfree
    -- The jump over the body and the jump from its end to the end of the chain.
    refine forward_append.mpr ⟨forward_append.mpr ⟨forward_append.mpr
      ⟨forward_of_allows ht.allows, forward_cons_jump rfl (by omega) (ihb hbody)⟩,
      forward_cons_jump rfl ?_ ?_⟩, ?_⟩
    · simp only [List.length_append, List.length_cons]
      omega
    · refine (ihn hnext).at ?_
      simp only [List.length_append, List.length_cons]
      omega
    · refine (ihe helse).at ?_
      simp only [List.length_append, List.length_cons]
      omega

end

/-- **A function without loops is compiled to a routine without jumps back.** -/
theorem Function.forward_of_lower {f : Function} {table : RecordTable} {r : Routine}
    (h : f.lower table = .ok r) (hfree : Stmt.allLoopFree f.body = true) : r.Forward := by
  obtain ⟨code, hcode, rfl, -⟩ := Function.lower_eq_ok h
  obtain ⟨body, scope', rfl, hbody⟩ := Function.code_eq_ok hcode (Stmt.allObey_free f.body)
  have hforward : Opstack.Forward 0 (storeCode 0 f.params.length ++ body ++ endCode f.body) := by
    refine forward_append.mpr ⟨forward_append.mpr ⟨forward_storeCode _ _ _, ?_⟩, ?_⟩
    · refine (hbody.forward hfree).at ?_
      rw [length_storeCode, Nat.zero_add]
    · rw [endCode]
      split
      · exact forward_nil
      · exact forward_append.mpr ⟨forward_singleton rfl, forward_singleton rfl⟩
  intro index i hi hjump
  rw [Routine.get?, List.getElem?_toArray] at hi
  obtain ⟨target, harg, hlt⟩ := hforward index i hi hjump
  exact ⟨target, harg, Nat.zero_add index ▸ hlt⟩

end Opstack
