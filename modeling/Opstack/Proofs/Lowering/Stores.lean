import Opstack.Proofs.Lowering.Jumps

/-!
# Which slots are stored to

A variable that can be seen in front of a statement gets another value from it only if the statement
assigns it (`Stmt.assigns`): a declaration of the same name, or a counted loop that counts in the
same name, is about another variable, and so is every assignment behind it in its block.

The code of a statement that does not assign a variable has no `STORE` to its slot
(`Clause.Code.notStores`).  This includes the counting of loops: the slots of their variables have
never been handed out before.
-/

set_option autoImplicit false

namespace Opstack

/-! ## Assigned variables -/

/-- The statement declares a variable of this name behind itself. -/
def Stmt.introduces (name : String) : Stmt → Bool
  | .declare other _ _ => other == name
  | _ => false

mutual

/-- The statement assigns the variable of this name that can be seen in front of it. -/
def Stmt.assigns (name : String) : Stmt → Bool
  | .assign [.plain other] _ => other == name
  | .whileLoop _ body => Stmt.anyAssigns name body
  | .forLoop other _ _ body => other != name && Stmt.anyAssigns name body
  | .branch b => b.assigns name
  | _ => false

/-- One of the statements assigns the variable of this name that can be seen in front of them. -/
def Stmt.anyAssigns (name : String) : List Stmt → Bool
  | [] => false
  | s :: rest => s.assigns name || (!s.introduces name && Stmt.anyAssigns name rest)

/-- A statement of the `if` assigns the variable of this name. -/
def Branch.assigns (name : String) : Branch → Bool
  | .arm _ body next orElse =>
    Stmt.anyAssigns name body || Branch.nextAssigns name next || Stmt.elseAssigns name orElse

/-- A statement of the next arm assigns the variable of this name. -/
def Branch.nextAssigns (name : String) : Option Branch → Bool
  | none => false
  | some b => b.assigns name

/-- A statement of the `else` assigns the variable of this name. -/
def Stmt.elseAssigns (name : String) : Option (List Stmt) → Bool
  | none => false
  | some body => Stmt.anyAssigns name body

end

/-- The clause assigns the variable of this name that can be seen in front of it. -/
def Clause.assigns (name : String) : Clause → Bool
  | .stmt s => s.assigns name
  | .stmts l => Stmt.anyAssigns name l
  | .branch b => b.assigns name
  | .next b => Branch.nextAssigns name b
  | .orElse body => Stmt.elseAssigns name body

/-! ## Stores -/

/-- The code has no `STORE` to the slot. -/
def NotStores (slot : Nat) (code : List Instr) : Prop :=
  ∀ i ∈ code, i.op = .store → i.arg ≠ some (.slot slot)

section

variable {slot : Nat} {code a b : List Instr} {i : Instr}

@[simp] theorem notStores_nil : NotStores slot [] := List.forall_mem_nil _

@[simp] theorem notStores_append : NotStores slot (a ++ b) ↔ NotStores slot a ∧ NotStores slot b :=
  List.forall_mem_append

@[simp] theorem notStores_cons :
    NotStores slot (i :: code) ↔
      (i.op = .store → i.arg ≠ some (.slot slot)) ∧ NotStores slot code :=
  List.forall_mem_cons

/-- An instruction of another kind in front of the code. -/
theorem notStores_cons_other (hi : decide (i.op = .store) = false) (h : NotStores slot code) :
    NotStores slot (i :: code) :=
  notStores_cons.mpr ⟨fun hop => absurd hop (of_decide_eq_false hi), h⟩

theorem notStores_store {other : Nat} (hne : slot ≠ other) (h : NotStores slot code) :
    NotStores slot (.store other :: code) :=
  notStores_cons.mpr ⟨fun _ harg => by cases harg; exact hne rfl, h⟩

theorem Scope.Allows.op_ne_store {scope : Scope} (h : scope.Allows i) : i.op ≠ .store := by
  intro hop
  cases h with
  | inert h =>
    rw [Instr.isInert, hop] at h
    cases h
  | load _ => cases hop

theorem notStores_of_allows {scope : Scope} (h : ∀ i ∈ code, scope.Allows i) :
    NotStores slot code :=
  fun i hi hop => absurd hop (h i hi).op_ne_store

theorem notStores_countingCode {other : Nat} (hne : slot ≠ other) (name : String) :
    NotStores slot (countingCode name other) :=
  notStores_cons_other rfl (notStores_cons_other rfl (notStores_cons_other
    rfl (notStores_cons.mpr ⟨fun _ harg => by cases harg; exact hne rfl, notStores_nil⟩)))

end

namespace Scope

variable {s t : Scope} {name other : String} {slot : Nat}

theorem resolve?_congr (h : s.locals = t.locals) (name : String) :
    s.resolve? name = t.resolve? name := by
  rw [resolve?, resolve?, h]

/-- A new variable hides one of its name and no other, and has a slot of its own. -/
theorem resolve?_extend (hslot : slot ≠ s.slotCount)
    (h : (s.extend other).resolve? name = some slot) :
    other ≠ name ∧ s.resolve? name = some slot := by
  rw [resolve?, locals_extend, List.find?_cons] at h
  by_cases hname : other = name
  · rw [beq_iff_eq.mpr hname] at h
    cases h
    exact absurd rfl hslot
  · rw [beq_eq_false_iff_ne.mpr hname] at h
    exact ⟨hname, h⟩

end Scope

/-! ## Statements -/

section

variable {rules : Rules} {table : RecordTable} {scope scope' : Scope} {code : List Instr}
  {slot start : Nat} {marks : List Nat}

theorem Term.Code.notStores {term : Term} (h : Term.Code rules table scope term code) :
    NotStores slot code :=
  notStores_of_allows h.allows

theorem Target.Code.notStores {steps : List Step} {last : Instr}
    (h : Target.Code rules table scope steps code last)
    (hassigns : ∀ name, scope.resolve? name = some slot → steps ≠ [.plain name]) :
    NotStores slot code ∧ NotStores slot [last] := by
  refine ⟨notStores_of_allows h.allows, ?_⟩
  cases h with
  | slot hslot =>
    refine notStores_store (fun hne => ?_) notStores_nil
    subst hne
    exact hassigns _ hslot rfl
  | cell => exact notStores_cons_other rfl notStores_nil
  | step _ _ hrest =>
    rcases hrest.last_eq with ⟨field, rfl⟩ | rfl <;>
      exact notStores_cons_other rfl notStores_nil

/-- Behind a statement a name stands for an old slot only if it did so in front of it, and the
statement does not declare it. -/
theorem Clause.Code.resolve?_eq_some {s : Stmt} {name : String}
    (h : Clause.Code rules table start scope (.stmt s) code scope' marks)
    (hslot : slot < scope.slotCount) (hname : scope'.resolve? name = some slot) :
    s.introduces name = false ∧ scope.resolve? name = some slot := by
  by_cases hdeclares : (Clause.stmt s).declares = true
  · cases h with
    | declare _ | declareNull =>
      obtain ⟨hne, hname⟩ := Scope.resolve?_extend (Nat.ne_of_lt hslot) hname
      exact ⟨beq_eq_false_iff_ne.mpr hne, hname⟩
    | ret | assign | whileLoop | forLoop | branch | call => cases hdeclares
  · rw [Bool.not_eq_true] at hdeclares
    have hintroduces : s.introduces name = false := by
      cases s with
      | declare => cases hdeclares
      | ret | assign | whileLoop | forLoop | branch | call => rfl
    exact ⟨hintroduces, Scope.resolve?_congr (h.locals_eq hdeclares) name ▸ hname⟩

/-- **A variable that is not assigned keeps its slot to itself**: if the slot has been handed out,
and a statement assigns no variable that has it, then its code does not store to it. -/
theorem Clause.Code.notStores {clause : Clause}
    (h : Clause.Code rules table start scope clause code scope' marks)
    (hslot : slot < scope.slotCount)
    (hassigns : ∀ name, scope.resolve? name = some slot → clause.assigns name = false) :
    NotStores slot code := by
  induction h with
  | ret h => exact notStores_append.mpr ⟨h.notStores, notStores_cons_other rfl notStores_nil⟩
  | declare h =>
    exact notStores_append.mpr ⟨h.notStores, notStores_store (Nat.ne_of_lt hslot) notStores_nil⟩
  | declareNull =>
    exact notStores_cons_other rfl (notStores_store (Nat.ne_of_lt hslot) notStores_nil)
  | assign ht h =>
    have htarget : NotStores slot _ ∧ NotStores slot [_] := ht.notStores fun name hname heq => by
      subst heq
      have hassigns := hassigns name hname
      simp [Clause.assigns, Stmt.assigns] at hassigns
    exact notStores_append.mpr ⟨notStores_append.mpr ⟨htarget.1, h.notStores⟩, htarget.2⟩
  | whileLoop ht _ ih =>
    refine notStores_append.mpr ⟨notStores_append.mpr ⟨ht.notStores, ?_⟩, ?_⟩
    · exact notStores_cons_other rfl (ih hslot hassigns)
    · exact notStores_cons_other rfl notStores_nil
  | @forLoop _ scope _ name _ _ _ _ _ _ _ hi hl _ ih =>
    have hne := Nat.ne_of_lt hslot
    have hbody := ih (Nat.lt_succ_of_lt hslot) fun other hother => by
      obtain ⟨hname, hother⟩ := Scope.resolve?_extend (s := scope.enter) hne hother
      have hfor := hassigns other hother
      rw [Clause.assigns, Stmt.assigns, bne_iff_ne.mpr hname, Bool.true_and] at hfor
      exact hfor
    simp only [notStores_append]
    refine ⟨⟨⟨⟨hi.notStores, ?_⟩, ?_⟩, notStores_countingCode hne _⟩, ?_⟩
    · exact notStores_store hne (notStores_cons_other rfl
        (notStores_append.mpr ⟨hl.notStores, notStores_cons_other rfl notStores_nil⟩))
    · exact notStores_cons_other rfl hbody
    · exact notStores_cons_other rfl notStores_nil
  | branch _ ih | next _ ih => exact ih hslot hassigns
  | call _ h =>
    exact notStores_append.mpr ⟨notStores_append.mpr
      ⟨h.notStores, notStores_of_allows (allows_callCode scope _)⟩,
      notStores_cons_other rfl notStores_nil⟩
  | nil | noNext | noElse => exact notStores_nil
  | @cons _ _ _ _ s rest _ _ _ _ h hrest ih ih' =>
    refine notStores_append.mpr ⟨ih hslot fun name hname => ?_,
      ih' (Nat.lt_of_lt_of_le hslot h.extends.slotCount) fun name hname => ?_⟩
    · have hany := hassigns name hname
      rw [Clause.assigns, Stmt.anyAssigns, Bool.or_eq_false_iff] at hany
      exact hany.1
    · obtain ⟨hintroduces, hname⟩ := h.resolve?_eq_some hslot hname
      have hany := hassigns name hname
      rw [Clause.assigns, Stmt.anyAssigns, Bool.or_eq_false_iff, hintroduces] at hany
      exact hany.2
  | arm _ ht hb hn _ ihb ihn ihe =>
    have hbody := ihb hslot fun name hname => by
      have harm := hassigns name hname
      simp only [Clause.assigns, Branch.assigns, Bool.or_eq_false_iff] at harm
      exact harm.1.1
    have hafter := Nat.lt_of_lt_of_le hslot hb.extends.slotCount
    have hnext := ihn hafter fun name hname => by
      have harm := hassigns name hname
      simp only [Clause.assigns, Branch.assigns, Bool.or_eq_false_iff] at harm
      exact harm.1.2
    have helse := ihe (Nat.lt_of_lt_of_le hafter hn.extends.slotCount) fun name hname => by
      have harm := hassigns name (Scope.resolve?_congr (hn.locals_eq rfl) name ▸ hname)
      simp only [Clause.assigns, Branch.assigns, Bool.or_eq_false_iff] at harm
      exact harm.2
    simp only [notStores_append]
    exact ⟨⟨⟨ht.notStores, notStores_cons_other rfl hbody⟩, notStores_cons_other rfl hnext⟩, helse⟩
  | orElse _ ih => exact ih hslot hassigns

end

end Opstack
