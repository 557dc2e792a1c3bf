import Opstack.Proofs.Lowering.Jumps

/-!
# The form of compiled code

A routine is `Closed` if an execution that is at one of its instructions stays at its instructions:
it has a first one, jumps stay inside, and behind every other instruction than `RET` comes another
one.  Moreover every instruction carries what its opcode needs.

The routines of functions are closed (`Function.closed_of_lower`).  That their jumps stay inside is
known; that nothing runs over the end is because the code of a function ends with a `RET`, its own
or the one behind the `null` that it returns otherwise (`Function.code_ends`).
-/

set_option autoImplicit false

namespace Opstack

/-! ## Well-formed instructions -/

/-- Every instruction of the code carries what its opcode needs. -/
def Formed (code : List Instr) : Prop := ∀ i ∈ code, i.op.accepts i.arg = true

section

variable {a b code : List Instr} {i : Instr}

@[simp] theorem formed_nil : Formed [] := List.forall_mem_nil _

@[simp] theorem formed_append : Formed (a ++ b) ↔ Formed a ∧ Formed b := List.forall_mem_append

@[simp] theorem formed_cons : Formed (i :: code) ↔ i.op.accepts i.arg = true ∧ Formed code :=
  List.forall_mem_cons

theorem formed_of_allows {scope : Scope} (h : ∀ i ∈ code, scope.Allows i) : Formed code :=
  fun i hi => (h i hi).accepts

theorem formed_countingCode (name : String) (slot : Nat) : Formed (countingCode name slot) := by
  simp [countingCode, Instr.load, Instr.push, Instr.plain, Instr.store, Instr.withComment,
    Opcode.accepts]

theorem formed_storeCode (slot n : Nat) : Formed (storeCode slot n) := by
  induction n generalizing slot with
  | zero => exact formed_nil
  | succ n ih => exact formed_cons.mpr ⟨rfl, ih _⟩

end

section

variable {rules : Rules} {table : RecordTable} {start : Nat} {scope scope' : Scope}
  {code : List Instr} {marks : List Nat}

theorem Term.Code.formed {term : Term} (h : Term.Code rules table scope term code) :
    Formed code :=
  formed_of_allows h.allows

theorem Target.Code.last_accepts {steps : List Step} {last : Instr}
    (h : Target.Code rules table scope steps code last) : last.op.accepts last.arg = true := by
  rcases h.last_eq with ⟨l, _, rfl⟩ | ⟨field, rfl⟩ | rfl <;> rfl

/-- Every instruction of a statement carries what its opcode needs. -/
theorem Clause.Code.formed {clause : Clause}
    (h : Clause.Code rules table start scope clause code scope' marks) : Formed code := by
  induction h with
  | ret h | declare h => exact formed_append.mpr ⟨h.formed, formed_cons.mpr ⟨rfl, formed_nil⟩⟩
  | declareNull => exact formed_cons.mpr ⟨rfl, formed_cons.mpr ⟨rfl, formed_nil⟩⟩
  | assign ht h =>
    exact formed_append.mpr ⟨formed_append.mpr ⟨formed_of_allows ht.allows, h.formed⟩,
      formed_cons.mpr ⟨ht.last_accepts, formed_nil⟩⟩
  | whileLoop ht _ ih =>
    exact formed_append.mpr ⟨formed_append.mpr ⟨ht.formed, formed_cons.mpr ⟨rfl, ih⟩⟩,
      formed_cons.mpr ⟨rfl, formed_nil⟩⟩
  | forLoop hi hl _ ih =>
    simp only [formed_append, formed_cons]
    exact ⟨⟨⟨⟨hi.formed, rfl, ⟨rfl, hl.formed⟩, rfl, formed_nil⟩, rfl, ih⟩,
      formed_countingCode _ _⟩, rfl, formed_nil⟩
  | branch _ ih | next _ ih | orElse _ ih => exact ih
  | call _ h =>
    exact formed_append.mpr ⟨formed_append.mpr ⟨h.formed,
      formed_of_allows (allows_callCode scope _)⟩, formed_cons.mpr ⟨rfl, formed_nil⟩⟩
  | nil | noNext | noElse => exact formed_nil
  | cons _ _ ih ih' => exact formed_append.mpr ⟨ih, ih'⟩
  | arm _ ht _ _ _ ihb ihn ihe =>
    simp only [formed_append, formed_cons]
    exact ⟨⟨⟨ht.formed, rfl, ihb⟩, rfl, ihn⟩, ihe⟩

/-! ## The last instruction -/

/-- The code of a block that ends with a `return` ends with a `RET`. -/
theorem Clause.Code.ends {l : List Stmt}
    (h : Clause.Code rules table start scope (.stmts l) code scope' marks)
    (hl : l.getLast?.any Stmt.isReturn = true) : ∃ front, code = front ++ [.plain .ret] := by
  induction l generalizing start scope code marks with
  | nil => cases hl
  | cons s rest ih =>
    cases h with
    | @cons _ _ _ _ _ _ code later _ _ hs hrest =>
      cases rest with
      | nil =>
        obtain ⟨e, rfl⟩ : ∃ e, s = .ret e := by
          cases s with
          | ret e => exact ⟨e, rfl⟩
          | _ => cases hl
        cases hrest
        cases hs with
        | ret _ => exact ⟨_, List.append_nil _⟩
      | cons s' rest =>
        rw [List.getLast?_cons_cons] at hl
        obtain ⟨front, rfl⟩ := ih hrest hl
        exact ⟨code ++ front, (List.append_assoc ..).symm⟩

end

/-- **The code of a function ends with a `RET`.** -/
theorem Function.code_ends {f : Function} {table : RecordTable} {code : List Instr}
    (h : f.code table = .ok code) : ∃ front, code = front ++ [.plain .ret] := by
  obtain ⟨body, scope', rfl, hbody⟩ := Function.code_eq_ok h (Stmt.allObey_free f.body)
  by_cases hlast : f.body.getLast?.any Stmt.isReturn = true
  · obtain ⟨front, rfl⟩ := hbody.ends hlast
    rw [endCode, if_pos hlast, List.append_nil]
    exact ⟨_, (List.append_assoc ..).symm⟩
  · rw [endCode, if_neg hlast]
    exact ⟨_, List.append_cons ..⟩

theorem Function.code_formed {f : Function} {table : RecordTable} {code : List Instr}
    (h : f.code table = .ok code) : Formed code := by
  obtain ⟨body, scope', rfl, hbody⟩ := Function.code_eq_ok h (Stmt.allObey_free f.body)
  refine formed_append.mpr ⟨formed_append.mpr ⟨formed_storeCode _ _, hbody.formed⟩, ?_⟩
  rw [endCode]
  split
  · exact formed_nil
  · exact formed_cons.mpr ⟨rfl, formed_cons.mpr ⟨rfl, formed_nil⟩⟩

/-! ## Closed routines -/

/-- Whatever comes next after an instruction of the routine is one of its instructions, and all
of them carry what their opcodes need. -/
structure Routine.Closed (r : Routine) : Prop where
  /-- There is a first instruction. -/
  begins : 0 < r.size
  /-- There is another instruction behind each that does not leave the routine. -/
  next : ∀ index i, r.get? index = some i → i.op ≠ .ret → index + 1 < r.size
  /-- Jumps stay inside. -/
  jumps : r.JumpsInside
  /-- Instructions carry what their opcodes need. -/
  formed : ∀ index i, r.get? index = some i → i.op.accepts i.arg = true

/-- **The routines of functions are closed.** -/
theorem Function.closed_of_lower {f : Function} {table : RecordTable} {r : Routine}
    (h : f.lower table = .ok r) : r.Closed := by
  obtain ⟨code, hcode, rfl, -⟩ := Function.lower_eq_ok h
  obtain ⟨n, hn, hjumps⟩ := Function.code_jumpsWithin hcode
  obtain ⟨front, rfl⟩ := Function.code_ends hcode
  have hsize : (⟨f.name, (front ++ [Instr.plain .ret]).toArray⟩ : Routine).size =
      front.length + 1 := by
    rw [Routine.size, List.size_toArray, List.length_append, List.length_singleton]
  refine ⟨?_, fun index i hi hop => ?_, Routine.jumpsInside_of_within hjumps hn,
    fun index i hi => ?_⟩
  · rw [hsize]
    exact Nat.succ_pos _
  · rw [Routine.get?, List.getElem?_toArray] at hi
    rw [hsize, Nat.succ_lt_succ_iff]
    -- The only instruction that is not in front of the last one is the last one.
    refine Nat.lt_of_not_le fun hle => ?_
    rw [List.getElem?_append_right hle, List.getElem?_singleton] at hi
    split at hi
    · cases hi
      exact hop rfl
    · cases hi
  · rw [Routine.get?, List.getElem?_toArray] at hi
    exact Function.code_formed hcode i (List.mem_of_getElem? hi)

end Opstack
