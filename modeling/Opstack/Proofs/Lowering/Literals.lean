import Opstack.Proofs.Lowering.Jumps

/-!
# The literals of compiled code

A reference to an object only makes sense in the heap of one machine, so a routine that carries one
as a literal could name anything.  Programs cannot write such literals: `Function.lower_refFree`
says that no instruction of a compiled function carries one.
-/

set_option autoImplicit false

namespace Opstack

/-- The instruction does not carry a reference. -/
def Instr.isRefFree (i : Instr) : Bool :=
  match i.arg with
  | some (.literal (.ref _)) => false
  | _ => true

/-- No instruction of the routine carries a reference. -/
def Routine.RefFree (r : Routine) : Prop :=
  ∀ index i, r.get? index = some i → i.isRefFree = true

/-- A value of a literal is not a reference. -/
theorem Token.value_ne_ref {t : Token} {o : ObjectId} : t.value ≠ .ok (.ref o) := by
  rw [value]
  repeat' split
  all_goals exact fun h => by cases h

theorem Token.isRefFree_push {t : Token} {v : Value} (h : t.value = .ok v) :
    (Instr.push v).isRefFree = true := by
  cases v with
  | ref o => exact absurd h t.value_ne_ref
  | _ => rfl

/-- No instruction of the code carries a reference. -/
def RefFree (code : List Instr) : Prop := ∀ i ∈ code, i.isRefFree = true

theorem Routine.refFree_of_code {r : Routine} (h : Opstack.RefFree r.code.toList) : r.RefFree :=
  fun _ i hi => h i (Array.mem_toList_iff.mpr (Array.mem_of_getElem? hi))

section

variable {a b code : List Instr} {i : Instr}

@[simp] theorem refFree_nil : RefFree [] := List.forall_mem_nil _

@[simp] theorem refFree_append : RefFree (a ++ b) ↔ RefFree a ∧ RefFree b :=
  List.forall_mem_append

@[simp] theorem refFree_cons : RefFree (i :: code) ↔ i.isRefFree = true ∧ RefFree code :=
  List.forall_mem_cons

theorem refFree_singleton (h : i.isRefFree = true) : RefFree [i] :=
  List.forall_mem_singleton.mpr h

theorem refFree_callCode (name : String) : RefFree (callCode name) := by
  unfold callCode builtin?
  split
  case h_1 => exact refFree_cons.mpr ⟨rfl, refFree_singleton rfl⟩
  case h_2 =>
    exact refFree_cons.mpr ⟨rfl, refFree_cons.mpr ⟨rfl, refFree_cons.mpr ⟨rfl,
      refFree_singleton rfl⟩⟩⟩
  all_goals exact refFree_singleton rfl

theorem refFree_countingCode (name : String) (slot : Nat) : RefFree (countingCode name slot) := by
  simp [countingCode, Instr.load, Instr.push, Instr.plain, Instr.store, Instr.withComment,
    Instr.isRefFree]

theorem refFree_storeCode (slot n : Nat) : RefFree (storeCode slot n) := by
  induction n generalizing slot with
  | zero => exact refFree_nil
  | succ n ih => exact refFree_cons.mpr ⟨rfl, ih _⟩

end

section

variable {rules : Rules} {table : RecordTable} {start : Nat} {scope scope' : Scope}
  {code : List Instr} {marks : List Nat}

theorem Term.Code.refFree {term : Term} (h : Term.Code rules table scope term code) :
    RefFree code := by
  induction h with
  | literal hv => exact refFree_singleton (Token.isRefFree_push hv)
  | path _ ih => exact ih
  | call _ _ ih => exact refFree_append.mpr ⟨ih, refFree_callCode _⟩
  | newRecord _ _ _ ih => exact refFree_cons.mpr ⟨rfl, ih⟩
  | newArray _ ih | not _ ih | indexed _ ih =>
    exact refFree_append.mpr ⟨ih, refFree_singleton rfl⟩
  | binary _ _ _ ih ih' | swapped _ _ _ ih ih' =>
    exact refFree_append.mpr ⟨refFree_append.mpr ⟨ih, ih'⟩, refFree_singleton rfl⟩
  | noArgs | noFields | noSteps | plain => exact refFree_nil
  | args _ _ ih ih' => exact refFree_append.mpr ⟨ih, ih'⟩
  | fields _ _ ih ih' =>
    exact refFree_append.mpr ⟨refFree_cons.mpr ⟨rfl, ih⟩, refFree_cons.mpr ⟨rfl, ih'⟩⟩
  | start _ _ _ ih ih' | steps _ _ ih ih' =>
    exact refFree_append.mpr ⟨refFree_cons.mpr ⟨rfl, ih⟩, ih'⟩

theorem FieldTarget.Code.refFree {steps : List Step} {last : Instr}
    (h : FieldTarget.Code rules table scope steps code last) : RefFree code := by
  induction h with
  | field => exact refFree_nil
  | cell h => exact refFree_cons.mpr ⟨rfl, h.refFree⟩
  | step h _ ih => exact refFree_append.mpr ⟨refFree_cons.mpr ⟨rfl, h.refFree⟩, ih⟩

theorem Target.Code.refFree {steps : List Step} {last : Instr}
    (h : Target.Code rules table scope steps code last) : RefFree code := by
  cases h with
  | slot _ => exact refFree_nil
  | cell _ h => exact refFree_cons.mpr ⟨rfl, h.refFree⟩
  | step _ h hrest => exact refFree_append.mpr ⟨refFree_cons.mpr ⟨rfl, h.refFree⟩, hrest.refFree⟩

theorem Target.Code.last_refFree {steps : List Step} {last : Instr}
    (h : Target.Code rules table scope steps code last) : last.isRefFree = true := by
  rcases h.last_eq with ⟨l, _, rfl⟩ | ⟨field, rfl⟩ | rfl <;> rfl

/-- No instruction of a statement carries a reference. -/
theorem Clause.Code.refFree {clause : Clause}
    (h : Clause.Code rules table start scope clause code scope' marks) : RefFree code := by
  induction h with
  | ret h | declare h => exact refFree_append.mpr ⟨h.refFree, refFree_singleton rfl⟩
  | declareNull => exact refFree_cons.mpr ⟨rfl, refFree_singleton rfl⟩
  | assign ht h =>
    exact refFree_append.mpr ⟨refFree_append.mpr ⟨ht.refFree, h.refFree⟩,
      refFree_singleton ht.last_refFree⟩
  | whileLoop ht _ ih =>
    exact refFree_append.mpr ⟨refFree_append.mpr ⟨ht.refFree, refFree_cons.mpr ⟨rfl, ih⟩⟩,
      refFree_singleton rfl⟩
  | forLoop hi hl _ ih =>
    simp only [refFree_append, refFree_cons]
    exact ⟨⟨⟨⟨hi.refFree, rfl, ⟨rfl, hl.refFree⟩, rfl, refFree_nil⟩, rfl, ih⟩,
      refFree_countingCode _ _⟩, rfl, refFree_nil⟩
  | branch _ ih | next _ ih | orElse _ ih => exact ih
  | call _ h =>
    exact refFree_append.mpr ⟨refFree_append.mpr ⟨h.refFree, refFree_callCode _⟩,
      refFree_singleton rfl⟩
  | nil | noNext | noElse => exact refFree_nil
  | cons _ _ ih ih' => exact refFree_append.mpr ⟨ih, ih'⟩
  | arm _ ht _ _ _ ihb ihn ihe =>
    simp only [refFree_append, refFree_cons]
    exact ⟨⟨⟨ht.refFree, rfl, ihb⟩, rfl, ihn⟩, ihe⟩

end

theorem Function.code_refFree {f : Function} {table : RecordTable} {code : List Instr}
    (h : f.code table = .ok code) : RefFree code := by
  obtain ⟨body, scope', rfl, hbody⟩ := Function.code_eq_ok h (Stmt.allObey_free f.body)
  refine refFree_append.mpr ⟨refFree_append.mpr ⟨refFree_storeCode _ _, hbody.refFree⟩, ?_⟩
  rw [endCode]
  split
  · exact refFree_nil
  · exact refFree_cons.mpr ⟨rfl, refFree_singleton rfl⟩

/-- **No instruction of a compiled function carries a reference.** -/
theorem Function.lower_refFree {f : Function} {table : RecordTable} {r : Routine}
    (h : f.lower table = .ok r) : r.RefFree := by
  obtain ⟨code, hcode, rfl, -⟩ := Function.lower_eq_ok h
  intro index i hi
  rw [Routine.get?, List.getElem?_toArray] at hi
  exact Function.code_refFree hcode i (List.mem_of_getElem? hi)

end Opstack
