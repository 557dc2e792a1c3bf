import Opstack.Proofs.Heap.Objects
import Opstack.Proofs.Machine.Run

/-!
# What a fault says about the instruction

Which opcode a fault names is decided by the operations on values and on the heap and not by the
dispatcher, and so is which object a fault calls unknown.  `Fault.Fits` says that both agree with
the instruction: a fault names no other opcode, and an object that is unknown is an operand that is
not of the kind which the opcode works on.

`Execution.step_fails` takes a failing step apart: the failure is one raised at the next instruction
of the innermost activation, and the fault fits this instruction.
-/

set_option autoImplicit false

namespace Opstack

/-! ## Opcodes named by faults -/

/-- The fault names no other opcode than this and no object. -/
def Fault.Names (op : Opcode) : Fault → Prop
  | .nullOperand op' | .nullReference op' | .typeMismatch op' _ | .nonBoolean op' => op' = op
  | .unknownObject _ => False
  | _ => True

/-- What an operation on values raises under its own opcode names no other. -/
theorem FailsWith.names {α : Type} {op : Opcode} {r : Except Fault α}
    (h : FailsWith (Fault.IsRaisedBy op) r) : FailsWith (Fault.Names op) r :=
  h.mono fun e he => by cases e <;> first | exact he | trivial

namespace Value

theorem eq_of_asObject {op : Opcode} {v : Value} {o : ObjectId} (h : v.asObject op = .ok o) :
    v = .ref o := by
  cases v with
  | ref o' => rw [Except.ok.inj h]
  | _ => cases h

end Value

namespace Instr

theorem literalArg_names (op : Opcode) (i : Instr) : FailsWith (Fault.Names op) i.literalArg := by
  unfold literalArg
  split <;> trivial

theorem slotArg_names (op : Opcode) (i : Instr) : FailsWith (Fault.Names op) i.slotArg := by
  unfold slotArg
  split <;> trivial

theorem targetArg_names (op : Opcode) (i : Instr) : FailsWith (Fault.Names op) i.targetArg := by
  unfold targetArg
  split <;> trivial

theorem nameArg_names (op : Opcode) (i : Instr) : FailsWith (Fault.Names op) i.nameArg := by
  unfold nameArg
  split <;> trivial

end Instr

/-! ## Objects named by faults -/

namespace Opcode

/-- The instruction works on a record. -/
def usesRecord : Opcode → Bool
  | .setf | .getf => true
  | _ => false

/-- The instruction works on an array. -/
def usesArray : Opcode → Bool
  | .len | .seti | .geti => true
  | _ => false

end Opcode

/-- The object is not of the kind that an opcode works on. -/
def Heap.Lacks (h : Heap) (op : Opcode) (o : ObjectId) : Prop :=
  op.usesRecord = true ∧ h.isRecord o = false ∨ op.usesArray = true ∧ h.isArray o = false

/-- The fault says nothing else about an instruction than what is so: it names no other opcode,
and an object that it calls unknown is an operand and not of the kind that the opcode works on. -/
def Fault.Fits (h : Heap) (operands : List Value) (op : Opcode) : Fault → Prop
  | .nullOperand op' | .nullReference op' | .typeMismatch op' _ | .nonBoolean op' => op' = op
  | .unknownObject o => .ref o ∈ operands ∧ h.Lacks op o
  | _ => True

section

variable {h : Heap} {operands : List Value} {op : Opcode} {e : Fault}

theorem Fault.Names.fits (hnames : e.Names op) : e.Fits h operands op := by
  cases e with
  | unknownObject => exact hnames.elim
  | _ => exact hnames

theorem FailsWith.fits {α : Type} {r : Except Fault α} (hr : FailsWith (Fault.Names op) r) :
    FailsWith (Fault.Fits h operands op) r :=
  hr.mono fun _ => Fault.Names.fits

theorem Fault.Fits.opcode (hfits : e.Fits h operands op) :
    ∀ op', e.opcode? = some op' → op' = op := by
  intro op' hop
  cases e with
  | nullOperand | nullReference | typeMismatch | nonBoolean => exact Option.some.inj hop ▸ hfits
  | _ => cases hop

end

namespace Heap

variable {operands : List Value} {op : Opcode} {o : ObjectId}

theorem setField_fits (h : Heap) (field : String) (v : Value) (hop : op.usesRecord = true)
    (ho : .ref o ∈ operands) :
    FailsWith (Fault.Fits h operands op) (h.setField o field v).1 := by
  rcases h.setField_cases o field v with ⟨fields, -, heq⟩ | ⟨hrecord, heq⟩ <;> rw [heq]
  · trivial
  · exact ⟨ho, .inl ⟨hop, hrecord⟩⟩

theorem getField_fits (h : Heap) (field : String) (hop : op.usesRecord = true)
    (ho : .ref o ∈ operands) : FailsWith (Fault.Fits h operands op) (h.getField o field) := by
  rcases h.getField_cases o field with ⟨fields, v, -, -, heq⟩ | ⟨fields, -, -, heq⟩ |
    ⟨hrecord, heq⟩ <;> rw [heq]
  · trivial
  · trivial
  · exact ⟨ho, .inl ⟨hop, hrecord⟩⟩

theorem arrayLength_fits (h : Heap) (hop : op.usesArray = true) (ho : .ref o ∈ operands) :
    FailsWith (Fault.Fits h operands op) (h.arrayLength o) := by
  cases harray : h.isArray o with
  | true =>
    obtain ⟨cells, hfind⟩ := isArray_iff.mp harray
    rw [arrayLength_eq hfind]
    trivial
  | false =>
    rw [arrayLength_unknown harray]
    exact ⟨ho, .inr ⟨hop, harray⟩⟩

theorem checkedIndex_fits (h : Heap) (index : Int64) (length : Nat) :
    FailsWith (Fault.Fits h operands op) (checkedIndex index length) := by
  rw [checkedIndex]
  split <;> trivial

theorem getIndex_fits (h : Heap) (index : Int64) (hop : op.usesArray = true)
    (ho : .ref o ∈ operands) : FailsWith (Fault.Fits h operands op) (h.getIndex o index) := by
  rcases h.getIndex_cases o index with ⟨cells, i, -, -, heq⟩ | ⟨cells, e, -, hindex, heq⟩ |
    ⟨harray, heq⟩ <;> rw [heq]
  · trivial
  · exact (h.checkedIndex_fits index cells.size).of_error hindex
  · exact ⟨ho, .inr ⟨hop, harray⟩⟩

theorem setIndex_fits (h : Heap) (index : Int64) (v : Value) (hop : op.usesArray = true)
    (ho : .ref o ∈ operands) :
    FailsWith (Fault.Fits h operands op) (h.setIndex o index v).1 := by
  rcases h.setIndex_cases o index v with ⟨cells, i, -, -, heq⟩ | ⟨cells, e, -, hindex, heq⟩ |
    ⟨harray, heq⟩ <;> rw [heq]
  · trivial
  · exact (h.checkedIndex_fits index cells.size).of_error hindex
  · exact ⟨ho, .inr ⟨hop, harray⟩⟩

theorem allocArray_fits (h : Heap) (length : Int64) :
    FailsWith (Fault.Fits h operands op) (h.allocArray length).1 := by
  rw [allocArray]
  rcases h.allocArrayIf_cases length (h.hasRoom length) with ⟨-, heq⟩ | ⟨e, hfault, heq⟩ <;>
    rw [heq]
  · trivial
  · rw [lengthFault?] at hfault
    repeat' split at hfault
    all_goals cases hfault
    · trivial
    · trivial

end Heap

/-! ## One operation at a time -/

namespace Execution

variable {op : Opcode} {h : Heap} {operands : List Value}

theorem pop_fits (x : Execution) : FailsWith (Fault.Fits h operands op) x.pop := by
  obtain ⟨thread, call, _ | ⟨v, rest⟩, frames⟩ := x <;> trivial

theorem operands_of_pop {x y : Execution} {v : Value} (hpop : x.pop = .ok (v, y)) :
    x.operands = v :: y.operands := by
  obtain ⟨thread, call, _ | ⟨w, rest⟩, frames⟩ := x <;> cases hpop
  rfl

theorem dup_fits (x : Execution) : FailsWith (Fault.Fits h operands op) x.dup := by
  rw [dup]
  split <;> trivial

theorem load_fits (x : Execution) (slot : Nat) :
    FailsWith (Fault.Fits h operands op) (x.load slot) := by
  obtain ⟨thread, call, ops, _ | ⟨f, fs⟩⟩ := x
  · trivial
  · simp only [load, Frame.load]
    cases f.slots[slot]? <;> trivial

theorem store_fits (x : Execution) (slot limit : Nat) :
    FailsWith (Fault.Fits h operands op) (x.store slot limit) := by
  obtain ⟨thread, call, _ | ⟨v, rest⟩, _ | ⟨f, fs⟩⟩ := x
  · trivial
  · trivial
  · trivial
  · simp only [store, Frame.store]
    split <;> trivial

theorem unary_fits (x : Execution) (op : UnaryOp) :
    FailsWith (Fault.Fits h operands (.unary op)) (x.unary op) :=
  x.pop_fits.bind fun ⟨v, _⟩ _ => (Value.unary_raises op v).names.fits.bind fun _ _ => trivial

theorem binary_fits (x : Execution) (op : BinaryOp) :
    FailsWith (Fault.Fits h operands (.binary op)) (x.binary op) :=
  x.pop_fits.bind fun ⟨b, y⟩ _ => y.pop_fits.bind fun ⟨a, _⟩ _ =>
    (Value.binary_raises op a b).names.fits.bind fun _ _ => trivial

theorem jump_fits (x : Execution) (target : Nat) :
    FailsWith (Fault.Fits h operands op) (x.jump target) := by
  obtain ⟨thread, call, ops, _ | ⟨f, fs⟩⟩ := x <;> trivial

theorem jumpUnless_fits (x : Execution) (target : Nat) :
    FailsWith (Fault.Fits h operands .jmpf) (x.jumpUnless target) := by
  refine x.pop_fits.bind fun ⟨condition, y⟩ _ => ?_
  dsimp only
  split
  · trivial
  · exact y.jump_fits target
  · rfl

theorem enter_fits (x : Execution) (routine : Routine) (limit : Nat) :
    FailsWith (Fault.Fits h operands op) (x.enter routine limit) := by
  rw [enter]
  split <;> trivial

theorem pushLength_fits (x : Execution) (h : Heap) :
    FailsWith (Fault.Fits h x.operands .len) (x.pushLength h) := by
  refine x.pop_fits.bind fun ⟨v, y⟩ hpop => ?_
  have hmem : v ∈ x.operands := by
    rw [operands_of_pop hpop]
    exact List.mem_cons_self
  cases v with
  | str => trivial
  | ref o => exact (h.arrayLength_fits rfl hmem).bind fun _ _ => trivial
  | _ => rfl

theorem getField_fits (x : Execution) (h : Heap) (i : Instr) :
    FailsWith (Fault.Fits h x.operands .getf) (x.getField h i) := by
  refine x.pop_fits.bind fun ⟨r, y⟩ hpop => ?_
  refine (r.asObject_raises .getf).names.fits.bind fun o ho => ?_
  refine (i.nameArg_names .getf).fits.bind fun field _ => ?_
  have hmem : .ref o ∈ x.operands := by
    rw [operands_of_pop hpop, Value.eq_of_asObject ho]
    exact List.mem_cons_self
  exact (h.getField_fits field rfl hmem).bind fun _ _ => trivial

theorem getIndex_fits (x : Execution) (h : Heap) :
    FailsWith (Fault.Fits h x.operands .geti) (x.getIndex h) := by
  refine x.pop_fits.bind fun ⟨n, y⟩ hpop => y.pop_fits.bind fun ⟨r, z⟩ hpop' => ?_
  refine (r.asObject_raises .geti).names.fits.bind fun o ho => ?_
  refine (n.asIndex_raises .geti).names.fits.bind fun index _ => ?_
  have hmem : .ref o ∈ x.operands := by
    rw [operands_of_pop hpop, operands_of_pop hpop', Value.eq_of_asObject ho]
    exact List.mem_cons_of_mem _ List.mem_cons_self
  exact (h.getIndex_fits index rfl hmem).bind fun _ _ => trivial

/-- `SETF` fails because of its operands, or sets a field of the record that is one of them. -/
theorem setField_cases (x : Execution) (h : Heap) (i : Instr) :
    (∃ e, e.Names .setf ∧ x.setField h i = (.error e, h)) ∨
      ∃ v o field rest, x.operands = v :: .ref o :: rest ∧
        x.setField h i = ((h.setField o field v).1.map fun _ => { x with operands := rest },
          (h.setField o field v).2) := by
  obtain ⟨thread, call, operands, frames⟩ := x
  match operands with
  | [] | [_] => exact .inl ⟨.stackUnderflow, trivial, rfl⟩
  | v :: r :: rest =>
    simp only [setField, pop, bind, Except.bind, pure, Except.pure]
    cases ho : r.asObject .setf with
    | error e => exact .inl ⟨e, (r.asObject_raises _).names.of_error ho, rfl⟩
    | ok o =>
      cases hfield : i.nameArg with
      | error e => exact .inl ⟨e, (i.nameArg_names _).of_error hfield, rfl⟩
      | ok field =>
        refine .inr ⟨v, o, field, rest, by rw [Value.eq_of_asObject ho], ?_⟩
        dsimp only
        generalize h.setField o field v = r
        obtain ⟨result, h'⟩ := r
        cases result <;> rfl

/-- `ALLOCA` fails because of its operand, or allocates an array. -/
theorem newArray_cases (x : Execution) (h : Heap) :
    (∃ e, e.Names .alloca ∧ x.newArray h = (.error e, h)) ∨
      ∃ v length rest, x.operands = v :: rest ∧
        x.newArray h = ((h.allocArray length).1.map fun o => { x with operands := .ref o :: rest },
          (h.allocArray length).2) := by
  obtain ⟨thread, call, operands, frames⟩ := x
  match operands with
  | [] => exact .inl ⟨.stackUnderflow, trivial, rfl⟩
  | v :: rest =>
    simp only [newArray, pop, bind, Except.bind, pure, Except.pure]
    cases hlength : v.asNumber .alloca with
    | error e => exact .inl ⟨e, (v.asNumber_raises _).names.of_error hlength, rfl⟩
    | ok length =>
      refine .inr ⟨v, length, rest, rfl, ?_⟩
      dsimp only
      generalize h.allocArray length = r
      obtain ⟨result, h'⟩ := r
      cases result <;> rfl

/-- `SETI` fails because of its operands, or sets a cell of the array that is one of them. -/
theorem setIndex_cases (x : Execution) (h : Heap) :
    (∃ e, e.Names .seti ∧ x.setIndex h = (.error e, h)) ∨
      ∃ v n o index rest, x.operands = v :: n :: .ref o :: rest ∧
        x.setIndex h = ((h.setIndex o index v).1.map fun _ => { x with operands := rest },
          (h.setIndex o index v).2) := by
  obtain ⟨thread, call, operands, frames⟩ := x
  match operands with
  | [] | [_] | [_, _] => exact .inl ⟨.stackUnderflow, trivial, rfl⟩
  | v :: n :: r :: rest =>
    simp only [setIndex, pop, bind, Except.bind, pure, Except.pure]
    cases ho : r.asObject .seti with
    | error e => exact .inl ⟨e, (r.asObject_raises _).names.of_error ho, rfl⟩
    | ok o =>
      cases hindex : n.asIndex .seti with
      | error e => exact .inl ⟨e, (n.asIndex_raises _).names.of_error hindex, rfl⟩
      | ok index =>
        refine .inr ⟨v, n, o, index, rest, by rw [Value.eq_of_asObject ho], ?_⟩
        dsimp only
        generalize h.setIndex o index v = r
        obtain ⟨result, h'⟩ := r
        cases result <;> rfl

theorem setField_fits (x : Execution) (h : Heap) (i : Instr) :
    FailsWith (Fault.Fits h x.operands .setf) (x.setField h i).1 := by
  rcases x.setField_cases h i with ⟨e, he, heq⟩ | ⟨v, o, field, rest, hoperands, heq⟩ <;> rw [heq]
  · exact he.fits
  · have hmem : .ref o ∈ x.operands := by
      rw [hoperands]
      exact List.mem_cons_of_mem _ List.mem_cons_self
    exact (h.setField_fits field v rfl hmem).map _

theorem newArray_fits (x : Execution) (h : Heap) :
    FailsWith (Fault.Fits h x.operands .alloca) (x.newArray h).1 := by
  rcases x.newArray_cases h with ⟨e, he, heq⟩ | ⟨v, length, rest, -, heq⟩ <;> rw [heq]
  · exact he.fits
  · exact (h.allocArray_fits length).map _

theorem setIndex_fits (x : Execution) (h : Heap) :
    FailsWith (Fault.Fits h x.operands .seti) (x.setIndex h).1 := by
  rcases x.setIndex_cases h with ⟨e, he, heq⟩ | ⟨v, n, o, index, rest, hoperands, heq⟩ <;> rw [heq]
  · exact he.fits
  · have hmem : .ref o ∈ x.operands := by
      rw [hoperands]
      exact List.mem_cons_of_mem _ (List.mem_cons_of_mem _ List.mem_cons_self)
    exact (h.setIndex_fits index v rfl hmem).map _

theorem write_fits (x : Execution) (c : Console) :
    FailsWith (Fault.Fits h operands op) (x.write c).1 := by
  rw [write]
  split
  · rename_i e he
    exact x.pop_fits.of_error he
  · split <;> trivial

theorem read_fits (x : Execution) (c : Console) :
    FailsWith (Fault.Fits h operands op) (x.read c).1 := by
  rw [read]
  split <;> trivial

end Execution

/-! ## One instruction -/

/-- If the instruction fails, then the fault has a property. -/
def Effect.FailsWith (P : Fault → Prop) : Effect → Prop
  | .fault e => P e
  | _ => True

theorem Effect.failsWith_ofExcept {P : Fault → Prop} {r : Except Fault Execution}
    (h : Opstack.FailsWith P r) : (Effect.ofExcept r).FailsWith P := by
  cases r with
  | ok x => trivial
  | error e => exact h

namespace Shared

variable {h : Heap} {operands : List Value} {op : Opcode}

theorem spawn_fits (s : Shared) (call : Nat) :
    FailsWith (Fault.Fits h operands op) (s.spawn call).1 := by
  rw [spawn]
  split <;> trivial

theorem claim_fits (s : Shared) (thread : ThreadId) :
    FailsWith (Fault.Fits h operands op) (s.claim thread).1 := by
  rw [claim]
  split
  · trivial
  · split <;> trivial

end Shared

section

variable {h : Heap} {operands : List Value}

theorem spawnThread_fits (s : Shared) (x : Execution) :
    (spawnThread s x).2.FailsWith (Fault.Fits h operands .thread) := by
  rw [spawnThread]
  dsimp only
  split
  · rename_i e he
    refine FailsWith.of_error (P := Fault.Fits h operands .thread) ?_ he
    refine x.pop_fits.bind ?_
    rintro ⟨v, y⟩ -
    refine (v.asText_raises .thread).names.fits.bind fun name _ => y.pop_fits.bind ?_
    rintro ⟨arg, z⟩ -
    dsimp only
    split <;> trivial
  · rename_i arg routine y _
    have hspawn : FailsWith (Fault.Fits h operands .thread) (s.spawn y.call).1 :=
      s.spawn_fits y.call
    split
    · rename_i he
      rw [he] at hspawn
      exact hspawn
    · trivial

theorem claimThread_fits (s : Shared) (x : Execution) :
    (claimThread s x).2.FailsWith (Fault.Fits h operands .wait) := by
  rw [claimThread]
  dsimp only
  split
  · rename_i e he
    refine FailsWith.of_error (P := Fault.Fits h operands .wait) ?_ he
    refine x.pop_fits.bind ?_
    rintro ⟨v, y⟩ -
    exact (v.asNumber_raises .wait).names.fits.bind fun _ _ => trivial
  · rename_i thread y _
    have hclaim : FailsWith (Fault.Fits h operands .wait) (s.claim thread).1 :=
      s.claim_fits thread
    split
    · rename_i he
      rw [he] at hclaim
      exact hclaim
    · trivial

/-- **A fault fits the instruction that it arises at.** -/
theorem perform_fits (s : Shared) (x : Execution) (i : Instr) :
    (perform s x i).2.FailsWith (Fault.Fits s.heap x.operands i.op) := by
  rw [perform]
  split
  case h_1 hop =>
    exact Effect.failsWith_ofExcept ((i.literalArg_names _).fits.map _)
  case h_2 hop => exact Effect.failsWith_ofExcept (x.pop_fits.map _)
  case h_3 hop =>
    exact Effect.failsWith_ofExcept ((i.slotArg_names _).fits.bind fun slot _ => x.load_fits slot)
  case h_4 hop =>
    split
    · trivial
    · exact Effect.failsWith_ofExcept
        ((i.slotArg_names _).fits.bind fun slot _ => x.store_fits slot _)
  case h_5 op hop => rw [hop]; exact Effect.failsWith_ofExcept (x.binary_fits op)
  case h_6 op hop => rw [hop]; exact Effect.failsWith_ofExcept (x.unary_fits op)
  case h_7 hop =>
    exact Effect.failsWith_ofExcept ((i.targetArg_names _).fits.bind fun n _ => x.jump_fits n)
  case h_8 hop =>
    rw [hop]
    exact Effect.failsWith_ofExcept
      ((i.targetArg_names _).fits.bind fun n _ => x.jumpUnless_fits n)
  case h_9 hop =>
    refine Effect.failsWith_ofExcept ((i.nameArg_names _).fits.bind fun name _ => ?_)
    split
    · exact x.enter_fits _ _
    · trivial
  case h_10 hop => trivial
  case h_11 hop => exact Effect.failsWith_ofExcept (x.write_fits s.console)
  case h_12 hop => exact Effect.failsWith_ofExcept (x.read_fits s.console)
  case h_13 hop => rw [hop]; exact Effect.failsWith_ofExcept (x.pushLength_fits s.heap)
  case h_14 hop => trivial
  case h_15 hop => rw [hop]; exact Effect.failsWith_ofExcept (x.setField_fits s.heap i)
  case h_16 hop => rw [hop]; exact Effect.failsWith_ofExcept (x.getField_fits s.heap i)
  case h_17 hop => rw [hop]; exact Effect.failsWith_ofExcept (x.newArray_fits s.heap)
  case h_18 hop => rw [hop]; exact Effect.failsWith_ofExcept (x.setIndex_fits s.heap)
  case h_19 hop => rw [hop]; exact Effect.failsWith_ofExcept (x.getIndex_fits s.heap)
  case h_20 hop => rw [hop]; exact spawnThread_fits s x
  case h_21 hop => rw [hop]; exact claimThread_fits s x
  case h_22 hop => exact Effect.failsWith_ofExcept x.dup_fits
  case h_23 hop => trivial

end

/-! ## One step -/

/-- **A failing step fails at the next instruction of the innermost activation**, and the fault
fits it. -/
theorem Execution.step_fails {s s' : Shared} {x : Execution} {e : Failure}
    (h : step s x = (s', .fails e)) :
    ∃ f fs i, x.frames = f :: fs ∧ f.routine.get? f.pc = some i ∧
      e = .raised e.fault ⟨f.routine.name, f.pc, i.text⟩ x.thread ∧
      e.fault.Fits s.heap x.operands i.op := by
  rcases step_cases s x with ⟨-, hstep⟩ | ⟨i, hi, -, hstep⟩ | ⟨i, hi, -, hstep⟩ <;> rw [hstep] at h
  · cases h
  · obtain ⟨f, fs, hframes, hget⟩ := Execution.instr?_eq_some hi
    cases h
    exact ⟨f, fs, i, hframes, hget, by rw [siteOf_eq hframes]; rfl, trivial⟩
  · obtain ⟨f, fs, hframes, hget⟩ := Execution.instr?_eq_some hi
    have hfits := perform_fits s x.passed i
    rw [x.operands_passed] at hfits
    generalize perform s x.passed i = r at hfits h
    obtain ⟨s₁, effect⟩ := r
    cases effect with
    | fault fault =>
      cases h
      exact ⟨f, fs, i, hframes, hget, by rw [siteOf_eq hframes]; rfl, hfits⟩
    | _ => cases h

end Opstack
