import Opstack.Machine.Schedule

/-!
# What instructions do to the stacks

`Instr.Does` lists, once for all, what an instruction can do to the execution that performs it:
most take operands off and push others and leave the rest alone (`Opcode.pops`, `Opcode.pushes`),
and six have a case of their own.  `perform_follows` says that an instruction does nothing else.

Most faults are about the values at hand.  `Instr.Fails` says what must have come before one of the
others: an operand is missing, a `LOAD` finds no value in its slot, or the instruction does not
carry what its opcode needs (`Opcode.accepts`).

What a whole execution does is then read off this list and not off the definitions of the
instructions.
-/

set_option autoImplicit false

namespace Opstack

/-! ## Operands taken and made -/

namespace Opcode

/-- How many operands an instruction takes off the stack. -/
def pops : Opcode → Nat
  | .push | .load | .jmp | .call | .ret | .read | .allocs | .nop => 0
  | .pop | .store | .unary _ | .jmpf | .write | .len | .getf | .alloca | .wait | .dup => 1
  | .binary _ | .setf | .geti | .thread => 2
  | .seti => 3

/-- How many operands an instruction pushes. -/
def pushes : Opcode → Nat
  | .push | .load | .binary _ | .unary _ | .read | .len | .allocs | .getf | .alloca | .geti
  | .thread | .wait => 1
  | .dup => 2
  | _ => 0

/-- The instruction can work with what it carries; most need nothing. -/
def accepts (op : Opcode) (arg : Option Operand) : Bool :=
  match op with
  | .push => match arg with
    | some (.literal _) => true
    | _ => false
  | .load | .store => match arg with
    | some (.slot _) => true
    | _ => false
  | .jmp | .jmpf => match arg with
    | some (.target _) => true
    | _ => false
  | .call | .getf | .setf => match arg with
    | some (.name _) => true
    | _ => false
  | _ => true

/-- The instruction neither touches a slot nor has a say in what comes next. -/
def isPlain : Opcode → Bool
  | .load | .store | .jmp | .jmpf | .call | .ret => false
  | _ => true

end Opcode

/-- The routine of a name. -/
def routineOf? (routines : List Routine) (name : String) : Option Routine :=
  routines.find? fun r => r.name == name

/-- What an instruction does to an execution that has moved past it. -/
inductive Instr.Does (routines : List Routine) (i : Instr) : Execution → Execution → Prop
  | work {thread : Option ThreadId} {call : Nat} {taken made rest : List Value}
      {frames : List Frame} (hop : i.op.isPlain = true) (htaken : taken.length = i.op.pops)
      (hmade : made.length = i.op.pushes) :
      Does routines i ⟨thread, call, taken ++ rest, frames⟩ ⟨thread, call, made ++ rest, frames⟩
  | load {thread : Option ThreadId} {call slot : Nat} {v : Value} {operands : List Value}
      {f : Frame} {fs : List Frame} (hop : i.op = .load) (harg : i.arg = some (.slot slot))
      (hv : f.slots[slot]? = some v) :
      Does routines i ⟨thread, call, operands, f :: fs⟩ ⟨thread, call, v :: operands, f :: fs⟩
  | store {thread : Option ThreadId} {call slot : Nat} {v : Value} {operands : List Value}
      {f : Frame} {fs : List Frame} (hop : i.op = .store) (harg : i.arg = some (.slot slot)) :
      Does routines i ⟨thread, call, v :: operands, f :: fs⟩
        ⟨thread, call, operands, { f with slots := storeSlot f.slots slot v } :: fs⟩
  | jump {thread : Option ThreadId} {call target : Nat} {operands : List Value}
      {f : Frame} {fs : List Frame} (hop : i.op = .jmp) (harg : i.arg = some (.target target)) :
      Does routines i ⟨thread, call, operands, f :: fs⟩
        ⟨thread, call, operands, { f with pc := target } :: fs⟩
  | stay {thread : Option ThreadId} {call target : Nat} {operands : List Value}
      {frames : List Frame} (hop : i.op = .jmpf) (harg : i.arg = some (.target target)) :
      Does routines i ⟨thread, call, .bool true :: operands, frames⟩
        ⟨thread, call, operands, frames⟩
  | branch {thread : Option ThreadId} {call target : Nat} {operands : List Value}
      {f : Frame} {fs : List Frame} (hop : i.op = .jmpf) (harg : i.arg = some (.target target)) :
      Does routines i ⟨thread, call, .bool false :: operands, f :: fs⟩
        ⟨thread, call, operands, { f with pc := target } :: fs⟩
  | enter {thread : Option ThreadId} {call : Nat} {name : String} {routine : Routine}
      {operands : List Value} {frames : List Frame} (hop : i.op = .call)
      (harg : i.arg = some (.name name)) (hfind : routineOf? routines name = some routine) :
      Does routines i ⟨thread, call, operands, frames⟩
        ⟨thread, call, operands, { routine } :: frames⟩
  | leave {thread : Option ThreadId} {call : Nat} {operands : List Value} {frames : List Frame}
      (hop : i.op = .ret) :
      Does routines i ⟨thread, call, operands, frames⟩ ⟨thread, call, operands, frames.tail⟩

section

variable {routines : List Routine} {i : Instr} {x y : Execution}

/-- An instruction leaves the execution with its thread and its call. -/
theorem Instr.Does.owner_eq (h : i.Does routines x y) :
    y.thread = x.thread ∧ y.call = x.call := by
  cases h <;> exact ⟨rfl, rfl⟩

theorem Instr.Does.eq_of_ret (h : i.Does routines x y) (hop : i.op = .ret) :
    y = { x with frames := x.frames.tail } := by
  cases h with
  | leave _ => rfl
  | work hplain _ _ =>
    rw [hop] at hplain
    cases hplain
  | load h _ _ | store h _ | jump h _ | stay h _ | branch h _ | enter h _ _ =>
    rw [hop] at h
    cases h

theorem Instr.Does.eq_of_call (h : i.Does routines x y) (hop : i.op = .call) :
    ∃ name routine, i.arg = some (.name name) ∧ routineOf? routines name = some routine ∧
      y = { x with frames := { routine } :: x.frames } := by
  cases h with
  | enter _ harg hfind => exact ⟨_, _, harg, hfind, rfl⟩
  | work hplain _ _ =>
    rw [hop] at hplain
    cases hplain
  | load h _ _ | store h _ | jump h _ | stay h _ | branch h _ | leave h =>
    rw [hop] at h
    cases h

end

/-! ## Slots -/

/-- **What a store makes of a slot**: its own slot has the new value, a slot in use has the value
that it had, and the slots between have come into use with `null`. -/
theorem getElem?_storeSlot (slots : Array Value) (slot : Nat) (v : Value) (s : Nat) :
    (storeSlot slots slot v)[s]? =
      if s = slot then some v else slots[s]?.or (if s < slot then some .null else none) := by
  rw [storeSlot]
  by_cases hs : s = slot
  · rw [if_pos hs, hs]
    split
    · rename_i hlt
      exact Array.getElem?_setIfInBounds_self_of_lt hlt
    · have hsize : (slots ++ Array.replicate (slot - slots.size) Value.null).size = slot := by
        rw [Array.size_append, Array.size_replicate]
        omega
      rw [Array.getElem?_push, hsize, if_pos rfl]
  · rw [if_neg hs]
    split
    · rename_i hlt
      rw [Array.getElem?_setIfInBounds_ne (Ne.symm hs)]
      by_cases hin : s < slots.size
      · rw [Array.getElem?_eq_getElem hin, Option.some_or]
      · rw [Array.getElem?_eq_none (by omega), if_neg (by omega), Option.or_none]
    · rename_i hge
      rw [Array.getElem?_push, Array.size_append, Array.size_replicate, if_neg (by omega),
        Array.getElem?_append, Array.getElem?_replicate]
      by_cases hin : s < slots.size
      · rw [if_pos hin, Array.getElem?_eq_getElem hin, Option.some_or]
      · rw [if_neg hin, Array.getElem?_eq_none (by omega), Option.none_or]
        by_cases hlt : s < slot
        · rw [if_pos hlt, if_pos (by omega)]
        · rw [if_neg hlt, if_neg (by omega)]

theorem size_storeSlot (slots : Array Value) (slot : Nat) (v : Value) :
    (storeSlot slots slot v).size = max slots.size (slot + 1) := by
  rw [storeSlot]
  split
  · rw [Array.size_setIfInBounds]
    omega
  · rw [Array.size_push, Array.size_append, Array.size_replicate]
    omega

theorem getElem?_storeSlot_self (slots : Array Value) (slot : Nat) (v : Value) :
    (storeSlot slots slot v)[slot]? = some v := by
  rw [getElem?_storeSlot, if_pos rfl]

theorem getElem?_storeSlot_of_ne {slots : Array Value} {s slot : Nat} {v w : Value}
    (hw : slots[s]? = some w) (hne : s ≠ slot) : (storeSlot slots slot v)[s]? = some w := by
  rw [getElem?_storeSlot, if_neg hne, hw, Option.some_or]

/-! ## Faults of operations -/

/-- The fault is about values, or about what names and numbers stand for: not about the stacks, the
form of the instruction, or another execution. -/
def Fault.isOfValues : Fault → Bool
  | .stackUnderflow | .uninitializedSlot _ | .malformedInstruction | .aborted => false
  | _ => true

/-- The fault is one that an operation on values raises, and names no other opcode than this. -/
def Fault.IsRaisedBy (op : Opcode) : Fault → Prop
  | .nullOperand op' | .nullReference op' | .typeMismatch op' _ | .nonBoolean op' => op' = op
  | .divisionByZero | .indexOutOfBounds _ _ | .invalidConversion _ _ => True
  | _ => False

/-- If the operation fails, then the fault has a property. -/
def FailsWith {α : Type} (P : Fault → Prop) : Except Fault α → Prop
  | .ok _ => True
  | .error e => P e

namespace FailsWith

variable {α β : Type} {P Q : Fault → Prop} {r : Except Fault α}

theorem of_error {e : Fault} (h : FailsWith P r) (hr : r = .error e) : P e := by
  subst hr
  exact h

theorem map (h : FailsWith P r) (f : α → β) : FailsWith P (r.map f) := by
  cases r with
  | error e => exact h
  | ok a => trivial

theorem bind {f : α → Except Fault β} (h : FailsWith P r)
    (hf : ∀ a, r = .ok a → FailsWith P (f a)) : FailsWith P (r >>= f) := by
  cases r with
  | error e => exact h
  | ok a => exact hf a rfl

theorem mono (h : FailsWith P r) (hPQ : ∀ e, P e → Q e) : FailsWith Q r := by
  cases r with
  | error e => exact hPQ e h
  | ok a => trivial

end FailsWith

/-- If the operation fails, the fault is about values. -/
def OfValues {α : Type} : Except Fault α → Prop
  | .ok _ => True
  | .error e => e.isOfValues = true

theorem OfValues.of_error {α : Type} {x : Except Fault α} {e : Fault} (h : OfValues x)
    (hx : x = .error e) : e.isOfValues = true := by
  subst hx
  exact h

theorem OfValues.map {α β : Type} {x : Except Fault α} (h : OfValues x) (f : α → β) :
    OfValues (x.map f) := by
  cases x with
  | error e => exact h
  | ok a => trivial

theorem FailsWith.ofValues {α : Type} {op : Opcode} {r : Except Fault α}
    (h : FailsWith (Fault.IsRaisedBy op) r) : OfValues r := by
  cases r with
  | ok a => trivial
  | error e => cases e <;> first | rfl | cases h

namespace Value

theorem mismatch_isRaisedBy (op : BinaryOp) (a b : Value) :
    (mismatch op a b).IsRaisedBy (.binary op) := by
  cases a <;> rfl

theorem add_raises (a b : Value) : FailsWith (Fault.IsRaisedBy (.binary .add)) (a.add b) := by
  unfold add
  split
  all_goals first | rfl | trivial | exact mismatch_isRaisedBy ..

theorem sub_raises (a b : Value) : FailsWith (Fault.IsRaisedBy (.binary .sub)) (a.sub b) := by
  unfold sub
  split
  all_goals first | rfl | trivial | exact mismatch_isRaisedBy ..

theorem mul_raises (a b : Value) : FailsWith (Fault.IsRaisedBy (.binary .mul)) (a.mul b) := by
  unfold mul
  split
  all_goals first | rfl | trivial | exact mismatch_isRaisedBy ..

theorem div_raises (a b : Value) : FailsWith (Fault.IsRaisedBy (.binary .div)) (a.div b) := by
  unfold div
  repeat' split
  all_goals first | rfl | trivial | exact mismatch_isRaisedBy ..

theorem less_raises (a b : Value) : FailsWith (Fault.IsRaisedBy (.binary .cmplt)) (a.less? b) := by
  unfold less?
  split
  all_goals first | rfl | trivial | exact mismatch_isRaisedBy ..

theorem lessEq_raises (a b : Value) :
    FailsWith (Fault.IsRaisedBy (.binary .cmple)) (a.lessEq? b) := by
  unfold lessEq?
  split
  all_goals first | rfl | trivial | exact mismatch_isRaisedBy ..

theorem logical_raises (op : Opcode) (a b : Value) :
    FailsWith (Fault.IsRaisedBy op) (a.logical? op b) := by
  unfold logical?
  split
  all_goals first | rfl | trivial

theorem charAt_raises (a b : Value) :
    FailsWith (Fault.IsRaisedBy (.binary .getc)) (a.charAt b) := by
  unfold charAt
  repeat' split
  all_goals first | rfl | trivial | exact mismatch_isRaisedBy ..

/-- **A binary operation that fails names its own opcode.** -/
theorem binary_raises (op : BinaryOp) (a b : Value) :
    FailsWith (Fault.IsRaisedBy (.binary op)) (binary op a b) := by
  cases op with
  | add => exact add_raises a b
  | sub => exact sub_raises a b
  | mul => exact mul_raises a b
  | div => exact div_raises a b
  | cmplt => exact (less_raises a b).map _
  | cmple => exact (lessEq_raises a b).map _
  | cmpeq => trivial
  | cmpne => trivial
  | and => exact (logical_raises _ a b).map _
  | or => exact (logical_raises _ a b).map _
  | getc => exact charAt_raises a b

/-- **A unary operation that fails names its own opcode.** -/
theorem unary_raises (op : UnaryOp) (v : Value) :
    FailsWith (Fault.IsRaisedBy (.unary op)) (unary op v) := by
  cases op with
  | not => cases v <;> first | rfl | trivial
  | toint =>
    unfold unary toInt
    repeat' split
    all_goals first | rfl | trivial
  | todbl =>
    unfold unary toDouble
    repeat' split
    all_goals first | rfl | trivial
  | tostr => cases v <;> first | rfl | trivial

theorem asObject_raises (op : Opcode) (v : Value) :
    FailsWith (Fault.IsRaisedBy op) (v.asObject op) := by
  cases v <;> first | rfl | trivial

theorem asIndex_raises (op : Opcode) (v : Value) :
    FailsWith (Fault.IsRaisedBy op) (v.asIndex op) := by
  cases v <;> first | rfl | trivial

theorem asNumber_raises (op : Opcode) (v : Value) :
    FailsWith (Fault.IsRaisedBy op) (v.asNumber op) := by
  cases v <;> first | rfl | trivial

theorem asText_raises (op : Opcode) (v : Value) :
    FailsWith (Fault.IsRaisedBy op) (v.asText op) := by
  cases v <;> first | rfl | trivial

end Value

/-- If what the instruction carries cannot be read, then its opcode cannot work with it. -/
def Instr.Carries {α : Type} (op : Opcode) (arg : Option Operand) : Except Fault α → Prop
  | .ok _ => True
  | .error e => e = .malformedInstruction ∧ op.accepts arg = false

namespace Instr

theorem carries_literalArg (i : Instr) : Carries .push i.arg i.literalArg := by
  rw [literalArg]
  rcases i.arg with _ | ⟨_ | _ | _ | _ | _⟩ <;> trivial

theorem carries_slotArg (i : Instr) : Carries .load i.arg i.slotArg := by
  rw [slotArg]
  rcases i.arg with _ | ⟨_ | _ | _ | _ | _⟩ <;> trivial

theorem carries_targetArg (i : Instr) : Carries .jmp i.arg i.targetArg := by
  rw [targetArg]
  rcases i.arg with _ | ⟨_ | _ | _ | _ | _⟩ <;> trivial

theorem carries_nameArg (i : Instr) : Carries .call i.arg i.nameArg := by
  rw [nameArg]
  rcases i.arg with _ | ⟨_ | _ | _ | _ | _⟩ <;> trivial

end Instr

namespace Heap

theorem ofValues_checkedIndex (index : Int64) (length : Nat) :
    OfValues (checkedIndex index length) := by
  rw [checkedIndex]
  split
  all_goals first | rfl | trivial

theorem ofValues_setField (h : Heap) (o : ObjectId) (field : String) (v : Value) :
    OfValues (h.setField o field v).1 := by
  rw [setField]
  split
  all_goals first | rfl | trivial

theorem ofValues_getField (h : Heap) (o : ObjectId) (field : String) :
    OfValues (h.getField o field) := by
  rw [getField]
  repeat' split
  all_goals first | rfl | trivial

theorem ofValues_allocArray (h : Heap) (length : Int64) : OfValues (h.allocArray length).1 := by
  rw [allocArray, allocArrayIf]
  split
  · rename_i e he
    rw [lengthFault?] at he
    repeat' split at he
    all_goals cases he
    · rfl
    · rfl
  · trivial

theorem ofValues_arrayLength (h : Heap) (o : ObjectId) : OfValues (h.arrayLength o) := by
  rw [arrayLength]
  split
  all_goals first | rfl | trivial

theorem ofValues_getIndex (h : Heap) (o : ObjectId) (index : Int64) :
    OfValues (h.getIndex o index) := by
  rw [getIndex]
  split
  · exact (ofValues_checkedIndex _ _).map _
  · rfl

theorem ofValues_setIndex (h : Heap) (o : ObjectId) (index : Int64) (v : Value) :
    OfValues (h.setIndex o index v).1 := by
  rw [setIndex]
  split
  · rename_i e he
    have := ofValues_arrayLength h o
    rwa [he] at this
  · split
    · rename_i length _ _ e he
      have := ofValues_checkedIndex index length
      rwa [he] at this
    · trivial

end Heap

namespace Shared

theorem ofValues_spawn (s : Shared) (call : Nat) : OfValues (s.spawn call).1 := by
  rw [spawn]
  split
  all_goals first | rfl | trivial

theorem ofValues_claim (s : Shared) (thread : ThreadId) : OfValues (s.claim thread).1 := by
  rw [claim]
  repeat' split
  all_goals first | rfl | trivial

end Shared

/-! ## One operation at a time -/

namespace Execution

/-- What the operation does with the operand stack: it replaces some operands by others, and if
the fault is not about values, then operands are missing or the instruction is not well formed. -/
def Uses (x : Execution) (op : Opcode) (arg : Option Operand) : Except Fault Execution → Prop
  | .ok y => ∃ taken made rest, taken.length = op.pops ∧ made.length = op.pushes ∧
      x.operands = taken ++ rest ∧ y = { x with operands := made ++ rest }
  | .error e => e.isOfValues = true ∨ (e = .stackUnderflow ∧ x.operands.length < op.pops) ∨
      e = .malformedInstruction ∧ op.accepts arg = false

variable {x : Execution} {op : Opcode} {arg : Option Operand}

/-- The operation reads what the instruction carries and goes on from there. -/
theorem uses_carried {α : Type} {r : Except Fault α} (hr : Instr.Carries op arg r)
    {f : α → Except Fault Execution} (hf : ∀ a, x.Uses op arg (f a)) :
    x.Uses op arg (r >>= f) := by
  cases r with
  | error e => exact .inr (.inr hr)
  | ok a => exact hf a

theorem uses_bind {α : Type} {r : Except Fault α} (hr : OfValues r)
    {f : α → Except Fault Execution} (hf : ∀ a, x.Uses op arg (f a)) :
    x.Uses op arg (r >>= f) := by
  cases r with
  | error e => exact .inl hr
  | ok a => exact hf a

section

variable {thread : Option ThreadId} {call : Nat} {frames : List Frame} {a b c v w : Value}
  {rest : List Value}

theorem uses_underflow (h : x.operands.length < op.pops) :
    x.Uses op arg (.error .stackUnderflow) :=
  .inr (.inl ⟨rfl, h⟩)

theorem uses_made (hpops : op.pops = 0) (hpushes : op.pushes = 1) (x : Execution) (v : Value) :
    x.Uses op arg (.ok (x.push v)) :=
  ⟨[], [v], x.operands, hpops.symm, hpushes.symm, rfl, rfl⟩

theorem uses_replaced (hpops : op.pops = 1) (hpushes : op.pushes = 1) :
    Uses ⟨thread, call, a :: rest, frames⟩ op arg (.ok ⟨thread, call, v :: rest, frames⟩) :=
  ⟨[a], [v], rest, hpops.symm, hpushes.symm, rfl, rfl⟩

theorem uses_combined (hpops : op.pops = 2) (hpushes : op.pushes = 1) :
    Uses ⟨thread, call, a :: b :: rest, frames⟩ op arg (.ok ⟨thread, call, v :: rest, frames⟩) :=
  ⟨[a, b], [v], rest, hpops.symm, hpushes.symm, rfl, rfl⟩

end

theorem pop_uses (x : Execution) : x.Uses .pop arg (x.pop.map Prod.snd) := by
  obtain ⟨thread, call, operands, frames⟩ := x
  cases operands with
  | nil => exact uses_underflow Nat.zero_lt_one
  | cons v rest => exact ⟨[v], [], rest, rfl, rfl, rfl, rfl⟩

theorem dup_uses (x : Execution) : x.Uses .dup arg x.dup := by
  obtain ⟨thread, call, operands, frames⟩ := x
  cases operands with
  | nil => exact uses_underflow Nat.zero_lt_one
  | cons v rest => exact ⟨[v], [v, v], rest, rfl, rfl, rfl, rfl⟩

theorem unary_uses (x : Execution) (op : UnaryOp) : x.Uses (.unary op) arg (x.unary op) := by
  obtain ⟨thread, call, operands, frames⟩ := x
  cases operands with
  | nil => exact uses_underflow Nat.zero_lt_one
  | cons v rest => exact uses_bind (Value.unary_raises op v).ofValues fun r => uses_replaced rfl rfl

theorem binary_uses (x : Execution) (op : BinaryOp) : x.Uses (.binary op) arg (x.binary op) := by
  obtain ⟨thread, call, operands, frames⟩ := x
  match operands with
  | [] => exact uses_underflow Nat.zero_lt_two
  | [_] => exact uses_underflow Nat.one_lt_two
  | b :: a :: rest =>
    exact uses_bind (Value.binary_raises op a b).ofValues fun r => uses_combined rfl rfl

theorem pushLength_uses (x : Execution) (h : Heap) : x.Uses .len arg (x.pushLength h) := by
  obtain ⟨thread, call, operands, frames⟩ := x
  cases operands with
  | nil => exact uses_underflow Nat.zero_lt_one
  | cons v rest =>
    cases v with
    | str s => exact uses_replaced rfl rfl
    | ref o => exact uses_bind (h.ofValues_arrayLength o) fun n => uses_replaced rfl rfl
    | _ => exact .inl rfl

theorem newRecord_uses (x : Execution) (h : Heap) : x.Uses .allocs arg (.ok (x.newRecord h).1) :=
  uses_made rfl rfl x _

theorem getField_uses (x : Execution) (h : Heap) (i : Instr) :
    x.Uses .getf i.arg (x.getField h i) := by
  obtain ⟨thread, call, operands, frames⟩ := x
  cases operands with
  | nil => exact uses_underflow Nat.zero_lt_one
  | cons r rest =>
    have hcarries : Instr.Carries .getf i.arg i.nameArg := i.carries_nameArg
    exact uses_bind (r.asObject_raises .getf).ofValues fun o => uses_carried hcarries fun field =>
      uses_bind (h.ofValues_getField o field) fun v => uses_replaced rfl rfl

theorem getIndex_uses (x : Execution) (h : Heap) : x.Uses .geti arg (x.getIndex h) := by
  obtain ⟨thread, call, operands, frames⟩ := x
  match operands with
  | [] => exact uses_underflow Nat.zero_lt_two
  | [_] => exact uses_underflow Nat.one_lt_two
  | n :: r :: rest =>
    exact uses_bind (r.asObject_raises .geti).ofValues fun o =>
      uses_bind (n.asIndex_raises .geti).ofValues fun index =>
        uses_bind (h.ofValues_getIndex o index) fun v => uses_combined rfl rfl

theorem setField_uses (x : Execution) (h : Heap) (i : Instr) :
    x.Uses .setf i.arg (x.setField h i).1 := by
  obtain ⟨thread, call, operands, frames⟩ := x
  match operands with
  | [] => exact uses_underflow Nat.zero_lt_two
  | [_] => exact uses_underflow Nat.one_lt_two
  | v :: r :: rest =>
    simp only [setField, pop, bind, Except.bind, pure, Except.pure]
    cases ho : r.asObject .setf with
    | error e => exact .inl ((r.asObject_raises _).ofValues.of_error ho)
    | ok o =>
      cases hfield : i.nameArg with
      | error e =>
        have hcarries := i.carries_nameArg
        rw [hfield] at hcarries
        exact .inr (.inr hcarries)
      | ok field =>
        have hset := h.ofValues_setField o field v
        dsimp only
        split
        · rename_i he
          rw [he] at hset
          exact .inl hset
        · exact ⟨[v, r], [], rest, rfl, rfl, rfl, rfl⟩

theorem setIndex_uses (x : Execution) (h : Heap) : x.Uses .seti arg (x.setIndex h).1 := by
  obtain ⟨thread, call, operands, frames⟩ := x
  match operands with
  | [] => exact uses_underflow (Nat.succ_pos 2)
  | [_] => exact uses_underflow (Nat.succ_lt_succ (Nat.succ_pos 1))
  | [_, _] => exact uses_underflow (Nat.lt_succ_self 2)
  | v :: n :: r :: rest =>
    simp only [setIndex, pop, bind, Except.bind, pure, Except.pure]
    cases ho : r.asObject .seti with
    | error e => exact .inl ((r.asObject_raises _).ofValues.of_error ho)
    | ok o =>
      cases hindex : n.asIndex .seti with
      | error e => exact .inl ((n.asIndex_raises _).ofValues.of_error hindex)
      | ok index =>
        have hset := h.ofValues_setIndex o index v
        dsimp only
        split
        · rename_i he
          rw [he] at hset
          exact .inl hset
        · exact ⟨[v, n, r], [], rest, rfl, rfl, rfl, rfl⟩

theorem newArray_uses (x : Execution) (h : Heap) : x.Uses .alloca arg (x.newArray h).1 := by
  obtain ⟨thread, call, operands, frames⟩ := x
  cases operands with
  | nil => exact uses_underflow Nat.zero_lt_one
  | cons v rest =>
    simp only [newArray, pop, bind, Except.bind, pure, Except.pure]
    cases hlength : v.asNumber .alloca with
    | error e => exact .inl ((v.asNumber_raises _).ofValues.of_error hlength)
    | ok length =>
      have halloc := h.ofValues_allocArray length
      dsimp only
      split
      · rename_i he
        rw [he] at halloc
        exact .inl halloc
      · exact uses_replaced rfl rfl

theorem write_uses (x : Execution) (c : Console) : x.Uses .write arg (x.write c).1 := by
  obtain ⟨thread, call, operands, frames⟩ := x
  cases operands with
  | nil => exact uses_underflow Nat.zero_lt_one
  | cons v rest =>
    simp only [write, pop]
    split
    · exact .inl rfl
    · exact ⟨[v], [], rest, rfl, rfl, rfl, rfl⟩

theorem read_uses (x : Execution) (c : Console) : x.Uses .read arg (x.read c).1 := by
  rw [read]
  split
  · exact .inl rfl
  · exact uses_made rfl rfl x _
  · exact uses_made rfl rfl x _

end Execution

/-! ## One instruction -/

/-- What has come before an instruction fails that an execution has moved past, in the routine of a
frame. -/
structure Instr.Fails (i : Instr) (x : Execution) (f : Frame) (e : Fault) : Prop where
  /-- An operand is missing. -/
  underflow : e = .stackUnderflow → x.operands.length < i.op.pops
  /-- A `LOAD` finds no value. -/
  uninitialized : ∀ slot, e = .uninitializedSlot slot →
    i.op = .load ∧ i.arg = some (.slot slot) ∧ f.slots[slot]? = none
  /-- The opcode cannot work with what the instruction carries. -/
  malformed : e = .malformedInstruction → i.op.accepts i.arg = false
  /-- No instruction aborts by itself. -/
  aborted : e ≠ .aborted

/-- The instruction stores to a slot that no list of slots can have for which there is so much
room. -/
def Instr.Overflows (i : Instr) (capacity : Nat) : Prop :=
  i.op = .store ∧ ∃ slot, i.arg = some (.slot slot) ∧ capacity ≤ slot

/-- What may follow from an instruction of an execution that has moved past it, in the routine of
a frame. -/
def Effect.Follows (routines : List Routine) (capacity : Nat) (i : Instr) (x : Execution)
    (f : Frame) : Effect → Prop
  | .next y => i.Does routines x y
  | .fault e => i.Fails x f e
  | .spawn y child => i.Does routines x y ∧ ∃ thread arg routine, routine ∈ routines ∧
      child = ⟨some thread, x.call, [arg], [{ routine }]⟩
  | .wait y _ => ∀ v, i.Does routines x (y.push v)
  | .crash => i.Overflows capacity

section

variable {routines : List Routine} {capacity : Nat} {i : Instr} {x : Execution} {f : Frame}

theorem fails_of_values {e : Fault} (h : e.isOfValues = true) : i.Fails x f e where
  underflow he := by
    rw [he] at h
    cases h
  uninitialized slot he := by
    rw [he] at h
    cases h
  malformed he := by
    rw [he] at h
    cases h
  aborted he := by
    rw [he] at h
    cases h

theorem fails_of_length (h : x.operands.length < i.op.pops) : i.Fails x f .stackUnderflow where
  underflow _ := h
  uninitialized slot he := by cases he
  malformed he := by cases he
  aborted he := by cases he

theorem fails_of_accepts (h : i.op.accepts i.arg = false) :
    i.Fails x f .malformedInstruction where
  underflow he := by cases he
  uninitialized slot he := by cases he
  malformed _ := h
  aborted he := by cases he

theorem follows_of_uses {op : Opcode} {r : Except Fault Execution} (hi : i.op = op)
    (hop : op.isPlain = true) (h : x.Uses op i.arg r) :
    (Effect.ofExcept r).Follows routines capacity i x f := by
  subst hi
  cases r with
  | ok y =>
    obtain ⟨taken, made, rest, htaken, hmade, hx, rfl⟩ := h
    obtain ⟨thread, call, operands, frames⟩ := x
    cases hx
    exact .work hop htaken hmade
  | error e =>
    rcases h with h | ⟨rfl, h⟩ | ⟨rfl, h⟩
    · exact fails_of_values h
    · exact fails_of_length h
    · exact fails_of_accepts h

theorem follows_bind {α : Type} {op : Opcode} {r : Except Fault α} (hi : i.op = op)
    (hr : Instr.Carries op i.arg r) {g : α → Except Fault Execution}
    (hg : ∀ a, r = .ok a → (Effect.ofExcept (g a)).Follows routines capacity i x f) :
    (Effect.ofExcept (r.bind g)).Follows routines capacity i x f := by
  subst hi
  cases r with
  | error e =>
    obtain ⟨rfl, h⟩ := hr
    exact fails_of_accepts h
  | ok a => exact hg a rfl

end

theorem Instr.slotArg_eq_ok {i : Instr} {slot : Nat} :
    i.slotArg = .ok slot ↔ i.arg = some (.slot slot) := by
  rw [slotArg]
  split <;> simp_all

theorem Instr.targetArg_eq_ok {i : Instr} {target : Nat} :
    i.targetArg = .ok target ↔ i.arg = some (.target target) := by
  rw [targetArg]
  split <;> simp_all

theorem Instr.nameArg_eq_ok {i : Instr} {name : String} :
    i.nameArg = .ok name ↔ i.arg = some (.name name) := by
  rw [nameArg]
  split <;> simp_all

theorem Execution.slot_of_overflows {x : Execution} {i : Instr} {limit capacity : Nat}
    (h : x.overflows i limit capacity = true) :
    ∃ slot, i.arg = some (.slot slot) ∧ capacity ≤ slot := by
  rw [overflows] at h
  split at h
  · rename_i slot _ _ _ _ harg _ _
    exact ⟨slot, harg, (of_decide_eq_true h).1⟩
  · cases h

theorem Shared.mem_of_find? {s : Shared} {name : String} {routine : Routine}
    (h : s.find? name = some routine) : routine ∈ s.routines :=
  List.mem_of_find?_eq_some h

theorem spawnThread_follows {i : Instr} (hop : i.op = .thread) (s : Shared) (x : Execution)
    (f : Frame) : (spawnThread s x).2.Follows s.routines s.config.host.capacity i x f := by
  have hplain : i.op.isPlain = true := by rw [hop]; rfl
  have hpops : i.op.pops = 2 := by rw [hop]; rfl
  have hpushes : i.op.pushes = 1 := by rw [hop]; rfl
  obtain ⟨thread, call, operands, frames⟩ := x
  match operands with
  | [] => exact fails_of_length (by rw [hpops]; exact Nat.zero_lt_two)
  | [v] =>
    cases hname : v.asText .thread with
    | error e =>
      simp only [spawnThread, Execution.pop, bind, Except.bind, hname]
      exact fails_of_values ((v.asText_raises _).ofValues.of_error hname)
    | ok name =>
      simp only [spawnThread, Execution.pop, bind, Except.bind, hname]
      exact fails_of_length (by rw [hpops]; exact Nat.one_lt_two)
  | v :: arg :: rest =>
    cases hname : v.asText .thread with
    | error e =>
      simp only [spawnThread, Execution.pop, bind, Except.bind, hname]
      exact fails_of_values ((v.asText_raises _).ofValues.of_error hname)
    | ok name =>
      cases hfind : s.find? name with
      | none =>
        simp only [spawnThread, Execution.pop, bind, Except.bind, hname, hfind]
        exact fails_of_values rfl
      | some routine =>
        have hspawn := s.ofValues_spawn call
        simp only [spawnThread, Execution.pop, bind, Except.bind, pure, Except.pure, hname, hfind]
        split
        · rename_i he
          rw [he] at hspawn
          exact fails_of_values hspawn
        · rename_i t _ _
          have hwork : i.Does s.routines ⟨thread, call, [v, arg] ++ rest, frames⟩
              ⟨thread, call, [.int t] ++ rest, frames⟩ := .work hplain hpops.symm hpushes.symm
          exact ⟨hwork, t, arg, routine, Shared.mem_of_find? hfind, rfl⟩

theorem claimThread_follows {i : Instr} (hop : i.op = .wait) (s : Shared) (x : Execution)
    (f : Frame) : (claimThread s x).2.Follows s.routines s.config.host.capacity i x f := by
  have hplain : i.op.isPlain = true := by rw [hop]; rfl
  have hpops : i.op.pops = 1 := by rw [hop]; rfl
  have hpushes : i.op.pushes = 1 := by rw [hop]; rfl
  obtain ⟨thread, call, operands, frames⟩ := x
  cases operands with
  | nil => exact fails_of_length (by rw [hpops]; exact Nat.zero_lt_one)
  | cons v rest =>
    simp only [claimThread, Execution.pop, bind, Except.bind, pure, Except.pure]
    cases hthread : v.asNumber .wait with
    | error e => exact fails_of_values ((v.asNumber_raises _).ofValues.of_error hthread)
    | ok awaited =>
      dsimp only
      have hclaim := s.ofValues_claim awaited
      split
      · rename_i he
        rw [he] at hclaim
        exact fails_of_values hclaim
      · intro result
        have hwork : i.Does s.routines ⟨thread, call, [v] ++ rest, frames⟩
            ⟨thread, call, [result] ++ rest, frames⟩ := .work hplain hpops.symm hpushes.symm
        exact hwork

/-- **An instruction does what is listed for it and nothing else**; it fails because of the stacks
only if an operand is missing or it loads from a slot without a value. -/
theorem perform_follows (s : Shared) (i : Instr) {x : Execution} {f : Frame} {fs : List Frame}
    (hx : x.frames = f :: fs) :
    (perform s x i).2.Follows s.routines s.config.host.capacity i x f := by
  rw [perform]
  split
  case h_1 hop =>
    refine follows_bind hop i.carries_literalArg fun v _ => ?_
    exact follows_of_uses (r := .ok (x.push v)) hop rfl (Execution.uses_made rfl rfl x v)
  case h_2 hop => exact follows_of_uses hop rfl x.pop_uses
  case h_3 hop =>
    refine follows_bind hop i.carries_slotArg fun slot harg => ?_
    obtain ⟨thread, call, operands, frames⟩ := x
    subst hx
    rw [Instr.slotArg_eq_ok] at harg
    simp only [Execution.load, Frame.load, bind, Except.bind, pure, Except.pure]
    cases hv : f.slots[slot]? with
    | none =>
      refine ⟨fun h => (by cases h), fun slot' h => ?_, fun h => (by cases h), fun h => by cases h⟩
      cases h
      exact ⟨hop, harg, hv⟩
    | some v => exact .load hop harg hv
  case h_4 hop =>
    split
    · rename_i hoverflows
      exact ⟨hop, Execution.slot_of_overflows hoverflows⟩
    refine follows_bind hop i.carries_slotArg fun slot harg => ?_
    obtain ⟨thread, call, operands, frames⟩ := x
    subst hx
    rw [Instr.slotArg_eq_ok] at harg
    cases operands with
    | nil => exact fails_of_length (by rw [hop]; exact Nat.zero_lt_one)
    | cons v rest =>
      simp only [Execution.store, Frame.store, bind, Except.bind, pure, Except.pure]
      split
      · rename_i he
        split at he
        · cases he
        · cases he
          exact fails_of_values rfl
      · rename_i he
        split at he
        · cases he
          exact .store hop harg
        · cases he
  case h_5 op hop => exact follows_of_uses hop rfl (x.binary_uses op)
  case h_6 op hop => exact follows_of_uses hop rfl (x.unary_uses op)
  case h_7 hop =>
    refine follows_bind hop i.carries_targetArg fun target harg => ?_
    obtain ⟨thread, call, operands, frames⟩ := x
    subst hx
    exact .jump hop (Instr.targetArg_eq_ok.mp harg)
  case h_8 hop =>
    refine follows_bind hop i.carries_targetArg fun target harg => ?_
    obtain ⟨thread, call, operands, frames⟩ := x
    subst hx
    rw [Instr.targetArg_eq_ok] at harg
    match operands with
    | [] => exact fails_of_length (by rw [hop]; exact Nat.zero_lt_one)
    | .bool true :: rest => exact .stay hop harg
    | .bool false :: rest => exact .branch hop harg
    | .null :: _ | .int _ :: _ | .double _ :: _ | .str _ :: _ | .ref _ :: _ =>
      exact fails_of_values rfl
  case h_9 hop =>
    refine follows_bind hop i.carries_nameArg fun name harg => ?_
    rw [Instr.nameArg_eq_ok] at harg
    cases hfind : s.find? name with
    | none => exact fails_of_values rfl
    | some routine =>
      simp only [Execution.enter]
      split
      · exact fails_of_values rfl
      · exact .enter hop harg hfind
  case h_10 hop => exact .leave hop
  case h_11 hop => exact follows_of_uses hop rfl (x.write_uses s.console)
  case h_12 hop => exact follows_of_uses hop rfl (x.read_uses s.console)
  case h_13 hop => exact follows_of_uses hop rfl (x.pushLength_uses s.heap)
  case h_14 hop => exact follows_of_uses hop rfl (x.newRecord_uses s.heap)
  case h_15 hop => exact follows_of_uses hop rfl (x.setField_uses s.heap i)
  case h_16 hop => exact follows_of_uses hop rfl (x.getField_uses s.heap i)
  case h_17 hop => exact follows_of_uses hop rfl (x.newArray_uses s.heap)
  case h_18 hop => exact follows_of_uses hop rfl (x.setIndex_uses s.heap)
  case h_19 hop => exact follows_of_uses hop rfl (x.getIndex_uses s.heap)
  case h_20 hop => exact spawnThread_follows hop s x f
  case h_21 hop => exact claimThread_follows hop s x f
  case h_22 hop => exact follows_of_uses hop rfl x.dup_uses
  case h_23 hop =>
    exact follows_of_uses (r := .ok x) hop rfl ⟨[], [], x.operands, rfl, rfl, rfl, rfl⟩

end Opstack
